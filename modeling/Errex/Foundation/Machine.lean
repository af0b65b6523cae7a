import Mathlib.Tactic

/-!
# Machines

A machine takes actions one after another; an action that the state rules out does nothing.
-/

namespace Errex.Foundation.Machine

variable {σ α : Type}

def run (step : σ → α → σ) (s : σ) (actions : List α) : σ := actions.foldl step s

def Permits (step : σ → α → σ) (allowed : σ → α → Prop) (s : σ) : List α → Prop
  | [] => True
  | action :: rest => allowed s action ∧ Permits step allowed (step s action) rest

instance (step : σ → α → σ) (allowed : σ → α → Prop) [∀ s action, Decidable (allowed s action)] :
    ∀ s actions, Decidable (Permits step allowed s actions)
  | _, [] => .isTrue trivial
  | s, action :: rest =>
      have := instDecidablePermits step allowed (step s action) rest
      inferInstanceAs (Decidable (allowed s action ∧ Permits step allowed (step s action) rest))

variable {step : σ → α → σ} {allowed : σ → α → Prop} {s : σ}

theorem run_append (before after : List α) : run step s (before ++ after) = run step (run step s before) after :=
  List.foldl_append

theorem permits_append {before after : List α} : Permits step allowed s (before ++ after) ↔
    Permits step allowed s before ∧ Permits step allowed (run step s before) after := by
  induction before generalizing s with
  | nil => exact (and_iff_right trivial).symm
  | cons action rest ih => exact (and_congr_right' ih).trans and_assoc.symm

theorem exists_of_not_permits {actions : List α} (not_ : ¬ Permits step allowed s actions) :
    ∃ before action after, actions = before ++ action :: after ∧ Permits step allowed s before ∧
      ¬ allowed (run step s before) action := by
  induction actions generalizing s with
  | nil => exact absurd trivial not_
  | cons action rest ih =>
      by_cases first : allowed s action
      · obtain ⟨before, last, after, rfl, permitted, refused⟩ := ih fun later => not_ ⟨first, later⟩
        exact ⟨action :: before, last, after, rfl, ⟨first, permitted⟩, refused⟩
      · exact ⟨[], action, rest, rfl, trivial, first⟩

theorem run_invariant (invariant : σ → Prop)
    (keeps : ∀ s action, invariant s → allowed s action → invariant (step s action)) {actions : List α}
    (permitted : Permits step allowed s actions) (holds : invariant s) : invariant (run step s actions) := by
  induction actions generalizing s with
  | nil => exact holds
  | cons action rest ih => exact ih permitted.2 (keeps s action holds permitted.1)

theorem run_keeps (invariant : σ → Prop) (keeps : ∀ s action, invariant s → invariant (step s action))
    (actions : List α) (holds : invariant s) : invariant (run step s actions) := by
  induction actions generalizing s with
  | nil => exact holds
  | cons action rest ih => exact ih (keeps s action holds)

theorem run_keeps_of_forall {kind : α → Prop} (invariant : σ → Prop)
    (keeps : ∀ s action, invariant s → kind action → invariant (step s action)) {actions : List α}
    (all : ∀ action ∈ actions, kind action) (holds : invariant s) : invariant (run step s actions) := by
  induction actions generalizing s with
  | nil => exact holds
  | cons action rest ih =>
      obtain ⟨first, later⟩ := List.forall_mem_cons.mp all
      exact ih later (keeps s action holds first)

def record {γ : Type} (step : σ → α → σ) (observe : σ → α → List γ) (s : σ × List γ) (action : α) : σ × List γ :=
  (step s.1 action, s.2 ++ observe s.1 action)

theorem run_record {γ : Type} (observe : σ → α → List γ) (s : σ × List γ) (actions : List α) :
    (run (record step observe) s actions).1 = run step s.1 actions := by
  induction actions generalizing s with
  | nil => rfl
  | cons action rest ih => exact ih (record step observe s action)

end Errex.Foundation.Machine
