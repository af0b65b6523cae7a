import Mathlib.Tactic

/-!
# Transactions

Statements on a state one after another, where an error rolls all of them back. `Keeps` is partial
correctness for one property of the state, with a rule for each way to build a transaction.
-/

namespace Errex.Foundation

abbrev Transaction (σ ε α : Type) := StateT σ (Except ε) α

namespace Transaction

variable {σ ε α β : Type}

def execute (statement : σ → α × σ) : Transaction σ ε α := fun s => .ok (statement s)

def read (query : σ → α) : Transaction σ ε α := fun s => .ok (query s, s)

def fail (error : ε) : Transaction σ ε α := fun _ => .error error

def fetchOne (missing : ε) (query : σ → Option α) : Transaction σ ε α := fun s =>
  match query s with
  | some row => .ok (row, s)
  | none => .error missing

variable {s s' : σ} {x : Transaction σ ε α} {f : α → Transaction σ ε β}

@[simp] theorem pure_run (a : α) : (pure a : Transaction σ ε α) s = .ok (a, s) := rfl

@[simp] theorem execute_run (statement : σ → α × σ) :
    (execute statement : Transaction σ ε α) s = .ok (statement s) := rfl

@[simp] theorem read_run (query : σ → α) :
    (read query : Transaction σ ε α) s = .ok (query s, s) := rfl

@[simp] theorem fail_run (error : ε) : (fail error : Transaction σ ε α) s = .error error := rfl

theorem fetchOne_run {missing : ε} {query : σ → Option α} {a : α} (found : query s = some a) :
    fetchOne missing query s = .ok (a, s) := by
  simp [fetchOne, found]

theorem bind_run (x : Transaction σ ε α) (f : α → Transaction σ ε β) (s : σ) :
    (x >>= f) s = (x s).bind fun r => f r.1 r.2 := by
  cases h : x s with
  | error error => simp only [bind, StateT.bind, h, Except.bind]
  | ok r => simp only [bind, StateT.bind, h, Except.bind]

theorem bind_run_ok {a : α} (h : x s = .ok (a, s')) : (x >>= f) s = f a s' := by
  rw [bind_run, h]
  rfl

theorem bind_eq_ok_iff {b : β} :
    (x >>= f) s = .ok (b, s') ↔ ∃ a s₁, x s = .ok (a, s₁) ∧ f a s₁ = .ok (b, s') := by
  rw [bind_run]
  cases h : x s with
  | error error => simp [Except.bind]
  | ok r =>
      obtain ⟨a, s₁⟩ := r
      simp [Except.bind]

/-- Where the transaction succeeds, it keeps a property of the state. -/
def Keeps (invariant : σ → Prop) (x : Transaction σ ε α) : Prop :=
  ∀ s a s', x s = .ok (a, s') → invariant s → invariant s'

variable {invariant : σ → Prop}

theorem Keeps.pure (a : α) : (Pure.pure a : Transaction σ ε α).Keeps invariant := by
  intro s b s' h holds
  cases h
  exact holds

theorem Keeps.read (query : σ → α) : (read query : Transaction σ ε α).Keeps invariant := by
  intro s b s' h holds
  cases h
  exact holds

theorem Keeps.fail (error : ε) : (fail error : Transaction σ ε α).Keeps invariant := by
  intro s b s' h
  cases h

theorem Keeps.fetchOne (missing : ε) (query : σ → Option α) :
    (fetchOne missing query).Keeps invariant := by
  intro s b s' h holds
  unfold Transaction.fetchOne at h
  cases found : query s <;> rw [found] at h <;> cases h
  exact holds

theorem Keeps.execute {statement : σ → α × σ} (keeps : ∀ s, invariant s → invariant (statement s).2) :
    (execute statement : Transaction σ ε α).Keeps invariant := by
  intro s b s' h holds
  have after : statement s = (b, s') := Except.ok.inj h
  simpa [after] using keeps s holds

theorem Keeps.bind (first : x.Keeps invariant) (rest : ∀ a, (f a).Keeps invariant) :
    (x >>= f).Keeps invariant := by
  intro s b s' h holds
  obtain ⟨a, s₁, h₁, h₂⟩ := bind_eq_ok_iff.mp h
  exact rest a s₁ b s' h₂ (first s a s₁ h₁ holds)

end Transaction

end Errex.Foundation
