import Mathlib.Tactic

/-!
# Bounded broadcast channels

A channel keeps the last messages sent, and every receiver has a position of its own. A receiver that falls behind what is
kept is told how many messages it has missed, and goes on with the oldest one that is left. `Carries` says what a channel
holds after a sequence of sends, `Follows` where a receiver stands.
-/

namespace Errex.Foundation

structure Broadcast (α : Type) where
  capacity : Nat
  retained : List α
  pos : Nat

inductive Received (α : Type) where
  | message (m : α)
  | lagged (skipped : Nat)
  | empty

namespace Broadcast

variable {α : Type}

def new (capacity : Nat) : Broadcast α := ⟨capacity, [], 0⟩

def send (c : Broadcast α) (m : α) : Broadcast α :=
  { c with
    retained := (c.retained ++ [m]).drop (c.retained.length + 1 - c.capacity)
    pos := c.pos + 1 }

def oldest (c : Broadcast α) : Nat := c.pos - c.retained.length

def recv (c : Broadcast α) (next : Nat) : Received α × Nat :=
  if next < c.oldest then (.lagged (c.oldest - next), c.oldest)
  else match c.retained[next - c.oldest]? with
    | some m => (.message m, next + 1)
    | none => (.empty, next)

/-- The channel after a sequence of sends: the last messages of it are kept. -/
structure Carries (c : Broadcast α) (sent : List α) : Prop where
  retained : c.retained = sent.drop (sent.length - c.capacity)
  pos : c.pos = sent.length

variable {c : Broadcast α} {sent : List α}

theorem Carries.new (capacity : Nat) : (new capacity : Broadcast α).Carries [] := ⟨List.drop_nil.symm, rfl⟩

theorem Carries.send (carries : c.Carries sent) (m : α) : (c.send m).Carries (sent ++ [m]) where
  retained := by
    have kept : c.retained.length = sent.length - (sent.length - c.capacity) := by
      rw [carries.retained, List.length_drop]
    simp only [Broadcast.send, kept]
    rw [carries.retained, ← List.drop_append_of_le_length (by omega), List.drop_drop, List.length_append,
      List.length_singleton]
    congr 1
    omega
  pos := by
    simp [Broadcast.send, carries.pos]

theorem Carries.sendAll (carries : c.Carries sent) (messages : List α) :
    (messages.foldl Broadcast.send c).Carries (sent ++ messages) := by
  induction messages generalizing c sent with
  | nil => rwa [List.append_nil]
  | cons m messages ih => simpa using ih (carries.send m)

theorem Carries.oldest (carries : c.Carries sent) : c.oldest = sent.length - c.capacity := by
  rw [Broadcast.oldest, carries.retained, carries.pos, List.length_drop]
  omega

/-- What a receiver has taken, with whether it got it, and what is still to come are the messages since it subscribed. -/
structure Follows (sent : List α) (next : Nat) (taken : List (α × Bool)) : Prop where
  inside : next ≤ sent.length
  whole : taken.map Prod.fst ++ sent.drop next <:+ sent

variable {next : Nat} {taken : List (α × Bool)}

theorem Follows.subscribe (sent : List α) : Follows sent sent.length [] where
  inside := le_rfl
  whole := by simp

theorem Follows.send (follows : Follows sent next taken) (messages : List α) :
    Follows (sent ++ messages) next taken where
  inside := by
    rw [List.length_append]
    exact follows.inside.trans (Nat.le_add_right _ _)
  whole := by
    obtain ⟨earlier, whole⟩ := follows.whole
    refine ⟨earlier, ?_⟩
    rw [List.drop_append_of_le_length follows.inside, ← List.append_assoc, ← List.append_assoc, List.append_assoc earlier,
      whole]

theorem Carries.recv_cases (carries : c.Carries sent) (next : Nat) :
    (∃ m later, c.recv next = (.message m, next + 1) ∧ sent.drop next = m :: later ∧ later = sent.drop (next + 1)) ∨
      (c.recv next = (.lagged (c.oldest - next), c.oldest) ∧ next < c.oldest ∧ c.oldest ≤ sent.length ∧
        sent.drop next = (sent.drop next).take (c.oldest - next) ++ sent.drop c.oldest) ∨
      (c.recv next = (.empty, next) ∧ sent.drop next = []) := by
  have base := carries.oldest
  unfold Broadcast.recv
  split_ifs with behind
  · refine .inr (.inl ⟨rfl, behind, by omega, ?_⟩)
    have rest : sent.drop c.oldest = (sent.drop next).drop (c.oldest - next) := by
      rw [List.drop_drop]
      congr 1
      omega
    rw [rest, List.take_append_drop]
  · have here : c.retained[next - c.oldest]? = sent[next]? := by
      rw [carries.retained, List.getElem?_drop, ← base]
      congr 1
      omega
    rw [here]
    cases found : sent[next]? with
    | none => exact .inr (.inr ⟨rfl, List.drop_eq_nil_of_le (List.getElem?_eq_none_iff.mp found)⟩)
    | some m =>
        obtain ⟨short, rfl⟩ := List.getElem?_eq_some_iff.mp found
        exact .inl ⟨_, _, rfl, List.drop_eq_getElem_cons short, rfl⟩

theorem Follows.take (follows : Follows sent next taken) (messages : List α) (got : Bool) {next' : Nat}
    (inside : next' ≤ sent.length) (split : sent.drop next = messages ++ sent.drop next') :
    Follows sent next' (taken ++ messages.map (·, got)) where
  inside := inside
  whole := by
    have whole := follows.whole
    rw [split, ← List.append_assoc] at whole
    simpa [Function.comp_def] using whole

end Broadcast

end Errex.Foundation
