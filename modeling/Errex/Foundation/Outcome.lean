import Mathlib.Tactic

/-!
# Computations that may fail, abort or run on

`Outcome` is the result of a computation with errors and panics; `iterate` runs the body of a
`while` loop on fuel. The loop rules are the ones a partial-correctness logic has for `while`:
`iterate_ne_outOfFuel` (a measure that decreases bounds the number of rounds),
`iterate_mono` (spare fuel changes nothing) and `iterate_invariant`.
-/

namespace Errex.Foundation

inductive Outcome (ε α : Type) where
  | ok (value : α)
  | err (error : ε)
  | panic
  | outOfFuel
  deriving Repr, DecidableEq

namespace Outcome

variable {ε α β : Type}

def bind (x : Outcome ε α) (f : α → Outcome ε β) : Outcome ε β :=
  match x with
  | .ok value => f value
  | .err error => .err error
  | .panic => .panic
  | .outOfFuel => .outOfFuel

instance : Monad (Outcome ε) where
  pure := .ok
  bind := bind

@[simp] theorem pure_eq (a : α) : (pure a : Outcome ε α) = .ok a := rfl

@[simp] theorem ok_bind (a : α) (f : α → Outcome ε β) : ((.ok a : Outcome ε α) >>= f) = f a := rfl

@[simp] theorem err_bind (e : ε) (f : α → Outcome ε β) : ((.err e : Outcome ε α) >>= f) = .err e := rfl

@[simp] theorem panic_bind (f : α → Outcome ε β) : ((.panic : Outcome ε α) >>= f) = .panic := rfl

@[simp] theorem outOfFuel_bind (f : α → Outcome ε β) :
    ((.outOfFuel : Outcome ε α) >>= f) = .outOfFuel := rfl

def Returns : Outcome ε α → Prop
  | .ok _ => True
  | .err _ => True
  | .panic => False
  | .outOfFuel => False

@[simp] theorem returns_ok (a : α) : (.ok a : Outcome ε α).Returns := trivial

@[simp] theorem returns_err (e : ε) : (.err e : Outcome ε α).Returns := trivial

@[simp] theorem not_returns_panic : ¬ (.panic : Outcome ε α).Returns := id

@[simp] theorem not_returns_outOfFuel : ¬ (.outOfFuel : Outcome ε α).Returns := id

theorem returns_iff {x : Outcome ε α} : x.Returns ↔ x ≠ .panic ∧ x ≠ .outOfFuel := by
  cases x <;> simp

def ofOption : Option α → Outcome ε α
  | some value => .ok value
  | none => .panic

@[simp] theorem ofOption_some (a : α) : (ofOption (some a) : Outcome ε α) = .ok a := rfl

@[simp] theorem ofOption_none : (ofOption none : Outcome ε α) = .panic := rfl

def ofExcept : Except ε α → Outcome ε α
  | .ok value => .ok value
  | .error error => .err error

@[simp] theorem ofExcept_ok (a : α) : ofExcept (.ok a : Except ε α) = .ok a := rfl

@[simp] theorem ofExcept_error (e : ε) : ofExcept (.error e : Except ε α) = .err e := rfl

end Outcome

section Loop

variable {ε σ β : Type}

/-- A `while` loop whose body gives the next state (`inl`) or leaves with a result (`inr`). -/
def iterate (body : σ → Outcome ε (σ ⊕ β)) : Nat → σ → Outcome ε β
  | 0, _ => .outOfFuel
  | fuel + 1, s => body s >>= fun
      | .inl next => iterate body fuel next
      | .inr result => .ok result

variable {body : σ → Outcome ε (σ ⊕ β)}

theorem iterate_next {s next : σ} (h : body s = .ok (.inl next)) (fuel : Nat) :
    iterate body (fuel + 1) s = iterate body fuel next := by
  simp [iterate, h]

theorem iterate_leave {s : σ} {result : β} (h : body s = .ok (.inr result)) (fuel : Nat) :
    iterate body (fuel + 1) s = .ok result := by
  simp [iterate, h]

theorem iterate_panic {s : σ} (h : body s = .panic) (fuel : Nat) :
    iterate body (fuel + 1) s = .panic := by
  simp [iterate, h]

/-- A body that always ends, from states it keeps and with a measure that decreases, makes a loop
that ends within the measure. -/
theorem iterate_ne_outOfFuel (invariant : σ → Prop) (measure : σ → Nat)
    (ends : ∀ s, invariant s → body s ≠ .outOfFuel)
    (step : ∀ s next, invariant s → body s = .ok (.inl next) →
      invariant next ∧ measure next < measure s)
    (fuel : Nat) (s : σ) (holds : invariant s) (enough : measure s < fuel) :
    iterate body fuel s ≠ .outOfFuel := by
  induction fuel generalizing s with
  | zero => omega
  | succ fuel ih =>
      cases h : body s with
      | ok result =>
          cases result with
          | inl next =>
              obtain ⟨kept, smaller⟩ := step s next holds h
              rw [iterate_next h]
              exact ih next kept (by omega)
          | inr result => simp [iterate_leave h]
      | err error => simp [iterate, h]
      | panic => simp [iterate, h]
      | outOfFuel => exact absurd h (ends s holds)

theorem iterate_mono {n m : Nat} (le : n ≤ m) {s : σ} (done : iterate body n s ≠ .outOfFuel) :
    iterate body m s = iterate body n s := by
  induction n generalizing m s with
  | zero => exact absurd rfl done
  | succ n ih =>
      obtain ⟨m, rfl⟩ : ∃ k, m = k + 1 := ⟨m - 1, by omega⟩
      cases h : body s with
      | ok result =>
          cases result with
          | inl next =>
              rw [iterate_next h] at done ⊢
              rw [iterate_next h]
              exact ih (by omega) done
          | inr result => rw [iterate_leave h, iterate_leave h]
      | err error => simp [iterate, h]
      | panic => rw [iterate_panic h, iterate_panic h]
      | outOfFuel => simp [iterate, h]

theorem iterate_invariant (invariant : σ → Prop) (post : Outcome ε β → Prop)
    (step : ∀ s, invariant s → match body s with
      | .ok (.inl next) => invariant next
      | .ok (.inr result) => post (.ok result)
      | .err error => post (.err error)
      | .panic => post .panic
      | .outOfFuel => post .outOfFuel)
    (spent : post .outOfFuel) (fuel : Nat) (s : σ) (holds : invariant s) :
    post (iterate body fuel s) := by
  induction fuel generalizing s with
  | zero => exact spent
  | succ fuel ih =>
      have round := step s holds
      cases h : body s <;> rw [h] at round
      case ok result =>
        cases result with
        | inl next =>
            rw [iterate_next h]
            exact ih next round
        | inr result =>
            rw [iterate_leave h]
            exact round
      all_goals simpa [iterate, h] using round

end Loop

end Errex.Foundation
