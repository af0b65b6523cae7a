import Errex.Foundation.Mediation

/-!
# Assume and guarantee

A process honours a condition on calls when, as long as it is answered as it may trust to be, all its calls meet it.
`step_honours` is the rule for systems: an invariant that makes the replies trusted, and that such calls keep, outlives
a turn, and so do processes that honour the condition.
-/

namespace Errex.Foundation
namespace Process

variable {I J : Interface} {ε α β : Type} {trusted : (c : I.Call) → I.Reply c → Prop} {allowed : I.Call → Prop}

def Honours (trusted : (c : I.Call) → I.Reply c → Prop) (allowed : I.Call → Prop) : Process I ε α → Prop
  | .ret _ => True
  | .throw _ => True
  | .panic => True
  | .call c resume => allowed c ∧ ∀ reply, trusted c reply → (resume reply).Honours trusted allowed

theorem Honours.ret (a : α) : (Process.ret a : Process I ε α).Honours trusted allowed := trivial

theorem Honours.throw (error : ε) : (Process.throw error : Process I ε α).Honours trusted allowed := trivial

theorem Honours.panic : (Process.panic : Process I ε α).Honours trusted allowed := trivial

theorem Honours.call {c : I.Call} {resume : I.Reply c → Process I ε α} (first : allowed c)
    (rest : ∀ reply, trusted c reply → (resume reply).Honours trusted allowed) :
    (Process.call c resume).Honours trusted allowed :=
  ⟨first, rest⟩

theorem Honours.pass {c : I.Call} {resume : I.Reply c → Process I ε α} (first : allowed c)
    (rest : ∀ reply, (resume reply).Honours trusted allowed) : (Process.call c resume).Honours trusted allowed :=
  ⟨first, fun reply _ => rest reply⟩

theorem Honours.bind {p : Process I ε α} {f : α → Process I ε β} (first : p.Honours trusted allowed)
    (rest : ∀ a, (f a).Honours trusted allowed) : (p >>= f).Honours trusted allowed := by
  induction p with
  | ret value => exact rest value
  | throw error => trivial
  | panic => trivial
  | call c resume ih => exact ⟨first.1, fun reply trust => ih reply (first.2 reply trust)⟩

theorem Honours.ofExcept {r : Except ε α} {f : α → Process I ε β} (rest : ∀ a, r = .ok a → (f a).Honours trusted allowed) :
    (Process.ofExcept r >>= f).Honours trusted allowed := by
  cases r with
  | ok a => exact rest a rfl
  | error error => trivial

theorem Honours.ofOption {o : Option α} {f : α → Process I ε β} (rest : ∀ a, (f a).Honours trusted allowed) :
    (Process.ofOption o >>= f).Honours trusted allowed := by
  cases o with
  | some a => exact rest a
  | none => trivial

theorem Honours.ite {condition : Prop} [Decidable condition] {p q : Process I ε α}
    (yes : condition → p.Honours trusted allowed) (no : ¬ condition → q.Honours trusted allowed) :
    (if condition then p else q).Honours trusted allowed := by
  split
  · exact yes ‹_›
  · exact no ‹_›

theorem Honours.inl {trusting : (c : (I.sum J).Call) → (I.sum J).Reply c → Prop} {allowing : (I.sum J).Call → Prop}
    {p : Process I ε α} (first : p.Honours (fun c reply => trusting (.inl c) reply) (allowing <| .inl ·)) :
    (p.inl : Process (I.sum J) ε α).Honours trusting allowing := by
  induction p with
  | ret value => trivial
  | throw error => trivial
  | panic => trivial
  | call c resume ih => exact ⟨first.1, fun reply trust => ih reply (first.2 reply trust)⟩

/-- Where a reply that cannot be trusted is a grant, calls that are not allowed wait for one. -/
theorem Honours.mediated {p : Process I ε α} (honours : p.Honours trusted allowed) {privileged : I.Call → Prop}
    {grants : (c : I.Call) → I.Reply c → Prop} (open_ : ∀ c, allowed c → ¬ privileged c)
    (trust : ∀ c reply, ¬ grants c reply → trusted c reply) : p.Mediated privileged grants fun _ => True := by
  induction p with
  | ret value => trivial
  | throw error => trivial
  | panic => trivial
  | call c resume ih =>
      refine ⟨open_ c honours.1, fun reply => ?_⟩
      by_cases granted : grants c reply
      · exact .inl granted
      · exact .inr (ih reply (honours.2 reply (trust c reply granted)))

end Process

namespace System

variable {I : Interface} {ε α ω σ : Type} {exec : Semantics I ω σ} {trusted : (c : I.Call) → I.Reply c → Prop}
  {allowed : I.Call → Prop}

theorem step_honours (invariant : σ → Prop) (answers : ∀ w c s, trusted c (exec w c s).1)
    (keeps : ∀ w c s, allowed c → invariant s → invariant (exec w c s).2) (s : System I ε α σ)
    (each : ∀ p ∈ s.pool, p.Honours trusted allowed) (holds : invariant s.state) (turn : Nat × ω) :
    invariant (step exec s turn).state ∧ ∀ p ∈ (step exec s turn).pool, p.Honours trusted allowed := by
  rcases step_cases exec s turn with same | ⟨c, resume, next, after⟩
  · rw [same]
    exact ⟨holds, each⟩
  · obtain ⟨first, rest⟩ := each _ (List.mem_of_getElem? next)
    rw [after]
    refine ⟨keeps turn.2 c s.state first holds, fun p mem => ?_⟩
    rcases List.mem_or_eq_of_mem_set mem with other | rfl
    · exact each p other
    · exact rest _ (answers turn.2 c s.state)

end System

end Errex.Foundation
