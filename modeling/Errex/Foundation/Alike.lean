import Errex.Foundation.Process

/-!
# Processes that look alike

Two processes look alike in two environments when they make calls that cannot be told apart, one by one, and end in the
same way. That is what it means that an observer of both the calls and the result learns nothing of what differs between
the environments.
-/

namespace Errex.Foundation.Process

variable {I : Interface} {ε α β ω σ : Type} (exec : Semantics I ω σ) (same : I.Call → I.Call → Prop)

def trace (environment : Nat → ω × σ) : Process I ε α → List I.Call
  | .call c resume =>
      c :: (resume (exec (environment 0).1 c (environment 0).2).1).trace fun n => environment (n + 1)
  | _ => []

/-- Call by call, the second process does what looks like the first one. -/
def Alike (here there : Nat → ω × σ) : Process I ε α → Process I ε α → Prop
  | .ret value, q => q = .ret value
  | .throw error, q => q = .throw error
  | .panic, q => q = .panic
  | .call c resume, q => ∃ c' resume', q = .call c' resume' ∧ same c c' ∧
      Alike (fun n => here (n + 1)) (fun n => there (n + 1))
        (resume (exec (here 0).1 c (here 0).2).1) (resume' (exec (there 0).1 c' (there 0).2).1)

variable {exec same} {here there : Nat → ω × σ} {p q : Process I ε α}

theorem Alike.observe (alike : Alike exec same here there p q) : p.observe exec here = q.observe exec there := by
  induction p generalizing q here there with
  | ret value =>
      obtain rfl := alike
      rfl
  | throw error =>
      obtain rfl := alike
      rfl
  | panic =>
      obtain rfl := alike
      rfl
  | call c resume ih =>
      obtain ⟨c', resume', rfl, -, later⟩ := alike
      have ends := ih _ later
      exact ends

theorem Alike.trace (alike : Alike exec same here there p q) :
    List.Forall₂ same (p.trace exec here) (q.trace exec there) := by
  induction p generalizing q here there with
  | ret value =>
      obtain rfl := alike
      exact .nil
  | throw error =>
      obtain rfl := alike
      exact .nil
  | panic =>
      obtain rfl := alike
      exact .nil
  | call c resume ih =>
      obtain ⟨c', resume', rfl, first, later⟩ := alike
      exact .cons first (ih _ later)

theorem Alike.ask {c : I.Call} {resume resume' : I.Reply c → Process I ε α} (looks : same c c)
    (answer : (exec (here 0).1 c (here 0).2).1 = (exec (there 0).1 c (there 0).2).1)
    (rest : ∀ reply, Alike exec same (fun n => here (n + 1)) (fun n => there (n + 1)) (resume reply) (resume' reply)) :
    Alike exec same here there (.call c resume) (.call c resume') := by
  refine ⟨c, resume', rfl, looks, ?_⟩
  rw [answer]
  exact rest _

end Errex.Foundation.Process
