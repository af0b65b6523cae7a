import Errex.Foundation.Process

/-!
# Mediated access

A process is mediated when it makes no privileged call before a call whose reply grants it. `run_mediated` is the rule for
whole systems: behind every privileged call of a run there is a turn of the same process that was granted. `sum` puts
two interfaces side by side, and `Process.inl` is a process of the first one in it.
-/

namespace Errex.Foundation

def Interface.sum (I J : Interface) : Interface := ⟨I.Call ⊕ J.Call, Sum.elim I.Reply J.Reply⟩

def Semantics.sum {I J : Interface} {ω σ τ : Type} (first : Semantics I ω σ) (second : Semantics J ω (σ × τ)) :
    Semantics (I.sum J) ω (σ × τ) := fun w c s =>
  match c with
  | .inl c => ((first w c s.1).1, (first w c s.1).2, s.2)
  | .inr c => second w c s

namespace Process

variable {I J : Interface} {ε α β ω σ : Type}

def inl : Process I ε α → Process (I.sum J) ε α
  | .ret value => .ret value
  | .throw error => .throw error
  | .panic => .panic
  | .call c resume => .call (.inl c) fun reply => (resume reply).inl

variable {privileged : I.Call → Prop} {grants : (c : I.Call) → I.Reply c → Prop} {refused : α → Prop}

/-- Up to a reply that grants it, the process makes no privileged call, and what it returns is a refusal. -/
def Mediated (privileged : I.Call → Prop) (grants : (c : I.Call) → I.Reply c → Prop) (refused : α → Prop) :
    Process I ε α → Prop
  | .ret value => refused value
  | .throw _ => True
  | .panic => True
  | .call c resume => ¬ privileged c ∧ ∀ reply, grants c reply ∨ (resume reply).Mediated privileged grants refused

theorem Mediated.any (p : Process I ε α) : p.Mediated (fun _ => False) grants fun _ => True := by
  induction p with
  | ret value => trivial
  | throw error => trivial
  | panic => trivial
  | call c resume ih => exact ⟨id, fun reply => .inr (ih reply)⟩

theorem Mediated.bind {kept : β → Prop} {p : Process I ε α} {f : α → Process I ε β}
    (first : p.Mediated privileged grants refused) (rest : ∀ a, refused a → (f a).Mediated privileged grants kept) :
    (p >>= f).Mediated privileged grants kept := by
  induction p with
  | ret value => exact rest value first
  | throw error => trivial
  | panic => trivial
  | call c resume ih => exact ⟨first.1, fun reply => (first.2 reply).imp_right (ih reply)⟩

theorem Mediated.ret {a : α} (holds : refused a) : (Process.ret a : Process I ε α).Mediated privileged grants refused :=
  holds

theorem Mediated.throw (error : ε) : (Process.throw error : Process I ε α).Mediated privileged grants refused := trivial

theorem Mediated.call {c : I.Call} {resume : I.Reply c → Process I ε α} (open_ : ¬ privileged c)
    (rest : ∀ reply, grants c reply ∨ (resume reply).Mediated privileged grants refused) :
    (Process.call c resume).Mediated privileged grants refused :=
  ⟨open_, rest⟩

theorem Mediated.pass {c : I.Call} {resume : I.Reply c → Process I ε α} (open_ : ¬ privileged c)
    (rest : ∀ reply, (resume reply).Mediated privileged grants refused) :
    (Process.call c resume).Mediated privileged grants refused :=
  ⟨open_, fun reply => .inr (rest reply)⟩

theorem Mediated.ofExcept {r : Except ε α} {f : α → Process I ε β} {kept : β → Prop}
    (rest : ∀ a, (f a).Mediated privileged grants kept) :
    (Process.ofExcept r >>= f).Mediated privileged grants kept := by
  cases r with
  | ok a => exact rest a
  | error error => trivial

theorem Mediated.ofOption {o : Option α} {f : α → Process I ε β} {kept : β → Prop}
    (rest : ∀ a, (f a).Mediated privileged grants kept) :
    (Process.ofOption o >>= f).Mediated privileged grants kept := by
  cases o with
  | some a => exact rest a
  | none => trivial

theorem Mediated.ite {condition : Prop} [Decidable condition] {p q : Process I ε α}
    (yes : p.Mediated privileged grants refused) (no : q.Mediated privileged grants refused) :
    (if condition then p else q).Mediated privileged grants refused := by
  split
  · exact yes
  · exact no

theorem Mediated.inl {granting : (c : (I.sum J).Call) → (I.sum J).Reply c → Prop} {demanding : (I.sum J).Call → Prop}
    {p : Process I ε α} (first : p.Mediated (demanding <| .inl ·) (fun c reply => granting (.inl c) reply) refused) :
    (p.inl : Process (I.sum J) ε α).Mediated demanding granting refused := by
  induction p with
  | ret value => exact first
  | throw error => trivial
  | panic => trivial
  | call c resume ih => exact ⟨first.1, fun reply => (first.2 reply).imp_right (ih reply)⟩

end Process

namespace System

variable {I : Interface} {ε α ω σ : Type} {exec : Semantics I ω σ} {privileged : I.Call → Prop}
  {grants : (c : I.Call) → I.Reply c → Prop} {refused : α → Prop} {s : System I ε α σ}

def Granted (exec : Semantics I ω σ) (grants : (c : I.Call) → I.Reply c → Prop) (i : Nat) (s : System I ε α σ)
    (turn : Nat × ω) : Prop :=
  turn.1 = i ∧ ∃ c, s.nextCall turn = some c ∧ grants c (exec turn.2 c s.state).1

def GrantedIn (exec : Semantics I ω σ) (grants : (c : I.Call) → I.Reply c → Prop) (i : Nat) (s : System I ε α σ)
    (schedule : List (Nat × ω)) : Prop :=
  ∃ before turn after, schedule = before ++ turn :: after ∧ Granted exec grants i (run exec s before) turn

theorem GrantedIn.cons {i : Nat} {turn : Nat × ω} {rest : List (Nat × ω)}
    (later : GrantedIn exec grants i (step exec s turn) rest) : GrantedIn exec grants i s (turn :: rest) := by
  obtain ⟨before, last, after, rfl, granted⟩ := later
  exact ⟨turn :: before, last, after, rfl, granted⟩

theorem call_of_nextCall {turn : Nat × ω} {c : I.Call} (next : s.nextCall turn = some c) :
    ∃ resume, s.pool[turn.1]? = some (.call c resume) := by
  unfold nextCall at next
  split at next
  · rename_i c' resume whole
    cases next
    exact ⟨resume, whole⟩
  · cases next

theorem state_step {turn : Nat × ω} {c : I.Call} (next : s.nextCall turn = some c) :
    (step exec s turn).state = (exec turn.2 c s.state).2 := by
  obtain ⟨resume, calls⟩ := call_of_nextCall next
  rw [step_call calls]

theorem mediated_step {i : Nat} {p : Process I ε α} (at_i : s.pool[i]? = some p)
    (mediated : p.Mediated privileged grants refused) (turn : Nat × ω) :
    Granted exec grants i s turn ∨
      ∃ q, (step exec s turn).pool[i]? = some q ∧ q.Mediated privileged grants refused := by
  rcases step_cases exec s turn with same | ⟨c, resume, next, after⟩
  · rw [same]
    exact .inr ⟨p, at_i, mediated⟩
  · by_cases turns : turn.1 = i
    · subst turns
      obtain rfl := Option.some.inj (at_i.symm.trans next)
      have inside := (List.getElem?_eq_some_iff.mp next).1
      refine (mediated.2 (exec turn.2 c s.state).1).imp (fun granted => ⟨rfl, c, nextCall_eq next, granted⟩) fun kept => ?_
      exact ⟨_, by simp [after, inside], kept⟩
    · exact .inr ⟨p, by simpa [after, List.getElem?_set, turns] using at_i, mediated⟩

/-- A process that was mediated at the start of a run is mediated at its end, or some turn of the run granted it. -/
theorem run_mediated_or {i : Nat} {p : Process I ε α} (at_i : s.pool[i]? = some p)
    (mediated : p.Mediated privileged grants refused) (schedule : List (Nat × ω)) :
    GrantedIn exec grants i s schedule ∨
      ∃ q, (run exec s schedule).pool[i]? = some q ∧ q.Mediated privileged grants refused := by
  induction schedule generalizing s p with
  | nil => exact .inr ⟨p, at_i, mediated⟩
  | cons turn rest ih =>
      have goes : Granted exec grants i s turn ∨ _ := mediated_step at_i mediated turn
      rcases goes with granted | ⟨q, at_i, kept⟩
      · exact .inl ⟨[], turn, rest, rfl, granted⟩
      · exact (ih at_i kept).imp_left .cons

theorem length_run (exec : Semantics I ω σ) (s : System I ε α σ) (schedule : List (Nat × ω)) :
    (run exec s schedule).pool.length = s.pool.length := by
  induction schedule generalizing s with
  | nil => rfl
  | cons turn rest ih =>
      rw [run, List.foldl_cons, ← run, ih]
      rcases step_cases exec s turn with same | ⟨c, resume, -, after⟩
      · rw [same]
      · rw [after, List.length_set]

theorem run_mediated {p : Process I ε α} {schedule : List (Nat × ω)} {turn : Nat × ω} {c : I.Call}
    (at_i : s.pool[turn.1]? = some p) (mediated : p.Mediated privileged grants refused)
    (next : (run exec s schedule).nextCall turn = some c) (demands : privileged c) :
    GrantedIn exec grants turn.1 s schedule := by
  have ends : GrantedIn exec grants turn.1 s schedule ∨ _ := run_mediated_or at_i mediated schedule
  apply ends.resolve_right
  rintro ⟨q, at_i, kept⟩
  obtain ⟨resume, calls⟩ := call_of_nextCall next
  cases Option.some.inj (at_i.symm.trans calls)
  exact kept.1 demands

theorem run_refused {i : Nat} {p : Process I ε α} {schedule : List (Nat × ω)} {value : α}
    (at_i : s.pool[i]? = some p) (mediated : p.Mediated privileged grants refused)
    (done : (run exec s schedule).pool[i]? = some (.ret value)) :
    GrantedIn exec grants i s schedule ∨ refused value := by
  have ends : GrantedIn exec grants i s schedule ∨ _ := run_mediated_or at_i mediated schedule
  apply ends.imp_right
  rintro ⟨q, at_i, kept⟩
  obtain rfl := Option.some.inj (at_i.symm.trans done)
  exact kept

end System

end Errex.Foundation
