import Errex.Foundation.Outcome

/-!
# Processes that share a state

A `Process` computes, and calls a shared state one atomic call at a time; a `System` is a state and
a pool of processes that take turns in any order. `run_invariant` is the rule for a property of
whole systems, `run_rely_guarantee` the one for a property of the state together with a property of
each process by itself. `observe` runs one process while anything may happen between its calls.
-/

namespace Errex.Foundation

/-- The calls that a process can make, and what each answers. -/
structure Interface where
  Call : Type
  Reply : Call → Type

inductive Process (I : Interface) (ε α : Type) where
  | ret (value : α)
  | throw (error : ε)
  | panic
  | call (c : I.Call) (resume : I.Reply c → Process I ε α)

namespace Process

variable {I : Interface} {ε α β ω σ : Type}

def bind (p : Process I ε α) (f : α → Process I ε β) : Process I ε β :=
  match p with
  | .ret value => f value
  | .throw error => .throw error
  | .panic => .panic
  | .call c resume => .call c fun reply => (resume reply).bind f

instance : Monad (Process I ε) where
  pure := .ret
  bind := bind

theorem bind_assoc {γ : Type} (p : Process I ε α) (f : α → Process I ε β) (g : β → Process I ε γ) :
    (p >>= f) >>= g = p >>= fun a => f a >>= g := by
  induction p with
  | ret value => rfl
  | throw error => rfl
  | panic => rfl
  | call c resume ih => exact congrArg (Process.call c) (funext ih)

def perform (c : I.Call) : Process I ε (I.Reply c) := .call c .ret

def ofOption : Option α → Process I ε α
  | some value => .ret value
  | none => .panic

def ofExcept : Except ε α → Process I ε α
  | .ok value => .ret value
  | .error error => .throw error

@[simp] theorem pure_eq (a : α) : (pure a : Process I ε α) = .ret a := rfl

@[simp] theorem ret_bind (a : α) (f : α → Process I ε β) : ((.ret a : Process I ε α) >>= f) = f a := rfl

@[simp] theorem throw_bind (e : ε) (f : α → Process I ε β) :
    ((.throw e : Process I ε α) >>= f) = .throw e := rfl

@[simp] theorem panic_bind (f : α → Process I ε β) : ((.panic : Process I ε α) >>= f) = .panic := rfl

@[simp] theorem call_bind (c : I.Call) (resume : I.Reply c → Process I ε α) (f : α → Process I ε β) :
    (.call c resume >>= f) = .call c fun reply => resume reply >>= f := rfl

@[simp] theorem perform_bind (c : I.Call) (f : I.Reply c → Process I ε β) :
    ((perform c : Process I ε _) >>= f) = .call c f := rfl

@[simp] theorem ofOption_some (a : α) : (ofOption (some a) : Process I ε α) = .ret a := rfl

@[simp] theorem ofOption_none : (ofOption none : Process I ε α) = .panic := rfl

@[simp] theorem ofExcept_ok (a : α) : (ofExcept (.ok a : Except ε α) : Process I ε α) = .ret a := rfl

@[simp] theorem ofExcept_error (e : ε) :
    (ofExcept (.error e : Except ε α) : Process I ε α) = .throw e := rfl

end Process

/-- How the calls act on a state, under a choice that the environment makes at each call. -/
abbrev Semantics (I : Interface) (ω σ : Type) := ω → (c : I.Call) → σ → I.Reply c × σ

section Execution

variable {I : Interface} {ε α ω σ : Type}

def performAll (exec : Semantics I ω σ) (calls : List (ω × I.Call)) (s : σ) : σ :=
  calls.foldl (fun s call => (exec call.1 call.2 s).2) s

theorem performAll_invariant (exec : Semantics I ω σ) (invariant : σ → Prop)
    (step : ∀ w c s, invariant s → invariant (exec w c s).2) (calls : List (ω × I.Call)) {s : σ}
    (holds : invariant s) : invariant (performAll exec calls s) := by
  induction calls generalizing s with
  | nil => exact holds
  | cons call calls ih => exact ih (step call.1 call.2 s holds)

def Process.observe (exec : Semantics I ω σ) (environment : Nat → ω × σ) : Process I ε α → Outcome ε α
  | .ret value => .ok value
  | .throw error => .err error
  | .panic => .panic
  | .call c resume =>
      (resume (exec (environment 0).1 c (environment 0).2).1).observe exec fun n => environment (n + 1)

def Process.calls (exec : Semantics I ω σ) (choices : Nat → ω) (s : σ) : Process I ε α → List (ω × I.Call)
  | .call c resume =>
      let (reply, s) := exec (choices 0) c s
      (choices 0, c) :: (resume reply).calls exec (fun n => choices (n + 1)) s
  | _ => []

def Process.alone (exec : Semantics I ω σ) (choices : Nat → ω) (s : σ) : Process I ε α → Outcome ε α × σ
  | .ret value => (.ok value, s)
  | .throw error => (.err error, s)
  | .panic => (.panic, s)
  | .call c resume =>
      (resume (exec (choices 0) c s).1).alone exec (fun n => choices (n + 1)) (exec (choices 0) c s).2

def Process.waiting : Process I ε α → Bool
  | .call _ _ => true
  | _ => false

def Process.Calls (allowed : I.Call → Prop) : Process I ε α → Prop
  | .call c resume => allowed c ∧ ∀ reply, (resume reply).Calls allowed
  | _ => True

theorem Process.Calls.bind {β : Type} {allowed : I.Call → Prop} {p : Process I ε α} {f : α → Process I ε β}
    (first : p.Calls allowed) (rest : ∀ a, (f a).Calls allowed) : (p >>= f).Calls allowed := by
  induction p with
  | ret value => exact rest value
  | throw error => trivial
  | panic => trivial
  | call c resume ih => exact ⟨first.1, fun reply => ih reply (first.2 reply)⟩

theorem Process.Calls.imp_of_and {allowed also_ then_ : I.Call → Prop} {p : Process I ε α} (first : p.Calls allowed)
    (second : p.Calls also_) (imp : ∀ c, allowed c → also_ c → then_ c) : p.Calls then_ := by
  induction p with
  | call c resume ih => exact ⟨imp c first.1 second.1, fun reply => ih reply (first.2 reply) (second.2 reply)⟩
  | _ => trivial

def Process.NeverPanics (exec : Semantics I ω σ) (p : Process I ε α) : Prop :=
  ∀ environment, p.observe exec environment ≠ .panic

theorem Process.observe_bind_eq_panic_iff {β : Type} {exec : Semantics I ω σ} {f : α → Process I ε β}
    (rest : ∀ a, (f a).NeverPanics exec) (p : Process I ε α) (environment : Nat → ω × σ) :
    (p >>= f).observe exec environment = .panic ↔ p.observe exec environment = .panic := by
  induction p generalizing environment with
  | ret value => simp [rest value environment, observe]
  | throw error => simp [observe]
  | panic => simp [observe]
  | call c resume ih => simpa [observe] using ih _ _

theorem Process.NeverPanics.bind {β : Type} {exec : Semantics I ω σ} {p : Process I ε α}
    {f : α → Process I ε β} (first : p.NeverPanics exec) (rest : ∀ a, (f a).NeverPanics exec) :
    (p >>= f).NeverPanics exec := fun environment panics =>
  first environment ((observe_bind_eq_panic_iff rest p environment).mp panics)

theorem Process.NeverPanics.ret {exec : Semantics I ω σ} (a : α) :
    (.ret a : Process I ε α).NeverPanics exec := fun _ => by simp [observe]

theorem Process.NeverPanics.call {exec : Semantics I ω σ} {c : I.Call}
    {resume : I.Reply c → Process I ε α} (rest : ∀ reply, (resume reply).NeverPanics exec) :
    (Process.call c resume).NeverPanics exec := fun _ => rest _ _

structure System (I : Interface) (ε α σ : Type) where
  state : σ
  pool : List (Process I ε α)

namespace System

def step (exec : Semantics I ω σ) (s : System I ε α σ) (turn : Nat × ω) : System I ε α σ :=
  match s.pool[turn.1]? with
  | some (.call c resume) =>
      let (reply, state) := exec turn.2 c s.state
      ⟨state, s.pool.set turn.1 (resume reply)⟩
  | _ => s

def nextCall (s : System I ε α σ) (turn : Nat × ω) : Option I.Call :=
  match s.pool[turn.1]? with
  | some (.call c _) => some c
  | _ => none

/-- The calls that the other processes make next meet a condition. -/
def othersNext (s : System I ε α σ) (turn : Nat × ω) (check : I.Call → Bool) : Bool :=
  s.pool.zipIdx.all fun (p, i) => i == turn.1 || match p with
    | .call c _ => check c
    | _ => true

def run (exec : Semantics I ω σ) (s : System I ε α σ) (schedule : List (Nat × ω)) : System I ε α σ :=
  schedule.foldl (step exec) s

def Permits (exec : Semantics I ω σ) (allowed : System I ε α σ → Nat × ω → Prop) (s : System I ε α σ) :
    List (Nat × ω) → Prop
  | [] => True
  | turn :: rest => allowed s turn ∧ Permits exec allowed (step exec s turn) rest

instance (exec : Semantics I ω σ) (allowed : System I ε α σ → Nat × ω → Prop)
    [∀ s turn, Decidable (allowed s turn)] : ∀ s schedule, Decidable (Permits exec allowed s schedule)
  | _, [] => .isTrue trivial
  | s, turn :: rest =>
      have := instDecidablePermits exec allowed (step exec s turn) rest
      inferInstanceAs (Decidable (allowed s turn ∧ Permits exec allowed (step exec s turn) rest))

variable {exec : Semantics I ω σ} {allowed : System I ε α σ → Nat × ω → Prop} {s : System I ε α σ}

theorem step_call {turn : Nat × ω} {c : I.Call} {resume : I.Reply c → Process I ε α}
    (next : s.pool[turn.1]? = some (.call c resume)) :
    step exec s turn =
      ⟨(exec turn.2 c s.state).2, s.pool.set turn.1 (resume (exec turn.2 c s.state).1)⟩ := by
  simp [step, next]

theorem nextCall_eq {turn : Nat × ω} {c : I.Call} {resume : I.Reply c → Process I ε α}
    (next : s.pool[turn.1]? = some (.call c resume)) : s.nextCall turn = some c := by
  simp [nextCall, next]

theorem step_cases (exec : Semantics I ω σ) (s : System I ε α σ) (turn : Nat × ω) :
    step exec s turn = s ∨ ∃ c resume, s.pool[turn.1]? = some (.call c resume) ∧
      step exec s turn =
        ⟨(exec turn.2 c s.state).2, s.pool.set turn.1 (resume (exec turn.2 c s.state).1)⟩ := by
  cases next : s.pool[turn.1]? with
  | none => exact .inl (by simp [step, next])
  | some p =>
      cases p with
      | call c resume => exact .inr ⟨c, resume, rfl, step_call next⟩
      | ret value => exact .inl (by simp [step, next])
      | throw error => exact .inl (by simp [step, next])
      | panic => exact .inl (by simp [step, next])

theorem check_of_othersNext {turn : Nat × ω} {check : I.Call → Bool} (all : s.othersNext turn check = true) {j : Nat}
    {c : I.Call} {resume : I.Reply c → Process I ε α} (other : j ≠ turn.1) (at_j : s.pool[j]? = some (.call c resume)) :
    check c = true := by
  have mem : (.call c resume, j) ∈ s.pool.zipIdx := List.mem_zipIdx_iff_getElem?.mpr at_j
  simpa [other] using List.all_eq_true.mp all _ mem

theorem pool_after {i j : Nat} {p q : Process I ε α} (at_j : (s.pool.set i q)[j]? = some p) :
    j = i ∧ p = q ∨ j ≠ i ∧ s.pool[j]? = some p := by
  rw [List.getElem?_set] at at_j
  split_ifs at at_j with same inside
  · exact .inl ⟨same.symm, (Option.some.inj at_j).symm⟩
  · exact .inr ⟨Ne.symm same, at_j⟩

theorem Permits.mono {demanding : System I ε α σ → Nat × ω → Prop} (weaker : ∀ s turn, demanding s turn → allowed s turn)
    {schedule : List (Nat × ω)} (permitted : Permits exec demanding s schedule) : Permits exec allowed s schedule := by
  induction schedule generalizing s with
  | nil => trivial
  | cons turn rest ih => exact ⟨weaker s turn permitted.1, ih permitted.2⟩

theorem run_invariant (invariant : System I ε α σ → Prop)
    (keeps : ∀ s turn, invariant s → allowed s turn → invariant (step exec s turn))
    {schedule : List (Nat × ω)} (permitted : Permits exec allowed s schedule) (holds : invariant s) :
    invariant (run exec s schedule) := by
  induction schedule generalizing s with
  | nil => exact holds
  | cons turn rest ih => exact ih permitted.2 (keeps s turn holds permitted.1)

def history {γ : Type} (exec : Semantics I ω σ) (observe : System I ε α σ → Nat × ω → List γ)
    (s : System I ε α σ) : List (Nat × ω) → List γ
  | [] => []
  | turn :: rest => observe s turn ++ history exec observe (step exec s turn) rest

/-- An invariant of the system together with what was observed so far. -/
theorem run_history_invariant {γ : Type} {observe : System I ε α σ → Nat × ω → List γ}
    (invariant : List γ → System I ε α σ → Prop)
    (keeps : ∀ past s turn, invariant past s → allowed s turn →
      invariant (past ++ observe s turn) (step exec s turn))
    {schedule : List (Nat × ω)} (permitted : Permits exec allowed s schedule) {past : List γ}
    (holds : invariant past s) : invariant (past ++ history exec observe s schedule) (run exec s schedule) := by
  induction schedule generalizing s past with
  | nil =>
      rw [history, List.append_nil]
      exact holds
  | cons turn rest ih =>
      rw [history, ← List.append_assoc]
      exact ih permitted.2 (keeps past s turn holds permitted.1)

theorem run_history_clocked {γ τ : Type} [Preorder τ] {observe : System I ε α σ → Nat × ω → List γ} (clock : ω → τ)
    (invariant : τ → List γ → System I ε α σ → Prop)
    (keeps : ∀ now past s turn, invariant now past s → now ≤ clock turn.2 → allowed s turn →
      invariant (clock turn.2) (past ++ observe s turn) (step exec s turn))
    {schedule : List (Nat × ω)} (permitted : Permits exec allowed s schedule)
    (ordered : schedule.Pairwise fun a b => clock a.2 ≤ clock b.2) {now : τ}
    (later : ∀ turn ∈ schedule, now ≤ clock turn.2) {past : List γ} (holds : invariant now past s) :
    ∃ last, invariant last (past ++ history exec observe s schedule) (run exec s schedule) := by
  induction schedule generalizing s past now with
  | nil =>
      rw [history, List.append_nil]
      exact ⟨now, holds⟩
  | cons turn rest ih =>
      obtain ⟨after, ordered⟩ := List.pairwise_cons.mp ordered
      rw [history, ← List.append_assoc]
      refine ih permitted.2 ordered after ?_
      exact keeps now past s turn holds (later turn List.mem_cons_self) permitted.1

theorem run_state_invariant (invariant : σ → Prop)
    (keeps : ∀ (s : System I ε α σ) (turn : Nat × ω) (c : I.Call) (resume : I.Reply c → Process I ε α),
      s.pool[turn.1]? = some (.call c resume) → allowed s turn → invariant s.state →
      invariant (exec turn.2 c s.state).2)
    {schedule : List (Nat × ω)} (permitted : Permits exec allowed s schedule)
    (holds : invariant s.state) : invariant (run exec s schedule).state := by
  refine run_invariant (fun s => invariant s.state) ?_ permitted holds
  intro s turn holds ok
  rcases step_cases exec s turn with same | ⟨c, resume, next, after⟩
  · rwa [same]
  · rw [after]
    exact keeps s turn c resume next ok holds

/-- From its own invariant, and that of the state, every call of the process re-establishes both. -/
def Upholds (exec : Semantics I ω σ) (shared : σ → Prop) (own : σ → Process I ε α → Prop) :
    Process I ε α → Prop
  | .call c resume => ∀ w s, shared s → own s (.call c resume) →
      shared (exec w c s).2 ∧ own (exec w c s).2 (resume (exec w c s).1) ∧
        Upholds exec shared own (resume (exec w c s).1)
  | _ => True

/-- An invariant of the state and one of each process hold throughout, when each process upholds
them and no call that is allowed disturbs the other processes. -/
theorem run_rely_guarantee (shared : σ → Prop) (own : σ → Process I ε α → Prop)
    (stable : ∀ (s : System I ε α σ) (turn : Nat × ω) (c : I.Call) (resume : I.Reply c → Process I ε α)
      (j : Nat) (p : Process I ε α), allowed s turn → s.pool[turn.1]? = some (.call c resume) →
      shared s.state → own s.state (.call c resume) → j ≠ turn.1 → s.pool[j]? = some p →
      own s.state p → own (exec turn.2 c s.state).2 p)
    {schedule : List (Nat × ω)} (permitted : Permits exec allowed s schedule) (holds : shared s.state)
    (each : ∀ p ∈ s.pool, own s.state p ∧ Upholds exec shared own p) :
    shared (run exec s schedule).state ∧
      ∀ p ∈ (run exec s schedule).pool, own (run exec s schedule).state p := by
  suffices shared (run exec s schedule).state ∧ ∀ p ∈ (run exec s schedule).pool,
      own (run exec s schedule).state p ∧ Upholds exec shared own p from
    ⟨this.1, fun p mem => (this.2 p mem).1⟩
  refine run_invariant (fun s => shared s.state ∧
    ∀ p ∈ s.pool, own s.state p ∧ Upholds exec shared own p) ?_ permitted ⟨holds, each⟩
  rintro s turn ⟨holds, each⟩ ok
  rcases step_cases exec s turn with same | ⟨c, resume, next, after⟩
  · rw [same]
    exact ⟨holds, each⟩
  · obtain ⟨mine, upholds⟩ := each _ (List.mem_of_getElem? next)
    obtain ⟨kept, own_kept, upholds_kept⟩ := upholds turn.2 s.state holds mine
    rw [after]
    refine ⟨kept, ?_⟩
    intro p mem
    obtain ⟨j, at_j⟩ := List.mem_iff_getElem?.mp mem
    by_cases turns : turn.1 = j
    · subst turns
      have inside : turn.1 < s.pool.length := (List.getElem?_eq_some_iff.mp next).1
      obtain rfl : resume _ = p := by simpa [List.getElem?_set, inside] using at_j
      exact ⟨own_kept, upholds_kept⟩
    · have other : s.pool[j]? = some p := by simpa [List.getElem?_set, turns] using at_j
      obtain ⟨theirs, upholds⟩ := each p (List.mem_of_getElem? other)
      exact ⟨stable s turn c resume j p ok next holds mine (Ne.symm turns) other theirs, upholds⟩

end System

end Execution

end Errex.Foundation
