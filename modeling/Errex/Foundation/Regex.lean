import Errex.Foundation.Utf16

/-!
# Regular expressions

Regular expressions of JavaScript, matched by backtracking. `outcomes` lists every way to match from a cursor in
the order in which the matcher tries them, so `exec` reports the first one.
-/

namespace Errex.Foundation

inductive Regex where
  | empty
  | one (accepts : CodeUnit → Bool)
  | boundary
  | cat (a b : Regex)
  | alt (a b : Regex)
  | star (a : Regex)
  | group (k : Nat) (a : Regex)

namespace Regex
open Utf16

/-! ## Matching -/

/-- Where a matcher stands: the unit it passed last, the text in front of it and what the groups hold, the
latest capture first. -/
structure Cursor where
  before : Option CodeUnit
  rest : Utf16
  groups : List (Nat × Utf16)

namespace Cursor

def start (s : Utf16) : Cursor := ⟨none, s, []⟩

def atBoundary (c : Cursor) : Bool := c.before.any isWord != c.rest.head?.any isWord

def step (accepts : CodeUnit → Bool) (c : Cursor) : List Cursor :=
  match c.rest with
  | [] => []
  | u :: rest => if accepts u then [⟨some u, rest, c.groups⟩] else []

def passed (c d : Cursor) : Utf16 := c.rest.take (c.rest.length - d.rest.length)

def capture (k : Nat) (c d : Cursor) : Cursor := { d with groups := (k, c.passed d) :: d.groups }

end Cursor

open Cursor

/-- Greedy repetition. A round that passes over nothing is not taken, so as many rounds as there are units
are enough. -/
def iterate (round : Cursor → List Cursor) : Nat → Cursor → List Cursor
  | 0, c => [c]
  | fuel + 1, c =>
      ((round c).filter fun d => d.rest.length < c.rest.length).flatMap (iterate round fuel) ++ [c]

def outcomes : Regex → Cursor → List Cursor
  | empty, c => [c]
  | one accepts, c => c.step accepts
  | boundary, c => if c.atBoundary then [c] else []
  | cat a b, c => (a.outcomes c).flatMap b.outcomes
  | alt a b, c => a.outcomes c ++ b.outcomes c
  | star a, c => iterate a.outcomes c.rest.length c
  | group k a, c => (a.outcomes c).map (c.capture k)

section

variable (a b : Regex) (c : Cursor)

theorem outcomes_one (accepts : CodeUnit → Bool) : (one accepts).outcomes c = c.step accepts := rfl

theorem outcomes_boundary : boundary.outcomes c = if c.atBoundary then [c] else [] := rfl

theorem outcomes_cat : (cat a b).outcomes c = (a.outcomes c).flatMap b.outcomes := rfl

theorem outcomes_alt : (alt a b).outcomes c = a.outcomes c ++ b.outcomes c := rfl

theorem outcomes_star : (star a).outcomes c = iterate a.outcomes c.rest.length c := rfl

theorem outcomes_group (k : Nat) : (group k a).outcomes c = (a.outcomes c).map (c.capture k) := rfl

end

structure Match where
  text : Utf16
  groups : List (Nat × Utf16)

def Match.group (m : Match) (k : Nat) : Option Utf16 := m.groups.lookup k

def exec (r : Regex) (s : Utf16) : Option Match :=
  (r.outcomes (start s)).head?.map fun c => ⟨(start s).passed c, c.groups⟩

/-! ## Notation of patterns -/

def plus (a : Regex) : Regex := cat a (star a)

def opt (a : Regex) : Regex := alt a empty

def seq : List Regex → Regex
  | [] => empty
  | [a] => a
  | a :: rest => cat a (seq rest)

def anyOf : List Regex → Regex
  | [] => one fun _ => false
  | [a] => a
  | a :: rest => alt a (anyOf rest)

def exactly (s : String) : Regex := seq (s.toList.map fun c => one (· == unit c))

def word (s : String) : Regex := seq (s.toList.map fun c => one fun u => lower u == lower (unit c))

def words (alternatives : List String) : Regex := anyOf (alternatives.map word)

def spaces : Regex := star (one isSpace)

def gap : Regex := plus (one isSpace)

def digits : Regex := plus (one isDigit)

/-! ## Matches go forward -/

def minLength : Regex → Nat
  | empty => 0
  | one _ => 1
  | boundary => 0
  | cat a b => a.minLength + b.minLength
  | alt a b => min a.minLength b.minLength
  | star _ => 0
  | group _ a => a.minLength

theorem mem_step {accepts : CodeUnit → Bool} {c d : Cursor} (mem : d ∈ c.step accepts) :
    ∃ u, accepts u = true ∧ c.rest = u :: d.rest := by
  unfold Cursor.step at mem
  split at mem
  · cases mem
  · rename_i u rest whole
    split at mem
    · rename_i accepted
      cases List.mem_singleton.mp mem
      exact ⟨u, accepted, whole⟩
    · cases mem

theorem iterate_suffix {round : Cursor → List Cursor} (forward : ∀ c, ∀ d ∈ round c, d.rest <:+ c.rest) (fuel : Nat) :
    ∀ c, ∀ d ∈ iterate round fuel c, d.rest <:+ c.rest := by
  induction fuel with
  | zero =>
      intro c d mem
      cases List.mem_singleton.mp mem
      exact List.suffix_rfl
  | succ fuel ih =>
      intro c d mem
      rw [iterate, List.mem_append, List.mem_flatMap] at mem
      rcases mem with ⟨middle, inside, later⟩ | stop
      · exact (ih middle d later).trans (forward c middle (List.mem_filter.mp inside).1)
      · cases List.mem_singleton.mp stop
        exact List.suffix_rfl

theorem outcomes_suffix (r : Regex) : ∀ c, ∀ d ∈ r.outcomes c,
    d.rest <:+ c.rest ∧ d.rest.length + r.minLength ≤ c.rest.length := by
  induction r with
  | empty =>
      intro c d mem
      cases List.mem_singleton.mp mem
      exact ⟨List.suffix_rfl, le_rfl⟩
  | one accepts =>
      intro c d mem
      obtain ⟨u, -, whole⟩ := mem_step mem
      rw [whole]
      exact ⟨List.suffix_cons _ _, le_rfl⟩
  | boundary =>
      intro c d mem
      rw [outcomes_boundary] at mem
      split at mem
      · cases List.mem_singleton.mp mem
        exact ⟨List.suffix_rfl, le_rfl⟩
      · cases mem
  | cat a b iha ihb =>
      intro c d mem
      obtain ⟨middle, first, second⟩ := List.mem_flatMap.mp mem
      obtain ⟨suffix₁, length₁⟩ := iha c middle first
      obtain ⟨suffix₂, length₂⟩ := ihb middle d second
      exact ⟨suffix₂.trans suffix₁, by simp only [minLength]; omega⟩
  | alt a b iha ihb =>
      intro c d mem
      rcases List.mem_append.mp mem with left | right
      · obtain ⟨suffix, length⟩ := iha c d left
        exact ⟨suffix, by simp only [minLength]; omega⟩
      · obtain ⟨suffix, length⟩ := ihb c d right
        exact ⟨suffix, by simp only [minLength]; omega⟩
  | star a ih =>
      intro c d mem
      have suffix := iterate_suffix (fun c d mem => (ih c d mem).1) _ c d mem
      exact ⟨suffix, suffix.length_le⟩
  | group k a ih =>
      intro c d mem
      obtain ⟨inner, inside, rfl⟩ := List.mem_map.mp mem
      exact ih c inner inside

theorem exec_length {r : Regex} {s : Utf16} {m : Match} (found : exec r s = some m) :
    r.minLength ≤ m.text.length ∧ m.text <+: s := by
  obtain ⟨c, first, rfl⟩ := Option.map_eq_some_iff.mp found
  obtain ⟨-, length⟩ := outcomes_suffix r _ c (List.mem_of_mem_head? first)
  simp only [start] at length
  refine ⟨?_, List.take_prefix _ _⟩
  simp only [start, passed, List.length_take]
  omega

/-! ## Which match comes first -/

def First (r : Regex) (c d : Cursor) : Prop := (r.outcomes c).head? = some d

def Fails (r : Regex) (c : Cursor) : Prop := r.outcomes c = []

theorem exec_of_first {r : Regex} {s : Utf16} {d : Cursor} (first : First r (start s) d) :
    exec r s = some ⟨(start s).passed d, d.groups⟩ := by rw [exec, first, Option.map_some]

theorem passed_append (before before' : Option CodeUnit) (x t : Utf16) (groups groups' : List (Nat × Utf16)) :
    Cursor.passed ⟨before, x ++ t, groups⟩ ⟨before', t, groups'⟩ = x := by simp [passed]

theorem exec_append {r : Regex} {x t : Utf16} {before : Option CodeUnit} {groups : List (Nat × Utf16)}
    (first : First r (start (x ++ t)) ⟨before, t, groups⟩) : exec r (x ++ t) = some ⟨x, groups⟩ := by
  rw [exec_of_first first, start, passed_append]

theorem First.group_append {k : Nat} {a : Regex} {before before' : Option CodeUnit} {x t : Utf16}
    {groups groups' : List (Nat × Utf16)} (first : First a ⟨before, x ++ t, groups⟩ ⟨before', t, groups'⟩) :
    First (.group k a) ⟨before, x ++ t, groups⟩ ⟨before', t, (k, x) :: groups'⟩ := by
  rw [First, outcomes_group, List.head?_map, first, Option.map_some, capture, passed_append]

theorem exec_of_fails {r : Regex} {s : Utf16} (fails : Fails r (start s)) : exec r s = none := by
  rw [exec, fails, List.head?_nil, Option.map_none]

theorem exec_eq_none_iff {r : Regex} {s : Utf16} : exec r s = none ↔ Fails r (start s) := by
  rw [exec, Option.map_eq_none_iff, List.head?_eq_none_iff, Fails]

theorem first_iff {r : Regex} {c d : Cursor} : First r c d ↔ ∃ others, r.outcomes c = d :: others := by
  rw [First]
  cases r.outcomes c with
  | nil => simp
  | cons e others => simp

namespace First

theorem empty (c : Cursor) : First .empty c c := rfl

theorem one {accepts : CodeUnit → Bool} {u : CodeUnit} (accepted : accepts u = true) (before : Option CodeUnit)
    (rest : Utf16) (groups : List (Nat × Utf16)) :
    First (.one accepts) ⟨before, u :: rest, groups⟩ ⟨some u, rest, groups⟩ := by
  simp [First, outcomes_one, Cursor.step, accepted]

theorem boundary {c : Cursor} (at_ : c.atBoundary = true) : First .boundary c c := by simp [First, outcomes_boundary, at_]

theorem cat {a b : Regex} {c d e : Cursor} (left : First a c d) (right : First b d e) : First (.cat a b) c e := by
  obtain ⟨others, eq⟩ := first_iff.mp left
  rw [First, outcomes_cat, eq, List.flatMap_cons, List.head?_append, right, Option.some_or]

theorem left {a b : Regex} {c d : Cursor} (first : First a c d) : First (.alt a b) c d := by
  rw [First, outcomes_alt, List.head?_append, first, Option.some_or]

end First

namespace Fails

theorem one {accepts : CodeUnit → Bool} {u : CodeUnit} (refused : accepts u = false) (before : Option CodeUnit)
    (rest : Utf16) (groups : List (Nat × Utf16)) : Fails (.one accepts) ⟨before, u :: rest, groups⟩ := by
  simp [Fails, outcomes_one, Cursor.step, refused]

theorem boundary {c : Cursor} (inside : c.atBoundary = false) : Fails .boundary c := by
  simp [Fails, outcomes_boundary, inside]

theorem cat {a b : Regex} {c : Cursor} (each : ∀ d ∈ a.outcomes c, Fails b d) : Fails (.cat a b) c :=
  List.flatMap_eq_nil_iff.mpr each

theorem alt {a b : Regex} {c : Cursor} (left : Fails a c) (right : Fails b c) : Fails (.alt a b) c := by
  rw [Fails, outcomes_alt, left, right, List.append_nil]

end Fails

theorem fails_edge_iff {a : Regex} {c : Cursor} :
    Fails (cat a boundary) c ↔ ¬ ∃ d ∈ a.outcomes c, d.atBoundary = true := by
  rw [Fails, outcomes_cat, List.flatMap_eq_nil_iff]
  simp [outcomes_boundary]

theorem fails_group_edge_iff {k : Nat} {a : Regex} {c : Cursor} :
    Fails (cat (group k a) boundary) c ↔ ¬ ∃ d ∈ a.outcomes c, d.atBoundary = true := by
  rw [fails_edge_iff, outcomes_group]
  simp [capture, atBoundary]

/-! ## Runs of one class -/

theorem iterate_fuel {round : Cursor → List Cursor} {m n : Nat} :
    ∀ {c : Cursor}, c.rest.length ≤ m → c.rest.length ≤ n → iterate round m c = iterate round n c := by
  induction m generalizing n with
  | zero =>
      intro c short _
      have blank : c.rest.length = 0 := by omega
      cases n with
      | zero => rfl
      | succ n => simp [iterate, blank]
  | succ m ih =>
      intro c short short'
      cases n with
      | zero =>
          have blank : c.rest.length = 0 := by omega
          simp [iterate, blank]
      | succ n =>
          rw [iterate, iterate]
          congr 1
          refine List.flatMap_congr fun d mem => ?_
          have shorter : d.rest.length < c.rest.length := by simpa using (List.mem_filter.mp mem).2
          exact ih (by omega) (by omega)

theorem First.star_stop {a : Regex} {c : Cursor} (fails : Fails a c) : First (.star a) c c := by
  rw [First, outcomes_star]
  cases c.rest.length with
  | zero => rfl
  | succ n => rw [iterate, fails]; rfl

theorem First.star_step {a : Regex} {c d e : Cursor} (round : First a c d) (shorter : d.rest.length < c.rest.length)
    (rest : First (.star a) d e) : First (.star a) c e := by
  obtain ⟨others, eq⟩ := first_iff.mp round
  rw [First, outcomes_star] at rest ⊢
  obtain ⟨n, length⟩ : ∃ n, c.rest.length = n + 1 := ⟨c.rest.length - 1, by omega⟩
  have kept : ((d :: others).filter fun d => d.rest.length < n + 1) =
      d :: others.filter fun d => d.rest.length < n + 1 := List.filter_cons_of_pos (by simpa [length] using shorter)
  rw [length, iterate, eq, length, kept, List.flatMap_cons, iterate_fuel (n := d.rest.length) (by omega) le_rfl,
    List.append_assoc, List.head?_append, rest, Option.some_or]

theorem getLast?_cons_or {α : Type} (u : α) (x : List α) (before : Option α) :
    (u :: x).getLast?.or before = x.getLast?.or (some u) := by
  rw [List.getLast?_cons]
  cases x.getLast? <;> rfl

def Cursor.pass (c : Cursor) (run rest : Utf16) : Cursor := ⟨run.getLast?.or c.before, rest, c.groups⟩

def Stops (accepts : CodeUnit → Bool) (rest : Utf16) : Prop := ∀ u ∈ rest.head?, accepts u = false

theorem fails_one_of_stops {accepts : CodeUnit → Bool} {rest : Utf16} (stops : Stops accepts rest)
    (before : Option CodeUnit) (groups : List (Nat × Utf16)) : Fails (.one accepts) ⟨before, rest, groups⟩ := by
  cases rest with
  | nil => rfl
  | cons u rest => exact .one (stops u rfl) _ _ _

theorem First.star_run {accepts : CodeUnit → Bool} {run rest : Utf16} (all : ∀ u ∈ run, accepts u = true)
    (stops : Stops accepts rest) (before : Option CodeUnit) (groups : List (Nat × Utf16)) :
    First (.star (.one accepts)) ⟨before, run ++ rest, groups⟩ (Cursor.pass ⟨before, run ++ rest, groups⟩ run rest) := by
  induction run generalizing before with
  | nil => exact .star_stop (fails_one_of_stops stops _ _)
  | cons u run ih =>
      have round := First.one (all u List.mem_cons_self) before (run ++ rest) groups
      have later := ih (fun v mem => all v (List.mem_cons_of_mem _ mem)) (some u)
      refine First.star_step round (by simp) ?_
      simpa only [Cursor.pass, getLast?_cons_or] using later

theorem First.plus_run {accepts : CodeUnit → Bool} {run rest : Utf16} (some_ : run ≠ [])
    (all : ∀ u ∈ run, accepts u = true) (stops : Stops accepts rest) (before : Option CodeUnit)
    (groups : List (Nat × Utf16)) :
    First (plus (.one accepts)) ⟨before, run ++ rest, groups⟩ (Cursor.pass ⟨before, run ++ rest, groups⟩ run rest) := by
  obtain ⟨u, run, rfl⟩ := List.exists_cons_of_ne_nil some_
  have head := First.one (all u List.mem_cons_self) before (run ++ rest) groups
  have tail := First.star_run (fun v mem => all v (List.mem_cons_of_mem _ mem)) stops (some u) groups
  simpa only [Cursor.pass, getLast?_cons_or, plus, List.cons_append] using head.cat tail

theorem mem_iterate_one {accepts : CodeUnit → Bool} {fuel : Nat} :
    ∀ {c d : Cursor}, d ∈ iterate (Regex.one accepts).outcomes fuel c →
      ∃ run, c.rest = run ++ d.rest ∧ ∀ u ∈ run, accepts u = true := by
  induction fuel with
  | zero =>
      intro c d mem
      cases List.mem_singleton.mp mem
      exact ⟨[], rfl, nofun⟩
  | succ fuel ih =>
      intro c d mem
      rw [iterate, List.mem_append, List.mem_flatMap] at mem
      rcases mem with ⟨middle, inside, later⟩ | stop
      · obtain ⟨u, accepted, whole⟩ := mem_step (List.mem_filter.mp inside).1
        obtain ⟨run, split, all⟩ := ih later
        exact ⟨u :: run, by rw [whole, split, List.cons_append], List.forall_mem_cons.mpr ⟨accepted, all⟩⟩
      · cases List.mem_singleton.mp stop
        exact ⟨[], rfl, nofun⟩

theorem mem_star_one {accepts : CodeUnit → Bool} {c d : Cursor} (mem : d ∈ (star (.one accepts)).outcomes c) :
    ∃ run, c.rest = run ++ d.rest ∧ ∀ u ∈ run, accepts u = true := mem_iterate_one mem

theorem mem_plus_one {accepts : CodeUnit → Bool} {c d : Cursor} (mem : d ∈ (plus (.one accepts)).outcomes c) :
    ∃ u run, c.rest = u :: run ++ d.rest ∧ accepts u = true ∧ ∀ v ∈ run, accepts v = true := by
  obtain ⟨middle, first, later⟩ := List.mem_flatMap.mp mem
  obtain ⟨u, accepted, whole⟩ := mem_step first
  obtain ⟨run, split, all⟩ := mem_star_one later
  exact ⟨u, run, by rw [whole, split, List.cons_append], accepted, all⟩

/-! ## Captures -/

def captures : Regex → Bool
  | empty => false
  | one _ => false
  | boundary => false
  | cat a b => a.captures || b.captures
  | alt a b => a.captures || b.captures
  | star a => a.captures
  | group _ _ => true

theorem iterate_groups {round : Cursor → List Cursor} (kept : ∀ c, ∀ d ∈ round c, d.groups = c.groups) (fuel : Nat) :
    ∀ c, ∀ d ∈ iterate round fuel c, d.groups = c.groups := by
  induction fuel with
  | zero =>
      intro c d mem
      rw [List.mem_singleton.mp mem]
  | succ fuel ih =>
      intro c d mem
      rw [iterate, List.mem_append, List.mem_flatMap] at mem
      rcases mem with ⟨middle, inside, later⟩ | stop
      · exact (ih middle d later).trans (kept c middle (List.mem_filter.mp inside).1)
      · rw [List.mem_singleton.mp stop]

theorem outcomes_groups (r : Regex) (none_ : r.captures = false) : ∀ c, ∀ d ∈ r.outcomes c, d.groups = c.groups := by
  induction r with
  | empty =>
      intro c d mem
      rw [List.mem_singleton.mp mem]
  | one accepts =>
      intro c d mem
      rw [outcomes_one, Cursor.step] at mem
      split at mem
      · cases mem
      · split at mem
        · rw [List.mem_singleton.mp mem]
        · cases mem
  | boundary =>
      intro c d mem
      rw [outcomes_boundary] at mem
      split at mem
      · rw [List.mem_singleton.mp mem]
      · cases mem
  | cat a b iha ihb =>
      intro c d mem
      obtain ⟨left, right⟩ := Bool.or_eq_false_iff.mp none_
      obtain ⟨middle, first, second⟩ := List.mem_flatMap.mp mem
      exact (ihb right middle d second).trans (iha left c middle first)
  | alt a b iha ihb =>
      intro c d mem
      obtain ⟨left, right⟩ := Bool.or_eq_false_iff.mp none_
      exact (List.mem_append.mp mem).elim (iha left c d) (ihb right c d)
  | star a ih => exact fun c d mem => iterate_groups (ih none_) _ c d mem
  | group k a => cases none_

theorem mem_group {k : Nat} {a : Regex} {c d : Cursor} (mem : d ∈ (group k a).outcomes c) (plain : a.captures = false) :
    ∃ x, c.rest = x ++ d.rest ∧ a.minLength ≤ x.length ∧ d.groups = (k, x) :: c.groups := by
  obtain ⟨inner, inside, rfl⟩ := List.mem_map.mp mem
  obtain ⟨⟨x, split⟩, least⟩ := outcomes_suffix a c inner inside
  have passed : c.passed inner = x := by simp [Cursor.passed, ← split]
  refine ⟨x, split.symm, ?_, ?_⟩
  · have := congrArg List.length split
    rw [List.length_append] at this
    omega
  · rw [Cursor.capture, passed, outcomes_groups a plain c inner inside]

theorem mem_plain {a : Regex} {c d : Cursor} (mem : d ∈ a.outcomes c) (plain : a.captures = false) :
    ∃ x, c.rest = x ++ d.rest ∧ a.minLength ≤ x.length ∧ d.groups = c.groups := by
  obtain ⟨⟨x, split⟩, least⟩ := outcomes_suffix a c d mem
  refine ⟨x, split.symm, ?_, outcomes_groups a plain c d mem⟩
  have := congrArg List.length split
  rw [List.length_append] at this
  omega

theorem mem_boundary {c d : Cursor} (mem : d ∈ boundary.outcomes c) : d = c := by
  rw [outcomes_boundary] at mem
  split at mem
  · exact List.mem_singleton.mp mem
  · cases mem

theorem exec_eq_some {r : Regex} {s : Utf16} {m : Match} (found : exec r s = some m) :
    ∃ d ∈ r.outcomes (start s), m.groups = d.groups ∧ s = m.text ++ d.rest := by
  obtain ⟨d, first, rfl⟩ := Option.map_eq_some_iff.mp found
  have mem := List.mem_of_mem_head? first
  obtain ⟨x, split⟩ := (outcomes_suffix r _ d mem).1
  have passed : (start s).passed d = x := by simp [Cursor.passed, ← split]
  refine ⟨d, mem, rfl, ?_⟩
  rw [passed]
  exact split.symm

/-! ## Words -/

theorem outcomes_seq_cons (a : Regex) (rest : List Regex) (c : Cursor) :
    (seq (a :: rest)).outcomes c = (a.outcomes c).flatMap (seq rest).outcomes := by
  cases rest with
  | nil =>
      rw [seq, seq]
      exact (List.flatMap_singleton' _).symm
  | cons b rest => rfl

theorem first_word {w : String} {x : Utf16} (same : x.map lower = (ofString w).map lower) (before : Option CodeUnit)
    (t : Utf16) (groups : List (Nat × Utf16)) :
    First (word w) ⟨before, x ++ t, groups⟩ ⟨x.getLast?.or before, t, groups⟩ := by
  rw [word, ofString, List.map_map] at *
  generalize w.toList = cs at same ⊢
  induction cs generalizing x before with
  | nil =>
      rw [List.map_nil, List.map_eq_nil_iff] at same
      subst same
      exact .empty _
  | cons c cs ih =>
      cases x with
      | nil => cases same
      | cons u x =>
          rw [List.map_cons, List.map_cons, List.cons.injEq] at same
          obtain ⟨head, tail⟩ := same
          have accepted : (lower u == lower (unit c)) = true := beq_iff_eq.mpr head
          obtain ⟨others, eq⟩ := first_iff.mp (ih (some u) tail)
          rw [First, List.map_cons, outcomes_seq_cons, outcomes_one, Cursor.step, getLast?_cons_or]
          simp only [List.cons_append, accepted, if_true, List.flatMap_cons, List.flatMap_nil, List.append_nil, eq,
            List.head?_cons]

theorem mem_spelled {fold : CodeUnit → CodeUnit} {name : List Char} {c d : Cursor} :
    d ∈ (seq (name.map fun ch => one fun u => fold u == fold (unit ch))).outcomes c ↔
      ∃ x, c.rest = x ++ d.rest ∧ x.map fold = (name.map unit).map fold ∧ d.before = x.getLast?.or c.before ∧
        d.groups = c.groups := by
  induction name generalizing c with
  | nil =>
      constructor
      · intro mem
        cases List.mem_singleton.mp mem
        exact ⟨[], rfl, rfl, rfl, rfl⟩
      · rintro ⟨x, split, same, last, kept⟩
        rw [List.map_nil, List.map_nil, List.map_eq_nil_iff] at same
        subst same
        cases c
        cases d
        cases split
        cases last
        cases kept
        exact List.mem_singleton.mpr rfl
  | cons ch name ih =>
      rw [List.map_cons, outcomes_seq_cons, List.mem_flatMap]
      constructor
      · rintro ⟨middle, first, later⟩
        rw [outcomes_one, Cursor.step] at first
        split at first
        · cases first
        · rename_i u rest whole
          split at first
          · rename_i accepted
            cases List.mem_singleton.mp first
            obtain ⟨x, split, same, last, kept⟩ := ih.mp later
            refine ⟨u :: x, by rw [whole]; exact congrArg _ split, ?_, ?_, kept⟩
            · rw [List.map_cons, List.map_cons, List.map_cons, same]
              congr 1
              exact beq_iff_eq.mp accepted
            · rw [last, getLast?_cons_or]
          · cases first
      · rintro ⟨x, split, same, last, kept⟩
        cases x with
        | nil => cases same
        | cons u x =>
            rw [List.map_cons, List.map_cons, List.map_cons, List.cons.injEq] at same
            obtain ⟨head, tail⟩ := same
            refine ⟨⟨some u, x ++ d.rest, c.groups⟩, ?_, ih.mpr ⟨x, rfl, tail, ?_, kept⟩⟩
            · rw [outcomes_one, Cursor.step, split, List.cons_append]
              simp [head]
            · rw [last, getLast?_cons_or]

theorem mem_word {w : String} {c d : Cursor} (mem : d ∈ (word w).outcomes c) :
    ∃ x, c.rest = x ++ d.rest ∧ x.map lower = (ofString w).map lower ∧ d.before = x.getLast?.or c.before := by
  obtain ⟨x, split, same, last, -⟩ := mem_spelled.mp mem
  exact ⟨x, split, same, last⟩

theorem mem_anyOf {patterns : List Regex} {c d : Cursor} :
    d ∈ (anyOf patterns).outcomes c ↔ ∃ r ∈ patterns, d ∈ r.outcomes c := by
  induction patterns with
  | nil =>
      have none_ : c.step (fun _ => false) = [] := by
        rw [Cursor.step]
        cases c.rest <;> rfl
      simp [anyOf, outcomes_one, none_]
  | cons r patterns ih =>
      cases patterns with
      | nil => simp [anyOf]
      | cons r' patterns =>
          rw [anyOf, outcomes_alt, List.mem_append, ih]
          · exact (List.exists_mem_cons_iff (fun r => d ∈ outcomes r c) r (r' :: patterns)).symm
          · exact List.cons_ne_nil _ _

/-! ## Matches on a known beginning -/

def iterateLeftovers (round : Utf16 → List (Option Utf16)) : Nat → Utf16 → List (Option Utf16)
  | 0, _ => [none]
  | fuel + 1, known =>
      some known :: (round known).flatMap fun
        | none => [none]
        | some left => if left.length < known.length then iterateLeftovers round fuel left else []

/-- What a match can leave of a known beginning of a text; `none` where it goes on into the unknown rest. -/
def leftovers : Regex → Utf16 → List (Option Utf16)
  | empty, known => [some known]
  | one _, [] => [none]
  | one accepts, u :: known => if accepts u then [some known] else []
  | boundary, known => [some known]
  | cat a b, known => (a.leftovers known).flatMap fun
      | none => [none]
      | some left => b.leftovers left
  | alt a b, known => a.leftovers known ++ b.leftovers known
  | star a, known => iterateLeftovers a.leftovers (known.length + 1) known
  | group _ a, known => a.leftovers known

def Leaves (left : List (Option Utf16)) (unknown : Utf16) (d : Cursor) : Prop :=
  none ∈ left ∨ ∃ known, some known ∈ left ∧ d.rest = known ++ unknown

theorem leaves_iterate {a : Regex} {unknown : Utf16}
    (ih : ∀ known c d, c.rest = known ++ unknown → d ∈ a.outcomes c → Leaves (a.leftovers known) unknown d) (fuel : Nat) :
    ∀ known rounds c d, c.rest = known ++ unknown → d ∈ iterate a.outcomes rounds c →
      Leaves (iterateLeftovers a.leftovers fuel known) unknown d := by
  induction fuel with
  | zero => exact fun _ _ _ _ _ _ => .inl List.mem_cons_self
  | succ fuel later =>
      intro known rounds c d whole mem
      have here : Leaves (iterateLeftovers a.leftovers (fuel + 1) known) unknown c :=
        .inr ⟨known, List.mem_cons_self, whole⟩
      cases rounds with
      | zero => cases List.mem_singleton.mp mem; exact here
      | succ rounds =>
          rw [iterate, List.mem_append, List.mem_flatMap] at mem
          rcases mem with ⟨e, inside, rest⟩ | stop
          · obtain ⟨first, shorter⟩ := List.mem_filter.mp inside
            rcases ih known c e whole first with beyond | ⟨left, mem, eq⟩
            · exact .inl (List.mem_cons_of_mem _ (List.mem_flatMap.mpr ⟨none, beyond, List.mem_cons_self⟩))
            · have less : left.length < known.length := by
                simp only [eq, whole, List.length_append, decide_eq_true_eq] at shorter
                omega
              rcases later left rounds e d eq rest with beyond | ⟨last, inner, eq'⟩
              · exact .inl (List.mem_cons_of_mem _ (List.mem_flatMap.mpr ⟨some left, mem, by simpa [less] using beyond⟩))
              · exact .inr ⟨last, List.mem_cons_of_mem _
                  (List.mem_flatMap.mpr ⟨some left, mem, by simpa [less] using inner⟩), eq'⟩
          · cases List.mem_singleton.mp stop; exact here

theorem leaves_of_outcomes (r : Regex) (unknown : Utf16) : ∀ known c d, c.rest = known ++ unknown → d ∈ r.outcomes c →
    Leaves (r.leftovers known) unknown d := by
  induction r with
  | empty =>
      intro known c d whole mem
      cases List.mem_singleton.mp mem
      exact .inr ⟨known, List.mem_cons_self, whole⟩
  | one accepts =>
      intro known c d whole mem
      obtain ⟨u, accepted, eq⟩ := mem_step mem
      cases known with
      | nil => exact .inl List.mem_cons_self
      | cons v known =>
          rw [whole, List.cons_append, List.cons.injEq] at eq
          obtain ⟨rfl, rest⟩ := eq
          exact .inr ⟨known, by simp [leftovers, accepted], rest.symm⟩
  | boundary =>
      intro known c d whole mem
      rw [outcomes_boundary] at mem
      split at mem
      · cases List.mem_singleton.mp mem
        exact .inr ⟨known, List.mem_cons_self, whole⟩
      · cases mem
  | cat a b iha ihb =>
      intro known c d whole mem
      obtain ⟨middle, first, second⟩ := List.mem_flatMap.mp mem
      rcases iha known c middle whole first with beyond | ⟨left, inside, eq⟩
      · exact .inl (List.mem_flatMap.mpr ⟨none, beyond, List.mem_cons_self⟩)
      · rcases ihb left middle d eq second with beyond | ⟨last, inner, eq'⟩
        · exact .inl (List.mem_flatMap.mpr ⟨some left, inside, beyond⟩)
        · exact .inr ⟨last, List.mem_flatMap.mpr ⟨some left, inside, inner⟩, eq'⟩
  | alt a b iha ihb =>
      intro known c d whole mem
      rcases List.mem_append.mp mem with left | right
      · rcases iha known c d whole left with beyond | ⟨last, inner, eq⟩
        · exact .inl (List.mem_append_left _ beyond)
        · exact .inr ⟨last, List.mem_append_left _ inner, eq⟩
      · rcases ihb known c d whole right with beyond | ⟨last, inner, eq⟩
        · exact .inl (List.mem_append_right _ beyond)
        · exact .inr ⟨last, List.mem_append_right _ inner, eq⟩
  | star a ih => exact fun known c d whole mem => leaves_iterate ih _ known _ c d whole mem
  | group k a ih =>
      intro known c d whole mem
      obtain ⟨inner, inside, rfl⟩ := List.mem_map.mp mem
      exact ih known c inner whole inside

theorem fails_of_leftovers {r : Regex} {known : Utf16} (none_ : r.leftovers known = []) (before : Option CodeUnit)
    (unknown : Utf16) (groups : List (Nat × Utf16)) : Fails r ⟨before, known ++ unknown, groups⟩ := by
  rw [Fails, List.eq_nil_iff_forall_not_mem]
  intro d mem
  have leaves := leaves_of_outcomes r unknown known _ d rfl mem
  rw [none_] at leaves
  rcases leaves with beyond | ⟨_, inside, _⟩
  · cases beyond
  · cases inside

/-! ## Texts over an alphabet -/

def asksBeyond (alphabet : List CodeUnit) : Regex → Bool
  | empty => false
  | one accepts => alphabet.all fun u => !accepts u
  | boundary => false
  | cat a b => a.asksBeyond alphabet || b.asksBeyond alphabet
  | alt a b => a.asksBeyond alphabet && b.asksBeyond alphabet
  | star _ => false
  | group _ a => a.asksBeyond alphabet

theorem fails_of_asksBeyond {alphabet : List CodeUnit} (r : Regex) (beyond : r.asksBeyond alphabet = true) :
    ∀ c : Cursor, (∀ u ∈ c.rest, u ∈ alphabet) → Fails r c := by
  induction r with
  | empty => cases beyond
  | one accepts =>
      intro c within
      rw [asksBeyond, List.all_eq_true] at beyond
      rw [Fails, outcomes_one, Cursor.step]
      cases rest : c.rest with
      | nil => rfl
      | cons u tail =>
          have refused := beyond u (within u (by rw [rest]; exact List.mem_cons_self))
          rw [Bool.not_eq_true'] at refused
          simp [refused]
  | boundary => cases beyond
  | cat a b iha ihb =>
      intro c within
      apply Fails.cat
      intro d mem
      rcases Bool.or_eq_true_iff.mp beyond with left | right
      · rw [iha left c within] at mem
        cases mem
      · exact ihb right d fun u inside => within u ((outcomes_suffix a c d mem).1.mem inside)
  | alt a b iha ihb =>
      intro c within
      obtain ⟨left, right⟩ := Bool.and_eq_true_iff.mp beyond
      exact Fails.alt (iha left c within) (ihb right c within)
  | star a => cases beyond
  | group k a ih =>
      intro c within
      rw [Fails, outcomes_group, ih beyond c within, List.map_nil]

end Regex

end Errex.Foundation
