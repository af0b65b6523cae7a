import Mathlib.Tactic

/-!
# Readers

A reader takes a front of its input and leaves the rest. Where it never takes a certain symbol, it cannot see past one:
`Local` is that, and is kept by the ways to put readers together. `Local.exact` cuts the input at such a symbol.
-/

namespace Errex.Foundation

variable {σ α β : Type}

/-- The reader leaves an end of its input, and reads the same with anything behind `stop`. -/
structure Local (stop : σ) (read : List σ → Option (α × List σ)) : Prop where
  suffix : ∀ {s : List σ} {a : α} {rest : List σ}, read s = some (a, rest) → rest <:+ s
  before : ∀ {s : List σ} (t : List σ), stop ∉ s → read (s ++ stop :: t) = (read s).map fun r => (r.1, r.2 ++ stop :: t)

namespace Local

variable {stop : σ} {read : List σ → Option (α × List σ)}

theorem pure (a : α) : Local stop fun s => some (a, s) where
  suffix := by
    intro s a rest eq
    cases eq
    exact List.suffix_rfl
  before _ _ := rfl

theorem fail : Local stop fun _ => (none : Option (α × List σ)) where
  suffix := nofun
  before _ _ := rfl

theorem bind {next : α → List σ → Option (β × List σ)} (first : Local stop read) (second : ∀ a, Local stop (next a)) :
    Local stop fun s => (read s).bind fun r => next r.1 r.2 where
  suffix := by
    intro s b rest eq
    obtain ⟨⟨a, s'⟩, taken, eq⟩ := Option.bind_eq_some_iff.mp eq
    exact ((second a).suffix eq).trans (first.suffix taken)
  before := by
    intro s t fresh
    rw [first.before t fresh]
    cases taken : read s with
    | none => rfl
    | some r => exact (second r.1).before t fun mem => fresh ((first.suffix taken).mem mem)

theorem one [DecidableEq σ] {accepted : σ → Bool} (refused : accepted stop = false) :
    Local stop fun s => match s with
      | [] => none
      | c :: rest => if accepted c then some ((), rest) else none where
  suffix := by
    intro s a rest eq
    cases s with
    | nil => cases eq
    | cons c s =>
        dsimp only at eq
        split_ifs at eq
        cases eq
        exact List.suffix_cons c _
  before := by
    intro s t _
    cases s with
    | nil => simp [refused]
    | cons c s =>
        dsimp only [List.cons_append]
        split_ifs <;> rfl

theorem exact (here : Local stop read) {s t : List σ} {a : α} (taken : read s = some (a, stop :: t)) :
    ∃ front, s = front ++ stop :: t ∧ read front = some (a, []) := by
  have mem : stop ∈ s := (here.suffix taken).mem List.mem_cons_self
  obtain ⟨front, t', rfl, fresh⟩ := List.eq_append_cons_of_mem mem
  rw [here.before t' fresh] at taken
  obtain ⟨⟨a', s'⟩, inside, eq⟩ := Option.map_eq_some_iff.mp taken
  obtain ⟨rfl, eq⟩ := Prod.mk.inj eq
  cases s' with
  | nil =>
      cases eq
      exact ⟨front, rfl, inside⟩
  | cons c s' =>
      cases eq
      exact absurd ((here.suffix inside).mem List.mem_cons_self) fresh

theorem whole (here : Local stop read) {s : List σ} {a : α} (taken : read s = some (a, [])) : stop ∉ s := by
  intro mem
  obtain ⟨front, t, rfl, fresh⟩ := List.eq_append_cons_of_mem mem
  rw [here.before t fresh] at taken
  obtain ⟨⟨a', s'⟩, -, eq⟩ := Option.map_eq_some_iff.mp taken
  exact absurd (Prod.mk.inj eq).2 (List.append_ne_nil_of_right_ne_nil _ (List.cons_ne_nil _ _))

end Local

theorem append_cons_inj {c : σ} {a b p q : List σ} (hp : c ∉ p) (hq : c ∉ q) (same : a ++ c :: p = b ++ c :: q) :
    a = b ∧ p = q := by
  rcases List.append_eq_append_iff.mp same with ⟨u, rfl, eq⟩ | ⟨u, rfl, eq⟩
  · cases u with
    | nil => simpa using eq
    | cons x u =>
        obtain ⟨-, rfl⟩ := List.cons.inj eq
        exact absurd (List.mem_append_right u List.mem_cons_self) hp
  · cases u with
    | nil => simpa [eq_comm] using eq
    | cons x u =>
        obtain ⟨-, rfl⟩ := List.cons.inj eq
        exact absurd (List.mem_append_right u List.mem_cons_self) hq

theorem takeWhile_before {p : σ → Bool} {stop : σ} (refused : p stop = false) (s t : List σ) :
    (s ++ stop :: t).takeWhile p = s.takeWhile p ∧ (s ++ stop :: t).dropWhile p = s.dropWhile p ++ stop :: t := by
  induction s with
  | nil => simp [refused]
  | cons c s ih =>
      by_cases taken : p c = true
      · simpa [taken] using ih
      · simp [taken]

end Errex.Foundation
