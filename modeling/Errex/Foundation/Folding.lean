import Mathlib.Tactic

/-!
# Folds that forget nothing

A step that is injective in the state and in the symbol carries a difference through everything that is folded after
it, so lists that differ in one position are folded apart.
-/

namespace Errex.Foundation.Folding

variable {σ α : Type} {step : σ → α → σ} {a b : List α}

structure Faithful (step : σ → α → σ) : Prop where
  state : ∀ x, Function.Injective fun s => step s x
  symbol : ∀ s, Function.Injective (step s)

theorem Faithful.foldl_injective (faithful : Faithful step) (l : List α) : Function.Injective (l.foldl step) := by
  induction l with
  | nil => exact Function.injective_id
  | cons x l ih =>
      intro s s' same
      exact faithful.state x (ih same)

structure OneApart (a b : List α) : Prop where
  length : a.length = b.length
  position : ∃! n : Nat, a[n]? ≠ b[n]?

theorem oneApart_iff : OneApart a b ↔ ∃ lead x y rest, a = lead ++ x :: rest ∧ b = lead ++ y :: rest ∧ x ≠ y := by
  constructor
  · rintro ⟨length, n, apart, only⟩
    have inside : n < a.length := by
      by_contra outside
      rw [List.getElem?_eq_none (by omega), List.getElem?_eq_none (by omega)] at apart
      exact apart rfl
    have same : ∀ m, m ≠ n → a[m]? = b[m]? := fun m other => by_contra fun differ => other (only m differ)
    have lead : a.take n = b.take n := by
      apply List.ext_getElem?
      intro m
      rw [List.getElem?_take, List.getElem?_take]
      split_ifs with before
      · exact same m before.ne
      · rfl
    have rest : a.drop (n + 1) = b.drop (n + 1) := by
      apply List.ext_getElem?
      intro m
      rw [List.getElem?_drop, List.getElem?_drop]
      exact same _ (by omega)
    have inside' : n < b.length := length ▸ inside
    refine ⟨a.take n, a[n], b[n], a.drop (n + 1), ?_, ?_, ?_⟩
    · rw [List.getElem_cons_drop, List.take_append_drop]
    · rw [lead, rest, List.getElem_cons_drop, List.take_append_drop]
    · rwa [List.getElem?_eq_getElem inside, List.getElem?_eq_getElem inside', ne_eq, Option.some.injEq] at apart
  · rintro ⟨lead, x, y, rest, rfl, rfl, apart⟩
    refine ⟨by simp, lead.length, by simpa using apart, fun n differ => ?_⟩
    by_contra other
    apply differ
    rcases Nat.lt_or_gt_of_ne other with before | after
    · rw [List.getElem?_append_left before, List.getElem?_append_left before]
    · obtain ⟨m, rfl⟩ := Nat.exists_eq_add_of_lt after
      rw [List.getElem?_append_right (by omega), List.getElem?_append_right (by omega)]
      have index : lead.length + m + 1 - lead.length = m + 1 := by omega
      rw [index, List.getElem?_cons_succ, List.getElem?_cons_succ]

theorem OneApart.within (apart : OneApart a b) (before after : List α) :
    OneApart (before ++ a ++ after) (before ++ b ++ after) := by
  obtain ⟨lead, x, y, rest, rfl, rfl, differ⟩ := oneApart_iff.mp apart
  exact oneApart_iff.mpr ⟨before ++ lead, x, y, rest ++ after, by simp, by simp, differ⟩

theorem Faithful.foldl_ne (faithful : Faithful step) (apart : OneApart a b) (s : σ) : a.foldl step s ≠ b.foldl step s := by
  obtain ⟨lead, x, y, rest, rfl, rfl, differ⟩ := oneApart_iff.mp apart
  intro same
  rw [List.foldl_append, List.foldl_append, List.foldl_cons, List.foldl_cons] at same
  exact differ (faithful.symbol _ (faithful.foldl_injective rest same))

end Errex.Foundation.Folding
