import Errex.Proof.Spa.Canonical

/-!
# Printed filters are read back

A store without free text, whose numbers are safe integers, is printed and parsed to itself (`parse_print`).
-/

namespace Errex.Proof.Spa
open Foundation Model Spa Utf16

theorem times_ofNat {n k : Nat} (small : n * k < 2 ^ 53) (positive : 0 < k) :
    (Double.ofNat n).times k = .ofNat (n * k) := by
  have le := Nat.le_mul_of_pos_right n positive
  rw [Double.ofNat_small (le.trans_lt small)]
  rfl

theorem isMultipleOf_ofNat {n : Nat} (small : n < 2 ^ 53) (k : Nat) : (Double.ofNat n).isMultipleOf k = (n % k == 0) := by
  rw [Double.ofNat_small small]
  rfl

theorem dividedBy_ofNat {n : Nat} (small : n < 2 ^ 53) (k : Nat) : (Double.ofNat n).dividedBy k = .ofNat (n / k) := by
  rw [Double.ofNat_small small]
  rfl

theorem roundedQuotient_mul {j k : Nat} (positive : 0 < k) (small : j * k < 2 ^ 53) :
    (Double.ofNat (j * k)).roundedQuotient k = .ofNat j := by
  have below : j < 2 ^ 53 := (Nat.le_mul_of_pos_right j positive).trans_lt small
  have whole : j * k / k = j := Nat.mul_div_cancel j positive
  have log : ¬ 52 < Nat.log2 j := by
    intro high
    have nonzero : j ≠ 0 := by rintro rfl; simp at high
    have := (Nat.le_log2 nonzero).mp (show 53 ≤ Nat.log2 j from high)
    omega
  have quotient : Double.quotient (j * k) k = (j * 2 ^ (52 - Nat.log2 j), 52 - Nat.log2 j) := by
    have order : j * k * 2 ^ (52 - Nat.log2 j) = j * 2 ^ (52 - Nat.log2 j) * k := by ring
    rw [Double.quotient, whole, if_neg log, order, Rounding.halfEven_mul _ _ positive]
  have nearest : ∀ p, 0 < p → (2 * (j * p) + p) / (2 * p) = j := by
    intro p positive
    have split : 2 * (j * p) + p = p + 2 * p * j := by ring
    rw [split, Nat.add_mul_div_left _ _ (by omega), Nat.div_eq_of_lt (by omega), Nat.zero_add]
  rw [Double.ofNat_small small, Double.roundedQuotient, quotient]
  exact congrArg Double.ofNat (nearest _ (Nat.two_pow_pos _))

theorem toText_ofNat {n : Nat} (small : n < 2 ^ 53) : (Double.ofNat n).toText = decimal n := by
  rw [Double.ofNat_small small, Double.toText_small _ _ small]

def unitMs (u : CodeUnit) : Nat := if u = unit 'm' then 60000 else if u = unit 'h' then HOUR else DAY

theorem unitParse_units (n : Double) : unitParse n [unit 'm'] = (n.times 60).times 1000 ∧
    unitParse n [unit 'h'] = ((n.times 60).times 60).times 1000 ∧
    unitParse n [unit 'd'] = (((n.times 24).times 60).times 60).times 1000 := ⟨rfl, rfl, rfl⟩

theorem unitParse_ofNat {k : Nat} {u : CodeUnit} (window : u ∈ windowUnits) (small : k * unitMs u < 2 ^ 53) :
    unitParse (.ofNat k) [u] = .ofNat (k * unitMs u) := by
  obtain ⟨minutes, hours, days⟩ := unitParse_units (.ofNat k)
  simp only [windowUnits, List.mem_cons, List.not_mem_nil, or_false] at window
  rcases window with rfl | rfl | rfl
  · have ms : k * unitMs (unit 'm') = k * 60 * 1000 := (Nat.mul_assoc k 60 1000).symm
    rw [ms] at small ⊢
    rw [minutes, times_ofNat (by omega) (by decide), times_ofNat small (by decide)]
  · have ms : k * unitMs (unit 'h') = k * 60 * 60 * 1000 := by
      rw [Nat.mul_assoc, Nat.mul_assoc]
      rfl
    rw [ms] at small ⊢
    rw [hours, times_ofNat (by omega) (by decide), times_ofNat (by omega) (by decide), times_ofNat small (by decide)]
  · have ms : k * unitMs (unit 'd') = k * 24 * 60 * 60 * 1000 := by
      rw [Nat.mul_assoc, Nat.mul_assoc, Nat.mul_assoc]
      rfl
    rw [ms] at small ⊢
    rw [days, times_ofNat (by omega) (by decide), times_ofNat (by omega) (by decide), times_ofNat (by omega) (by decide),
      times_ofNat small (by decide)]

theorem sincePresets_text : ∀ preset ∈ sincePresets, ∃ j, ∃ u ∈ windowUnits,
    ofString preset.2 = decimal j ++ [u] ∧ j * unitMs u = preset.1 := by
  simp only [sincePresets, List.forall_mem_cons]
  refine ⟨⟨7, unit 'd', ?_⟩, ⟨24, unit 'h', ?_⟩, ⟨1, unit 'h', ?_⟩, ⟨15, unit 'm', ?_⟩, ⟨5, unit 'm', ?_⟩, nofun⟩ <;> decide

theorem ofNat_inj {m n : Nat} (hm : m < 2 ^ 53) (hn : n < 2 ^ 53) (same : Double.ofNat m = .ofNat n) : m = n := by
  rw [Double.ofNat_small hm, Double.ofNat_small hn] at same
  cases same
  rfl

theorem formatSince_minutes {k : Nat} (small : k * 60000 < 2 ^ 53) : ∃ j, ∃ u ∈ windowUnits,
    formatSince (.own (.ofNat (k * 60000))) = decimal j ++ [u] ∧ j * unitMs u = k * 60000 := by
  rw [formatSince]
  split
  · rename_i ms token found
    have mem := List.mem_of_find?_eq_some found
    obtain ⟨j, u, window, text, value⟩ := sincePresets_text (ms, token) mem
    have bounded : ms < 2 ^ 53 := by
      have each : (sincePresets.all fun preset => decide (preset.1 < 2 ^ 53)) = true := by decide
      exact of_decide_eq_true (List.all_eq_true.mp each (ms, token) mem)
    have same := List.find?_some found
    simp only [beq_iff_eq] at same
    exact ⟨j, u, window, text, value.trans (ofNat_inj small bounded same).symm⟩
  · rw [isMultipleOf_ofNat small, isMultipleOf_ofNat small]
    split_ifs with days hours
    · have multiple : k * 60000 / DAY * DAY = k * 60000 := Nat.div_mul_cancel (Nat.dvd_of_mod_eq_zero (beq_iff_eq.mp days))
      have below : k * 60000 / DAY < 2 ^ 53 := (Nat.div_le_self _ _).trans_lt small
      exact ⟨_, unit 'd', by decide, by rw [dividedBy_ofNat small, toText_ofNat below], multiple⟩
    · have multiple : k * 60000 / HOUR * HOUR = k * 60000 := Nat.div_mul_cancel (Nat.dvd_of_mod_eq_zero (beq_iff_eq.mp hours))
      have below : k * 60000 / HOUR < 2 ^ 53 := (Nat.div_le_self _ _).trans_lt small
      exact ⟨_, unit 'h', by decide, by rw [dividedBy_ofNat small, toText_ofNat below], multiple⟩
    · have below : k < 2 ^ 53 := by omega
      exact ⟨k, unit 'm', by decide, by rw [roundedQuotient_mul (by decide) small, toText_ofNat below], rfl⟩

def printedStore (levels : Finset Level) (statuses : Finset IssueStatus) (minutes limit : Option Nat)
    (spikingOnly newOnly staleOnly : Bool) (sort : SortKey) : FilterStore where
  query := []
  statuses
  levels
  sinceMs := minutes.map fun k => .own (.ofNat (k * 60000))
  spikingOnly
  sort := .own sort
  limit := limit.map Double.ofNat
  newOnly
  staleOnly

theorem printable_printedStore {levels : Finset Level} {statuses : Finset IssueStatus} {minutes limit : Option Nat}
    {spikingOnly newOnly staleOnly : Bool} {sort : SortKey} (some_ : statuses ≠ ∅)
    (window : ∀ k ∈ minutes, k * 60000 < 2 ^ 53) (bound : ∀ n ∈ limit, n < 2 ^ 53) :
    Printable (printedStore levels statuses minutes limit spikingOnly newOnly staleOnly sort) where
  statuses := some_
  window := by
    intro ms mem
    obtain ⟨k, inside, rfl⟩ := Option.map_eq_some_iff.mp mem
    obtain ⟨j, u, named, text, value⟩ := formatSince_minutes (window k inside)
    refine ⟨j, u, named, text, ?_⟩
    rw [unitParse_ofNat named (value.trans_lt (window k inside)), value]
  sort := ⟨sort, rfl⟩
  limit := by
    intro n mem
    obtain ⟨m, inside, rfl⟩ := Option.map_eq_some_iff.mp mem
    have small := bound m inside
    rw [Double.ofNat_small small, Double.isAtMost]
    exact decide_eq_true (by omega)

theorem residue_of_blank {f : FilterStore} (blank : f.query = []) : residue f = .empty := by
  have rest : remainder f = [] := by
    rw [remainder, blank]
    split <;> rfl
  rw [residue, rest]
  rfl

theorem neutral_of_blank {f : FilterStore} (blank : f.query = []) : Neutral f := by
  have keeps : ∀ {α : Type} [DecidableEq α] (order : List α) (default set : Finset α), Keeps order default set ∅ ∅ := by
    intro α _ order default set
    by_cases same : set = default <;> simp [Keeps, same]
  have residue_ := residue_of_blank blank
  constructor <;> rw [residue_]
  · exact keeps _ _ _
  · exact keeps _ _ _
  all_goals simp [Query.empty]

/-- What a store without free text is printed as is read back as the store. -/
theorem parse_print (levels : Finset Level) (statuses : Finset IssueStatus) (minutes limit : Option Nat)
    (spikingOnly newOnly staleOnly : Bool) (sort : SortKey) (filter : FilterStore) (some_ : statuses ≠ ∅)
    (window : ∀ k ∈ minutes, k * 60000 < 2 ^ 53) (bound : ∀ n ∈ limit, n < 2 ^ 53) :
    applyInputToFilter
        (filterToQueryString (printedStore levels statuses minutes limit spikingOnly newOnly staleOnly sort)) filter =
      printedStore levels statuses minutes limit spikingOnly newOnly staleOnly sort := by
  have printable := @printable_printedStore levels _ _ _ spikingOnly newOnly staleOnly sort some_ window bound
  have blank : (printedStore levels statuses minutes limit spikingOnly newOnly staleOnly sort).query = [] := rfl
  generalize printedStore levels statuses minutes limit spikingOnly newOnly staleOnly sort = f at printable blank ⊢
  have facets_ := (reentered_iff printable filter).mpr (neutral_of_blank blank)
  have text : (applyInputToFilter (filterToQueryString f) filter).query = f.query := by
    rw [applyInputToFilter, parse_canonical printable, residue_of_blank blank, merge_empty, blank]
    rfl
  obtain ⟨levels_, statuses_, sinceMs, spiking, new, stale, sort_, limit_⟩ := facets_
  generalize applyInputToFilter (filterToQueryString f) filter = g at *
  cases f
  cases g
  simp only at levels_ statuses_ sinceMs spiking new stale sort_ limit_ text
  simp only [levels_, statuses_, sinceMs, spiking, new, stale, sort_, limit_, text]

theorem parse_print_all :
    applyInputToFilter (filterToQueryString
        (printedStore {.fatal, .error} {.muted} (some 90) (some 25) true false false .stale)) .fresh =
      printedStore {.fatal, .error} {.muted} (some 90) (some 25) true false false .stale := by
  apply parse_print
  · decide
  · decide
  · decide

example : filterToQueryString (printedStore {.fatal, .error} {.muted} (some 90) (some 25) true false false .stale) =
    ofString "fatal,error status:muted 90m spiking sort:stale limit:25" := by decide +kernel

end Errex.Proof.Spa
