import Mathlib.Tactic

/-!
# Rows in rank order

The first rows of each group in some order, and how taking them goes together with other selections: a
selection that keeps with a row all those ahead of it may come before or after.
-/

namespace Errex.Foundation.Ranking

variable {ρ : Type} {partner before : ρ → ρ → Bool} {rows : List ρ} {row : ρ} {keep : ρ → Bool}

def ahead (partner before : ρ → ρ → Bool) (rows : List ρ) (row : ρ) : Nat :=
  rows.countP fun other => partner other row && before other row

def within (partner before : ρ → ρ → Bool) (limit : Option Int) (rows : List ρ) (row : ρ) : Bool :=
  limit.all fun n => decide ((ahead partner before rows row : Int) < n)

def Closed (partner before : ρ → ρ → Bool) (keep : ρ → Bool) : Prop :=
  ∀ row other, keep row = true → partner other row = true → before other row = true → keep other = true

theorem ahead_filter (closed : Closed partner before keep) (kept : keep row = true) :
    ahead partner before (rows.filter keep) row = ahead partner before rows row := by
  rw [ahead, ahead, List.countP_filter]
  apply List.countP_congr
  intro other _
  simp only [Bool.and_eq_true]
  constructor
  · exact fun both => both.1
  · exact fun first => ⟨first, closed row other kept first.1 first.2⟩

theorem within_filter (closed : Closed partner before keep) (limit : Option Int) (rows : List ρ) :
    (rows.filter keep).filter (within partner before limit (rows.filter keep)) =
      (rows.filter (within partner before limit rows)).filter keep := by
  rw [List.filter_filter, List.filter_filter]
  apply List.filter_congr
  intro row _
  cases kept : keep row with
  | false => simp
  | true => simp only [within, ahead_filter closed kept, Bool.true_and, Bool.and_true]

theorem closed_within (equivalence : ∀ a b c, partner a b = true → partner b c = true → partner a c = true)
    (trans : ∀ a b c, before a b = true → before b c = true → before a c = true) (limit : Option Int) :
    Closed partner before (within partner before limit rows) := by
  intro row other kept same first
  have fewer : ahead partner before rows other ≤ ahead partner before rows row := by
    apply List.countP_mono_left
    intro third _ both
    rw [Bool.and_eq_true] at both ⊢
    exact ⟨equivalence third other row both.1 same, trans third other row both.2 first⟩
  cases limit with
  | none => rfl
  | some n =>
      simp only [within, Option.all_some, decide_eq_true_eq] at kept ⊢
      omega

variable {κ : Type} [LinearOrder κ] {rank : ρ → κ}

def first (before : ρ → ρ → Bool) (rows : List ρ) : Option ρ := (rows.mergeSort fun a b => !before b a).head?

theorem first_spec (rank : ρ → κ) (rows : List ρ) : first (fun a b => decide (rank a < rank b)) rows = none ∧ rows = [] ∨
    ∃ row ∈ rows, first (fun a b => decide (rank a < rank b)) rows = some row ∧
      ∀ other ∈ rows, rank row ≤ rank other := by
  set le : ρ → ρ → Bool := fun a b => !decide (rank b < rank a) with le_def
  have le_iff : ∀ a b, le a b = true ↔ rank a ≤ rank b := by
    intro a b
    simp [le_def]
  have sorted : (rows.mergeSort le).Pairwise fun a b => le a b = true := by
    apply List.pairwise_mergeSort
    · intro a b c ab bc
      rw [le_iff] at *
      exact ab.trans bc
    · intro a b
      rw [Bool.or_eq_true, le_iff, le_iff]
      exact le_total (rank a) (rank b)
  have same : (rows.mergeSort le).Perm rows := List.mergeSort_perm rows le
  rw [first]
  cases found : rows.mergeSort le with
  | nil =>
      rw [found] at same
      exact .inl ⟨rfl, List.nil_perm.mp same⟩
  | cons row rest =>
      rw [found] at same sorted
      refine .inr ⟨row, same.subset (List.mem_cons_self ..), rfl, ?_⟩
      intro other mem
      rcases List.mem_cons.mp (same.symm.subset mem) with rfl | later
      · exact le_rfl
      · exact (le_iff row other).mp ((List.pairwise_cons.mp sorted).1 other later)

theorem first_filter (distinct : ∀ a ∈ rows, ∀ b ∈ rows, rank a = rank b → a = b)
    (closed : ∀ a ∈ rows, ∀ b ∈ rows, keep a = true → rank b < rank a → keep b = true) :
    first (fun a b => decide (rank a < rank b)) (rows.filter keep) =
      (first (fun a b => decide (rank a < rank b)) rows).filter keep := by
  rcases first_spec rank rows with ⟨none_, rfl⟩ | ⟨row, mem, found, least⟩
  · rw [List.filter_nil, none_]
    rfl
  · rw [found]
    rcases first_spec rank (rows.filter keep) with ⟨none_, empty⟩ | ⟨row', mem', found', least'⟩
    · rw [none_]
      cases kept : keep row with
      | false => rw [Option.filter_some, kept]; rfl
      | true =>
          have : row ∈ rows.filter keep := List.mem_filter.mpr ⟨mem, kept⟩
          rw [empty] at this
          cases this
    · rw [found']
      obtain ⟨inside, kept'⟩ := List.mem_filter.mp mem'
      have kept : keep row = true := by
        rcases (least row' inside).lt_or_eq with lt | equal
        · exact closed row' inside row mem kept' lt
        · rwa [distinct row mem row' inside equal]
      have equal : row' = row :=
        distinct row' inside row mem ((least' row (List.mem_filter.mpr ⟨mem, kept⟩)).antisymm (least row' inside))
      rw [equal, Option.filter_some, if_pos kept]

def Orders (rank : ρ → κ) (le : ρ → ρ → Bool) (rows : List ρ) : Prop :=
  ∀ a ∈ rows, ∀ b ∈ rows, (le a b = true ↔ rank a ≤ rank b)

variable {le : ρ → ρ → Bool}

theorem Orders.sorted (orders : Orders rank le rows) : (rows.mergeSort le).Pairwise fun a b => rank a ≤ rank b := by
  have same : rows.mergeSort le = rows.mergeSort fun a b => decide (rank a ≤ rank b) := by
    have agree : ∀ a ∈ rows, ∀ b ∈ rows, le a b = decide (rank a ≤ rank b) := by
      intro a mem b mem'
      rw [Bool.eq_iff_iff, decide_eq_true_iff]
      exact orders a mem b mem'
    simpa using @List.map_mergeSort _ _ le (fun a b => decide (rank a ≤ rank b)) id rows agree
  rw [same]
  have sorted : (rows.mergeSort fun a b => decide (rank a ≤ rank b)).Pairwise fun a b => decide (rank a ≤ rank b) = true := by
    apply List.pairwise_mergeSort
    · intro a b c ab bc
      rw [decide_eq_true_iff] at *
      exact ab.trans bc
    · intro a b
      rw [Bool.or_eq_true, decide_eq_true_iff, decide_eq_true_iff]
      exact le_total (rank a) (rank b)
  exact sorted.imp fun ordered => of_decide_eq_true ordered

theorem Orders.strict (orders : Orders rank le rows) (distinct : (rows.map rank).Nodup) :
    (rows.mergeSort le).Pairwise fun a b => rank a < rank b := by
  have apart : ((rows.mergeSort le).map rank).Nodup := ((List.mergeSort_perm rows le).map rank).nodup_iff.mpr distinct
  have both := orders.sorted.and (List.pairwise_map.mp apart)
  exact both.imp fun pair => lt_of_le_of_ne pair.1 pair.2

theorem Orders.sort_eq {rows' : List ρ} (orders : Orders rank le rows) (distinct : (rows.map rank).Nodup)
    (perm : rows'.Perm rows) : rows'.mergeSort le = rows.mergeSort le := by
  have orders' : Orders rank le rows' := fun a mem b mem' => orders a (perm.subset mem) b (perm.subset mem')
  apply @List.Perm.eq_of_pairwise _ fun a b => rank a < rank b
  · intro a b _ _ ab ba
    exact absurd ab ba.asymm
  · exact orders'.strict ((perm.map rank).nodup_iff.mpr distinct)
  · exact orders.strict distinct
  · exact ((List.mergeSort_perm rows' le).trans perm).trans (List.mergeSort_perm rows le).symm

section Limits

variable {γ : Type} {group : ρ → γ} (groups : ∀ a b, partner a b = true ↔ group a = group b)
  (orders : ∀ a b, before a b = true ↔ rank a < rank b)

include groups orders

theorem ahead_lt {a b : ρ} (mem : a ∈ rows) (same : group a = group b) (lt : rank a < rank b) :
    ahead partner before rows a < ahead partner before rows b := by
  set first : ρ → Bool := fun other => partner other a && before other a with first_def
  set second : ρ → Bool := fun other => partner other b && before other b with second_def
  have both : (rows.filter first).countP second = rows.countP first := by
    rw [List.countP_filter]
    apply List.countP_congr
    intro other _
    simp only [first_def, second_def, Bool.and_eq_true, groups, orders, same]
    exact ⟨fun h => h.2, fun h => ⟨⟨h.1, h.2.trans lt⟩, h⟩⟩
  have more : 0 < (rows.filter fun other => !first other).countP second := by
    refine List.countP_pos_iff.mpr ⟨a, List.mem_filter.mpr ⟨mem, ?_⟩, ?_⟩
    · rw [Bool.not_eq_true', ← Bool.not_eq_true, first_def, Bool.and_eq_true, orders]
      exact fun h => absurd h.2 (lt_irrefl _)
    · rw [second_def, Bool.and_eq_true, groups, orders]
      exact ⟨same, lt⟩
  show rows.countP first < rows.countP second
  rw [List.countP_eq_countP_filter_add rows second first, both]
  omega

theorem countP_within_le (distinct : (rows.map rank).Nodup) {n : Int} (nonneg : 0 ≤ n) {g : γ} {ofGroup : ρ → Bool}
    (is : ∀ row, ofGroup row = true → group row = g) :
    ((rows.filter (within partner before (some n) rows)).countP ofGroup : Int) ≤ n := by
  set kept := (rows.filter (within partner before (some n) rows)).filter ofGroup with kept_def
  set position := ahead partner before rows with position_def
  have inside : ∀ row ∈ kept, row ∈ rows ∧ position row < n.toNat ∧ group row = g := by
    intro row mem
    simp only [kept_def, List.mem_filter, within, Option.all_some, decide_eq_true_eq] at mem
    have ranked : (position row : Int) < n := mem.1.2
    exact ⟨mem.1.1, by omega, is row mem.2⟩
  have apart : (kept.map position).Nodup := by
    have ranks : (kept.map rank).Nodup := by
      refine distinct.sublist (List.Sublist.map rank ?_)
      exact List.filter_sublist.trans List.filter_sublist
    refine (List.nodup_map_iff_inj_on (List.Nodup.of_map _ ranks)).mpr ?_
    intro a mem b mem' same
    obtain ⟨here, -, group_a⟩ := inside a mem
    obtain ⟨there, -, group_b⟩ := inside b mem'
    have equal : group a = group b := group_a.trans group_b.symm
    rcases lt_trichotomy (rank a) (rank b) with lt | eq | gt
    · exact absurd same (ahead_lt groups orders here equal lt).ne
    · exact List.inj_on_of_nodup_map distinct here there eq
    · exact absurd same (ahead_lt groups orders there equal.symm gt).ne'
  have few : (kept.map position).length ≤ (List.range n.toNat).length := by
    refine (List.subperm_of_subset apart fun p mem => ?_).length_le
    obtain ⟨row, held, rfl⟩ := List.mem_map.mp mem
    exact List.mem_range.mpr (inside row held).2.1
  rw [List.length_map, List.length_range, kept_def, ← List.countP_eq_length_filter] at few
  omega

end Limits

end Errex.Foundation.Ranking
