import Mathlib.Tactic

/-!
# Keyed tables

A `Table` holds rows in the order of their insertion, no two of them with one key, as SQL keeps a
table with a `PRIMARY KEY` or `UNIQUE` constraint. Each statement has a lemma that says which row is
found under a key afterwards.
-/

namespace Errex.Foundation

structure Table (ρ κ : Type) (key : ρ → κ) where
  rows : List ρ
  nodup : (rows.map key).Nodup

namespace Table

variable {ρ κ : Type} {key : ρ → κ}

def empty : Table ρ κ key := ⟨[], List.nodup_nil⟩

def update (t : Table ρ κ key) (p : ρ → Bool) (f : ρ → ρ) (same : ∀ row, key (f row) = key row) :
    Table ρ κ key where
  rows := t.rows.map fun row => if p row then f row else row
  nodup := by
    have keys : (key ∘ fun row => if p row then f row else row) = key := by
      funext row
      simp only [Function.comp_apply]
      split_ifs
      · exact same row
      · rfl
    rw [List.map_map, keys]
    exact t.nodup

def delete (t : Table ρ κ key) (p : ρ → Bool) : Table ρ κ key where
  rows := t.rows.filter fun row => !p row
  nodup := t.nodup.sublist (List.filter_sublist.map key)

def count (t : Table ρ κ key) (p : ρ → Bool) : Nat := t.rows.countP p

section Rows

variable {t : Table ρ κ key} {p : ρ → Bool} {f : ρ → ρ} {row row' : ρ}

@[simp] theorem rows_empty : (empty : Table ρ κ key).rows = [] := rfl

theorem eq_of_key_eq (mem : row ∈ t.rows) (mem' : row' ∈ t.rows) (same : key row = key row') : row = row' :=
  List.inj_on_of_nodup_map t.nodup mem mem' same

theorem mem_update (same : ∀ row, key (f row) = key row) :
    row' ∈ (t.update p f same).rows ↔ ∃ row ∈ t.rows, (if p row then f row else row) = row' := by
  simp [update]

@[simp] theorem mem_delete : row ∈ (t.delete p).rows ↔ row ∈ t.rows ∧ p row = false := by
  simp [delete]

theorem update_id (p : ρ → Bool) : t.update p id (fun _ => rfl) = t := by
  obtain ⟨rows, nodup⟩ := t
  simp [update]

theorem update_update {g : ρ → ρ} (same : ∀ row, key (f row) = key row) (same' : ∀ row, key (g row) = key row)
    (stable : ∀ row, p (f row) = p row) :
    (t.update p f same).update p g same' = t.update p (g ∘ f) fun row => (same' (f row)).trans (same row) := by
  have rows : ∀ row, (if p (if p row then f row else row) then g (if p row then f row else row)
      else (if p row then f row else row)) = if p row then g (f row) else row := by
    intro row
    cases hit : p row <;> simp [hit, stable]
  simp only [update, List.map_map, Function.comp_def, rows]

variable {P : ρ → Prop}

theorem forall_update (all : ∀ row ∈ t.rows, P row) (same : ∀ row, key (f row) = key row)
    (keeps : ∀ row, P row → P (f row)) : ∀ row ∈ (t.update p f same).rows, P row := by
  intro row mem
  obtain ⟨old, stored, rfl⟩ := (mem_update same).mp mem
  split_ifs
  · exact keeps old (all old stored)
  · exact all old stored

theorem forall_delete (all : ∀ row ∈ t.rows, P row) : ∀ row ∈ (t.delete p).rows, P row := fun row mem =>
  all row (mem_delete.mp mem).1

theorem delete_congr {q : ρ → Bool} (same : ∀ row ∈ t.rows, p row = q row) : t.delete p = t.delete q := by
  have kept : t.rows.filter (fun row => !p row) = t.rows.filter fun row => !q row :=
    List.filter_congr fun row mem => by rw [same row mem]
  simp only [delete, kept]

theorem count_congr {q : ρ → Bool} (same : ∀ row ∈ t.rows, p row = q row) : t.count p = t.count q :=
  List.countP_congr fun row mem => by rw [same row mem]

variable {q : ρ → Bool}

theorem filter_map_ite {rows : List ρ} (apart : ∀ row ∈ rows, p row = true → q row = false ∧ q (f row) = false) :
    (rows.map fun row => if p row then f row else row).filter q = rows.filter q := by
  induction rows with
  | nil => rfl
  | cons row rows ih =>
      obtain ⟨first, later⟩ := List.forall_mem_cons.mp apart
      rw [List.map_cons]
      by_cases hit : p row = true
      · obtain ⟨before, after⟩ := first hit
        rw [if_pos hit, List.filter_cons_of_neg (by simp [after]), List.filter_cons_of_neg (by simp [before]), ih later]
      · rw [if_neg hit, List.filter_cons, List.filter_cons, ih later]

theorem filter_update (same : ∀ row, key (f row) = key row)
    (apart : ∀ row ∈ t.rows, p row = true → q row = false ∧ q (f row) = false) :
    (t.update p f same).rows.filter q = t.rows.filter q :=
  filter_map_ite apart

theorem filter_delete (apart : ∀ row ∈ t.rows, q row = true → p row = false) : (t.delete p).rows.filter q = t.rows.filter q := by
  show (t.rows.filter fun row => !p row).filter q = _
  rw [List.filter_filter]
  apply List.filter_congr
  intro row mem
  cases selected : q row with
  | false => rfl
  | true => simp [apart row mem selected]

end Rows

variable [DecidableEq κ]

def find? (t : Table ρ κ key) (k : κ) : Option ρ := t.rows.find? fun row => key row = k

def insert (t : Table ρ κ key) (row : ρ) : Option (Table ρ κ key) :=
  if h : key row ∈ t.rows.map key then none
  else some ⟨t.rows ++ [row], by
    rw [List.map_append, List.nodup_append]
    refine ⟨t.nodup, List.nodup_singleton _, ?_⟩
    rintro k mem k' mem' rfl
    exact h (List.mem_singleton.mp mem' ▸ mem)⟩

def rekey (t : Table ρ κ key) (p : ρ → Bool) (f : ρ → ρ) : Option (Table ρ κ key) :=
  let rows := t.rows.map fun row => if p row then f row else row
  if h : (rows.map key).Nodup then some ⟨rows, h⟩ else none

def set (t : Table ρ κ key) (row : ρ) : Table ρ κ key :=
  match t.insert row with
  | some t' => t'
  | none =>
      let stored := t.rows.map fun other => if key other = key row then row else other
      have keys : stored.map key = t.rows.map key := by
        rw [List.map_map]
        apply List.map_congr_left
        intro other _
        simp only [Function.comp_apply]
        split_ifs with same
        · exact same.symm
        · rfl
      ⟨stored, keys ▸ t.nodup⟩

variable {t t' : Table ρ κ key} {p : ρ → Bool} {f : ρ → ρ} {k : κ} {row : ρ}

theorem mem_of_find? (h : t.find? k = some row) : row ∈ t.rows := List.mem_of_find?_eq_some h

theorem key_of_find? (h : t.find? k = some row) : key row = k := by
  simpa using List.find?_some h

theorem find?_of_mem (mem : row ∈ t.rows) : t.find? (key row) = some row := by
  obtain ⟨other, found⟩ : ∃ other, t.find? (key row) = some other :=
    Option.isSome_iff_exists.mp (List.find?_isSome.mpr ⟨row, mem, by simp⟩)
  rw [found, eq_of_key_eq (mem_of_find? found) mem (key_of_find? found)]

theorem find?_eq_some_iff : t.find? k = some row ↔ row ∈ t.rows ∧ key row = k := by
  refine ⟨fun h => ⟨mem_of_find? h, key_of_find? h⟩, ?_⟩
  rintro ⟨mem, rfl⟩
  exact find?_of_mem mem

theorem find?_eq_none_iff : t.find? k = none ↔ ∀ row ∈ t.rows, key row ≠ k := by
  simp [find?]

@[simp] theorem find?_empty : (empty : Table ρ κ key).find? k = none := rfl

theorem filter_key (t : Table ρ κ key) (k : κ) :
    (t.rows.filter fun row => key row = k) = (t.find? k).toList := by
  obtain ⟨rows, nodup⟩ := t
  simp only [find?]
  induction rows with
  | nil => rfl
  | cons row rows ih =>
      simp only [List.map_cons, List.nodup_cons] at nodup
      by_cases same : key row = k
      · have others : (rows.filter fun row => key row = k) = [] := by
          rw [List.filter_eq_nil_iff]
          intro other mem
          simpa [← same] using fun equal => nodup.1 (List.mem_map.mpr ⟨other, mem, equal⟩)
        simp [same, others]
      · simpa [same] using ih nodup.2

theorem find?_update (same : ∀ row, key (f row) = key row) :
    (t.update p f same).find? k = (t.find? k).map fun row => if p row then f row else row := by
  have keys : ∀ row, key (if p row then f row else row) = key row := by
    intro row
    split_ifs
    · exact same row
    · rfl
  simp only [find?, update, List.find?_map, Function.comp_def, keys]

theorem find?_update_key {k₀ : κ} (same : ∀ row, key (f row) = key row) :
    (t.update (fun row => key row = k₀) f same).find? k =
      if k₀ = k then (t.find? k).map f else t.find? k := by
  rw [find?_update]
  cases found : t.find? k with
  | none => simp
  | some row =>
      have := key_of_find? found
      simp only [Option.map_some, this, decide_eq_true_eq, eq_comm (a := k)]
      split_ifs <;> rfl

theorem count_eq (found : t.find? k = some row) (p : ρ → Bool) :
    t.count p = (t.delete fun row => key row = k).count p + if p row then 1 else 0 := by
  have keyed : (t.rows.filter fun row => key row = k) = [row] := by rw [filter_key, found, Option.toList_some]
  have parts := List.countP_eq_countP_filter_add t.rows p fun row => !decide (key row = k)
  simp only [Bool.not_not, keyed, List.countP_singleton] at parts
  exact parts

theorem count_update_key (found : t.find? k = some row) (same : ∀ row, key (f row) = key row) (p : ρ → Bool) :
    (t.update (fun row => key row = k) f same).count p =
      (t.delete fun row => key row = k).count p + if p (f row) then 1 else 0 := by
  have moved : (t.update (fun row => key row = k) f same).find? k = some (f row) := by
    rw [find?_update_key, if_pos rfl, found, Option.map_some]
  have others : (t.update (fun row => key row = k) f same).delete (fun row => key row = k) =
      t.delete fun row => key row = k := by
    have rows : ∀ rows : List ρ, ((rows.map fun row => if decide (key row = k) then f row else row).filter fun row =>
        !decide (key row = k)) = rows.filter fun row => !decide (key row = k) := by
      intro rows
      induction rows with
      | nil => rfl
      | cons other rows ih =>
          by_cases hit : key other = k
          · simpa [hit, same] using ih
          · simpa [hit] using ih
    simp only [delete, update, rows]
  rw [count_eq moved, others]

theorem find?_delete : (t.delete p).find? k = (t.find? k).filter fun row => !p row := by
  apply Option.ext
  intro row
  simp only [find?_eq_some_iff, mem_delete, Option.filter_eq_some_iff, Bool.not_eq_true']
  tauto

theorem insert_eq_none_iff : t.insert row = none ↔ ∃ other, t.find? (key row) = some other := by
  simp only [insert, find?_eq_some_iff]
  split_ifs with h
  · simpa using h
  · simpa using fun other mem same => h (List.mem_map.mpr ⟨other, mem, same⟩)

theorem rows_of_insert (h : t.insert row = some t') : t'.rows = t.rows ++ [row] := by
  unfold insert at h
  split_ifs at h
  cases h
  rfl

theorem fresh_of_insert (h : t.insert row = some t') : t.find? (key row) = none := by
  by_contra present
  obtain ⟨other, found⟩ := Option.ne_none_iff_exists'.mp present
  simp [insert_eq_none_iff.mpr ⟨other, found⟩] at h

theorem find?_of_insert (h : t.insert row = some t') :
    t'.find? k = if key row = k then some row else t.find? k := by
  simp only [find?, rows_of_insert h, List.find?_append, List.find?_singleton, decide_eq_true_eq]
  split_ifs with same
  · subst same
    have : t.rows.find? (fun other => decide (key other = key row)) = none := fresh_of_insert h
    simp [this]
  · simp

theorem find?_of_insert_of_found {found : ρ} (h : t.insert row = some t') (before : t.find? k = some found) :
    t'.find? k = some found := by
  rw [find?_of_insert h]
  split_ifs with same
  · subst same
    simp [insert_eq_none_iff.mpr ⟨found, before⟩] at h
  · exact before

theorem find?_set (t : Table ρ κ key) (row : ρ) (k : κ) :
    (t.set row).find? k = if key row = k then some row else t.find? k := by
  unfold set
  cases inserted : t.insert row with
  | some t' => exact find?_of_insert inserted
  | none =>
      obtain ⟨other, found⟩ := insert_eq_none_iff.mp inserted
      have keys : ∀ other, key (if key other = key row then row else other) = key other := by
        intro other
        split_ifs with same
        · exact same.symm
        · rfl
      have stored : (t.rows.map fun other => if key other = key row then row else other).find?
          (fun other => decide (key other = k)) =
          (t.find? k).map fun other => if key other = key row then row else other := by
        simp only [find?, List.find?_map, Function.comp_def, keys]
      refine stored.trans ?_
      split_ifs with same
      · subst same
        rw [found, Option.map_some, if_pos (key_of_find? found)]
      · cases before : t.find? k with
        | none => rfl
        | some old =>
            have := key_of_find? before
            rw [Option.map_some, if_neg (by rw [this]; exact Ne.symm same)]

theorem rekey_eq_none {a b : ρ} (mem : a ∈ t.rows) (mem' : b ∈ t.rows) (moves : p a = true) (stays : p b = false)
    (meets : key (f a) = key b) : t.rekey p f = none := by
  simp only [rekey]
  split_ifs with nodup
  · rw [List.map_map] at nodup
    have equal : a = b := List.inj_on_of_nodup_map nodup mem mem' (by simp [moves, stays, meets])
    rw [equal, stays] at moves
    cases moves
  · rfl

theorem exists_rekey (apart : ∀ a ∈ t.rows, ∀ b ∈ t.rows, p a = true → p b = false → key (f a) ≠ key b)
    (injective : ∀ a b, p a = true → p b = true → key (f a) = key (f b) → key a = key b) : ∃ t', t.rekey p f = some t' := by
  have nodup : ((t.rows.map fun row => if p row then f row else row).map key).Nodup := by
    rw [List.map_map]
    refine (List.Nodup.of_map key t.nodup).map_on ?_
    intro a mem b mem' same
    simp only [Function.comp_apply] at same
    apply eq_of_key_eq mem mem'
    split_ifs at same with moves moves' moves'
    · exact injective a b moves moves' same
    · exact absurd same (apart a mem b mem' moves (by simpa using moves'))
    · exact absurd same.symm (apart b mem' a mem moves' (by simpa using moves))
    · exact same
  exact ⟨_, dif_pos nodup⟩

theorem rows_of_rekey (h : t.rekey p f = some t') :
    t'.rows = t.rows.map fun row => if p row then f row else row := by
  simp only [rekey] at h
  split_ifs at h
  cases h
  rfl

variable {P : ρ → Prop}

theorem forall_insert (all : ∀ row ∈ t.rows, P row) (h : t.insert row = some t') (new : P row) : ∀ row ∈ t'.rows, P row := by
  intro other mem
  rw [rows_of_insert h, List.mem_append, List.mem_singleton] at mem
  rcases mem with stored | rfl
  · exact all other stored
  · exact new

theorem forall_rekey (all : ∀ row ∈ t.rows, P row) (h : t.rekey p f = some t') (keeps : ∀ row, P row → P (f row)) :
    ∀ row ∈ t'.rows, P row := by
  intro other mem
  rw [rows_of_rekey h] at mem
  obtain ⟨old, stored, rfl⟩ := List.mem_map.mp mem
  split_ifs
  · exact keeps old (all old stored)
  · exact all old stored

variable {q : ρ → Bool}

theorem filter_insert (h : t.insert row = some t') (other : q row = false) : t'.rows.filter q = t.rows.filter q := by
  rw [rows_of_insert h, List.filter_append, List.filter_cons_of_neg (by simp [other]), List.filter_nil, List.append_nil]

theorem filter_rekey (h : t.rekey p f = some t') (apart : ∀ row ∈ t.rows, p row = true → q row = false ∧ q (f row) = false) :
    t'.rows.filter q = t.rows.filter q := by
  rw [rows_of_rekey h, filter_map_ite apart]

end Table

end Errex.Foundation
