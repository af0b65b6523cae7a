import Errex.Model.Proto

/-!
# Members of objects

The maps behind JSON objects are in the order of their keys, and insertions keep them so.
-/

namespace Errex.Proof.Members
open Model

def Ordered (members : Map) : Prop := members.Pairwise (·.1 < ·.1)

theorem lt_of_not_lt {s t : String} (after : ¬ s < t) (ne : s ≠ t) : t < s := by
  rw [String.not_lt] at after
  rw [← String.not_le]
  exact fun before => ne (String.le_antisymm before after)

theorem mem_orInsert {members : Map} (ordered : Ordered members) {key : String} {value : Value} {m : String × Value} :
    m ∈ members.orInsert key value ↔ m ∈ members ∨ m = (key, value) ∧ ∀ n ∈ members, n.1 ≠ key := by
  induction members with
  | nil => simp [Map.orInsert]
  | cons n members ih =>
      obtain ⟨above, ordered⟩ := List.pairwise_cons.mp ordered
      rw [Map.orInsert]
      split_ifs with same before
      · subst same
        simp
      · have later : ∀ n' ∈ n :: members, n'.1 ≠ key := by
          rintro n' mem rfl
          rcases List.mem_cons.mp mem with rfl | mem
          · exact same rfl
          · exact String.lt_asymm before (above n' mem)
        simp only [List.mem_cons]
        constructor
        · rintro (rfl | mem)
          · exact .inr ⟨rfl, fun n' mem => later n' (List.mem_cons.mpr mem)⟩
          · exact .inl mem
        · rintro (mem | ⟨rfl, -⟩)
          · exact .inr mem
          · exact .inl rfl
      · rw [List.mem_cons, ih ordered, List.mem_cons, List.forall_mem_cons]
        constructor
        · rintro (rfl | mem | ⟨rfl, absent⟩)
          · exact .inl (.inl rfl)
          · exact .inl (.inr mem)
          · exact .inr ⟨rfl, Ne.symm same, absent⟩
        · rintro ((rfl | mem) | ⟨rfl, -, absent⟩)
          · exact .inl rfl
          · exact .inr (.inl mem)
          · exact .inr (.inr ⟨rfl, absent⟩)

theorem ordered_orInsert {members : Map} (ordered : Ordered members) (key : String) (value : Value) :
    Ordered (members.orInsert key value) := by
  induction members with
  | nil => exact List.pairwise_singleton _ _
  | cons n members ih =>
      obtain ⟨above, rest⟩ := List.pairwise_cons.mp ordered
      rw [Map.orInsert]
      split_ifs with same before
      · exact ordered
      · refine List.pairwise_cons.mpr ⟨?_, ordered⟩
        rintro m mem
        rcases List.mem_cons.mp mem with rfl | mem
        · exact before
        · exact String.lt_trans before (above m mem)
      · refine List.pairwise_cons.mpr ⟨?_, ih rest⟩
        rintro m mem
        rcases (mem_orInsert rest).mp mem with mem | ⟨rfl, -⟩
        · exact above m mem
        · exact lt_of_not_lt before same

theorem absent_orInsert {members : Map} (ordered : Ordered members) {key other : String} {value : Value} :
    (∀ n ∈ members.orInsert key value, n.1 ≠ other) ↔ (∀ n ∈ members, n.1 ≠ other) ∧ key ≠ other := by
  simp only [mem_orInsert ordered]
  constructor
  · intro absent
    refine ⟨fun n mem => absent n (.inl mem), ?_⟩
    rintro rfl
    have old : ∀ n ∈ members, n.1 ≠ key := fun n mem => absent n (.inl mem)
    exact absent (key, value) (.inr ⟨rfl, old⟩) rfl
  · rintro ⟨absent, ne⟩ n (mem | ⟨rfl, -⟩)
    · exact absent n mem
    · exact ne

end Errex.Proof.Members
