import Errex.Foundation.Text
import Errex.Foundation.Utf16

/-!
# UTF-8 of texts of JavaScript

A text leaves JavaScript as UTF-8, a surrogate without its partner as U+FFFD. ASCII is one byte for one unit, in
whatever text it stands.
-/

namespace Errex.Foundation.Utf16
open Text

def scalar (u : CodeUnit) : Char := if isSurrogate u then Char.ofNat 0xFFFD else Char.ofNat u.toNat

def joined (u v : CodeUnit) : Char := Char.ofNat (0x10000 + (u.toNat - 0xD800) * 0x400 + (v.toNat - 0xDC00))

def scalars : Utf16 → List Char
  | [] => []
  | [u] => [scalar u]
  | u :: v :: rest =>
      if isHighSurrogate u && isLowSurrogate v then joined u v :: scalars rest
      else scalar u :: scalars (v :: rest)

def utf8 (s : Utf16) : List UInt8 := (scalars s).flatMap String.utf8EncodeChar

theorem scalars_cons {u : CodeUnit} {s : Utf16} (alone : ∀ v ∈ s.head?, (isHighSurrogate u && isLowSurrogate v) = false) :
    scalars (u :: s) = scalar u :: scalars s := by
  cases s with
  | nil => rfl
  | cons v rest =>
      have apart := alone v rfl
      rw [scalars, apart]
      rfl

theorem scalars_append {lead : Utf16} (plain : ∀ u ∈ lead, isSurrogate u = false) (s : Utf16) :
    scalars (lead ++ s) = lead.map scalar ++ scalars s := by
  induction lead with
  | nil => rfl
  | cons u lead ih =>
      obtain ⟨first, later⟩ := List.forall_mem_cons.mp plain
      have low : isHighSurrogate u = false := (Bool.or_eq_false_iff.mp first).1
      rw [List.cons_append, scalars_cons fun v _ => by rw [low, Bool.false_and], ih later]
      rfl

theorem toNat_ofNat {n : Nat} (valid : n.isValidChar) : (Char.ofNat n).toNat = n := by
  rw [Char.ofNat, dif_pos valid]
  rfl

theorem scalar_toNat {u : CodeUnit} (plain : isSurrogate u = false) : (scalar u).toNat = u.toNat := by
  have valid : u.toNat.isValidChar := by
    have small := u.toNat_lt
    simp only [isSurrogate, isHighSurrogate, isLowSurrogate, UInt16.le_iff_toNat_le, Bool.or_eq_false_iff,
      Bool.and_eq_false_iff, decide_eq_false_iff_not] at plain
    simp at plain
    rw [Nat.isValidChar]
    omega
  rw [scalar, plain, if_neg Bool.false_ne_true, toNat_ofNat valid]

theorem le_joined {u v : CodeUnit} (paired : (isHighSurrogate u && isLowSurrogate v) = true) : 0x10000 ≤ (joined u v).toNat := by
  have bounds : 0xD800 ≤ u.toNat ∧ u.toNat ≤ 0xDBFF ∧ 0xDC00 ≤ v.toNat ∧ v.toNat ≤ 0xDFFF := by
    simp only [isHighSurrogate, isLowSurrogate, UInt16.le_iff_toNat_le, Bool.and_eq_true, decide_eq_true_eq] at paired
    simp at paired
    omega
  have valid : (0x10000 + (u.toNat - 0xD800) * 0x400 + (v.toNat - 0xDC00)).isValidChar := by
    rw [Nat.isValidChar]
    omega
  rw [joined, toNat_ofNat valid]
  omega

theorem scalars_pair {u v : CodeUnit} (paired : (isHighSurrogate u && isLowSurrogate v) = true) (s : Utf16) :
    scalars (u :: v :: s) = joined u v :: scalars s := by
  rw [scalars, paired, if_pos rfl]

theorem unit_mem_of_mem_scalars {s : Utf16} {c : Char} (mem : c ∈ scalars s) (ascii : c.toNat < 0x80) : unit c ∈ s := by
  have alone : ∀ u : CodeUnit, (scalar u).toNat < 0x80 → unit (scalar u) = u := by
    intro u ascii
    by_cases surrogate : isSurrogate u = true
    · rw [scalar, if_pos surrogate] at ascii
      exact absurd ascii (by decide)
    · rw [unit, scalar_toNat (by simpa using surrogate)]
      exact UInt16.ofNat_toNat
  fun_induction scalars s with
  | case1 => cases mem
  | case2 u =>
      obtain rfl := List.mem_singleton.mp mem
      rw [alone u ascii]
      exact List.mem_singleton_self u
  | case3 u v rest paired ih =>
      rcases List.mem_cons.mp mem with first | later
      · have large := le_joined paired
        rw [← first] at large
        omega
      · exact List.mem_cons_of_mem _ (List.mem_cons_of_mem _ (ih later))
  | case4 u v rest unpaired ih =>
      rcases List.mem_cons.mp mem with rfl | later
      · rw [alone u ascii]
        exact List.mem_cons_self
      · exact List.mem_cons_of_mem _ (ih later)

theorem utf8_append {lead : Utf16} (plain : lead.any isSurrogate = false) (s : Utf16) :
    utf8 (lead ++ s) = (lead.map scalar).flatMap String.utf8EncodeChar ++ utf8 s := by
  rw [utf8, scalars_append fun u mem => by simpa using List.any_eq_false.mp plain u mem, List.flatMap_append]
  rfl

theorem utf8_cons {u : CodeUnit} {s : Utf16} (alone : ∀ v ∈ s.head?, (isHighSurrogate u && isLowSurrogate v) = false) :
    utf8 (u :: s) = String.utf8EncodeChar (scalar u) ++ utf8 s := by
  rw [utf8, scalars_cons alone]
  rfl

theorem utf8_pair {u v : CodeUnit} (paired : (isHighSurrogate u && isLowSurrogate v) = true) (s : Utf16) :
    utf8 (u :: v :: s) = String.utf8EncodeChar (joined u v) ++ utf8 s := by
  rw [utf8, scalars_pair paired]
  rfl

theorem ascii_of_mem_utf8EncodeChar {c : Char} {byte : UInt8} (mem : byte ∈ String.utf8EncodeChar c) (ascii : byte.toNat < 0x80) :
    c.toNat = byte.toNat := by
  have same : c.toNat = c.val.toNat := rfl
  unfold String.utf8EncodeChar at mem
  dsimp only at mem
  split_ifs at mem <;> simp only [List.mem_cons, List.not_mem_nil, or_false] at mem
  · rw [mem]
    simp
    omega
  · rcases mem with rfl | rfl <;> simp at ascii <;> omega
  · rcases mem with rfl | rfl | rfl <;> simp at ascii <;> omega
  · rcases mem with rfl | rfl | rfl | rfl <;> simp at ascii <;> omega

theorem unit_mem_of_mem_utf8 {s : Utf16} {byte : UInt8} (mem : byte ∈ utf8 s) (ascii : byte.toNat < 0x80) :
    UInt16.ofNat byte.toNat ∈ s := by
  obtain ⟨c, inside, mem⟩ := List.mem_flatMap.mp mem
  have same := ascii_of_mem_utf8EncodeChar mem ascii
  have found := unit_mem_of_mem_scalars inside (same ▸ ascii)
  rwa [unit, same] at found

end Errex.Foundation.Utf16
