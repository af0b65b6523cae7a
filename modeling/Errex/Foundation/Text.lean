import Mathlib.Tactic

/-!
# Text

Operations of Rust's `str` on lists of characters, numbers in fixed-width decimal, and the
byte order of texts. UTF-8 keeps the order of code points, so the order of two texts as byte
strings is the lexicographic order of their characters.
-/

namespace Errex.Foundation.Text

def isWhitespace (c : Char) : Bool :=
  (9 ≤ c.toNat && c.toNat ≤ 13) || c.toNat == 0x20 || c.toNat == 0x85 || c.toNat == 0xA0 ||
    c.toNat == 0x1680 || (0x2000 ≤ c.toNat && c.toNat ≤ 0x200A) || c.toNat == 0x2028 ||
    c.toNat == 0x2029 || c.toNat == 0x202F || c.toNat == 0x205F || c.toNat == 0x3000

def trimBy (strip : Char → Bool) (s : List Char) : List Char :=
  ((s.dropWhile strip).reverse.dropWhile strip).reverse

def trim (s : String) : String := .ofList (trimBy isWhitespace s.toList)

def trimMatches (c : Char) (s : String) : String := .ofList (trimBy (· == c) s.toList)

def splitOnceList (needle : List Char) : List Char → Option (List Char × List Char)
  | [] => if needle = [] then some ([], []) else none
  | c :: cs =>
      if needle.isPrefixOf (c :: cs) then some ([], (c :: cs).drop needle.length)
      else (splitOnceList needle cs).map fun parts => (c :: parts.1, parts.2)

def splitOnce (s needle : String) : Option (String × String) :=
  (splitOnceList needle.toList s.toList).map fun parts => (.ofList parts.1, .ofList parts.2)

def contains (s needle : String) : Bool := (splitOnce s needle).isSome

def split (s : String) (separator : Char → Bool) : List String :=
  (s.toList.splitOnP separator).map .ofList

def splitWhitespace (s : String) : List String := (split s isWhitespace).filter (!·.isEmpty)

def stripLead (s lead : String) : Option String :=
  if lead.toList.isPrefixOf s.toList then some (.ofList (s.toList.drop lead.length)) else none

def takeWhile (s : String) (keep : Char → Bool) : String := .ofList (s.toList.takeWhile keep)

def replaceChar (s : String) (old new : Char) : String :=
  .ofList (s.toList.map fun c => if c = old then new else c)

def eqIgnoreAsciiCase (s t : String) : Bool := s.toList.map Char.toLower == t.toList.map Char.toLower

theorem splitOnceList_append {c : Char} {needle before : List Char} (absent : ∀ x ∈ before, x ≠ c)
    (after : List Char) : splitOnceList (c :: needle) (before ++ (c :: needle) ++ after) = some (before, after) := by
  induction before with
  | nil => simp [splitOnceList]
  | cons x before ih =>
      have different := absent x (by simp)
      rw [List.cons_append, List.cons_append, splitOnceList, ih fun y mem => absent y (by simp [mem])]
      simp [different.symm]

theorem stripLead_append (lead s : List Char) :
    stripLead (.ofList (lead ++ s)) (.ofList lead) = some (.ofList s) := by
  simp [stripLead]

def digits : Nat → Nat → List Char
  | 0, _ => []
  | width + 1, n => digits width (n / 10) ++ [Nat.digitChar (n % 10)]

@[simp] theorem digits_length (width n : Nat) : (digits width n).length = width := by
  induction width generalizing n with
  | zero => rfl
  | succ width ih => simp [digits, ih]

theorem zero_le_of_mem_digits {width n : Nat} {c : Char} (mem : c ∈ digits width n) : '0' ≤ c := by
  induction width generalizing n with
  | zero => simp [digits] at mem
  | succ width ih =>
      rcases List.mem_append.mp mem with high | low
      · exact ih high
      · obtain rfl := List.mem_singleton.mp low
        have small : n % 10 < 10 := Nat.mod_lt _ (by omega)
        generalize n % 10 = k at small
        interval_cases k <;> decide

def hexDigits (width n : Nat) : List Char :=
  (List.range width).map fun k => Nat.digitChar (n / 16 ^ (width - 1 - k) % 16)

def hexValue (c : Char) : Option Nat :=
  if c.isDigit then some (c.toNat - 48)
  else if 'a' ≤ c ∧ c ≤ 'f' then some (c.toNat - 87)
  else if 'A' ≤ c ∧ c ≤ 'F' then some (c.toNat - 55)
  else none

@[simp] theorem hexDigits_length (width n : Nat) : (hexDigits width n).length = width := by simp [hexDigits]

theorem hexDigits_succ (width n : Nat) :
    hexDigits (width + 1) n = hexDigits width (n / 16) ++ [Nat.digitChar (n % 16)] := by
  rw [hexDigits, List.range_succ, List.map_append, List.map_singleton, Nat.add_sub_cancel, Nat.sub_self, pow_zero,
    Nat.div_one]
  congr 1
  apply List.map_congr_left
  intro k mem
  have inside := List.mem_range.mp mem
  have shift : width - k = width - 1 - k + 1 := by omega
  rw [shift, pow_succ', Nat.div_div_eq_div_mul]

theorem hexValue_digitChar : ∀ {n : Nat}, n < 16 → hexValue (Nat.digitChar n) = some n := by
  intro n small
  interval_cases n <;> decide

theorem mapM_hexDigits (width n : Nat) : ∃ values, (hexDigits width n).mapM hexValue = some values ∧
    values.foldl (fun n v => 16 * n + v) 0 = n % 16 ^ width := by
  induction width generalizing n with
  | zero => exact ⟨[], rfl, by rw [pow_zero, Nat.mod_one]; rfl⟩
  | succ width ih =>
      obtain ⟨values, read, value⟩ := ih (n / 16)
      have last := hexValue_digitChar (Nat.mod_lt n (by decide : 0 < 16))
      refine ⟨values ++ [n % 16], ?_, ?_⟩
      · rw [hexDigits_succ, List.mapM_append, read]
        simp [last]
      · rw [List.foldl_append, List.foldl_cons, List.foldl_nil, value, pow_succ', Nat.mod_mul]
        omega

theorem eq_of_hexDigits_eq {width m n : Nat} (hm : m < 16 ^ width) (hn : n < 16 ^ width)
    (same : hexDigits width m = hexDigits width n) : m = n := by
  obtain ⟨values, read, value⟩ := mapM_hexDigits width m
  obtain ⟨values', read', value'⟩ := mapM_hexDigits width n
  rw [same, read', Option.some.injEq] at read
  rw [← Nat.mod_eq_of_lt hm, ← Nat.mod_eq_of_lt hn, ← value, ← value', read]

section Order

variable {α : Type} [LT α]

theorem append_lt_append_iff {a b : List α} (same : a.length = b.length) (r s : List α) :
    a ++ r < b ++ s ↔ a < b ∨ a = b ∧ r < s := by
  induction a generalizing b with
  | nil =>
      obtain rfl : b = [] := List.eq_nil_of_length_eq_zero same.symm
      simp
  | cons x a ih =>
      cases b with
      | nil => simp at same
      | cons y b =>
          simp only [List.cons_append, List.cons_lt_cons_iff, ih (Nat.succ.inj same), List.cons.injEq]
          tauto

end Order

theorem digitChar_lt_digitChar : ∀ {a b : Nat}, a < b → b < 10 → Nat.digitChar a < Nat.digitChar b := by
  intro a b lt small
  interval_cases b <;> interval_cases a <;> decide

theorem digits_lt_digits {width n m : Nat} (lt : n < m) (bound : m < 10 ^ width) :
    digits width n < digits width m := by
  induction width generalizing n m with
  | zero => simp only [pow_zero] at bound; omega
  | succ width ih =>
      rw [digits, digits, append_lt_append_iff (by simp)]
      rw [pow_succ] at bound
      rcases Nat.lt_or_ge (n / 10) (m / 10) with high | high
      · exact .inl (ih high (by omega))
      · have equal : n / 10 = m / 10 := by omega
        refine .inr ⟨by rw [equal], ?_⟩
        rw [List.cons_lt_cons_iff]
        exact .inl (digitChar_lt_digitChar (by omega) (by omega))

theorem digits_add (width more n : Nat) : digits (width + more) n = digits width (n / 10 ^ more) ++ digits more n := by
  induction more generalizing n with
  | zero => simp [digits]
  | succ more ih =>
      rw [← Nat.add_assoc, digits, ih, digits, Nat.div_div_eq_div_mul, ← Nat.pow_succ', List.append_assoc]

theorem decimals_lt {scale k l m n : Nat} {c : Char} (before : c < '0') (r s : List Char) (hk : k ≤ scale) (hl : l ≤ scale)
    (exact_m : 10 ^ (scale - k) ∣ m) (exact_n : 10 ^ (scale - l) ∣ n) (lt : m < n) (bound : n < 10 ^ scale) :
    digits k (m / 10 ^ (scale - k)) ++ c :: r < digits l (n / 10 ^ (scale - l)) ++ c :: s := by
  have small : ∀ {w x}, w ≤ scale → x < 10 ^ scale → x / 10 ^ (scale - w) < 10 ^ w := by
    intro w x hw hx
    rw [Nat.div_lt_iff_lt_mul (by positivity), ← pow_add, Nat.add_sub_cancel' hw]
    exact hx
  rcases Nat.le_total k l with le | le
  · obtain ⟨j, rfl⟩ := Nat.exists_eq_add_of_le le
    have shift : scale - k = scale - (k + j) + j := by omega
    have lead : n / 10 ^ (scale - (k + j)) / 10 ^ j = n / 10 ^ (scale - k) := by
      rw [Nat.div_div_eq_div_mul, ← pow_add, shift]
    rw [digits_add, lead, List.append_assoc, append_lt_append_iff (by simp)]
    rcases Nat.lt_or_ge (m / 10 ^ (scale - k)) (n / 10 ^ (scale - k)) with less | ge
    · exact .inl (digits_lt_digits less (small hk bound))
    · have same : m / 10 ^ (scale - k) = n / 10 ^ (scale - k) := le_antisymm (Nat.div_le_div_right lt.le) ge
      refine .inr ⟨by rw [same], ?_⟩
      cases j with
      | zero =>
          rw [Nat.add_zero] at exact_n
          have := Nat.div_mul_cancel exact_m
          have := Nat.div_mul_cancel exact_n
          rw [same] at *
          omega
      | succ j =>
          obtain ⟨d, rest, written⟩ := List.exists_cons_of_length_pos
            (l := digits (j + 1) (n / 10 ^ (scale - (k + (j + 1))))) (by simp)
          have mem : d ∈ digits (j + 1) (n / 10 ^ (scale - (k + (j + 1)))) := by simp [written]
          have digit : '0' ≤ d := zero_le_of_mem_digits mem
          rw [written, List.cons_append, List.cons_lt_cons_iff]
          refine .inl (Char.not_le.mp fun le => ?_)
          exact Char.not_lt.mpr (Char.le_trans digit le) before
  · obtain ⟨j, rfl⟩ := Nat.exists_eq_add_of_le le
    have shift : scale - l = scale - (l + j) + j := by omega
    have lead : m / 10 ^ (scale - (l + j)) / 10 ^ j = m / 10 ^ (scale - l) := by
      rw [Nat.div_div_eq_div_mul, ← pow_add, shift]
    rw [digits_add, lead, List.append_assoc, append_lt_append_iff (by simp)]
    have less : m / 10 ^ (scale - l) < n / 10 ^ (scale - l) := by
      rw [Nat.div_lt_iff_lt_mul (by positivity), Nat.div_mul_cancel exact_n]
      exact lt
    exact .inl (digits_lt_digits less (small hl bound))

theorem fromUTF8?_eq_some_iff {bytes : List UInt8} {s : String} :
    String.fromUTF8? bytes.toByteArray = some s ↔ bytes = s.toUTF8.data.toList := by
  have same : bytes = s.toUTF8.data.toList ↔ bytes.toByteArray = s.toByteArray := by
    constructor
    · rintro rfl
      exact ByteArray.ext (by simp)
    · intro same
      simpa using congrArg (·.data.toList) same
  rw [same, String.fromUTF8?]
  split_ifs with valid
  · rw [Option.some.injEq, ← String.toByteArray_inj]
    rfl
  · refine iff_of_false nofun fun eq => valid ?_
    rw [eq]
    exact s.isValidUTF8

theorem lt_of_mem_utf8EncodeChar {c : Char} {byte : UInt8} (mem : byte ∈ String.utf8EncodeChar c) : byte.toNat < 0xf8 := by
  have small : ∀ n < 0xf8, (UInt8.ofNat n).toNat < 0xf8 := by
    intro n lt
    rw [UInt8.toNat_ofNat']
    omega
  unfold String.utf8EncodeChar at mem
  dsimp only at mem
  split_ifs at mem <;> simp only [List.mem_cons, List.not_mem_nil, or_false] at mem
  · exact mem ▸ small _ (by omega)
  · rcases mem with rfl | rfl <;> exact small _ (by omega)
  · rcases mem with rfl | rfl | rfl <;> exact small _ (by omega)
  · rcases mem with rfl | rfl | rfl | rfl <;> exact small _ (by omega)

def utf8Bytes (s : String) : List UInt8 := s.toUTF8.data.toList

theorem utf8Bytes_eq (s : String) : utf8Bytes s = s.toList.flatMap String.utf8EncodeChar := by
  have encoded : (s.toList.flatMap String.utf8EncodeChar).toByteArray = s.toByteArray := String.utf8Encode_toList
  simpa [utf8Bytes] using congrArg (·.data.toList) encoded.symm

theorem utf8Bytes_inj {s t : String} : utf8Bytes s = utf8Bytes t ↔ s = t := by
  constructor
  · intro same
    exact String.toByteArray_inj.mp (ByteArray.ext (Array.toList_inj.mp same))
  · rintro rfl
    rfl

theorem lt_of_mem_utf8 {s : String} {byte : UInt8} (mem : byte ∈ utf8Bytes s) : byte.toNat < 0xf8 := by
  rw [utf8Bytes_eq] at mem
  obtain ⟨c, -, mem⟩ := List.mem_flatMap.mp mem
  exact lt_of_mem_utf8EncodeChar mem

theorem utf8EncodeChar_append_lt {c d : Char} (lt : c < d) (r s : List UInt8) :
    String.utf8EncodeChar c ++ r < String.utf8EncodeChar d ++ s := by
  have less : c.val.toNat < d.val.toNat := lt
  have bound : d.val.toNat < 0x110000 := d.valid.elim (fun low => by omega) (fun high => high.2)
  unfold String.utf8EncodeChar
  dsimp only
  split_ifs <;>
    simp only [List.cons_append, List.nil_append, List.cons_lt_cons_iff, UInt8.lt_iff_toNat_lt, ← UInt8.toNat_inj,
      UInt8.toNat_ofNat'] <;>
    simp (disch := omega) only [Nat.mod_eq_of_lt] <;>
    omega

theorem flatMap_utf8EncodeChar_lt {a b : List Char} (lt : a < b) :
    a.flatMap String.utf8EncodeChar < b.flatMap String.utf8EncodeChar := by
  induction a generalizing b with
  | nil =>
      cases b with
      | nil => exact absurd lt (List.lt_irrefl _)
      | cons d b =>
          obtain ⟨byte, bytes, encoded⟩ := List.exists_cons_of_ne_nil (@String.utf8EncodeChar_ne_nil d)
          rw [List.flatMap_nil, List.flatMap_cons, encoded]
          exact List.nil_lt_cons _ _
  | cons c a ih =>
      cases b with
      | nil => exact absurd lt (List.not_lt_nil _)
      | cons d b =>
          rw [List.flatMap_cons, List.flatMap_cons]
          rcases List.cons_lt_cons_iff.mp lt with first | ⟨rfl, rest⟩
          · exact utf8EncodeChar_append_lt first _ _
          · exact List.append_left_lt (ih rest)

theorem utf8Bytes_lt_iff {s t : String} : utf8Bytes s < utf8Bytes t ↔ s.toList < t.toList := by
  have preserved : ∀ {s t : String}, s.toList < t.toList → utf8Bytes s < utf8Bytes t := by
    intro s t lt
    rw [utf8Bytes_eq, utf8Bytes_eq]
    exact flatMap_utf8EncodeChar_lt lt
  constructor
  · intro before
    by_contra later
    rcases List.le_iff_lt_or_eq.mp (List.not_lt.mp later) with after | same
    · exact List.lt_asymm before (preserved after)
    · rw [String.toList_inj.mp same] at before
      exact List.lt_irrefl _ before
  · exact preserved

end Errex.Foundation.Text
