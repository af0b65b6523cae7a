import Mathlib.Data.List.TakeWhile
import Mathlib.Tactic

/-!
# Texts of JavaScript

Strings as sequences of UTF-16 code units, with the classes of units that patterns name and the
operations of `String.prototype`.
-/

namespace Errex.Foundation

abbrev CodeUnit := UInt16

abbrev Utf16 := List CodeUnit

namespace Utf16

def unit (c : Char) : CodeUnit := UInt16.ofNat c.toNat

def ofString (s : String) : Utf16 := s.toList.map unit

def encodeChar (c : Char) : Utf16 :=
  if c.toNat < 0x10000 then [unit c]
  else [.ofNat (0xD800 + (c.toNat - 0x10000) / 0x400), .ofNat (0xDC00 + (c.toNat - 0x10000) % 0x400)]

def encode (s : String) : Utf16 := s.toList.flatMap encodeChar

def isDigit (u : CodeUnit) : Bool := decide (48 ≤ u) && decide (u ≤ 57)

def isUpper (u : CodeUnit) : Bool := decide (65 ≤ u) && decide (u ≤ 90)

def isLower (u : CodeUnit) : Bool := decide (97 ≤ u) && decide (u ≤ 122)

def isWord (u : CodeUnit) : Bool := isDigit u || isUpper u || isLower u || u == 95

def isSpace (u : CodeUnit) : Bool :=
  (decide (9 ≤ u) && decide (u ≤ 13)) || u == 0x20 || u == 0xA0 || u == 0x1680 ||
    (decide (0x2000 ≤ u) && decide (u ≤ 0x200A)) || u == 0x2028 || u == 0x2029 || u == 0x202F || u == 0x205F ||
    u == 0x3000 || u == 0xFEFF

/-- `toLowerCase` of one unit, and case folding of patterns with the flag `i`: both leave what is not ASCII
alone, as far as it can meet an ASCII letter. -/
def lower (u : CodeUnit) : CodeUnit := if isUpper u then u + 32 else u

def toLowerCase (s : Utf16) : Utf16 := s.map lower

def trimStart (s : Utf16) : Utf16 := s.dropWhile isSpace

def trimEnd (s : Utf16) : Utf16 := (s.reverse.dropWhile isSpace).reverse

def trim (s : Utf16) : Utf16 := trimEnd (trimStart s)

def splitComma (s : Utf16) : List Utf16 := s.splitOn (unit ',')

def join (separator : Char) (parts : List Utf16) : Utf16 := [unit separator].intercalate parts

def indexOf (s : Utf16) (u : CodeUnit) : Option Nat := s.findIdx? (· == u)

def lastIndexOf (s needle : Utf16) : Option Nat :=
  (List.range (s.length + 1)).reverse.find? fun k => needle.isPrefixOf (s.drop k)

def withoutStars (s : Utf16) : Utf16 := s.filter (· != unit '*')

def isHighSurrogate (u : CodeUnit) : Bool := decide (0xD800 ≤ u) && decide (u ≤ 0xDBFF)

def isLowSurrogate (u : CodeUnit) : Bool := decide (0xDC00 ≤ u) && decide (u ≤ 0xDFFF)

/-- The conversion to a `USVString`: a surrogate without its partner becomes U+FFFD. -/
def toWellFormed : Utf16 → Utf16
  | [] => []
  | [u] => [if isHighSurrogate u || isLowSurrogate u then 0xFFFD else u]
  | u :: v :: rest =>
      if isHighSurrogate u && isLowSurrogate v then u :: v :: toWellFormed rest
      else (if isHighSurrogate u || isLowSurrogate u then 0xFFFD else u) :: toWellFormed (v :: rest)

def numeral (digits : Utf16) : Nat := digits.foldl (fun n u => 10 * n + (u.toNat - 48)) 0

def decimal (n : Nat) : Utf16 := (Nat.toDigits 10 n).map unit

def isWellFormed (s : Utf16) : Bool := toWellFormed s == s

theorem letter_of_lower {v : CodeUnit} (letter : isLower (lower v) = true) : isWord v = true ∧ isSpace v = false := by
  have word_ : isUpper v = true ∨ isLower v = true := by
    rw [lower] at letter
    split at letter
    · exact .inl (by assumption)
    · exact .inr letter
  constructor
  · rcases word_ with upper | small <;> simp [isWord, *]
  · rw [← Bool.not_eq_true]
    intro space
    simp only [isUpper, isLower, isSpace, UInt16.le_iff_toNat_le, Bool.or_eq_true, Bool.and_eq_true, decide_eq_true_eq,
      beq_iff_eq, ← UInt16.toNat_inj] at word_ space
    simp at word_ space
    omega

theorem lower_lower (u : CodeUnit) : lower (lower u) = lower u := by
  by_cases upper : isUpper u = true
  · have small : isUpper (u + 32) = false := by
      simp only [isUpper, UInt16.le_iff_toNat_le, Bool.and_eq_true, decide_eq_true_eq] at upper
      simp only [isUpper, UInt16.le_iff_toNat_le, UInt16.toNat_add, Bool.and_eq_false_iff, decide_eq_false_iff_not]
      simp at upper ⊢
      omega
    have step : lower u = u + 32 := by simp [lower, upper]
    rw [step, lower, small]
    rfl
  · have step : lower u = u := by simp [lower, upper]
    rw [step, step]

def isSurrogate (u : CodeUnit) : Bool := isHighSurrogate u || isLowSurrogate u

theorem toWellFormed_cons {u : CodeUnit} (plain : isSurrogate u = false) (s : Utf16) :
    toWellFormed (u :: s) = u :: toWellFormed s := by
  obtain ⟨high, low⟩ := Bool.or_eq_false_iff.mp plain
  cases s <;> simp [toWellFormed, high, low]

theorem toWellFormed_append_singleton {u : CodeUnit} (plain : isSurrogate u = false) (s : Utf16) :
    toWellFormed (s ++ [u]) = toWellFormed s ++ [u] := by
  obtain ⟨high, low⟩ := Bool.or_eq_false_iff.mp plain
  fun_induction toWellFormed s with
  | case1 => simp [toWellFormed, high, low]
  | case2 v => simp [toWellFormed, high, low]
  | case3 v w rest paired ih => simpa [toWellFormed, paired] using ih
  | case4 v w rest alone ih => simpa [toWellFormed, alone] using ih

theorem toWellFormed_lead {lead : Utf16} (plain : ∀ u ∈ lead, isSurrogate u = false) (s : Utf16) :
    toWellFormed (lead ++ s) = lead ++ toWellFormed s := by
  induction lead with
  | nil => rfl
  | cons u lead ih =>
      rw [List.cons_append, toWellFormed_cons (plain u List.mem_cons_self),
        ih fun v mem => plain v (List.mem_cons_of_mem _ mem), List.cons_append]

theorem toWellFormed_tail {tail : Utf16} (plain : ∀ u ∈ tail, isSurrogate u = false) (s : Utf16) :
    toWellFormed (s ++ tail) = toWellFormed s ++ tail := by
  induction tail generalizing s with
  | nil => simp
  | cons u tail ih =>
      have step := ih (fun v mem => plain v (List.mem_cons_of_mem _ mem)) (s ++ [u])
      rw [List.append_assoc, List.singleton_append] at step
      rw [step, toWellFormed_append_singleton (plain u List.mem_cons_self)]
      simp

theorem toWellFormed_plain {s : Utf16} (plain : ∀ u ∈ s, isSurrogate u = false) : toWellFormed s = s := by
  have := toWellFormed_lead plain []
  simpa [toWellFormed] using this

theorem length_toWellFormed (s : Utf16) : (toWellFormed s).length = s.length := by
  fun_induction toWellFormed s <;> simp_all

theorem not_isSurrogate_of_isSpace {u : CodeUnit} (space : isSpace u = true) : isSurrogate u = false := by
  simp only [isSpace, isSurrogate, isHighSurrogate, isLowSurrogate, UInt16.le_iff_toNat_le, Bool.or_eq_true, Bool.and_eq_true,
    decide_eq_true_eq, beq_iff_eq, ← UInt16.toNat_inj] at space ⊢
  simp only [Bool.or_eq_false_iff, Bool.and_eq_false_iff, decide_eq_false_iff_not]
  simp at space ⊢
  omega

theorem not_isSurrogate_of_isDigit {u : CodeUnit} (digit : isDigit u = true) : isSurrogate u = false := by
  simp only [isDigit, isSurrogate, isHighSurrogate, isLowSurrogate, UInt16.le_iff_toNat_le, Bool.and_eq_true,
    decide_eq_true_eq] at digit ⊢
  simp only [Bool.or_eq_false_iff, Bool.and_eq_false_iff, decide_eq_false_iff_not]
  simp at digit ⊢
  omega

theorem trim_spec (s : Utf16) : ∃ lead tail, s = lead ++ trim s ++ tail ∧
    (∀ u ∈ lead, isSpace u = true) ∧ (∀ u ∈ tail, isSpace u = true) := by
  refine ⟨s.takeWhile isSpace, ((trimStart s).reverse.takeWhile isSpace).reverse, ?_, ?_, ?_⟩
  · rw [List.append_assoc, trim, trimEnd, ← List.reverse_append, List.takeWhile_append_dropWhile,
      List.reverse_reverse, trimStart, List.takeWhile_append_dropWhile]
  · exact List.all_eq_true.mp List.all_takeWhile
  · exact fun u mem => List.all_eq_true.mp List.all_takeWhile u (List.mem_reverse.mp mem)

theorem trimStart_lead {lead : Utf16} (spaces : ∀ u ∈ lead, isSpace u = true) (s : Utf16) :
    trimStart (lead ++ s) = trimStart s := by
  rw [trimStart, List.dropWhile_append_of_pos spaces, trimStart]

theorem trimEnd_tail {tail : Utf16} (spaces : ∀ u ∈ tail, isSpace u = true) (s : Utf16) :
    trimEnd (s ++ tail) = trimEnd s := by
  rw [trimEnd, List.reverse_append, List.dropWhile_append_of_pos fun u mem => spaces u (List.mem_reverse.mp mem), trimEnd]

theorem trim_between {lead tail : Utf16} (before : ∀ u ∈ lead, isSpace u = true)
    (after : ∀ u ∈ tail, isSpace u = true) (s : Utf16) : trim (lead ++ s ++ tail) = trim s := by
  rw [List.append_assoc, trim, trimStart_lead before, trim]
  by_cases blank : trimStart s = []
  · have empty : trimStart (s ++ tail) = [] := by
      have all := List.dropWhile_eq_nil_iff.mp blank
      rw [trimStart_lead all, trimStart, List.dropWhile_eq_nil_iff]
      exact after
    rw [blank, empty]
  · have kept : trimStart (s ++ tail) = trimStart s ++ tail := by
      rw [trimStart, List.dropWhile_append, if_neg (by simpa [trimStart] using blank), trimStart]
    rw [kept, trimEnd_tail after]

theorem eq_of_trim {s m : Utf16} (trimmed : trim s = m) (length : s.length = m.length) : s = m := by
  obtain ⟨lead, tail, whole, -, -⟩ := trim_spec s
  rw [trimmed] at whole
  have sum := congrArg List.length whole
  simp only [List.length_append] at sum
  have noLead : lead = [] := List.eq_nil_of_length_eq_zero (by omega)
  have noTail : tail = [] := List.eq_nil_of_length_eq_zero (by omega)
  simpa [noLead, noTail] using whole

theorem length_trim_le (s : Utf16) : (trim s).length ≤ s.length := by
  obtain ⟨lead, tail, whole, -, -⟩ := trim_spec s
  have := congrArg List.length whole
  simp only [List.length_append] at this
  omega

theorem trim_head (s : Utf16) : ∀ u ∈ (trim s).head?, isSpace u = false := by
  intro u mem
  obtain ⟨lead, tail, whole, before, behind⟩ := trim_spec s
  have again : trim s = trim (trim s) := by
    conv_lhs => rw [whole]
    exact trim_between before behind _
  rw [← Bool.not_eq_true]
  intro space
  obtain ⟨rest, eq⟩ := List.head?_eq_some_iff.mp mem
  have shorter : trim (trim s) = trim rest := by
    have spaces : ∀ v ∈ [u], isSpace v = true := by simpa using space
    have := trim_between spaces (show ∀ v ∈ ([] : Utf16), isSpace v = true from nofun) rest
    rwa [List.append_nil, List.singleton_append, ← eq] at this
  have short := length_trim_le rest
  rw [← shorter, ← again, eq, List.length_cons] at short
  omega

theorem trim_of_no_space {s : Utf16} (plain : ∀ u ∈ s, isSpace u = false) : trim s = s := by
  have kept : ∀ {t : Utf16}, (∀ u ∈ t, isSpace u = false) → t.dropWhile isSpace = t := by
    intro t plain
    cases t with
    | nil => rfl
    | cons u t => exact List.dropWhile_cons_of_neg (by simp [plain u List.mem_cons_self])
  rw [trim, trimStart, kept plain, trimEnd, kept fun u mem => plain u (List.mem_reverse.mp mem), List.reverse_reverse]

theorem trim_toWellFormed_iff (s : Utf16) : trim (toWellFormed s) = trim s ↔ isWellFormed s = true := by
  rw [isWellFormed, beq_iff_eq]
  refine ⟨fun trimmed => ?_, fun formed => by rw [formed]⟩
  obtain ⟨lead, tail, whole, before, after⟩ := trim_spec s
  have converted : toWellFormed s = lead ++ toWellFormed (trim s) ++ tail := by
    conv_lhs => rw [whole]
    rw [toWellFormed_tail fun u mem => not_isSurrogate_of_isSpace (after u mem),
      toWellFormed_lead fun u mem => not_isSurrogate_of_isSpace (before u mem)]
  rw [converted, trim_between before after] at trimmed
  rw [converted, eq_of_trim trimmed (length_toWellFormed _), ← whole]

theorem isWellFormed_of_blank {s : Utf16} (blank : trim s = []) : isWellFormed s = true := by
  obtain ⟨lead, tail, whole, before, after⟩ := trim_spec s
  rw [blank, List.append_nil] at whole
  rw [isWellFormed, beq_iff_eq]
  refine toWellFormed_plain fun u mem => not_isSurrogate_of_isSpace ?_
  rw [whole, List.mem_append] at mem
  exact mem.elim (before u) (after u)

theorem splitComma_join {parts : List Utf16} (some_ : parts ≠ []) (plain : ∀ part ∈ parts, unit ',' ∉ part) :
    splitComma (join ',' parts) = parts := List.splitOn_intercalate _ plain some_

theorem join_cons (separator : Char) (part : Utf16) (parts : List Utf16) :
    join separator (part :: parts) = part ++ parts.flatMap fun other => unit separator :: other := by
  induction parts generalizing part with
  | nil => simp [join]
  | cons next parts ih =>
      rw [join, List.intercalate_cons_cons, ← join, ih, List.flatMap_cons, List.append_assoc]
      rfl

theorem mem_join {separator : Char} {parts : List Utf16} {u : CodeUnit} (mem : u ∈ join separator parts) :
    u = unit separator ∨ ∃ part ∈ parts, u ∈ part := by
  induction parts with
  | nil => simp [join] at mem
  | cons part parts ih =>
      cases parts with
      | nil => exact .inr ⟨part, List.mem_cons_self, by simpa [join] using mem⟩
      | cons next parts =>
          rw [join, List.intercalate_cons_cons, List.append_assoc, List.mem_append, List.mem_append] at mem
          rcases mem with here | between | later
          · exact .inr ⟨part, List.mem_cons_self, here⟩
          · exact .inl (List.mem_singleton.mp between)
          · rcases ih later with same | ⟨other, inside, there⟩
            · exact .inl same
            · exact .inr ⟨other, List.mem_cons_of_mem _ inside, there⟩

theorem unit_toNat {c : Char} (small : c.toNat < 65536) : (unit c).toNat = c.toNat := by
  simp [unit, Nat.mod_eq_of_lt small]

theorem ofNat_toNat_of_lt {n : Nat} (small : n < 65536) : (UInt16.ofNat n).toNat = n := by
  simp [Nat.mod_eq_of_lt small]

theorem encodeChar_append_inj {c d : Char} {s t : Utf16} (same : encodeChar c ++ s = encodeChar d ++ t) : c = d ∧ s = t := by
  have scalar : ∀ e : Char, e.toNat < 0xD800 ∨ 0xDFFF < e.toNat ∧ e.toNat < 0x110000 := fun e => e.valid
  have hc := scalar c
  have hd := scalar d
  have high : ∀ {e : Char}, ¬ e.toNat < 0x10000 → 0xD800 + (e.toNat - 0x10000) / 0x400 < 65536 := by
    intro e _
    have := scalar e
    omega
  have low : ∀ {e : Char}, 0xDC00 + (e.toNat - 0x10000) % 0x400 < 65536 := by
    intro e
    omega
  simp only [encodeChar] at same
  split_ifs at same with plain_c plain_d plain_d
  · obtain ⟨head, tail⟩ := List.cons.inj same
    have value := congrArg UInt16.toNat head
    rw [unit_toNat plain_c, unit_toNat plain_d] at value
    exact ⟨Char.toNat_inj.mp value, tail⟩
  · have value := congrArg UInt16.toNat (List.cons.inj same).1
    rw [unit_toNat plain_c, ofNat_toNat_of_lt (high plain_d)] at value
    omega
  · have value := congrArg UInt16.toNat (List.cons.inj same).1
    rw [unit_toNat plain_d, ofNat_toNat_of_lt (high plain_c)] at value
    omega
  · obtain ⟨first, rest⟩ := List.cons.inj same
    obtain ⟨second, tail⟩ := List.cons.inj rest
    have first := congrArg UInt16.toNat first
    have second := congrArg UInt16.toNat second
    rw [ofNat_toNat_of_lt (high plain_c), ofNat_toNat_of_lt (high plain_d)] at first
    rw [ofNat_toNat_of_lt low, ofNat_toNat_of_lt low] at second
    exact ⟨Char.toNat_inj.mp (by omega), tail⟩

theorem encode_injective {s t : String} (same : encode s = encode t) : s = t := by
  have lists : ∀ {cs ds : List Char}, cs.flatMap encodeChar = ds.flatMap encodeChar → cs = ds := by
    intro cs
    induction cs with
    | nil =>
        intro ds empty
        cases ds with
        | nil => rfl
        | cons d ds => simp only [List.flatMap_nil, List.flatMap_cons, encodeChar] at empty; split_ifs at empty <;> simp at empty
    | cons c cs ih =>
        intro ds eq
        cases ds with
        | nil => simp only [List.flatMap_nil, List.flatMap_cons, encodeChar] at eq; split_ifs at eq <;> simp at eq
        | cons d ds =>
            obtain ⟨rfl, rest⟩ := encodeChar_append_inj eq
            rw [ih rest]
  exact String.toList_injective (lists same)

theorem isDigit_unit {c : Char} (digit : c.isDigit = true) : isDigit (unit c) = true := by
  have bounds : 48 ≤ c.toNat ∧ c.toNat ≤ 57 := by
    simpa [Char.isDigit, UInt32.le_iff_toNat_le] using digit
  have value := unit_toNat (c := c) (by omega)
  simp only [isDigit, UInt16.le_iff_toNat_le, value, Bool.and_eq_true, decide_eq_true_eq]
  exact bounds

theorem isDigit_of_mem_decimal {n : Nat} {u : CodeUnit} (mem : u ∈ decimal n) : isDigit u = true := by
  obtain ⟨c, digit, rfl⟩ := List.mem_map.mp mem
  exact isDigit_unit (Nat.isDigit_of_mem_toDigits (by decide) (by decide) digit)

theorem decimal_ne_nil (n : Nat) : decimal n ≠ [] := by simp [decimal]

theorem numeral_decimal (n : Nat) : numeral (decimal n) = n := by
  have each : ∀ (cs : List Char) (value : Nat), (∀ c ∈ cs, c.isDigit = true) →
      (cs.map unit).foldl (fun n u => 10 * n + (u.toNat - 48)) value =
        cs.foldl (fun n c => 10 * n + (c.toNat - '0'.toNat)) value := by
    intro cs
    induction cs with
    | nil => exact fun _ _ => rfl
    | cons c cs ih =>
        intro value digits
        have bounds : 48 ≤ c.toNat ∧ c.toNat ≤ 57 := by
          simpa [Char.isDigit, UInt32.le_iff_toNat_le] using digits c List.mem_cons_self
        rw [List.map_cons, List.foldl_cons, List.foldl_cons, unit_toNat (by omega),
          ih _ fun d mem => digits d (List.mem_cons_of_mem _ mem)]
        rfl
  rw [numeral, decimal, each _ 0 fun c mem => Nat.isDigit_of_mem_toDigits (by decide) (by decide) mem,
    ← Nat.ofDigitChars_eq_foldl, Nat.ofDigitChars_toDigits (by decide) (by decide)]

end Utf16

end Errex.Foundation
