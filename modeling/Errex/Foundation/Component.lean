import Errex.Foundation.Uri
import Errex.Foundation.Utf8

/-!
# Segments of paths

`encodeURIComponent` of ECMAScript and the dot segments that the URL parser of a browser removes. An encoded text is
never a separator, and it is a dot segment only where the text is one already.
-/

namespace Errex.Foundation.Uri
open Utf16

def isUnreserved (c : Char) : Bool := c.isAlphanum || "-_.!~*'()".toList.contains c

def hexDigit (n : Nat) : Char := if n < 10 then Char.ofNat (48 + n) else Char.ofNat (55 + n)

def percentByte (byte : UInt8) : List Char := ['%', hexDigit (byte.toNat / 16), hexDigit (byte.toNat % 16)]

def componentOf (c : Char) : List Char :=
  if isUnreserved c then [c] else (String.utf8EncodeChar c).flatMap percentByte

def encodeComponent (s : List Char) : List Char := s.flatMap componentOf

/-- A text with a lone surrogate is a `URIError`. -/
def encodeURIComponent (s : Utf16) : Option (List Char) :=
  if s.isWellFormed then some (encodeComponent (scalars s)) else none

def joinPath (segments : List (List Char)) : List Char := '/' :: ['/'].intercalate segments

def segments (path : List Char) : List (List Char) := (path.drop 1).splitOn '/'

def dot : List (List Char) := [".", "%2e", "%2E"].map String.toList

def isSingleDot (segment : List Char) : Bool := dot.contains segment

def isDoubleDot (segment : List Char) : Bool := (dot.flatMap fun first => dot.map (first ++ ·)).contains segment

def removeDots : List (List Char) → List (List Char) → List (List Char)
  | kept, [] => kept
  | kept, [last] =>
      if isDoubleDot last then kept.dropLast ++ [[]]
      else if isSingleDot last then kept ++ [[]]
      else kept ++ [last]
  | kept, segment :: rest =>
      if isDoubleDot segment then removeDots kept.dropLast rest
      else if isSingleDot segment then removeDots kept rest
      else removeDots (kept ++ [segment]) rest

def resolvePath (path : List Char) : List Char := joinPath (removeDots [] (segments path))

theorem segments_joinPath {list : List (List Char)} (plain : ∀ segment ∈ list, '/' ∉ segment) (some_ : list ≠ []) :
    segments (joinPath list) = list :=
  List.splitOn_intercalate '/' plain some_

theorem removeDots_plain {list : List (List Char)}
    (plain : ∀ segment ∈ list, isSingleDot segment = false ∧ isDoubleDot segment = false) (kept : List (List Char)) :
    removeDots kept list = kept ++ list := by
  fun_induction removeDots kept list with
  | case1 kept => simp
  | case2 kept last double => simp [double] at plain
  | case3 kept last double single => simp [single] at plain
  | case4 kept last => rfl
  | case5 kept segment rest tail double ih => simp [double] at plain
  | case6 kept segment rest tail double single ih => simp [single] at plain
  | case7 kept segment rest tail double single ih =>
      rw [ih fun other mem => plain other (List.mem_cons_of_mem _ mem), List.append_assoc, List.singleton_append]

theorem hexValue_hexDigit {n : Nat} (small : n < 16) : hexValue (hexDigit n) = some n := by
  interval_cases n <;> decide

theorem escape_percentByte (byte : UInt8) (rest : List Char) : escape (percentByte byte ++ rest) = some byte := by
  have small := byte.toNat_lt
  have value : 16 * (byte.toNat / 16) + byte.toNat % 16 = byte.toNat := by omega
  simp only [percentByte, List.cons_append, List.nil_append, escape,
    hexValue_hexDigit (show byte.toNat / 16 < 16 by omega), hexValue_hexDigit (show byte.toNat % 16 < 16 by omega),
    Option.bind_eq_bind, Option.bind_some, value]
  exact congrArg some UInt8.ofNat_toNat

theorem decodeFrom_percentByte (byte : UInt8) (rest : List Char) :
    decodeFrom 0 (percentByte byte ++ rest) = byte :: decodeFrom 0 rest := by
  have found := escape_percentByte byte rest
  simp only [percentByte, List.cons_append, List.nil_append] at found ⊢
  rw [decodeFrom, found]
  rfl

theorem decodeFrom_percentBytes (bytes : List UInt8) (rest : List Char) :
    decodeFrom 0 (bytes.flatMap percentByte ++ rest) = bytes ++ decodeFrom 0 rest := by
  induction bytes with
  | nil => rfl
  | cons byte bytes ih =>
      rw [List.flatMap_cons, List.append_assoc, decodeFrom_percentByte, ih, List.cons_append]

theorem decodeFrom_componentOf (c : Char) (rest : List Char) :
    decodeFrom 0 (componentOf c ++ rest) = String.utf8EncodeChar c ++ decodeFrom 0 rest := by
  rw [componentOf]
  split
  · next unreserved =>
    have other : c ≠ '%' := by
      rintro rfl
      revert unreserved
      decide
    have none_ : escape (c :: rest) = none := by
      unfold escape
      split
      · next first => exact absurd (List.cons.inj first).1 other
      · rfl
    rw [List.singleton_append, decodeFrom, none_]
  · exact decodeFrom_percentBytes _ _

theorem percentDecode_encodeComponent (s : List Char) : percentDecode (encodeComponent s) = utf8 s := by
  induction s with
  | nil => rfl
  | cons c s ih =>
      rw [percentDecode] at ih ⊢
      rw [encodeComponent, List.flatMap_cons, decodeFrom_componentOf, utf8_cons]
      exact congrArg _ ih

theorem utf8_injective {s t : List Char} (same : utf8 s = utf8 t) : s = t := by
  have bytes : (String.ofList s).toByteArray = (String.ofList t).toByteArray := by
    rw [← toByteArray_utf8, ← toByteArray_utf8, String.toList_ofList, String.toList_ofList, same]
  exact String.ofList_injective (String.toByteArray_inj.mp bytes)

theorem decodeText_encodeComponent (s : List Char) : decodeText (encodeComponent s) = some (.ofList s) := by
  rw [decodeText_eq_some_iff, percentDecode_encodeComponent, String.toList_ofList]

theorem hexDigit_ne_slash {n : Nat} (small : n < 16) : hexDigit n ≠ '/' := by
  interval_cases n <;> decide

theorem slash_not_mem_percentByte (byte : UInt8) : '/' ∉ percentByte byte := by
  have small := byte.toNat_lt
  intro mem
  rcases List.mem_cons.mp mem with first | mem
  · exact absurd first (by decide)
  · rcases List.mem_cons.mp mem with high | mem
    · exact hexDigit_ne_slash (show byte.toNat / 16 < 16 by omega) high.symm
    · exact hexDigit_ne_slash (show byte.toNat % 16 < 16 by omega) (List.mem_singleton.mp mem).symm

theorem slash_not_mem_encodeComponent (s : List Char) : '/' ∉ encodeComponent s := by
  intro mem
  obtain ⟨c, -, mem⟩ := List.mem_flatMap.mp mem
  rw [componentOf] at mem
  split at mem
  · next unreserved =>
    obtain rfl := List.mem_singleton.mp mem
    revert unreserved
    decide
  · obtain ⟨byte, -, mem⟩ := List.mem_flatMap.mp mem
    exact slash_not_mem_percentByte byte mem

theorem eq_of_percentDecode {s t : List Char} (same : percentDecode (encodeComponent s) = utf8 t) : s = t :=
  utf8_injective ((percentDecode_encodeComponent s).symm.trans same)

theorem isSingleDot_encodeComponent {s : List Char} (single : isSingleDot (encodeComponent s) = true) : s = ['.'] := by
  have reads : ∀ segment ∈ dot, percentDecode segment = utf8 ['.'] := by decide
  exact eq_of_percentDecode (reads _ (by simpa [isSingleDot] using single))

theorem isDoubleDot_encodeComponent {s : List Char} (double : isDoubleDot (encodeComponent s) = true) :
    s = ['.', '.'] := by
  have reads : ∀ segment ∈ dot.flatMap fun first => dot.map (first ++ ·), percentDecode segment = utf8 ['.', '.'] := by
    decide
  exact eq_of_percentDecode (reads _ (List.contains_iff_mem.mp double))

theorem resolvePath_encodeComponent {before after : List (List Char)} {s : List Char} (single : s ≠ ['.'])
    (double : s ≠ ['.', '.'])
    (plain : ∀ segment ∈ before ++ after, '/' ∉ segment ∧ isSingleDot segment = false ∧ isDoubleDot segment = false) :
    resolvePath (joinPath (before ++ encodeComponent s :: after)) = joinPath (before ++ encodeComponent s :: after) := by
  have each : ∀ segment ∈ before ++ encodeComponent s :: after,
      '/' ∉ segment ∧ isSingleDot segment = false ∧ isDoubleDot segment = false := by
    intro segment mem
    rcases List.mem_append.mp mem with first | mem
    · exact plain segment (List.mem_append_left _ first)
    · rcases List.mem_cons.mp mem with rfl | last
      · refine ⟨slash_not_mem_encodeComponent s, ?_, ?_⟩
        · exact Bool.eq_false_iff.mpr fun dotted => single (isSingleDot_encodeComponent dotted)
        · exact Bool.eq_false_iff.mpr fun dotted => double (isDoubleDot_encodeComponent dotted)
      · exact plain segment (List.mem_append_right _ last)
  rw [resolvePath, segments_joinPath (fun segment mem => (each segment mem).1) (by simp),
    removeDots_plain fun segment mem => (each segment mem).2]
  rfl

theorem isSurrogate_unit {c : Char} (small : c.toNat < 0x10000) : isSurrogate (unit c) = false := by
  have valid : c.toNat < 0xD800 ∨ 0xDFFF < c.toNat ∧ c.toNat < 0x110000 := c.valid
  simp only [isSurrogate, isHighSurrogate, isLowSurrogate, UInt16.le_iff_toNat_le, unit_toNat small,
    Bool.or_eq_false_iff, Bool.and_eq_false_iff, decide_eq_false_iff_not]
  simp
  omega

theorem encodeChar_pair {c : Char} (large : ¬ c.toNat < 0x10000) :
    ∃ u v, Utf16.encodeChar c = [u, v] ∧ (isHighSurrogate u && isLowSurrogate v) = true ∧ joined u v = c := by
  have valid : c.toNat < 0xD800 ∨ 0xDFFF < c.toNat ∧ c.toNat < 0x110000 := c.valid
  have high : (UInt16.ofNat (0xD800 + (c.toNat - 0x10000) / 0x400)).toNat = 0xD800 + (c.toNat - 0x10000) / 0x400 :=
    ofNat_toNat_of_lt (by omega)
  have low : (UInt16.ofNat (0xDC00 + (c.toNat - 0x10000) % 0x400)).toNat = 0xDC00 + (c.toNat - 0x10000) % 0x400 :=
    ofNat_toNat_of_lt (by omega)
  refine ⟨_, _, by rw [Utf16.encodeChar, if_neg large], ?_, ?_⟩
  · simp only [isHighSurrogate, isLowSurrogate, UInt16.le_iff_toNat_le, high, low, Bool.and_eq_true, decide_eq_true_eq]
    simp
    omega
  · rw [joined, high, low]
    have value : 0x10000 + (0xD800 + (c.toNat - 0x10000) / 0x400 - 0xD800) * 0x400 +
        (0xDC00 + (c.toNat - 0x10000) % 0x400 - 0xDC00) = c.toNat := by omega
    rw [value, Char.ofNat_toNat]

theorem scalars_flatMap (cs : List Char) : scalars (cs.flatMap Utf16.encodeChar) = cs := by
  induction cs with
  | nil => rfl
  | cons c cs ih =>
      rw [List.flatMap_cons]
      by_cases small : c.toNat < 0x10000
      · have plain := isSurrogate_unit small
        rw [Utf16.encodeChar, if_pos small, List.singleton_append,
          scalars_cons fun v _ => by rw [(Bool.or_eq_false_iff.mp plain).1, Bool.false_and], ih]
        refine congrArg (· :: cs) (Char.toNat_inj.mp ?_)
        rw [scalar_toNat plain, unit_toNat small]
      · obtain ⟨u, v, units, paired, whole⟩ := encodeChar_pair small
        rw [units, List.cons_append, List.singleton_append, scalars_pair paired, whole, ih]

theorem toWellFormed_flatMap (cs : List Char) :
    toWellFormed (cs.flatMap Utf16.encodeChar) = cs.flatMap Utf16.encodeChar := by
  induction cs with
  | nil => rfl
  | cons c cs ih =>
      rw [List.flatMap_cons]
      by_cases small : c.toNat < 0x10000
      · rw [Utf16.encodeChar, if_pos small, List.singleton_append, toWellFormed_cons (isSurrogate_unit small), ih]
      · obtain ⟨u, v, units, paired, -⟩ := encodeChar_pair small
        rw [units, List.cons_append, List.singleton_append, toWellFormed, paired, if_pos rfl, ih]

theorem flatMap_scalars {s : Utf16} (formed : toWellFormed s = s) : (scalars s).flatMap Utf16.encodeChar = s := by
  have alone : ∀ {u : CodeUnit}, (if isHighSurrogate u || isLowSurrogate u then 0xFFFD else u) = u →
      Utf16.encodeChar (scalar u) = [u] := by
    intro u same
    have plain : isSurrogate u = false := by
      rw [← Bool.not_eq_true]
      intro surrogate
      rw [isSurrogate] at surrogate
      rw [surrogate, if_pos rfl] at same
      subst same
      revert surrogate
      decide
    have value := scalar_toNat plain
    rw [Utf16.encodeChar, if_pos (value ▸ u.toNat_lt), unit, value, UInt16.ofNat_toNat]
  fun_induction toWellFormed s with
  | case1 => rfl
  | case2 u => simpa [scalars] using alone (List.cons.inj formed).1
  | case3 u v rest paired ih =>
      have bounds : 0xD800 ≤ u.toNat ∧ u.toNat ≤ 0xDBFF ∧ 0xDC00 ≤ v.toNat ∧ v.toNat ≤ 0xDFFF := by
        simp only [isHighSurrogate, isLowSurrogate, UInt16.le_iff_toNat_le, Bool.and_eq_true, decide_eq_true_eq] at paired
        simp at paired
        omega
      have valid : (0x10000 + (u.toNat - 0xD800) * 0x400 + (v.toNat - 0xDC00)).isValidChar := by
        rw [Nat.isValidChar]
        omega
      have value : (joined u v).toNat = 0x10000 + (u.toNat - 0xD800) * 0x400 + (v.toNat - 0xDC00) := by
        rw [joined, toNat_ofNat valid]
      have high : 0xD800 + ((joined u v).toNat - 0x10000) / 0x400 = u.toNat := by omega
      have low : 0xDC00 + ((joined u v).toNat - 0x10000) % 0x400 = v.toNat := by omega
      rw [scalars_pair paired, List.flatMap_cons, Utf16.encodeChar, if_neg (by omega), high, low, UInt16.ofNat_toNat,
        UInt16.ofNat_toNat, ih (List.cons.inj (List.cons.inj formed).2).2]
      rfl
  | case4 u v rest unpaired ih =>
      obtain ⟨first, later⟩ := List.cons.inj formed
      rw [scalars, if_neg unpaired, List.flatMap_cons, alone first, ih later]
      rfl

theorem encodeURIComponent_eq_some_iff {s : Utf16} {component : List Char} :
    encodeURIComponent s = some component ↔
      ∃ text : String, s = Utf16.encode text ∧ component = encodeComponent text.toList := by
  rw [encodeURIComponent, isWellFormed]
  constructor
  · intro encoded
    split_ifs at encoded with formed
    refine ⟨.ofList (scalars s), ?_, ?_⟩
    · rw [Utf16.encode, String.toList_ofList, flatMap_scalars (beq_iff_eq.mp formed)]
    · rw [String.toList_ofList]
      exact (Option.some.inj encoded).symm
  · rintro ⟨text, rfl, rfl⟩
    rw [Utf16.encode, toWellFormed_flatMap, beq_self_eq_true, if_pos rfl, scalars_flatMap]

end Errex.Foundation.Uri
