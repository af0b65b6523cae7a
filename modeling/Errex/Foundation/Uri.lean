import Mathlib.Tactic

/-!
# Addresses

The parts of a URI with an authority (RFC 3986, appendix B) and percent-decoding. UTF-8 has no ASCII
byte inside another character, so the escapes of a text can be found character by character.
-/

namespace Errex.Foundation.Uri

structure Parts where
  scheme : List Char
  authority : List Char
  path : List Char
  query : Option (List Char)
  deriving DecidableEq

def endsScheme (c : Char) : Bool := c == ':' || c == '/' || c == '?' || c == '#'

def endsAuthority (c : Char) : Bool := c == '/' || c == '?' || c == '#'

def endsPath (c : Char) : Bool := c == '?' || c == '#'

def split (s : List Char) : Option Parts :=
  match s.span (!endsScheme ·) with
  | (scheme, ':' :: '/' :: '/' :: rest) =>
      let (authority, rest) := rest.span (!endsAuthority ·)
      let (path, rest) := rest.span (!endsPath ·)
      let query := match rest with
        | '?' :: rest => some (rest.takeWhile (· != '#'))
        | _ => none
      if scheme.isEmpty then none else some ⟨scheme, authority, path, query⟩
  | _ => none

def hexValue (c : Char) : Option Nat :=
  if '0' ≤ c ∧ c ≤ '9' then some (c.toNat - 48)
  else if 'a' ≤ c ∧ c ≤ 'f' then some (c.toNat - 87)
  else if 'A' ≤ c ∧ c ≤ 'F' then some (c.toNat - 55)
  else none

def escape : List Char → Option UInt8
  | '%' :: a :: b :: _ => do
      let high ← hexValue a
      let low ← hexValue b
      pure (.ofNat (16 * high + low))
  | _ => none

/-- The bytes of a text with its escapes replaced, after some characters are skipped; what is not an
escape stays. -/
def decodeFrom : Nat → List Char → List UInt8
  | _, [] => []
  | skip + 1, _ :: s => decodeFrom skip s
  | 0, c :: s =>
      match escape (c :: s) with
      | some byte => byte :: decodeFrom 2 s
      | none => String.utf8EncodeChar c ++ decodeFrom 0 s

def percentDecode (s : List Char) : List UInt8 := decodeFrom 0 s

def escaped (s : List Char) : Bool := s.tails.any fun t => (escape t).isSome

def utf8 (s : List Char) : List UInt8 := s.flatMap String.utf8EncodeChar

def decodeText (s : List Char) : Option String := String.fromUTF8? (percentDecode s).toByteArray

variable {keep : Char → Bool}

theorem span_stop {s : List Char} {c : Char} (kept : ∀ x ∈ s, keep x) (stops : keep c = false) (rest : List Char) :
    (s ++ c :: rest).span keep = (s, c :: rest) := by
  rw [List.span_eq_takeWhile_dropWhile, List.takeWhile_append_of_pos kept, List.dropWhile_append_of_pos kept]
  simp [stops]

theorem split_eq {scheme authority rest : List Char} {c : Char} (some_scheme : scheme ≠ [])
    (in_scheme : ∀ x ∈ scheme, endsScheme x = false) (in_authority : ∀ x ∈ authority, endsAuthority x = false)
    (stops : endsAuthority c) :
    split (scheme ++ ':' :: '/' :: '/' :: (authority ++ c :: rest)) =
      let parts := (c :: rest).span (!endsPath ·)
      some ⟨scheme, authority, parts.1, match parts.2 with
        | '?' :: rest => some (rest.takeWhile (· != '#'))
        | _ => none⟩ := by
  have inside : ∀ x ∈ authority, (!endsAuthority x) = true := by simpa using in_authority
  have outside : (!endsAuthority c) = false := by simpa using stops
  rw [split, span_stop (by simpa using in_scheme) rfl]
  simp only [span_stop inside outside, List.isEmpty_iff, some_scheme, if_false]

theorem utf8_cons (c : Char) (s : List Char) : utf8 (c :: s) = String.utf8EncodeChar c ++ utf8 s := rfl

theorem utf8_append (s t : List Char) : utf8 (s ++ t) = utf8 s ++ utf8 t := List.flatMap_append

theorem length_utf8EncodeChar_pos (c : Char) : 0 < (String.utf8EncodeChar c).length :=
  List.length_pos_of_ne_nil String.utf8EncodeChar_ne_nil

theorem eq_nil_of_length_utf8 {s : List Char} (empty : (utf8 s).length = 0) : s = [] := by
  cases s with
  | nil => rfl
  | cons c s =>
      have first := length_utf8EncodeChar_pos c
      rw [utf8_cons, List.length_append] at empty
      omega

theorem escaped_cons (c : Char) (s : List Char) :
    escaped (c :: s) = ((escape (c :: s)).isSome || escaped s) := by
  simp [escaped]

theorem escape_eq_some {s : List Char} {byte : UInt8} (found : escape s = some byte) :
    ∃ a b rest, s = '%' :: a :: b :: rest := by
  unfold escape at found
  split at found
  · exact ⟨_, _, _, rfl⟩
  · cases found

theorem decodeFrom_length_le (skip : Nat) (s : List Char) : (decodeFrom skip s).length ≤ (utf8 s).length := by
  induction s generalizing skip with
  | nil => simp [decodeFrom]
  | cons c s ih =>
      have first := length_utf8EncodeChar_pos c
      rw [utf8_cons, List.length_append]
      cases skip with
      | succ skip =>
          have := ih skip
          rw [decodeFrom]
          omega
      | zero =>
          rw [decodeFrom]
          cases escape (c :: s) with
          | some byte =>
              have := ih 2
              simp only [List.length_cons]
              omega
          | none => simpa using ih 0

theorem percentDecode_length_lt {s : List Char} (escapes : escaped s) :
    (percentDecode s).length < (utf8 s).length := by
  induction s with
  | nil => simp [escaped, escape] at escapes
  | cons c s ih =>
      rw [percentDecode, decodeFrom]
      cases found : escape (c :: s) with
      | some byte =>
          obtain ⟨a, b, rest, text⟩ := escape_eq_some found
          obtain ⟨rfl, rfl⟩ := List.cons.inj text
          have shorter := decodeFrom_length_le 0 rest
          have two := length_utf8EncodeChar_pos a
          have three := length_utf8EncodeChar_pos b
          have one := length_utf8EncodeChar_pos '%'
          simp only [decodeFrom, List.length_cons, utf8_cons, List.length_append]
          omega
      | none =>
          rw [escaped_cons, found, Option.isSome_none, Bool.false_or] at escapes
          have shorter := ih escapes
          rw [percentDecode] at shorter
          simp only [utf8_cons, List.length_append]
          omega

theorem percentDecode_of_not_escaped {s : List Char} (plain : escaped s = false) : percentDecode s = utf8 s := by
  induction s with
  | nil => rfl
  | cons c s ih =>
      rw [escaped_cons, Bool.or_eq_false_iff] at plain
      rw [percentDecode, decodeFrom, Option.isSome_eq_false_iff.mp plain.1 |> Option.isNone_iff_eq_none.mp]
      exact congrArg _ (ih plain.2)

theorem percentDecode_eq_utf8_iff (s : List Char) : percentDecode s = utf8 s ↔ escaped s = false := by
  constructor
  · intro same
    by_contra escapes
    have shorter := percentDecode_length_lt (by simpa using escapes)
    rw [same] at shorter
    exact lt_irrefl _ shorter
  · exact percentDecode_of_not_escaped

theorem toByteArray_inj {a b : List UInt8} : a.toByteArray = b.toByteArray ↔ a = b := by
  constructor
  · intro same
    simpa using congrArg (·.data.toList) same
  · rintro rfl
    rfl

theorem toByteArray_utf8 (text : String) : (utf8 text.toList).toByteArray = text.toByteArray :=
  String.utf8Encode_toList

theorem decodeText_eq_some_iff {s : List Char} {text : String} :
    decodeText s = some text ↔ percentDecode s = utf8 text.toList := by
  rw [← toByteArray_inj, toByteArray_utf8, decodeText, String.fromUTF8?]
  split_ifs with valid
  · rw [Option.some.injEq, ← String.toByteArray_inj]
    rfl
  · refine iff_of_false nofun fun same => valid ?_
    rw [same]
    exact text.isValidUTF8

end Errex.Foundation.Uri
