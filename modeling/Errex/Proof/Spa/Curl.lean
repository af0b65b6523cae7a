import Errex.Foundation.Shell
import Errex.Foundation.Utf8
import Errex.Model.Spa.TestEvent

/-!
# The first line of the test command

Escaping works on code units and a shell reads bytes. In UTF-8 the two are the same: an apostrophe is one byte, and no
other character has that byte (`utf8_escape`).
-/

namespace Errex.Proof.Spa
open Foundation Model Spa Utf16 Shell

def firstLine (text : Utf16) : Utf16 :=
  text.takeWhile (· != unit '\n') ++ (text.dropWhile (· != unit '\n')).take 1

theorem firstLine_append {line : Utf16} (clear : unit '\n' ∉ line) (rest : Utf16) :
    firstLine (line ++ unit '\n' :: rest) = line ++ [unit '\n'] := by
  have inside : ∀ u ∈ line, (u != unit '\n') = true := by
    intro u mem
    rw [bne_iff_ne]
    rintro rfl
    exact clear mem
  rw [firstLine, List.takeWhile_append_of_pos inside, List.dropWhile_append_of_pos inside]
  simp

theorem escape_other {c : Char} (other : c.toNat ≠ 0x27) :
    (String.utf8EncodeChar c).flatMap escapeByte = String.utf8EncodeChar c := by
  apply flatMap_escapeByte
  intro mem
  exact other (ascii_of_mem_utf8EncodeChar mem (by decide))

theorem utf8_escape_cons {u : CodeUnit} {s : Utf16}
    (alone : ∀ v ∈ s.head?, (isHighSurrogate u && isLowSurrogate v) = false) :
    utf8 (shellEscapeSingleQuoted [u] ++ s) = (String.utf8EncodeChar (scalar u)).flatMap escapeByte ++ utf8 s := by
  by_cases mark : u = 0x27
  · subst mark
    rw [shellEscapeSingleQuoted, List.flatMap_singleton, if_pos rfl, utf8_append (by decide)]
    rfl
  · have other : (scalar u).toNat ≠ 0x27 := by
      intro same
      have found := unit_mem_of_mem_scalars (s := [u]) (List.mem_singleton_self (scalar u)) (by omega)
      rw [unit, same] at found
      exact mark (List.mem_singleton.mp found).symm
    rw [shellEscapeSingleQuoted, List.flatMap_singleton, if_neg mark, List.singleton_append, utf8_cons alone, escape_other other]

theorem utf8_escape (s : Utf16) {next : CodeUnit} (apart : isLowSurrogate next = false) (tail : Utf16) :
    utf8 (shellEscapeSingleQuoted s ++ next :: tail) = (utf8 s).flatMap escapeByte ++ utf8 (next :: tail) := by
  induction s using scalars.induct with
  | case1 => rfl
  | case2 u =>
      have alone : ∀ v ∈ (next :: tail).head?, (isHighSurrogate u && isLowSurrogate v) = false := by
        rintro v ⟨⟩
        rw [apart, Bool.and_false]
      rw [utf8_escape_cons alone, utf8_cons (s := []) fun _ mem => absurd mem (Option.not_mem_none _)]
      simp [utf8, scalars]
  | case3 u v rest paired ih =>
      have high : isHighSurrogate u = true := (Bool.and_eq_true_iff.mp paired).1
      have low : isLowSurrogate v = true := (Bool.and_eq_true_iff.mp paired).2
      have plain : ∀ {w : CodeUnit}, isSurrogate w = true → w ≠ 0x27 := by
        rintro w surrogate rfl
        exact absurd surrogate (by decide)
      have kept : shellEscapeSingleQuoted (u :: v :: rest) = u :: v :: shellEscapeSingleQuoted rest := by
        rw [shellEscapeSingleQuoted, List.flatMap_cons, List.flatMap_cons, if_neg (plain (by rw [isSurrogate, high, Bool.true_or])),
          if_neg (plain (by rw [isSurrogate, low, Bool.or_true]))]
        rfl
      have other : (joined u v).toNat ≠ 0x27 := by
        have large := le_joined paired
        omega
      rw [kept, List.cons_append, List.cons_append, utf8_pair paired, ih, utf8_pair paired, List.flatMap_append, escape_other other,
        List.append_assoc]
  | case4 u v rest unpaired ih =>
      have split : shellEscapeSingleQuoted (u :: v :: rest) =
          shellEscapeSingleQuoted [u] ++ shellEscapeSingleQuoted (v :: rest) := @List.flatMap_append _ _ [u] (v :: rest) _
      have alone : ∀ w ∈ (v :: rest).head?, (isHighSurrogate u && isLowSurrogate w) = false := by
        rintro w ⟨⟩
        simpa using unpaired
      have alone_ : ∀ w ∈ (shellEscapeSingleQuoted (v :: rest) ++ next :: tail).head?,
          (isHighSurrogate u && isLowSurrogate w) = false := by
        intro w mem
        rw [shellEscapeSingleQuoted, List.flatMap_cons] at mem
        split_ifs at mem
        · cases mem
          exact Bool.and_false _
        · cases mem
          exact alone _ rfl
      rw [split, List.append_assoc, utf8_escape_cons alone_, ih, utf8_cons alone, List.flatMap_append, List.append_assoc]

theorem newline_not_mem_escape {url : Utf16} (oneLine : unit '\n' ∉ url) : unit '\n' ∉ shellEscapeSingleQuoted url := by
  intro mem
  obtain ⟨u, inside, mem⟩ := List.mem_flatMap.mp mem
  split_ifs at mem with mark
  · revert mem
    decide
  · exact oneLine (List.mem_singleton.mp mem ▸ inside)

theorem firstLine_command (uuid now : Utf16) {url : Utf16} (oneLine : unit '\n' ∉ url) (opts : EnvelopeOpts) :
    firstLine (buildTestEventCurl uuid now url opts) =
      ofString "curl -X POST '" ++ (shellEscapeSingleQuoted url ++ ofString "' \\\n") := by
  have clear : unit '\n' ∉ ofString "curl -X POST '" ++ shellEscapeSingleQuoted url ++ ofString "' \\" := by
    rw [List.mem_append, List.mem_append, not_or, not_or]
    exact ⟨⟨by decide, newline_not_mem_escape oneLine⟩, by decide⟩
  rw [buildTestEventCurl, join_cons, List.flatMap_cons, List.cons_append, firstLine_append clear, List.append_assoc,
    List.append_assoc]
  rfl

theorem utf8_firstLine (uuid now : Utf16) {url : Utf16} (oneLine : unit '\n' ∉ url) (opts : EnvelopeOpts) :
    utf8 (firstLine (buildTestEventCurl uuid now url opts)) =
      Text.utf8Bytes "curl -X POST " ++ (quote (utf8 url) ++ Text.utf8Bytes " \\\n") := by
  have lead : ((ofString "curl -X POST '").map scalar).flatMap String.utf8EncodeChar =
      Text.utf8Bytes "curl -X POST " ++ [apostrophe] := rfl
  have tail : utf8 (shellEscapeSingleQuoted url ++ ofString "' \\\n") =
      (utf8 url).flatMap escapeByte ++ ([apostrophe] ++ Text.utf8Bytes " \\\n") := utf8_escape url (by decide) _
  rw [firstLine_command uuid now oneLine, utf8_append (by decide), lead, tail, quote]
  simp only [List.append_assoc, List.cons_append, List.nil_append]

/-- The first line has four words, of which the last is the URL, byte for byte and all of it quoted. -/
theorem buildTestEventCurl_words (uuid now : Utf16) (opts : EnvelopeOpts) {url : Utf16} (noNul : 0 ∉ url)
    (oneLine : unit '\n' ∉ url) :
    Shell.read (utf8 (firstLine (buildTestEventCurl uuid now url opts))) =
      some [unquoted (Text.utf8Bytes "curl"), unquoted (Text.utf8Bytes "-X"), unquoted (Text.utf8Bytes "POST"),
        quoted (utf8 url)] := by
  have clear : 0 ∉ utf8 url := fun mem => noNul (unit_mem_of_mem_utf8 mem (by decide))
  have before : (Text.utf8Bytes "curl -X POST ").foldlM State.step State.start =
      some ⟨.plain, none, [unquoted (Text.utf8Bytes "curl"), unquoted (Text.utf8Bytes "-X"), unquoted (Text.utf8Bytes "POST")]⟩ := by
    decide
  have after : ∀ word words, (Text.utf8Bytes " \\\n").foldlM State.step ⟨.plain, some word, words⟩ =
      some ⟨.plain, none, words ++ [word]⟩ := fun _ _ => rfl
  rw [Shell.read, utf8_firstLine uuid now oneLine, List.foldlM_append, before, Option.bind_eq_bind, Option.bind_some,
    List.foldlM_append, run_quote clear, Option.bind_eq_bind, Option.bind_some, after]
  rfl

theorem buildTestEventCurl_words_apostrophe :
    Shell.read (utf8 (firstLine (buildTestEventCurl [] [] (ofString "http://localhost/api/O'Brien/envelope/") ⟨none, none⟩))) =
      some [unquoted (Text.utf8Bytes "curl"), unquoted (Text.utf8Bytes "-X"), unquoted (Text.utf8Bytes "POST"),
        quoted (utf8 (ofString "http://localhost/api/O'Brien/envelope/"))] :=
  buildTestEventCurl_words [] [] ⟨none, none⟩ (by decide) (by decide)

end Errex.Proof.Spa
