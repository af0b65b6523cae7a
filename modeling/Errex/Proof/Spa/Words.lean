import Errex.Proof.Spa.Windows

/-!
# Words that the tokenizer does not list

A text of letters, `_` and `-` passes every pattern that asks for a space, a digit or a mark, which leaves time words,
operators, signs and the look-ups of bare words (`lex_free`). `words_iff` says which of the words that are in none of the
lists still come out as words.
-/

namespace Errex.Proof.Spa
open Foundation Model Spa Utf16 Regex

def isFreeUnit (u : CodeUnit) : Bool := isUpper u || isLower u || u == unit '_' || u == unit '-'

def freeUnits : List CodeUnit :=
  ((List.range 26).map fun n => UInt16.ofNat (65 + n)) ++ ((List.range 26).map fun n => UInt16.ofNat (97 + n)) ++
    [unit '_', unit '-']

theorem mem_freeUnits {u : CodeUnit} (free : isFreeUnit u = true) : u ∈ freeUnits := by
  have letter : ∀ first : Nat, first ≤ u.toNat → u.toNat < first + 26 →
      u ∈ (List.range 26).map fun n => UInt16.ofNat (first + n) := by
    intro first least most
    refine List.mem_map.mpr ⟨u.toNat - first, List.mem_range.mpr (by omega), ?_⟩
    rw [show first + (u.toNat - first) = u.toNat by omega]
    exact UInt16.ofNat_toNat
  simp only [isFreeUnit, isUpper, isLower, UInt16.le_iff_toNat_le, Bool.or_eq_true, Bool.and_eq_true, decide_eq_true_eq,
    beq_iff_eq] at free
  rw [freeUnits, List.mem_append, List.mem_append]
  rcases free with ((upper | small) | rfl) | rfl
  · exact .inl (.inl (letter 65 upper.1 (by have := upper.2; simp at this; omega)))
  · exact .inl (.inr (letter 97 small.1 (by have := small.2; simp at this; omega)))
  · exact .inr List.mem_cons_self
  · exact .inr (List.mem_cons_of_mem _ List.mem_cons_self)

theorem of_free {P : CodeUnit → Bool} (each : freeUnits.all P = true) {u : CodeUnit} (free : isFreeUnit u = true) :
    P u = true := List.all_eq_true.mp each u (mem_freeUnits free)

theorem free_plain {u : CodeUnit} (free : isFreeUnit u = true) :
    isSpace u = false ∧ isQuote u = false ∧ isDigit u = false ∧ (u == unit '*') = false ∧ isNameUnit u = true ∧
      isWord u = (u != unit '-') := by
  have plain := of_free (P := fun u => !isSpace u && !isQuote u && !isDigit u && !(u == unit '*') && isNameUnit u &&
    (isWord u == (u != unit '-'))) (by decide) free
  simpa only [Bool.and_eq_true, Bool.not_eq_true', beq_iff_eq, and_assoc] using plain

def lead (w : Utf16) : Utf16 := w.takeWhile (· != unit '-')

section
variable {w : Utf16} (free : ∀ u ∈ w, isFreeUnit u = true)
include free

theorem exec_free {r : Regex} (beyond : r.asksBeyond freeUnits = true) : exec r w = none :=
  exec_of_fails (fails_of_asksBeyond r beyond _ fun u mem => mem_freeUnits (free u mem))

theorem isWord_of_mem {x : Utf16} (sub : ∀ u ∈ x, u ∈ w) (noSign : ∀ u ∈ x, (u != unit '-') = true) :
    ∀ u ∈ x, isWord u = true := by
  intro u mem
  obtain ⟨-, -, -, -, -, same⟩ := free_plain (free u (sub u mem))
  rw [same]
  exact noSign u mem

theorem spelled_edge {fold : CodeUnit → CodeUnit} {name : List Char} (some_ : name ≠ [])
    (noSign : fold (unit '-') ∉ (name.map unit).map fold) :
    (∃ d ∈ (seq (name.map fun ch => one fun u => fold u == fold (unit ch))).outcomes (Cursor.start w),
      d.atBoundary = true) ↔ (lead w).map fold = (name.map unit).map fold := by
  constructor
  · rintro ⟨d, mem, edge⟩
    obtain ⟨x, split, same, last, -⟩ := mem_spelled.mp mem
    change w = x ++ d.rest at split
    have noSign_ : ∀ u ∈ x, (u != unit '-') = true := by
      intro u inside
      rw [bne_iff_ne]
      rintro rfl
      exact noSign (same ▸ List.mem_map_of_mem inside)
    have nonempty : x ≠ [] := by
      rintro rfl
      exact some_ (List.map_eq_nil_iff.mp (List.map_eq_nil_iff.mp same.symm))
    have inside : d.before.any isWord = true := by
      rw [last]
      exact getLast?_any nonempty (isWord_of_mem free (fun u mem => split ▸ List.mem_append_left _ mem) noSign_) _
    have stop : d.rest.takeWhile (· != unit '-') = [] := by
      cases rest : d.rest with
      | nil => rfl
      | cons v tail =>
          obtain ⟨-, -, -, -, -, same⟩ := free_plain (free v (by rw [split, rest]; simp))
          rw [Cursor.atBoundary, inside, rest, List.head?_cons, Option.any_some, same] at edge
          exact List.takeWhile_cons_of_neg (by simpa using edge)
    have front : lead w = x := by rw [lead, split, List.takeWhile_append_of_pos noSign_, stop, List.append_nil]
    rw [front, same]
  · intro same
    have noSign_ : ∀ u ∈ lead w, (u != unit '-') = true := List.all_eq_true.mp List.all_takeWhile
    have nonempty : lead w ≠ [] := by
      intro blank
      rw [blank] at same
      exact some_ (List.map_eq_nil_iff.mp (List.map_eq_nil_iff.mp same.symm))
    refine ⟨⟨(lead w).getLast?.or none, w.dropWhile (· != unit '-'), []⟩,
      mem_spelled.mpr ⟨lead w, List.takeWhile_append_dropWhile.symm, same, rfl, rfl⟩, ?_⟩
    apply atBoundary_of
    · exact getLast?_any nonempty (isWord_of_mem free (fun u mem => List.takeWhile_subset _ mem) noSign_) none
    · cases rest : w.dropWhile (· != unit '-') with
      | nil => rfl
      | cons v tail =>
          have sign : (v != unit '-') = false := by
            have := List.head?_dropWhile_not (· != unit '-') w
            rw [rest] at this
            simpa using this
          obtain rfl : v = unit '-' := by simpa using sign
          rfl

def timeWords : List Utf16 := ["overnight", "today", "yesterday", "now"].map ofString

def operatorNames : List Utf16 := ["AND", "OR", "NOT"].map ofString

theorem names_edge (fold : CodeUnit → CodeUnit) (names : List String)
    (plain : (names.all fun name => !name.toList.isEmpty && !((ofString name).map fold).contains (fold (unit '-')) &&
      (ofString name).map fold == ofString name) = true) :
    (∃ d ∈ (anyOf (names.map fun name =>
        seq (name.toList.map fun ch => one fun u => fold u == fold (unit ch)))).outcomes (Cursor.start w),
      d.atBoundary = true) ↔ (lead w).map fold ∈ names.map ofString := by
  have each : ∀ name ∈ names,
      (∃ d ∈ (seq (name.toList.map fun ch => one fun u => fold u == fold (unit ch))).outcomes (Cursor.start w),
        d.atBoundary = true) ↔ (lead w).map fold = ofString name := by
    intro name mem
    have plain_ := List.all_eq_true.mp plain name mem
    simp only [Bool.and_eq_true, Bool.not_eq_true', List.isEmpty_eq_false_iff, beq_iff_eq, List.contains_eq_mem,
      decide_eq_false_iff_not] at plain_
    obtain ⟨⟨some_, noSign⟩, same⟩ := plain_
    have edge := spelled_edge free some_ noSign
    rwa [← ofString, same] at edge
  constructor
  · rintro ⟨d, mem, edge⟩
    obtain ⟨r, inside, mem⟩ := mem_anyOf.mp mem
    obtain ⟨name, listed_, rfl⟩ := List.mem_map.mp inside
    exact List.mem_map.mpr ⟨name, listed_, ((each name listed_).mp ⟨d, mem, edge⟩).symm⟩
  · intro mem
    obtain ⟨name, listed_, same⟩ := List.mem_map.mp mem
    obtain ⟨d, mem, edge⟩ := (each name listed_).mpr same.symm
    exact ⟨d, mem_anyOf.mpr ⟨_, List.mem_map_of_mem listed_, mem⟩, edge⟩

theorem opRule_eq_none_iff : opRule w = none ↔ lead w ∉ operatorNames := by
  have edge := names_edge free id ["AND", "OR", "NOT"] (by decide)
  rw [List.map_id] at edge
  rw [opRule, Option.map_eq_none_iff, exec_eq_none_iff, opRe]
  exact fails_group_edge_iff.trans (not_congr edge)

theorem timeRule_eq_none_iff : timeRule w = none ↔ toLowerCase (lead w) ∉ timeWords := by
  have apart : (((TIME_PATTERNS.drop 1).take 11 ++ TIME_PATTERNS.drop 13).all fun pattern =>
      pattern.1.asksBeyond freeUnits) = true := by decide +kernel
  have others : ∀ pattern ∈ (TIME_PATTERNS.drop 1).take 11 ++ TIME_PATTERNS.drop 13, exec pattern.1 w = none :=
    fun pattern mem => exec_free free (List.all_eq_true.mp apart pattern mem)
  have phrase : (seq [word "last", gap, word "night"]).asksBeyond freeUnits = true := by decide +kernel
  have night : exec (seq [anyOf [seq [word "last", gap, word "night"], word "overnight"], boundary]) w = none ↔
      toLowerCase (lead w) ∉ ["overnight"].map ofString := by
    have edge := names_edge free lower ["overnight"] (by decide)
    have apart_ := fails_of_asksBeyond _ phrase (Cursor.start w) fun u mem => mem_freeUnits (free u mem)
    rw [exec_eq_none_iff]
    refine fails_edge_iff.trans (not_congr (Iff.trans ?_ edge))
    rw [show anyOf [seq [word "last", gap, word "night"], word "overnight"] =
      alt (seq [word "last", gap, word "night"]) (word "overnight") from rfl, outcomes_alt, apart_, List.nil_append]
    rfl
  have day : exec (seq [group 1 (words ["today", "yesterday", "now"]), boundary]) w = none ↔
      toLowerCase (lead w) ∉ ["today", "yesterday", "now"].map ofString := by
    have edge := names_edge free lower ["today", "yesterday", "now"] (by decide)
    rw [exec_eq_none_iff]
    exact fails_group_edge_iff.trans (not_congr edge)
  have both : timeRule w = none ↔
      exec (seq [anyOf [seq [word "last", gap, word "night"], word "overnight"], boundary]) w = none ∧
        exec (seq [group 1 (words ["today", "yesterday", "now"]), boundary]) w = none := by
    rw [timeRule, List.findSome?_eq_none_iff]
    simp only [Option.map_eq_none_iff]
    constructor
    · intro fails
      exact ⟨fails (_, _) List.mem_cons_self, fails (_, _) (List.mem_of_getElem? (i := 12) rfl)⟩
    · rintro ⟨first, last⟩ pattern mem
      have split : TIME_PATTERNS = TIME_PATTERNS.take 1 ++ ((TIME_PATTERNS.drop 1).take 11 ++
          ((TIME_PATTERNS.drop 12).take 1 ++ TIME_PATTERNS.drop 13)) := rfl
      rw [split, List.mem_append, List.mem_append, List.mem_append] at mem
      rcases mem with one_ | middle | one_ | rest
      · rw [List.mem_singleton.mp one_]
        exact first
      · exact others pattern (List.mem_append_left _ middle)
      · rw [List.mem_singleton.mp one_]
        exact last
      · exact others pattern (List.mem_append_right _ rest)
  rw [both, night, day, timeWords]
  simp only [List.map_cons, List.map_nil, List.mem_cons, List.not_mem_nil, or_false, not_or]

theorem lex_free (some_ : w ≠ []) (last : Option Token) :
    lex last w = (((timeRule w).or (opRule w)).or (negRule w)).getD (.whole (wordKind last w) w.length) := by
  have apart : ([saveRe, forgetRe, topRe, mostRe, limitRe, savedRe, tagRe, urlRe, fieldRe].all
      (asksBeyond freeUnits)) = true := by decide +kernel
  have none_ : ∀ r ∈ [saveRe, forgetRe, topRe, mostRe, limitRe, savedRe, tagRe, urlRe, fieldRe], exec r w = none :=
    fun r mem => exec_free free (List.all_eq_true.mp apart r mem)
  simp only [List.forall_mem_cons] at none_
  obtain ⟨save, forget, top, most, limit, saved, tag, url, field, -⟩ := none_
  obtain ⟨noSpace, noQuote⟩ : w.head?.any isSpace = false ∧ quotedRule w = none := by
    obtain ⟨u, rest, rfl⟩ := List.exists_cons_of_ne_nil some_
    obtain ⟨space, quote, -⟩ := free_plain (free u List.mem_cons_self)
    have quote_ : (u == unit '"') = false := quote
    exact ⟨space, by simp [quotedRule, quote_]⟩
  have names_ : ∀ u ∈ w, isNameUnit u = true := fun u mem => (free_plain (free u mem)).2.2.2.2.1
  have csv : csvRule w = none := by
    have levels := parseBareCsv_word findLevel some_ names_ spaced_nil
    have statuses := parseBareCsv_word findStatus some_ names_ spaced_nil
    rw [List.append_nil] at levels statuses
    rw [csvRule, levels, statuses]
    cases findLevel (toLowerCase w) <;> cases findStatus (toLowerCase w) <;> rfl
  have bare : bareRule last w = some (.whole (wordKind last w) w.length) := by
    have matched := exec_run some_ (fun u mem => isBareUnit_of_isNameUnit (names_ u mem))
      (spaced_nil.stops isBareUnit (by decide))
    rw [List.append_nil] at matched
    rw [bareRule, matched, csv]
    rfl
  rw [lex, noSpace, bare]
  simp only [rules, List.findSome?_cons, List.findSome?_nil, saveRule, forgetRule, topRule, mostRule, limitRule,
    savedRule, tagRule, urlRule, fieldRule, save, forget, top, most, limit, saved, tag, url, field, noQuote,
    Option.map_none, Bool.false_eq_true, if_false]
  cases timeRule w <;> cases opRule w <;> cases negRule w <;> rfl

end

def wordOf : TokenKind → Option Utf16
  | .word value => some value
  | _ => none

theorem words_add (q : Query) (negated : Bool) (kind : TokenKind) :
    (q.add negated kind).words = q.words ++ (wordOf kind).toList := by
  cases kind with
  | level values => cases negated <;> simp [Query.add, wordOf]
  | status values => cases negated <;> simp [Query.add, wordOf]
  | saved name => cases negated <;> simp [Query.add, wordOf]
  | keyword value =>
      rcases value with (_ | _ | _ | _) | _ <;> simp [Query.add, wordOf]
  | _ => simp [Query.add, wordOf]

theorem words_buildFrom (q : Query) (negated : Bool) (tokens : List Token) :
    (buildFrom q negated tokens).words = q.words ++ (tokens.map Token.kind).filterMap wordOf := by
  induction tokens generalizing q negated with
  | nil => simp [buildFrom]
  | cons t tokens ih =>
      rw [buildFrom, ih, words_add, List.append_assoc, List.map_cons, List.filterMap_cons]
      cases wordOf t.kind <;> rfl

theorem words_parseQuery (s : Utf16) : (parseQuery s).2.words = (kinds none s).filterMap wordOf := by
  rw [parseQuery, buildQuery, words_buildFrom]
  rfl

theorem taken_kind {s : Utf16} {lexed : Lexed} (taken : ((timeRule s).or (opRule s)).or (negRule s) = some lexed) :
    ∃ kind, lexed.tokens.map Token.kind = [kind] ∧ wordOf kind = none := by
  rcases Option.or_eq_some_iff.mp taken with words_ | ⟨-, sign⟩
  · rcases Option.or_eq_some_iff.mp words_ with time | ⟨-, op⟩
    · obtain ⟨pattern, -, matched⟩ := List.exists_of_findSome?_eq_some time
      obtain ⟨m, -, rfl⟩ := Option.map_eq_some_iff.mp matched
      exact ⟨_, rfl, rfl⟩
    · obtain ⟨m, -, rfl⟩ := Option.map_eq_some_iff.mp op
      exact ⟨_, rfl, rfl⟩
  · unfold negRule at sign
    split at sign
    · split at sign <;> cases sign
      exact ⟨_, rfl, rfl⟩
    · cases sign

def lookUp (lower : Utf16) : Option TokenKind :=
  match findLevel lower, findStatus lower with
  | some l, _ => some (.level [l])
  | none, some st => some (.status [st])
  | none, none =>
      if lower == ofString "crashes" || lower == ofString "crashing" then some (.level [.fatal])
      else (((index kwMap lower).map TokenKind.keyword).or ((index sortAliases lower).map TokenKind.sort)).or
        (if FILLERS.contains lower then some .filler else none)

theorem wordOf_lookUp {lower : Utf16} {kind : TokenKind} (found : lookUp lower = some kind) : wordOf kind = none := by
  unfold lookUp at found
  split at found
  · cases found; rfl
  · cases found; rfl
  · split at found
    · cases found; rfl
    · rcases Option.or_eq_some_iff.mp found with tables | ⟨-, filler⟩
      · rcases Option.or_eq_some_iff.mp tables with keyword | ⟨-, sort⟩
        · obtain ⟨value, -, rfl⟩ := Option.map_eq_some_iff.mp keyword
          rfl
        · obtain ⟨key, -, rfl⟩ := Option.map_eq_some_iff.mp sort
          rfl
      · split at filler <;> cases filler
        rfl

theorem wordKind_free {w : Utf16} (some_ : w ≠ []) (free : ∀ u ∈ w, isFreeUnit u = true) (last : Option Token) :
    wordKind last w = (lookUp (toLowerCase w)).getD (.word w) := by
  have noDigit : ∀ {x : Utf16}, x ≠ [] → (∀ u ∈ x, u ∈ w) → x.all isDigit = false := by
    intro x nonempty sub
    obtain ⟨u, rest, rfl⟩ := List.exists_cons_of_ne_nil nonempty
    obtain ⟨-, -, plain, -⟩ := free_plain (free u (sub u List.mem_cons_self))
    rw [List.all_cons, plain, Bool.false_and]
  have whole : w.all isDigit = false := noDigit some_ fun u mem => mem
  have plural : (decide (2 ≤ w.length) && w.dropLast.all isDigit && w.getLast? == some (unit 's')) = false := by
    by_cases long : 2 ≤ w.length
    · have nonempty : w.dropLast ≠ [] := by
        rw [← List.length_pos_iff, List.length_dropLast]
        omega
      rw [noDigit nonempty fun u mem => List.dropLast_subset w mem, Bool.and_false, Bool.false_and]
    · rw [decide_eq_false long, Bool.false_and, Bool.false_and]
  have star_ : w.contains (unit '*') = false := by
    rw [List.contains_eq_mem, decide_eq_false_iff_not]
    intro mem
    obtain ⟨-, -, -, plain, -⟩ := free_plain (free _ mem)
    cases plain
  simp only [wordKind, lookUp, whole, plural, star_, List.contains_iff_mem, Bool.false_and, Bool.false_eq_true, if_false]
  cases findLevel (toLowerCase w) with
  | some l => rfl
  | none =>
      cases findStatus (toLowerCase w) with
      | some st => rfl
      | none =>
          dsimp only
          split_ifs
          · rfl
          · cases index kwMap (toLowerCase w) <;> cases index sortAliases (toLowerCase w) <;> rfl
          · cases index kwMap (toLowerCase w) <;> cases index sortAliases (toLowerCase w) <;> rfl

def vocabulary : List Utf16 :=
  LEVELS.map levelName ++ LEVELS.map (fun l => levelName l ++ ofString "s") ++ STATUSES.map statusName ++
    ["crashes", "crashing"].map ofString ++ kwMap.map (fun entry => ofString entry.1) ++
    sortAliases.map (fun entry => ofString entry.1) ++ FILLERS ++ timeWords ++ ["and", "or", "not"].map ofString

def inheritedNames : List Utf16 := ["constructor", "__proto__"].map ofString

theorem lookUp_unlisted {key : Utf16} (unlisted : key ∉ vocabulary) : lookUp key = none ↔ key ∉ objectPrototype := by
  simp only [vocabulary, List.mem_append, not_or] at unlisted
  obtain ⟨⟨⟨⟨⟨⟨⟨⟨levels, plurals⟩, statuses⟩, crashes⟩, keywords⟩, sorts⟩, fillers⟩, -⟩, -⟩ := unlisted
  have level : findLevel key = none := by
    rw [findLevel, List.find?_eq_none]
    intro l mem same
    rcases Bool.or_eq_true_iff.mp same with single | plural
    · exact levels (List.mem_map.mpr ⟨l, mem, (beq_iff_eq.mp single).symm⟩)
    · exact plurals (List.mem_map.mpr ⟨l, mem, (beq_iff_eq.mp plural).symm⟩)
  have status : findStatus key = none := by
    rw [findStatus, List.find?_eq_none]
    intro st mem same
    exact statuses (List.mem_map.mpr ⟨st, mem, (beq_iff_eq.mp same).symm⟩)
  have crash : (key == ofString "crashes" || key == ofString "crashing") = false := by
    rw [Bool.or_eq_false_iff, beq_eq_false_iff_ne, beq_eq_false_iff_ne]
    exact ⟨fun same => crashes (List.mem_map.mpr ⟨"crashes", by simp, same.symm⟩),
      fun same => crashes (List.mem_map.mpr ⟨"crashing", by simp, same.symm⟩)⟩
  rw [lookUp, level, status]
  dsimp only
  rw [crash, index_unlisted keywords, index_unlisted sorts, if_neg (mt List.contains_iff_mem.mp fillers)]
  by_cases inherited : key ∈ objectPrototype <;> simp [inherited]

theorem toLowerCase_toLowerCase (w : Utf16) : toLowerCase (toLowerCase w) = toLowerCase w := by
  rw [toLowerCase, toLowerCase, List.map_map]
  exact List.map_congr_left fun u _ => lower_lower u

theorem inherited_iff (w : Utf16) : toLowerCase w ∈ objectPrototype ↔ toLowerCase w ∈ inheritedNames := by
  have kept : (objectPrototype.all fun name => !(toLowerCase name == name) || inheritedNames.contains name) = true := by decide
  have inside : (inheritedNames.all fun name => objectPrototype.contains name) = true := by decide
  constructor
  · intro mem
    have small := List.all_eq_true.mp kept _ mem
    rw [toLowerCase_toLowerCase, beq_self_eq_true, Bool.not_true, Bool.false_or] at small
    exact List.contains_iff_mem.mp small
  · intro mem
    exact List.contains_iff_mem.mp (List.all_eq_true.mp inside _ mem)

/-- `[A-Za-z_-]+`, beginning with a letter or `_`. -/
structure FreeWord (w : Utf16) : Prop extends BareWord isFreeUnit w where
  noSign : w.head? ≠ some (unit '-')

theorem words_short {s : Utf16} (free : ∀ u ∈ s, isFreeUnit u = true) (last : Option Token) :
    ∀ v ∈ (kinds last s).filterMap wordOf, v.length ≤ s.length := by
  generalize length : s.length = n
  induction n using Nat.strong_induction_on generalizing s last with
  | _ n ih =>
      subst length
      by_cases blank : s = []
      · subst blank
        exact nofun
      · have moved := lex_advances last s
        have shorter : (s.drop (lex last s).length).length < s.length := by
          have := List.length_pos_iff.mpr blank
          rw [List.length_drop]
          omega
        have later := ih _ shorter (fun u mem => free u (List.mem_of_mem_drop mem))
          ((lex last s).tokens.getLast?.or last) rfl
        intro v mem
        rw [kinds_eq last blank, List.filterMap_append, List.mem_append] at mem
        rcases mem with first | rest
        · rw [lex_free free blank] at first
          cases taken : ((timeRule s).or (opRule s)).or (negRule s) with
          | some lexed =>
              obtain ⟨kind, eq, noWord⟩ := taken_kind taken
              rw [taken, Option.getD_some, eq] at first
              simp [noWord] at first
          | none =>
              rw [taken, Option.getD_none, wordKind_free blank free] at first
              cases found : lookUp (toLowerCase s) with
              | some kind => simp [found, Lexed.whole, wordOf_lookUp found] at first
              | none =>
                  have same : v = s := by simpa [found, Lexed.whole, wordOf] using first
                  rw [same]
        · exact (later v rest).trans shorter.le

/-- A word that no list has comes out as the one word of its query exactly when it is no property of `Object.prototype`
and neither a time word nor an operator stands in front of its first sign. -/
theorem words_iff {w : Utf16} (free : FreeWord w) (unlisted : toLowerCase w ∉ vocabulary) :
    (parseQuery w).2.words = [w] ↔
      toLowerCase w ∉ inheritedNames ∧ toLowerCase (lead w) ∉ timeWords ∧ lead w ∉ operatorNames := by
  have sign : negRule w = none := by
    obtain ⟨u, rest, rfl⟩ := List.exists_cons_of_ne_nil free.nonempty
    have plain : u ≠ unit '-' := fun same => free.noSign (by rw [same]; rfl)
    cases rest <;> simp [negRule, plain]
  have time := timeRule_eq_none_iff free.all
  have op := opRule_eq_none_iff free.all
  have round := lex_free free.all free.nonempty none
  rw [sign, Option.or_none] at round
  rw [words_parseQuery, kinds_eq none free.nonempty, List.filterMap_append]
  cases taken : (timeRule w).or (opRule w) with
  | none =>
      obtain ⟨noTime, noOp⟩ := Option.or_eq_none_iff.mp taken
      rw [taken, Option.getD_none, wordKind_free free.nonempty free.all] at round
      rw [round]
      simp only [Lexed.whole, List.map_cons, List.map_nil, List.drop_length, kinds, tokenizeFrom, List.length_nil, List.filterMap_nil, List.append_nil]
      rw [← inherited_iff, ← lookUp_unlisted unlisted]
      cases found : lookUp (toLowerCase w) with
      | none => simp [wordOf, time.mp noTime, op.mp noOp]
      | some kind => simp [wordOf_lookUp found]
  | some lexed =>
      obtain ⟨kind, eq, noWord⟩ := taken_kind (show ((timeRule w).or (opRule w)).or (negRule w) = some lexed by
        rw [taken, Option.some_or])
      rw [taken, Option.getD_some] at round
      have moved := lex_advances none w
      have short := words_short (fun u mem => free.all u (List.mem_of_mem_drop mem)) (s := w.drop (lex none w).length)
        ((lex none w).tokens.getLast?.or none)
      rw [round, eq]
      rw [round] at moved short
      constructor
      · intro same
        have mem : w ∈ [w] := List.mem_singleton_self w
        rw [← same] at mem
        have inside : w ∈ (kinds (lexed.tokens.getLast?.or none) (w.drop lexed.length)).filterMap wordOf := by
          simpa [noWord] using mem
        have bound := short w inside
        have positive := List.length_pos_iff.mpr free.nonempty
        rw [List.length_drop] at bound
        omega
      · rintro ⟨-, noTime, noOp⟩
        rw [time.mpr noTime, op.mpr noOp] at taken
        cases taken

theorem words_checkout : (parseQuery (ofString "Pay_now-checkout")).2.words = [ofString "Pay_now-checkout"] :=
  (words_iff ⟨.of_all rfl (by decide), by decide⟩ (by decide +kernel)).mpr (by decide +kernel)

/-- `constructor` is in none of the lists, and is swallowed. -/
theorem words_constructor : ¬ ∀ w, FreeWord w → toLowerCase w ∉ vocabulary → (parseQuery w).2.words = [w] := by
  intro kept
  have free : FreeWord (ofString "constructor") := ⟨.of_all rfl (by decide), by decide⟩
  have same := kept (ofString "constructor") free (by decide +kernel)
  have none_ : (parseQuery (ofString "constructor")).2.words = [] := by decide +kernel
  rw [none_] at same
  cases same

example : (parseQuery (ofString "now-playing")).2.words = [ofString "playing"] ∧
    (parseQuery (ofString "NOT-found")).2.words = [ofString "found"] := by decide +kernel

end Errex.Proof.Spa
