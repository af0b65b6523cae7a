import Errex.Proof.Spa.Facets

/-!
# How the tokenizer reads printed limits and windows

A limit is digits behind its name, a window digits in front of a unit. The word `ago` after a window belongs to the
window, wherever it comes from.
-/

namespace Errex.Proof.Spa
open Foundation Model Spa Utf16 Regex

theorem digit_mem {u : CodeUnit} (digit : isDigit u = true) : u ∈ (List.range 10).map fun n => UInt16.ofNat (48 + n) := by
  simp only [isDigit, UInt16.le_iff_toNat_le, Bool.and_eq_true, decide_eq_true_eq] at digit
  simp at digit
  refine List.mem_map.mpr ⟨u.toNat - 48, List.mem_range.mpr (by omega), ?_⟩
  rw [show 48 + (u.toNat - 48) = u.toNat by omega]
  exact UInt16.ofNat_toNat

theorem of_digits {P : CodeUnit → Bool} (each : ((List.range 10).map fun n => UInt16.ofNat (48 + n)).all P = true)
    {u : CodeUnit} (digit : isDigit u = true) : P u = true := List.all_eq_true.mp each u (digit_mem digit)

theorem isWord_of_isDigit {u : CodeUnit} (digit : isDigit u = true) : isWord u = true := by simp [isWord, digit]

theorem not_isSpace_of_isDigit {u : CodeUnit} (digit : isDigit u = true) : isSpace u = false := by
  have := of_digits (P := fun u => !isSpace u) (by decide) digit
  simpa using this

theorem decimal_cons (k : Nat) : ∃ u rest, decimal k = u :: rest ∧ isDigit u = true := by
  obtain ⟨u, rest, eq⟩ := List.exists_cons_of_ne_nil (decimal_ne_nil k)
  exact ⟨u, rest, eq, isDigit_of_mem_decimal (n := k) (by rw [eq]; exact List.mem_cons_self)⟩

theorem atBoundary_of {before : Option CodeUnit} {t : Utf16} (groups : List (Nat × Utf16))
    (inside : before.any isWord = true) (outside : t.head?.any isWord = false) :
    Cursor.atBoundary ⟨before, t, groups⟩ = true := by simp [Cursor.atBoundary, inside, outside]

theorem Spaced.outside {t : Utf16} (spaced : Spaced t) : t.head?.any isWord = false := by
  cases t with
  | nil => rfl
  | cons u t =>
      rw [spaced u rfl]
      rfl

theorem getLast?_any {accepts : CodeUnit → Bool} {w : Utf16} (some_ : w ≠ []) (all : ∀ u ∈ w, accepts u = true)
    (before : Option CodeUnit) : (w.getLast?.or before).any accepts = true := by
  rw [List.getLast?_eq_some_getLast some_]
  exact all _ (List.getLast_mem some_)

theorem lex_limit (k : Nat) {t : Utf16} (spaced : Spaced t) (last : Option Token) :
    lex last ((ofString "limit:" ++ decimal k) ++ t) =
      .whole (.limit (.ofNat k)) (ofString "limit:" ++ decimal k).length := by
  have digits_ : ∀ u ∈ decimal k, isDigit u = true := fun u mem => isDigit_of_mem_decimal mem
  have noSpace : Stops isSpace (decimal k ++ t) := by
    obtain ⟨u, rest, eq, digit⟩ := decimal_cons k
    rw [eq]
    intro v mem
    rw [← Option.some.inj mem]
    exact not_isSpace_of_isDigit digit
  have name_ := first_word (w := "limit") (x := ofString "limit") rfl none (unit ':' :: (decimal k ++ t)) []
  have gap₁ := First.star_stop (@Fails.one isSpace (unit ':') (by decide)
    ((ofString "limit").getLast?.or none) (decimal k ++ t) [])
  have colon := First.left (b := .empty) (@First.one (· == unit ':') (unit ':') (by decide)
    ((ofString "limit").getLast?.or none) (decimal k ++ t) [])
  have gap₂ := First.star_stop (fails_one_of_stops noSpace (some (unit ':')) [])
  have run := First.group_append (k := 1) (First.plus_run (decimal_ne_nil k) digits_
    (spaced.stops isDigit (by decide)) (some (unit ':')) [])
  have edge := First.boundary (atBoundary_of [(1, decimal k)]
    (getLast?_any (decimal_ne_nil k) (fun u mem => isWord_of_isDigit (digits_ u mem)) (some (unit ':'))) spaced.outside)
  have sequence : First limitRe ⟨none, ofString "limit" ++ unit ':' :: (decimal k ++ t), []⟩
      ⟨(decimal k).getLast?.or (some (unit ':')), t, [(1, decimal k)]⟩ :=
    name_.cat (gap₁.cat (colon.cat (gap₂.cat (run.cat edge))))
  have shape : (ofString "limit:" ++ decimal k) ++ t = ofString "limit" ++ unit ':' :: (decimal k ++ t) := by
    rw [List.append_assoc]
    rfl
  have matched : exec limitRe ((ofString "limit:" ++ decimal k) ++ t) =
      some ⟨ofString "limit:" ++ decimal k, [(1, decimal k)]⟩ := by
    refine exec_append (show First _ _ ⟨(decimal k).getLast?.or (some (unit ':')), _, _⟩ from ?_)
    rw [shape]
    exact sequence
  have refused : refuses [saveRe, forgetRe, topRe, mostRe] (ofString "limit:") = true := by decide +kernel
  have save := exec_refused refused (r := saveRe) (by simp) (decimal k ++ t)
  have forget := exec_refused refused (r := forgetRe) (by simp) (decimal k ++ t)
  have top := exec_refused refused (r := topRe) (by simp) (decimal k ++ t)
  have most := exec_refused refused (r := mostRe) (by simp) (decimal k ++ t)
  have noLead : ((ofString "limit:" ++ decimal k) ++ t).head?.any isSpace = false := by
    rw [List.append_assoc]
    rfl
  rw [← List.append_assoc] at save forget top most
  rw [lex, noLead]
  simp only [rules, List.findSome?_cons, saveRule, forgetRule, topRule, mostRule, limitRule, save, forget, top, most,
    matched, Option.map_none, Option.map_some, Bool.false_eq_true, if_false, Match.group, List.lookup_cons_self,
    Option.getD_some, numeral_decimal]

abbrev agoRe : Regex := seq [countAndUnit, gap, word "ago", boundary]

abbrev compactRe : Regex :=
  seq [group 1 digits, spaces, group 2 (words ["m", "min", "minutes", "h", "hr", "hour", "hours", "d", "day", "days"]), boundary]

theorem TIME_PATTERNS_split : TIME_PATTERNS =
    TIME_PATTERNS.take 9 ++ (agoRe, counted) :: ((TIME_PATTERNS.drop 10).take 3 ++ [(compactRe, counted)]) := rfl

def windowUnits : List CodeUnit := [unit 'm', unit 'h', unit 'd']

theorem windowUnit_plain {u : CodeUnit} (window : u ∈ windowUnits) :
    isDigit u = false ∧ isSpace u = false ∧ isWord u = true := by
  have each : (windowUnits.all fun u => !isDigit u && !isSpace u && isWord u) = true := by decide
  have := List.all_eq_true.mp each u window
  simpa [and_assoc] using this

def startsAgo (r : Utf16) : Bool := toLowerCase (r.take 3) == ofString "ago" && !(r.drop 3).head?.any isWord

theorem startsAgo_iff {r : Utf16} : startsAgo r = true ↔
    ∃ x y, r = x ++ y ∧ toLowerCase x = ofString "ago" ∧ y.head?.any isWord = false := by
  rw [startsAgo, Bool.and_eq_true, beq_iff_eq, Bool.not_eq_true']
  constructor
  · exact fun ⟨same, outside⟩ => ⟨r.take 3, r.drop 3, (List.take_append_drop 3 r).symm, same, outside⟩
  · rintro ⟨x, y, rfl, same, outside⟩
    have three : x.length = 3 := by
      have := congrArg List.length same
      rwa [toLowerCase, List.length_map] at this
    rw [← three, List.take_left, List.drop_left]
    exact ⟨same, outside⟩

theorem ago_letters {x : Utf16} (same : toLowerCase x = ofString "ago") :
    x ≠ [] ∧ ∀ v ∈ x, isWord v = true ∧ isSpace v = false := by
  refine ⟨?_, fun v mem => letter_of_lower ?_⟩
  · rintro rfl
    cases same
  · have lowered : lower v ∈ ofString "ago" := same ▸ List.mem_map_of_mem mem
    have each : (ofString "ago").all isLower = true := by decide
    exact List.all_eq_true.mp each _ lowered

theorem first_unit {u : CodeUnit} (window : u ∈ windowUnits) (before : Option CodeUnit) (t : Utf16)
    (groups : List (Nat × Utf16)) :
    First (words unitNames) ⟨before, u :: t, groups⟩ ⟨some u, t, groups⟩ ∧
      First (words ["m", "min", "minutes", "h", "hr", "hour", "hours", "d", "day", "days"])
        ⟨before, u :: t, groups⟩ ⟨some u, t, groups⟩ := by
  simp only [windowUnits, List.mem_cons, List.not_mem_nil, or_false] at window
  rcases window with rfl | rfl | rfl <;> exact ⟨rfl, rfl⟩

section
variable (k : Nat) {u : CodeUnit}

theorem first_count (window : u ∈ windowUnits) (t : Utf16) {unitRe : Regex}
    (named : ∀ before groups, First unitRe ⟨before, u :: t, groups⟩ ⟨some u, t, groups⟩) :
    ∃ c, First (group 1 digits) ⟨none, decimal k ++ u :: t, []⟩ c ∧ First spaces c c ∧
      First (group 2 unitRe) c ⟨some u, t, [(2, [u]), (1, decimal k)]⟩ := by
  obtain ⟨noDigit, noSpace, -⟩ := windowUnit_plain window
  have stops : Stops isDigit (u :: t) := by
    intro v mem
    rw [← Option.some.inj mem]
    exact noDigit
  refine ⟨⟨(decimal k).getLast?.or none, u :: t, [(1, decimal k)]⟩, ?_, ?_, ?_⟩
  · exact First.group_append (First.plus_run (decimal_ne_nil k) (fun v mem => isDigit_of_mem_decimal mem) stops none [])
  · exact First.star_stop (Fails.one noSpace _ t _)
  · exact First.group_append (x := [u]) (named _ _)

theorem exec_compact (window : u ∈ windowUnits) {t : Utf16} (spaced : Spaced t) :
    exec compactRe ((decimal k ++ [u]) ++ t) = some ⟨decimal k ++ [u], [(2, [u]), (1, decimal k)]⟩ := by
  obtain ⟨-, -, inside⟩ := windowUnit_plain window
  obtain ⟨c, count, gap_, unit_⟩ := first_count k window t fun before groups => (first_unit window before t groups).2
  refine exec_append (show First _ _ ⟨some u, _, _⟩ from ?_)
  rw [List.append_assoc, List.singleton_append]
  exact count.cat (gap_.cat (unit_.cat (First.boundary (atBoundary_of _ inside spaced.outside))))

theorem exec_ago (window : u ∈ windowUnits) {x y : Utf16} (same : toLowerCase x = ofString "ago")
    (outside : y.head?.any isWord = false) :
    exec agoRe ((decimal k ++ u :: unit ' ' :: x) ++ y) =
      some ⟨decimal k ++ u :: unit ' ' :: x, [(2, [u]), (1, decimal k)]⟩ := by
  obtain ⟨nonempty, letters⟩ := ago_letters same
  obtain ⟨c, count, gap₁, unit_⟩ := first_count k window (unit ' ' :: (x ++ y)) fun before groups =>
    (first_unit window before _ groups).1
  have noSpace : Stops isSpace (x ++ y) := by
    obtain ⟨v, rest, rfl⟩ := List.exists_cons_of_ne_nil nonempty
    intro w mem
    rw [← Option.some.inj mem]
    exact (letters v List.mem_cons_self).2
  have gap₂ := First.plus_run (List.cons_ne_nil (unit ' ') []) (List.forall_mem_singleton.mpr rfl) noSpace (some u) [(2, [u]), (1, decimal k)]
  have word_ := first_word (w := "ago") (show x.map lower = (ofString "ago").map lower from same) (some (unit ' ')) y
    [(2, [u]), (1, decimal k)]
  have edge := First.boundary (atBoundary_of [(2, [u]), (1, decimal k)]
    (getLast?_any nonempty (fun v mem => (letters v mem).1) (some (unit ' '))) outside)
  refine exec_append (show First _ _ ⟨x.getLast?.or (some (unit ' ')), _, _⟩ from ?_)
  rw [List.append_assoc, List.cons_append, List.cons_append]
  exact (count.cat (gap₁.cat unit_)).cat (gap₂.cat (word_.cat edge))

theorem rest_of_digits (window : u ∈ windowUnits) {t run rest : Utf16} (split : decimal k ++ u :: t = run ++ rest)
    (all : ∀ v ∈ run, isDigit v = true) : rest = u :: t ∨ ∃ v tail, rest = v :: tail ∧ isDigit v = true := by
  rcases List.append_eq_append_iff.mp split with ⟨more, run_eq, rest_eq⟩ | ⟨left, digits_eq, rest_eq⟩
  · cases more with
    | nil => exact .inl rest_eq.symm
    | cons v more =>
        have head := (List.cons.inj rest_eq).1
        have digit := all v (run_eq ▸ List.mem_append_right _ List.mem_cons_self)
        rw [← head, (windowUnit_plain window).1] at digit
        cases digit
  · cases left with
    | nil => exact .inl rest_eq
    | cons v left =>
        refine .inr ⟨v, left ++ u :: t, rest_eq, isDigit_of_mem_decimal (n := k) ?_⟩
        rw [digits_eq]
        exact List.mem_append_right _ List.mem_cons_self

theorem mem_countAndUnit (window : u ∈ windowUnits) {t : Utf16} (spaced : Spaced t) {d : Cursor}
    (mem : d ∈ countAndUnit.outcomes ⟨none, decimal k ++ u :: t, []⟩) : d.rest = t := by
  obtain ⟨noDigit, noSpace, -⟩ := windowUnit_plain window
  obtain ⟨e, count, mem⟩ := List.mem_flatMap.mp mem
  obtain ⟨f, gap_, named⟩ := List.mem_flatMap.mp mem
  obtain ⟨e', inner, rfl⟩ := List.mem_map.mp count
  obtain ⟨v, run, split, digit, digits_⟩ := mem_plus_one inner
  obtain ⟨blanks, split', blank⟩ := mem_star_one gap_
  obtain ⟨d', inner', rfl⟩ := List.mem_map.mp named
  have left := rest_of_digits k window split (List.forall_mem_cons.mpr ⟨digit, digits_⟩)
  change e'.rest = blanks ++ f.rest at split'
  have noBlanks : blanks = [] := by
    cases blanks with
    | nil => rfl
    | cons w blanks =>
        have space := blank w List.mem_cons_self
        rcases left with unit_ | ⟨v', tail, more, digit'⟩
        · rw [unit_] at split'
          rw [← (List.cons.inj split').1, noSpace] at space
          cases space
        · rw [more] at split'
          rw [← (List.cons.inj split').1, not_isSpace_of_isDigit digit'] at space
          cases space
  rw [noBlanks, List.nil_append] at split'
  change d'.rest = t
  rcases left with unit_ | ⟨v', tail, more, digit'⟩
  · rw [split'] at unit_
    cases t with
    | nil =>
        obtain ⟨-, short⟩ := outcomes_suffix _ _ _ inner'
        have least : (words unitNames).minLength = 1 := by decide
        rw [unit_, least] at short
        exact List.eq_nil_of_length_eq_zero (by simpa using short)
    | cons w t =>
        obtain rfl := spaced w rfl
        have known : (words unitNames).leftovers [u, unit ' '] = [some [unit ' ']] := by
          simp only [windowUnits, List.mem_cons, List.not_mem_nil, or_false] at window
          rcases window with rfl | rfl | rfl <;> decide +kernel
        have leaves := leaves_of_outcomes (words unitNames) t [u, unit ' '] f d' unit_ inner'
        rw [known] at leaves
        rcases leaves with beyond | ⟨rest, inside, eq⟩
        · simp at beyond
        · simp only [List.mem_singleton, Option.some.injEq] at inside
          rw [eq, inside]
          rfl
  · have refused := of_digits (P := fun u => ((words unitNames).leftovers [u]).isEmpty) (by decide +kernel) digit'
    have fails := fails_of_leftovers (List.isEmpty_iff.mp refused) f.before tail f.groups
    rw [List.singleton_append, ← more, split'] at fails
    change Fails (words unitNames) f at fails
    rw [fails] at inner'
    cases inner'

theorem exec_no_ago (window : u ∈ windowUnits) {r : Utf16} (noSpace : Stops isSpace r) (ago : startsAgo r = false) :
    exec agoRe (decimal k ++ u :: unit ' ' :: r) = none := by
  refine exec_of_fails (.cat fun c count => .cat fun d gap_ => .cat fun e named => ?_)
  have rest := mem_countAndUnit k window (spaced_cons r) count
  obtain ⟨v, run, split, -, blank⟩ := mem_plus_one gap_
  rw [rest, List.cons_append, List.cons.injEq] at split
  obtain ⟨-, split⟩ := split
  have noBlanks : run = [] := by
    cases run with
    | nil => rfl
    | cons w run =>
        have space := blank w List.mem_cons_self
        rw [noSpace w (by rw [split]; rfl)] at space
        cases space
  rw [noBlanks, List.nil_append] at split
  obtain ⟨x, split', same, last⟩ := mem_word named
  refine .boundary ?_
  have nonempty : x ≠ [] := by
    rintro rfl
    cases same
  have same' : toLowerCase x = ofString "ago" := same.trans (by decide)
  have inside : e.before.any isWord = true := by
    rw [last]
    exact getLast?_any nonempty (fun v mem => (ago_letters same').2 v mem |>.1) d.before
  have outside : e.rest.head?.any isWord = true := by
    by_contra absent
    rw [Bool.not_eq_true] at absent
    have found := (startsAgo_iff (r := r)).mpr ⟨x, e.rest, split.trans split', same', absent⟩
    rw [ago] at found
    cases found
  rw [Cursor.atBoundary, inside, outside]
  rfl

end

theorem exec_numeral {patterns : List Regex}
    (refused : ((List.range 10).map fun n => UInt16.ofNat (48 + n)).all (fun u => refuses patterns [u]) = true) {r : Regex}
    (mem : r ∈ patterns) (k : Nat) (t : Utf16) : exec r (decimal k ++ t) = none := by
  obtain ⟨u, rest, eq, digit⟩ := decimal_cons k
  have := exec_refused (of_digits refused digit) mem (rest ++ t)
  rwa [List.singleton_append, ← List.cons_append, ← eq] at this

theorem findSome?_numeral {patterns : List (Regex × (Match → Double))}
    (refused : ((List.range 10).map fun n => UInt16.ofNat (48 + n)).all
      (fun u => refuses (patterns.map Prod.fst) [u]) = true) (k : Nat) (t : Utf16) :
    (patterns.findSome? fun (re, build) => (exec re (decimal k ++ t)).map fun m =>
      Lexed.whole (.time (build m)) m.text.length) = none := by
  rw [List.findSome?_eq_none_iff]
  intro pattern mem
  have none_ := exec_numeral refused (List.mem_map_of_mem mem) k t
  simp only [none_, Option.map_none]

theorem counted_window (k : Nat) (u : CodeUnit) (text : Utf16) :
    counted ⟨text, [(2, [u]), (1, decimal k)]⟩ = unitParse (.ofNat k) [u] := by
  have first : (⟨text, [(2, [u]), (1, decimal k)]⟩ : Match).group 1 = some (decimal k) := rfl
  have second : (⟨text, [(2, [u]), (1, decimal k)]⟩ : Match).group 2 = some [u] := rfl
  rw [counted, first, second, Option.getD_some, Option.getD_some, numeral_decimal]

theorem lex_numeral (k : Nat) (t : Utf16) (last : Option Token) {lexed : Lexed}
    (found : timeRule (decimal k ++ t) = some lexed) : lex last (decimal k ++ t) = lexed := by
  have refused : ((List.range 10).map fun n => UInt16.ofNat (48 + n)).all (fun u => refuses leadPatterns [u]) = true := by
    decide +kernel
  have save := exec_numeral refused (r := saveRe) (by simp [leadPatterns]) k t
  have forget := exec_numeral refused (r := forgetRe) (by simp [leadPatterns]) k t
  have top := exec_numeral refused (r := topRe) (by simp [leadPatterns]) k t
  have most := exec_numeral refused (r := mostRe) (by simp [leadPatterns]) k t
  have limit := exec_numeral refused (r := limitRe) (by simp [leadPatterns]) k t
  have noSpace : (decimal k ++ t).head?.any isSpace = false := by
    obtain ⟨u, rest, eq, digit⟩ := decimal_cons k
    rw [eq]
    exact not_isSpace_of_isDigit digit
  rw [lex, noSpace]
  simp only [rules, List.findSome?_cons, saveRule, forgetRule, topRule, mostRule, limitRule, save, forget, top, most,
    limit, found, Option.map_none, Bool.false_eq_true, if_false]

theorem take9_refused : ((List.range 10).map fun n => UInt16.ofNat (48 + n)).all
    (fun u => refuses ((TIME_PATTERNS.take 9).map Prod.fst) [u]) = true := by decide +kernel

theorem take3_refused : ((List.range 10).map fun n => UInt16.ofNat (48 + n)).all
    (fun u => refuses (((TIME_PATTERNS.drop 10).take 3).map Prod.fst) [u]) = true := by decide +kernel

theorem lex_window (k : Nat) {u : CodeUnit} (window : u ∈ windowUnits) {t : Utf16} (spaced : Spaced t)
    (noSpace : Stops isSpace t.tail) (ago : startsAgo t.tail = false) (last : Option Token) :
    lex last ((decimal k ++ [u]) ++ t) = .whole (.time (unitParse (.ofNat k) [u])) (decimal k ++ [u]).length := by
  have noAgo : exec agoRe ((decimal k ++ [u]) ++ t) = none := by
    rw [List.append_assoc, List.singleton_append]
    cases t with
    | nil =>
        refine exec_of_fails (.cat fun c count => ?_)
        have rest := mem_countAndUnit k window spaced_nil count
        refine .cat fun d gap_ => ?_
        obtain ⟨v, run, split, -⟩ := mem_plus_one gap_
        rw [rest] at split
        cases split
    | cons v r =>
        obtain rfl := spaced v rfl
        exact exec_no_ago k window noSpace ago
  have compact := exec_compact k window spaced
  rw [List.append_assoc] at noAgo compact ⊢
  refine lex_numeral k ([u] ++ t) last ?_
  rw [timeRule, TIME_PATTERNS_split, List.findSome?_append, findSome?_numeral take9_refused, Option.none_or,
    List.findSome?_cons]
  simp only [noAgo, Option.map_none]
  rw [List.findSome?_append, findSome?_numeral take3_refused, Option.none_or]
  simp only [List.findSome?_cons, compact, Option.map_some, counted_window]

theorem lex_window_ago (k : Nat) {u : CodeUnit} (window : u ∈ windowUnits) {x y : Utf16}
    (same : toLowerCase x = ofString "ago") (outside : y.head?.any isWord = false) (last : Option Token) :
    lex last ((decimal k ++ u :: unit ' ' :: x) ++ y) =
      .whole (.time (unitParse (.ofNat k) [u])) (decimal k ++ u :: unit ' ' :: x).length := by
  have matched := exec_ago k window same outside
  rw [List.append_assoc] at matched ⊢
  refine lex_numeral k _ last ?_
  rw [timeRule, TIME_PATTERNS_split, List.findSome?_append, findSome?_numeral take9_refused, Option.none_or,
    List.findSome?_cons]
  simp only [matched, Option.map_some, counted_window]

end Errex.Proof.Spa
