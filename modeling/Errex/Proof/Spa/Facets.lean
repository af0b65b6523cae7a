import Errex.Proof.Spa.Tokenizer
import Errex.Model.Spa.QueryBridge

/-!
# How the tokenizer reads a printed facet

Each facet of a canonical text, followed by a space or by nothing, is read by the rule that it was printed for.
-/

namespace Errex.Proof.Spa
open Foundation Model Spa Utf16 Regex

def Spaced (t : Utf16) : Prop := ∀ u ∈ t.head?, u = unit ' '

theorem spaced_nil : Spaced [] := nofun

theorem spaced_cons (t : Utf16) : Spaced (unit ' ' :: t) := by
  intro u mem
  exact (Option.some.inj mem).symm

theorem Spaced.stops {t : Utf16} (spaced : Spaced t) (accepts : CodeUnit → Bool) (refused : accepts (unit ' ') = false) :
    Stops accepts t := by
  intro u mem
  rw [spaced u mem]
  exact refused

def refuses (patterns : List Regex) (known : Utf16) : Bool := patterns.all fun r => (r.leftovers known).isEmpty

theorem exec_refused {patterns : List Regex} {known : Utf16} (refused : refuses patterns known = true) {r : Regex}
    (mem : r ∈ patterns) (t : Utf16) : exec r (known ++ t) = none :=
  exec_of_fails (fails_of_leftovers (List.isEmpty_iff.mp (List.all_eq_true.mp refused r mem)) _ _ _)

def leadPatterns : List Regex := [saveRe, forgetRe, topRe, mostRe, limitRe]

def tailPatterns : List Regex := [opRe, savedRe, tagRe, urlRe]

def timePatterns : List Regex := TIME_PATTERNS.map Prod.fst

theorem timeRule_refused {known : Utf16} (refused : refuses timePatterns known = true) (t : Utf16) :
    timeRule (known ++ t) = none := by
  rw [timeRule, List.findSome?_eq_none_iff]
  intro pattern mem
  have none_ := exec_refused refused (List.mem_map_of_mem mem) t
  simp only [none_, Option.map_none]

def plainStart (known : Utf16) : Bool :=
  known.head?.any fun u => !isSpace u && u != unit '-' && !isQuote u

theorem plainStart_cons {known : Utf16} (plain : plainStart known = true) : ∃ u rest, known = u :: rest ∧
    isSpace u = false ∧ (u == unit '-') = false ∧ isQuote u = false := by
  cases known with
  | nil => cases plain
  | cons u rest =>
      have parts : (isSpace u = false ∧ ¬ u = unit '-') ∧ isQuote u = false := by
        simpa [plainStart] using plain
      exact ⟨u, rest, rfl, parts.1.1, beq_eq_false_iff_ne.mpr parts.1.2, parts.2⟩

theorem negRule_plain {known : Utf16} (plain : plainStart known = true) (t : Utf16) : negRule (known ++ t) = none := by
  obtain ⟨u, rest, rfl, -, sign, -⟩ := plainStart_cons plain
  rw [List.cons_append]
  cases rest ++ t with
  | nil => rfl
  | cons v tail => simp [negRule, beq_eq_false_iff_ne.mp sign]

theorem quotedRule_plain {known : Utf16} (plain : plainStart known = true) (t : Utf16) : quotedRule (known ++ t) = none := by
  obtain ⟨u, rest, rfl, -, -, quote⟩ := plainStart_cons plain
  have quote' : (u == unit '"') = false := quote
  simp [quotedRule, quote']

def reachesFields (known : Utf16) : Bool :=
  plainStart known && refuses leadPatterns known && refuses timePatterns known && refuses tailPatterns known

theorem lex_of_reachesFields {known : Utf16} (reaches : reachesFields known = true) (last : Option Token) (t : Utf16) :
    lex last (known ++ t) = match fieldRule (known ++ t) with
      | some lexed => lexed
      | none => (bareRule last (known ++ t)).getD ⟨[], 1⟩ := by
  simp only [reachesFields, Bool.and_eq_true] at reaches
  obtain ⟨⟨⟨plain, lead⟩, time⟩, tail⟩ := reaches
  have noSpace : (known ++ t).head?.any isSpace = false := by
    obtain ⟨u, rest, rfl, space, -, -⟩ := plainStart_cons plain
    simpa using space
  have save := exec_refused lead (r := saveRe) (by simp [leadPatterns]) t
  have forget := exec_refused lead (r := forgetRe) (by simp [leadPatterns]) t
  have top := exec_refused lead (r := topRe) (by simp [leadPatterns]) t
  have most := exec_refused lead (r := mostRe) (by simp [leadPatterns]) t
  have limit := exec_refused lead (r := limitRe) (by simp [leadPatterns]) t
  have op := exec_refused tail (r := opRe) (by simp [tailPatterns]) t
  have saved := exec_refused tail (r := savedRe) (by simp [tailPatterns]) t
  have tag := exec_refused tail (r := tagRe) (by simp [tailPatterns]) t
  have url := exec_refused tail (r := urlRe) (by simp [tailPatterns]) t
  have found : (rules.findSome? fun rule => rule (known ++ t)) = fieldRule (known ++ t) := by
    simp only [rules, List.findSome?_cons, List.findSome?_nil, saveRule, forgetRule, topRule, mostRule, limitRule, opRule,
      savedRule, tagRule, urlRule, save, forget, top, most, limit, op, saved, tag, url, Option.map_none,
      timeRule_refused time, negRule_plain plain, quotedRule_plain plain]
    cases fieldRule (known ++ t) <;> rfl
  rw [lex, noSpace, found]
  rfl

theorem exec_run {accepts : CodeUnit → Bool} {w t : Utf16} (some_ : w ≠ []) (all : ∀ u ∈ w, accepts u = true)
    (stops : Stops accepts t) : exec (plus (one accepts)) (w ++ t) = some ⟨w, []⟩ :=
  exec_append (First.plus_run some_ all stops none [])

theorem parseBareCsv_word {α : Type} (resolve : Utf16 → Option α) {w t : Utf16} (some_ : w ≠ [])
    (all : ∀ u ∈ w, isNameUnit u = true) (spaced : Spaced t) :
    parseBareCsv resolve (w ++ t) = (resolve (toLowerCase w)).map fun v => ([v], w.length) := by
  have fuel : ∃ n, (w ++ t).length = n + 1 := by
    obtain ⟨u, rest, rfl⟩ := List.exists_cons_of_ne_nil some_
    exact ⟨(rest ++ t).length, rfl⟩
  obtain ⟨n, fuel⟩ := fuel
  have matched := exec_run some_ all (spaced.stops isNameUnit (by decide))
  rw [parseBareCsv, fuel, bareValues, matched]
  cases found : resolve (toLowerCase w) with
  | none => simp [found]
  | some v =>
      cases t with
      | nil => simp [found]
      | cons u t =>
          have space := spaced u rfl
          subst space
          have comma : unit ' ' ≠ unit ',' := by decide
          simp [found, comma]

theorem isBareUnit_of_isNameUnit {u : CodeUnit} (name : isNameUnit u = true) : isBareUnit u = true := by
  simp only [isNameUnit, isBareUnit, Bool.or_eq_true] at name ⊢
  exact name.elim (fun h => .inl (.inl h)) .inr

theorem lex_word {w : Utf16} (reaches : reachesFields w = true) (noField : (fieldRe.leftovers w).isEmpty = true)
    (all : ∀ u ∈ w, isNameUnit u = true) {t : Utf16} (spaced : Spaced t) (last : Option Token) :
    lex last (w ++ t) = .whole (wordKind last w) w.length := by
  have some_ : w ≠ [] := by
    rintro rfl
    simp [reachesFields, plainStart] at reaches
  have field : fieldRule (w ++ t) = none := by
    rw [fieldRule, exec_of_fails (fails_of_leftovers (List.isEmpty_iff.mp noField) _ _ _), Option.map_none]
  have matched := exec_run some_ (fun u mem => isBareUnit_of_isNameUnit (all u mem))
    (spaced.stops isBareUnit (by decide))
  have csv : csvRule (w ++ t) = none := by
    rw [csvRule, parseBareCsv_word findLevel some_ all spaced, parseBareCsv_word findStatus some_ all spaced]
    cases findLevel (toLowerCase w) <;> cases findStatus (toLowerCase w) <;> rfl
  rw [lex_of_reachesFields reaches, field, bareRule, matched, csv]
  rfl

structure BareWord (accepts : CodeUnit → Bool) (w : Utf16) : Prop where
  nonempty : w ≠ []
  all : ∀ u ∈ w, accepts u = true

theorem BareWord.of_all {accepts : CodeUnit → Bool} {w : Utf16} (some_ : w.isEmpty = false) (all : w.all accepts = true) :
    BareWord accepts w :=
  ⟨by simpa using some_, List.all_eq_true.mp all⟩

theorem stops_values (accepts : CodeUnit → Bool) (comma : accepts (unit ',') = false) (space : accepts (unit ' ') = false)
    (parts : List Utf16) {t : Utf16} (spaced : Spaced t) :
    Stops accepts ((parts.flatMap fun part => unit ',' :: part) ++ t) := by
  cases parts with
  | nil => exact spaced.stops accepts space
  | cons part parts =>
      intro u mem
      rw [← Option.some.inj mem]
      exact comma

theorem bareValues_join {α : Type} {resolve : Utf16 → Option α} {name : α → Utf16}
    (resolved : ∀ a, resolve (toLowerCase (name a)) = some a) (bare : ∀ a, BareWord isNameUnit (name a)) {t : Utf16}
    (spaced : Spaced t) (values : List α) (a : α) (fuel : Nat) (enough : values.length < fuel) :
    bareValues resolve fuel (join ',' ((a :: values).map name) ++ t) =
      (a :: values, (join ',' ((a :: values).map name)).length) := by
  induction values generalizing a fuel with
  | nil =>
      obtain ⟨fuel, rfl⟩ : ∃ n, fuel = n + 1 := ⟨fuel - 1, by omega⟩
      have matched := exec_run (bare a).nonempty (bare a).all (spaced.stops isNameUnit (by decide))
      rw [List.map_cons, List.map_nil, join_cons, List.flatMap_nil, List.append_nil, bareValues, matched]
      cases t with
      | nil => simp [resolved]
      | cons u t =>
          have space := spaced u rfl
          subst space
          have comma : unit ' ' ≠ unit ',' := by decide
          simp [resolved, comma]
  | cons b values ih =>
      obtain ⟨fuel, rfl⟩ : ∃ n, fuel = n + 1 := ⟨fuel - 1, by omega⟩
      have matched := exec_run (bare a).nonempty (bare a).all
        (stops_values isNameUnit (by decide) (by decide) ((b :: values).map name) spaced)
      have later := ih b fuel (by simp only [List.length_cons] at enough; omega)
      rw [List.map_cons, join_cons, List.append_assoc, bareValues, matched]
      have tail : (((b :: values).map name).flatMap fun part => unit ',' :: part) ++ t =
          unit ',' :: (join ',' ((b :: values).map name) ++ t) := by
        rw [List.map_cons, List.flatMap_cons, join_cons]
        simp
      rw [tail]
      simp only [resolved, List.drop_left, later, beq_self_eq_true, if_true]
      rw [List.map_cons, List.flatMap_cons, join_cons]
      simp only [List.length_append, List.length_cons, Prod.mk.injEq, true_and]
      omega

theorem length_lt_join (parts : List Utf16) {part : Utf16} (first : part ≠ []) :
    parts.length < (join ',' (part :: parts)).length := by
  have some_ : 1 ≤ part.length := List.length_pos_of_ne_nil first
  rw [join_cons, List.length_append]
  have rest : parts.length ≤ (parts.flatMap fun other => unit ',' :: other).length := by
    induction parts with
    | nil => rfl
    | cons other parts ih => simp only [List.flatMap_cons, List.length_append, List.length_cons]; omega
  omega

theorem levelName_bare (l : Level) : BareWord isNameUnit (levelName l) := by
  cases l <;> exact .of_all rfl (by decide)

theorem findLevel_levelName (l : Level) : findLevel (toLowerCase (levelName l)) = some l := by cases l <;> decide

theorem levelName_reaches (l : Level) :
    reachesFields (levelName l) = true ∧ (fieldRe.leftovers (levelName l)).isEmpty = true := by
  cases l <;> decide +kernel

theorem lex_levels (l : Level) (ls : List Level) {t : Utf16} (spaced : Spaced t) (last : Option Token) :
    lex last (join ',' ((l :: ls).map levelName) ++ t) =
      .whole (.level (l :: ls)) (join ',' ((l :: ls).map levelName)).length := by
  obtain ⟨reaches, noField⟩ := levelName_reaches l
  cases ls with
  | nil =>
      have kind : wordKind last (levelName l) = .level [l] := by
        simp only [wordKind, findLevel_levelName]
      have single : join ',' ([l].map levelName) = levelName l := by simp [join_cons]
      rw [single, lex_word reaches noField (levelName_bare l).all spaced, kind]
  | cons l' ls =>
      have parsed := bareValues_join findLevel_levelName levelName_bare spaced (l' :: ls) l
        (join ',' ((l :: l' :: ls).map levelName) ++ t).length (by
          have short := length_lt_join ((l' :: ls).map levelName) (levelName_bare l).nonempty
          rw [List.length_append, List.map_cons]
          rw [List.length_map] at short
          omega)
      have csv : csvRule (join ',' ((l :: l' :: ls).map levelName) ++ t) =
          some (.whole (.level (l :: l' :: ls)) (join ',' ((l :: l' :: ls).map levelName)).length) := by
        rw [csvRule, parseBareCsv, parsed]
      have matched := exec_run (levelName_bare l).nonempty
        (fun u mem => isBareUnit_of_isNameUnit ((levelName_bare l).all u mem))
        (stops_values isBareUnit (by decide) (by decide) ((l' :: ls).map levelName) spaced)
      have split : join ',' ((l :: l' :: ls).map levelName) ++ t =
          levelName l ++ ((((l' :: ls).map levelName).flatMap fun part => unit ',' :: part) ++ t) := by
        rw [List.map_cons, join_cons, List.append_assoc]
      have field : fieldRule (join ',' ((l :: l' :: ls).map levelName) ++ t) = none := by
        rw [split, fieldRule, exec_of_fails (fails_of_leftovers (List.isEmpty_iff.mp noField) _ _ _), Option.map_none]
      have whole := lex_of_reachesFields reaches last ((((l' :: ls).map levelName).flatMap fun part => unit ',' :: part) ++ t)
      rw [← split, field] at whole
      rw [← split] at matched
      rw [whole, bareRule, matched, csv]
      rfl

theorem first_moreValues {parts : List Utf16} (bare : ∀ part ∈ parts, BareWord isBareUnit part) {t : Utf16}
    (spaced : Spaced t) (before : Option CodeUnit) (groups : List (Nat × Utf16)) :
    ∃ before', First (star (cat (one (· == unit ',')) (plus (one isBareUnit))))
      ⟨before, (parts.flatMap fun part => unit ',' :: part) ++ t, groups⟩ ⟨before', t, groups⟩ := by
  induction parts generalizing before with
  | nil =>
      refine ⟨before, .star_stop (.cat fun d mem => ?_)⟩
      have fails := fails_one_of_stops (spaced.stops (· == unit ',') (by decide)) before groups
      rw [List.flatMap_nil, List.nil_append, fails] at mem
      cases mem
  | cons part parts ih =>
      obtain ⟨nonempty, all⟩ := bare part List.mem_cons_self
      have comma := @First.one (· == unit ',') (unit ',') (by decide) before
        (part ++ ((parts.flatMap fun other => unit ',' :: other) ++ t)) groups
      have run := First.plus_run nonempty all
        (stops_values isBareUnit (by decide) (by decide) parts spaced) (some (unit ',')) groups
      obtain ⟨before', rest⟩ := ih (fun other mem => bare other (List.mem_cons_of_mem _ mem))
        (part.getLast?.or (some (unit ',')))
      refine ⟨before', First.star_step (d := ⟨part.getLast?.or (some (unit ',')),
        (parts.flatMap fun other => unit ',' :: other) ++ t, groups⟩) ?_ ?_ rest⟩
      · simpa only [Cursor.pass, List.flatMap_cons, List.cons_append, List.append_assoc] using comma.cat run
      · simp only [List.flatMap_cons, List.length_append, List.length_cons]
        omega

theorem first_bareList {part : Utf16} {parts : List Utf16} (bare : ∀ w ∈ part :: parts, BareWord isBareUnit w) {t : Utf16}
    (spaced : Spaced t) (before : Option CodeUnit) (groups : List (Nat × Utf16)) :
    ∃ before', First bareList ⟨before, join ',' (part :: parts) ++ t, groups⟩ ⟨before', t, groups⟩ := by
  obtain ⟨nonempty, all⟩ := bare part List.mem_cons_self
  have run := First.plus_run nonempty all
    (stops_values isBareUnit (by decide) (by decide) parts spaced) before groups
  obtain ⟨before', rest⟩ := first_moreValues (fun w mem => bare w (List.mem_cons_of_mem _ mem)) spaced
    (part.getLast?.or before) groups
  refine ⟨before', ?_⟩
  rw [join_cons, List.append_assoc]
  exact run.cat rest

theorem not_isSpace_of_isBareUnit {u : CodeUnit} (bare : isBareUnit u = true) : isSpace u = false := by
  rw [← Bool.not_eq_true]
  intro space
  simp only [isBareUnit, isWord, isDigit, isUpper, isLower, isSpace, UInt16.le_iff_toNat_le, Bool.or_eq_true,
    Bool.and_eq_true, decide_eq_true_eq, beq_iff_eq, ← UInt16.toNat_inj] at bare space
  simp [unit] at bare space
  omega

theorem listed_join {part : Utf16} {parts : List Utf16} (bare : ∀ w ∈ part :: parts, BareWord isBareUnit w) :
    listed (join ',' (part :: parts)) = part :: parts := by
  have plain : ∀ w ∈ part :: parts, unit ',' ∉ w := fun w mem inside =>
    absurd ((bare w mem).all _ inside) (by decide)
  have trimmed : (part :: parts).map trim = part :: parts := by
    rw [List.map_congr_left (g := id), List.map_id]
    exact fun w mem => trim_of_no_space fun u inside => not_isSpace_of_isBareUnit ((bare w mem).all u inside)
  rw [listed, splitComma_join (List.cons_ne_nil _ _) plain, trimmed, List.filter_eq_self]
  intro w mem
  simpa using (bare w mem).nonempty

theorem fieldRule_list {field : Utf16} {part : Utf16} {parts : List Utf16} {t : Utf16} {before : Option CodeUnit}
    (named : ∀ x, First (words ["level", "status", "text", "is", "has", "sort"]) ⟨none, field ++ x, []⟩ ⟨before, x, []⟩)
    (bare : ∀ w ∈ part :: parts, BareWord isBareUnit w) (spaced : Spaced t) :
    fieldRule ((field ++ unit ':' :: join ',' (part :: parts)) ++ t) =
      some ⟨(fieldKinds (toLowerCase field) (part :: parts)).map fun kind =>
          ⟨kind, (0, (field ++ unit ':' :: join ',' (part :: parts)).length)⟩,
        (field ++ unit ':' :: join ',' (part :: parts)).length⟩ := by
  have noSpace : Stops isSpace (join ',' (part :: parts) ++ t) := by
    obtain ⟨nonempty, all⟩ := bare part List.mem_cons_self
    obtain ⟨u, rest, rfl⟩ := List.exists_cons_of_ne_nil nonempty
    rw [join_cons]
    intro v mem
    rw [← Option.some.inj mem]
    exact not_isSpace_of_isBareUnit (all u List.mem_cons_self)
  obtain ⟨before', values⟩ := first_bareList bare spaced (some (unit ':')) [(1, field)]
  have whole : First fieldRe (Cursor.start ((field ++ unit ':' :: join ',' (part :: parts)) ++ t))
      ⟨before', t, [(2, join ',' (part :: parts)), (1, field)]⟩ := by
    have lead := First.group_append (k := 1) (named (unit ':' :: (join ',' (part :: parts) ++ t)))
    have gap₁ := First.star_stop (@Fails.one isSpace (unit ':') (by decide) before
      (join ',' (part :: parts) ++ t) [(1, field)])
    have colon := @First.one (· == unit ':') (unit ':') (by decide) before
      (join ',' (part :: parts) ++ t) [(1, field)]
    have gap₂ := First.star_stop (fails_one_of_stops noSpace (some (unit ':')) [(1, field)])
    have sequence : First fieldRe ⟨none, field ++ unit ':' :: (join ',' (part :: parts) ++ t), []⟩
        ⟨before', t, [(2, join ',' (part :: parts)), (1, field)]⟩ :=
      lead.cat (gap₁.cat (colon.cat (gap₂.cat (First.group_append (k := 2) values))))
    simpa only [Cursor.start, List.append_assoc, List.cons_append] using sequence
  rw [fieldRule, exec_append whole, Option.map_some]
  have first : Match.group ⟨(field ++ unit ':' :: join ',' (part :: parts)), [(2, join ',' (part :: parts)), (1, field)]⟩ 1 =
      some field := rfl
  have second : Match.group ⟨(field ++ unit ':' :: join ',' (part :: parts)), [(2, join ',' (part :: parts)), (1, field)]⟩ 2 =
      some (join ',' (part :: parts)) := rfl
  simp only [first, second, Option.getD_some, listed_join bare]

theorem lex_field (field : Utf16) (before : Option CodeUnit) {part : Utf16} {parts : List Utf16} {t : Utf16}
    (reaches : reachesFields (field ++ [unit ':']) = true)
    (named : ∀ x, First (words ["level", "status", "text", "is", "has", "sort"]) ⟨none, field ++ x, []⟩ ⟨before, x, []⟩)
    (bare : ∀ w ∈ part :: parts, BareWord isBareUnit w) (spaced : Spaced t) (last : Option Token) :
    lex last ((field ++ unit ':' :: join ',' (part :: parts)) ++ t) =
      ⟨(fieldKinds (toLowerCase field) (part :: parts)).map fun kind =>
          ⟨kind, (0, (field ++ unit ':' :: join ',' (part :: parts)).length)⟩,
        (field ++ unit ':' :: join ',' (part :: parts)).length⟩ := by
  have split : (field ++ unit ':' :: join ',' (part :: parts)) ++ t =
      (field ++ [unit ':']) ++ (join ',' (part :: parts) ++ t) := by simp
  have lexed := lex_of_reachesFields reaches last (join ',' (part :: parts) ++ t)
  rw [← split, fieldRule_list named bare spaced] at lexed
  exact lexed

theorem statusName_bare (s : IssueStatus) : BareWord isBareUnit (statusName s) := by
  cases s <;> exact .of_all rfl (by decide)

theorem findStatus_statusName (s : IssueStatus) : findStatus (toLowerCase (statusName s)) = some s := by
  cases s <;> decide

theorem lex_statuses (s : IssueStatus) (ss : List IssueStatus) {t : Utf16} (spaced : Spaced t) (last : Option Token) :
    lex last ((ofString "status:" ++ join ',' ((s :: ss).map statusName)) ++ t) =
      .whole (.status (s :: ss)) (ofString "status:" ++ join ',' ((s :: ss).map statusName)).length := by
  have bare : ∀ w ∈ statusName s :: ss.map statusName, BareWord isBareUnit w := by
    intro w mem
    obtain ⟨a, -, rfl⟩ := List.mem_map.mp (show w ∈ (s :: ss).map statusName from mem)
    exact statusName_bare a
  have kinds : fieldKinds (toLowerCase (ofString "status")) (statusName s :: ss.map statusName) = [.status (s :: ss)] := by
    have found : (statusName s :: ss.map statusName).filterMap (fun v => findStatus (toLowerCase v)) = s :: ss := by
      rw [← List.map_cons, List.filterMap_map]
      exact (List.filterMap_congr fun a _ => findStatus_statusName a).trans List.filterMap_some
    have level : (toLowerCase (ofString "status") == ofString "level") = false := by decide
    have status : (toLowerCase (ofString "status") == ofString "status") = true := by decide
    simp only [fieldKinds, level, status, if_true, Bool.false_eq_true, if_false, found]
  have read := lex_field (ofString "status") (some (unit 's')) (by decide +kernel) (fun _ => rfl) bare
    spaced last
  rw [kinds] at read
  exact read

theorem lex_sort {key : SortKey} (bare : BareWord isBareUnit (ofString key.name))
    (found : index sortMap (toLowerCase (ofString key.name)) = some (.own key)) {t : Utf16} (spaced : Spaced t)
    (last : Option Token) :
    lex last ((ofString "sort:" ++ ofString key.name) ++ t) =
      .whole (.sort (.own key)) (ofString "sort:" ++ ofString key.name).length := by
  have kinds : fieldKinds (toLowerCase (ofString "sort")) [ofString key.name] = [.sort (.own key)] := by
    have other : ∀ field ∈ ["level", "status", "text", "is", "has"],
        (toLowerCase (ofString "sort") == ofString field) = false := by decide
    have sort : (toLowerCase (ofString "sort") == ofString "sort") = true := by decide
    simp [fieldKinds, other "level", other "status", other "text", other "is", other "has", sort, found]
  have single_ : ∀ w ∈ [ofString key.name], BareWord isBareUnit w := List.forall_mem_singleton.mpr bare
  have read := lex_field (ofString "sort") (some (unit 't')) (by decide +kernel)
    (fun _ => rfl) single_ spaced last
  rw [kinds] at read
  have single : join ',' [ofString key.name] = ofString key.name := by simp [join_cons]
  rw [single] at read
  exact read

theorem setEqualsDefaultStatuses_iff (s : Finset IssueStatus) : setEqualsDefaultStatuses s = true ↔ s = {.unresolved} := by
  have member : (∀ v ∈ STATUS_DEFAULT, v ∈ s) ↔ STATUS_DEFAULT ⊆ s := Iff.rfl
  simp only [setEqualsDefaultStatuses, Bool.and_eq_true, beq_iff_eq, decide_eq_true_eq, member]
  constructor
  · exact fun ⟨card, subset⟩ => (Finset.eq_of_subset_of_card_le subset card.le).symm
  · rintro rfl
    exact ⟨rfl, Finset.Subset.refl _⟩

end Errex.Proof.Spa
