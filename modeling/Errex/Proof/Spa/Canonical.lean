import Errex.Proof.Spa.Windows

/-!
# Reading the canonical text again

The printed facets are read back as they were printed. The free text behind them is not quoted, so what it is read
as decides whether the canonical text gives the same filter (`canonical_iff`).
-/

namespace Errex.Proof.Spa
open Foundation Model Spa Utf16 Regex

def token (kind : TokenKind) : Token := ⟨kind, (0, 0)⟩

/-- A facet that is read as one token, whatever comes behind the space after it. -/
structure Firm (text : Utf16) (kind : TokenKind) : Prop where
  /-- It does not begin like the word `ago`. -/
  start : ∃ u rest, text = u :: rest ∧ isSpace u = false ∧ lower u ≠ unit 'a'
  reads : ∀ last t, Spaced t → lex last (text ++ t) = .whole kind text.length

def after (last : Option Token) (ks : List TokenKind) : Option Token := (ks.getLast?.map token).or last

theorem after_append (last : Option Token) (ks ks' : List TokenKind) : after (after last ks) ks' = after last (ks ++ ks') := by
  rw [after, after, after, List.getLast?_append]
  cases ks'.getLast? <;> rfl

theorem after_cons (last : Option Token) (kind : TokenKind) (ks : List TokenKind) :
    after (some (token kind)) ks = after last (kind :: ks) := after_append last [kind] ks

theorem kinds_step {text : Utf16} {kind : TokenKind} {last : Option Token} {t : Utf16} (nonempty : text ≠ [])
    (reads : lex last (text ++ t) = .whole kind text.length) :
    kinds last (text ++ t) = kind :: kinds (some (token kind)) t := by
  rw [kinds_eq last (List.append_ne_nil_of_left_ne_nil nonempty t), reads, Lexed.whole, List.drop_left]
  refine congrArg (kind :: ·) (kinds_last ?_ t)
  rfl

theorem Firm.nonempty {text : Utf16} {kind : TokenKind} (firm : Firm text kind) : text ≠ [] := by
  obtain ⟨u, rest, rfl, -⟩ := firm.start
  exact List.cons_ne_nil _ _

def spacedOut (texts : List Utf16) : Utf16 := texts.flatMap fun text => unit ' ' :: text

theorem spaced_spacedOut (texts : List Utf16) {t : Utf16} (spaced : Spaced t) : Spaced (spacedOut texts ++ t) := by
  cases texts with
  | nil => exact spaced
  | cons text texts => exact spaced_cons _

theorem kinds_firm {texts : List Utf16} {ks : List TokenKind} (firm : List.Forall₂ Firm texts ks) {t : Utf16}
    (spaced : Spaced t) (last : Option Token) :
    kinds last (spacedOut texts ++ t) = ks ++ kinds (after last ks) t := by
  induction firm generalizing last with
  | nil => rfl
  | @cons text kind texts ks here _ ih =>
      have read := kinds_step here.nonempty (here.reads last (spacedOut texts ++ t) (spaced_spacedOut texts spaced))
      rw [spacedOut, List.flatMap_cons, List.cons_append, List.cons_append, kinds_space last (by decide),
        List.append_assoc]
      rw [← spacedOut, read, ih, after_cons last, List.cons_append]

theorem kinds_join (last : Option Token) (texts : List Utf16) : kinds last (join ' ' texts) = kinds last (spacedOut texts) := by
  cases texts with
  | nil => rfl
  | cons text texts =>
      rw [join_cons, spacedOut, List.flatMap_cons, List.cons_append, kinds_space last (by decide)]

def levelFacet (f : FilterStore) : List Utf16 :=
  if 0 < f.levels.card then [join ',' ((LEVEL_ORDER.filter (· ∈ f.levels)).map levelName)] else []

def levelKinds (f : FilterStore) : List TokenKind :=
  if 0 < f.levels.card then [.level (LEVEL_ORDER.filter (· ∈ f.levels))] else []

def statusFacet (f : FilterStore) : List Utf16 :=
  if setEqualsDefaultStatuses f.statuses then []
  else [ofString "status:" ++ join ',' ((STATUS_ORDER.filter (· ∈ f.statuses)).map statusName)]

def statusKinds (f : FilterStore) : List TokenKind :=
  if setEqualsDefaultStatuses f.statuses then [] else [.status (STATUS_ORDER.filter (· ∈ f.statuses))]

def flagFacet (flag : Bool) (text : String) : List Utf16 := if flag then [ofString text] else []

def flagKinds (flag : Bool) (keyword : FilterKeyword) : List TokenKind := if flag then [.keyword (.own keyword)] else []

def sortFacet (f : FilterStore) : List Utf16 :=
  if f.sort == .own .recent then [] else [ofString "sort:" ++ sortText f.sort]

def sortKinds (f : FilterStore) : List TokenKind := if f.sort == .own .recent then [] else [.sort f.sort]

def limitFacet (f : FilterStore) : List Utf16 := (f.limit.map fun n => ofString "limit:" ++ n.toText).toList

def limitKinds (f : FilterStore) : List TokenKind := (f.limit.map TokenKind.limit).toList

def windowFacet (f : FilterStore) : List Utf16 := (f.sinceMs.map formatSince).toList

def windowMs (f : FilterStore) : Option Double := f.sinceMs.bind fun
  | .own ms => some ms
  | .inherited _ => none

def windowKinds (f : FilterStore) : List TokenKind := ((windowMs f).map TokenKind.time).toList

def tailFacets (f : FilterStore) : List Utf16 :=
  flagFacet f.spikingOnly "spiking" ++ flagFacet f.newOnly "new" ++ flagFacet f.staleOnly "stale" ++ sortFacet f ++
    limitFacet f

def tailKinds (f : FilterStore) : List TokenKind :=
  flagKinds f.spikingOnly .spiking ++ flagKinds f.newOnly .new ++ flagKinds f.staleOnly .stale ++ sortKinds f ++
    limitKinds f

def facetKinds (f : FilterStore) : List TokenKind := levelKinds f ++ statusKinds f ++ windowKinds f ++ tailKinds f

theorem facets_eq (f : FilterStore) :
    facets f = (levelFacet f ++ statusFacet f) ++ (windowFacet f ++ tailFacets f) := by
  simp only [facets, levelFacet, statusFacet, windowFacet, tailFacets, flagFacet, sortFacet, limitFacet, List.append_assoc]

/-- A store whose facets are printed in a form that the tokenizer knows. -/
structure Printable (f : FilterStore) : Prop where
  statuses : f.statuses ≠ ∅
  /-- The printed window is digits and a unit, and these multiply back to the window. -/
  window : ∀ ms ∈ f.sinceMs, ∃ k, ∃ u ∈ windowUnits, formatSince ms = decimal k ++ [u] ∧ ms = .own (unitParse (.ofNat k) [u])
  sort : ∃ key, f.sort = .own key
  limit : ∀ n ∈ f.limit, n.isAtMost (10 ^ 21 - 1) = true

theorem firm_levels (f : FilterStore) : List.Forall₂ Firm (levelFacet f) (levelKinds f) := by
  rw [levelFacet, levelKinds]
  split
  · rename_i some_
    obtain ⟨l, mem⟩ := Finset.card_pos.mp some_
    have complete : l ∈ LEVEL_ORDER := by cases l <;> decide
    cases levels : LEVEL_ORDER.filter (· ∈ f.levels) with
    | nil =>
        have inside : l ∈ LEVEL_ORDER.filter (· ∈ f.levels) := List.mem_filter.mpr ⟨complete, by simpa using mem⟩
        rw [levels] at inside
        cases inside
    | cons l ls =>
        refine .cons ⟨?_, fun last t spaced => lex_levels l ls spaced last⟩ .nil
        rw [List.map_cons, join_cons]
        cases l <;> exact ⟨_, _, rfl, by decide, by decide⟩
  · exact .nil

theorem firm_statuses {f : FilterStore} (statuses : f.statuses ≠ ∅) : List.Forall₂ Firm (statusFacet f) (statusKinds f) := by
  rw [statusFacet, statusKinds]
  split
  · exact .nil
  · obtain ⟨s, mem⟩ := Finset.nonempty_iff_ne_empty.mpr statuses
    have complete : s ∈ STATUS_ORDER := by cases s <;> decide
    cases list : STATUS_ORDER.filter (· ∈ f.statuses) with
    | nil =>
        have inside : s ∈ STATUS_ORDER.filter (· ∈ f.statuses) := List.mem_filter.mpr ⟨complete, by simpa using mem⟩
        rw [list] at inside
        cases inside
    | cons s ss => exact .cons ⟨⟨_, _, rfl, by decide, by decide⟩, fun last t spaced => lex_statuses s ss spaced last⟩ .nil

theorem firm_flag (flag : Bool) (text : String) (keyword : FilterKeyword)
    (checked : (reachesFields (ofString text) && (fieldRe.leftovers (ofString text)).isEmpty &&
      (ofString text).all isNameUnit && (ofString text).head?.all fun u => lower u != unit 'a') = true)
    (kind : ∀ last, wordKind last (ofString text) = .keyword (.own keyword)) :
    List.Forall₂ Firm (flagFacet flag text) (flagKinds flag keyword) := by
  simp only [Bool.and_eq_true] at checked
  obtain ⟨⟨⟨reaches, noField⟩, all⟩, head⟩ := checked
  cases flag with
  | false => exact .nil
  | true =>
      refine .cons ⟨?_, fun last t spaced => ?_⟩ .nil
      · simp only [reachesFields, Bool.and_eq_true] at reaches
        obtain ⟨u, rest, eq, space, -⟩ := plainStart_cons reaches.1.1.1
        rw [eq] at head
        exact ⟨u, rest, eq, space, by simpa using head⟩
      · rw [lex_word reaches noField (List.all_eq_true.mp all) spaced, kind]

theorem firm_sort {f : FilterStore} (sort : ∃ key, f.sort = .own key) : List.Forall₂ Firm (sortFacet f) (sortKinds f) := by
  obtain ⟨key, eq⟩ := sort
  rw [sortFacet, sortKinds, eq]
  split
  · exact .nil
  · have bare : BareWord isBareUnit (ofString key.name) := by cases key <;> exact .of_all rfl (by decide)
    have found : index sortMap (toLowerCase (ofString key.name)) = some (.own key) := by cases key <;> decide
    exact .cons ⟨⟨_, _, rfl, by decide, by decide⟩, fun last t spaced => lex_sort bare found spaced last⟩ .nil

theorem firm_limit {f : FilterStore} (limit : ∀ n ∈ f.limit, n.isAtMost (10 ^ 21 - 1) = true) :
    List.Forall₂ Firm (limitFacet f) (limitKinds f) := by
  rw [limitFacet, limitKinds]
  cases eq : f.limit with
  | none => exact .nil
  | some n =>
      obtain ⟨k, text, value⟩ := Double.toText_plain (limit n eq)
      refine .cons ⟨⟨_, _, rfl, by decide, by decide⟩, fun last t spaced => ?_⟩ .nil
      change lex last ((ofString "limit:" ++ n.toText) ++ t) = .whole (.limit n) (ofString "limit:" ++ n.toText).length
      rw [text, lex_limit k spaced, value]

theorem firm_tail {f : FilterStore} (printable : Printable f) : List.Forall₂ Firm (tailFacets f) (tailKinds f) := by
  have spiking := firm_flag f.spikingOnly "spiking" .spiking (by decide +kernel) (fun _ => rfl)
  have new := firm_flag f.newOnly "new" .new (by decide +kernel) (fun _ => rfl)
  have stale := firm_flag f.staleOnly "stale" .stale (by decide +kernel) (fun _ => rfl)
  exact List.rel_append (List.rel_append (List.rel_append (List.rel_append spiking new) stale) (firm_sort printable.sort))
    (firm_limit printable.limit)

/-- The word `ago` at the start of the free text goes to a window in front of it. -/
def swallowsAgo (f : FilterStore) : Bool := f.sinceMs.isSome && (tailFacets f).isEmpty && startsAgo (trim f.query)

def remainder (f : FilterStore) : Utf16 := if swallowsAgo f then (trim f.query).drop 3 else trim f.query

def residue (f : FilterStore) : Query :=
  buildQuery (tokenizeFrom (remainder f).length 0 (after none (facetKinds f)) (remainder f))

def freePart (f : FilterStore) : Utf16 := spacedOut (if 0 < (trim f.query).length then [trim f.query] else [])

theorem freePart_eq (f : FilterStore) : freePart f = [] ∧ trim f.query = [] ∨ freePart f = unit ' ' :: trim f.query := by
  rw [freePart]
  split
  · exact .inr (by simp [spacedOut])
  · rename_i blank
    exact .inl ⟨rfl, List.eq_nil_of_length_eq_zero (by omega)⟩

theorem kinds_freePart (last : Option Token) (f : FilterStore) : kinds last (freePart f) = kinds last (trim f.query) := by
  rcases freePart_eq f with ⟨part, text⟩ | part
  · rw [part, text]
  · rw [part, kinds_space last (by decide)]

theorem freePart_spaced (f : FilterStore) : Spaced (freePart f) ∧ (freePart f).tail = trim f.query := by
  rcases freePart_eq f with ⟨part, text⟩ | part
  · rw [part, text]
    exact ⟨spaced_nil, rfl⟩
  · rw [part]
    exact ⟨spaced_cons _, rfl⟩

theorem not_startsAgo {u : CodeUnit} {r : Utf16} (ne : lower u ≠ unit 'a') : startsAgo (u :: r) = false := by
  rw [← Bool.not_eq_true]
  intro ago
  obtain ⟨x, y, split, same, -⟩ := startsAgo_iff.mp ago
  obtain ⟨v, x, rfl⟩ := List.exists_cons_of_ne_nil (ago_letters same).1
  obtain rfl := (List.cons.inj split).1
  exact ne (List.cons.inj same).1

def behindWindow (f : FilterStore) : Utf16 := spacedOut (tailFacets f) ++ freePart f

theorem behindWindow_tail {f : FilterStore} (printable : Printable f) :
    Stops isSpace (behindWindow f).tail ∧
      startsAgo (behindWindow f).tail = ((tailFacets f).isEmpty && startsAgo (trim f.query)) := by
  have firm := firm_tail printable
  rw [behindWindow]
  generalize tailFacets f = texts, tailKinds f = ks at firm ⊢
  cases firm with
  | nil =>
      rw [spacedOut, List.flatMap_nil, List.nil_append, (freePart_spaced f).2]
      exact ⟨trim_head _, rfl⟩
  | @cons text kind texts ks here rest =>
      obtain ⟨u, tail, rfl, space, ne⟩ := here.start
      rw [spacedOut, List.flatMap_cons, List.cons_append, List.cons_append, List.tail_cons, List.cons_append,
        List.cons_append, not_startsAgo ne]
      refine ⟨?_, rfl⟩
      intro v mem
      rw [← Option.some.inj mem]
      exact space

theorem kinds_behindWindow {f : FilterStore} (printable : Printable f) (last : Option Token) :
    kinds last (behindWindow f) = tailKinds f ++ kinds (after last (tailKinds f)) (trim f.query) := by
  rw [behindWindow, kinds_firm (firm_tail printable) (freePart_spaced f).1, kinds_freePart]

theorem kinds_window {f : FilterStore} (printable : Printable f) (last : Option Token) :
    kinds last (spacedOut (windowFacet f) ++ behindWindow f) =
      windowKinds f ++ tailKinds f ++ kinds (after last (windowKinds f ++ tailKinds f)) (remainder f) := by
  cases window : f.sinceMs with
  | none =>
      have noFacet : windowFacet f = [] := by rw [windowFacet, window]; rfl
      have noKind : windowKinds f = [] := by rw [windowKinds, windowMs, window]; rfl
      have rest : remainder f = trim f.query := by rw [remainder, swallowsAgo, window]; rfl
      rw [noFacet, noKind, rest, List.nil_append]
      exact kinds_behindWindow printable last
  | some ms =>
      obtain ⟨k, u, unit_, text, rfl⟩ := printable.window ms window
      have facet : windowFacet f = [decimal k ++ [u]] := by rw [windowFacet, window, Option.map_some, text]; rfl
      have kind : windowKinds f = [.time (unitParse (.ofNat k) [u])] := by rw [windowKinds, windowMs, window]; rfl
      have split : spacedOut [decimal k ++ [u]] ++ behindWindow f = unit ' ' :: ((decimal k ++ [u]) ++ behindWindow f) := by
        simp [spacedOut]
      obtain ⟨noSpace, ago⟩ := behindWindow_tail printable
      have swallows : swallowsAgo f = startsAgo (behindWindow f).tail := by
        rw [swallowsAgo, window, ago, Option.isSome_some, Bool.true_and]
      rw [facet, kind, split, kinds_space last (by decide), List.singleton_append, List.cons_append]
      cases taken : startsAgo (behindWindow f).tail with
      | false =>
          have spaced : Spaced (behindWindow f) := spaced_spacedOut _ (freePart_spaced f).1
          have rest : remainder f = trim f.query := by rw [remainder, swallows, taken]; rfl
          rw [kinds_step (List.append_ne_nil_of_left_ne_nil (decimal_ne_nil k) _)
            (lex_window k unit_ spaced noSpace taken last), kinds_behindWindow printable, rest, after_cons last]
      | true =>
          rw [ago, Bool.and_eq_true] at taken
          obtain ⟨alone, starts⟩ := taken
          have noTail : tailFacets f = [] := List.isEmpty_iff.mp alone
          have noKinds : tailKinds f = [] := by
            have firm := firm_tail printable
            rw [noTail] at firm
            exact List.forall₂_nil_left_iff.mp firm
          have rest : remainder f = (trim f.query).drop 3 := by
            rw [remainder, swallows, ago, alone, starts]
            rfl
          obtain ⟨x, y, query, same, outside⟩ := startsAgo_iff.mp starts
          have three : x.length = 3 := by
            have := congrArg List.length same
            rwa [toLowerCase, List.length_map] at this
          have part : behindWindow f = unit ' ' :: (x ++ y) := by
            rw [behindWindow, noTail, spacedOut, List.flatMap_nil, List.nil_append, ← query]
            rcases freePart_eq f with ⟨-, blank⟩ | part
            · rw [blank] at starts
              cases starts
            · exact part
          have whole : (decimal k ++ [u]) ++ unit ' ' :: (x ++ y) = (decimal k ++ u :: unit ' ' :: x) ++ y := by simp
          rw [part, whole, kinds_step (List.append_ne_nil_of_left_ne_nil (decimal_ne_nil k) _)
            (lex_window_ago k unit_ same outside last), rest, query, ← three, List.drop_left, noKinds]
          rfl

theorem kinds_canonical {f : FilterStore} (printable : Printable f) :
    kinds none (filterToQueryString f) = facetKinds f ++ kinds (after none (facetKinds f)) (remainder f) := by
  have shape : spacedOut (facets f ++ if 0 < (trim f.query).length then [trim f.query] else []) =
      spacedOut (levelFacet f ++ statusFacet f) ++ (spacedOut (windowFacet f) ++ behindWindow f) := by
    simp only [facets_eq, spacedOut, behindWindow, freePart, List.flatMap_append, List.append_assoc]
  have spaced : Spaced (spacedOut (windowFacet f) ++ behindWindow f) :=
    spaced_spacedOut _ (spaced_spacedOut _ (freePart_spaced f).1)
  have lead := kinds_firm (List.rel_append (firm_levels f) (firm_statuses printable.statuses)) spaced none
  rw [filterToQueryString, kinds_join, shape, lead, kinds_window printable, after_append]
  simp only [facetKinds, List.append_assoc]

def facetQuery (f : FilterStore) : Query :=
  { Query.empty with
    levels := f.levels
    statuses := if setEqualsDefaultStatuses f.statuses then ∅ else f.statuses
    sinceMs := windowMs f
    spiking := f.spikingOnly
    newOnly := f.newOnly
    staleOnly := f.staleOnly
    sort := if f.sort == .own .recent then none else some f.sort
    limit := f.limit }

def build (q : Query) (ks : List TokenKind) : Query := buildFrom q false (ks.map token)

theorem toFinset_filter {α : Type} [DecidableEq α] {order : List α} (complete : ∀ a, a ∈ order) (s : Finset α) :
    (order.filter (· ∈ s)).toFinset = s := by
  ext a
  simp [complete]

theorem build_levels (q : Query) (f : FilterStore) : build q (levelKinds f) = { q with levels := q.levels ∪ f.levels } := by
  rw [build, levelKinds]
  split
  · have members := toFinset_filter (show ∀ l, l ∈ LEVEL_ORDER by intro l; cases l <;> decide) f.levels
    simp only [List.map_cons, List.map_nil, token, buildFrom, Query.add, members]
    rfl
  · rename_i none_
    have blank : f.levels = ∅ := Finset.card_eq_zero.mp (by omega)
    simp [buildFrom, blank]

theorem build_statuses (q : Query) (f : FilterStore) : build q (statusKinds f) =
    { q with statuses := q.statuses ∪ if setEqualsDefaultStatuses f.statuses then ∅ else f.statuses } := by
  rw [build, statusKinds]
  split
  · simp [buildFrom]
  · have members := toFinset_filter (show ∀ s, s ∈ STATUS_ORDER by intro s; cases s <;> decide) f.statuses
    simp only [List.map_cons, List.map_nil, token, buildFrom, Query.add, members]
    rfl

theorem build_window (q : Query) (f : FilterStore) :
    build q (windowKinds f) = { q with sinceMs := (windowMs f).or q.sinceMs } := by
  rw [build, windowKinds]
  cases windowMs f <;> rfl

theorem build_flag (q : Query) (flag : Bool) (keyword : FilterKeyword) :
    build q (flagKinds flag keyword) = if flag then q.add false (.keyword (.own keyword)) else q := by
  cases flag <;> rfl

theorem build_sort (q : Query) (f : FilterStore) : build q (sortKinds f) =
    { q with sort := (if f.sort == .own .recent then none else some f.sort).or q.sort } := by
  rw [build, sortKinds]
  split <;> rfl

theorem build_limit (q : Query) (f : FilterStore) : build q (limitKinds f) = { q with limit := f.limit.or q.limit } := by
  rw [build, limitKinds]
  cases f.limit <;> rfl

def Unsigned (ks : List TokenKind) : Prop := ∀ kind ∈ ks, kind ≠ .neg

theorem build_append {ks : List TokenKind} (unsigned : Unsigned ks) (q : Query) (ks' : List TokenKind) :
    build q (ks ++ ks') = build (build q ks) ks' := by
  rw [build, List.map_append, buildFrom_append]
  · rfl
  · intro t mem
    obtain ⟨kind, inside, rfl⟩ := List.mem_map.mp mem
    exact beq_eq_false_iff_ne.mpr (unsigned kind inside)

theorem Unsigned.append {ks ks' : List TokenKind} (left : Unsigned ks) (right : Unsigned ks') : Unsigned (ks ++ ks') :=
  fun kind mem => (List.mem_append.mp mem).elim (left kind) (right kind)

theorem unsigned_nil : Unsigned [] := fun _ mem => absurd mem List.not_mem_nil

theorem unsigned_single {kind : TokenKind} (ne : kind ≠ .neg) : Unsigned [kind] := List.forall_mem_singleton.mpr ne

theorem unsigned_levels (f : FilterStore) : Unsigned (levelKinds f) := by
  rw [levelKinds]
  split
  · exact unsigned_single nofun
  · exact unsigned_nil

theorem unsigned_statuses (f : FilterStore) : Unsigned (statusKinds f) := by
  rw [statusKinds]
  split
  · exact unsigned_nil
  · exact unsigned_single nofun

theorem unsigned_window (f : FilterStore) : Unsigned (windowKinds f) := by
  rw [windowKinds]
  cases windowMs f with
  | none => exact unsigned_nil
  | some ms => exact unsigned_single nofun

theorem unsigned_flag (flag : Bool) (keyword : FilterKeyword) : Unsigned (flagKinds flag keyword) := by
  cases flag with
  | false => exact unsigned_nil
  | true => exact unsigned_single nofun

theorem unsigned_sort (f : FilterStore) : Unsigned (sortKinds f) := by
  rw [sortKinds]
  split
  · exact unsigned_nil
  · exact unsigned_single nofun

theorem unsigned_limit (f : FilterStore) : Unsigned (limitKinds f) := by
  rw [limitKinds]
  cases f.limit with
  | none => exact unsigned_nil
  | some n => exact unsigned_single nofun

theorem unsigned_tail (f : FilterStore) : Unsigned (tailKinds f) :=
  ((((unsigned_flag _ _).append (unsigned_flag _ _)).append (unsigned_flag _ _)).append (unsigned_sort f)).append
    (unsigned_limit f)

theorem unsigned_facets (f : FilterStore) : Unsigned (facetKinds f) :=
  (((unsigned_levels f).append (unsigned_statuses f)).append (unsigned_window f)).append (unsigned_tail f)

theorem build_tail (q : Query) (f : FilterStore) : build q (tailKinds f) =
    { q with
      spiking := q.spiking || f.spikingOnly
      newOnly := q.newOnly || f.newOnly
      staleOnly := q.staleOnly || f.staleOnly
      sort := (if f.sort == .own .recent then none else some f.sort).or q.sort
      limit := f.limit.or q.limit } := by
  have flags := (unsigned_flag f.spikingOnly .spiking).append (unsigned_flag f.newOnly .new)
  rw [tailKinds, build_append ((flags.append (unsigned_flag _ _)).append (unsigned_sort f)),
    build_append (flags.append (unsigned_flag _ _)), build_append flags, build_append (unsigned_flag _ _), build_flag,
    build_flag, build_flag, build_sort, build_limit]
  cases f.spikingOnly <;> cases f.newOnly <;> cases f.staleOnly <;> simp [Query.add]

theorem build_facets (f : FilterStore) : build .empty (facetKinds f) = facetQuery f := by
  have lead := (unsigned_levels f).append (unsigned_statuses f)
  rw [facetKinds, build_append (lead.append (unsigned_window f)), build_append lead, build_append (unsigned_levels f),
    build_levels, build_statuses, build_window, build_tail]
  simp [facetQuery, Query.empty]

theorem parse_canonical {f : FilterStore} (printable : Printable f) :
    (parseQuery (filterToQueryString f)).2 = merge (facetQuery f) (residue f) := by
  have read : (tokenize (filterToQueryString f)).map Token.kind = ((facetKinds f).map token ++
      tokenizeFrom (remainder f).length 0 (after none (facetKinds f)) (remainder f)).map Token.kind := by
    rw [List.map_append, List.map_map]
    exact (kinds_canonical printable).trans (congrArg (· ++ _) (List.map_id _).symm)
  calc (parseQuery (filterToQueryString f)).2
      = buildFrom .empty false (tokenize (filterToQueryString f)) := rfl
    _ = buildFrom .empty false ((facetKinds f).map token ++
          tokenizeFrom (remainder f).length 0 (after none (facetKinds f)) (remainder f)) := buildFrom_kinds read
    _ = buildFrom (build .empty (facetKinds f)) false
          (tokenizeFrom (remainder f).length 0 (after none (facetKinds f)) (remainder f)) := by
        refine buildFrom_append (fun t mem => ?_) _ _
        obtain ⟨kind, inside, rfl⟩ := List.mem_map.mp mem
        exact beq_eq_false_iff_ne.mpr (unsigned_facets f kind inside)
    _ = merge (facetQuery f) (residue f) := by rw [buildFrom_eq_merge, build_facets, residue]

structure SameFacets (f g : FilterStore) : Prop where
  levels : g.levels = f.levels
  statuses : g.statuses = f.statuses
  sinceMs : g.sinceMs = f.sinceMs
  spikingOnly : g.spikingOnly = f.spikingOnly
  newOnly : g.newOnly = f.newOnly
  staleOnly : g.staleOnly = f.staleOnly
  sort : g.sort = f.sort
  limit : g.limit = f.limit

/-- More members, named or excluded, that leave a set as it is: none beyond a printed set; for the default, which is
not printed, none at all or the default again. -/
def Keeps {α : Type} [DecidableEq α] (order : List α) (default set positive negative : Finset α) : Prop :=
  if set = default then
    if positive = ∅ then negative = ∅ ∨ order.toFinset \ negative = default else positive = default
  else positive ⊆ set

/-- The free text, read behind the facets, adds nothing to them. -/
structure Neutral (f : FilterStore) : Prop where
  levels : Keeps LEVEL_ORDER ∅ f.levels (residue f).levels (residue f).negLevels
  statuses : Keeps STATUS_ORDER STATUS_DEFAULT f.statuses (residue f).statuses (residue f).negStatuses
  window : ∀ ms ∈ (residue f).sinceMs, f.sinceMs = some (.own ms)
  spiking : (residue f).spiking = true → f.spikingOnly = true
  newOnly : (residue f).newOnly = true → f.newOnly = true
  staleOnly : (residue f).staleOnly = true → f.staleOnly = true
  sort : ∀ key ∈ (residue f).sort, key = f.sort
  limit : ∀ n ∈ (residue f).limit, f.limit = some n

theorem chosen_iff {α : Type} [DecidableEq α] {order : List α} {default set : Finset α} (some_ : set = default ∨ set ≠ ∅)
    (positive negative : Finset α) :
    chosen order default ((if set = default then ∅ else set) ∪ positive) negative = set ↔
      Keeps order default set positive negative := by
  by_cases same : set = default
  · subst same
    by_cases none_ : positive = ∅
    · subst none_
      by_cases noNeg : negative = ∅
      · simp [chosen, Keeps, noNeg]
      · simp [chosen, Keeps, noNeg, Finset.card_pos, Finset.nonempty_iff_ne_empty]
    · simp [chosen, Keeps, none_, Finset.card_pos, Finset.nonempty_iff_ne_empty]
  · have nonempty : set ≠ ∅ := some_.resolve_left same
    simp [chosen, Keeps, same, nonempty, Finset.card_pos, Finset.nonempty_iff_ne_empty]

theorem bool_or_iff (set positive : Bool) : (set || positive) = set ↔ (positive = true → set = true) := by
  cases set <;> cases positive <;> decide

theorem or_iff {α : Type} (later earlier : Option α) : later.or earlier = earlier ↔ ∀ a ∈ later, earlier = some a := by
  cases later with
  | none => simp
  | some a => simpa using eq_comm

theorem window_iff {f : FilterStore} (printable : Printable f) (later : Option Double) :
    (later.or (windowMs f)).map Property.own = f.sinceMs ↔ ∀ ms ∈ later, f.sinceMs = some (.own ms) := by
  have own : (windowMs f).map Property.own = f.sinceMs := by
    rw [windowMs]
    cases window : f.sinceMs with
    | none => rfl
    | some ms =>
        obtain ⟨k, u, -, -, rfl⟩ := printable.window ms window
        rfl
  cases later with
  | none => simpa using own
  | some ms => simpa using eq_comm

theorem sort_iff (f : FilterStore) (later : Option (Property SortKey)) :
    (later.or (if f.sort == .own .recent then none else some f.sort)).getD (.own .recent) = f.sort ↔
      ∀ key ∈ later, key = f.sort := by
  cases later with
  | none =>
      by_cases default : f.sort = .own .recent
      · simp [default]
      · simp [default]
  | some key => simp

theorem reentered_iff {f : FilterStore} (printable : Printable f) (filter' : FilterStore) :
    SameFacets f (applyInputToFilter (filterToQueryString f) filter') ↔ Neutral f := by
  have store : applyInputToFilter (filterToQueryString f) filter' = applyQueryToFilter (merge (facetQuery f) (residue f)) filter' := by
    rw [applyInputToFilter, parse_canonical printable]
  rw [store]
  have levels : (applyQueryToFilter (merge (facetQuery f) (residue f)) filter').levels = f.levels ↔
      Keeps LEVEL_ORDER ∅ f.levels (residue f).levels (residue f).negLevels := by
    have printed : (if f.levels = ∅ then ∅ else f.levels) = f.levels := by split <;> simp_all
    rw [← chosen_iff (Decidable.em _), printed]
    simp [applyQueryToFilter, merge, facetQuery, Query.empty]
  have statuses : (applyQueryToFilter (merge (facetQuery f) (residue f)) filter').statuses = f.statuses ↔
      Keeps STATUS_ORDER STATUS_DEFAULT f.statuses (residue f).statuses (residue f).negStatuses := by
    rw [← chosen_iff (.inr printable.statuses)]
    have default : (setEqualsDefaultStatuses f.statuses = true) = (f.statuses = STATUS_DEFAULT) :=
      propext (setEqualsDefaultStatuses_iff f.statuses)
    simp [applyQueryToFilter, merge, facetQuery, Query.empty, default]
  constructor
  · intro same
    exact {
      levels := levels.mp same.levels
      statuses := statuses.mp same.statuses
      window := (window_iff printable _).mp same.sinceMs
      spiking := (bool_or_iff _ _).mp same.spikingOnly
      newOnly := (bool_or_iff _ _).mp same.newOnly
      staleOnly := (bool_or_iff _ _).mp same.staleOnly
      sort := (sort_iff f _).mp same.sort
      limit := (or_iff _ _).mp same.limit }
  · intro neutral
    exact {
      levels := levels.mpr neutral.levels
      statuses := statuses.mpr neutral.statuses
      sinceMs := (window_iff printable _).mpr neutral.window
      spikingOnly := (bool_or_iff _ _).mpr neutral.spiking
      newOnly := (bool_or_iff _ _).mpr neutral.newOnly
      staleOnly := (bool_or_iff _ _).mpr neutral.staleOnly
      sort := (sort_iff f _).mpr neutral.sort
      limit := (or_iff _ _).mpr neutral.limit }

/-- The canonical text of an input, entered in turn, gives the same filter exactly when the free text in it adds
nothing to the facets. -/
theorem canonical_iff (input : Utf16) (filter filter' : FilterStore) (printable : Printable (applyInputToFilter input filter)) :
    SameFacets (applyInputToFilter input filter)
        (applyInputToFilter (filterToQueryString (applyInputToFilter input filter)) filter') ↔
      Neutral (applyInputToFilter input filter) := reentered_iff printable filter'

theorem canonical_iff_fatal :
    SameFacets (applyInputToFilter (ofString "fatal 45m") .fresh)
        (applyInputToFilter (filterToQueryString (applyInputToFilter (ofString "fatal 45m") .fresh)) .fresh) ↔
      Neutral (applyInputToFilter (ofString "fatal 45m") .fresh) := by
  refine canonical_iff (ofString "fatal 45m") .fresh .fresh { statuses := ?_, window := ?_, sort := ?_, limit := ?_ }
  · decide +kernel
  · have window : (applyInputToFilter (ofString "fatal 45m") .fresh).sinceMs =
        some (.own (unitParse (.ofNat 45) [unit 'm'])) := by decide +kernel
    have text : formatSince (.own (unitParse (.ofNat 45) [unit 'm'])) = decimal 45 ++ [unit 'm'] := by decide +kernel
    intro ms mem
    rw [window] at mem
    cases mem
    exact ⟨45, unit 'm', by decide, text, rfl⟩
  · exact ⟨.recent, by decide +kernel⟩
  · have noLimit : (applyInputToFilter (ofString "fatal 45m") .fresh).limit = none := by decide +kernel
    rw [noLimit]
    exact fun _ mem => nomatch mem

/-- A quoted `fatal` is free text at first and a level afterwards. -/
theorem canonical_not_stable : ¬ ∀ (input : Utf16) (filter filter' : FilterStore),
    SameFacets (applyInputToFilter input filter)
      (applyInputToFilter (filterToQueryString (applyInputToFilter input filter)) filter') := by
  intro stable
  have levels := (stable (ofString "\"fatal\"") .fresh .fresh).levels
  have before : (applyInputToFilter (ofString "\"fatal\"") .fresh).levels = ∅ := by decide +kernel
  have behind : (applyInputToFilter (filterToQueryString (applyInputToFilter (ofString "\"fatal\"") .fresh)) .fresh).levels =
      {.fatal} := by decide +kernel
  rw [before, behind] at levels
  exact absurd levels (by decide)

end Errex.Proof.Spa
