import Errex.Model.Spa.FilterUrl
import Errex.Proof.Spa.Facets

/-!
# The filter after a reload

The URL keeps what it has a spelling for: five windows, limits up to 10000, the sort keys and sets of statuses that
are not empty. The two flags `newOnly` and `staleOnly` have none (`reload_iff`).
-/

namespace Errex.Proof.Spa
open Foundation Model Spa Utf16 URLSearchParams

structure Setting where
  condition : Bool
  name : String
  value : Utf16

def setAll (settings : List Setting) (p : URLSearchParams) : URLSearchParams :=
  settings.foldl (fun p s => setIf s.condition s.name s.value p) p

theorem get_setIf_self {p : URLSearchParams} {name : String} (absent : p.get name = none) (condition : Bool)
    (value : Utf16) :
    (setIf condition name value p).get name = if condition then some (toWellFormed value) else none := by
  cases condition with
  | false => simpa [setIf] using absent
  | true =>
      simp only [URLSearchParams.get] at absent
      simp [setIf, URLSearchParams.set, URLSearchParams.get, List.lookup_append, absent]

theorem get_setIf_of_ne {p : URLSearchParams} {name other : String} (ne : ofString other ≠ ofString name)
    (condition : Bool) (value : Utf16) : (setIf condition name value p).get other = p.get other := by
  cases condition with
  | false => rfl
  | true =>
      have absent : [(ofString name, toWellFormed value)].lookup (ofString other) = none := by
        rw [List.lookup_cons, beq_eq_false_iff_ne.mpr ne]
        rfl
      simp [setIf, URLSearchParams.set, URLSearchParams.get, List.lookup_append, absent]

theorem get_setAll_of_ne {settings : List Setting} {other : String}
    (ne : ∀ s ∈ settings, ofString other ≠ ofString s.name) (p : URLSearchParams) :
    (setAll settings p).get other = p.get other := by
  induction settings generalizing p with
  | nil => rfl
  | cons s settings ih =>
      calc (setAll (s :: settings) p).get other
          = (setIf s.condition s.name s.value p).get other := ih (fun t mem => ne t (List.mem_cons_of_mem _ mem)) _
        _ = p.get other := get_setIf_of_ne (ne s List.mem_cons_self) _ _

theorem get_setAll {settings : List Setting} (distinct : settings.Pairwise fun s t => ofString s.name ≠ ofString t.name)
    {s : Setting} (mem : s ∈ settings) {p : URLSearchParams} (absent : p.get s.name = none) :
    (setAll settings p).get s.name = if s.condition then some (toWellFormed s.value) else none := by
  induction settings generalizing p with
  | nil => exact absurd mem List.not_mem_nil
  | cons first settings ih =>
      obtain ⟨others, rest⟩ := List.pairwise_cons.mp distinct
      rcases List.mem_cons.mp mem with rfl | later
      · exact (get_setAll_of_ne others _).trans (get_setIf_self absent _ _)
      · exact ih rest later ((get_setIf_of_ne (others s later).symm _ _).trans absent)

def settings (f : FilterState) : List Setting :=
  [⟨decide (0 < (trim f.query).length), "q", f.query⟩,
    ⟨!setEqualsDefaultStatuses f.statuses, "s",
      csvSorted [.ignored, .muted, .resolved, .unresolved] statusName f.statuses⟩,
    ⟨decide (0 < f.levels.card), "l", csvSorted [.debug, .error, .fatal, .info, .warning] levelName f.levels⟩,
    ⟨(f.sinceMs.bind sinceMsToToken).isSome, "since", (f.sinceMs.bind sinceMsToToken).getD []⟩,
    ⟨f.spikingOnly, "spike", ofString "1"⟩,
    ⟨f.sort != .own .recent, "sort", sortText f.sort⟩,
    ⟨f.limit.any Double.isPositive, "limit", (f.limit.map Double.toText).getD []⟩]

theorem get_serialize {f : FilterState} {s : Setting} (mem : s ∈ settings f) :
    (serializeFilterParams f).get s.name = if s.condition then some (toWellFormed s.value) else none := by
  have distinct : (settings f).Pairwise fun s t => ofString s.name ≠ ofString t.name := by
    have names : ["q", "s", "l", "since", "spike", "sort", "limit"].Pairwise fun s t => ofString s ≠ ofString t := by decide
    exact (List.pairwise_map (f := Setting.name) (l := settings f)).mp names
  exact get_setAll (p := []) distinct mem rfl

theorem readSet_csvSorted {α : Type} [DecidableEq α] {all alphabetical : List α} {name : α → Utf16}
    (found : ∀ a, all.find? (fun b => name b == name a) = some a)
    (plain : ∀ a, unit ',' ∉ name a ∧ trim (name a) = name a ∧ ∀ u ∈ name a, isSurrogate u = false)
    (complete : ∀ a, a ∈ alphabetical) {s : Finset α} (nonempty : s ≠ ∅) :
    readSet all name (toWellFormed (csvSorted alphabetical name s)) = s := by
  have parts : (alphabetical.filter (· ∈ s)).map name ≠ [] := by
    obtain ⟨a, mem⟩ := Finset.nonempty_iff_ne_empty.mpr nonempty
    exact List.ne_nil_of_mem (List.mem_map_of_mem (List.mem_filter.mpr ⟨complete a, by simpa using mem⟩))
  have ascii : ∀ u ∈ csvSorted alphabetical name s, isSurrogate u = false := by
    intro u mem
    rcases mem_join mem with rfl | ⟨part, inside, here⟩
    · decide
    · obtain ⟨a, -, rfl⟩ := List.mem_map.mp inside
      exact (plain a).2.2 u here
  rw [toWellFormed_plain ascii, readSet, csvSorted, splitComma_join parts]
  · ext a
    simp [List.map_map, List.filterMap_map, plain, found, complete]
  · intro part mem
    obtain ⟨a, -, rfl⟩ := List.mem_map.mp mem
    exact (plain a).1

theorem find_statusName (a : IssueStatus) : ALL_STATUSES.find? (fun b => statusName b == statusName a) = some a := by
  cases a <;> decide

theorem find_levelName (a : Level) : ALL_LEVELS.find? (fun b => levelName b == levelName a) = some a := by
  cases a <;> decide

theorem statusName_plain (a : IssueStatus) : unit ',' ∉ statusName a ∧ trim (statusName a) = statusName a ∧
    ∀ u ∈ statusName a, isSurrogate u = false := by
  have ascii : (statusName a).all (!isSurrogate ·) = true := by cases a <;> decide
  refine ⟨by cases a <;> decide, by cases a <;> decide, fun u mem => ?_⟩
  simpa using List.all_eq_true.mp ascii u mem

theorem levelName_plain (a : Level) : unit ',' ∉ levelName a ∧ trim (levelName a) = levelName a ∧
    ∀ u ∈ levelName a, isSurrogate u = false := by
  have ascii : (levelName a).all (!isSurrogate ·) = true := by cases a <;> decide
  refine ⟨by cases a <;> decide, by cases a <;> decide, fun u mem => ?_⟩
  simpa using List.all_eq_true.mp ascii u mem

section
variable (f : FilterState)

abbrev reloaded : FilterState := parseFilterParams (serializeFilterParams f)

theorem reloaded_query : trim (reloaded f).query = trim f.query ↔ isWellFormed f.query = true := by
  have read : (serializeFilterParams f).get "q" =
      if decide (0 < (trim f.query).length) then some (toWellFormed f.query) else none :=
    get_serialize (.head _)
  by_cases printed : 0 < (trim f.query).length
  · simpa [reloaded, parseFilterParams, read, printed] using trim_toWellFormed_iff f.query
  · have blank : trim f.query = [] := List.eq_nil_of_length_eq_zero (by omega)
    have value : (reloaded f).query = [] := by simp [reloaded, parseFilterParams, read, blank]
    rw [value, blank]
    exact iff_of_true rfl (isWellFormed_of_blank blank)

theorem reloaded_statuses : (reloaded f).statuses = f.statuses ↔ f.statuses ≠ ∅ := by
  have read : (serializeFilterParams f).get "s" = if !setEqualsDefaultStatuses f.statuses then
      some (toWellFormed (csvSorted [.ignored, .muted, .resolved, .unresolved] statusName f.statuses)) else none :=
    get_serialize (.tail _ (.head _))
  cases default : setEqualsDefaultStatuses f.statuses with
  | true =>
      have same := (setEqualsDefaultStatuses_iff _).mp default
      have value : (reloaded f).statuses = {.unresolved} := by simp [reloaded, parseFilterParams, read, default]
      simp [value, same]
  | false =>
      by_cases empty : f.statuses = ∅
      · have blank : readSet ALL_STATUSES statusName
            (toWellFormed (csvSorted [.ignored, .muted, .resolved, .unresolved] statusName ∅)) = ∅ := by decide
        have value : (reloaded f).statuses = {.unresolved} := by
          rw [empty] at read default
          simp [reloaded, parseFilterParams, read, default, blank]
        simp [value, empty]
      · have back := readSet_csvSorted find_statusName statusName_plain
          (show ∀ a, a ∈ [IssueStatus.ignored, .muted, .resolved, .unresolved] by intro a; cases a <;> decide) empty
        have value : (reloaded f).statuses = f.statuses := by
          simp [reloaded, parseFilterParams, read, default, back, empty]
        simp [value, empty]

theorem reloaded_levels : (reloaded f).levels = f.levels := by
  have read : (serializeFilterParams f).get "l" = if decide (0 < f.levels.card) then
      some (toWellFormed (csvSorted [.debug, .error, .fatal, .info, .warning] levelName f.levels)) else none :=
    get_serialize (.tail _ (.tail _ (.head _)))
  by_cases empty : f.levels = ∅
  · simp [reloaded, parseFilterParams, read, empty]
  · have back := readSet_csvSorted find_levelName levelName_plain
      (show ∀ a, a ∈ [Level.debug, .error, .fatal, .info, .warning] by intro a; cases a <;> decide) empty
    simp [reloaded, parseFilterParams, read, back, Finset.card_pos, Finset.nonempty_iff_ne_empty.mpr empty]

def PresetWindow (sinceMs : Option (Property Double)) : Prop :=
  ∀ ms ∈ sinceMs, ∃ preset ∈ SINCE_PRESETS, ms = .own preset.2

theorem preset_token : ∀ preset ∈ SINCE_PRESETS, sinceMsToToken (.own preset.2) = some (ofString preset.1) ∧
    index SINCE_PRESETS (toWellFormed (ofString preset.1)) = some (.own preset.2) := by
  decide +kernel

theorem sinceMsToToken_some {ms : Property Double} {token : Utf16} (found : sinceMsToToken ms = some token) :
    ∃ preset ∈ SINCE_PRESETS, ms = .own preset.2 := by
  cases ms with
  | inherited name => cases found
  | own ms =>
      simp only [sinceMsToToken] at found
      obtain ⟨preset, first, -⟩ := Option.map_eq_some_iff.mp found
      have same := List.find?_some first
      exact ⟨preset, List.mem_of_find?_eq_some first, by simpa using (beq_iff_eq.mp same).symm⟩

theorem reloaded_sinceMs : (reloaded f).sinceMs = f.sinceMs ↔ PresetWindow f.sinceMs := by
  have read : (serializeFilterParams f).get "since" = if (f.sinceMs.bind sinceMsToToken).isSome then
      some (toWellFormed ((f.sinceMs.bind sinceMsToToken).getD [])) else none :=
    get_serialize (.tail _ (.tail _ (.tail _ (.head _))))
  cases window : f.sinceMs with
  | none => simp [reloaded, parseFilterParams, read, window, PresetWindow]
  | some ms =>
      cases token : sinceMsToToken ms with
      | none =>
          have value : (reloaded f).sinceMs = none := by simp [reloaded, parseFilterParams, read, window, token]
          rw [value]
          refine iff_of_false nofun fun window => ?_
          obtain ⟨preset, mem, rfl⟩ := window ms rfl
          rw [(preset_token preset mem).1] at token
          cases token
      | some token' =>
          obtain ⟨preset, mem, rfl⟩ := sinceMsToToken_some token
          obtain ⟨printed, back⟩ := preset_token preset mem
          have value : (reloaded f).sinceMs = some (.own preset.2) := by
            simp [reloaded, parseFilterParams, read, window, printed, back]
          rw [value]
          refine iff_of_true rfl fun ms same => ?_
          cases same
          exact ⟨preset, mem, rfl⟩

theorem reloaded_spikingOnly : (reloaded f).spikingOnly = f.spikingOnly := by
  have read : (serializeFilterParams f).get "spike" = if f.spikingOnly then some (toWellFormed (ofString "1")) else none :=
    get_serialize (.tail _ (.tail _ (.tail _ (.tail _ (.head _)))))
  cases flag : f.spikingOnly with
  | false => simp [reloaded, parseFilterParams, read, flag]
  | true =>
      have one : toWellFormed (ofString "1") = ofString "1" := by decide
      simp [reloaded, parseFilterParams, read, flag, one]

theorem reloaded_sort : (reloaded f).sort = f.sort ↔ ∃ key, f.sort = .own key := by
  have read : (serializeFilterParams f).get "sort" = if f.sort != .own .recent then some (toWellFormed (sortText f.sort))
      else none :=
    get_serialize (.tail _ (.tail _ (.tail _ (.tail _ (.tail _ (.head _))))))
  refine ⟨fun same => ⟨_, same.symm⟩, ?_⟩
  rintro ⟨key, sort⟩
  have back : ALL_SORTS.find? (fun other => ofString other.name == toWellFormed (sortText (.own key))) = some key := by
    cases key <;> decide
  by_cases default : key = .recent
  · simp [reloaded, parseFilterParams, read, sort, default]
  · simp [reloaded, parseFilterParams, read, sort, default, back]

def SmallLimit (limit : Option Double) : Prop := ∀ n ∈ limit, n.isPositive = true ∧ n.isAtMost 10000 = true

theorem parseLimit_small {raw : Utf16} : SmallLimit (parseLimit raw) := by
  intro n mem
  rw [parseLimit] at mem
  split at mem
  · split at mem
    · cases mem
      simp_all
    · cases mem
  · cases mem

theorem parseLimit_toText {n : Double} (positive : n.isPositive = true) (small : n.isAtMost 10000 = true) :
    parseLimit (toWellFormed n.toText) = some n := by
  cases n with
  | infinity => cases small
  | finite n exact bounded =>
      have bound : n < 2 ^ 53 := by simp only [Double.isAtMost, decide_eq_true_eq] at small; omega
      have plain : ∀ u ∈ decimal n, isSurrogate u = false := fun u mem =>
        not_isSurrogate_of_isDigit (isDigit_of_mem_decimal mem)
      rw [Double.toText_small exact bounded bound, toWellFormed_plain plain, parseLimit, Double.parseInt_decimal,
        Double.ofNat_small bound]
      simp [positive, small]

theorem reloaded_limit : (reloaded f).limit = f.limit ↔ SmallLimit f.limit := by
  have read : (serializeFilterParams f).get "limit" = if f.limit.any Double.isPositive then
      some (toWellFormed ((f.limit.map Double.toText).getD [])) else none :=
    get_serialize (.tail _ (.tail _ (.tail _ (.tail _ (.tail _ (.tail _ (.head _)))))))
  constructor
  · intro same
    rw [← same]
    simp only [reloaded, parseFilterParams]
    cases (serializeFilterParams f).get "limit" with
    | none => simp [SmallLimit]
    | some raw => exact parseLimit_small
  · intro small
    cases limit : f.limit with
    | none => simp [reloaded, parseFilterParams, read, limit]
    | some n =>
        obtain ⟨positive, bounded⟩ := small n limit
        simp [reloaded, parseFilterParams, read, limit, positive, parseLimit_toText positive bounded]

end

def reload (filter : FilterStore) : FilterStore :=
  FilterStore.fresh.hydrate (parseFilterParams (serializeFilterParams filter.state))

structure SameFilter (f g : FilterStore) : Prop where
  query : trim g.query = trim f.query
  statuses : g.statuses = f.statuses
  levels : g.levels = f.levels
  sinceMs : g.sinceMs = f.sinceMs
  spikingOnly : g.spikingOnly = f.spikingOnly
  newOnly : g.newOnly = f.newOnly
  staleOnly : g.staleOnly = f.staleOnly
  sort : g.sort = f.sort
  limit : g.limit = f.limit

/-- What a query may ask for so that the URL can hold it. -/
structure Reloadable (q : Query) : Prop where
  text : isWellFormed (freeText q) = true
  /-- Some status is named, or some status is not excluded. -/
  statuses : q.statuses ≠ ∅ ∨ ∃ s, s ∉ q.negStatuses
  window : PresetWindow (q.sinceMs.map .own)
  newOnly : q.newOnly = false
  staleOnly : q.staleOnly = false
  sort : ∀ key ∈ q.sort, ∃ own, key = .own own
  limit : SmallLimit q.limit

theorem chosen_statuses_ne_empty (q : Query) :
    chosen STATUS_ORDER STATUS_DEFAULT q.statuses q.negStatuses ≠ ∅ ↔ q.statuses ≠ ∅ ∨ ∃ s, s ∉ q.negStatuses := by
  have complete : ∀ s, s ∈ STATUS_ORDER := by intro s; cases s <;> decide
  by_cases positive : q.statuses = ∅
  · by_cases negative : q.negStatuses = ∅
    · simpa [chosen, positive, negative, STATUS_DEFAULT] using Nonempty.intro IssueStatus.unresolved
    · have nonempty : (STATUS_ORDER.toFinset \ q.negStatuses ≠ ∅) ↔ ∃ s, s ∉ q.negStatuses := by
        simp [Finset.subset_iff, complete]
      simpa [chosen, positive, Finset.card_pos, Finset.nonempty_iff_ne_empty.mpr negative] using nonempty
  · simp [chosen, positive, Finset.card_pos, Finset.nonempty_iff_ne_empty.mpr positive]

theorem sort_own_iff (q : Query) : (∃ key, q.sort.getD (.own .recent) = .own key) ↔ ∀ key ∈ q.sort, ∃ own, key = .own own := by
  cases q.sort with
  | none => simp
  | some key => simp

/-- The filter of an input survives a reload exactly when the URL can hold what its query asks for. -/
theorem reload_iff (input : Utf16) (filter : FilterStore) :
    SameFilter (applyInputToFilter input filter) (reload (applyInputToFilter input filter)) ↔
      Reloadable (parseQuery input).2 := by
  set q := (parseQuery input).2 with parsed
  have store : applyInputToFilter input filter = applyQueryToFilter q filter := rfl
  rw [store]
  set f := (applyQueryToFilter q filter).state with state
  constructor
  · intro same
    exact {
      text := (reloaded_query f).mp same.query
      statuses := (chosen_statuses_ne_empty q).mp ((reloaded_statuses f).mp same.statuses)
      window := (reloaded_sinceMs f).mp same.sinceMs
      newOnly := same.newOnly.symm
      staleOnly := same.staleOnly.symm
      sort := (sort_own_iff q).mp ((reloaded_sort f).mp same.sort)
      limit := (reloaded_limit f).mp same.limit }
  · intro fits
    exact {
      query := (reloaded_query f).mpr fits.text
      statuses := (reloaded_statuses f).mpr ((chosen_statuses_ne_empty q).mpr fits.statuses)
      levels := reloaded_levels f
      sinceMs := (reloaded_sinceMs f).mpr fits.window
      spikingOnly := reloaded_spikingOnly f
      newOnly := fits.newOnly.symm
      staleOnly := fits.staleOnly.symm
      sort := (reloaded_sort f).mpr ((sort_own_iff q).mpr fits.sort)
      limit := (reloaded_limit f).mpr fits.limit }

/-- The word `new` sets a flag that the URL does not carry. -/
theorem not_always_reloaded : ¬ ∀ (input : Utf16) (filter : FilterStore),
    SameFilter (applyInputToFilter input filter) (reload (applyInputToFilter input filter)) := by
  intro always
  have flag := (always (ofString "new") .fresh).newOnly
  have set_ : (applyInputToFilter (ofString "new") .fresh).newOnly = true := by decide +kernel
  have lost : (reload (applyInputToFilter (ofString "new") .fresh)).newOnly = false := rfl
  rw [set_, lost] at flag
  cases flag

end Errex.Proof.Spa
