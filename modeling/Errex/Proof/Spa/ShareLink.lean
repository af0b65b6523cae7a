import Errex.Proof.Spa.Reload

/-!
# Share links

A filter with a spelling in the URL is read back as it was (`parse_serialize`). What is read from any URL is on the
whitelists of its fields, unless the window is named like a property that every object has (`parse_listed_iff`).
-/

namespace Errex.Proof.Spa
open Foundation Model Spa Utf16 URLSearchParams

theorem reloaded_query_eq {f : FilterState} (some_ : f.query = [] ∨ ∃ u ∈ f.query, isSpace u = false)
    (returned : (URLSearchParams.set [] "q" f.query).get "q" = some f.query) : (reloaded f).query = f.query := by
  have kept : toWellFormed f.query = f.query := by
    simpa [URLSearchParams.set, URLSearchParams.get] using returned
  have read : (serializeFilterParams f).get "q" =
      if decide (0 < (trim f.query).length) then some (toWellFormed f.query) else none :=
    get_serialize (.head _)
  rcases some_ with blank | ⟨u, mem, plain⟩
  · simp [reloaded, parseFilterParams, read, blank, trim, trimStart, trimEnd]
  · have printed : 0 < (trim f.query).length := by
      rw [List.length_pos_iff]
      intro blank
      obtain ⟨lead, tail, whole, before, after⟩ := trim_spec f.query
      rw [blank, List.append_nil] at whole
      rw [whole] at mem
      rcases List.mem_append.mp mem with inside | inside
      · exact absurd (before u inside) (by simp [plain])
      · exact absurd (after u inside) (by simp [plain])
    simp [reloaded, parseFilterParams, read, printed, kept]

theorem presetWindow {token : String} {ms : Double} (mem : (token, ms) ∈ SINCE_PRESETS) : PresetWindow (some (.own ms)) := by
  intro ms same
  exact ⟨_, mem, (Option.some.inj same).symm⟩

/-- `returned` is what is assumed of `URLSearchParams`: it gives back the text that was set. -/
theorem parse_serialize (f : FilterState) (query : f.query = [] ∨ ∃ u ∈ f.query, isSpace u = false)
    (statuses : f.statuses ≠ ∅) (window : PresetWindow f.sinceMs) (sort : ∃ key, f.sort = .own key)
    (limit : SmallLimit f.limit) (returned : (URLSearchParams.set [] "q" f.query).get "q" = some f.query) :
    parseFilterParams (serializeFilterParams f) = f := by
  have query_ := reloaded_query_eq query returned
  have statuses_ := (reloaded_statuses f).mpr statuses
  have levels_ := reloaded_levels f
  have window_ := (reloaded_sinceMs f).mpr window
  have spiking_ := reloaded_spikingOnly f
  have sort_ := (reloaded_sort f).mpr sort
  have limit_ := (reloaded_limit f).mpr limit
  cases f
  simp only [reloaded] at *
  generalize parseFilterParams _ = back at *
  cases back
  simp_all

theorem parse_serialize_sample :
    let f : FilterState := ⟨ofString " time out", {.muted, .unresolved}, {.fatal}, some (.own (.ofNat (24 * 60 * 60 * 1000))),
      true, .own .count, some (.ofNat 25)⟩
    parseFilterParams (serializeFilterParams f) = f := by
  apply parse_serialize
  · exact .inr ⟨unit 't', by decide, by decide⟩
  · decide
  · exact @presetWindow "24h" _ (by decide +kernel)
  · exact ⟨.count, rfl⟩
  · intro n mem
    rw [← Option.some.inj mem]
    decide +kernel
  · decide +kernel

structure Listed (f : FilterState) : Prop where
  statuses : f.statuses ≠ ∅ ∧ f.statuses ⊆ ALL_STATUSES.toFinset
  levels : f.levels ⊆ ALL_LEVELS.toFinset
  window : PresetWindow f.sinceMs
  sort : ∃ key ∈ ALL_SORTS, f.sort = .own key
  limit : SmallLimit f.limit

theorem readSet_subset {α : Type} [DecidableEq α] (all : List α) (name : α → Utf16) (raw : Utf16) :
    readSet all name raw ⊆ all.toFinset := by
  intro a mem
  obtain ⟨t, -, found⟩ := List.mem_filterMap.mp (List.mem_toFinset.mp mem)
  exact List.mem_toFinset.mpr (List.mem_of_find?_eq_some found)

theorem parsed_statuses (p : URLSearchParams) :
    (parseFilterParams p).statuses ≠ ∅ ∧ (parseFilterParams p).statuses ⊆ ALL_STATUSES.toFinset := by
  have default : ({.unresolved} : Finset IssueStatus) ≠ ∅ ∧ {.unresolved} ⊆ ALL_STATUSES.toFinset := by decide
  simp only [parseFilterParams]
  split
  · exact default
  · split
    · exact default
    · rename_i sRaw _ some_
      refine ⟨?_, readSet_subset _ _ _⟩
      intro empty
      rw [empty] at some_
      exact some_ rfl

theorem parsed_levels (p : URLSearchParams) : (parseFilterParams p).levels ⊆ ALL_LEVELS.toFinset := by
  simp only [parseFilterParams]
  split
  · exact Finset.empty_subset _
  · exact readSet_subset _ _ _

theorem parsed_sort (p : URLSearchParams) : ∃ key ∈ ALL_SORTS, (parseFilterParams p).sort = .own key := by
  simp only [parseFilterParams]
  generalize (p.get "sort").bind _ = found
  exact ⟨found.getD .recent, by cases found.getD .recent <;> decide, rfl⟩

theorem parsed_limit (p : URLSearchParams) : SmallLimit (parseFilterParams p).limit := by
  intro n mem
  simp only [parseFilterParams] at mem
  obtain ⟨raw, -, parsed⟩ := Option.bind_eq_some_iff.mp mem
  exact parseLimit_small n parsed

theorem preset_not_inherited {token : Utf16} (inherited : token ∈ objectPrototype) :
    index SINCE_PRESETS token = some (.inherited token) := by
  have apart : (objectPrototype.all fun token => !(SINCE_PRESETS.map fun preset => ofString preset.1).contains token) = true := by
    decide +kernel
  have unlisted : token ∉ SINCE_PRESETS.map fun preset => ofString preset.1 := by
    have plain := List.all_eq_true.mp apart token inherited
    rwa [Bool.not_eq_true', List.contains_eq_mem, decide_eq_false_iff_not] at plain
  rw [index_unlisted unlisted, if_pos inherited]

theorem parsed_window_iff (p : URLSearchParams) :
    PresetWindow (parseFilterParams p).sinceMs ↔ ∀ token ∈ p.get "since", token ∉ objectPrototype := by
  simp only [parseFilterParams]
  cases p.get "since" with
  | none => simp [PresetWindow]
  | some token =>
      by_cases inherited : token ∈ objectPrototype
      · have read := preset_not_inherited inherited
        simp [PresetWindow, read, inherited]
      · rw [Option.bind_some]
        refine iff_of_true ?_ (by simpa using inherited)
        intro ms mem
        rw [index] at mem
        split at mem
        · rename_i found
          cases mem
          exact ⟨_, List.mem_of_find?_eq_some found, rfl⟩
        · rw [if_neg inherited] at mem
          cases mem

/-- What a link asks for is on the whitelists exactly when its window is not named like a property of
`Object.prototype`. -/
theorem parse_listed_iff (p : URLSearchParams) :
    Listed (parseFilterParams p) ↔ ∀ token ∈ p.get "since", token ∉ objectPrototype := by
  constructor
  · intro listed
    exact (parsed_window_iff p).mp listed.window
  · intro plain
    exact {
      statuses := parsed_statuses p
      levels := parsed_levels p
      window := (parsed_window_iff p).mpr plain
      sort := parsed_sort p
      limit := parsed_limit p }

/-- `?since=constructor` sets the window to a function. -/
theorem parse_not_listed : ¬ ∀ p : URLSearchParams, Listed (parseFilterParams p) := by
  intro listed
  have window := (listed [(ofString "since", ofString "constructor")]).window
  have inherited : (parseFilterParams [(ofString "since", ofString "constructor")]).sinceMs =
      some (.inherited (ofString "constructor")) := by decide +kernel
  obtain ⟨preset, -, same⟩ := window _ inherited
  cases same

end Errex.Proof.Spa
