import Errex.Model.Spa.IssueList
import Errex.Proof.Spa.ShareLink

/-!
# Mounting the issue list from a link

The component is created before its mount handler reads the URL, so the effect on the input runs for the first time on the
empty text and resets the store (`settles_iff`). `mount_iff` says which links ask for no more than that.
-/

namespace Errex.Proof.Spa
open Foundation Model Spa Utf16 Scheduler IssueList URLSearchParams

theorem statuses_mem_sets (before after : FilterStore) : Source.statuses ∈ before.sets after := by
  simp [FilterStore.sets]

theorem inputValue_not_mem_sets (before after : FilterStore) : Source.inputValue ∉ before.sets after := by
  simp only [FilterStore.sets, Finset.mem_union, not_or]
  refine ⟨⟨⟨⟨⟨⟨⟨by decide, ?_⟩, ?_⟩, ?_⟩, ?_⟩, ?_⟩, ?_⟩, ?_⟩ <;> split <;> decide

theorem inputValue_not_mem (c : IssueList) : Source.inputValue ∉ (readInput c).sets := by
  simp only [readInput, Finset.mem_union, not_or]
  refine ⟨inputValue_not_mem_sets _ _, ?_⟩
  split <;> decide

theorem print_fresh : filterToQueryString .fresh = [] := by decide

section
variable (search : URLSearchParams)

def hydrated : FilterStore := FilterStore.fresh.hydrate (parseFilterParams search)

theorem mounted_state : (mounted search .fresh).state =
    ⟨serializeFilterParams (hydrated search).state, .fresh, [], []⟩ := by
  have blank (filter : FilterStore) : applyInputToFilter [] filter = .fresh := rfl
  simp only [mounted, mount, List.foldl_cons, List.foldl_nil, run, effects, start, create, onMount, pushUrl, readInput,
    print_fresh, blank, printFilter, if_true, hydrated]

theorem mounted_dirty : (mounted search .fresh).dirty = {.pushUrl} := by
  have handled : ((start (create search .fresh)).run effects .onMount).dirty = ∅ := by
    rw [Finset.eq_empty_iff_forall_notMem]
    intro hook mem
    rcases mem_dirty_run.mp mem with ⟨-, dirty⟩ | tracked
    · cases dirty
    · apply tracked
      cases hook <;> exact Finset.disjoint_empty_left _
  have pushed : (((start (create search .fresh)).run effects .onMount).run effects .pushUrl).dirty = ∅ := by
    rw [dirty_run_of_silent rfl, handled, Finset.erase_empty]
  have read : ((((start (create search .fresh)).run effects .onMount).run effects .pushUrl).run effects .readInput).dirty =
      {.pushUrl} := by
    ext hook
    rw [mem_dirty_run, pushed, Finset.mem_singleton]
    constructor
    · rintro (⟨-, dirty⟩ | tracked)
      · cases dirty
      · cases hook with
        | onMount => exact absurd (Finset.disjoint_empty_left _) tracked
        | pushUrl => rfl
        | readInput => exact absurd (Finset.disjoint_singleton_left.mpr (inputValue_not_mem _)) tracked
        | printFilter => exact absurd (Finset.disjoint_empty_left _) tracked
    · rintro rfl
      refine .inr (Finset.not_disjoint_iff.mpr ⟨.statuses, ?_, Finset.mem_union_left _ (statuses_mem_sets _ _)⟩)
      exact Finset.mem_insert_of_mem (Finset.mem_insert_self _ _)
  have blank (filter : FilterStore) : applyInputToFilter [] filter = .fresh := rfl
  have silent : (effects .printFilter ((((start (create search .fresh)).run effects .onMount).run effects .pushUrl).run
      effects .readInput).state).sets = ∅ := by
    simp [run, effects, start, create, onMount, pushUrl, readInput, print_fresh, blank, printFilter]
  exact (dirty_run_of_silent silent).trans (by rw [read]; decide)

theorem settles_iff {sch : Scheduler Hook IssueList Source} :
    Settles effects (mounted search .fresh) sch ↔ sch = (mounted search .fresh).run effects .pushUrl :=
  settles_iff_of_single (mounted_dirty search) rfl

theorem settled {sch : Scheduler Hook IssueList Source} (settles : Settles effects (mounted search .fresh) sch) :
    sch.state.filter = .fresh ∧ sch.state.search = [] := by
  obtain rfl := (settles_iff search).mp settles
  have quiet : serializeFilterParams FilterStore.fresh.state = [] := by decide
  simp only [run, effects, pushUrl, mounted_state]
  exact ⟨trivial, quiet⟩

theorem exists_settled : ∃ sch, Settles effects (mounted search .fresh) sch := ⟨_, (settles_iff search).mpr rfl⟩

end

/-- The parameters of a link say no more than the default filter. -/
structure AsksNothing (p : URLSearchParams) : Prop where
  statuses : ∀ raw ∈ p.get "s", ∀ s, statusName s ∈ (splitComma raw).map trim → s = .unresolved
  levels : ∀ raw ∈ p.get "l", ∀ l, levelName l ∉ (splitComma raw).map trim
  window : ∀ raw ∈ p.get "since", raw ∉ SINCE_PRESETS.map (fun preset => ofString preset.1) ∧ raw ∉ objectPrototype
  spiking : p.get "spike" ≠ some (ofString "1")
  sort : ∀ raw ∈ p.get "sort", ∀ key : SortKey, ofString key.name = raw → key = .recent
  limit : ∀ raw ∈ p.get "limit", parseLimit raw = none

theorem mem_readSet {α : Type} [DecidableEq α] {all : List α} {name : α → Utf16}
    (named : ∀ a, all.find? (fun b => name b == name a) = some a) {raw : Utf16} {a : α} :
    a ∈ readSet all name raw ↔ name a ∈ (splitComma raw).map trim := by
  rw [readSet, List.mem_toFinset, List.mem_filterMap]
  constructor
  · rintro ⟨t, mem, found⟩
    have same := List.find?_some found
    rw [beq_iff_eq] at same
    rwa [same]
  · intro mem
    exact ⟨name a, mem, named a⟩

section
variable (p : URLSearchParams)

theorem statuses_default_iff : (parseFilterParams p).statuses = {.unresolved} ↔
    ∀ raw ∈ p.get "s", ∀ s, statusName s ∈ (splitComma raw).map trim → s = .unresolved := by
  simp only [parseFilterParams]
  cases p.get "s" with
  | none => simp
  | some raw =>
      have member : ∀ s, s ∈ readSet ALL_STATUSES statusName raw ↔ statusName s ∈ (splitComma raw).map trim :=
        fun s => mem_readSet find_statusName
      simp only [Option.mem_some_iff, forall_eq', ← member]
      by_cases blank : readSet ALL_STATUSES statusName raw = ∅
      · simp [blank]
      · have some_ : ((readSet ALL_STATUSES statusName raw).card == 0) = false := by simpa using blank
        rw [some_, if_neg Bool.false_ne_true]
        exact ⟨fun same s mem => by simpa [same] using mem, fun each =>
          Finset.eq_singleton_iff_nonempty_unique_mem.mpr ⟨Finset.nonempty_iff_ne_empty.mpr blank, each⟩⟩

theorem levels_default_iff : (parseFilterParams p).levels = ∅ ↔
    ∀ raw ∈ p.get "l", ∀ l, levelName l ∉ (splitComma raw).map trim := by
  simp only [parseFilterParams]
  cases p.get "l" with
  | none => simp
  | some raw =>
      have member : ∀ l, l ∈ readSet ALL_LEVELS levelName raw ↔ levelName l ∈ (splitComma raw).map trim :=
        fun l => mem_readSet find_levelName
      simp only [Option.mem_some_iff, forall_eq', ← member]
      exact Finset.eq_empty_iff_forall_notMem

theorem window_default_iff : (parseFilterParams p).sinceMs = none ↔
    ∀ raw ∈ p.get "since", raw ∉ SINCE_PRESETS.map (fun preset => ofString preset.1) ∧ raw ∉ objectPrototype := by
  simp only [parseFilterParams, Option.bind_eq_none_iff]
  exact forall₂_congr fun raw _ => index_eq_none_iff

theorem sort_default_iff : (parseFilterParams p).sort = .own .recent ↔
    ∀ raw ∈ p.get "sort", ∀ key : SortKey, ofString key.name = raw → key = .recent := by
  simp only [parseFilterParams]
  cases p.get "sort" with
  | none => simp
  | some raw =>
      rw [Option.bind_some]
      have apart : ∀ key key' : SortKey, ofString key.name = ofString key'.name → key = key' := by
        intro key key'
        cases key <;> cases key' <;> decide
      have every : ∀ key : SortKey, key ∈ ALL_SORTS := by
        intro key
        cases key <;> decide
      cases found : ALL_SORTS.find? fun key => ofString key.name == raw with
      | none =>
          refine iff_of_true rfl fun raw' mem key same => ?_
          rw [Option.some.inj mem] at found
          exact absurd (beq_iff_eq.mpr same) (List.find?_eq_none.mp found key (every key))
      | some key =>
          have named := List.find?_some found
          rw [beq_iff_eq] at named
          constructor
          · intro same raw' mem key' same'
            cases Option.some.inj mem
            cases same
            exact apart key' _ (same'.trans named.symm)
          · intro each
            exact congrArg Property.own (each raw rfl key named)

theorem parse_default_iff (blank : (parseFilterParams p).query = []) :
    parseFilterParams p = FilterStore.fresh.state ↔ AsksNothing p := by
  have spiking : (parseFilterParams p).spikingOnly = false ↔ p.get "spike" ≠ some (ofString "1") := by
    simp [parseFilterParams]
  have limit : (parseFilterParams p).limit = none ↔ ∀ raw ∈ p.get "limit", parseLimit raw = none := by
    simp [parseFilterParams, Option.bind_eq_none_iff]
  constructor
  · intro same
    exact {
      statuses := (statuses_default_iff p).mp (by rw [same]; rfl)
      levels := (levels_default_iff p).mp (by rw [same]; rfl)
      window := (window_default_iff p).mp (by rw [same]; rfl)
      spiking := spiking.mp (by rw [same]; rfl)
      sort := (sort_default_iff p).mp (by rw [same]; rfl)
      limit := limit.mp (by rw [same]; rfl) }
  · intro nothing
    have statuses := (statuses_default_iff p).mpr nothing.statuses
    have levels := (levels_default_iff p).mpr nothing.levels
    have window := (window_default_iff p).mpr nothing.window
    have spiking := spiking.mpr nothing.spiking
    have sort := (sort_default_iff p).mpr nothing.sort
    have limit := limit.mpr nothing.limit
    generalize parseFilterParams p = f at *
    cases f
    simp only at blank statuses levels window spiking sort limit
    rw [blank, statuses, levels, window, spiking, sort, limit]
    rfl

end

/-- The effects come to rest, and then the store is what the link says exactly when the link asks for nothing. -/
theorem mount_iff (p : URLSearchParams) (blank : (parseFilterParams p).query = []) :
    (∃ sch, Settles effects (mounted p .fresh) sch) ∧
      ∀ sch, Settles effects (mounted p .fresh) sch →
        (sch.state.filter.state = parseFilterParams p ↔ AsksNothing p) := by
  refine ⟨exists_settled p, fun sch settles => ?_⟩
  rw [(settled p settles).1, eq_comm]
  exact parse_default_iff p blank

theorem mount_nothing :
    let p := [(ofString "spike", ofString "0"), (ofString "l", ofString "loud")]
    ∀ sch, Settles effects (mounted p .fresh) sch → sch.state.filter.state = parseFilterParams p := by
  intro p sch settles
  have blank : (parseFilterParams p).query = [] := by decide
  have same : parseFilterParams p = FilterStore.fresh.state := rfl
  exact ((mount_iff p blank).2 sch settles).mpr ((parse_default_iff p blank).mp same)

/-- `?s=resolved` is lost. -/
theorem mount_resolved : ¬ ∀ p : URLSearchParams, (parseFilterParams p).query = [] →
    ∀ sch, Settles effects (mounted p .fresh) sch → sch.state.filter.state = parseFilterParams p := by
  intro restored
  obtain ⟨sch, settles⟩ := exists_settled [(ofString "s", ofString "resolved")]
  have same := restored _ (by decide) sch settles
  rw [(settled _ settles).1] at same
  have statuses := congrArg FilterState.statuses same
  exact absurd statuses (by decide +kernel)

end Errex.Proof.Spa
