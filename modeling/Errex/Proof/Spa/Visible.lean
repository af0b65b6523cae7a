import Errex.Foundation.Ranking
import Errex.Model.Spa.Stores

/-!
# The visible list

The issues that pass the filter, in the order of the sort key and the id, as far as the limit goes: whatever the
order in which they arrived (`visible_spec`).
-/

namespace Errex.Proof.Spa.Stores
open Foundation Ranking Utf16 Model Spa Stores

variable {platform : Platform} {current : Utf16} {filter : FilterStore} {opts : VisibleIssuesOpts}

def rank (platform : Platform) (key : SortKey) (i : Stores.Issue) : ℤ ×ₗ ℤ :=
  let seen := (platform.dateParse i.lastSeen).getD 0
  match key with
  | .recent => toLex (-seen, i.id)
  | .stale => toLex (seen, i.id)
  | .count => toLex (-i.eventCount, i.id)

/-- The sort key decides, and the id where the keys are the same. -/
def Precedes (platform : Platform) (key : SortKey) (a b : Stores.Issue) : Prop :=
  rank platform key a < rank platform key b

def Dated (platform : Platform) (i : Stores.Issue) : Prop := (platform.dateParse i.lastSeen).isSome

theorem compareIssues_iff {a b : Stores.Issue} (dated : Dated platform a) (dated' : Dated platform b) (key : SortKey) :
    compareIssues platform a b key ≤ 0 ↔ rank platform key a ≤ rank platform key b := by
  obtain ⟨seen, parsed⟩ := Option.isSome_iff_exists.mp dated
  obtain ⟨seen', parsed'⟩ := Option.isSome_iff_exists.mp dated'
  cases key with
  | recent =>
      have difference : minus (some seen') (some seen) = some (seen' - seen) := rfl
      simp only [compareIssues, rank, parsed, parsed', Option.getD_some, difference, orTie, Prod.Lex.toLex_le_toLex]
      split_ifs <;> omega
  | stale =>
      have difference : minus (some seen) (some seen') = some (seen - seen') := rfl
      simp only [compareIssues, rank, parsed, parsed', Option.getD_some, difference, orTie, Prod.Lex.toLex_le_toLex]
      split_ifs <;> omega
  | count =>
      simp only [compareIssues, rank, orTie, Prod.Lex.toLex_le_toLex]
      split_ifs <;> omega

theorem orders_filtered {issues : List Stores.Issue} (dated : ∀ i ∈ issues, Dated platform i) (key : SortKey) :
    Orders (rank platform key) (fun a b => decide (compareIssues platform a b key ≤ 0)) issues := by
  intro a mem b mem'
  rw [decide_eq_true_iff]
  exact compareIssues_iff (dated a mem) (dated b mem') key

def SeenWithin (platform : Platform) (now : ℚ) (i : Stores.Issue) (window : Property Double) : Prop :=
  ∃ seen, platform.dateParse i.firstSeen = some seen ∧ ∀ start ∈ cutoff now window, start ≤ seen

/-- Every active filter lets the issue pass. -/
structure Passes (platform : Platform) (current : Utf16) (filter : FilterStore) (opts : VisibleIssuesOpts)
    (i : Stores.Issue) : Prop where
  project : i.project = current
  status : i.status ∈ filter.statuses
  level : filter.levels = ∅ ∨ ∃ l ∈ filter.levels, i.level.map platform.toLowerCase = some (levelName l)
  since : ∀ window ∈ filter.sinceMs, SeenWithin platform opts.now i window
  new : filter.newOnly = true → SeenWithin platform opts.now i (newWindow filter)
  stale : filter.staleOnly = true →
    (∃ seen, platform.dateParse i.firstSeen = some seen ∧ (seen : ℚ) ≤ opts.now - DAY) ∧ i.status = .unresolved
  spiking : filter.spikingOnly = true → ∃ isSpiking, opts.isSpiking = some isSpiking ∧ isSpiking i.id = true
  query : matchesQuery platform i (parseQuery platform filter.query) = true

theorem seenSince_iff (now : ℚ) (i : Stores.Issue) (window : Property Double) :
    seenSince platform i (cutoff now window) = true ↔ SeenWithin platform now i window := by
  cases seen : platform.dateParse i.firstSeen with
  | none => simp [seenSince, SeenWithin, seen]
  | some t => cases start : cutoff now window <;> simp [seenSince, SeenWithin, seen, start]

theorem level_iff (i : Stores.Issue) (levels : Finset Level) :
    (levels.card == 0 ||
      let lvl := (i.level.map platform.toLowerCase).getD []
      !lvl.isEmpty && decide (∃ l ∈ levels, levelName l = lvl)) = true ↔
      levels = ∅ ∨ ∃ l ∈ levels, i.level.map platform.toLowerCase = some (levelName l) := by
  have named : ∀ l, levelName l ≠ [] := by
    intro l
    cases l <;> decide
  rw [Bool.or_eq_true, beq_iff_eq, Finset.card_eq_zero]
  apply or_congr_right
  cases i.level.map platform.toLowerCase with
  | none => simp
  | some lvl =>
      simp only [Option.getD_some, Bool.and_eq_true, Bool.not_eq_true', List.isEmpty_eq_false_iff, decide_eq_true_eq,
        Option.some.injEq]
      constructor
      · rintro ⟨-, l, mem, same⟩
        exact ⟨l, mem, same.symm⟩
      · rintro ⟨l, mem, rfl⟩
        exact ⟨named l, l, mem, rfl⟩

theorem keeps_iff (i : Stores.Issue) :
    keeps platform current filter opts (parseQuery platform filter.query) i = true ↔ Passes platform current filter opts i := by
  have flag : ∀ {active condition : Bool}, (!active || condition) = true ↔ (active = true → condition = true) := by
    intro active condition
    cases active <;> simp
  have since : filter.sinceMs.all (fun ms => seenSince platform i (cutoff opts.now ms)) = true ↔
      ∀ window ∈ filter.sinceMs, SeenWithin platform opts.now i window := by
    cases filter.sinceMs <;> simp [seenSince_iff]
  have stale : ((platform.dateParse i.firstSeen).any (fun seen => !decide (opts.now - DAY < (seen : ℚ))) &&
      i.status == .unresolved) = true ↔
      (∃ seen, platform.dateParse i.firstSeen = some seen ∧ (seen : ℚ) ≤ opts.now - DAY) ∧ i.status = .unresolved := by
    cases platform.dateParse i.firstSeen <;> simp
  have spiking : (opts.isSpiking.any fun isSpiking => isSpiking i.id) = true ↔
      ∃ isSpiking, opts.isSpiking = some isSpiking ∧ isSpiking i.id = true := by
    cases opts.isSpiking <;> simp
  simp only [keeps, Bool.and_eq_true (_ && _), Bool.and_eq_true (_ == _), flag, since, stale, spiking, seenSince_iff, level_iff]
  constructor
  · rintro ⟨⟨⟨⟨⟨⟨⟨project, status⟩, level⟩, since⟩, new⟩, stale⟩, spiking⟩, query⟩
    exact ⟨beq_iff_eq.mp project, of_decide_eq_true status, level, since, new, stale, spiking, query⟩
  · rintro ⟨project, status, level, since, new, stale, spiking, query⟩
    exact ⟨⟨⟨⟨⟨⟨⟨beq_iff_eq.mpr project, decide_eq_true status⟩, level⟩, since⟩, new⟩, stale⟩, spiking⟩, query⟩

theorem sliceLimit_sublist (limit : Option Double) (issues : List Stores.Issue) : (sliceLimit limit issues).Sublist issues := by
  unfold sliceLimit
  split
  · split
    · exact List.take_sublist _ _
    · exact List.Sublist.refl _
  · exact List.Sublist.refl _
  · exact List.Sublist.refl _

/-- The list does not depend on the order in which the issues came into the store; it is strictly ordered by the sort key
and the id; without a limit it has exactly the issues that pass, and a positive limit leaves its first ones. -/
theorem visible_spec (platform : Platform) (issues : IssuesStore) (current : Utf16) (filter : FilterStore)
    (opts : VisibleIssuesOpts) {key : SortKey} (sort : filter.sort = .own key)
    (dated : ∀ i ∈ issues.list, Dated platform i) :
    (∀ other : IssuesStore, (∀ i, i ∈ other.list ↔ i ∈ issues.list) →
      visibleIssues platform other current filter opts = visibleIssues platform issues current filter opts) ∧
    (visibleIssues platform issues current filter opts).Pairwise (Precedes platform key) ∧
    (∀ i, i ∈ visibleIssues platform issues current { filter with limit := none } opts ↔
      i ∈ issues.list ∧ Passes platform current filter opts i) ∧
    (∀ n exact bounded, filter.limit = some (.finite n exact bounded) → 0 < n →
      visibleIssues platform issues current filter opts =
        (visibleIssues platform issues current { filter with limit := none } opts).take n) := by
  have sorted : ∀ limit (issues : IssuesStore), visibleIssues platform issues current { filter with limit } opts =
      sliceLimit limit ((issues.list.filter (keeps platform current filter opts (parseQuery platform filter.query))).mergeSort
        fun a b => decide (compareIssues platform a b key ≤ 0)) := by
    intro limit issues
    simp only [visibleIssues, sort, sortIssues]
    rfl
  generalize keep_eq : keeps platform current filter opts (parseQuery platform filter.query) = keep at sorted
  have orders := @orders_filtered _ (issues.list.filter keep) (fun i mem => dated i (List.mem_of_mem_filter mem)) key
  have ids : ((issues.list.filter keep).map Stores.Issue.id).Nodup := issues.nodup.sublist (List.filter_sublist.map _)
  have distinct : ((issues.list.filter keep).map (rank platform key)).Nodup := by
    apply List.Nodup.of_map fun r => (ofLex r).2
    have same : (issues.list.filter keep).map Stores.Issue.id =
        ((issues.list.filter keep).map (rank platform key)).map fun r => (ofLex r).2 := by
      rw [List.map_map]
      apply List.map_congr_left
      intro i _
      cases key <;> rfl
    rwa [← same]
  refine ⟨fun other same => ?_, ?_, fun i => ?_, fun n exact bounded limit positive => ?_⟩
  · have perm : (other.list.filter keep).Perm (issues.list.filter keep) := by
      apply List.Perm.filter
      exact (List.perm_ext_iff_of_nodup other.nodup.of_map issues.nodup.of_map).mpr same
    rw [sorted filter.limit other, sorted filter.limit issues, orders.sort_eq distinct perm]
  · rw [sorted filter.limit issues]
    exact (orders.strict distinct).sublist (sliceLimit_sublist _ _)
  · rw [sorted none issues]
    simp only [sliceLimit, List.mem_mergeSort, List.mem_filter, ← keep_eq, keeps_iff]
  · rw [sorted filter.limit issues, sorted none issues, limit]
    simp only [sliceLimit, if_pos positive]

def older : Stores.Issue where
  id := 1
  project := ofString "default"
  fingerprint := ofString "a"
  title := ofString "TypeError"
  culprit := none
  level := some (ofString "error")
  status := .unresolved
  eventCount := 3
  firstSeen := ofString "1970-01-01T00:00:00Z"
  lastSeen := ofString "1970-01-01T00:00:00Z"

def newer : Stores.Issue := { older with id := 2, fingerprint := ofString "b", lastSeen := ofString "1970-01-02T00:00:00Z" }

def browser : Platform where
  dateParse s :=
    if s = older.lastSeen then some 0
    else if s = newer.lastSeen then some 86400000
    else none
  toLowerCase := toLowerCase
  regExp _ := none

theorem visible_spec_two :
    visibleIssues browser (.reset [newer, older]) older.project .fresh ⟨0, none⟩ =
      visibleIssues browser (.reset [older, newer]) older.project .fresh ⟨0, none⟩ := by
  have spec := visible_spec browser (.reset [older, newer]) older.project .fresh ⟨0, none⟩ rfl (by
    have each : ((IssuesStore.reset [older, newer]).list.all fun i => (browser.dateParse i.lastSeen).isSome) = true := by decide
    exact List.all_eq_true.mp each)
  apply spec.1
  intro i
  have first : (IssuesStore.reset [newer, older]).list = [newer, older] := by decide
  have second : (IssuesStore.reset [older, newer]).list = [older, newer] := by decide
  rw [first, second]
  simp [or_comm]

end Errex.Proof.Spa.Stores
