import Errex.Foundation.Effects
import Errex.Model.Spa.FilterUrl

/-!
# The issue list

`IssueList.svelte` as it keeps the filter store, the input text and the URL together: the mount handler and the three
effects, with the values that each of them reads and sets.
-/

namespace Errex.Model.Spa
open Foundation Utf16

inductive Source where
  | query
  | statuses
  | levels
  | sinceMs
  | spikingOnly
  | sort
  | limit
  | newOnly
  | staleOnly
  | inputValue
  | lastWrittenByInput
  deriving DecidableEq

/-- The fields that get another value when `after` is assigned to a store: a set is another object each time. -/
def FilterStore.sets (before after : FilterStore) : Finset Source :=
  {.statuses, .levels} ∪ (if after.query = before.query then ∅ else {.query}) ∪
    (if after.sinceMs = before.sinceMs then ∅ else {.sinceMs}) ∪
    (if after.spikingOnly = before.spikingOnly then ∅ else {.spikingOnly}) ∪
    (if after.sort = before.sort then ∅ else {.sort}) ∪ (if after.limit = before.limit then ∅ else {.limit}) ∪
    (if after.newOnly = before.newOnly then ∅ else {.newOnly}) ∪
    (if after.staleOnly = before.staleOnly then ∅ else {.staleOnly})

structure IssueList where
  search : URLSearchParams
  filter : FilterStore
  inputValue : Utf16
  lastWrittenByInput : Utf16

namespace IssueList

def create (search : URLSearchParams) (filter : FilterStore) : IssueList :=
  ⟨search, filter, filterToQueryString filter, filterToQueryString filter⟩

inductive Hook where
  | onMount
  | pushUrl
  | readInput
  | printFilter
  deriving DecidableEq

instance : Fintype Hook where
  elems := {.onMount, .pushUrl, .readInput, .printFilter}
  complete := by
    intro hook
    cases hook <;> decide

def onMount (c : IssueList) : EffectRun IssueList Source :=
  let next := c.filter.hydrate (parseFilterParams c.search)
  ⟨{ c with filter := next }, ∅, c.filter.sets next⟩

def pushUrl (c : IssueList) : EffectRun IssueList Source :=
  ⟨{ c with search := serializeFilterParams c.filter.state },
    {.query, .statuses, .levels, .sinceMs, .spikingOnly, .sort, .limit}, ∅⟩

/-- The effect on `inputValue`; what it does behind `untrack` is not tracked. -/
def readInput (c : IssueList) : EffectRun IssueList Source :=
  let next := applyInputToFilter c.inputValue c.filter
  let written := filterToQueryString next
  ⟨{ c with filter := next, lastWrittenByInput := written }, {.inputValue},
    c.filter.sets next ∪ if written = c.lastWrittenByInput then ∅ else {.lastWrittenByInput}⟩

def printFilter (c : IssueList) : EffectRun IssueList Source :=
  let fromFilter := filterToQueryString c.filter
  let reads : Finset Source :=
    {.statuses, .levels, .sinceMs, .spikingOnly, .sort, .newOnly, .staleOnly, .limit, .query}
  if fromFilter = c.lastWrittenByInput then ⟨c, reads, ∅⟩
  else ⟨{ c with inputValue := fromFilter, lastWrittenByInput := fromFilter }, reads,
    {.lastWrittenByInput} ∪ if fromFilter = c.inputValue then ∅ else {.inputValue}⟩

def effects : Hook → IssueList → EffectRun IssueList Source
  | .onMount => onMount
  | .pushUrl => pushUrl
  | .readInput => readInput
  | .printFilter => printFilter

def mounted (search : URLSearchParams) (filter : FilterStore) : Scheduler Hook IssueList Source :=
  .mount effects [.onMount, .pushUrl, .readInput, .printFilter] (create search filter)

end IssueList

end Errex.Model.Spa
