import Errex.Model.Spa.QueryBridge

/-!
# The filter in the URL

`filterUrl.ts`: the filter state as search parameters, and its reading from them; and the mount handler of
`IssueList.svelte`, which assigns what it reads to the filter store.
-/

namespace Errex.Model.Spa
open Foundation Utf16

structure FilterState where
  query : Utf16
  statuses : Finset IssueStatus
  levels : Finset Level
  sinceMs : Option (Property Double)
  spikingOnly : Bool
  sort : Property SortKey
  limit : Option Double

abbrev URLSearchParams := List (Utf16 × Utf16)

namespace URLSearchParams

def get (p : URLSearchParams) (name : String) : Option Utf16 := p.lookup (ofString name)

def set (p : URLSearchParams) (name : String) (value : Utf16) : URLSearchParams :=
  p ++ [(ofString name, toWellFormed value)]

def setIf (condition : Bool) (name : String) (value : Utf16) (p : URLSearchParams) : URLSearchParams :=
  if condition then p.set name value else p

end URLSearchParams

open URLSearchParams

def ALL_STATUSES : List IssueStatus := [.unresolved, .resolved, .muted, .ignored]

def ALL_LEVELS : List Level := [.debug, .info, .warning, .error, .fatal]

def ALL_SORTS : List SortKey := [.recent, .stale, .count]

def SINCE_PRESETS : List (String × Double) :=
  [("5m", .ofNat (5 * 60 * 1000)), ("15m", .ofNat (15 * 60 * 1000)), ("1h", .ofNat (60 * 60 * 1000)),
    ("24h", .ofNat (24 * 60 * 60 * 1000)), ("7d", .ofNat (7 * 24 * 60 * 60 * 1000))]

def csvSorted {α : Type} [DecidableEq α] (alphabetical : List α) (name : α → Utf16) (s : Finset α) : Utf16 :=
  join ',' ((alphabetical.filter (· ∈ s)).map name)

def sinceMsToToken : Property Double → Option Utf16
  | .own ms => (SINCE_PRESETS.find? fun (_, value) => value == ms).map fun (token, _) => ofString token
  | .inherited _ => none

def serializeFilterParams (f : FilterState) : URLSearchParams :=
  let since := f.sinceMs.bind sinceMsToToken
  ([] : URLSearchParams)
    |> setIf (0 < (trim f.query).length) "q" f.query
    |> setIf (!setEqualsDefaultStatuses f.statuses) "s"
      (csvSorted [.ignored, .muted, .resolved, .unresolved] statusName f.statuses)
    |> setIf (0 < f.levels.card) "l" (csvSorted [.debug, .error, .fatal, .info, .warning] levelName f.levels)
    |> setIf since.isSome "since" (since.getD [])
    |> setIf f.spikingOnly "spike" (ofString "1")
    |> setIf (f.sort != .own .recent) "sort" (sortText f.sort)
    |> setIf (f.limit.any Double.isPositive) "limit" ((f.limit.map Double.toText).getD [])

def readSet {α : Type} [DecidableEq α] (all : List α) (name : α → Utf16) (raw : Utf16) : Finset α :=
  (((splitComma raw).map trim).filterMap fun t => all.find? fun a => name a == t).toFinset

def parseLimit (raw : Utf16) : Option Double :=
  match Double.parseInt raw with
  | some (false, n) => if n.isPositive && n.isAtMost 10000 then some n else none
  | _ => none

def parseFilterParams (p : URLSearchParams) : FilterState where
  query := (p.get "q").getD []
  statuses := match p.get "s" with
    | none => {.unresolved}
    | some sRaw =>
        let statuses := readSet ALL_STATUSES statusName sRaw
        if statuses.card == 0 then {.unresolved} else statuses
  levels := match p.get "l" with
    | none => ∅
    | some lRaw => readSet ALL_LEVELS levelName lRaw
  sinceMs := (p.get "since").bind (index SINCE_PRESETS)
  spikingOnly := p.get "spike" == some (ofString "1")
  sort := .own (((p.get "sort").bind fun sortRaw =>
    ALL_SORTS.find? fun key => ofString key.name == sortRaw).getD .recent)
  limit := (p.get "limit").bind parseLimit

def FilterStore.state (filter : FilterStore) : FilterState :=
  ⟨filter.query, filter.statuses, filter.levels, filter.sinceMs, filter.spikingOnly, filter.sort, filter.limit⟩

def FilterStore.hydrate (filter : FilterStore) (next : FilterState) : FilterStore :=
  { filter with
    query := next.query
    statuses := next.statuses
    levels := next.levels
    sinceMs := next.sinceMs
    spikingOnly := next.spikingOnly
    sort := next.sort
    limit := next.limit }

end Errex.Model.Spa
