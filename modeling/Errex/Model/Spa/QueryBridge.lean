import Errex.Model.Spa.QueryParser

/-!
# Between the input text and the filter store

`queryBridge.ts` and the filter store of `stores.svelte.ts`: a query writes the fields of the store, and the store
is printed as a canonical input text.
-/

namespace Errex.Model.Spa
open Foundation Utf16

structure FilterStore where
  query : Utf16
  statuses : Finset IssueStatus
  levels : Finset Level
  sinceMs : Option (Property Double)
  spikingOnly : Bool
  sort : Property SortKey
  limit : Option Double
  newOnly : Bool
  staleOnly : Bool

def STATUS_DEFAULT : Finset IssueStatus := {.unresolved}

def STATUS_ORDER : List IssueStatus := [.unresolved, .resolved, .muted, .ignored]

def LEVEL_ORDER : List Level := [.fatal, .error, .warning, .info, .debug]

def FilterStore.fresh : FilterStore :=
  ⟨[], STATUS_DEFAULT, ∅, none, false, .own .recent, none, false, false⟩

def setEqualsDefaultStatuses (s : Finset IssueStatus) : Bool :=
  s.card == STATUS_DEFAULT.card && decide (∀ v ∈ STATUS_DEFAULT, v ∈ s)

def escapeSlashes (s : Utf16) : Utf16 :=
  s.flatMap fun u => if u == unit '/' then [unit '\\', unit '/'] else [u]

def textPart (t : TextMatcher) : Utf16 :=
  if t.isPattern then unit '/' :: escapeSlashes t.value ++ [unit '/'] else t.value

def freeText (query : Query) : Utf16 := join ' ' (query.text.map textPart ++ query.words)

def chosen {α : Type} [DecidableEq α] (order : List α) (default positive negative : Finset α) : Finset α :=
  if 0 < negative.card && positive.card == 0 then order.toFinset \ negative
  else if 0 < positive.card then positive
  else default

def applyQueryToFilter (query : Query) (filter : FilterStore) : FilterStore :=
  { filter with
    statuses := chosen STATUS_ORDER STATUS_DEFAULT query.statuses query.negStatuses
    levels := chosen LEVEL_ORDER ∅ query.levels query.negLevels
    sinceMs := query.sinceMs.map .own
    spikingOnly := query.spiking
    newOnly := query.newOnly
    staleOnly := query.staleOnly
    sort := query.sort.getD (.own .recent)
    limit := query.limit
    query := freeText query }

def applyInputToFilter (input : Utf16) (filter : FilterStore) : FilterStore :=
  applyQueryToFilter (parseQuery input).2 filter

def SortKey.name : SortKey → String
  | .recent => "recent"
  | .stale => "stale"
  | .count => "count"

/-- The text of what a property of `Object.prototype` holds: an object under `__proto__`, functions elsewhere. -/
def inheritedText (name : Utf16) : Utf16 :=
  if name == ofString "__proto__" then ofString "[object Object]"
  else
    ofString "function " ++ (if name == ofString "constructor" then ofString "Object" else name) ++
      ofString "() \x7b [native code] \x7d"

def sortText : Property SortKey → Utf16
  | .own key => ofString key.name
  | .inherited name => inheritedText name

def sincePresets : List (Nat × String) :=
  [(7 * DAY, "7d"), (DAY, "24h"), (HOUR, "1h"), (15 * 60 * 1000, "15m"), (5 * 60 * 1000, "5m")]

def formatSince : Property Double → Utf16
  | .own ms =>
      match sincePresets.find? fun (v, _) => ms == .ofNat v with
      | some (_, token) => ofString token
      | none =>
          if ms.isMultipleOf DAY then (ms.dividedBy DAY).toText ++ [unit 'd']
          else if ms.isMultipleOf HOUR then (ms.dividedBy HOUR).toText ++ [unit 'h']
          else (ms.roundedQuotient 60000).toText ++ [unit 'm']
  | .inherited _ => ofString "NaNm"

def facets (filter : FilterStore) : List Utf16 :=
  (if 0 < filter.levels.card then [join ',' ((LEVEL_ORDER.filter (· ∈ filter.levels)).map levelName)] else []) ++
  (if setEqualsDefaultStatuses filter.statuses then []
    else [ofString "status:" ++ join ',' ((STATUS_ORDER.filter (· ∈ filter.statuses)).map statusName)]) ++
  (filter.sinceMs.map formatSince).toList ++
  (if filter.spikingOnly then [ofString "spiking"] else []) ++
  (if filter.newOnly then [ofString "new"] else []) ++
  (if filter.staleOnly then [ofString "stale"] else []) ++
  (if filter.sort == .own .recent then [] else [ofString "sort:" ++ sortText filter.sort]) ++
  (filter.limit.map fun n => ofString "limit:" ++ n.toText).toList

def filterToQueryString (filter : FilterStore) : Utf16 :=
  join ' ' (facets filter ++ if 0 < (trim filter.query).length then [trim filter.query] else [])

end Errex.Model.Spa
