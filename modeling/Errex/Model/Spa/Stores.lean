import Errex.Foundation.Table
import Errex.Model.Spa.QueryBridge

/-!
# The visible issues

`stores.svelte.ts`: the issues store and what `visibleIssues` leaves of it under a filter, in which order.
-/

namespace Errex.Model.Spa.Stores
open Foundation Utf16

structure Issue where
  id : Int
  project : Utf16
  fingerprint : Utf16
  title : Utf16
  culprit : Option Utf16
  level : Option Utf16
  status : IssueStatus
  eventCount : Int
  firstSeen : Utf16
  lastSeen : Utf16
  deriving DecidableEq

abbrev IssuesStore := Table Issue Int Issue.id

namespace IssuesStore

def list (issues : IssuesStore) : List Issue := issues.rows

def reset (issues : List Issue) : IssuesStore := issues.foldl Table.set .empty

end IssuesStore

/-- What JavaScript provides: `Date.parse` with `none` for `NaN`, `toLowerCase`, and the test of `new RegExp(src, 'i')`
with `none` for a pattern that it refuses. -/
structure Platform where
  dateParse : Utf16 → Option Int
  toLowerCase : Utf16 → Utf16
  regExp : Utf16 → Option (Utf16 → Bool)

variable (platform : Platform)

inductive ParsedQuery where
  | empty
  | substring (q : Utf16)
  | regex (test : Utf16 → Bool)
  | badRegex (q : Utf16)

def parseQuery (raw : Utf16) : ParsedQuery :=
  let q := trim raw
  if q.isEmpty then .empty
  else if !(q.head? == some (unit '/')) || q.length < 2 then .substring q
  else
    let src := q.drop 1
    let src := if src.getLast? == some (unit '/') then src.dropLast else src
    if src.isEmpty then .badRegex q
    else match platform.regExp src with
      | some test => .regex test
      | none => .badRegex q

def includes (s q : Utf16) : Bool := decide (q <:+: s)

def matchesQuery (i : Issue) : ParsedQuery → Bool
  | .empty => true
  | .regex test => test i.title || test (i.culprit.getD [])
  | .substring q | .badRegex q =>
      let ql := platform.toLowerCase q
      includes (platform.toLowerCase i.title) ql ||
        (i.culprit.map fun culprit => includes (platform.toLowerCase culprit) ql).getD false ||
        includes (platform.toLowerCase i.fingerprint) ql

def minus (a b : Option Int) : Option Int := do return (← a) - (← b)

/-- `difference || tie`: zero and `NaN` are falsy. -/
def orTie (difference : Option Int) (tie : Int) : Int :=
  match difference with
  | some d => if d = 0 then tie else d
  | none => tie

def compareIssues (a b : Issue) (key : SortKey) : Int :=
  let tie := a.id - b.id
  match key with
  | .recent => orTie (minus (platform.dateParse b.lastSeen) (platform.dateParse a.lastSeen)) tie
  | .stale => orTie (minus (platform.dateParse a.lastSeen) (platform.dateParse b.lastSeen)) tie
  | .count => orTie (some (b.eventCount - a.eventCount)) tie

/-- `filtered.sort(…)`, a stable sort; what is no sort key compares nothing. -/
def sortIssues (filtered : List Issue) : Property SortKey → List Issue
  | .own key => filtered.mergeSort fun a b => decide (compareIssues platform a b key ≤ 0)
  | .inherited _ => filtered

structure VisibleIssuesOpts where
  now : ℚ
  isSpiking : Option (Int → Bool)

def cutoff (now : ℚ) : Property Double → Option ℚ
  | .own (.finite n _ _) => some (now - n)
  | .own .infinity => none
  | .inherited _ => none

def seenSince (i : Issue) (cutoff : Option ℚ) : Bool :=
  (platform.dateParse i.firstSeen).any fun seen => !cutoff.any fun c => decide ((seen : ℚ) < c)

def newWindow (filter : FilterStore) : Property Double := filter.sinceMs.getD (.own (.ofNat HOUR))

def keeps (current : Utf16) (filter : FilterStore) (opts : VisibleIssuesOpts) (parsed : ParsedQuery) (i : Issue) : Bool :=
  i.project == current &&
  decide (i.status ∈ filter.statuses) &&
  (filter.levels.card == 0 ||
    let lvl := (i.level.map platform.toLowerCase).getD []
    !lvl.isEmpty && decide (∃ l ∈ filter.levels, levelName l = lvl)) &&
  filter.sinceMs.all (fun ms => seenSince platform i (cutoff opts.now ms)) &&
  (!filter.newOnly || seenSince platform i (cutoff opts.now (newWindow filter))) &&
  (!filter.staleOnly ||
    (platform.dateParse i.firstSeen).any (fun seen => !decide (opts.now - DAY < (seen : ℚ))) && i.status == .unresolved) &&
  (!filter.spikingOnly || opts.isSpiking.any fun isSpiking => isSpiking i.id) &&
  matchesQuery platform i parsed

def sliceLimit (limit : Option Double) (filtered : List Issue) : List Issue :=
  match limit with
  | some (.finite n _ _) => if 0 < n then filtered.take n else filtered
  | some .infinity => filtered
  | none => filtered

def visibleIssues (issues : IssuesStore) (current : Utf16) (filter : FilterStore) (opts : VisibleIssuesOpts) : List Issue :=
  let parsed := parseQuery platform filter.query
  let filtered := issues.list.filter (keeps platform current filter opts parsed)
  sliceLimit filter.limit (sortIssues platform filtered filter.sort)

end Errex.Model.Spa.Stores
