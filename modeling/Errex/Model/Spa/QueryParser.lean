import Errex.Foundation.Double
import Errex.Foundation.Regex
import Errex.Model.Proto

/-!
# The filter-query parser

`queryParser.ts`: the tokens of an input text and the query that they build. A rule works on the text from the
cursor on, so the spans that it reports count from there; `tokenizeFrom` moves them to the cursor.
-/

namespace Errex.Model.Spa
open Foundation Utf16 Regex

inductive SortKey where
  | recent
  | stale
  | count
  deriving DecidableEq, Repr

inductive FilterKeyword where
  | spiking
  | new
  | stale
  | crashing
  deriving DecidableEq, Repr

inductive Operator where
  | and
  | or
  | not
  deriving DecidableEq, Repr

/-- What indexing an object literal finds: a property of its own, or one of `Object.prototype` under its name. -/
inductive Property (α : Type) where
  | own (value : α)
  | inherited (name : Utf16)
  deriving DecidableEq

inductive TokenKind where
  | level (values : List Level)
  | status (values : List IssueStatus)
  | time (ms : Double)
  | keyword (value : Property FilterKeyword)
  | sort (key : Property SortKey)
  | limit (n : Double)
  | filler
  | op (value : Operator)
  | neg
  | text (value : Utf16) (isPattern : Bool)
  | tag (key : Option Utf16) (values : List Utf16)
  | url (value : Utf16) (isPattern : Bool)
  | saved (name : Utf16)
  | save (name : Utf16)
  | forget (name : Utf16)
  | word (value : Utf16)
  deriving DecidableEq

structure Token where
  kind : TokenKind
  span : Nat × Nat
  deriving DecidableEq

namespace Token

def isSort (t : Token) : Bool := match t.kind with
  | .sort _ => true
  | _ => false

def isNeg (t : Token) : Bool := t.kind == .neg

def shift (i : Nat) (t : Token) : Token := { t with span := (i + t.span.1, i + t.span.2) }

end Token

structure TextMatcher where
  value : Utf16
  isPattern : Bool
  deriving DecidableEq

structure TagFilter where
  key : Option Utf16
  values : List Utf16
  deriving DecidableEq

def LEVELS : List Level := [.fatal, .error, .warning, .info, .debug]

def STATUSES : List IssueStatus := [.unresolved, .resolved, .muted, .ignored]

def levelName : Level → Utf16
  | .fatal => ofString "fatal"
  | .error => ofString "error"
  | .warning => ofString "warning"
  | .info => ofString "info"
  | .debug => ofString "debug"

def statusName (s : IssueStatus) : Utf16 := ofString s.asDbStr

def objectPrototype : List Utf16 :=
  ["constructor", "__defineGetter__", "__defineSetter__", "hasOwnProperty", "__lookupGetter__", "__lookupSetter__",
    "isPrototypeOf", "propertyIsEnumerable", "toString", "valueOf", "__proto__", "toLocaleString"].map ofString

def index {α : Type} (object : List (String × α)) (key : Utf16) : Option (Property α) :=
  match object.find? fun (name, _) => ofString name == key with
  | some (_, value) => some (.own value)
  | none => if key ∈ objectPrototype then some (.inherited key) else none

def HOUR : Nat := 60 * 60 * 1000

def DAY : Nat := 24 * HOUR

def unitParse (n : Double) (u : Utf16) : Double :=
  match toLowerCase u with
  | [] => ((n.times 24).times 60).times 60 |>.times 1000
  | first :: _ =>
      if first == unit 'm' then (n.times 60).times 1000
      else if first == unit 'h' then ((n.times 60).times 60).times 1000
      else (((n.times 24).times 60).times 60).times 1000

def counted (m : Match) : Double := unitParse (.ofNat (numeral ((m.group 1).getD []))) ((m.group 2).getD [])

def single (m : Match) : Double := unitParse (.ofNat 1) ((m.group 1).getD [])

def unitNames : List String :=
  ["m", "min", "minute", "minutes", "h", "hr", "hour", "hours", "d", "day", "days"]

/-- `(\d+)\s*(m|min|…)`. -/
def countAndUnit : Regex := seq [group 1 digits, spaces, group 2 (words unitNames)]

def TIME_PATTERNS : List (Regex × (Match → Double)) := [
  (seq [anyOf [seq [word "last", gap, word "night"], word "overnight"], boundary], fun _ => .ofNat (14 * HOUR)),
  (seq [word "this", gap, word "morning", boundary], fun _ => .ofNat (12 * HOUR)),
  (seq [words ["this", "past", "last"], gap, word "week", boundary], fun _ => .ofNat (7 * DAY)),
  (seq [words ["this", "past", "last"], gap, word "month", boundary], fun _ => .ofNat (30 * DAY)),
  (seq [anyOf [seq [word "since", gap, word "yesterday"], seq [word "past", gap, word "day"]], boundary],
    fun _ => .ofNat (2 * DAY)),
  (seq [words ["in", "over", "for"], gap, word "the", gap, words ["last", "past"], gap, countAndUnit, boundary], counted),
  (seq [word "the", gap, words ["last", "past"], gap, countAndUnit, boundary], counted),
  (seq [words ["last", "past"], gap, countAndUnit, boundary], counted),
  (seq [word "since", gap, countAndUnit, opt (seq [gap, word "ago"]), boundary], counted),
  (seq [countAndUnit, gap, word "ago", boundary], counted),
  (seq [opt (seq [word "the", gap]), words ["last", "past", "this"], gap,
    group 1 (words ["minute", "min", "hour", "hr", "day"]), boundary], single),
  (seq [word "a", opt (word "n"), gap, group 1 (words ["minute", "hour", "day"]), boundary], single),
  (seq [group 1 (words ["today", "yesterday", "now"]), boundary], fun m =>
    let w := toLowerCase ((m.group 1).getD [])
    if w == ofString "now" then .ofNat (5 * 60 * 1000)
    else if w == ofString "today" then .ofNat DAY
    else .ofNat (2 * DAY)),
  (seq [group 1 digits, spaces, group 2 (words ["m", "min", "minutes", "h", "hr", "hour", "hours", "d", "day", "days"]),
    boundary], counted)]

def isNameUnit (u : CodeUnit) : Bool := isWord u || u == unit '-'

def isBareUnit (u : CodeUnit) : Bool := isWord u || u == unit '*' || u == unit '-'

/-- The values from `s` on and how many units they take; a comma after the last value is among these. -/
def bareValues {α : Type} (resolve : Utf16 → Option α) : Nat → Utf16 → List α × Nat
  | 0, _ => ([], 0)
  | fuel + 1, s =>
      match exec (plus (one isNameUnit)) s with
      | none => ([], 0)
      | some m => match resolve (toLowerCase m.text) with
        | none => ([], 0)
        | some v => match s.drop m.text.length with
          | [] => ([v], m.text.length)
          | u :: rest =>
              if u == unit ',' then
                let (values, length) := bareValues resolve fuel rest
                (v :: values, m.text.length + 1 + length)
              else ([v], m.text.length)

def parseBareCsv {α : Type} (resolve : Utf16 → Option α) (s : Utf16) : Option (List α × Nat) :=
  match bareValues resolve s.length s with
  | ([], _) => none
  | found => some found

def findLevel (v : Utf16) : Option Level :=
  LEVELS.find? fun l => v == levelName l || v == levelName l ++ ofString "s"

def findStatus (v : Utf16) : Option IssueStatus := STATUSES.find? fun s => v == statusName s

structure Lexed where
  tokens : List Token
  length : Nat
  deriving DecidableEq

def Lexed.whole (kind : TokenKind) (length : Nat) : Lexed := ⟨[⟨kind, (0, length)⟩], length⟩

def name (k : Nat) : Regex := group k (plus (one isNameUnit))

def saveRe : Regex := seq [word "save", gap, word "as", spaces, one (· == unit ':'), spaces, name 1]

def saveRule (s : Utf16) : Option Lexed :=
  (exec saveRe s).map fun m =>
    .whole (.save ((m.group 1).getD [])) m.text.length

def forgetRe : Regex := seq [words ["forget", "unsave"], gap, opt (one (· == unit '@')), name 1]

def forgetRule (s : Utf16) : Option Lexed :=
  (exec forgetRe s).map fun m =>
    .whole (.forget ((m.group 1).getD [])) m.text.length

def topRe : Regex := seq [group 1 (words ["top", "first"]), gap, group 2 digits, boundary]

def topRule (s : Utf16) : Option Lexed :=
  (exec topRe s).map fun m =>
    let w := (m.group 1).getD []
    let numStr := (m.group 2).getD []
    let numStart := (lastIndexOf m.text numStr).getD 0
    let sort := if toLowerCase w == ofString "top" then [⟨.sort (.own .count), (0, w.length)⟩] else []
    ⟨sort ++ [⟨.limit (.ofNat (numeral numStr)), (numStart, numStart + numStr.length)⟩], m.text.length⟩

def mostSort (w : Utf16) : SortKey :=
  if w == ofString "recent" || w == ofString "new" then .recent
  else if w == ofString "old" || w == ofString "stale" then .stale
  else .count

def mostRe : Regex :=
  seq [word "most", gap, group 1 (words ["recent", "frequent", "spiking", "noisy", "new", "old", "stale"]),
    opt (seq [gap, group 2 digits]), boundary]

def mostRule (s : Utf16) : Option Lexed :=
  (exec mostRe s).map fun m =>
    let sortBy := mostSort (toLowerCase ((m.group 1).getD []))
    match m.group 2 with
    | some numStr =>
        let numStart := (lastIndexOf m.text numStr).getD 0
        let sortEnd := (trimEnd (m.text.take numStart)).length
        ⟨[⟨.sort (.own sortBy), (0, sortEnd)⟩,
          ⟨.limit (.ofNat (numeral numStr)), (numStart, numStart + numStr.length)⟩], m.text.length⟩
    | none => .whole (.sort (.own sortBy)) m.text.length

def limitRe : Regex := seq [word "limit", spaces, opt (one (· == unit ':')), spaces, group 1 digits, boundary]

def limitRule (s : Utf16) : Option Lexed :=
  (exec limitRe s).map fun m =>
    .whole (.limit (.ofNat (numeral ((m.group 1).getD [])))) m.text.length

def timeRule (s : Utf16) : Option Lexed :=
  TIME_PATTERNS.findSome? fun (re, build) => (exec re s).map fun m => .whole (.time (build m)) m.text.length

def opRe : Regex := seq [group 1 (anyOf [exactly "AND", exactly "OR", exactly "NOT"]), boundary]

def opRule (s : Utf16) : Option Lexed :=
  (exec opRe s).map fun m =>
    let value := (m.group 1).getD []
    .whole (.op (if value == ofString "AND" then .and else if value == ofString "OR" then .or else .not)) m.text.length

def negRule : Utf16 → Option Lexed
  | u :: v :: _ => if u == unit '-' && !isSpace v then some (.whole .neg 1) else none
  | _ => none

def textKind (raw : Utf16) : TokenKind := .text (withoutStars raw) (raw.contains (unit '*'))

def quotedRule : Utf16 → Option Lexed
  | [] => none
  | u :: rest =>
      if u == unit '"' then
        match indexOf rest (unit '"') with
        | none => some (.whole (textKind rest) (rest.length + 1))
        | some stop => some (.whole (textKind (rest.take stop)) (stop + 2))
      else none

def savedRe : Regex := seq [one (· == unit '@'), name 1]

def savedRule (s : Utf16) : Option Lexed :=
  (exec savedRe s).map fun m => .whole (.saved ((m.group 1).getD [])) m.text.length

/-- `[\w*-]+(?:,[\w*-]+)*`. -/
def bareList : Regex :=
  seq [plus (one isBareUnit), star (seq [one (· == unit ','), plus (one isBareUnit)])]

def listed (s : Utf16) : List Utf16 := ((splitComma s).map trim).filter (!·.isEmpty)

def tagRe : Regex :=
  seq [word "tag", spaces, one (· == unit ':'), spaces, name 1,
    opt (seq [spaces, one (· == unit ':'), spaces, group 2 bareList])]

def tagRule (s : Utf16) : Option Lexed :=
  (exec tagRe s).map fun m =>
    let first := toLowerCase ((m.group 1).getD [])
    match m.group 2 with
    | some values => .whole (.tag (some first) (listed values)) m.text.length
    | none => .whole (.tag none [first]) m.text.length

def isQuote (u : CodeUnit) : Bool := u == unit '"'

def unquoted (raw : Utf16) : Utf16 :=
  if raw.head?.any isQuote && raw.getLast?.any isQuote then (raw.drop 1).take (raw.length - 2) else raw

def urlRe : Regex :=
  seq [word "url", spaces, one (· == unit ':'), spaces,
    group 1 (anyOf [seq [one isQuote, star (one fun u => !isQuote u), one isQuote], plus (one fun u => !isSpace u)])]

def urlRule (s : Utf16) : Option Lexed :=
  (exec urlRe s).map fun m =>
    let raw := unquoted ((m.group 1).getD [])
    .whole (.url (withoutStars raw) (raw.contains (unit '*'))) m.text.length

def sortMap : List (String × SortKey) :=
  [("count", .count), ("frequent", .count), ("noisy", .count), ("top", .count), ("loudest", .count),
    ("recent", .recent), ("newest", .recent), ("latest", .recent), ("stale", .stale), ("oldest", .stale)]

def keywordNames : List (String × FilterKeyword) :=
  [("spiking", .spiking), ("new", .new), ("stale", .stale), ("crashing", .crashing)]

def isKind (v : Utf16) : Option TokenKind :=
  let vl := toLowerCase v
  match LEVELS.find? fun l => vl == levelName l with
  | some lv => some (.level [lv])
  | none => match findStatus vl with
    | some st => some (.status [st])
    | none => (keywordNames.find? fun (name, _) => vl == ofString name).map fun (_, kw) => .keyword (.own kw)

def fieldKinds (field : Utf16) (rawValues : List Utf16) : List TokenKind :=
  if field == ofString "level" then
    match rawValues.filterMap fun v => findLevel (toLowerCase v) with
    | [] => []
    | vals => [.level vals]
  else if field == ofString "status" then
    match rawValues.filterMap fun v => findStatus (toLowerCase v) with
    | [] => []
    | vals => [.status vals]
  else if field == ofString "text" then rawValues.map textKind
  else if field == ofString "is" || field == ofString "has" then rawValues.filterMap isKind
  else if field == ofString "sort" then
    ((index sortMap ((rawValues.head?.map toLowerCase).getD [])).map TokenKind.sort).toList
  else []

def fieldRe : Regex :=
  seq [group 1 (words ["level", "status", "text", "is", "has", "sort"]), spaces, one (· == unit ':'), spaces,
    group 2 bareList]

def fieldRule (s : Utf16) : Option Lexed :=
  (exec fieldRe s).map fun m =>
    let kinds := fieldKinds (toLowerCase ((m.group 1).getD [])) (listed ((m.group 2).getD []))
    ⟨kinds.map fun kind => ⟨kind, (0, m.text.length)⟩, m.text.length⟩

def kwMap : List (String × FilterKeyword) :=
  [("spiking", .spiking), ("new", .new), ("fresh", .new), ("stale", .stale), ("old", .stale), ("zombie", .stale)]

def sortAliases : List (String × SortKey) :=
  [("noisy", .count), ("top", .count), ("loudest", .count), ("frequent", .count), ("newest", .recent),
    ("latest", .recent)]

def FILLERS : List Utf16 :=
  ["issues", "issue", "results", "result", "events", "event", "items", "item", "rows"].map ofString

def csvRule (s : Utf16) : Option Lexed :=
  match parseBareCsv findLevel s with
  | some (l₁ :: l₂ :: values, length) => some (.whole (.level (l₁ :: l₂ :: values)) length)
  | _ => match parseBareCsv findStatus s with
    | some (s₁ :: s₂ :: values, length) => some (.whole (.status (s₁ :: s₂ :: values)) length)
    | _ => none

def wordKind (last : Option Token) (w : Utf16) : TokenKind :=
  let lower := toLowerCase w
  match findLevel lower with
  | some l => .level [l]
  | none => match findStatus lower with
    | some st => .status [st]
    | none =>
        if lower == ofString "crashes" || lower == ofString "crashing" then .level [.fatal]
        else match index kwMap lower with
          | some kw => .keyword kw
          | none => match index sortAliases lower with
            | some key => .sort key
            | none =>
                if lower ∈ FILLERS then .filler
                else if w.all isDigit && last.any Token.isSort then .limit (.ofNat (numeral w))
                else if w.contains (unit '*') then .text (withoutStars w) true
                -- `500s`
                else if 2 ≤ w.length && w.dropLast.all isDigit && w.getLast? == some (unit 's') then .word w.dropLast
                else .word w

def bareRule (last : Option Token) (s : Utf16) : Option Lexed :=
  (exec (plus (one isBareUnit)) s).map fun m =>
    (csvRule s).getD (.whole (wordKind last m.text) m.text.length)

def rules : List (Utf16 → Option Lexed) :=
  [saveRule, forgetRule, topRule, mostRule, limitRule, timeRule, opRule, negRule, quotedRule, savedRule, tagRule,
    urlRule, fieldRule]

def lex (last : Option Token) (s : Utf16) : Lexed :=
  if s.head?.any isSpace then ⟨[], 1⟩
  else match rules.findSome? fun rule => rule s with
    | some lexed => lexed
    | none => (bareRule last s).getD ⟨[], 1⟩

def tokenizeFrom : Nat → Nat → Option Token → Utf16 → List Token
  | 0, _, _, _ => []
  | _, _, _, [] => []
  | fuel + 1, i, last, u :: rest =>
      let lexed := lex last (u :: rest)
      let tokens := lexed.tokens.map (Token.shift i)
      tokens ++ tokenizeFrom fuel (i + lexed.length) (tokens.getLast?.or last) ((u :: rest).drop lexed.length)

/-- Every round moves the cursor, so there are at most as many rounds as units. -/
def tokenize (input : Utf16) : List Token := tokenizeFrom input.length 0 none input

structure Query where
  levels : Finset Level
  statuses : Finset IssueStatus
  sinceMs : Option Double
  spiking : Bool
  newOnly : Bool
  staleOnly : Bool
  text : List TextMatcher
  words : List Utf16
  tags : List TagFilter
  urls : List TextMatcher
  negLevels : Finset Level
  negStatuses : Finset IssueStatus
  negSavedNames : Finset Utf16
  sort : Option (Property SortKey)
  limit : Option Double
  saveAs : Option Utf16
  recallSaved : Option Utf16
  forgetName : Option Utf16

namespace Query

def empty : Query :=
  ⟨∅, ∅, none, false, false, false, [], [], [], [], ∅, ∅, ∅, none, none, none, none, none⟩

def add (q : Query) (negated : Bool) : TokenKind → Query
  | .level values =>
      if negated then { q with negLevels := q.negLevels ∪ values.toFinset }
      else { q with levels := q.levels ∪ values.toFinset }
  | .status values =>
      if negated then { q with negStatuses := q.negStatuses ∪ values.toFinset }
      else { q with statuses := q.statuses ∪ values.toFinset }
  | .time ms => { q with sinceMs := some ms }
  | .keyword (.own .spiking) => { q with spiking := true }
  | .keyword (.own .new) => { q with newOnly := true }
  | .keyword (.own .stale) => { q with staleOnly := true }
  | .keyword _ => q
  | .sort key => { q with sort := some key }
  | .limit n => { q with limit := some n }
  | .text value isPattern => { q with text := q.text ++ [⟨value, isPattern⟩] }
  | .word value => { q with words := q.words ++ [value] }
  | .tag key values => { q with tags := q.tags ++ [⟨key, values.map toLowerCase⟩] }
  | .url value isPattern => { q with urls := q.urls ++ [⟨value, isPattern⟩] }
  | .save name => { q with saveAs := some name }
  | .saved name =>
      if negated then { q with negSavedNames := q.negSavedNames ∪ {name} } else { q with recallSaved := some name }
  | .forget name => { q with forgetName := some name }
  | .op _ => q
  | .neg => q
  | .filler => q

end Query

/-- The loop of `buildQuery`, `negated` telling whether the token before is a sign. -/
def buildFrom (q : Query) (negated : Bool) : List Token → Query
  | [] => q
  | t :: tokens => buildFrom (q.add negated t.kind) t.isNeg tokens

def buildQuery (tokens : List Token) : Query := buildFrom .empty false tokens

def parseQuery (input : Utf16) : List Token × Query := (tokenize input, buildQuery (tokenize input))

end Errex.Model.Spa
