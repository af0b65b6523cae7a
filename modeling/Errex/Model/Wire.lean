import Errex.Model.EventJson
import Errex.Model.View

/-!
# The live stream as JSON

The code that serde derives for `Issue` and for `ServerMessage`, the text frames of `ws.rs`. chrono's `FromStr`, which
reads the instants, is the parameter `fromStr`.
-/

namespace Errex.Model
open Foundation

def required {α : Type} (read : Value → Option α) : Option Value → Option α := (·.bind read)

def i64Json (n : Int) : Value := .number (if 0 ≤ n then .posInt (.ofNat n.toNat) else .negInt (.ofInt n))

def i64Of : Value → Option Int
  | .number (.posInt n) => if n.toNat < 2 ^ 63 then some n.toNat else none
  | .number (.negInt n) => some n.toInt
  | _ => none

def IssueStatus.name : IssueStatus → String
  | .unresolved => "unresolved"
  | .resolved => "resolved"
  | .muted => "muted"
  | .ignored => "ignored"

def IssueStatus.parse (s : String) : Option IssueStatus :=
  if s = "unresolved" then some .unresolved
  else if s = "resolved" then some .resolved
  else if s = "muted" then some .muted
  else if s = "ignored" then some .ignored
  else none

def IssueStatus.ofJson : Value → Option IssueStatus
  | .string s => IssueStatus.parse s
  | .object [(s, .null)] => IssueStatus.parse s
  | _ => none

def Issue.fields (i : Issue) : List (String × Option Value) :=
  [("id", some (i64Json i.id)), ("project", some (.string i.project)), ("fingerprint", some (.string i.fingerprint)),
    ("title", some (.string i.title)), ("culprit", orNull .string i.culprit), ("level", orNull .string i.level),
    ("status", some (.string i.status.name)), ("event_count", some (i64Json i.eventCount)),
    ("first_seen", some (.string i.firstSeen.isoText)), ("last_seen", some (.string i.lastSeen.isoText))]

def Issue.toJson (i : Issue) : Value := emit i.fields

def instantOf (fromStr : String → Option Reading) : Value → Option Reading
  | .string s => fromStr s
  | _ => none

def Issue.ofJson (fromStr : String → Option Reading) (doc : Value) : Option Issue := do
  match ← structFields ["id", "project", "fingerprint", "title", "culprit", "level", "status", "event_count",
      "first_seen", "last_seen"] doc with
  | [id, project, fingerprint, title, culprit, level, status, eventCount, firstSeen, lastSeen] =>
      pure { id := ← required i64Of id
             project := ← required Value.asStr project
             fingerprint := ← required Value.asStr fingerprint
             title := ← required Value.asStr title
             culprit := ← optional Value.asStr culprit
             level := ← optional Value.asStr level
             status := ← defaulted .unresolved IssueStatus.ofJson status
             eventCount := ← required i64Of eventCount
             firstSeen := ← required (instantOf fromStr) firstSeen
             lastSeen := ← required (instantOf fromStr) lastSeen }
  | _ => none

def tag (name : String) (fields : List (String × Option Value)) : Value := emit (("type", some (.string name)) :: fields)

def untag : Value → Option (String × Value)
  | .object members =>
      match member "type" members with
      | some (some (.string name)) => some (name, .object (members.filter (·.1 != "type")))
      | _ => none
  | .array (.string name :: elements) => some (name, .array elements)
  | _ => none

def ServerMessage.toJson : ServerMessage → Value
  | .hello serverVersion => tag "hello" [("server_version", some (.string serverVersion))]
  | .snapshot issues => tag "snapshot" [("issues", some (.array (issues.map Issue.toJson)))]
  | .issueCreated issue => tag "issue_created" [("issue", some issue.toJson)]
  | .issueUpdated issue => tag "issue_updated" [("issue", some issue.toJson)]

def onlyField {α : Type} (name : String) (read : Value → Option α) (doc : Value) : Option α := do
  match ← structFields [name] doc with
  | [value] => required read value
  | _ => none

def ServerMessage.ofJson (fromStr : String → Option Reading) (doc : Value) : Option ServerMessage := do
  let (variant, rest) ← untag doc
  if variant = "hello" then ServerMessage.hello <$> onlyField "server_version" Value.asStr rest
  else if variant = "snapshot" then ServerMessage.snapshot <$> onlyField "issues" (listOf (Issue.ofJson fromStr)) rest
  else if variant = "issue_created" then ServerMessage.issueCreated <$> onlyField "issue" (Issue.ofJson fromStr) rest
  else if variant = "issue_updated" then ServerMessage.issueUpdated <$> onlyField "issue" (Issue.ofJson fromStr) rest
  else none

end Errex.Model
