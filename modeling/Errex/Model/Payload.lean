import Errex.Model.Admin
import Errex.Model.Digest
import Errex.Model.Wire

/-!
# The body of an alert

`build_payload` of `webhook.rs`.
-/

namespace Errex.Model.Webhook
open Foundation Admin

namespace TriggerKind

def label : TriggerKind → String
  | newIssue => "New issue"
  | regression => "Regression"

def slackColor : TriggerKind → String
  | newIssue => "danger"
  | regression => "warning"

end TriggerKind

def jsonObject (members : List (String × Value)) : Value :=
  .object (members.foldl (fun map (key, value) => Map.insert map key value) [])

def payloadField (title value : String) (short : Bool) : Value :=
  jsonObject [("title", .string title), ("value", .string value), ("short", .bool short)]

def issueLink (publicUrl : String) (id : Int) : String := s!"{trimEndSlashes publicUrl}/issues/{id}"

def buildPayload (t : Trigger) (publicUrl : String) : Value :=
  let issue := t.issue
  let title := s!"{t.kind.label}: {issue.title}"
  let fields :=
    [payloadField "Project" issue.project true, payloadField "Events" (toString issue.eventCount) true] ++
      (issue.level.map fun level => payloadField "Level" level true).toList ++
      (issue.culprit.map fun culprit => payloadField "Culprit" culprit false).toList
  jsonObject
    [("text", .string title),
      ("attachments", .array
        [jsonObject
          [("title", .string issue.title), ("title_link", .string (issueLink publicUrl issue.id)),
            ("color", .string t.kind.slackColor), ("fields", .array fields), ("fallback", .string title),
            ("ts", i64Json (issue.lastSeen.nanos / nanosPerSecond))]])]

end Errex.Model.Webhook
