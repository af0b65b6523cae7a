import Errex.Foundation.Text
import Errex.Foundation.Utf16

/-!
# The test event

`testEvent.ts` and `projectsConsole.ts` as far as they build the command of the "Send test event" panel.
-/

namespace Errex.Model.Spa
open Foundation Utf16

def unicodeEscape (u : CodeUnit) : Utf16 := ofString "\\u" ++ (Text.hexDigits 4 u.toNat).map unit

def jsonUnit (u : CodeUnit) : Utf16 :=
  if u = 0x08 then ofString "\\b"
  else if u = 0x09 then ofString "\\t"
  else if u = 0x0A then ofString "\\n"
  else if u = 0x0C then ofString "\\f"
  else if u = 0x0D then ofString "\\r"
  else if u = 0x22 then ofString "\\\""
  else if u = 0x5C then ofString "\\\\"
  else if u < 0x20 ∨ isSurrogate u then unicodeEscape u
  else [u]

def jsonUnits : Utf16 → Utf16
  | [] => []
  | [u] => jsonUnit u
  | u :: v :: rest =>
      if isHighSurrogate u && isLowSurrogate v then u :: v :: jsonUnits rest
      else jsonUnit u ++ jsonUnits (v :: rest)

def stringify (s : Utf16) : Utf16 := ofString "\"" ++ jsonUnits s ++ ofString "\""

def ENVELOPE_CONTENT_TYPE : Utf16 := ofString "application/x-sentry-envelope"

structure EnvelopeOpts where
  eventId : Option Utf16
  sentAt : Option Utf16

/-- `uuid` is what `randomUuid()` gives, and `now` what `new Date().toISOString()` does. -/
def buildEnvelopeBody (uuid now : Utf16) (opts : EnvelopeOpts) : Utf16 :=
  let eventId := opts.eventId.getD uuid
  let sentAt := opts.sentAt.getD now
  join '\n' [
    ofString "\x7b\"event_id\":" ++ stringify eventId ++ ofString ",\"sent_at\":" ++ stringify sentAt ++ ofString "\x7d",
    ofString "\x7b\"type\":\"event\"\x7d",
    ofString "\x7b\"level\":\"error\",\"message\":\"errex test event\",\"exception\":\x7b\"values\":[" ++
      ofString "\x7b\"type\":\"TestEvent\",\"value\":\"errex test event from curl\"\x7d]\x7d\x7d",
    []]

def shellEscapeSingleQuoted (value : Utf16) : Utf16 := value.flatMap fun u => if u = 0x27 then ofString "'\\''" else [u]

def buildTestEventCurl (uuid now ingestUrl : Utf16) (opts : EnvelopeOpts) : Utf16 :=
  let body := (buildEnvelopeBody uuid now opts).flatMap fun u => if u = unit '\n' then ofString "\\n" else [u]
  join '\n' [
    ofString "curl -X POST '" ++ shellEscapeSingleQuoted ingestUrl ++ ofString "' \\",
    ofString "  -H 'content-type: " ++ ENVELOPE_CONTENT_TYPE ++ ofString "' \\",
    ofString "  --data-binary $'" ++ body ++ ofString "'"]

end Errex.Model.Spa
