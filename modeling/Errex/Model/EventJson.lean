import Errex.Foundation.Double
import Errex.Model.UserAgent

/-!
# The event as JSON

The code that serde derives for `Event` and its parts, and the decoder of its timestamp. A document is a `Value`
whose objects hold their members as they are written, duplicates included; the text of a document is serde_json's.
-/

namespace Errex.Model
open Foundation

def Map.insert (members : Map) (key : String) (value : Value) : Map :=
  match members with
  | [] => [(key, value)]
  | (k, v) :: rest =>
      if key = k then (key, value) :: rest
      else if key < k then (key, value) :: (k, v) :: rest
      else (k, v) :: Map.insert rest key value

mutual

/-- `Value::deserialize`: objects in key order, the last member of a name counting. -/
def Value.normalize : Value → Value
  | .array elements => .array (normalizeElements elements)
  | .object members => .object (normalizeMembers members [])
  | .null => .null
  | .bool b => .bool b
  | .number n => .number n
  | .string s => .string s

def normalizeElements : List Value → List Value
  | [] => []
  | v :: rest => v.normalize :: normalizeElements rest

def normalizeMembers : List (String × Value) → Map → Map
  | [], map => map
  | (k, v) :: rest, map => normalizeMembers rest (map.insert k v.normalize)

end

/-- The value of a field in an object; absent for a duplicate field, an error. -/
def member (name : String) (members : List (String × Value)) : Option (Option Value) :=
  match members.filter (·.1 == name) with
  | [] => some none
  | [(_, v)] => some (some v)
  | _ => none

/-- The fields of a struct with defaults: members of an object, or the elements of an array in order. -/
def structFields (names : List String) : Value → Option (List (Option Value))
  | .object members => names.mapM fun name => member name members
  | .array elements =>
      if elements.length ≤ names.length then
        some (elements.map some ++ List.replicate (names.length - elements.length) none)
      else none
  | _ => none

def emit (fields : List (String × Option Value)) : Value :=
  .object (fields.filterMap fun (name, value) => value.map (name, ·))

def defaulted {α : Type} (default : α) (read : Value → Option α) : Option Value → Option α
  | none => some default
  | some v => read v

def optional {α : Type} (read : Value → Option α) : Option Value → Option (Option α)
  | none => some none
  | some .null => some none
  | some v => (read v).map some

def listOf {α : Type} (read : Value → Option α) : Value → Option (List α)
  | .array elements => elements.mapM read
  | _ => none

def boolOf : Value → Option Bool
  | .bool b => some b
  | _ => none

def u32Of : Value → Option UInt32
  | .number (.posInt n) => if n.toNat < 2 ^ 32 then some (.ofNat n.toNat) else none
  | _ => none

def orNull {α : Type} (write : α → Value) : Option α → Option Value
  | none => some .null
  | some a => some (write a)

def u32Json (n : UInt32) : Value := .number (.posInt (.ofNat n.toNat))

def Uuid.hyphenated (uuid : Uuid) : String :=
  let digits := Text.hexDigits 32 uuid.bits.toNat
  .ofList (digits.take 8 ++ '-' :: ((digits.drop 8).take 4 ++ '-' :: ((digits.drop 12).take 4 ++
    '-' :: ((digits.drop 16).take 4 ++ '-' :: digits.drop 20))))

def parseSimple (digits : List Char) : Option Uuid := do
  let values ← digits.mapM Text.hexValue
  pure ⟨.ofNat 128 (values.foldl (fun n v => 16 * n + v) 0)⟩

def parseHyphenated (s : List Char) : Option Uuid :=
  if s.length = 36 ∧ [8, 13, 18, 23].all (fun k => s[k]? == some '-') then
    parseSimple (s.take 8 ++ (s.drop 9).take 4 ++ (s.drop 14).take 4 ++ (s.drop 19).take 4 ++ s.drop 24)
  else none

def Uuid.parseStr (s : String) : Option Uuid :=
  let chars := s.toList
  if chars.length = 32 then parseSimple chars
  else if chars.length = 45 ∧ chars.take 9 = "urn:uuid:".toList then parseHyphenated (chars.drop 9)
  else if chars.length = 38 ∧ chars.head? = some '\x7b' ∧ chars.getLast? = some '\x7d' then
    parseHyphenated ((chars.drop 1).take 36)
  else parseHyphenated chars

def Uuid.ofJson : Value → Option Uuid
  | .string s => Uuid.parseStr s
  | _ => none

def Reading.isoText (t : Reading) : String :=
  let d := Calendar.date t.day
  .ofList (yearText d.year ++ '-' :: Text.digits 2 d.month ++ '-' :: Text.digits 2 d.day ++
    'T' :: (t.timeText ++ (fractionText t.instant.subsecond ++ ['Z'])))

example : (parseFromRfc3339 "9999-12-31T18:59:60.5-05:00").map Reading.isoText = some "9999-12-31T23:59:60.500Z" := by
  decide

/-- `Number::as_f64` as a sign, a numerator and a power of two under it. -/
def Number.asF64 : Number → Bool × Nat × Nat
  | .posInt n => (false, Rounding.round53 n.toNat, 0)
  | .negInt n => (true, Rounding.round53 n.toInt.natAbs, 0)
  | .float bits =>
      let negative := decide (2 ^ 63 ≤ bits.toNat)
      let exponent := bits.toNat / 2 ^ 52 % 2 ^ 11
      let fraction := bits.toNat % 2 ^ 52
      let significand := if exponent = 0 then fraction else 2 ^ 52 + fraction
      if 1075 ≤ max exponent 1 then (negative, significand * 2 ^ (exponent - 1075), 0)
      else (negative, significand, 1075 - max exponent 1)

/-- The branch for numbers: the whole part truncated, the nanoseconds rounded and clamped, so that the fraction of
a negative number is dropped. -/
def timestampOfNumber (n : Number) : Option DateTime :=
  let (negative, numerator, k) := n.asF64
  let whole : Int := if negative then -(numerator / 2 ^ k : Nat) else (numerator / 2 ^ k : Nat)
  let product := Rounding.round53 (numerator % 2 ^ k * 10 ^ 9)
  let nanos := if negative then 0 else min ((2 * product + 2 ^ k) / (2 * 2 ^ k)) 999999999
  DateTime.fromTimestamp whole nanos

def deserializeSentryTimestamp : Value → Option Reading
  | .string s => parseFromRfc3339 s
  | .number n => (timestampOfNumber n).map DateTime.toReading
  | _ => none

def Level.parse (s : String) : Option Level :=
  if s = "debug" then some .debug
  else if s = "info" then some .info
  else if s = "warning" then some .warning
  else if s = "error" then some .error
  else if s = "fatal" then some .fatal
  else none

def Level.ofJson : Value → Option Level
  | .string s => Level.parse s
  | .object [(s, .null)] => Level.parse s
  | _ => none

def Level.name : Level → String
  | .debug => "debug"
  | .info => "info"
  | .warning => "warning"
  | .error => "error"
  | .fatal => "fatal"

def Frame.toJson (f : Frame) : Value :=
  emit [("filename", orNull .string f.filename), ("function", orNull .string f.function),
    ("module", orNull .string f.module), ("lineno", orNull u32Json f.lineno), ("colno", orNull u32Json f.colno),
    ("in_app", orNull .bool f.inApp)]

def Frame.ofJson (doc : Value) : Option Frame := do
  match ← structFields ["filename", "function", "module", "lineno", "colno", "in_app"] doc with
  | [filename, function, module, lineno, colno, inApp] =>
      pure { filename := ← optional Value.asStr filename
             function := ← optional Value.asStr function
             module := ← optional Value.asStr module
             lineno := ← optional u32Of lineno
             colno := ← optional u32Of colno
             inApp := ← optional boolOf inApp }
  | _ => none

def Stacktrace.toJson (s : Stacktrace) : Value := emit [("frames", some (.array (s.frames.map Frame.toJson)))]

def Stacktrace.ofJson (doc : Value) : Option Stacktrace := do
  match ← structFields ["frames"] doc with
  | [frames] => pure { frames := ← defaulted [] (listOf Frame.ofJson) frames }
  | _ => none

def ExceptionInfo.toJson (e : ExceptionInfo) : Value :=
  emit [("type", orNull .string e.ty), ("value", orNull .string e.value), ("module", orNull .string e.module),
    ("stacktrace", orNull Stacktrace.toJson e.stacktrace)]

def ExceptionInfo.ofJson (doc : Value) : Option ExceptionInfo := do
  match ← structFields ["type", "value", "module", "stacktrace"] doc with
  | [ty, value, module, stacktrace] =>
      pure { ty := ← optional Value.asStr ty
             value := ← optional Value.asStr value
             module := ← optional Value.asStr module
             stacktrace := ← optional Stacktrace.ofJson stacktrace }
  | _ => none

def ExceptionContainer.toJson (c : ExceptionContainer) : Value :=
  emit [("values", some (.array (c.values.map ExceptionInfo.toJson)))]

def ExceptionContainer.ofJson (doc : Value) : Option ExceptionContainer := do
  match ← structFields ["values"] doc with
  | [values] => pure { values := ← defaulted [] (listOf ExceptionInfo.ofJson) values }
  | _ => none

def Event.toJson (e : Event) : Value :=
  emit [("event_id", some (.string e.eventId.hyphenated)), ("timestamp", some (.string e.timestamp.isoText)),
    ("platform", orNull .string e.platform), ("level", orNull (.string ·.name) e.level),
    ("environment", orNull .string e.environment), ("release", orNull .string e.release),
    ("server_name", orNull .string e.serverName), ("message", orNull .string e.message),
    ("exception", orNull ExceptionContainer.toJson e.exception), ("breadcrumbs", e.breadcrumbs), ("tags", e.tags),
    ("contexts", e.contexts), ("extra", e.extra), ("user", e.user), ("request", e.request)]

def raw : Option Value → Option (Option Value) := optional fun v => some v.normalize

/-- `Event`'s derived `Deserialize`, over the `Uuid::new_v4()` and the `Utc::now()` of its defaults. -/
def Event.ofJson (newV4 : Uuid) (now : DateTime) (doc : Value) : Option Event := do
  match ← structFields ["event_id", "timestamp", "platform", "level", "environment", "release", "server_name",
      "message", "exception", "breadcrumbs", "tags", "contexts", "extra", "user", "request"] doc with
  | [eventId, timestamp, platform, level, environment, release, serverName, message, exception, breadcrumbs, tags,
      contexts, extra, user, request] =>
      pure { eventId := ← defaulted newV4 Uuid.ofJson eventId
             timestamp := ← defaulted now.toReading deserializeSentryTimestamp timestamp
             platform := ← optional Value.asStr platform
             level := ← optional Level.ofJson level
             environment := ← optional Value.asStr environment
             release := ← optional Value.asStr release
             serverName := ← optional Value.asStr serverName
             message := ← optional Value.asStr message
             exception := ← optional ExceptionContainer.ofJson exception
             breadcrumbs := ← raw breadcrumbs
             tags := ← raw tags
             contexts := ← raw contexts
             extra := ← raw extra
             user := ← raw user
             request := ← raw request }
  | _ => none

end Errex.Model
