import Errex.Model.Time

/-!
# Wire types

JSON values as serde_json holds them, the Sentry event, and the issue with its triage state.
-/

namespace Errex.Model

/-- `serde_json::Number`; a float is kept as its bits. -/
inductive Number where
  | posInt (n : UInt64)
  | negInt (n : Int64)
  | float (bits : UInt64)
  deriving DecidableEq

/-- `serde_json::Value`. The members of an object are in key order, as its `BTreeMap` iterates. -/
inductive Value where
  | null
  | bool (b : Bool)
  | number (n : Number)
  | string (s : String)
  | array (elements : List Value)
  | object (members : List (String × Value))

abbrev Map := List (String × Value)

namespace Value

theorem induct {P : Value → Prop} (null : P .null) (bool : ∀ b, P (.bool b)) (number : ∀ n, P (.number n))
    (string : ∀ s, P (.string s)) (array : ∀ elements, (∀ v ∈ elements, P v) → P (.array elements))
    (object : ∀ members : Map, (∀ m ∈ members, P m.2) → P (.object members)) (v : Value) : P v :=
  @Value.rec P (fun elements => ∀ v ∈ elements, P v) (fun members => ∀ m ∈ members, P m.2) (fun m => P m.2) null bool number
    string array object (List.forall_mem_nil _) (fun _ _ first later => List.forall_mem_cons.mpr ⟨first, later⟩)
    (List.forall_mem_nil _) (fun _ _ first later => List.forall_mem_cons.mpr ⟨first, later⟩) (fun _ _ holds => holds) v

def get (key : String) : Value → Option Value
  | .object members => members.lookup key
  | _ => none

def asObject : Value → Option Map
  | .object members => some members
  | _ => none

def asStr : Value → Option String
  | .string s => some s
  | _ => none

def asU64 : Value → Option UInt64
  | .number (.posInt n) => some n
  | _ => none

end Value

def Map.orInsert (members : Map) (key : String) (value : Value) : Map :=
  match members with
  | [] => [(key, value)]
  | (k, v) :: rest =>
      if key = k then (k, v) :: rest
      else if key < k then (key, value) :: (k, v) :: rest
      else (k, v) :: Map.orInsert rest key value

structure Uuid where
  bits : BitVec 128
  deriving DecidableEq

def Uuid.simple (uuid : Uuid) : String :=
  .ofList ((List.range 32).map fun n => Nat.digitChar (uuid.bits.toNat / 16 ^ (31 - n) % 16))

inductive Level where
  | debug
  | info
  | warning
  | error
  | fatal
  deriving DecidableEq, Repr

structure Frame where
  filename : Option String
  function : Option String
  module : Option String
  lineno : Option UInt32
  colno : Option UInt32
  inApp : Option Bool

structure Stacktrace where
  frames : List Frame

structure ExceptionInfo where
  ty : Option String
  value : Option String
  module : Option String
  stacktrace : Option Stacktrace

structure ExceptionContainer where
  values : List ExceptionInfo

structure Event where
  eventId : Uuid
  timestamp : Reading
  platform : Option String
  level : Option Level
  environment : Option String
  release : Option String
  serverName : Option String
  message : Option String
  exception : Option ExceptionContainer
  breadcrumbs : Option Value
  tags : Option Value
  contexts : Option Value
  extra : Option Value
  user : Option Value
  request : Option Value

inductive ProtoError where
  | invalidEnvelope (reason : String)
  | json (message : String)
  deriving DecidableEq, Repr

inductive IssueStatus where
  | unresolved
  | resolved
  | muted
  | ignored
  deriving DecidableEq, Repr

namespace IssueStatus

def asDbStr : IssueStatus → String
  | .unresolved => "unresolved"
  | .resolved => "resolved"
  | .muted => "muted"
  | .ignored => "ignored"

def fromDbStr (s : String) : IssueStatus :=
  match s with
  | "resolved" => .resolved
  | "muted" => .muted
  | "ignored" => .ignored
  | _ => .unresolved

@[simp] theorem fromDbStr_asDbStr (s : IssueStatus) : fromDbStr s.asDbStr = s := by
  cases s <;> rfl

end IssueStatus

structure Issue where
  id : Int
  project : String
  fingerprint : String
  title : String
  culprit : Option String
  level : Option String
  status : IssueStatus
  eventCount : Int
  firstSeen : Reading
  lastSeen : Reading
  deriving DecidableEq

end Errex.Model
