import Errex.Foundation.Framing
import Errex.Model.Fingerprint

/-!
# What the fingerprint tells apart

An exception is hashed as tagged fields, each ended by a byte that UTF-8 does not use, so events with
an exception share their bytes only when the fields agree (`bytes_eq_iff_of_exception`). A message is
hashed as one such field and an event id as it is, so the kinds of event can be confused
(`bytes_ne_iff_of_kind_ne`).
-/

namespace Errex.Proof.Fingerprint
open Foundation Framing Model Model.Fingerprint

def fieldBytes : Option String → List UInt8
  | some s => 1 :: s.toUTF8.data.toList
  | none => [0]

def readField : List UInt8 → Option (Option String)
  | [0] => some none
  | 1 :: bytes => (String.fromUTF8? bytes.toByteArray).map some
  | _ => none

theorem stop_not_mem_fieldBytes (s : Option String) : 0xff ∉ fieldBytes s := by
  cases s with
  | none => decide
  | some s =>
      intro mem
      rcases List.mem_cons.mp mem with tag | text
      · cases tag
      · exact absurd (Text.lt_of_mem_utf8 text) (by decide)

theorem readField_eq_some_iff {bytes : List UInt8} {s : Option String} :
    readField bytes = some s ↔ bytes = fieldBytes s := by
  unfold readField
  split
  · cases s <;> simp [fieldBytes]
  · rename_i bytes
    rw [Option.map_eq_some_iff]
    cases s with
    | none => simp [fieldBytes]
    | some s => simp [fieldBytes, Text.fromUTF8?_eq_some_iff]
  · rename_i bytes absent tagged
    refine iff_of_false nofun ?_
    rintro rfl
    cases s with
    | none => exact absent rfl
    | some s => exact tagged _ rfl

def fieldsBytes (fields : List (Option String)) : List UInt8 := frame 0xff (fields.map fieldBytes)

def readFields (bytes : List UInt8) : Option (List (Option String)) :=
  (unframe 0xff bytes).bind (·.mapM readField)

theorem mapM_readField_eq_some_iff {framed : List (List UInt8)} {fields : List (Option String)} :
    framed.mapM readField = some fields ↔ framed = fields.map fieldBytes := by
  induction framed generalizing fields with
  | nil => cases fields <;> simp
  | cons bytes framed ih =>
      cases fields with
      | nil => simp [Option.bind_eq_some_iff]
      | cons s fields => simp [Option.bind_eq_some_iff, ih, readField_eq_some_iff]

theorem readFields_eq_some_iff {bytes : List UInt8} {fields : List (Option String)} :
    readFields bytes = some fields ↔ bytes = fieldsBytes fields := by
  have clear : ∀ field ∈ fields.map fieldBytes, 0xff ∉ field := by
    intro field mem
    obtain ⟨s, -, rfl⟩ := List.mem_map.mp mem
    exact stop_not_mem_fieldBytes s
  rw [readFields, Option.bind_eq_some_iff]
  constructor
  · rintro ⟨framed, read, each⟩
    rw [frame_unframe read, mapM_readField_eq_some_iff.mp each, fieldsBytes]
  · rintro rfl
    exact ⟨_, unframe_frame clear, mapM_readField_eq_some_iff.mpr rfl⟩

theorem fieldsBytes_inj {fields more : List (Option String)} : fieldsBytes fields = fieldsBytes more ↔ fields = more := by
  rw [← readFields_eq_some_iff, readFields_eq_some_iff.mpr rfl, Option.some.injEq]

inductive Kind where
  | exception
  | message
  | eventId
  deriving DecidableEq

def kind (event : Event) : Kind :=
  match event.primaryException, event.message with
  | some _, _ => .exception
  | none, some _ => .message
  | none, none => .eventId

def exceptionFields (ex : ExceptionInfo) : List (Option String) :=
  ex.ty :: match ex.firstFrame with
    | some frame => [frame.function, frame.filename]
    | none => []

def fields (event : Event) : List (Option String) :=
  match event.primaryException with
  | some ex => exceptionFields ex
  | none => [event.message]

theorem optStrBytes_eq (s : Option String) : optStrBytes s = fieldBytes s ++ [0xff] := by
  cases s <;> rfl

theorem bytes_of_exception {event : Event} {ex : ExceptionInfo} (primary : event.primaryException = some ex) :
    bytes event = fieldsBytes (exceptionFields ex) := by
  rw [bytes, primary]
  simp only [exceptionFields]
  cases ex.firstFrame with
  | none => simp [optStrBytes_eq, fieldsBytes, frame]
  | some frame => simp [optStrBytes_eq, fieldsBytes, Framing.frame]

theorem bytes_of_kind {event : Event} (grouped : kind event ≠ .eventId) : bytes event = fieldsBytes (fields event) := by
  unfold fields
  cases primary : event.primaryException with
  | some ex => exact bytes_of_exception primary
  | none =>
      rw [bytes, primary]
      cases message : event.message with
      | some msg => simp [optStrBytes_eq, fieldsBytes, frame]
      | none => exact absurd (by rw [kind, primary, message]) grouped

theorem bytes_of_eventId {event : Event} (grouped : kind event = .eventId) : bytes event = event.eventId.asBytes := by
  unfold kind at grouped
  cases primary : event.primaryException with
  | some ex => simp [primary] at grouped
  | none =>
      cases message : event.message with
      | some msg => simp [primary, message] at grouped
      | none => rw [bytes, primary, message]

def plainEvent (id : BitVec 128) : Event where
  eventId := ⟨id⟩
  timestamp := DateTime.toReading ⟨0, minNanos_le_zero, zero_le_maxNanos⟩
  platform := none
  level := none
  environment := none
  release := none
  serverName := none
  message := none
  exception := none
  breadcrumbs := none
  tags := none
  contexts := none
  extra := none
  user := none
  request := none

def frameless (ty : String) : Event :=
  { plainEvent 1 with exception := some ⟨[⟨some ty, none, none, none⟩]⟩ }

/-- Two events with an exception are hashed alike only when type, function and file agree. -/
theorem bytes_eq_iff_of_exception {a b : Event} {ex ex' : ExceptionInfo} (ha : a.primaryException = some ex)
    (hb : b.primaryException = some ex') :
    bytes a = bytes b ↔ ex.ty = ex'.ty ∧ ex.firstFrame.isSome = ex'.firstFrame.isSome ∧
      ∀ frame frame', ex.firstFrame = some frame → ex'.firstFrame = some frame' →
        frame.function = frame'.function ∧ frame.filename = frame'.filename := by
  rw [bytes_of_exception ha, bytes_of_exception hb, fieldsBytes_inj, exceptionFields, exceptionFields, List.cons.injEq]
  apply and_congr_right
  intro _
  cases ex.firstFrame <;> cases ex'.firstFrame <;> simp

theorem bytes_ne_of_ty_ne : bytes (frameless "TypeError") ≠ bytes (frameless "ReferenceError") := fun same =>
  absurd ((bytes_eq_iff_of_exception rfl rfl).mp same).1 (by decide)

/-- The fields of one event are those of the other, or what its id says when it is read as fields. -/
def Clashes (a b : Event) : Prop :=
  match kind a, kind b with
  | .eventId, _ => readFields a.eventId.asBytes = some (fields b)
  | _, .eventId => readFields b.eventId.asBytes = some (fields a)
  | _, _ => fields a = fields b

/-- Events of two kinds are hashed apart unless they clash. -/
theorem bytes_ne_iff_of_kind_ne {a b : Event} (apart : kind a ≠ kind b) : bytes a ≠ bytes b ↔ ¬ Clashes a b := by
  apply not_congr
  unfold Clashes
  split
  · rename_i first
    rw [readFields_eq_some_iff, bytes_of_eventId first, bytes_of_kind (first ▸ apart.symm)]
  · rename_i second first
    rw [readFields_eq_some_iff, bytes_of_eventId second, bytes_of_kind first]
    exact eq_comm
  · rename_i first second
    rw [bytes_of_kind second, bytes_of_kind first, fieldsBytes_inj]

def referenceMessage : Event := { plainEvent 2 with message := some "ReferenceError" }

theorem bytes_ne_iff_of_kind_ne_sample :
    bytes referenceMessage ≠ bytes (plainEvent 3) ↔ ¬ Clashes referenceMessage (plainEvent 3) :=
  bytes_ne_iff_of_kind_ne (by decide)

/-- A message that reads as the type of an exception without frames. -/
theorem bytes_eq_of_kinds : ¬ ∀ a b : Event, kind a ≠ kind b → bytes a ≠ bytes b := by
  intro apart
  exact apart (frameless "ReferenceError") referenceMessage (by decide) (by decide +kernel)

end Errex.Proof.Fingerprint
