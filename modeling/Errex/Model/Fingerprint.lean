import Errex.Model.Proto

/-!
# Fingerprints

`fingerprint.rs` with the methods of `Event` that it uses: FNV-1a over what distinguishes an event.
-/

namespace Errex.Model

def Event.primaryException (event : Event) : Option ExceptionInfo := event.exception.bind (·.values.head?)

def ExceptionInfo.firstFrame (exception : ExceptionInfo) : Option Frame :=
  exception.stacktrace.bind (·.frames.getLast?)

def Event.title (event : Event) : String :=
  match event.primaryException with
  | some ex =>
      match ex.ty, ex.value with
      | some t, some v => s!"{t}: {v}"
      | some t, none => t
      | none, some v => v
      | none, none => "Unknown exception"
  | none => event.message.getD "Unknown event"

def Uuid.asBytes (uuid : Uuid) : List UInt8 :=
  (List.range 16).map fun n => .ofNat (uuid.bits.toNat / 256 ^ (15 - n))

namespace Fingerprint

def FNV_OFFSET_BASIS : UInt64 := 0xcbf29ce484222325

def FNV_PRIME : UInt64 := 0x00000100000001b3

structure Fnv1a where
  state : UInt64

def Fnv1a.new : Fnv1a := ⟨FNV_OFFSET_BASIS⟩

def Fnv1a.write (h : Fnv1a) (bytes : List UInt8) : Fnv1a :=
  ⟨bytes.foldl (fun state b => (state ^^^ b.toUInt64) * FNV_PRIME) h.state⟩

def Fnv1a.writeOptStr (h : Fnv1a) (s : Option String) : Fnv1a :=
  let h := match s with
    | some s => (h.write [1]).write s.toUTF8.data.toList
    | none => h.write [0]
  h.write [0xff]

def hex16 (n : UInt64) : String :=
  .ofList ((List.range 16).map fun k => Nat.digitChar (n.toNat / 16 ^ (15 - k) % 16))

def derive (event : Event) : String :=
  let h := Fnv1a.new
  let h := match event.primaryException with
    | some ex =>
        let h := h.writeOptStr ex.ty
        match ex.firstFrame with
        | some frame => (h.writeOptStr frame.function).writeOptStr frame.filename
        | none => h
    | none =>
        match event.message with
        | some msg => h.writeOptStr (some msg)
        | none => h.write event.eventId.asBytes
  hex16 h.state

def optStrBytes (s : Option String) : List UInt8 :=
  (match s with
    | some s => 1 :: s.toUTF8.data.toList
    | none => [0]) ++ [0xff]

def bytes (event : Event) : List UInt8 :=
  match event.primaryException with
  | some ex =>
      optStrBytes ex.ty ++
        match ex.firstFrame with
        | some frame => optStrBytes frame.function ++ optStrBytes frame.filename
        | none => []
  | none =>
      match event.message with
      | some msg => optStrBytes (some msg)
      | none => event.eventId.asBytes

theorem Fnv1a.write_append (h : Fnv1a) (a b : List UInt8) : h.write (a ++ b) = (h.write a).write b := by
  simp only [Fnv1a.write, List.foldl_append]

theorem writeOptStr_eq (h : Fnv1a) (s : Option String) : h.writeOptStr s = h.write (optStrBytes s) := by
  cases s with
  | none => simp only [Fnv1a.writeOptStr, optStrBytes, Fnv1a.write_append]
  | some s =>
      rw [optStrBytes, ← List.singleton_append]
      simp only [Fnv1a.writeOptStr, Fnv1a.write_append]

theorem derive_eq (event : Event) : derive event = hex16 (Fnv1a.new.write (bytes event)).state := by
  unfold derive bytes
  split
  · rename_i ex _
    cases ex.firstFrame with
    | none => simp only [writeOptStr_eq, List.append_nil]
    | some frame => simp only [writeOptStr_eq, Fnv1a.write_append]
  · cases event.message with
    | none => simp only
    | some msg => simp only [writeOptStr_eq]

end Fingerprint

end Errex.Model
