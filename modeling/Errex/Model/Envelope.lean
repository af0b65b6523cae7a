import Errex.Foundation.Outcome
import Errex.Model.UserAgent

/-!
# The Sentry envelope parser

`parse_envelope` and `read_line` of `ingest.rs`. An index into the bytes is a `usize`; the one sum
that a sender chooses a summand of (`cursor + len`) wraps as in the release profile, and the other
sums stay below the length of a slice, which is at most `isize::MAX`.
-/

namespace Errex.Model.Envelope
open Foundation

/-- A byte slice: Rust never has one of more than `isize::MAX` bytes. -/
structure Slice where
  bytes : List UInt8
  length_lt : bytes.length < 2 ^ 63

/-- serde_json's decoders. It reports the end of an empty input as an error. -/
structure SerdeJson where
  value : List UInt8 → Except String Value
  event : List UInt8 → Except String Event
  value_nil (v : Value) : value [] ≠ .ok v

def LF : UInt8 := 10

def usizeAdd (a b : Nat) : Nat := (a + b) % 2 ^ 64

def slice (buf : List UInt8) (start finish : Nat) : Option (List UInt8) :=
  if start ≤ finish ∧ finish ≤ buf.length then some ((buf.drop start).take (finish - start))
  else none

def newline (buf : List UInt8) : Option Nat := buf.findIdx? (· == LF)

def readLine (buf : List UInt8) (start : Nat) : Option (Nat × Nat) :=
  if buf.length ≤ start then none
  else match newline (buf.drop start) with
    | some rel => some (start + rel + 1, start + rel + 1)
    | none => some (buf.length, buf.length)

def fromSlice {α : Type} (decode : List UInt8 → Except String α) (bytes : List UInt8) :
    Outcome ProtoError α :=
  match decode bytes with
  | .ok value => .ok value
  | .error message => .err (.json message)

def itemType (header : Value) : String := ((header.get "type").bind Value.asStr).getD ""

def itemLength (header : Value) : Option UInt64 := (header.get "length").bind Value.asU64

def payloadEnd (raw : List UInt8) (cursor : Nat) (header : Value) : Outcome ProtoError Nat :=
  match itemLength header with
  | some len =>
      let finish := usizeAdd cursor len.toNat
      if raw.length < finish then .err (.invalidEnvelope "item length exceeds envelope size")
      else .ok finish
  | none => do
      let rest ← .ofOption (slice raw cursor raw.length)
      pure (((newline rest).map (cursor + ·)).getD raw.length)

def skipNewline (raw : List UInt8) (cursor : Nat) : Nat :=
  if raw[cursor]? = some LF then cursor + 1 else cursor

def itemEvents (serde : SerdeJson) (header : Value) (payload : List UInt8) :
    Outcome ProtoError (List Event) :=
  if itemType header = "event" then do
    let event ← fromSlice serde.event payload
    pure [UserAgent.augmentTagsFromUserAgent event]
  else pure []

/-- One round of the item loop: the next cursor and events, or the events on leaving. -/
def itemRound (serde : SerdeJson) (raw : List UInt8) (state : Nat × List Event) :
    Outcome ProtoError ((Nat × List Event) ⊕ List Event) :=
  let (cursor, events) := state
  if raw.length ≤ cursor then pure (.inr events)
  else match readLine raw cursor with
    | none => pure (.inr events)
    | some (itemHeaderEnd, nextCursor) => do
        let headerBytes ← .ofOption (slice raw cursor (itemHeaderEnd - 1))
        if headerBytes.isEmpty then pure (.inl (nextCursor, events))
        else do
          let header ← fromSlice serde.value headerBytes
          let finish ← payloadEnd raw nextCursor header
          let payload ← .ofOption (slice raw nextCursor finish)
          let added ← itemEvents serde header payload
          pure (.inl (skipNewline raw finish, events ++ added))

def parseEnvelope (serde : SerdeJson) (raw : Slice) : Outcome ProtoError (List Event) :=
  match readLine raw.bytes 0 with
  | none => .err (.invalidEnvelope "missing envelope header")
  | some (_, afterHeader) => do
      let headerBytes ← .ofOption (slice raw.bytes 0 (afterHeader - 1))
      let _ ← fromSlice serde.value headerBytes
      iterate (itemRound serde raw.bytes) (raw.bytes.length + 1) (afterHeader, [])

end Errex.Model.Envelope
