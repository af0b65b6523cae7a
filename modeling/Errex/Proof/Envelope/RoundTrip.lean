import Errex.Proof.Envelope.Safety

/-!
# Decoding undoes encoding

An `Item` is one that a client may send: a header in one line and a payload that the header frames.
The parser reads back every item of an encoded envelope, whatever bytes the payloads hold
(`parseEnvelope_encode`).
-/

namespace Errex.Proof.Envelope
open Foundation Model Model.Envelope

structure EnvelopeHeader (serde : SerdeJson) where
  bytes : List UInt8
  value : Value
  decodes : serde.value bytes = .ok value
  oneLine : LF ∉ bytes

def Frames (header : Value) (payload : List UInt8) : Prop :=
  (∃ len, header.get "length" = some (.number (.posInt len)) ∧ len.toNat = payload.length) ∨
    (header.get "length" = none ∧ LF ∉ payload)

structure Item (serde : SerdeJson) where
  headerBytes : List UInt8
  members : Map
  type : String
  payload : List UInt8
  decodes : serde.value headerBytes = .ok (.object members)
  oneLine : LF ∉ headerBytes
  typed : (Value.object members).get "type" = some (.string type)
  frames : Frames (.object members) payload
  event_decodes : type = "event" → ∃ event, serde.event payload = .ok event

namespace Item

variable {serde : SerdeJson}

def header (item : Item serde) : Value := .object item.members

def encode (item : Item serde) : List UInt8 :=
  item.headerBytes ++ LF :: item.payload ++ [LF]

def event (item : Item serde) : Option Event :=
  if item.type = "event" then (serde.event item.payload).toOption else none

theorem itemType_header (item : Item serde) : itemType item.header = item.type := by
  simp [itemType, header, item.typed, Value.asStr]

theorem itemEvents_eq (item : Item serde) :
    itemEvents serde item.header item.payload =
      .ok (item.event.toList.map UserAgent.augmentTagsFromUserAgent) := by
  simp only [itemEvents, itemType_header, event]
  split_ifs with isEvent
  · obtain ⟨e, decoded⟩ := item.event_decodes isEvent
    simp [fromSlice, decoded, Except.toOption]
  · rfl

end Item

def encode {serde : SerdeJson} (header : EnvelopeHeader serde) (items : List (Item serde)) : List UInt8 :=
  header.bytes ++ LF :: items.flatMap Item.encode

section Offset

variable (before middle after : List UInt8)

theorem newline_eq_none {line : List UInt8} (oneLine : LF ∉ line) : newline line = none := by
  rw [newline, List.findIdx?_eq_none_iff]
  intro byte mem
  simpa using fun (same : byte = LF) => oneLine (same ▸ mem)

theorem newline_append (oneLine : LF ∉ middle) : newline (middle ++ LF :: after) = some middle.length := by
  have none := newline_eq_none oneLine
  rw [newline] at none
  simp [newline, List.findIdx?_append, none, List.findIdx?_cons]

theorem readLine_append (oneLine : LF ∉ middle) :
    readLine (before ++ (middle ++ LF :: after)) before.length =
      some (before.length + middle.length + 1, before.length + middle.length + 1) := by
  have inside : ¬ (before ++ (middle ++ LF :: after)).length ≤ before.length := by simp
  simp only [readLine, if_neg inside, List.drop_left, newline_append middle after oneLine]

theorem slice_append :
    slice (before ++ (middle ++ after)) before.length (before.length + middle.length) = some middle := by
  rw [slice_of_le (by omega) (by simp)]
  simp

theorem skipNewline_append :
    skipNewline (before ++ LF :: after) before.length = before.length + 1 := by
  simp [skipNewline]

end Offset

section Items

variable {serde : SerdeJson} (before after : List UInt8) (item : Item serde)

theorem headerAt_encode :
    headerAt serde (before ++ (item.encode ++ after)) before.length =
      some (item.header, before.length + item.headerBytes.length + 1) := by
  have split : before ++ (item.encode ++ after) =
      before ++ (item.headerBytes ++ LF :: (item.payload ++ LF :: after)) := by simp [Item.encode]
  rw [split]
  simp [headerAt, readLine_append _ _ _ item.oneLine, slice_append, item.decodes, Except.toOption,
    Item.header]

theorem exactEnd_encode {start : Nat} (at_start : before.length = start) :
    exactEnd (before ++ (item.payload ++ LF :: after)) start item.header =
      start + item.payload.length := by
  subst at_start
  rcases item.frames with ⟨len, declared, same⟩ | ⟨undeclared, oneLine⟩
  · simp [exactEnd, itemLength, Item.header, declared, Value.asU64, same]
  · simp [exactEnd, itemLength, Item.header, undeclared, newline_append _ _ oneLine]

theorem itemRound_encode (short : (before ++ (item.encode ++ after)).length < 2 ^ 63)
    (events : List Event) :
    itemRound serde (before ++ (item.encode ++ after)) (before.length, events) =
      .ok (.inl ((before ++ item.encode).length,
        events ++ item.event.toList.map UserAgent.augmentTagsFromUserAgent)) := by
  have found := headerAt_encode before after item
  have split : before ++ (item.encode ++ after) =
      (before ++ item.headerBytes ++ [LF]) ++ (item.payload ++ LF :: after) := by simp [Item.encode]
  have start : (before ++ item.headerBytes ++ [LF]).length =
      before.length + item.headerBytes.length + 1 := by simp; omega
  have finish := exactEnd_encode (before ++ item.headerBytes ++ [LF]) after item start
  have sliced := slice_append (before ++ item.headerBytes ++ [LF]) item.payload (LF :: after)
  have skipped := skipNewline_append (before ++ item.headerBytes ++ [LF] ++ item.payload) after
  rw [split] at short found ⊢
  rw [start, ← finish] at sliced
  rw [itemRound_of_events events short found sliced item.itemEvents_eq, finish]
  have end_eq : before.length + item.headerBytes.length + 1 + item.payload.length =
      (before ++ item.headerBytes ++ [LF] ++ item.payload).length := by simp; omega
  rw [end_eq, ← List.append_assoc, skipped]
  simp [Item.encode]
  omega

theorem length_le_encode (items : List (Item serde)) :
    items.length ≤ (items.flatMap Item.encode).length := by
  induction items with
  | nil => simp
  | cons item items ih =>
      simp only [List.flatMap_cons, List.length_append, List.length_cons, Item.encode]
      omega

theorem iterate_encode (items : List (Item serde)) (before : List UInt8) (events : List Event)
    {fuel : Nat} (enough : items.length < fuel)
    (short : (before ++ items.flatMap Item.encode).length < 2 ^ 63) :
    iterate (itemRound serde (before ++ items.flatMap Item.encode)) fuel (before.length, events) =
      .ok (events ++ (items.filterMap Item.event).map UserAgent.augmentTagsFromUserAgent) := by
  induction items generalizing before events fuel with
  | nil =>
      obtain ⟨fuel, rfl⟩ : ∃ n, fuel = n + 1 := ⟨fuel - 1, by omega⟩
      simpa using iterate_leave (itemRound_leave (by simp)) fuel
  | cons item items ih =>
      obtain ⟨fuel, rfl⟩ : ∃ n, fuel = n + 1 := ⟨fuel - 1, by omega⟩
      rw [List.flatMap_cons] at short ⊢
      rw [iterate_next (itemRound_encode before _ item short events)]
      rw [← List.append_assoc] at short ⊢
      rw [ih _ _ (by simpa using enough) short]
      cases event : item.event <;> simp [event]

end Items

/-- The parser gives the events of the encoded items, in their order and with their tags. -/
theorem parseEnvelope_encode {serde : SerdeJson} (header : EnvelopeHeader serde)
    (items : List (Item serde)) (short : (encode header items).length < 2 ^ 63) :
    parseEnvelope serde ⟨encode header items, short⟩ =
      .ok ((items.filterMap Item.event).map UserAgent.augmentTagsFromUserAgent) := by
  have line := readLine_append [] header.bytes (items.flatMap Item.encode) header.oneLine
  have sliced := slice_append [] header.bytes (LF :: items.flatMap Item.encode)
  simp only [List.nil_append, List.length_nil, Nat.zero_add] at line sliced
  obtain ⟨bytes, sliced', parsed⟩ :=
    parseEnvelope_of_line serde (show readLine (Slice.mk _ short).bytes 0 = _ from line)
  obtain rfl : bytes = header.bytes := Option.some.inj (sliced'.symm.trans sliced)
  have split : encode header items = (header.bytes ++ [LF]) ++ items.flatMap Item.encode := by
    simp [encode]
  have count := length_le_encode items
  rw [parsed, fromSlice, header.decodes, Outcome.ok_bind]
  simp only [itemLoop]
  rw [split] at short ⊢
  have enough : items.length < (header.bytes ++ [LF] ++ items.flatMap Item.encode).length + 1 := by
    simp only [List.length_append]
    omega
  have read := iterate_encode items (header.bytes ++ [LF]) [] enough short
  simpa using read

def sampleEvent : Event where
  eventId := ⟨1⟩
  timestamp := DateTime.toReading ⟨0, minNanos_le_zero, zero_le_maxNanos⟩
  platform := none
  level := none
  environment := none
  release := none
  serverName := none
  message := some "boom"
  exception := none
  breadcrumbs := none
  tags := none
  contexts := none
  extra := none
  user := none
  request := none

def sampleBody : String :=
  "\x7b\"event_id\":\"00000000000000000000000000000001\",\"timestamp\":\"1970-01-01T00:00:00Z\"," ++
    "\"message\":\"boom\"\x7d"

def attachmentHeader : Map := [("length", .number (.posInt 20)), ("type", .string "attachment")]

def eventHeader : Map := [("type", .string "event")]

def sampleSerde : SerdeJson :=
  tableSerde [("\x7b\x7d", .object []),
    ("\x7b\"type\":\"attachment\",\"length\":20\x7d", .object attachmentHeader),
    ("\x7b\"type\":\"event\"\x7d", .object eventHeader)] [(sampleBody, sampleEvent)]

def sampleHeader : EnvelopeHeader sampleSerde where
  bytes := "\x7b\x7d".toUTF8.data.toList
  value := .object []
  decodes := rfl
  oneLine := by decide

def sampleAttachment : Item sampleSerde where
  headerBytes := "\x7b\"type\":\"attachment\",\"length\":20\x7d".toUTF8.data.toList
  members := attachmentHeader
  type := "attachment"
  payload := "\n\n\x7b\"type\":\"event\"\x7d\n\n".toUTF8.data.toList
  decodes := rfl
  oneLine := by decide
  typed := rfl
  frames := .inl ⟨20, rfl, by decide⟩
  event_decodes isEvent := absurd isEvent (by decide)

theorem eventLine_oneLine : LF ∉ "\x7b\"type\":\"event\"\x7d".toUTF8.data.toList := by decide

theorem eventLine_decodes :
    sampleSerde.value "\x7b\"type\":\"event\"\x7d".toUTF8.data.toList = .ok (.object eventHeader) := rfl

def sampleItem : Item sampleSerde where
  headerBytes := "\x7b\"type\":\"event\"\x7d".toUTF8.data.toList
  members := eventHeader
  type := "event"
  payload := sampleBody.toUTF8.data.toList
  decodes := eventLine_decodes
  oneLine := eventLine_oneLine
  typed := rfl
  frames := .inr ⟨rfl, by decide⟩
  event_decodes _ := ⟨sampleEvent, rfl⟩

set_option maxRecDepth 4000 in
theorem parseEnvelope_encode_sample :
    ∃ short, parseEnvelope sampleSerde ⟨encode sampleHeader [sampleAttachment, sampleItem], short⟩ =
      .ok [sampleEvent] :=
  ⟨by decide, parseEnvelope_encode sampleHeader [sampleAttachment, sampleItem] (by decide)⟩

end Errex.Proof.Envelope
