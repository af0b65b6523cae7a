import Errex.Proof.Envelope.RoundTrip

/-!
# The final newline

The end of the bytes ends a payload as a newline does, so an envelope with items may leave out its
final newline. The header line alone may not: without a newline its last byte is cut off
(`parseEnvelope_dropLast_iff`).
-/

namespace Errex.Proof.Envelope
open Foundation Model Model.Envelope

/-- An item as the format frames it, whatever it means. -/
structure FramedItem (serde : SerdeJson) where
  headerBytes : List UInt8
  header : Value
  payload : List UInt8
  decodes : serde.value headerBytes = .ok header
  oneLine : LF ∉ headerBytes
  frames : (∃ len, itemLength header = some len ∧ len.toNat = payload.length) ∨
    (itemLength header = none ∧ LF ∉ payload)

variable {serde : SerdeJson}

namespace FramedItem

def bytes (item : FramedItem serde) : List UInt8 := item.headerBytes ++ LF :: item.payload

end FramedItem

def encodeFramed (header : EnvelopeHeader serde) (items : List (FramedItem serde)) : List UInt8 :=
  header.bytes ++ LF :: items.flatMap fun item => item.bytes ++ [LF]

def joinItems (finish : List UInt8) : List (FramedItem serde) → List UInt8
  | [] => []
  | [item] => item.bytes ++ finish
  | item :: next :: items => item.bytes ++ LF :: joinItems finish (next :: items)

theorem flatMap_eq_joinItems (items : List (FramedItem serde)) :
    (items.flatMap fun item => item.bytes ++ [LF]) = joinItems [LF] items := by
  induction items with
  | nil => rfl
  | cons item items ih =>
      cases items with
      | nil => simp [joinItems]
      | cons next items => rw [List.flatMap_cons, ih, joinItems, List.append_assoc, List.singleton_append]

theorem dropLast_joinItems (items : List (FramedItem serde)) :
    (joinItems [LF] items).dropLast = joinItems [] items := by
  induction items with
  | nil => rfl
  | cons item items ih =>
      cases items with
      | nil => simp [joinItems]
      | cons next items =>
          have nonempty : joinItems [LF] (next :: items) ≠ [] := by cases items <;> simp [joinItems]
          rw [joinItems, joinItems, List.append_cons, List.dropLast_append_of_ne_nil nonempty, ih, ← List.append_cons]

section Item

variable (before finish : List UInt8) (item : FramedItem serde)

theorem headerAt_framed : headerAt serde (before ++ (item.bytes ++ finish)) before.length =
    some (item.header, before.length + item.headerBytes.length + 1) := by
  have split : before ++ (item.bytes ++ finish) =
      before ++ (item.headerBytes ++ LF :: (item.payload ++ finish)) := by simp [FramedItem.bytes]
  rw [split]
  simp [headerAt, readLine_append _ _ _ item.oneLine, slice_append, item.decodes, Except.toOption]

theorem exactEnd_framed (ends : finish = [] ∨ ∃ rest, finish = LF :: rest) :
    exactEnd (before ++ (item.payload ++ finish)) before.length item.header =
      before.length + item.payload.length := by
  rcases item.frames with ⟨len, declared, same⟩ | ⟨undeclared, oneLine⟩
  · simp [exactEnd, declared, same]
  · rcases ends with rfl | ⟨rest, rfl⟩
    · simp [exactEnd, undeclared, newline_eq_none oneLine]
    · simp [exactEnd, undeclared, newline_append _ _ oneLine]

theorem skipNewline_framed (ends : finish = [] ∨ ∃ rest, finish = LF :: rest) :
    skipNewline (before ++ finish) before.length = before.length + (finish.take 1).length := by
  rcases ends with rfl | ⟨rest, rfl⟩
  · simp [skipNewline]
  · simp [skipNewline]

theorem itemRound_framed (ends : finish = [] ∨ ∃ rest, finish = LF :: rest)
    (short : (before ++ (item.bytes ++ finish)).length < 2 ^ 63) (events : List Event) :
    itemRound serde (before ++ (item.bytes ++ finish)) (before.length, events) =
      (itemEvents serde item.header item.payload >>= fun added =>
        .ok (.inl ((before ++ item.bytes).length + (finish.take 1).length, events ++ added))) := by
  let front := before ++ item.headerBytes ++ [LF]
  have split : before ++ (item.bytes ++ finish) = front ++ (item.payload ++ finish) := by
    simp [front, FramedItem.bytes]
  have start : front.length = before.length + item.headerBytes.length + 1 := by simp [front]; omega
  have found : headerAt serde (front ++ (item.payload ++ finish)) before.length = some (item.header, front.length) := by
    rw [← split, headerAt_framed, start]
  have fits : ∀ len, itemLength item.header = some len → front.length + len.toNat < 2 ^ 64 := by
    intro len length
    rcases item.frames with ⟨len', declared, same⟩ | ⟨undeclared, -⟩
    · obtain rfl := Option.some.inj (length.symm.trans declared)
      rw [split] at short
      simp only [List.length_append] at short
      omega
    · rw [undeclared] at length
      cases length
  have inside : ¬ (front ++ (item.payload ++ finish)).length < front.length + item.payload.length := by
    simp only [List.length_append]
    omega
  have whole : front ++ item.payload = before ++ item.bytes := by simp [front, FramedItem.bytes]
  rw [split, itemRound_header found, payloadEnd_of_fits (headerAt_bounds found).2 fits,
    exactEnd_framed front finish item ends, if_neg inside, Outcome.ok_bind, slice_append, Outcome.ofOption_some,
    Outcome.ok_bind, ← List.append_assoc, ← List.length_append, skipNewline_framed _ _ ends, whole]
  rfl

end Item

def itemsEvents : List (FramedItem serde) → List Event → Outcome ProtoError (List Event)
  | [], events => .ok events
  | item :: items, events =>
      itemEvents serde item.header item.payload >>= fun added => itemsEvents items (events ++ added)

theorem iterate_framed {items : List (FramedItem serde)} (some_ : items ≠ []) {finish : List UInt8}
    (ends : finish = [] ∨ finish = [LF]) (before : List UInt8) (events : List Event) {fuel : Nat}
    (enough : items.length < fuel) (short : (before ++ joinItems finish items).length < 2 ^ 63) :
    iterate (itemRound serde (before ++ joinItems finish items)) fuel (before.length, events) =
      itemsEvents items events := by
  obtain ⟨fuel, rfl⟩ : ∃ n, fuel = n + 1 := ⟨fuel - 1, by omega⟩
  induction items generalizing before events fuel with
  | nil => exact absurd rfl some_
  | cons item items ih =>
      cases items with
      | nil =>
          have stop : finish = [] ∨ ∃ rest, finish = LF :: rest := ends.imp_right fun last => ⟨[], last⟩
          have whole : (finish.take 1).length = finish.length := by rcases ends with rfl | rfl <;> rfl
          obtain ⟨fuel, rfl⟩ : ∃ n, fuel = n + 1 := ⟨fuel - 1, by simp at enough; omega⟩
          rw [joinItems] at short ⊢
          rw [iterate, itemRound_framed _ _ _ stop short, whole, itemsEvents]
          cases itemEvents serde item.header item.payload with
          | ok added =>
              simp only [Outcome.ok_bind]
              rw [iterate_leave (itemRound_leave (by simp [Nat.add_assoc]))]
              rfl
          | _ => rfl
      | cons next items =>
          rw [joinItems] at short ⊢
          rw [iterate, itemRound_framed _ _ _ (.inr ⟨_, rfl⟩) short, itemsEvents]
          cases itemEvents serde item.header item.payload with
          | ok added =>
              have split : before ++ (item.bytes ++ LF :: joinItems finish (next :: items)) =
                  (before ++ item.bytes ++ [LF]) ++ joinItems finish (next :: items) := by simp
              obtain ⟨fuel, rfl⟩ : ∃ n, fuel = n + 1 := ⟨fuel - 1, by simp at enough; omega⟩
              rw [split] at short ⊢
              have rest := ih (by simp) (before ++ item.bytes ++ [LF]) (events ++ added) short fuel
                (by simpa using enough)
              have next_cursor : (before ++ item.bytes).length + (List.take 1 (LF :: joinItems finish (next :: items))).length =
                  (before ++ item.bytes ++ [LF]).length := by simp [Nat.add_assoc]
              rw [next_cursor, Outcome.ok_bind, Outcome.ok_bind, Outcome.ok_bind]
              exact rest
          | _ => rfl

theorem length_le_joinItems (finish : List UInt8) (items : List (FramedItem serde)) :
    items.length ≤ (joinItems finish items).length := by
  induction items with
  | nil => simp
  | cons item items ih =>
      cases items with
      | nil => simp [joinItems, FramedItem.bytes]; omega
      | cons next items =>
          simp only [joinItems, List.length_append, List.length_cons] at ih ⊢
          omega

theorem parseEnvelope_joinItems (header : EnvelopeHeader serde) {items : List (FramedItem serde)} (some_ : items ≠ [])
    {finish : List UInt8} (ends : finish = [] ∨ finish = [LF]) {raw : Slice}
    (bytes : raw.bytes = header.bytes ++ LF :: joinItems finish items) :
    parseEnvelope serde raw = itemsEvents items [] := by
  have line := readLine_append [] header.bytes (joinItems finish items) header.oneLine
  have sliced := slice_append [] header.bytes (LF :: joinItems finish items)
  simp only [List.nil_append, List.length_nil, Nat.zero_add, ← bytes] at line sliced
  obtain ⟨bytes', sliced', parsed⟩ := parseEnvelope_of_line serde line
  obtain rfl : bytes' = header.bytes := Option.some.inj (sliced'.symm.trans sliced)
  have split : raw.bytes = (header.bytes ++ [LF]) ++ joinItems finish items := by simp [bytes]
  have count := length_le_joinItems finish items
  have short := raw.length_lt
  rw [parsed, fromSlice, header.decodes, Outcome.ok_bind]
  simp only [itemLoop]
  rw [split] at short ⊢
  have start : header.bytes.length + 1 = (header.bytes ++ [LF]).length := by simp
  rw [start]
  refine iterate_framed some_ ends (header.bytes ++ [LF]) [] ?_ short
  rw [List.length_append]
  omega

def dropLast (raw : Slice) : Slice where
  bytes := raw.bytes.dropLast
  length_lt := (List.dropLast_sublist _).length_le.trans_lt raw.length_lt

theorem bytes_dropLast (raw : Slice) : (dropLast raw).bytes = raw.bytes.dropLast := rfl

theorem parseEnvelope_alone {raw : Slice} {headerEnd : Nat} {bytes : List UInt8}
    (line : readLine raw.bytes 0 = some (headerEnd, raw.bytes.length))
    (sliced : slice raw.bytes 0 (headerEnd - 1) = some bytes) :
    parseEnvelope serde raw = (fromSlice serde.value bytes >>= fun _ => .ok []) := by
  obtain ⟨bytes', sliced', parsed⟩ := parseEnvelope_of_line serde line
  obtain rfl : bytes' = bytes := Option.some.inj (sliced'.symm.trans sliced)
  have leaves : itemLoop serde raw.bytes (raw.bytes.length, []) = .ok [] :=
    iterate_leave (itemRound_leave le_rfl) _
  rw [parsed, leaves]

/-- The final newline makes no difference exactly when there are items, or the header without its last
byte is JSON as well. -/
theorem parseEnvelope_dropLast_iff (header : EnvelopeHeader serde) (items : List (FramedItem serde)) {raw : Slice}
    (bytes : raw.bytes = encodeFramed header items) :
    parseEnvelope serde (dropLast raw) = parseEnvelope serde raw ↔
      items ≠ [] ∨ ∃ value, serde.value header.bytes.dropLast = .ok value := by
  rw [encodeFramed, flatMap_eq_joinItems] at bytes
  by_cases some_ : items = []
  · subst some_
    rw [joinItems] at bytes
    have whole : parseEnvelope serde raw = .ok [] := by
      have line := readLine_append [] header.bytes [] header.oneLine
      have sliced := slice_append [] header.bytes [LF]
      have length : raw.bytes.length = header.bytes.length + 1 := by simp [bytes]
      simp only [List.nil_append, List.length_nil, Nat.zero_add, ← bytes, ← length] at line sliced
      rw [parseEnvelope_alone line (by rwa [length]), fromSlice, header.decodes, Outcome.ok_bind]
    have cut : parseEnvelope serde (dropLast raw) = (fromSlice serde.value header.bytes.dropLast >>= fun _ => .ok []) := by
      have cut_bytes : (dropLast raw).bytes = header.bytes := by rw [bytes_dropLast, bytes, List.dropLast_concat]
      have nonempty : ¬ header.bytes.length ≤ 0 := by
        intro empty
        have nil : header.bytes = [] := List.length_eq_zero_iff.mp (Nat.le_zero.mp empty)
        exact serde.value_nil _ (nil ▸ header.decodes)
      have none_ : newline header.bytes = none := newline_eq_none header.oneLine
      apply parseEnvelope_alone
      · rw [cut_bytes, readLine, if_neg nonempty, List.drop_zero, none_]
      · rw [cut_bytes, slice_of_le (Nat.zero_le _) (Nat.sub_le _ _), List.drop_zero, Nat.sub_zero, List.dropLast_eq_take]
    rw [whole, cut]
    cases decoded : serde.value header.bytes.dropLast with
    | ok value => simp [fromSlice, decoded]
    | error message => simp [fromSlice, decoded]
  · refine iff_of_true ?_ (.inl some_)
    have nonempty : LF :: joinItems [LF] items ≠ [] := List.cons_ne_nil _ _
    have more : joinItems [LF] items ≠ [] := by
      have := length_le_joinItems [LF] items
      intro empty
      rw [empty] at this
      exact some_ (List.length_eq_zero_iff.mp (Nat.le_zero.mp this))
    have cut : (dropLast raw).bytes = header.bytes ++ LF :: joinItems [] items := by
      rw [bytes_dropLast, bytes, List.dropLast_append_of_ne_nil nonempty, List.dropLast_cons_of_ne_nil more,
        dropLast_joinItems]
    rw [parseEnvelope_joinItems header some_ (.inl rfl) cut, parseEnvelope_joinItems header some_ (.inr rfl) bytes]

def sampleFramed : FramedItem sampleSerde where
  headerBytes := "\x7b\"type\":\"event\"\x7d".toUTF8.data.toList
  header := .object eventHeader
  payload := sampleBody.toUTF8.data.toList
  decodes := eventLine_decodes
  oneLine := eventLine_oneLine
  frames := .inr ⟨rfl, by decide⟩

def sampleFramedSlice (items : List (FramedItem sampleSerde)) (short : (encodeFramed sampleHeader items).length < 2 ^ 63) :
    Slice := ⟨encodeFramed sampleHeader items, short⟩

theorem parseEnvelope_dropLast_sample :
    ∃ short, parseEnvelope sampleSerde (dropLast (sampleFramedSlice [sampleFramed] short)) =
      parseEnvelope sampleSerde (sampleFramedSlice [sampleFramed] short) :=
  ⟨by decide, (parseEnvelope_dropLast_iff sampleHeader [sampleFramed] rfl).mpr (.inl (by simp))⟩

/-- The header `\x7b\x7d` is read as `\x7b` without its newline. -/
theorem parseEnvelope_dropLast_fails :
    ¬ ∀ (serde : SerdeJson) (header : EnvelopeHeader serde) (items : List (FramedItem serde)) (raw : Slice),
      raw.bytes = encodeFramed header items → parseEnvelope serde (dropLast raw) = parseEnvelope serde raw := by
  intro optional
  have same := optional sampleSerde sampleHeader [] (sampleFramedSlice [] (by decide)) rfl
  have whole : parseEnvelope sampleSerde (sampleFramedSlice [] (by decide)) = .ok [] := by rfl
  have cut : parseEnvelope sampleSerde (dropLast (sampleFramedSlice [] (by decide))) =
      .err (.json "expected value at line 1 column 1") := by rfl
  rw [whole, cut] at same
  cases same

end Errex.Proof.Envelope
