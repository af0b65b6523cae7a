import Errex.Model.Envelope

/-!
# Panics of the envelope parser

`Reached` is the framing of an envelope over unbounded numbers: the offsets at which an item can
start. The parser returns exactly when no item header it reaches declares a length that carries the
cursor past the largest `usize` (`parseEnvelope_returns_iff`).
-/

namespace Errex.Proof.Envelope
open Foundation Model Model.Envelope

theorem slice_of_le {buf : List UInt8} {start finish : Nat} (le : start ≤ finish)
    (inside : finish ≤ buf.length) :
    slice buf start finish = some ((buf.drop start).take (finish - start)) := if_pos ⟨le, inside⟩

theorem slice_of_gt {buf : List UInt8} {start finish : Nat} (gt : finish < start) :
    slice buf start finish = none := if_neg fun h => by omega

theorem newline_lt {buf : List UInt8} {rel : Nat} (h : newline buf = some rel) : rel < buf.length :=
  (List.findIdx?_eq_some_iff_getElem.mp h).1

theorem readLine_of_le {buf : List UInt8} {start : Nat} (le : buf.length ≤ start) :
    readLine buf start = none := if_pos le

theorem readLine_of_lt {buf : List UInt8} {start : Nat} (lt : start < buf.length) :
    ∃ next, readLine buf start = some (next, next) ∧ start < next ∧ next ≤ buf.length := by
  simp only [readLine, if_neg (Nat.not_le.mpr lt)]
  cases h : newline (buf.drop start) with
  | none => exact ⟨buf.length, rfl, lt, le_rfl⟩
  | some rel =>
      have := newline_lt h
      simp only [List.length_drop] at this
      exact ⟨start + rel + 1, rfl, by omega, by omega⟩

theorem le_of_slice {buf bytes : List UInt8} {start finish : Nat} (h : slice buf start finish = some bytes) :
    start ≤ finish ∧ finish ≤ buf.length := by
  by_contra outside
  simp [slice, outside] at h

theorem readLine_slice {buf : List UInt8} {start headerEnd next : Nat}
    (line : readLine buf start = some (headerEnd, next)) :
    headerEnd = next ∧ start < next ∧ next ≤ buf.length ∧
      slice buf start (next - 1) = some ((buf.drop start).take (next - 1 - start)) := by
  have lt : start < buf.length := by
    by_contra le
    simp [readLine_of_le (Nat.not_lt.mp le)] at line
  obtain ⟨next', line', gt, inside⟩ := readLine_of_lt lt
  simp only [line, Option.some.injEq, Prod.mk.injEq] at line'
  obtain ⟨rfl, rfl⟩ := line'
  exact ⟨rfl, gt, inside, slice_of_le (by omega) (by omega)⟩

theorem le_skipNewline (raw : List UInt8) (cursor : Nat) : cursor ≤ skipNewline raw cursor := by
  unfold skipNewline
  split_ifs <;> omega

def headerAt (serde : SerdeJson) (raw : List UInt8) (cursor : Nat) : Option (Value × Nat) := do
  let (headerEnd, start) ← readLine raw cursor
  let bytes ← slice raw cursor (headerEnd - 1)
  let header ← (serde.value bytes).toOption
  pure (header, start)

def exactEnd (raw : List UInt8) (start : Nat) (header : Value) : Nat :=
  match itemLength header with
  | some len => start + len.toNat
  | none => start + (newline (raw.drop start)).getD (raw.length - start)

/-- The offsets at which an item of the envelope can start. -/
inductive Reached (serde : SerdeJson) (raw : List UInt8) : Nat → Prop where
  | first {headerEnd cursor : Nat} {bytes : List UInt8} {header : Value} :
      readLine raw 0 = some (headerEnd, cursor) → slice raw 0 (headerEnd - 1) = some bytes →
      serde.value bytes = .ok header → Reached serde raw cursor
  | blank {cursor headerEnd next : Nat} :
      Reached serde raw cursor → readLine raw cursor = some (headerEnd, next) →
      slice raw cursor (headerEnd - 1) = some [] → Reached serde raw next
  | item {cursor start : Nat} {header : Value} {payload : List UInt8} :
      Reached serde raw cursor → headerAt serde raw cursor = some (header, start) →
      slice raw start (exactEnd raw start header) = some payload →
      (itemType header = "event" → ∃ event, serde.event payload = .ok event) →
      Reached serde raw (skipNewline raw (exactEnd raw start header))

/-- No item header that is reached declares a length that carries the cursor past `2 ^ 64 - 1`. -/
def LengthsFit (serde : SerdeJson) (raw : List UInt8) : Prop :=
  ∀ cursor header start len, Reached serde raw cursor → headerAt serde raw cursor = some (header, start) →
    itemLength header = some len → start + len.toNat < 2 ^ 64

/-- The parser's `cursor + len` is the sum, at every item header that is reached. -/
def CursorSumsExact (serde : SerdeJson) (raw : List UInt8) : Prop :=
  ∀ cursor header start len, Reached serde raw cursor → headerAt serde raw cursor = some (header, start) →
    itemLength header = some len → usizeAdd start len.toNat = start + len.toNat

section Round

variable {serde : SerdeJson} {raw : List UInt8} {cursor : Nat} {events : List Event}

theorem itemRound_leave (le : raw.length ≤ cursor) :
    itemRound serde raw (cursor, events) = .ok (.inr events) := by
  simp [itemRound, le]

theorem itemRound_blank {headerEnd next : Nat} (line : readLine raw cursor = some (headerEnd, next))
    (empty : slice raw cursor (headerEnd - 1) = some []) :
    itemRound serde raw (cursor, events) = .ok (.inl (next, events)) := by
  have lt : ¬ raw.length ≤ cursor := fun le => by simp [readLine_of_le le] at line
  simp [itemRound, lt, line, empty]

theorem itemRound_header {header : Value} {start : Nat}
    (h : headerAt serde raw cursor = some (header, start)) :
    itemRound serde raw (cursor, events) = (do
      let finish ← payloadEnd raw start header
      let payload ← .ofOption (slice raw start finish)
      let added ← itemEvents serde header payload
      pure (.inl (skipNewline raw finish, events ++ added))) := by
  simp only [headerAt, Option.bind_eq_bind, Option.bind_eq_some_iff, Option.pure_def,
    Option.some.injEq, Prod.exists, Prod.mk.injEq] at h
  obtain ⟨headerEnd, next, line, bytes, sliced, value, decoded, rfl, rfl⟩ := h
  have lt : ¬ raw.length ≤ cursor := fun le => by simp [readLine_of_le le] at line
  cases result : serde.value bytes with
  | error message => simp [result, Except.toOption] at decoded
  | ok header =>
      obtain rfl : header = value := by simpa [result, Except.toOption] using decoded
      have nonempty : bytes ≠ [] := by
        rintro rfl
        exact serde.value_nil _ result
      simp [itemRound, lt, line, sliced, nonempty, fromSlice, result]

theorem headerAt_bounds {header : Value} {start : Nat}
    (h : headerAt serde raw cursor = some (header, start)) : cursor < start ∧ start ≤ raw.length := by
  simp only [headerAt, Option.bind_eq_bind, Option.bind_eq_some_iff, Option.pure_def,
    Option.some.injEq, Prod.exists, Prod.mk.injEq] at h
  obtain ⟨headerEnd, next, line, -, -, -, -, -, rfl⟩ := h
  obtain ⟨-, gt, inside, -⟩ := readLine_slice line
  exact ⟨gt, inside⟩

theorem itemEvents_cases (serde : SerdeJson) (header : Value) (payload : List UInt8) :
    (∃ error, itemEvents serde header payload = .err error) ∨
      ∃ added, itemEvents serde header payload = .ok added ∧
        (itemType header = "event" → ∃ event, serde.event payload = .ok event) := by
  unfold itemEvents
  split_ifs with event
  · cases h : serde.event payload with
    | error message => exact .inl ⟨.json message, by simp [fromSlice, h]⟩
    | ok e =>
        exact .inr ⟨[UserAgent.augmentTagsFromUserAgent e], by simp [fromSlice, h], fun _ => ⟨e, rfl⟩⟩
  · exact .inr ⟨[], rfl, fun h => absurd h event⟩

theorem exactEnd_ge (raw : List UInt8) (start : Nat) (header : Value) : start ≤ exactEnd raw start header := by
  unfold exactEnd
  split <;> omega

theorem payloadEnd_of_fits {start : Nat} {header : Value} (inside : start ≤ raw.length)
    (fits : ∀ len, itemLength header = some len → start + len.toNat < 2 ^ 64) :
    payloadEnd raw start header =
      if raw.length < exactEnd raw start header then
        .err (.invalidEnvelope "item length exceeds envelope size")
      else .ok (exactEnd raw start header) := by
  cases h : itemLength header with
  | some len =>
      have exact : usizeAdd start len.toNat = start + len.toNat := Nat.mod_eq_of_lt (fits len h)
      simp only [payloadEnd, h, exact, exactEnd]
  | none =>
      have full : (raw.drop start).take (raw.length - start) = raw.drop start :=
        List.take_of_length_le (by simp)
      simp only [payloadEnd, h, slice_of_le inside le_rfl, full, exactEnd]
      cases rel : newline (raw.drop start) with
      | none => simp [rel, inside]
      | some r =>
          have := newline_lt rel
          simp only [List.length_drop] at this
          have within : ¬ raw.length < start + r := by omega
          simp [rel, within]

theorem itemRound_of_fits (events : List Event) {header : Value} {start : Nat}
    (h : headerAt serde raw cursor = some (header, start))
    (fits : ∀ len, itemLength header = some len → start + len.toNat < 2 ^ 64) :
    (∃ error, itemRound serde raw (cursor, events) = .err error) ∨
      ∃ payload added, slice raw start (exactEnd raw start header) = some payload ∧
        (itemType header = "event" → ∃ event, serde.event payload = .ok event) ∧
        itemRound serde raw (cursor, events) =
          .ok (.inl (skipNewline raw (exactEnd raw start header), events ++ added)) := by
  rw [itemRound_header h, payloadEnd_of_fits (headerAt_bounds h).2 fits]
  split_ifs with long
  · exact .inl ⟨_, rfl⟩
  · have sliced := slice_of_le (exactEnd_ge raw start header) (Nat.not_lt.mp long)
    rcases itemEvents_cases serde header
        ((raw.drop start).take (exactEnd raw start header - start)) with
      ⟨error, failed⟩ | ⟨added, ok, decodes⟩
    · exact .inl ⟨error, by simp [sliced, failed]⟩
    · exact .inr ⟨_, added, sliced, decodes, by simp [sliced, ok]⟩

theorem exists_itemEvents {header : Value} {payload : List UInt8}
    (decodes : itemType header = "event" → ∃ event, serde.event payload = .ok event) :
    ∃ added, itemEvents serde header payload = .ok added := by
  unfold itemEvents
  split_ifs with event
  · obtain ⟨e, decoded⟩ := decodes event
    exact ⟨[UserAgent.augmentTagsFromUserAgent e], by simp [fromSlice, decoded]⟩
  · exact ⟨[], rfl⟩

theorem itemRound_of_events (events : List Event) {header : Value} {start : Nat} {payload : List UInt8} {added : List Event}
    (short : raw.length < 2 ^ 63) (h : headerAt serde raw cursor = some (header, start))
    (sliced : slice raw start (exactEnd raw start header) = some payload)
    (ok : itemEvents serde header payload = .ok added) :
    itemRound serde raw (cursor, events) =
      .ok (.inl (skipNewline raw (exactEnd raw start header), events ++ added)) := by
  have inside := (le_of_slice sliced).2
  have fits : ∀ len, itemLength header = some len → start + len.toNat < 2 ^ 64 := by
    intro len length
    simp only [exactEnd, length] at inside
    omega
  rw [itemRound_header h, payloadEnd_of_fits (headerAt_bounds h).2 fits, if_neg (Nat.not_lt.mpr inside)]
  simp [sliced, ok]

theorem itemRound_of_wraps {header : Value} {start : Nat} {len : UInt64}
    (h : headerAt serde raw cursor = some (header, start)) (short : raw.length < 2 ^ 63)
    (length : itemLength header = some len) (wraps : 2 ^ 64 ≤ start + len.toNat) :
    itemRound serde raw (cursor, events) = .panic := by
  have inside := (headerAt_bounds h).2
  have small : len.toNat < 2 ^ 64 := len.toNat_lt
  have wrapped : usizeAdd start len.toNat = start + len.toNat - 2 ^ 64 := by
    unfold usizeAdd
    omega
  have finish : payloadEnd raw start header = .ok (start + len.toNat - 2 ^ 64) := by
    simp only [payloadEnd, length, wrapped]
    exact if_neg (by omega)
  have backwards : start + len.toNat - 2 ^ 64 < start := by omega
  simp only [itemRound_header h, finish, Outcome.ok_bind, slice_of_gt backwards, Outcome.ofOption_none,
    Outcome.panic_bind]

theorem itemRound_of_no_header (events : List Event) (lt : cursor < raw.length) (h : headerAt serde raw cursor = none) :
    (∃ error, itemRound serde raw (cursor, events) = .err error) ∨
      ∃ headerEnd next, readLine raw cursor = some (headerEnd, next) ∧
        slice raw cursor (headerEnd - 1) = some [] := by
  obtain ⟨next, line, gt, inside⟩ := readLine_of_lt lt
  have sliced : slice raw cursor (next - 1) = some ((raw.drop cursor).take (next - 1 - cursor)) :=
    slice_of_le (by omega) (by omega)
  by_cases blank : slice raw cursor (next - 1) = some []
  · exact .inr ⟨next, next, line, blank⟩
  · rw [sliced] at blank
    simp only [headerAt, line, sliced, Option.bind_eq_bind, Option.bind_some, Option.pure_def] at h
    cases result : serde.value ((raw.drop cursor).take (next - 1 - cursor)) with
    | ok header => simp [result, Except.toOption] at h
    | error message =>
        refine .inl ⟨.json message, ?_⟩
        simp only [Option.some.injEq] at blank
        simp [itemRound, Nat.not_le.mpr lt, line, sliced, blank, fromSlice, result]

end Round

section Run

variable {serde : SerdeJson} {raw : List UInt8}

theorem itemRound_advances {cursor next : Nat} {events events' : List Event}
    (short : raw.length < 2 ^ 63)
    (h : itemRound serde raw (cursor, events) = .ok (.inl (next, events'))) :
    cursor < raw.length ∧ cursor < next := by
  have lt : cursor < raw.length := by
    by_contra le
    simp [itemRound_leave (Nat.not_lt.mp le)] at h
  refine ⟨lt, ?_⟩
  cases header : headerAt serde raw cursor with
  | none =>
      rcases itemRound_of_no_header events lt header with ⟨error, failed⟩ | ⟨_, _, line, blank⟩
      · simp [failed] at h
      · obtain ⟨-, gt, -⟩ := readLine_slice line
        simp only [itemRound_blank line blank, Outcome.ok.injEq, Sum.inl.injEq, Prod.mk.injEq] at h
        omega
  | some found =>
      obtain ⟨header', start⟩ := found
      by_cases fits : ∀ len, itemLength header' = some len → start + len.toNat < 2 ^ 64
      · rcases itemRound_of_fits events header fits with
          ⟨error, failed⟩ | ⟨payload, added, -, -, passed⟩
        · simp [failed] at h
        · have gt := (headerAt_bounds header).1
          have ge := exactEnd_ge raw start header'
          have := le_skipNewline raw (exactEnd raw start header')
          rw [passed] at h
          simp only [Outcome.ok.injEq, Sum.inl.injEq, Prod.mk.injEq] at h
          omega
      · push Not at fits
        obtain ⟨len, length, wraps⟩ := fits
        simp [itemRound_of_wraps header short length wraps] at h

theorem itemRound_ne_outOfFuel (short : raw.length < 2 ^ 63) (state : Nat × List Event) :
    itemRound serde raw state ≠ .outOfFuel := by
  obtain ⟨cursor, events⟩ := state
  by_cases le : raw.length ≤ cursor
  · simp [itemRound_leave le]
  cases header : headerAt serde raw cursor with
  | none =>
      rcases itemRound_of_no_header events (Nat.not_le.mp le) header with
        ⟨error, failed⟩ | ⟨_, _, line, blank⟩
      · simp [failed]
      · simp [itemRound_blank line blank]
  | some found =>
      obtain ⟨header', start⟩ := found
      by_cases fits : ∀ len, itemLength header' = some len → start + len.toNat < 2 ^ 64
      · rcases itemRound_of_fits events header fits with ⟨error, failed⟩ | ⟨_, _, -, -, passed⟩
        · simp [failed]
        · simp [passed]
      · push Not at fits
        obtain ⟨len, length, wraps⟩ := fits
        simp [itemRound_of_wraps header short length wraps]

abbrev itemLoop (serde : SerdeJson) (raw : List UInt8) (state : Nat × List Event) :
    Outcome ProtoError (List Event) :=
  iterate (itemRound serde raw) (raw.length + 1) state

theorem itemLoop_ne_outOfFuel (short : raw.length < 2 ^ 63) {fuel : Nat} {state : Nat × List Event}
    (enough : raw.length - state.1 < fuel) : iterate (itemRound serde raw) fuel state ≠ .outOfFuel := by
  refine iterate_ne_outOfFuel (fun _ => True) (fun state => raw.length - state.1)
    (fun state _ => itemRound_ne_outOfFuel short state) ?_ fuel state trivial enough
  rintro ⟨cursor, events⟩ ⟨next, events'⟩ - passed
  have := itemRound_advances short passed
  exact ⟨trivial, by simp only; omega⟩

theorem itemLoop_next (short : raw.length < 2 ^ 63) {state next : Nat × List Event}
    (passed : itemRound serde raw state = .ok (.inl next)) :
    itemLoop serde raw state = itemLoop serde raw next := by
  have advances : state.1 < raw.length ∧ state.1 < next.1 := itemRound_advances short passed
  rw [itemLoop, iterate_next passed]
  exact (iterate_mono (Nat.le_succ _) (itemLoop_ne_outOfFuel short (by omega))).symm

theorem parseEnvelope_of_line (serde : SerdeJson) {raw : Slice} {headerEnd cursor : Nat}
    (line : readLine raw.bytes 0 = some (headerEnd, cursor)) :
    ∃ bytes, slice raw.bytes 0 (headerEnd - 1) = some bytes ∧
      parseEnvelope serde raw = (fromSlice serde.value bytes >>= fun _ =>
        itemLoop serde raw.bytes (cursor, [])) := by
  obtain ⟨rfl, -, -, sliced⟩ := readLine_slice line
  refine ⟨_, sliced, ?_⟩
  simp only [parseEnvelope, line, sliced, Outcome.ofOption_some, Outcome.ok_bind]

theorem parseEnvelope_of_reached {raw : Slice} {cursor : Nat} (reached : Reached serde raw.bytes cursor) :
    ∃ events, parseEnvelope serde raw = itemLoop serde raw.bytes (cursor, events) := by
  induction reached with
  | first line sliced decoded =>
      obtain ⟨bytes, sliced', parsed⟩ := parseEnvelope_of_line serde line
      obtain rfl : bytes = _ := Option.some.inj (sliced'.symm.trans sliced)
      exact ⟨[], by rw [parsed, fromSlice, decoded, Outcome.ok_bind]⟩
  | blank _ line empty ih =>
      obtain ⟨events, parsed⟩ := ih
      exact ⟨events, parsed.trans (itemLoop_next raw.length_lt (itemRound_blank line empty))⟩
  | @item cursor start header payload _ found sliced decodes ih =>
      obtain ⟨events, parsed⟩ := ih
      obtain ⟨added, ok⟩ := exists_itemEvents decodes
      have passed := itemRound_of_events events raw.length_lt found sliced ok
      exact ⟨events ++ added, parsed.trans (itemLoop_next raw.length_lt passed)⟩

theorem parseEnvelope_of_wraps {raw : Slice} {cursor start : Nat} {header : Value} {len : UInt64}
    (reached : Reached serde raw.bytes cursor)
    (found : headerAt serde raw.bytes cursor = some (header, start))
    (length : itemLength header = some len) (wraps : 2 ^ 64 ≤ start + len.toNat) :
    parseEnvelope serde raw = .panic := by
  obtain ⟨events, parsed⟩ := parseEnvelope_of_reached reached
  rw [parsed]
  exact iterate_panic (itemRound_of_wraps found raw.length_lt length wraps) _

theorem itemRound_reached {cursor : Nat} (events : List Event) (fit : LengthsFit serde raw)
    (reached : Reached serde raw cursor) :
    itemRound serde raw (cursor, events) = .ok (.inr events) ∨
      (∃ error, itemRound serde raw (cursor, events) = .err error) ∨
      ∃ next events', itemRound serde raw (cursor, events) = .ok (.inl (next, events')) ∧
        Reached serde raw next := by
  by_cases le : raw.length ≤ cursor
  · exact .inl (itemRound_leave le)
  refine .inr ?_
  cases found : headerAt serde raw cursor with
  | none =>
      rcases itemRound_of_no_header events (Nat.not_le.mp le) found with failed | ⟨headerEnd, next, line, empty⟩
      · exact .inl failed
      · exact .inr ⟨next, events, itemRound_blank line empty, .blank reached line empty⟩
  | some item =>
      obtain ⟨header, start⟩ := item
      rcases itemRound_of_fits events found (fit cursor header start · reached found) with
        failed | ⟨payload, added, sliced, decodes, passed⟩
      · exact .inl failed
      · exact .inr ⟨_, _, passed, .item reached found sliced decodes⟩

end Run

section Results

variable (serde : SerdeJson) (raw : Slice)

theorem parseEnvelope_ne_outOfFuel : parseEnvelope serde raw ≠ .outOfFuel := by
  cases line : readLine raw.bytes 0 with
  | none => simp [parseEnvelope, line]
  | some ends =>
      obtain ⟨headerEnd, cursor⟩ := ends
      obtain ⟨bytes, -, parsed⟩ := parseEnvelope_of_line serde line
      have ends : itemLoop serde raw.bytes (cursor, []) ≠ .outOfFuel :=
        itemLoop_ne_outOfFuel raw.length_lt (by simp only; omega)
      cases decoded : serde.value bytes with
      | error message => simp [parsed, fromSlice, decoded]
      | ok header => simpa only [parsed, fromSlice, decoded, Outcome.ok_bind] using ends

theorem parseEnvelope_ne_panic (fit : LengthsFit serde raw.bytes) : parseEnvelope serde raw ≠ .panic := by
  cases line : readLine raw.bytes 0 with
  | none => simp [parseEnvelope, line]
  | some ends =>
      obtain ⟨headerEnd, cursor⟩ := ends
      obtain ⟨bytes, sliced, parsed⟩ := parseEnvelope_of_line serde line
      cases decoded : serde.value bytes with
      | error message => simp [parsed, fromSlice, decoded]
      | ok header =>
          simp only [parsed, fromSlice, decoded, Outcome.ok_bind]
          refine iterate_invariant (fun state => Reached serde raw.bytes state.1) (· ≠ .panic) ?_
            (by simp) _ _ (.first line sliced decoded)
          rintro ⟨cursor, events⟩ reached
          rcases itemRound_reached events fit reached with
            left | ⟨error, failed⟩ | ⟨next, events', passed, kept⟩
          · simp [left]
          · simp [failed]
          · simpa [passed] using kept

/-- The parser ends in events or an error, and its cursor sums are exact, just when the lengths
that the sender declared fit; a length that does not fit is a panic. -/
theorem parseEnvelope_returns_iff :
    ((parseEnvelope serde raw).Returns ∧ CursorSumsExact serde raw.bytes ↔ LengthsFit serde raw.bytes) ∧
      ((parseEnvelope serde raw).Returns ↔ LengthsFit serde raw.bytes) := by
  have exact_iff : CursorSumsExact serde raw.bytes ↔ LengthsFit serde raw.bytes := by
    refine forall₄_congr fun cursor header start len => ?_
    refine imp_congr_right fun _ => imp_congr_right fun _ => imp_congr_right fun _ => ?_
    exact Nat.mod_eq_iff_lt (by decide)
  have returns : (parseEnvelope serde raw).Returns ↔ LengthsFit serde raw.bytes := by
    constructor
    · intro returns cursor header start len reached found length
      by_contra wraps
      have panics := parseEnvelope_of_wraps reached found length (Nat.not_lt.mp wraps)
      rw [panics] at returns
      exact returns
    · intro fit
      exact Outcome.returns_iff.mpr ⟨parseEnvelope_ne_panic serde raw fit, parseEnvelope_ne_outOfFuel serde raw⟩
  exact ⟨by rw [exact_iff, and_iff_right_iff_imp]; exact returns.mpr, returns⟩

end Results

def tableSerde (values : List (String × Value)) (events : List (String × Event)) : SerdeJson where
  value bytes :=
    if bytes = [] then .error "EOF while parsing a value at line 1 column 0"
    else match values.find? fun entry => entry.1.toUTF8.data.toList == bytes with
      | some entry => .ok entry.2
      | none => .error "expected value at line 1 column 1"
  event bytes :=
    match events.find? fun entry => entry.1.toUTF8.data.toList == bytes with
    | some entry => .ok entry.2
    | none => .error "expected value at line 1 column 1"
  value_nil v := by simp

def maxLengthHeader : String := "\x7b\"type\":\"event\",\"length\":18446744073709551615\x7d"

def maxLengthSerde : SerdeJson :=
  tableSerde [("\x7b\x7d", .object []), (maxLengthHeader,
    .object [("length", .number (.posInt 18446744073709551615)), ("type", .string "event")])] []

def maxLengthEnvelope : Slice where
  bytes := ("\x7b\x7d\n" ++ maxLengthHeader ++ "\nx\n").toUTF8.data.toList
  length_lt := by decide

/-- The cursor wraps to the byte before the payload, and the slice runs backwards. -/
theorem parseEnvelope_maxLength_panics :
    ¬ ∀ (serde : SerdeJson) (raw : Slice),
      (parseEnvelope serde raw).Returns ∧ CursorSumsExact serde raw.bytes := by
  intro returns
  have panics : parseEnvelope maxLengthSerde maxLengthEnvelope = .panic := by rfl
  have := (returns maxLengthSerde maxLengthEnvelope).1
  rw [panics] at this
  exact this

end Errex.Proof.Envelope
