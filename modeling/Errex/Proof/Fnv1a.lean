import Errex.Foundation.Folding
import Errex.Proof.Fingerprint

/-!
# FNV-1a

One round is injective in the state and in the byte: xor is, and the prime is odd, so it has an inverse modulo `2 ^ 64`.
What is hashed apart in one byte is grouped apart.
-/

namespace Errex.Proof.Fingerprint
open Foundation Folding Text Model Model.Fingerprint

theorem mul_prime_inj {a b : UInt64} (same : a * FNV_PRIME = b * FNV_PRIME) : a = b := by
  have inverse : FNV_PRIME * 0xce965057aff6957b = 1 := by decide
  calc a = a * FNV_PRIME * 0xce965057aff6957b := by rw [UInt64.mul_assoc, inverse, UInt64.mul_one]
    _ = b * FNV_PRIME * 0xce965057aff6957b := by rw [same]
    _ = b := by rw [UInt64.mul_assoc, inverse, UInt64.mul_one]

theorem round_faithful : Faithful fun (state : UInt64) (b : UInt8) => (state ^^^ b.toUInt64) * FNV_PRIME where
  state b s s' same := (UInt64.xor_left_inj _).mp (mul_prime_inj same)
  symbol s b b' same := by
    have bytes := congrArg UInt64.toNat ((UInt64.xor_right_inj s).mp (mul_prime_inj same))
    rw [UInt8.toNat_toUInt64, UInt8.toNat_toUInt64] at bytes
    exact UInt8.toNat_inj.mp bytes

theorem write_state_ne {a b : List UInt8} (apart : OneApart a b) (h : Fnv1a) : (h.write a).state ≠ (h.write b).state :=
  round_faithful.foldl_ne apart h.state

theorem hex16_inj {n m : UInt64} (same : hex16 n = hex16 m) : n = m := by
  have digits : hexDigits 16 n.toNat = hexDigits 16 m.toNat := String.ofList_injective same
  exact UInt64.toNat_inj.mp (eq_of_hexDigits_eq n.toNat_lt m.toNat_lt digits)

theorem derive_ne_of_oneApart {a b : Event} (apart : OneApart (bytes a) (bytes b)) : derive a ≠ derive b := by
  intro same
  rw [derive_eq, derive_eq] at same
  exact write_state_ne apart _ (hex16_inj same)

/-- One field has texts of one length that differ in one byte, and the others are the same. -/
def FieldsOneApart (fields more : List (Option String)) : Prop :=
  ∃ lead s t rest, fields = lead ++ some s :: rest ∧ more = lead ++ some t :: rest ∧ OneApart (utf8Bytes s) (utf8Bytes t)

theorem fieldsBytes_oneApart {fields more : List (Option String)} (apart : FieldsOneApart fields more) :
    OneApart (fieldsBytes fields) (fieldsBytes more) := by
  obtain ⟨lead, s, t, rest, rfl, rfl, apart⟩ := apart
  have split : ∀ s, fieldsBytes (lead ++ some s :: rest) =
      (fieldsBytes lead ++ [1]) ++ utf8Bytes s ++ (0xff :: fieldsBytes rest) := by
    intro s
    simp [fieldsBytes, Framing.frame, fieldBytes, utf8Bytes]
  rw [split, split]
  exact apart.within _ _

theorem bytes_of_message {event : Event} {msg : String} (primary : event.primaryException = none)
    (message : event.message = some msg) : bytes event = fieldsBytes [some msg] := by
  have grouped : kind event ≠ .eventId := by simp [kind, primary, message]
  rw [bytes_of_kind grouped, fields, primary, message]

/-- Byte strings that differ in one byte leave different states, so events of which the hashed bytes, the messages or
the fields of the exception differ in one byte are grouped apart. -/
theorem one_byte_regroups :
    (∀ (h : Fnv1a) (a b : List UInt8), OneApart a b → (h.write a).state ≠ (h.write b).state) ∧
    (∀ a b : Event, OneApart (bytes a) (bytes b) → derive a ≠ derive b) ∧
    (∀ (a b : Event) (msg msg' : String), a.primaryException = none → b.primaryException = none →
      a.message = some msg → b.message = some msg' → OneApart (utf8Bytes msg) (utf8Bytes msg') → derive a ≠ derive b) ∧
    ∀ (a b : Event) (ex ex' : ExceptionInfo), a.primaryException = some ex → b.primaryException = some ex' →
      FieldsOneApart (exceptionFields ex) (exceptionFields ex') → derive a ≠ derive b := by
  refine ⟨fun h a b apart => write_state_ne apart h, fun a b => derive_ne_of_oneApart, ?_, ?_⟩
  · intro a b msg msg' primary primary' message message' apart
    apply derive_ne_of_oneApart
    rw [bytes_of_message primary message, bytes_of_message primary' message']
    exact fieldsBytes_oneApart ⟨[], msg, msg', [], rfl, rfl, apart⟩
  · intro a b ex ex' primary primary' apart
    apply derive_ne_of_oneApart
    rw [bytes_of_exception primary, bytes_of_exception primary']
    exact fieldsBytes_oneApart apart

theorem one_byte_regroups_files :
    derive { plainEvent 1 with exception := some ⟨[⟨some "TypeError", none, none,
        some ⟨[⟨some "a.js", some "f", none, none, none, none⟩]⟩⟩]⟩ } ≠
      derive { plainEvent 1 with exception := some ⟨[⟨some "TypeError", none, none,
        some ⟨[⟨some "b.js", some "f", none, none, none, none⟩]⟩⟩]⟩ } := by
  have files : OneApart (utf8Bytes "a.js") (utf8Bytes "b.js") :=
    oneApart_iff.mpr ⟨[], 97, 98, [46, 106, 115], by decide, by decide, by decide⟩
  exact one_byte_regroups.2.2.2 _ _ _ _ rfl rfl ⟨[some "TypeError", some "f"], "a.js", "b.js", [], rfl, rfl, files⟩

end Errex.Proof.Fingerprint
