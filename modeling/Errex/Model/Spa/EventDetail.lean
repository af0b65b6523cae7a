import Errex.Foundation.Utf16
import Errex.Model.Proto

/-!
# Stored events in the SPA

`eventDetail.ts`: the tags of a payload in their two shapes, and the frame that a stack trace opens at.
-/

namespace Errex.Model.Spa
open Foundation Utf16

/-- The own properties of a `Record<string, string>`. -/
abbrev Tags := Utf16 → Option Utf16

/-- `out[key] = value`; the setter of `__proto__` ignores a text. -/
def Tags.set (out : Tags) (key value : Utf16) : Tags := fun k =>
  if k = key ∧ key ≠ encode "__proto__" then some value else out k

section

variable (numberText : Number → Utf16)

mutual

/-- `String(value)` over the texts of numbers; an object with a `toString` of its own has no text, a `TypeError`. -/
def stringOf : Value → Option Utf16
  | .null => some (encode "null")
  | .bool true => some (encode "true")
  | .bool false => some (encode "false")
  | .number n => some (numberText n)
  | .string s => some (encode s)
  | .array elements => (elementTexts elements).map (join ',')
  | .object members => if members.any (·.1 == "toString") then none else some (encode "[object Object]")

def elementTexts : List Value → Option (List Utf16)
  | [] => some []
  | .null :: rest => (elementTexts rest).map ([] :: ·)
  | v :: rest => do pure ((← stringOf v) :: (← elementTexts rest))

end

def pairTags : List Value → Tags → Option Tags
  | [], out => some out
  | .array (key :: value :: _) :: rest, out => do
      pairTags rest (out.set (← stringOf numberText key) (← stringOf numberText value))
  | _ :: rest, out => pairTags rest out

def entryTags : List (Utf16 × Value) → Tags → Option Tags
  | [], out => some out
  | (key, value) :: rest, out => do entryTags rest (out.set key (← stringOf numberText value))

def unitTags (units : Utf16) : Tags := fun key => (units.zipIdx.find? fun (_, n) => decimal n == key).map fun (u, _) => [u]

def extractTags : Option Value → Option Tags
  | none => some fun _ => none
  | some (.array pairs) => pairTags numberText pairs fun _ => none
  | some (.object members) => entryTags numberText (members.map fun (key, value) => (encode key, value)) fun _ => none
  | some (.string s) => some (unitTags (encode s))
  | some _ => some fun _ => none

end

def throwSiteFrom (frames : List Frame) : Nat → Int
  | 0 => frames.length - 1
  | i + 1 => if (frames[i]?.bind (·.inApp)) = some true then i else throwSiteFrom frames i

def throwSiteIndex (frames : List Frame) : Int :=
  if frames.length = 0 then -1 else throwSiteFrom frames frames.length

end Errex.Model.Spa
