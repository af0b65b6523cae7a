import Errex.Model.Time
import Errex.Model.Webhook

/-!
# Addresses in texts

`str::parse::<IpAddr>` of the standard library: a parser over the rest of the text, where a reader that
fails gives back what it took.
-/

namespace Errex.Model.Webhook
open Foundation

def toDigit (radix : Nat) (c : Char) : Option Nat :=
  let digit :=
    if c.isDigit then c.toNat - 48
    else if c.isLower then c.toNat - 87
    else if c.isUpper then c.toNat - 55
    else radix
  if digit < radix then some digit else none

def readNumber (radix maxDigits : Nat) (allowZero : Bool) (s : List Char) : Option (Nat × List Char) :=
  let isDigit := fun c => (toDigit radix c).isSome
  let taken := s.takeWhile isDigit
  if taken.length = 0 ∨ maxDigits < taken.length then none
  else if !allowZero ∧ s.head? = some '0' ∧ 1 < taken.length then none
  else some (taken.foldl (fun n c => n * radix + (toDigit radix c).getD 0) 0, s.dropWhile isDigit)

def readSeparator {α : Type} (separator : Char) (index : Nat) (inner : List Char → Option (α × List Char))
    (s : List Char) : Option (α × List Char) := do
  let s ← if 0 < index then scanChar (· == separator) s else some s
  inner s

def readOctet (s : List Char) : Option (UInt8 × List Char) := do
  let (n, s) ← readNumber 10 3 false s
  if n < 256 then some (UInt8.ofNat n, s) else none

def readIpv4Addr (s : List Char) : Option ((Fin 4 → UInt8) × List Char) := do
  let (a, s) ← readSeparator '.' 0 readOctet s
  let (b, s) ← readSeparator '.' 1 readOctet s
  let (c, s) ← readSeparator '.' 2 readOctet s
  let (d, s) ← readSeparator '.' 3 readOctet s
  some (![a, b, c, d], s)

def ofBeBytes (high low : UInt8) : UInt16 := UInt16.ofNat (high.toNat * 256 + low.toNat)

def readGroups : (remaining i : Nat) → List Char → List UInt16 × Bool × List Char
  | 0, _, s => ([], false, s)
  | remaining + 1, i, s =>
      -- an IPv4 address takes two groups
      match if 0 < remaining then readSeparator ':' i readIpv4Addr s else none with
      | some (octets, s) => ([ofBeBytes (octets 0) (octets 1), ofBeBytes (octets 2) (octets 3)], true, s)
      | none =>
          match readSeparator ':' i (readNumber 16 4 true) s with
          | some (group, s) =>
              let (groups, ipv4, s) := readGroups remaining (i + 1) s
              (UInt16.ofNat group :: groups, ipv4, s)
          | none => ([], false, s)

def ofGroups (groups : List UInt16) : Fin 8 → UInt16 := fun i => groups.getD i 0

def readIpv6Addr (s : List Char) : Option ((Fin 8 → UInt16) × List Char) :=
  let (head, headIpv4, s) := readGroups 8 0 s
  if head.length = 8 then some (ofGroups head, s)
  else if headIpv4 then none
  else do
    let s ← scanChar (· == ':') s
    let s ← scanChar (· == ':') s
    let (tail, _, s) := readGroups (7 - head.length) 0 s
    some (ofGroups (head ++ List.replicate (8 - head.length - tail.length) 0 ++ tail), s)

def readIpAddr (s : List Char) : Option (IpAddr × List Char) :=
  match readIpv4Addr s with
  | some (octets, s) => some (.v4 octets, s)
  | none => (readIpv6Addr s).map fun read => (.v6 read.1, read.2)

def parseIpAddr (text : String) : Option IpAddr :=
  match readIpAddr text.toList with
  | some (ip, []) => some ip
  | _ => none

def dotted (octets : Fin 4 → UInt8) : List Char :=
  Nat.toDigits 10 (octets 0).toNat ++ '.' :: (Nat.toDigits 10 (octets 1).toNat ++
    '.' :: (Nat.toDigits 10 (octets 2).toNat ++ '.' :: Nat.toDigits 10 (octets 3).toNat))

example : (parseIpAddr "::ffff:10.0.0.1").map ipIsPrivateOrLocal = some false := by decide

end Errex.Model.Webhook
