import Errex.Foundation.Outcome
import Errex.Model.IpAddr

/-!
# The bind address

`Config` of `config.rs` as far as it is about the HTTP listener, the address of the container's health check, and the
socket addresses of the standard library.
-/

namespace Errex.Model
open Foundation Text Webhook

structure Config where
  httpHost : String
  httpPort : Option UInt16

namespace Config

def isLoopback : IpAddr → Bool
  | .v4 octets => octets 0 == 127
  | .v6 segments => decide (segments = ![0, 0, 0, 0, 0, 0, 0, 1])

def isUnspecified : IpAddr → Bool
  | .v4 octets => decide (octets = ![0, 0, 0, 0])
  | .v6 segments => decide (segments = ![0, 0, 0, 0, 0, 0, 0, 0])

/-- `SocketAddr`; the flow label of an IPv6 address that is read is 0. -/
inductive SocketAddr where
  | v4 (ip : Fin 4 → UInt8) (port : UInt16)
  | v6 (ip : Fin 8 → UInt16) (port : UInt16) (scopeId : UInt32)
  deriving DecidableEq

def SocketAddr.ip : SocketAddr → IpAddr
  | .v4 ip _ => .v4 ip
  | .v6 ip _ _ => .v6 ip

/-- `read_number` without a bound on the digits: a number from `limit` on overflows. -/
def readNumberBelow (limit : Nat) (s : List Char) : Option (Nat × List Char) :=
  let isDigit := fun c => (toDigit 10 c).isSome
  let taken := s.takeWhile isDigit
  let n := taken.foldl (fun n c => n * 10 + (toDigit 10 c).getD 0) 0
  if taken.length = 0 ∨ limit ≤ n then none else some (n, s.dropWhile isDigit)

def readPort (s : List Char) : Option (UInt16 × List Char) := do
  let s ← scanChar (· == ':') s
  let (n, s) ← readNumberBelow (2 ^ 16) s
  some (UInt16.ofNat n, s)

def readScopeId (s : List Char) : Option (UInt32 × List Char) := do
  let s ← scanChar (· == '%') s
  let (n, s) ← readNumberBelow (2 ^ 32) s
  some (UInt32.ofNat n, s)

def readSocketAddrV4 (s : List Char) : Option (SocketAddr × List Char) := do
  let (ip, s) ← readIpv4Addr s
  let (port, s) ← readPort s
  some (.v4 ip port, s)

def readSocketAddrV6 (s : List Char) : Option (SocketAddr × List Char) := do
  let s ← scanChar (· == '[') s
  let (ip, s) ← readIpv6Addr s
  let (scopeId, s) := (readScopeId s).getD (0, s)
  let s ← scanChar (· == ']') s
  let (port, s) ← readPort s
  some (.v6 ip port scopeId, s)

def parseSocketAddr (text : String) : Option SocketAddr :=
  match (readSocketAddrV4 text.toList).or (readSocketAddrV6 text.toList) with
  | some (addr, []) => some addr
  | _ => none

structure Span where
  start : Nat
  len : Nat

def zeroes (segments : List UInt16) : Span :=
  let step := fun (state : Span × Span) (indexed : UInt16 × Nat) =>
    let (longest, current) := state
    if indexed.1 = 0 then
      let current : Span := ⟨if current.len = 0 then indexed.2 else current.start, current.len + 1⟩
      (if longest.len < current.len then current else longest, current)
    else (longest, ⟨0, 0⟩)
  (segments.zipIdx.foldl step (⟨0, 0⟩, ⟨0, 0⟩)).1

def subslice (chunk : List UInt16) : List Char :=
  List.intercalate [':'] (chunk.map fun segment => Nat.toDigits 16 segment.toNat)

def colons (segments : Fin 8 → UInt16) : List Char :=
  match List.ofFn segments with
  | [0, 0, 0, 0, 0, 0xffff, ab, cd] =>
      -- `to_ipv4_mapped`
      "::ffff:".toList ++ dotted ![UInt8.ofNat (ab.toNat / 256), UInt8.ofNat (ab.toNat % 256),
        UInt8.ofNat (cd.toNat / 256), UInt8.ofNat (cd.toNat % 256)]
  | segments =>
      let run := zeroes segments
      if 1 < run.len then subslice (segments.take run.start) ++ "::".toList ++ subslice (segments.drop (run.start + run.len))
      else subslice segments

def parseU16 (s : String) : Option UInt16 :=
  let digits := match s.toList with
    | '+' :: rest => rest
    | s => s
  let n := digits.foldl (fun n c => n * 10 + (toDigit 10 c).getD 0) 0
  if digits = [] ∨ ¬ digits.all Char.isDigit ∨ 2 ^ 16 ≤ n then none else some (UInt16.ofNat n)

/-- `ERREX_PORT` before `PORT` before 9090; `portVar` is what the environment says of `PORT`. -/
def resolvedHttpPort (portVar : Option String) (cfg : Config) : UInt16 :=
  match cfg.httpPort with
  | some port => port
  | none => (portVar.bind parseU16).getD 9090

/-- The daemon panics where the text is no address. -/
def httpAddr (portVar : Option String) (cfg : Config) : Outcome Empty SocketAddr :=
  match parseSocketAddr s!"{cfg.httpHost}:{resolvedHttpPort portVar cfg}" with
  | some addr => .ok addr
  | none => .panic

def bindIsLoopback (cfg : Config) : Bool :=
  match parseIpAddr cfg.httpHost with
  | some ip => isLoopback ip
  -- no literal: the one name that means loopback
  | none => cfg.httpHost == "localhost"

def healthcheckUrl (portVar : Option String) (cfg : Config) : String :=
  let host :=
    if cfg.httpHost = "0.0.0.0" then "127.0.0.1"
    else if cfg.httpHost = "::" then "[::1]"
    else match parseIpAddr cfg.httpHost with
      | some (.v6 addr) => s!"[{String.ofList (colons addr)}]"
      | _ => cfg.httpHost
  s!"http://{host}:{resolvedHttpPort portVar cfg}/health"

/-- `run_healthcheck` of `main.rs` up to the connection: the authority it connects to and the path it asks for. -/
def healthcheckTarget (url : String) : Option (String × String) :=
  (stripLead url "http://").map fun stripped =>
    let (authority, path) := (splitOnce stripped "/").getD (stripped, "")
    (authority, "/" ++ path)

example : healthcheckTarget (healthcheckUrl none ⟨"fe80:0::0:1", some 80⟩) = some ("[fe80::1]:80", "/health") := by decide

end Config

end Errex.Model
