import Errex.Proof.SocketAddr

/-!
# The bind host

`http_addr`, `bind_is_loopback` and the health check each read the host in a way of their own. They agree but for the name
`localhost`, IPv6 literals without brackets, and the loopback and the wildcard in brackets.
-/

namespace Errex.Proof.BindHost
open Foundation Text Model Webhook Config Proof.Webhook SocketAddr

def Recognised (host : String) : Prop := (parseIpAddr host).isSome ∨ host = "localhost"

def dialled (a : SocketAddr) : SocketAddr :=
  if isUnspecified a.ip then
    match a with
    | .v4 _ port => .v4 ![127, 0, 0, 1] port
    | .v6 _ port _ => .v6 ![0, 0, 0, 0, 0, 0, 0, 1] port 0
  else a

/-- The readings of the host agree, where a probe may dial `target` for the address `a`. -/
structure Agree (dials : SocketAddr → SocketAddr → Prop) (portVar : Option String) (cfg : Config) : Prop where
  parses : Recognised cfg.httpHost → httpAddr portVar cfg ≠ .panic
  loopback : ∀ a, httpAddr portVar cfg = .ok a → (bindIsLoopback cfg = true ↔ isLoopback a.ip = true)
  probe : ∀ a, httpAddr portVar cfg = .ok a → ∃ authority path target,
    healthcheckTarget (healthcheckUrl portVar cfg) = some (authority, path) ∧ parseSocketAddr authority = some target ∧
      dials a target

variable {portVar : Option String} {cfg : Config}

theorem colon_text (host : String) (port : UInt16) :
    s!"{host}:{port}" = .ofList (host.toList ++ ':' :: portText port) := by
  apply String.toList_inj.mp
  simp [portText, toString]

theorem httpAddr_eq_ok {a : SocketAddr} : httpAddr portVar cfg = .ok a ↔
    parseSocketAddr (.ofList (cfg.httpHost.toList ++ ':' :: portText (resolvedHttpPort portVar cfg))) = some a := by
  rw [httpAddr, colon_text]
  cases parseSocketAddr (.ofList (cfg.httpHost.toList ++ ':' :: portText (resolvedHttpPort portVar cfg))) <;> simp

theorem healthcheckTarget_host {host : String} (slash : '/' ∉ host.toList) (port : UInt16) :
    healthcheckTarget s!"http://{host}:{port}/health" = some (.ofList (host.toList ++ ':' :: portText port), "/health") := by
  have text : s!"http://{host}:{port}/health" =
      .ofList ("http://".toList ++ ((host.toList ++ ':' :: portText port) ++ "/health".toList)) := by
    apply String.toList_inj.mp
    simp [portText, toString]
  have absent : ∀ c ∈ host.toList ++ ':' :: portText port, c ≠ '/' := by
    rintro c mem rfl
    rcases List.mem_append.mp mem with mem | mem
    · exact slash mem
    · rcases List.mem_cons.mp mem with eq | mem
      · cases eq
      · exact not_mem_of_digits (portText_digits port) (by decide) mem
  have split : splitOnceList ['/'] ((host.toList ++ ':' :: portText port) ++ "/health".toList) =
      some (host.toList ++ ':' :: portText port, "health".toList) :=
    (congrArg _ (by simp)).trans (@splitOnceList_append '/' [] _ absent "health".toList)
  have stripped : stripLead (.ofList ("http://".toList ++ ((host.toList ++ ':' :: portText port) ++ "/health".toList)))
      "http://" = some (.ofList ((host.toList ++ ':' :: portText port) ++ "/health".toList)) :=
    stripLead_append "http://".toList _
  have parts : splitOnce (.ofList ((host.toList ++ ':' :: portText port) ++ "/health".toList)) "/" =
      some (.ofList (host.toList ++ ':' :: portText port), .ofList "health".toList) := by
    rw [splitOnce, String.toList_ofList, String.toList_ofList, split]
    rfl
  rw [healthcheckTarget, text, stripped, Option.map_some, parts, Option.getD_some]
  rfl

theorem not_mem_dotted {c : Char} (digit : c.isDigit = false) (dot : c ≠ '.') (octets : Fin 4 → UInt8) :
    c ∉ dotted octets := by
  have digits : ∀ octet : UInt8, c ∉ Nat.toDigits 10 octet.toNat := by
    intro octet mem
    rw [Nat.isDigit_of_mem_toDigits (by decide) (by decide) mem] at digit
    cases digit
  simp [dotted, digits, dot]

theorem dotted_inj {octets octets' : Fin 4 → UInt8} (same : dotted octets = dotted octets') : octets = octets' := by
  have parsed := parseIpAddr_dotted octets
  rw [same, parseIpAddr_dotted] at parsed
  cases parsed
  rfl

def dialledV4 (octets : Fin 4 → UInt8) : Fin 4 → UInt8 := if octets = ![0, 0, 0, 0] then ![127, 0, 0, 1] else octets

theorem agree_v4 {dials : SocketAddr → SocketAddr → Prop} (own : ∀ a, dials a (dialled a)) {octets : Fin 4 → UInt8}
    (host : cfg.httpHost = .ofList (dotted octets)) : Agree dials portVar cfg := by
  have bound : httpAddr portVar cfg = .ok (.v4 octets (resolvedHttpPort portVar cfg)) := by
    rw [httpAddr_eq_ok, host, String.toList_ofList, parseSocketAddr_v4]
  have literal : parseIpAddr cfg.httpHost = some (.v4 octets) := by rw [host, parseIpAddr_dotted]
  have url : healthcheckUrl portVar cfg =
      s!"http://{String.ofList (dotted (dialledV4 octets))}:{resolvedHttpPort portVar cfg}/health" := by
    by_cases wildcard : octets = ![0, 0, 0, 0]
    · have zero : cfg.httpHost = "0.0.0.0" := by
        rw [host, wildcard]
        decide
      have loopback : "127.0.0.1" = String.ofList (dotted ![127, 0, 0, 1]) := by decide
      rw [healthcheckUrl, if_pos zero, dialledV4, if_pos wildcard, loopback]
    · have other : cfg.httpHost ≠ "0.0.0.0" := by
        have zero : "0.0.0.0" = String.ofList (dotted ![0, 0, 0, 0]) := by decide
        rw [host, zero]
        exact fun same => wildcard (dotted_inj (String.ofList_injective same))
      have double : cfg.httpHost ≠ "::" := by
        intro same
        refine not_mem_dotted (c := ':') (by decide) (by decide) octets ?_
        rw [← @String.toList_ofList (dotted octets), ← host, same]
        decide
      rw [healthcheckUrl, if_neg other, if_neg double, literal, dialledV4, if_neg wildcard, host]
  have slash : ∀ octets, '/' ∉ (String.ofList (dotted octets)).toList := by
    intro octets
    rw [String.toList_ofList]
    exact not_mem_dotted (by decide) (by decide) octets
  have probed := healthcheckTarget_host (slash (dialledV4 octets)) (resolvedHttpPort portVar cfg)
  rw [← url, String.toList_ofList] at probed
  refine ⟨fun _ => by simp [bound], fun a known => ?_, fun a known => ?_⟩
  · cases bound.symm.trans known
    rw [bindIsLoopback, literal]
    rfl
  · cases bound.symm.trans known
    refine ⟨_, _, _, probed, parseSocketAddr_v4 _ _, ?_⟩
    have target : dialled (.v4 octets (resolvedHttpPort portVar cfg)) =
        .v4 (dialledV4 octets) (resolvedHttpPort portVar cfg) := by
      by_cases wildcard : octets = ![0, 0, 0, 0] <;> simp [dialled, dialledV4, isUnspecified, SocketAddr.ip, wildcard]
    rw [← target]
    exact own _

variable {segments : Fin 8 → UInt16} {scopeId : UInt32} {literal scope : List Char}

theorem agree_bracketed_iff {dials : SocketAddr → SocketAddr → Prop}
    (here : Bracketed cfg.httpHost segments scopeId literal scope) : Agree dials portVar cfg ↔
      isLoopback (.v6 segments) = false ∧ dials (.v6 segments (resolvedHttpPort portVar cfg) scopeId)
        (.v6 segments (resolvedHttpPort portVar cfg) scopeId) := by
  have bound : httpAddr portVar cfg = .ok (.v6 segments (resolvedHttpPort portVar cfg) scopeId) :=
    httpAddr_eq_ok.mpr (parseSocketAddr_bracketed here _)
  have away : bindIsLoopback cfg = false := by
    rw [bindIsLoopback, here.parseIpAddr_eq_none]
    exact beq_eq_false_iff_ne.mpr (here.ne (by decide))
  have probed : healthcheckTarget (healthcheckUrl portVar cfg) =
      some (.ofList (cfg.httpHost.toList ++ ':' :: portText (resolvedHttpPort portVar cfg)), "/health") := by
    rw [healthcheckUrl, if_neg (here.ne (by decide)), if_neg (here.ne (by decide)), here.parseIpAddr_eq_none]
    exact healthcheckTarget_host here.slash _
  constructor
  · rintro ⟨-, loopback, probe⟩
    have iff := loopback _ bound
    obtain ⟨authority, path, target, known, parsed, dialled⟩ := probe _ bound
    cases probed.symm.trans known
    cases (parseSocketAddr_bracketed here _).symm.trans parsed
    refine ⟨?_, dialled⟩
    rw [away] at iff
    simpa [SocketAddr.ip] using iff
  · rintro ⟨remote, own⟩
    refine ⟨fun _ => by simp [bound], fun a known => ?_, fun a known => ?_⟩
    · cases bound.symm.trans known
      rw [away, SocketAddr.ip, remote]
    · cases bound.symm.trans known
      exact ⟨_, _, _, probed, parseSocketAddr_bracketed here _, own⟩

theorem agree_unbound_iff {dials : SocketAddr → SocketAddr → Prop} (unbound : ∀ a, httpAddr portVar cfg ≠ .ok a) :
    Agree dials portVar cfg ↔ ¬ Recognised cfg.httpHost := by
  have panics : httpAddr portVar cfg = .panic := by
    rw [httpAddr] at unbound ⊢
    cases parsed : parseSocketAddr s!"{cfg.httpHost}:{resolvedHttpPort portVar cfg}" with
    | none => rfl
    | some a =>
        rw [parsed] at unbound
        exact absurd rfl (unbound a)
  constructor
  · intro agree recognised
    exact agree.parses recognised panics
  · intro unknown
    exact ⟨fun recognised => absurd recognised unknown, fun a known => absurd known (unbound a),
      fun a known => absurd known (unbound a)⟩

theorem parseIpAddr_v4_text {host : String} {octets : Fin 4 → UInt8} (parsed : parseIpAddr host = some (.v4 octets)) :
    host = .ofList (dotted octets) := by
  rw [parseIpAddr, readIpAddr] at parsed
  cases read : readIpv4Addr host.toList with
  | none =>
      rcases v6 : readIpv6Addr host.toList with _ | ⟨segments, _ | ⟨c, rest⟩⟩ <;> simp [read, v6] at parsed
  | some r =>
      rw [read] at parsed
      obtain ⟨octets', _ | ⟨c, rest⟩⟩ := r
      · cases parsed
        rw [← @String.ofList_toList host, readIpv4Addr_text read, List.append_nil]
      · cases parsed

/-- What the hosts that are recognised and not bound have in common: a name or an IPv6 literal without brackets. -/
def Bare (host : String) : Prop := host = "localhost" ∨ ∃ segments, parseIpAddr host = some (.v6 segments)

theorem agree_iff {dials : SocketAddr → SocketAddr → Prop} (own : ∀ a, dials a (dialled a)) : Agree dials portVar cfg ↔
    ¬ Bare cfg.httpHost ∧ ∀ segments scopeId literal scope, Bracketed cfg.httpHost segments scopeId literal scope →
      isLoopback (.v6 segments) = false ∧ dials (.v6 segments (resolvedHttpPort portVar cfg) scopeId)
        (.v6 segments (resolvedHttpPort portVar cfg) scopeId) := by
  by_cases v4 : ∃ octets, cfg.httpHost = .ofList (dotted octets)
  · obtain ⟨octets, host⟩ := v4
    have parsed : parseIpAddr cfg.httpHost = some (.v4 octets) := by rw [host, parseIpAddr_dotted]
    refine iff_of_true (agree_v4 own host) ⟨?_, fun segments scopeId literal scope here => ?_⟩
    · rintro (name | ⟨segments, other⟩)
      · refine not_mem_dotted (c := 'l') (by decide) (by decide) octets ?_
        rw [← @String.toList_ofList (dotted octets), ← host, name]
        decide
      · cases parsed.symm.trans other
    · cases parsed.symm.trans here.parseIpAddr_eq_none
  · by_cases v6 : ∃ segments scopeId literal scope, Bracketed cfg.httpHost segments scopeId literal scope
    · obtain ⟨segments, scopeId, literal, scope, here⟩ := v6
      constructor
      · intro agree
        refine ⟨?_, fun segments scopeId literal scope here => (agree_bracketed_iff here).mp agree⟩
        rintro (name | ⟨segments, other⟩)
        · exact here.ne (by decide) name
        · cases other.symm.trans here.parseIpAddr_eq_none
      · rintro ⟨-, each⟩
        exact (agree_bracketed_iff here).mpr (each _ _ _ _ here)
    · have unbound : ∀ a, httpAddr portVar cfg ≠ .ok a := by
        intro a bound
        rcases parseSocketAddr_some (httpAddr_eq_ok.mp bound) with ⟨octets, host, -⟩ | ⟨_, _, _, _, here, -⟩
        · exact v4 ⟨octets, host⟩
        · exact v6 ⟨_, _, _, _, here⟩
      have recognised : Recognised cfg.httpHost ↔ Bare cfg.httpHost := by
        constructor
        · rintro (literal | name)
          · obtain ⟨ip, parsed⟩ := Option.isSome_iff_exists.mp literal
            cases ip with
            | v4 octets => exact absurd ⟨octets, parseIpAddr_v4_text parsed⟩ v4
            | v6 segments => exact .inr ⟨segments, parsed⟩
          · exact .inl name
        · rintro (name | ⟨segments, parsed⟩)
          · exact .inr name
          · exact .inl (Option.isSome_of_eq_some parsed)
      rw [agree_unbound_iff unbound, recognised]
      exact ⟨fun bare => ⟨bare, fun _ _ _ _ here => absurd ⟨_, _, _, _, here⟩ v6⟩, And.left⟩

/-- The readings of a host agree except where it is `localhost`, an IPv6 literal without brackets, or the loopback or
wildcard address in brackets. A wildcard that is dialled as it is leaves the last of them out. -/
theorem readings_agree_iff (portVar : Option String) (cfg : Config) :
    (Agree (fun a target => target = dialled a) portVar cfg ↔ ¬ Bare cfg.httpHost ∧
      ∀ segments scopeId literal scope, Bracketed cfg.httpHost segments scopeId literal scope →
        isLoopback (.v6 segments) = false ∧ isUnspecified (.v6 segments) = false) ∧
    (Agree (fun a target => target = a ∨ target = dialled a) portVar cfg ↔ ¬ Bare cfg.httpHost ∧
      ∀ segments scopeId literal scope, Bracketed cfg.httpHost segments scopeId literal scope →
        isLoopback (.v6 segments) = false) := by
  have wildcard : ∀ segments port scopeId, (.v6 segments port scopeId = dialled (.v6 segments port scopeId)) ↔
      isUnspecified (.v6 segments) = false := by
    intro segments port scopeId
    by_cases zero : segments = ![0, 0, 0, 0, 0, 0, 0, 0] <;> simp [dialled, isUnspecified, SocketAddr.ip, zero]
  constructor
  · rw [@agree_iff _ _ (fun a target => target = dialled a) fun a => rfl]
    simp only [wildcard]
  · rw [@agree_iff _ _ (fun a target => target = a ∨ target = dialled a) fun a => .inr rfl]
    simp only [true_or, and_true]

/-- The loopback of the tests, on which the daemon does not start. -/
theorem loopback_panics : ¬ ∀ portVar cfg, Agree (fun a target => target = a ∨ target = dialled a) portVar cfg := by
  intro agree
  refine (agree none ⟨"::1", none⟩).parses (.inl ?_) ?_
  · decide
  · decide

end Errex.Proof.BindHost
