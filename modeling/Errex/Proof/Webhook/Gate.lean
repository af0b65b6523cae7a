import Errex.Foundation.Network
import Errex.Proof.Webhook.Reading

/-!
# The gate for webhook addresses

`validate_url` refuses every internal address, and every internal name, as long as they are written
plainly. An IPv4 address mapped into IPv6 and a name with the root's dot at its end pass
(`validateUrl_safe_iff`).
-/

namespace Errex.Proof.Webhook
open Foundation Model Webhook Network

inductive Host where
  | domain (name : String)
  | ip (address : IpAddr)

def internalV4 : List Network :=
  [⟨127, 24⟩, ⟨10, 24⟩, ⟨172 * 16 + 1, 20⟩, ⟨192 * 256 + 168, 16⟩, ⟨169 * 256 + 254, 16⟩, ⟨14, 28⟩, ⟨0, 0⟩,
    ⟨2 ^ 32 - 1, 0⟩, ⟨100 * 4 + 1, 22⟩]

def internalV6 : List Network := [⟨1, 0⟩, ⟨0, 0⟩, ⟨255, 120⟩, ⟨126, 121⟩, ⟨1018, 118⟩]

def addressV4 (octets : Fin 4 → UInt8) : Nat :=
  (((octets 0).toNat * 256 + (octets 1).toNat) * 256 + (octets 2).toNat) * 256 + (octets 3).toNat

def addressV6 (segments : Fin 8 → UInt16) : Nat :=
  (List.finRange 8).foldl (fun address i => address * 65536 + (segments i).toNat) 0

def mapped (address : Nat) : Option Nat := if address / 2 ^ 32 = 0xffff then some (address % 2 ^ 32) else none

def InternalName (name : List Char) : Prop :=
  name = "localhost".toList ∨ ∃ suffix ∈ internalSuffixes, suffix.toList <:+ name

instance (name : List Char) : Decidable (InternalName name) := inferInstanceAs (Decidable (_ ∨ _))

def withoutRoot (name : List Char) : List Char := if name.getLast? = some '.' then name.dropLast else name

def Safe : Host → Prop
  | .ip (.v4 octets) => ¬ AnyContains internalV4 (addressV4 octets)
  | .ip (.v6 segments) => ¬ AnyContains internalV6 (addressV6 segments) ∧
      ∀ address ∈ mapped (addressV6 segments), ¬ AnyContains internalV4 address
  | .domain name => ¬ InternalName (withoutRoot name.toList)

/-- The spellings that the gate does not see through. -/
def Disguised : Host → Prop
  | .ip (.v4 _) => False
  | .ip (.v6 segments) => ∃ address ∈ mapped (addressV6 segments), AnyContains internalV4 address
  | .domain name => ∃ plain, name.toList = plain ++ ['.'] ∧ InternalName plain

theorem and_mask_iff8 {x mask value : UInt8} {hostBits networkBits number : Nat} (whole : networkBits + hostBits = 8)
    (ones : mask.toNat = (2 ^ networkBits - 1) <<< hostBits) (network : value.toNat = number <<< hostBits) :
    x &&& mask = value ↔ x.toNat / 2 ^ hostBits = number := by
  rw [← UInt8.toNat_inj, UInt8.toNat_and, ones, network, land_mask_eq_iff (whole ▸ x.toNat_lt)]

theorem and_mask_iff16 {x mask value : UInt16} {hostBits networkBits number : Nat} (whole : networkBits + hostBits = 16)
    (ones : mask.toNat = (2 ^ networkBits - 1) <<< hostBits) (network : value.toNat = number <<< hostBits) :
    x &&& mask = value ↔ x.toNat / 2 ^ hostBits = number := by
  rw [← UInt16.toNat_inj, UInt16.toNat_and, ones, network, land_mask_eq_iff (whole ▸ x.toNat_lt)]

theorem internalV4_iff {a b c d : Nat} (ha : a < 2 ^ 8) (hb : b < 2 ^ 8) (hc : c < 2 ^ 8) (hd : d < 2 ^ 8) :
    AnyContains internalV4 (((a * 256 + b) * 256 + c) * 256 + d) ↔ a = 127 ∨ a = 10 ∨ (a = 172 ∧ 16 ≤ b ∧ b ≤ 31) ∨
      (a = 192 ∧ b = 168) ∨ (a = 169 ∧ b = 254) ∨ (224 ≤ a ∧ a ≤ 239) ∨ (a = 0 ∧ b = 0 ∧ c = 0 ∧ d = 0) ∨
      (a = 255 ∧ b = 255 ∧ c = 255 ∧ d = 255) ∨ a = 100 ∧ b / 2 ^ 6 = 1 := by
  simp only [internalV4, anyContains_cons, anyContains_nil, or_false]
  refine or_congr ?_ (or_congr ?_ (or_congr ?_ (or_congr ?_ (or_congr ?_ (or_congr ?_ (or_congr ?_ (or_congr ?_ ?_)))))))
  all_goals omega

theorem isPrivateOrLocalV4_iff (octets : Fin 4 → UInt8) :
    isPrivateOrLocalV4 octets = true ↔ AnyContains internalV4 (addressV4 octets) := by
  have nat : (octets 1 &&& 0b11000000 = 64) ↔ (octets 1).toNat / 2 ^ 6 = 1 :=
    and_mask_iff8 (by decide : 2 + 6 = 8) rfl rfl
  rw [addressV4, internalV4_iff (octets 0).toNat_lt (octets 1).toNat_lt (octets 2).toNat_lt (octets 3).toNat_lt]
  simp only [isPrivateOrLocalV4, Bool.or_eq_true, Bool.and_eq_true, beq_iff_eq, decide_eq_true_eq, nat, ← UInt8.toNat_inj,
    UInt8.le_iff_toNat_le, UInt8.reduceToNat, or_assoc, and_assoc]

theorem internalV6_iff {first rest : Nat} (bound : rest < 2 ^ 112) :
    AnyContains internalV6 (first * 2 ^ 112 + rest) ↔ (first = 0 ∧ rest = 1) ∨ (first = 0 ∧ rest = 0) ∨
      first / 2 ^ 8 = 255 ∨ first / 2 ^ 9 = 126 ∨ first / 2 ^ 6 = 1018 := by
  simp only [internalV6, anyContains_cons, anyContains_nil, or_false]
  rw [show 120 = 112 + 8 from rfl, show 121 = 112 + 9 from rfl, show 118 = 112 + 6 from rfl, split_div bound, split_div bound,
    split_div bound]
  refine or_congr ?_ (or_congr ?_ Iff.rfl)
  all_goals omega

theorem isPrivateOrLocalV6_iff (segments : Fin 8 → UInt16) :
    isPrivateOrLocalV6 segments = true ↔ AnyContains internalV6 (addressV6 segments) := by
  have multicast : (segments 0 &&& 0xff00 = 0xff00) ↔ (segments 0).toNat / 2 ^ 8 = 255 :=
    and_mask_iff16 (by decide : 8 + 8 = 16) rfl rfl
  have unique_local : (segments 0 &&& 0xfe00 = 0xfc00) ↔ (segments 0).toNat / 2 ^ 9 = 126 :=
    and_mask_iff16 (by decide : 7 + 9 = 16) rfl rfl
  have link_local : (segments 0 &&& 0xffc0 = 0xfe80) ↔ (segments 0).toNat / 2 ^ 6 = 1018 :=
    and_mask_iff16 (by decide : 10 + 6 = 16) rfl rfl
  have order : List.finRange 8 = [0, 1, 2, 3, 4, 5, 6, 7] := by decide
  have b := (segments 1).toNat_lt
  have c := (segments 2).toNat_lt
  have d := (segments 3).toNat_lt
  have e := (segments 4).toNat_lt
  have f := (segments 5).toNat_lt
  have g := (segments 6).toNat_lt
  have h := (segments 7).toNat_lt
  obtain ⟨rest, bound, whole, ones⟩ : ∃ rest < 2 ^ 112, addressV6 segments = (segments 0).toNat * 2 ^ 112 + rest ∧
      ∀ n < 2, rest = n ↔ (segments 1).toNat = 0 ∧ (segments 2).toNat = 0 ∧ (segments 3).toNat = 0 ∧
        (segments 4).toNat = 0 ∧ (segments 5).toNat = 0 ∧ (segments 6).toNat = 0 ∧ (segments 7).toNat = n := by
    refine ⟨((((((segments 1).toNat * 65536 + (segments 2).toNat) * 65536 + (segments 3).toNat) * 65536 +
      (segments 4).toNat) * 65536 + (segments 5).toNat) * 65536 + (segments 6).toNat) * 65536 + (segments 7).toNat,
        by omega, ?_, by omega⟩
    simp only [addressV6, order, List.foldl_cons, List.foldl_nil]
    omega
  rw [whole, internalV6_iff bound, ones 0 (by decide), ones 1 (by decide)]
  simp only [isPrivateOrLocalV6, Bool.or_eq_true, Bool.and_eq_true, beq_iff_eq, multicast, unique_local, link_local,
    ← UInt16.toNat_inj, UInt16.reduceToNat, or_assoc, and_assoc]

/-- What the url crate says of a host and its text: addresses are written as text that the standard library
reads, and the domain of a web address has the characters that domains have and ends in no number. -/
structure UrlCrate (parse : String → Option Url) (host : Url → Option Host) : Prop where
  v4 : ∀ raw url octets, parse raw = some url → host url = some (.ip (.v4 octets)) →
    url.hostStr = some (.ofList (dotted octets))
  v6 : ∀ raw url segments, parse raw = some url → host url = some (.ip (.v6 segments)) → ∃ text : List Char,
    url.hostStr = some (.ofList ('[' :: (text ++ [']']))) ∧ (∀ c ∈ text, c ≠ '[' ∧ c ≠ ']') ∧
      parseIpAddr (.ofList text) = some (.v6 segments)
  domain : ∀ raw url name, parse raw = some url → url.scheme = "http" ∨ url.scheme = "https" →
    host url = some (.domain name) → url.hostStr = some name ∧ ¬ EndsInNumber name.toList ∧
      ∀ c ∈ name.toList, c ≠ ':' ∧ c ≠ '[' ∧ c ≠ ']' ∧ c.toLower = c

theorem dropWhile_of_forall {p : Char → Bool} {s : List Char} (none_ : ∀ c ∈ s, p c = false) : s.dropWhile p = s := by
  cases s with
  | nil => rfl
  | cons c s => rw [List.dropWhile_cons, none_ c (List.mem_cons_self ..), if_neg (by decide)]

theorem stripBrackets_plain {s : List Char} (plain : ∀ c ∈ s, c ≠ '[' ∧ c ≠ ']') : stripBrackets (.ofList s) = .ofList s := by
  rw [stripBrackets, String.toList_ofList, dropWhile_of_forall (fun c mem => beq_false_of_ne (plain c mem).1),
    dropWhile_of_forall (fun c mem => beq_false_of_ne (plain c (List.mem_reverse.mp mem)).2), List.reverse_reverse]

theorem stripBrackets_bracketed {s : List Char} (plain : ∀ c ∈ s, c ≠ '[' ∧ c ≠ ']') :
    stripBrackets (.ofList ('[' :: (s ++ [']']))) = .ofList s := by
  have opened : ('[' :: (s ++ [']'])).dropWhile (· == '[') = s ++ [']'] := by
    rw [List.dropWhile_cons, if_pos (by decide)]
    apply dropWhile_of_forall
    intro c mem
    rcases List.mem_append.mp mem with inside | last
    · exact beq_false_of_ne (plain c inside).1
    · rw [List.mem_singleton.mp last]
      decide
  have closed : (s ++ [']']).reverse.dropWhile (· == ']') = s.reverse := by
    rw [List.reverse_append, List.reverse_singleton, List.singleton_append, List.dropWhile_cons, if_pos (by decide)]
    exact dropWhile_of_forall fun c mem => beq_false_of_ne (plain c (List.mem_reverse.mp mem)).2
  rw [stripBrackets, String.toList_ofList, opened, closed, List.reverse_reverse]

theorem dotted_plain (octets : Fin 4 → UInt8) : ∀ c ∈ dotted octets, c ≠ '[' ∧ c ≠ ']' := by
  have digit : ∀ (octet : UInt8), ∀ c ∈ Nat.toDigits 10 octet.toNat, c ≠ '[' ∧ c ≠ ']' := by
    intro octet c mem
    have digit := List.all_eq_true.mp (toDigits_octet octet.toNat_lt).1 c mem
    constructor <;> rintro rfl <;> exact absurd digit (by decide)
  intro c mem
  simp only [dotted, List.mem_append, List.mem_cons] at mem
  rcases mem with mem | rfl | mem | rfl | mem | rfl | mem
  · exact digit _ c mem
  · decide
  · exact digit _ c mem
  · decide
  · exact digit _ c mem
  · decide
  · exact digit _ c mem

def PlainUrl (url : Url) : Prop := (url.scheme = "http" ∨ url.scheme = "https") ∧ url.username = "" ∧ url.password = none

def Refused : Host → Prop
  | .ip (.v4 octets) => AnyContains internalV4 (addressV4 octets)
  | .ip (.v6 segments) => AnyContains internalV6 (addressV6 segments)
  | .domain name => InternalName name.toList

theorem internalName_iff {name : String} (lower : ∀ c ∈ name.toList, c.toLower = c) :
    (String.ofList (name.toList.map Char.toLower) = "localhost" ∨
      hostnameInInternalZone (String.ofList (name.toList.map Char.toLower)) = true) ↔ InternalName name.toList := by
  have same : name.toList.map Char.toLower = name.toList := (List.map_congr_left lower).trans (List.map_id _)
  rw [same, String.ofList_toList, InternalName, hostnameInInternalZone, List.any_eq_true]
  refine or_congr ⟨fun equal => equal ▸ rfl, String.toList_inj.mp⟩ ?_
  simp only [List.isSuffixOf_iff_suffix]

variable {parse : String → Option Url} {host : Url → Option Host} {raw : String} {url : Url} {h : Host}

theorem validateUrl_not_plain (parsed : parse raw = some url) (odd : ¬ PlainUrl url) :
    validateUrl ⟨parse, parseIpAddr⟩ raw ≠ .ok () := by
  intro accepted
  simp only [validateUrl, parsed] at accepted
  split_ifs at accepted with scheme user
  apply odd
  refine ⟨?_, ?_, ?_⟩
  · by_contra other
    exact scheme (not_or.mp other)
  · by_contra named
    exact user (.inl named)
  · by_contra secret
    exact user (.inr (Option.isSome_iff_ne_none.mpr secret))

theorem validateUrl_plain (parsed : parse raw = some url) (plain : PlainUrl url) {text : String}
    (written : url.hostStr = some text) : validateUrl ⟨parse, parseIpAddr⟩ raw = .ok () ↔
      match parseIpAddr (stripBrackets text) with
      | some ip => ipIsPrivateOrLocal ip = false
      | none => ¬ (String.ofList (text.toList.map Char.toLower) = "localhost" ∨
          hostnameInInternalZone (String.ofList (text.toList.map Char.toLower)) = true) := by
  have scheme : ¬ (url.scheme ≠ "http" ∧ url.scheme ≠ "https") := fun other => plain.1.elim other.1 other.2
  have user : ¬ (url.username ≠ "" ∨ url.password.isSome = true) := by
    rw [plain.2.1, plain.2.2]
    simp
  simp only [validateUrl, parsed, if_neg scheme, if_neg user, written]
  cases parseIpAddr (stripBrackets text) with
  | none => split_ifs with internal <;> simp [internal]
  | some ip => split_ifs with internal <;> simp

theorem validateUrl_ok_iff (crate : UrlCrate parse host) (parsed : parse raw = some url) (known : host url = some h) :
    validateUrl ⟨parse, parseIpAddr⟩ raw = .ok () ↔ PlainUrl url ∧ ¬ Refused h := by
  by_cases plain : PlainUrl url
  · rw [and_iff_right plain]
    match h, known with
    | .ip (.v4 octets), known =>
        have written := crate.v4 raw url octets parsed known
        rw [validateUrl_plain parsed plain written, stripBrackets_plain (dotted_plain octets), parseIpAddr_dotted, Refused,
          ← isPrivateOrLocalV4_iff, Bool.not_eq_true]
        rfl
    | .ip (.v6 segments), known =>
        obtain ⟨text, written, brackets, read⟩ := crate.v6 raw url segments parsed known
        rw [validateUrl_plain parsed plain written, stripBrackets_bracketed brackets, read, Refused, ← isPrivateOrLocalV6_iff,
          Bool.not_eq_true]
        rfl
    | .domain name, known =>
        obtain ⟨written, number, characters⟩ := crate.domain raw url name parsed plain.1 known
        have brackets : ∀ c ∈ name.toList, c ≠ '[' ∧ c ≠ ']' := fun c mem => ⟨(characters c mem).2.1, (characters c mem).2.2.1⟩
        have unread : parseIpAddr (stripBrackets name) = none := by
          rw [← String.ofList_toList (s := name), stripBrackets_plain brackets, String.ofList_toList]
          exact parseIpAddr_eq_none (fun mem => (characters _ mem).1 rfl) number
        rw [validateUrl_plain parsed plain written, unread, Refused]
        exact not_congr (internalName_iff fun c mem => (characters c mem).2.2.2)
  · exact iff_of_false (validateUrl_not_plain parsed plain) fun both => plain both.1

theorem not_internalName_dot (plain : List Char) : ¬ InternalName (plain ++ ['.']) := by
  have ends : ∀ name ∈ "localhost" :: internalSuffixes, name.toList.getLast? ≠ some '.' ∧ name.toList ≠ [] := by decide
  rintro (whole | ⟨suffix, mem, front, whole⟩)
  · have last := congrArg List.getLast? whole
    rw [List.getLast?_concat] at last
    exact (ends "localhost" (by simp)).1 last.symm
  · have last := congrArg List.getLast? whole
    obtain ⟨other, some_⟩ := ends suffix (List.mem_cons_of_mem _ mem)
    rw [List.getLast?_concat, List.getLast?_append_of_ne_nil _ some_] at last
    exact other last

theorem not_internalV6_mapped {address inner : Nat} (known : inner ∈ mapped address) : ¬ AnyContains internalV6 address := by
  rw [mapped] at known
  split_ifs at known with front
  · simp only [internalV6, anyContains_cons, anyContains_nil, or_false]
    omega
  · cases known

theorem safe_iff (h : Host) : Safe h ↔ ¬ Refused h ∧ ¬ Disguised h := by
  match h with
  | .ip (.v4 octets) => simp [Safe, Refused, Disguised]
  | .ip (.v6 segments) => simp [Safe, Refused, Disguised]
  | .domain name =>
      rw [Safe, Refused, Disguised, withoutRoot]
      split_ifs with dot
      · have whole : name.toList = name.toList.dropLast ++ ['.'] := (List.dropLast_append_getLast? '.' dot).symm
        have unrefused : ¬ InternalName name.toList := whole ▸ not_internalName_dot _
        rw [and_iff_right unrefused, not_iff_not]
        constructor
        · exact fun internal => ⟨_, whole, internal⟩
        · rintro ⟨plain, same, internal⟩
          rwa [same, List.dropLast_concat]
      · have undisguised : ¬ ∃ plain, name.toList = plain ++ ['.'] ∧ InternalName plain := by
          rintro ⟨plain, same, -⟩
          exact dot (by rw [same, List.getLast?_concat])
        rw [and_iff_left undisguised]

theorem not_refused_of_disguised {h : Host} (disguised : Disguised h) : ¬ Refused h := by
  match h with
  | .ip (.v4 octets) => exact disguised.elim
  | .ip (.v6 segments) =>
      obtain ⟨inner, known, -⟩ := disguised
      exact not_internalV6_mapped known
  | .domain name =>
      obtain ⟨plain, dot, -⟩ := disguised
      rw [Refused, dot]
      exact not_internalName_dot plain

/-- What the gate accepts is safe just when the address does not reach it in a disguise. -/
theorem validateUrl_safe_iff (parse : String → Option Url) (host : Url → Option Host) (crate : UrlCrate parse host)
    (raw : String) :
    (validateUrl ⟨parse, parseIpAddr⟩ raw = .ok () → ∀ url h, parse raw = some url → host url = some h → Safe h) ↔
      ∀ url h, parse raw = some url → host url = some h → ¬ (PlainUrl url ∧ Disguised h) := by
  constructor
  · rintro safe url h parsed known ⟨plain, disguised⟩
    have accepted := (validateUrl_ok_iff crate parsed known).mpr ⟨plain, not_refused_of_disguised disguised⟩
    exact ((safe_iff h).mp (safe accepted url h parsed known)).2 disguised
  · intro open_ accepted url h parsed known
    obtain ⟨plain, passed⟩ := (validateUrl_ok_iff crate parsed known).mp accepted
    exact (safe_iff h).mpr ⟨passed, fun disguised => open_ url h parsed known ⟨plain, disguised⟩⟩

def parseSlack (raw : String) : Option Url :=
  if raw = "https://hooks.slack.com/x" then some ⟨"https", "", none, some "hooks.slack.com"⟩ else none

theorem parseSlack_crate : UrlCrate parseSlack fun _ => some (.domain "hooks.slack.com") where
  v4 raw url octets parsed known := nomatch known
  v6 raw url segments parsed known := nomatch known
  domain raw url name parsed web known := by
    rw [parseSlack] at parsed
    split_ifs at parsed
    cases parsed
    cases known
    have characters : ("hooks.slack.com".toList.all fun c => decide (c ≠ ':' ∧ c ≠ '[' ∧ c ≠ ']' ∧ c.toLower = c)) = true := by
      decide
    refine ⟨rfl, ?_, fun c mem => of_decide_eq_true (List.all_eq_true.mp characters c mem)⟩
    intro number
    obtain ⟨c, last, digit⟩ := number.digit
    obtain rfl : c = 'm' := (Option.some_inj.mp last).symm
    exact absurd digit (by decide)

theorem validateUrl_safe_iff_slack : Safe (.domain "hooks.slack.com") := by
  have open_ : ∀ url h, parseSlack "https://hooks.slack.com/x" = some url → some (.domain "hooks.slack.com") = some h →
      ¬ (PlainUrl url ∧ Disguised h) := by
    rintro url h - known ⟨-, disguised⟩
    cases known
    obtain ⟨plain, dot, -⟩ := disguised
    have last := congrArg List.getLast? dot
    rw [List.getLast?_concat] at last
    exact absurd last (by decide)
  exact (validateUrl_safe_iff parseSlack _ parseSlack_crate "https://hooks.slack.com/x").mpr open_ (by decide) _ _ rfl rfl

def mappedLoopback : Fin 8 → UInt16 := ofGroups [0, 0, 0, 0, 0, 0xffff, 0x7f00, 1]

def parseMapped (raw : String) : Option Url :=
  if raw = "http://[::ffff:127.0.0.1]/" then some ⟨"http", "", none, some "[::ffff:7f00:1]"⟩ else none

theorem parseMapped_crate : UrlCrate parseMapped fun _ => some (.ip (.v6 mappedLoopback)) where
  v4 raw url octets parsed known := nomatch known
  v6 raw url segments parsed known := by
    rw [parseMapped] at parsed
    split_ifs at parsed
    cases parsed
    cases known
    have characters : ("::ffff:7f00:1".toList.all fun c => decide (c ≠ '[' ∧ c ≠ ']')) = true := by decide
    exact ⟨"::ffff:7f00:1".toList, rfl, fun c mem => of_decide_eq_true (List.all_eq_true.mp characters c mem), rfl⟩
  domain raw url name parsed web known := nomatch known

/-- The gate lets a mapped address of the host itself pass. -/
theorem validateUrl_not_safe :
    ¬ ∀ (parse : String → Option Url) (host : Url → Option Host), UrlCrate parse host → ∀ raw,
      validateUrl ⟨parse, parseIpAddr⟩ raw = .ok () → ∀ url h, parse raw = some url → host url = some h → Safe h := by
  intro safe
  have accepted : validateUrl ⟨parseMapped, parseIpAddr⟩ "http://[::ffff:127.0.0.1]/" = .ok () := by rfl
  have inside := (safe parseMapped _ parseMapped_crate _ accepted _ _ rfl rfl).2
  exact inside (127 * 2 ^ 24 + 1) (by decide) (by decide)

end Errex.Proof.Webhook
