import Errex.Foundation.Reader
import Errex.Model.Config
import Errex.Proof.Webhook.Reading

/-!
# Reading socket addresses

What stands before the port of a socket address is the one spelling of an IPv4 address, or an IPv6 literal in brackets
(`parseSocketAddr_some`), and each of them is read.
-/

namespace Errex.Proof.SocketAddr
open Foundation Text Model Webhook Config Proof.Webhook

def Delimiter (stop : Char) : Prop :=
  (toDigit 10 stop).isSome = false ∧ (toDigit 16 stop).isSome = false ∧ (stop == ':') = false ∧ (stop == '.') = false

instance (stop : Char) : Decidable (Delimiter stop) := inferInstanceAs (Decidable (_ ∧ _))

theorem local_readNumber {radix maxDigits : Nat} {allowZero : Bool} {stop : Char} (no : (toDigit radix stop).isSome = false) :
    Local stop (readNumber radix maxDigits allowZero) where
  suffix := by
    intro s n rest read
    obtain ⟨ds, rfl, -, -⟩ := readNumber_some read
    exact List.suffix_append ds rest
  before := by
    intro s t _
    obtain ⟨taken, dropped⟩ := takeWhile_before (p := fun c => (toDigit radix c).isSome) no s t
    cases s with
    | nil => simp [readNumber, no]
    | cons c s =>
        rw [readNumber, readNumber, taken, dropped, List.cons_append, List.head?_cons, List.head?_cons]
        split_ifs <;> rfl

theorem local_scanChar {α : Type} {accepted : Char → Bool} {stop : Char} {next : List Char → Option (α × List Char)}
    (refused : accepted stop = false) (here : Local stop next) : Local stop fun s => (scanChar accepted s).bind next := by
  have both := (@Local.one _ stop _ accepted refused).bind fun _ : Unit => here
  refine (congrArg (Local stop) (funext fun s => ?_)).mp both
  cases s with
  | nil => rfl
  | cons c s => by_cases taken : accepted c = true <;> simp [scanChar, taken]

theorem local_readSeparator {α : Type} {separator stop : Char} {inner : List Char → Option (α × List Char)}
    (index : Nat) (other : (stop == separator) = false) (here : Local stop inner) :
    Local stop (readSeparator separator index inner) := by
  by_cases later : 0 < index
  · refine (congrArg (Local stop) (funext fun s => ?_)).mp (@local_scanChar _ (· == separator) stop inner other here)
    rw [readSeparator, if_pos later]
    rfl
  · refine (congrArg (Local stop) (funext fun s => ?_)).mp here
    rw [readSeparator, if_neg later]
    rfl

theorem local_readOctet {stop : Char} (no : (toDigit 10 stop).isSome = false) : Local stop readOctet := by
  apply @Local.bind _ _ UInt8 _ _ (fun n s => if n < 256 then some (UInt8.ofNat n, s) else none) (local_readNumber no)
  intro n
  by_cases small : n < 256
  · simpa only [if_pos small] using Local.pure _
  · simpa only [if_neg small] using Local.fail

theorem local_readIpv4Addr {stop : Char} (no : (toDigit 10 stop).isSome = false) (other : (stop == '.') = false) :
    Local stop readIpv4Addr := by
  have octet := fun index => local_readSeparator index other (local_readOctet no)
  exact (octet 0).bind fun a => (octet 1).bind fun b => (octet 2).bind fun c => (octet 3).bind fun d =>
    Local.pure (![a, b, c, d] : Fin 4 → UInt8)

theorem readGroups_before {stop : Char} (stops : Delimiter stop) (remaining i : Nat) (s t : List Char) :
    (readGroups remaining i s).2.2 <:+ s ∧ (stop ∉ s → readGroups remaining i (s ++ stop :: t) =
      ((readGroups remaining i s).1, (readGroups remaining i s).2.1, (readGroups remaining i s).2.2 ++ stop :: t)) := by
  obtain ⟨decimal, hexadecimal, colon, dot⟩ := stops
  induction remaining generalizing i s with
  | zero => exact ⟨List.suffix_rfl, fun _ => rfl⟩
  | succ remaining ih =>
      have ipv4 : Local stop fun s => if 0 < remaining then readSeparator ':' i readIpv4Addr s else none := by
        by_cases more : 0 < remaining
        · simpa only [if_pos more] using local_readSeparator i colon (local_readIpv4Addr decimal dot)
        · simpa only [if_neg more] using Local.fail
      have group : Local stop (readSeparator ':' i (readNumber 16 4 true)) :=
        local_readSeparator i colon (local_readNumber hexadecimal)
      rw [readGroups, readGroups]
      cases first : if 0 < remaining then readSeparator ':' i readIpv4Addr s else none with
      | some r =>
          refine ⟨ipv4.suffix first, fun fresh => ?_⟩
          have same := ipv4.before t fresh
          rw [first] at same
          rw [same]
          rfl
      | none =>
          cases number : readSeparator ':' i (readNumber 16 4 true) s with
          | none =>
              refine ⟨List.suffix_rfl, fun fresh => ?_⟩
              have same := ipv4.before t fresh
              rw [first] at same
              rw [same, Option.map_none, group.before t fresh, number]
              rfl
          | some r =>
              obtain ⟨n, rest⟩ := r
              have ends := group.suffix number
              obtain ⟨suffix, later⟩ := ih (i + 1) rest
              refine ⟨suffix.trans ends, fun fresh => ?_⟩
              have same := ipv4.before t fresh
              rw [first] at same
              rw [same, Option.map_none, group.before t fresh, number, Option.map_some]
              dsimp only
              rw [later fun mem => fresh (ends.mem mem)]

theorem local_readGroups {stop : Char} (stops : Delimiter stop) (remaining : Nat) :
    Local stop fun s =>
      some (((readGroups remaining 0 s).1, (readGroups remaining 0 s).2.1), (readGroups remaining 0 s).2.2) where
  suffix := by
    intro s a rest eq
    cases eq
    exact (readGroups_before stops remaining 0 s []).1
  before := by
    intro s t fresh
    rw [(readGroups_before stops remaining 0 s t).2 fresh]
    rfl

theorem local_readIpv6Addr {stop : Char} (stops : Delimiter stop) : Local stop readIpv6Addr := by
  have colon := stops.2.2.1
  let next := fun (groups : List UInt16 × Bool) (s : List Char) =>
    if groups.1.length = 8 then some (ofGroups groups.1, s)
    else if groups.2 then none
    else do
      let s ← scanChar (· == ':') s
      let s ← scanChar (· == ':') s
      let rest := readGroups (7 - groups.1.length) 0 s
      some (ofGroups (groups.1 ++ List.replicate (8 - groups.1.length - rest.1.length) 0 ++ rest.1), rest.2.2)
  apply @Local.bind _ _ _ _ _ next (local_readGroups stops 8)
  rintro ⟨head, headIpv4⟩
  by_cases full : head.length = 8
  · simpa only [next, if_pos full] using Local.pure _
  · by_cases ipv4 : headIpv4 = true
    · simpa only [next, if_neg full, if_pos ipv4] using Local.fail
    · simp only [next, if_neg full, if_neg ipv4]
      apply @local_scanChar _ (· == ':') stop _ colon
      apply @local_scanChar _ (· == ':') stop _ colon
      exact (local_readGroups stops _).bind fun tail =>
        Local.pure (ofGroups (head ++ List.replicate (8 - head.length - tail.1.length) 0 ++ tail.1))

theorem toDigit_isDigit {c : Char} (digit : c.isDigit = true) :
    toDigit 10 c = some (c.toNat - 48) ∧ 48 ≤ c.toNat ∧ c.toNat ≤ 57 := by
  have range : 48 ≤ c.toNat ∧ c.toNat ≤ 57 := Char.isDigit_iff_toNat.mp digit
  exact ⟨by rw [toDigit, if_pos digit, if_pos (by omega)], range⟩

theorem digitChar_of_toDigit {c : Char} {d : Nat} (value : toDigit 10 c = some d) : d < 10 ∧ c = Nat.digitChar d := by
  have digit := isDigit_of_toDigit (Option.isSome_of_eq_some value)
  obtain ⟨known, low, high⟩ := toDigit_isDigit digit
  cases known.symm.trans value
  refine ⟨by omega, Char.toNat_inj.mp ?_⟩
  have each : ((List.range 10).all fun n => (Nat.digitChar n).toNat == n + 48) = true := by decide
  have same := List.all_eq_true.mp each (c.toNat - 48) (List.mem_range.mpr (by omega))
  rw [beq_iff_eq.mp same]
  omega

def decimalValue (ds : List Char) : Nat := ds.foldl (fun n c => n * 10 + (toDigit 10 c).getD 0) 0

theorem toDigits_decimalValue {ds : List Char} (digits : ∀ c ∈ ds, (toDigit 10 c).isSome = true) (some_ : ds ≠ [])
    (zero : ds.head? = some '0' → ds.length ≤ 1) :
    Nat.toDigits 10 (decimalValue ds) = ds ∧ (ds.head? ≠ some '0' → 0 < decimalValue ds) := by
  induction ds using List.reverseRecOn with
  | nil => exact absurd rfl some_
  | append_singleton ds c ih =>
      obtain ⟨d, value⟩ := Option.isSome_iff_exists.mp (digits c (by simp))
      obtain ⟨small, rfl⟩ := digitChar_of_toDigit value
      have last : decimalValue (ds ++ [Nat.digitChar d]) = 10 * decimalValue ds + d := by
        rw [decimalValue, List.foldl_append, decimalValue, List.foldl_cons, List.foldl_nil, value, Option.getD_some,
          mul_comm]
      cases ds with
      | nil =>
          rw [last, List.nil_append, Nat.toDigits_of_lt_base (by simpa [decimalValue] using small)]
          have alone : 10 * decimalValue [] + d = d := by simp [decimalValue]
          rw [alone]
          refine ⟨rfl, fun lead => Nat.pos_of_ne_zero ?_⟩
          rintro rfl
          exact lead rfl
      | cons first ds =>
          have lead : (first :: ds).head? ≠ some '0' := by
            intro eq
            have short := zero (by simpa using eq)
            simp at short
          obtain ⟨same, positive⟩ := ih (fun c mem => digits c (List.mem_append_left _ mem)) (List.cons_ne_nil _ _)
            fun eq => absurd eq lead
          have more := positive lead
          rw [last]
          refine ⟨?_, fun _ => by omega⟩
          rw [← Nat.toDigits_append_toDigits (by decide) more small, same, Nat.toDigits_of_lt_base small]

theorem decimalValue_toDigits (n : Nat) : decimalValue (Nat.toDigits 10 n) = n := by
  have each : ∀ (ds : List Char) (n : Nat), (∀ c ∈ ds, c.isDigit = true) →
      ds.foldl (fun n c => n * 10 + (toDigit 10 c).getD 0) n = ds.foldl (fun n c => 10 * n + (c.toNat - '0'.toNat)) n := by
    intro ds
    induction ds with
    | nil => exact fun _ _ => rfl
    | cons c ds ih =>
        intro n digits
        rw [List.foldl_cons, List.foldl_cons, (toDigit_isDigit (digits c (by simp))).1, Option.getD_some, mul_comm]
        exact ih _ fun c mem => digits c (List.mem_cons_of_mem _ mem)
  have digits : ∀ c ∈ Nat.toDigits 10 n, c.isDigit = true :=
    fun c mem => Nat.isDigit_of_mem_toDigits (by decide) (by decide) mem
  rw [decimalValue, each _ 0 digits, ← Nat.ofDigitChars_eq_foldl, Nat.ofDigitChars_toDigits (by decide) (by decide)]

theorem readNumber_text {maxDigits n : Nat} {s rest : List Char} (read : readNumber 10 maxDigits false s = some (n, rest)) :
    s = Nat.toDigits 10 n ++ rest := by
  rw [readNumber] at read
  split_ifs at read with size plain
  have whole := @List.takeWhile_append_dropWhile _ (fun c => (toDigit 10 c).isSome) s
  have digits : ∀ c ∈ s.takeWhile (fun c => (toDigit 10 c).isSome), (toDigit 10 c).isSome = true :=
    fun c mem => List.all_eq_true.mp List.all_takeWhile c mem
  have value : decimalValue (s.takeWhile fun c => (toDigit 10 c).isSome) = n := (Prod.mk.inj (Option.some.inj read)).1
  have left : s.dropWhile (fun c => (toDigit 10 c).isSome) = rest := (Prod.mk.inj (Option.some.inj read)).2
  rw [left] at whole
  generalize s.takeWhile (fun c => (toDigit 10 c).isSome) = ds at *
  have some_ : ds ≠ [] := by
    rintro rfl
    exact size (.inl rfl)
  rw [← value, (toDigits_decimalValue digits some_ ?_).1, whole]
  intro first
  by_contra long
  refine plain ⟨rfl, ?_, by omega⟩
  rw [← whole, List.head?_append_of_ne_nil _ some_, first]

theorem readOctet_text {octet : UInt8} {s rest : List Char} (read : readOctet s = some (octet, rest)) :
    s = Nat.toDigits 10 octet.toNat ++ rest := by
  obtain ⟨⟨n, rest'⟩, number, small⟩ := Option.bind_eq_some_iff.mp read
  dsimp only at small
  split_ifs at small with bound
  cases small
  rw [readNumber_text number, UInt8.toNat_ofNat', Nat.mod_eq_of_lt bound]

theorem readIpv4Addr_text {octets : Fin 4 → UInt8} {s rest : List Char} (read : readIpv4Addr s = some (octets, rest)) :
    s = dotted octets ++ rest := by
  obtain ⟨⟨a, s₁⟩, first, read⟩ := Option.bind_eq_some_iff.mp read
  obtain ⟨⟨b, s₂⟩, second, read⟩ := Option.bind_eq_some_iff.mp read
  obtain ⟨⟨c, s₃⟩, third, read⟩ := Option.bind_eq_some_iff.mp read
  obtain ⟨⟨d, s₄⟩, fourth, read⟩ := Option.bind_eq_some_iff.mp read
  cases read
  obtain ⟨t₁, rfl, second⟩ := readSeparator_some (by decide) second
  obtain ⟨t₂, rfl, third⟩ := readSeparator_some (by decide) third
  obtain ⟨t₃, rfl, fourth⟩ := readSeparator_some (by decide) fourth
  have first : readOctet s = some (a, '.' :: t₁) := first
  rw [readOctet_text first, readOctet_text second, readOctet_text third, readOctet_text fourth]
  simp [dotted]

theorem scanChar_some {c : Char} {s t : List Char} (scan : scanChar (· == c) s = some t) : s = c :: t := by
  cases s with
  | nil => cases scan
  | cons d s =>
      rw [scanChar] at scan
      split_ifs at scan with same
      cases scan
      rw [beq_iff_eq.mp same]

theorem readNumberBelow_digits {limit : Nat} {ds rest : List Char} (digits : ∀ c ∈ ds, (toDigit 10 c).isSome = true)
    (some_ : ds ≠ []) (small : decimalValue ds < limit) (stops : NoDigitFirst 10 rest) :
    readNumberBelow limit (ds ++ rest) = some (decimalValue ds, rest) := by
  obtain ⟨taken, dropped⟩ := takeWhile_digits digits stops
  rw [decimalValue] at small ⊢
  rw [readNumberBelow, taken, dropped, if_neg]
  rintro (empty | large)
  · exact some_ (List.eq_nil_of_length_eq_zero empty)
  · omega

theorem readNumberBelow_some {n limit : Nat} {s rest : List Char} (read : readNumberBelow limit s = some (n, rest)) :
    ∃ ds, s = ds ++ rest ∧ ds ≠ [] ∧ (∀ c ∈ ds, (toDigit 10 c).isSome = true) ∧ decimalValue ds = n ∧ n < limit := by
  rw [readNumberBelow] at read
  split_ifs at read with range
  cases read
  refine ⟨s.takeWhile fun c => (toDigit 10 c).isSome, List.takeWhile_append_dropWhile.symm, fun none_ => ?_,
    fun c mem => List.all_eq_true.mp List.all_takeWhile c mem, rfl, by omega⟩
  exact range (.inl (by rw [none_]; rfl))

def portText (port : UInt16) : List Char := Nat.toDigits 10 port.toNat

theorem portText_digits (port : UInt16) : ∀ c ∈ portText port, (toDigit 10 c).isSome = true := by
  intro c mem
  rw [(toDigit_isDigit (Nat.isDigit_of_mem_toDigits (by decide) (by decide) mem)).1]
  rfl

theorem not_mem_of_digits {ds : List Char} (digits : ∀ c ∈ ds, (toDigit 10 c).isSome = true) {c : Char}
    (no : (toDigit 10 c).isSome = false) : c ∉ ds := by
  intro mem
  rw [digits c mem] at no
  cases no

theorem readPort_portText (port : UInt16) : readPort (':' :: portText port) = some (port, []) := by
  have value : decimalValue (portText port) = port.toNat := decimalValue_toDigits _
  have read := readNumberBelow_digits (portText_digits port) Nat.toDigits_ne_nil (value.trans_lt port.toNat_lt)
    (nofun : NoDigitFirst 10 [])
  rw [List.append_nil, value] at read
  simp [readPort, scanChar, read]

theorem readPort_some {port : UInt16} {s : List Char} (read : readPort s = some (port, [])) :
    ∃ ds, s = ':' :: ds ∧ (∀ c ∈ ds, (toDigit 10 c).isSome = true) ∧ port = UInt16.ofNat (decimalValue ds) := by
  obtain ⟨s', first, read⟩ := Option.bind_eq_some_iff.mp read
  obtain ⟨⟨n, rest⟩, number, done⟩ := Option.bind_eq_some_iff.mp read
  cases done
  obtain ⟨ds, rfl, -, digits, rfl, -⟩ := readNumberBelow_some number
  exact ⟨ds, by rw [scanChar_some first, List.append_nil], digits, rfl⟩

inductive Scope : List Char → UInt32 → Prop where
  | none : Scope [] 0
  | digits {ds : List Char} (some_ : ds ≠ []) (all : ds.all Char.isDigit = true) (small : decimalValue ds < 2 ^ 32) :
      Scope ('%' :: ds) (UInt32.ofNat (decimalValue ds))

theorem readScopeId_scope {scope : List Char} {scopeId : UInt32} (known : Scope scope scopeId) (t : List Char) :
    (readScopeId (scope ++ ']' :: t)).getD (0, scope ++ ']' :: t) = (scopeId, ']' :: t) := by
  cases known with
  | none => rfl
  | digits some_ all small =>
      rename_i ds
      have digits : ∀ c ∈ ds, (toDigit 10 c).isSome = true := by
        intro c mem
        rw [(toDigit_isDigit (List.all_eq_true.mp all c mem)).1]
        rfl
      have stops : NoDigitFirst 10 (']' :: t) := by
        intro c first
        cases first
        decide
      have read := readNumberBelow_digits digits some_ small stops
      have scan : readScopeId ('%' :: (ds ++ ']' :: t)) = some (UInt32.ofNat (decimalValue ds), ']' :: t) := by
        change (readNumberBelow (2 ^ 32) (ds ++ ']' :: t)).bind _ = _
        rw [read]
        rfl
      rw [List.cons_append, scan, Option.getD_some]

/-- The host is an IPv6 literal in brackets, perhaps with a scope. -/
structure Bracketed (host : String) (segments : Fin 8 → UInt16) (scopeId : UInt32) (literal scope : List Char) : Prop where
  text : host = .ofList ('[' :: (literal ++ scope ++ [']']))
  literal : parseIpAddr (.ofList literal) = some (.v6 segments)
  scope : Scope scope scopeId

theorem readIpv6Addr_of_v4 {s rest : List Char} {octets : Fin 4 → UInt8} (read : readIpv4Addr s = some (octets, rest)) :
    readIpv6Addr s = none := by
  have first : readSeparator ':' 0 readIpv4Addr s = some (octets, rest) := read
  rw [readIpv6Addr, readGroups, if_pos (by decide), first]
  rfl

theorem parseIpAddr_v6_iff {s : List Char} {segments : Fin 8 → UInt16} :
    parseIpAddr (.ofList s) = some (.v6 segments) ↔ readIpv6Addr s = some (segments, []) := by
  rw [parseIpAddr, String.toList_ofList, readIpAddr]
  cases ipv4 : readIpv4Addr s with
  | some r =>
      obtain ⟨octets, rest⟩ := r
      rw [readIpv6Addr_of_v4 ipv4]
      cases rest <;> simp
  | none =>
      rcases readIpv6Addr s with _ | ⟨segments', _ | ⟨c, rest⟩⟩ <;> simp

theorem delimiters : ∀ c ∈ [']', '%', '/'], Delimiter c := by
  simp only [List.forall_mem_cons]
  exact ⟨by decide, by decide, by decide, fun _ mem => absurd mem List.not_mem_nil⟩

variable {segments : Fin 8 → UInt16} {scopeId : UInt32} {literal scope : List Char}

theorem Bracketed.parseIpAddr_eq_none {host : String} (here : Bracketed host segments scopeId literal scope) :
    parseIpAddr host = none := by
  obtain ⟨rfl, -, -⟩ := here
  have none_ : ∀ s, readIpAddr ('[' :: s) = none := fun s => rfl
  rw [parseIpAddr, String.toList_ofList, none_]

theorem Bracketed.ne {host text : String} (here : Bracketed host segments scopeId literal scope)
    (other : text.toList.head? ≠ some '[') : host ≠ text := by
  rintro rfl
  rw [here.text, String.toList_ofList] at other
  exact other rfl

theorem Bracketed.slash {host : String} (here : Bracketed host segments scopeId literal scope) : '/' ∉ host.toList := by
  obtain ⟨rfl, known, behind⟩ := here
  have inside := (local_readIpv6Addr (delimiters '/' (by decide))).whole (parseIpAddr_v6_iff.mp known)
  have outside : '/' ∉ scope := by
    cases behind with
    | none => simp
    | digits some_ all small =>
        intro mem
        rcases List.mem_cons.mp mem with eq | mem
        · cases eq
        · have digit := List.all_eq_true.mp all _ mem
          revert digit
          decide
  simp [inside, outside]

theorem parseSocketAddr_v4 (octets : Fin 4 → UInt8) (port : UInt16) :
    parseSocketAddr (.ofList (dotted octets ++ ':' :: portText port)) = some (.v4 octets port) := by
  have stops : NoDigitFirst 10 (':' :: portText port) := by
    intro c first
    cases first
    decide
  have read := readIpv4Addr_dotted octets stops
  have socket : readSocketAddrV4 (dotted octets ++ ':' :: portText port) = some (.v4 octets port, []) := by
    rw [readSocketAddrV4, read]
    change (readPort (':' :: portText port)).bind _ = _
    rw [readPort_portText]
    rfl
  rw [parseSocketAddr, String.toList_ofList, socket, Option.some_or]

theorem parseSocketAddr_bracketed {host : String}
    (here : Bracketed host segments scopeId literal scope) (port : UInt16) :
    parseSocketAddr (.ofList (host.toList ++ ':' :: portText port)) = some (.v6 segments port scopeId) := by
  obtain ⟨rfl, known, behind⟩ := here
  have literalRead := parseIpAddr_v6_iff.mp known
  have ends : ∀ {stop : Char}, stop ∈ [']', '%', '/'] → ∀ t,
      readIpv6Addr (literal ++ stop :: t) = some (segments, stop :: t) := by
    intro stop mem t
    have here := local_readIpv6Addr (delimiters stop mem)
    rw [here.before t (here.whole literalRead), literalRead]
    rfl
  have read : readIpv6Addr (literal ++ (scope ++ ']' :: ':' :: portText port)) =
      some (segments, scope ++ ']' :: ':' :: portText port) := by
    cases behind with
    | none => exact ends (by decide) _
    | digits => exact ends (by decide) _
  have socket : readSocketAddrV6 ('[' :: (literal ++ (scope ++ ']' :: ':' :: portText port))) =
      some (.v6 segments port scopeId, []) := by
    change (readIpv6Addr (literal ++ (scope ++ ']' :: ':' :: portText port))).bind _ = _
    rw [read, Option.bind_some]
    dsimp only
    rw [readScopeId_scope behind]
    change (readPort (':' :: portText port)).bind _ = _
    rw [readPort_portText]
    rfl
  have v4 : ∀ s, readSocketAddrV4 ('[' :: s) = none := fun s => rfl
  have text : '[' :: (literal ++ scope ++ [']']) ++ ':' :: portText port =
      '[' :: (literal ++ (scope ++ ']' :: ':' :: portText port)) := by
    simp
  rw [parseSocketAddr, String.toList_ofList, String.toList_ofList, text, v4, Option.none_or, socket]

theorem scope_of_readScopeId {s t : List Char} {scopeId : UInt32}
    (read : (readScopeId s).getD (0, s) = (scopeId, ']' :: t)) :
    ∃ scope, Scope scope scopeId ∧ s = scope ++ ']' :: t := by
  cases scan : readScopeId s with
  | none =>
      rw [scan] at read
      cases read
      exact ⟨[], .none, rfl⟩
  | some r =>
      rw [scan] at read
      cases read
      obtain ⟨s', first, scan⟩ := Option.bind_eq_some_iff.mp scan
      obtain ⟨⟨n, rest⟩, number, done⟩ := Option.bind_eq_some_iff.mp scan
      cases done
      obtain ⟨ds, rfl, some_, digits, rfl, small⟩ := readNumberBelow_some number
      rw [scanChar_some first]
      exact ⟨'%' :: ds, .digits some_ (List.all_eq_true.mpr fun c mem => isDigit_of_toDigit (digits c mem)) small, rfl⟩

theorem readSocketAddrV6_some {s : List Char} {a : SocketAddr} (read : readSocketAddrV6 s = some (a, [])) :
    ∃ segments scopeId literal scope ds, s = ('[' :: (literal ++ scope ++ [']'])) ++ ':' :: ds ∧
      parseIpAddr (.ofList literal) = some (.v6 segments) ∧ Scope scope scopeId ∧
      (∀ c ∈ ds, (toDigit 10 c).isSome = true) ∧ a = .v6 segments (UInt16.ofNat (decimalValue ds)) scopeId := by
  obtain ⟨s, first, read⟩ := Option.bind_eq_some_iff.mp read
  obtain ⟨⟨segments, s₁⟩, ip, read⟩ := Option.bind_eq_some_iff.mp read
  dsimp only at read
  rcases scan : (readScopeId s₁).getD (0, s₁) with ⟨scopeId, s₂⟩
  rw [scan] at read
  obtain ⟨s₃, close, read⟩ := Option.bind_eq_some_iff.mp read
  obtain ⟨⟨port, rest⟩, number, done⟩ := Option.bind_eq_some_iff.mp read
  cases done
  obtain ⟨ds, rfl, digits, rfl⟩ := readPort_some number
  have closed : s₂ = ']' :: ':' :: ds := scanChar_some close
  rw [closed] at scan
  obtain ⟨scope, known, rfl⟩ := scope_of_readScopeId scan
  obtain ⟨literal, rfl, whole⟩ : ∃ literal, s = literal ++ (scope ++ ']' :: ':' :: ds) ∧
      readIpv6Addr literal = some (segments, []) := by
    cases known with
    | none => exact (local_readIpv6Addr (delimiters ']' (by decide))).exact ip
    | digits => exact (local_readIpv6Addr (delimiters '%' (by decide))).exact ip
  refine ⟨segments, scopeId, literal, scope, ds, ?_, parseIpAddr_v6_iff.mpr whole, known, digits, rfl⟩
  rw [scanChar_some first]
  simp

theorem parseSocketAddr_some {host : String} {port : UInt16} {a : SocketAddr}
    (parsed : parseSocketAddr (.ofList (host.toList ++ ':' :: portText port)) = some a) :
    (∃ octets, host = .ofList (dotted octets) ∧ a = .v4 octets port) ∨
      ∃ segments scopeId literal scope, Bracketed host segments scopeId literal scope ∧ a = .v6 segments port scopeId := by
  have colon : ':' ∉ portText port := not_mem_of_digits (portText_digits port) (by decide)
  have last : ∀ {front ds : List Char}, (∀ c ∈ ds, (toDigit 10 c).isSome = true) →
      host.toList ++ ':' :: portText port = front ++ ':' :: ds →
        host.toList = front ∧ UInt16.ofNat (decimalValue ds) = port := by
    intro front ds digits same
    obtain ⟨hosts, rfl⟩ := append_cons_inj colon (not_mem_of_digits digits (by decide)) same
    refine ⟨hosts, ?_⟩
    rw [portText, decimalValue_toDigits, UInt16.ofNat_toNat]
  rw [parseSocketAddr, String.toList_ofList] at parsed
  cases v4 : readSocketAddrV4 (host.toList ++ ':' :: portText port) with
  | some r =>
      left
      rw [v4, Option.some_or] at parsed
      obtain ⟨a', rest⟩ := r
      cases rest with
      | cons c rest => cases parsed
      | nil =>
          cases parsed
          obtain ⟨⟨octets, s⟩, ip, v4⟩ := Option.bind_eq_some_iff.mp v4
          obtain ⟨⟨port', rest⟩, read, done⟩ := Option.bind_eq_some_iff.mp v4
          cases done
          obtain ⟨ds, rfl, digits, rfl⟩ := readPort_some read
          obtain ⟨hosts, ports⟩ := last digits (readIpv4Addr_text ip)
          exact ⟨octets, by rw [← hosts, String.ofList_toList], by rw [ports]⟩
  | none =>
      right
      rw [v4, Option.none_or] at parsed
      cases v6 : readSocketAddrV6 (host.toList ++ ':' :: portText port) with
      | none =>
          rw [v6] at parsed
          cases parsed
      | some r =>
          rw [v6] at parsed
          obtain ⟨a', rest⟩ := r
          cases rest with
          | cons c rest => cases parsed
          | nil =>
              cases parsed
              obtain ⟨segments, scopeId, literal, scope, ds, text, known, behind, digits, rfl⟩ := readSocketAddrV6_some v6
              obtain ⟨hosts, ports⟩ := last digits text
              refine ⟨segments, scopeId, literal, scope, ⟨?_, known, behind⟩, by rw [ports]⟩
              rw [← hosts, String.ofList_toList]

end Errex.Proof.SocketAddr
