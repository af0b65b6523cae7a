import Errex.Model.IpAddr

/-!
# Reading addresses

An IPv4 address as it is displayed is read back (`parseIpAddr_dotted`), and a text that has no colon and
does not end in a label of digits is no address (`parseIpAddr_eq_none`).
-/

namespace Errex.Proof.Webhook
open Foundation Model Webhook

def NoDigitFirst (radix : Nat) (s : List Char) : Prop := ∀ c ∈ s.head?, (toDigit radix c).isSome = false

theorem takeWhile_digits {radix : Nat} {ds rest : List Char} (digits : ∀ c ∈ ds, (toDigit radix c).isSome = true)
    (stops : NoDigitFirst radix rest) : (ds ++ rest).takeWhile (fun c => (toDigit radix c).isSome) = ds ∧
      (ds ++ rest).dropWhile (fun c => (toDigit radix c).isSome) = rest := by
  rw [List.takeWhile_append_of_pos digits, List.dropWhile_append_of_pos digits]
  cases rest with
  | nil => simp
  | cons c rest => simp [stops c rfl]

def IsOctet (n : Nat) (ds : List Char) : Prop := ds.all (fun c => (toDigit 10 c).isSome) = true ∧ ds.length ≠ 0 ∧
  ds.length ≤ 3 ∧ ds.foldl (fun n c => n * 10 + (toDigit 10 c).getD 0) 0 = n ∧ (ds.head? = some '0' → ds.length ≤ 1)

instance (n : Nat) (ds : List Char) : Decidable (IsOctet n ds) := inferInstanceAs (Decidable (_ ∧ _))

theorem toDigits_octet {n : Nat} (small : n < 256) : IsOctet n (Nat.toDigits 10 n) := by
  have each : ((List.range 256).all fun n => decide (IsOctet n (Nat.toDigits 10 n))) = true := by decide +kernel
  exact of_decide_eq_true (List.all_eq_true.mp each n (List.mem_range.mpr small))

theorem readOctet_toDigits (octet : UInt8) {rest : List Char} (stops : NoDigitFirst 10 rest) :
    readOctet (Nat.toDigits 10 octet.toNat ++ rest) = some (octet, rest) := by
  obtain ⟨all, some_, short, value, zero⟩ := toDigits_octet octet.toNat_lt
  have digits := List.all_eq_true.mp all
  have head : (Nat.toDigits 10 octet.toNat ++ rest).head? = (Nat.toDigits 10 octet.toNat).head? := by
    rw [List.head?_append_of_ne_nil _ (List.ne_nil_of_length_pos (Nat.pos_of_ne_zero some_))]
  have plain : ¬ ((!false) = true ∧ (Nat.toDigits 10 octet.toNat).head? = some '0' ∧
      1 < (Nat.toDigits 10 octet.toNat).length) := by
    rintro ⟨-, first, long⟩
    have := zero first
    omega
  rw [readOctet, readNumber]
  simp only [takeWhile_digits digits stops, head]
  rw [if_neg (by omega), if_neg plain, value]
  simp [octet.toNat_lt]

theorem noDigitFirst_dot (rest : List Char) : NoDigitFirst 10 ('.' :: rest) := by
  intro c first
  cases first
  decide

theorem readIpv4Addr_dotted (octets : Fin 4 → UInt8) {rest : List Char} (stops : NoDigitFirst 10 rest) :
    readIpv4Addr (dotted octets ++ rest) = some (octets, rest) := by
  have order : ![octets 0, octets 1, octets 2, octets 3] = octets := by
    funext i
    fin_cases i <;> rfl
  simp [readIpv4Addr, readSeparator, dotted, scanChar, readOctet_toDigits, noDigitFirst_dot, stops, order]

theorem parseIpAddr_dotted (octets : Fin 4 → UInt8) : parseIpAddr (.ofList (dotted octets)) = some (.v4 octets) := by
  have read := readIpv4Addr_dotted octets (nofun : NoDigitFirst 10 [])
  rw [List.append_nil] at read
  rw [parseIpAddr, String.toList_ofList, readIpAddr, read]

def EndsInNumber (s : List Char) : Prop := ∃ front label, s = front ++ '.' :: label ∧ label ≠ [] ∧ label.all Char.isDigit = true

theorem EndsInNumber.digit {s : List Char} (number : EndsInNumber s) : ∃ c, s.getLast? = some c ∧ c.isDigit = true := by
  obtain ⟨front, label, rfl, some_, digits⟩ := number
  refine ⟨label.getLast some_, ?_, List.all_eq_true.mp digits _ (List.getLast_mem some_)⟩
  rw [List.getLast?_append_of_ne_nil _ (List.cons_ne_nil _ _), List.getLast?_eq_getLast_of_ne_nil (List.cons_ne_nil _ _),
    List.getLast_cons some_]

theorem isDigit_of_toDigit {c : Char} (digit : (toDigit 10 c).isSome = true) : c.isDigit = true := by
  by_contra other
  have lower : c.isLower = true → 97 ≤ c.toNat := by
    intro lower
    have bounds := Bool.and_eq_true_iff.mp lower
    exact UInt32.le_iff_toNat_le.mp (of_decide_eq_true bounds.1)
  have upper : c.isUpper = true → 65 ≤ c.toNat := by
    intro upper
    exact UInt32.le_iff_toNat_le.mp (of_decide_eq_true upper).1
  simp only [toDigit, if_neg other] at digit
  split_ifs at digit with first small second small third
  · have := lower first
    omega
  · cases digit
  · have := upper second
    omega
  · cases digit
  · omega
  · cases digit

theorem readNumber_some {radix maxDigits n : Nat} {zero : Bool} {s rest : List Char}
    (read : readNumber radix maxDigits zero s = some (n, rest)) :
    ∃ ds, s = ds ++ rest ∧ ds ≠ [] ∧ ∀ c ∈ ds, (toDigit radix c).isSome = true := by
  rw [readNumber] at read
  split_ifs at read with size plain
  cases read
  refine ⟨s.takeWhile fun c => (toDigit radix c).isSome, List.takeWhile_append_dropWhile.symm, ?_, ?_⟩
  · intro none_
    exact size (.inl (by rw [none_]; rfl))
  · intro c mem
    exact List.all_eq_true.mp List.all_takeWhile c mem

theorem readOctet_some {octet : UInt8} {s rest : List Char} (read : readOctet s = some (octet, rest)) :
    ∃ ds, s = ds ++ rest ∧ ds ≠ [] ∧ ds.all Char.isDigit = true := by
  obtain ⟨⟨n, rest'⟩, number, small⟩ := Option.bind_eq_some_iff.mp read
  obtain ⟨ds, rfl, some_, digits⟩ := readNumber_some number
  simp only at small
  split_ifs at small
  cases small
  exact ⟨ds, rfl, some_, List.all_eq_true.mpr fun c mem => isDigit_of_toDigit (digits c mem)⟩

theorem readSeparator_some {α : Type} {a : α} {separator : Char} {index : Nat} {inner : List Char → Option (α × List Char)}
    {s rest : List Char} (later : 0 < index) (read : readSeparator separator index inner s = some (a, rest)) :
    ∃ s', s = separator :: s' ∧ inner s' = some (a, rest) := by
  rw [readSeparator, if_pos later] at read
  obtain ⟨s', first, inside⟩ := Option.bind_eq_some_iff.mp read
  cases s with
  | nil => cases first
  | cons c s =>
      rw [scanChar] at first
      split_ifs at first with same
      cases first
      exact ⟨s', by rw [beq_iff_eq.mp same], inside⟩

theorem readIpv4Addr_some {octets : Fin 4 → UInt8} {s rest : List Char} (read : readIpv4Addr s = some (octets, rest)) :
    ∃ front label, s = front ++ '.' :: (label ++ rest) ∧ label ≠ [] ∧ label.all Char.isDigit = true := by
  obtain ⟨⟨a, s₁⟩, first, read⟩ := Option.bind_eq_some_iff.mp read
  obtain ⟨⟨b, s₂⟩, second, read⟩ := Option.bind_eq_some_iff.mp read
  obtain ⟨⟨c, s₃⟩, third, read⟩ := Option.bind_eq_some_iff.mp read
  obtain ⟨⟨d, s₄⟩, fourth, read⟩ := Option.bind_eq_some_iff.mp read
  cases read
  obtain ⟨ds, rfl, -, -⟩ := readOctet_some first
  obtain ⟨s₁', rfl, second⟩ := readSeparator_some (by decide) second
  obtain ⟨ds₁, rfl, -, -⟩ := readOctet_some second
  obtain ⟨s₂', rfl, third⟩ := readSeparator_some (by decide) third
  obtain ⟨ds₂, rfl, -, -⟩ := readOctet_some third
  obtain ⟨s₃', rfl, fourth⟩ := readSeparator_some (by decide) fourth
  obtain ⟨label, rfl, some_, digits⟩ := readOctet_some fourth
  exact ⟨ds ++ '.' :: (ds₁ ++ '.' :: ds₂), label, by simp, some_, digits⟩

theorem readGroups_of_not_mem {s : List Char} (colon : ':' ∉ s) (remaining : Nat) :
    readGroups remaining 1 s = ([], false, s) := by
  have first : ∀ {α : Type} (inner : List Char → Option (α × List Char)), readSeparator ':' 1 inner s = none := by
    intro α inner
    cases read : readSeparator ':' 1 inner s with
    | none => rfl
    | some r =>
        obtain ⟨s', rfl, -⟩ := readSeparator_some (by decide) read
        exact absurd (List.mem_cons_self ..) colon
  cases remaining with
  | zero => rfl
  | succ remaining => simp [readGroups, first]

theorem readIpv6Addr_eq_none {s : List Char} (colon : ':' ∉ s) : readIpv6Addr s = none := by
  have double : ∀ s' : List Char, ':' ∉ s' → scanChar (· == ':') s' = none := by
    intro s' colon
    cases s' with
    | nil => rfl
    | cons c s' =>
        rw [scanChar, if_neg]
        intro same
        exact colon (by simp [beq_iff_eq.mp same])
  obtain ⟨groups, ipv4, s', read, few, colon'⟩ : ∃ groups ipv4 s', readGroups 8 0 s = (groups, ipv4, s') ∧
      groups.length ≠ 8 ∧ (ipv4 = true ∨ ':' ∉ s') := by
    rw [readGroups, if_pos (by decide)]
    cases readSeparator ':' 0 readIpv4Addr s with
    | some r => exact ⟨_, true, _, rfl, by simp, .inl rfl⟩
    | none =>
        cases number : readSeparator ':' 0 (readNumber 16 4 true) s with
        | none => exact ⟨[], false, s, rfl, by simp, .inr colon⟩
        | some r =>
            obtain ⟨group, rest⟩ := r
            obtain ⟨ds, rfl, -, -⟩ := readNumber_some (show readNumber 16 4 true s = some (group, rest) from number)
            have colon' : ':' ∉ rest := fun mem => colon (List.mem_append_right ds mem)
            refine ⟨[UInt16.ofNat group], false, rest, ?_, by simp, .inr colon'⟩
            simp only [readGroups_of_not_mem colon']
  rw [readIpv6Addr, read]
  simp only [if_neg few]
  rcases colon' with rfl | colon'
  · rfl
  · split_ifs
    · rfl
    · rw [double s' colon']
      rfl

theorem parseIpAddr_eq_none {text : String} (colon : ':' ∉ text.toList) (label : ¬ EndsInNumber text.toList) :
    parseIpAddr text = none := by
  rw [parseIpAddr, readIpAddr]
  cases read : readIpv4Addr text.toList with
  | none =>
      rw [readIpv6Addr_eq_none colon]
      rfl
  | some r =>
      obtain ⟨octets, rest⟩ := r
      cases rest with
      | nil =>
          obtain ⟨front, digits, same, some_, all⟩ := readIpv4Addr_some read
          rw [List.append_nil] at same
          exact absurd ⟨front, digits, same, some_, all⟩ label
      | cons c rest => rfl

end Errex.Proof.Webhook
