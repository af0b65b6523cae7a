import Mathlib.Tactic

/-!
# Networks

Address ranges as numbers: a network is what is left of its addresses without the bits of the host. A
comparison under a mask of leading ones is membership (`land_mask_eq_iff`).
-/

namespace Errex.Foundation

structure Network where
  number : Nat
  hostBits : Nat

namespace Network

def Contains (network : Network) (address : Nat) : Prop := address / 2 ^ network.hostBits = network.number

instance (network : Network) (address : Nat) : Decidable (network.Contains address) :=
  inferInstanceAs (Decidable (_ = _))

def AnyContains (networks : List Network) (address : Nat) : Prop := ∃ network ∈ networks, network.Contains address

instance (networks : List Network) (address : Nat) : Decidable (AnyContains networks address) :=
  inferInstanceAs (Decidable (∃ network ∈ networks, _))

@[simp] theorem anyContains_nil (address : Nat) : AnyContains [] address ↔ False := by simp [AnyContains]

@[simp] theorem anyContains_cons (network : Network) (networks : List Network) (address : Nat) :
    AnyContains (network :: networks) address ↔
      address / 2 ^ network.hostBits = network.number ∨ AnyContains networks address := by
  simp [AnyContains, Contains]

end Network

theorem land_mask {address hostBits networkBits : Nat} (bound : address < 2 ^ (networkBits + hostBits)) :
    address &&& ((2 ^ networkBits - 1) <<< hostBits) = (address >>> hostBits) <<< hostBits := by
  apply Nat.eq_of_testBit_eq
  intro i
  rw [Nat.testBit_and, Nat.testBit_shiftLeft, Nat.testBit_shiftLeft, Nat.testBit_shiftRight, Nat.testBit_two_pow_sub_one]
  by_cases high : hostBits ≤ i
  · have index : hostBits + (i - hostBits) = i := by omega
    rw [index]
    by_cases inside : i - hostBits < networkBits
    · simp [high, inside]
    · have zero : address.testBit i = false := Nat.testBit_lt_two_pow
        (bound.trans_le (Nat.pow_le_pow_right (by decide) (by omega)))
      simp [zero]
  · simp [high]

theorem land_mask_eq_iff {address hostBits networkBits number : Nat} (bound : address < 2 ^ (networkBits + hostBits)) :
    address &&& ((2 ^ networkBits - 1) <<< hostBits) = number <<< hostBits ↔ address / 2 ^ hostBits = number := by
  rw [land_mask bound, Nat.shiftLeft_eq, Nat.shiftLeft_eq, Nat.shiftRight_eq_div_pow]
  exact Nat.mul_left_inj (Nat.two_pow_pos hostBits).ne'

theorem split_div {high low lowBits : Nat} (bound : low < 2 ^ lowBits) (hostBits : Nat) :
    (high * 2 ^ lowBits + low) / 2 ^ (lowBits + hostBits) = high / 2 ^ hostBits := by
  rw [pow_add, ← Nat.div_div_eq_div_mul, mul_comm, Nat.mul_add_div (Nat.two_pow_pos lowBits), Nat.div_eq_of_lt bound, add_zero]

end Errex.Foundation
