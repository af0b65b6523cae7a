import Errex.Foundation.Utf16

/-!
# Numbers of JavaScript

The doubles that are natural numbers, and infinity: rounding to 53 significant bits, the products and quotients of
whole numbers by constants, and the texts of numbers both ways.
-/

namespace Errex.Foundation

namespace Rounding

def halfEven (a b : Nat) : Nat :=
  if 2 * (a % b) < b then a / b
  else if b < 2 * (a % b) then a / b + 1
  else a / b + a / b % 2

def scale (n : Nat) : Nat := Nat.log2 n - 52

def round53 (n : Nat) : Nat := halfEven n (2 ^ scale n) * 2 ^ scale n

@[simp] theorem halfEven_one (a : Nat) : halfEven a 1 = a := by simp [halfEven, Nat.mod_one]

theorem halfEven_mul (a b : Nat) (h : 0 < b) : halfEven (a * b) b = a := by
  simp [halfEven, h]

theorem round53_small {n : Nat} (h : n < 2 ^ 53) : round53 n = n := by
  have small : scale n = 0 := by
    rcases Nat.eq_zero_or_pos n with rfl | positive
    · rfl
    · have := (Nat.log2_lt (by omega)).2 h
      simp only [scale]
      omega
  simp [round53, small]

theorem halfEven_le (a b : Nat) : a / b ≤ halfEven a b := by
  unfold halfEven
  split <;> [skip; split] <;> omega

theorem halfEven_le_succ (a b : Nat) : halfEven a b ≤ a / b + 1 := by
  unfold halfEven
  split <;> [skip; split] <;> omega

theorem round53_scaled {m e : Nat} (low : 2 ^ 52 ≤ m) (high : m < 2 ^ 53) : round53 (m * 2 ^ e) = m * 2 ^ e := by
  have log : Nat.log2 (m * 2 ^ e) = 52 + e := by
    rw [Nat.log2_eq_iff (by positivity)]
    constructor
    · rw [Nat.pow_add]; exact Nat.mul_le_mul_right _ low
    · rw [show 52 + e + 1 = 53 + e by omega, Nat.pow_add]
      exact Nat.mul_lt_mul_of_pos_right high (by positivity)
  have exponent : scale (m * 2 ^ e) = e := by simp [scale, log]
  rw [round53, exponent, halfEven_mul _ _ (by positivity)]

theorem round53_idem (n : Nat) : round53 (round53 n) = round53 n := by
  rcases Nat.lt_or_ge n (2 ^ 53) with small | large
  · rw [round53_small small, round53_small small]
  · have nonzero : n ≠ 0 := by rintro rfl; simp at large
    have log : 53 ≤ Nat.log2 n := (Nat.le_log2 nonzero).2 large
    have exponent : Nat.log2 n = scale n + 52 := by simp only [scale]; omega
    have low : 2 ^ 52 ≤ n / 2 ^ scale n := by
      rw [Nat.le_div_iff_mul_le (by positivity), ← Nat.pow_add]
      have := Nat.log2_self_le nonzero
      rwa [exponent, Nat.add_comm] at this
    have high : n / 2 ^ scale n < 2 ^ 53 := by
      rw [Nat.div_lt_iff_lt_mul (by positivity), ← Nat.pow_add]
      have := Nat.lt_log2_self (n := n)
      rwa [exponent, show scale n + 52 + 1 = 53 + scale n by omega] at this
    have lower := halfEven_le n (2 ^ scale n)
    have upper := halfEven_le_succ n (2 ^ scale n)
    rcases Nat.lt_or_ge (halfEven n (2 ^ scale n)) (2 ^ 53) with fits | carried
    · exact round53_scaled (by omega) fits
    · have carry : halfEven n (2 ^ scale n) = 2 ^ 52 * 2 := by omega
      have shifted : round53 n = 2 ^ 52 * 2 ^ (scale n + 1) := by rw [round53, carry]; ring
      rw [shifted]
      exact round53_scaled (by norm_num) (by norm_num)

theorem round53_eq_of_small {m n : Nat} (rounded : round53 m = n) (small : n < 2 ^ 53) : m = n := by
  rcases Nat.lt_or_ge m (2 ^ 53) with below | above
  · rw [← rounded, round53_small below]
  · have nonzero : m ≠ 0 := by rintro rfl; simp at above
    have log : 53 ≤ Nat.log2 m := (Nat.le_log2 nonzero).2 above
    have exponent : Nat.log2 m = scale m + 52 := by simp only [scale]; omega
    have low : 2 ^ 52 ≤ m / 2 ^ scale m := by
      rw [Nat.le_div_iff_mul_le (by positivity), ← Nat.pow_add]
      have := Nat.log2_self_le nonzero
      rwa [exponent, Nat.add_comm] at this
    have factor : 2 ≤ 2 ^ scale m := Nat.le_self_pow (by omega) 2
    have : 2 ^ 52 * 2 ≤ round53 m := Nat.mul_le_mul (low.trans (halfEven_le _ _)) factor
    omega

end Rounding

open Rounding

inductive Double where
  | finite (n : Nat) (exact : round53 n = n) (bounded : n < 2 ^ 1024)
  | infinity
  deriving DecidableEq

namespace Double
open Utf16

def ofNat (n : Nat) : Double :=
  if bounded : round53 n < 2 ^ 1024 then finite (round53 n) (round53_idem n) bounded else infinity

def times (k : Nat) : Double → Double
  | finite n _ _ => ofNat (n * k)
  | infinity => infinity

def isMultipleOf (k : Nat) : Double → Bool
  | finite n _ _ => n % k == 0
  | infinity => false

def dividedBy (k : Nat) : Double → Double
  | finite n _ _ => ofNat (n / k)
  | infinity => infinity

def quotient (n k : Nat) : Nat × Nat :=
  let e := 52 - Nat.log2 (n / k)
  if 52 < Nat.log2 (n / k) then (halfEven n (k * 2 ^ scale (n / k)) * 2 ^ scale (n / k), 0)
  else (halfEven (n * 2 ^ e) k, e)

def roundedQuotient (k : Nat) : Double → Double
  | finite n _ _ =>
      let (m, e) := quotient n k
      ofNat ((2 * m + 2 ^ e) / (2 * 2 ^ e))
  | infinity => infinity

def isPositive : Double → Bool
  | finite n _ _ => decide (0 < n)
  | infinity => true

def isAtMost (k : Nat) : Double → Bool
  | finite n _ _ => decide (n ≤ k)
  | infinity => false

/-- The numbers of `k` significant digits next to `n`, which has `length` digits, that read back as `n`, the
closest first. -/
def roundings (n length k : Nat) : List Nat :=
  let unit := 10 ^ (length - k)
  let below := n / unit * unit
  let near := if 2 * (n - below) ≤ unit then [below, below + unit] else [below + unit, below]
  near.filter fun m => round53 m == n

def shortest (n : Nat) : Nat :=
  let length := (Nat.toDigits 10 n).length
  (((List.range length).map (· + 1)).findSome? fun k => (roundings n length k).head?).getD n

def exponential (n : Nat) : Utf16 :=
  let digits := Nat.toDigits 10 n
  let tail := (digits.tail.reverse.dropWhile (· == '0')).reverse
  (digits.take 1 ++ (if tail.isEmpty then [] else '.' :: tail)).map unit ++ ofString "e+" ++ decimal (digits.length - 1)

def toText : Double → Utf16
  | finite n _ _ => if n < 10 ^ 21 then decimal (shortest n) else exponential (shortest n)
  | infinity => ofString "Infinity"

def parseInt (s : Utf16) : Option (Bool × Double) :=
  let (negative, body) := match trimStart s with
    | u :: rest => if u == unit '-' then (true, rest) else if u == unit '+' then (false, rest) else (false, u :: rest)
    | [] => (false, [])
  match body.takeWhile isDigit with
  | [] => none
  | digits => some (negative, ofNat (numeral digits))

theorem ofNat_eq (n : Nat) (bounded : round53 n < 2 ^ 1024) :
    ofNat n = finite (round53 n) (round53_idem n) bounded := dif_pos bounded

theorem ofNat_exact {n : Nat} (exact : round53 n = n) (bounded : n < 2 ^ 1024) : ofNat n = finite n exact bounded := by
  rw [ofNat_eq n (exact.symm ▸ bounded)]
  simp only [exact]

theorem two_pow_lt : 2 ^ 53 < 2 ^ 1024 := by gcongr <;> decide

theorem ofNat_small {n : Nat} (small : n < 2 ^ 53) :
    ofNat n = finite n (round53_small small) (small.trans two_pow_lt) := ofNat_exact _ _

theorem eq_of_mem_roundings {n length k m : Nat} (small : n < 2 ^ 53) (mem : m ∈ roundings n length k) : m = n :=
  round53_eq_of_small (by simpa using (List.mem_filter.mp mem).2) small

theorem shortest_small {n : Nat} (small : n < 2 ^ 53) : shortest n = n := by
  rw [shortest]
  cases found : ((List.range (Nat.toDigits 10 n).length).map (· + 1)).findSome? fun k =>
      (roundings n (Nat.toDigits 10 n).length k).head? with
  | none => simp
  | some m =>
      obtain ⟨k, -, first⟩ := List.exists_of_findSome?_eq_some found
      have := eq_of_mem_roundings small (List.mem_of_mem_head? first)
      simpa using this

theorem round53_shortest {n : Nat} (exact : round53 n = n) : round53 (shortest n) = n := by
  rw [shortest]
  cases found : ((List.range (Nat.toDigits 10 n).length).map (· + 1)).findSome? fun k =>
      (roundings n (Nat.toDigits 10 n).length k).head? with
  | none => exact exact
  | some m =>
      obtain ⟨k, -, first⟩ := List.exists_of_findSome?_eq_some found
      simpa using (List.mem_filter.mp (List.mem_of_mem_head? first)).2

theorem toText_plain {x : Double} (plain : x.isAtMost (10 ^ 21 - 1) = true) : ∃ k, x.toText = decimal k ∧ ofNat k = x := by
  cases x with
  | infinity => cases plain
  | finite n exact bounded =>
      have small : n < 10 ^ 21 := by
        simp only [isAtMost, decide_eq_true_eq] at plain
        omega
      have back := round53_shortest exact
      refine ⟨shortest n, by rw [toText, if_pos small], ?_⟩
      rw [ofNat_eq _ (back.symm ▸ bounded)]
      simp only [back]

theorem toText_small {n : Nat} (exact : round53 n = n) (bounded : n < 2 ^ 1024) (small : n < 2 ^ 53) :
    (finite n exact bounded).toText = decimal n := by
  rw [toText, if_pos (by omega), shortest_small small]

theorem isDigit_ne {u v : CodeUnit} (digit : isDigit u = true) (other : isDigit v = false) : (u == v) = false := by
  rw [beq_eq_false_iff_ne]
  rintro rfl
  exact absurd digit (by simp [other])

theorem parseInt_digits {digits : Utf16} (some_ : digits ≠ []) (all : ∀ u ∈ digits, isDigit u = true) :
    parseInt digits = some (false, ofNat (numeral digits)) := by
  obtain ⟨u, rest, rfl⟩ := List.exists_cons_of_ne_nil some_
  have first := all u List.mem_cons_self
  have noSpace : isSpace u = false := by
    simp only [isDigit, isSpace, UInt16.le_iff_toNat_le, Bool.and_eq_true, decide_eq_true_eq] at first ⊢
    simp only [Bool.or_eq_false_iff, Bool.and_eq_false_iff, decide_eq_false_iff_not, beq_eq_false_iff_ne, ne_eq,
      ← UInt16.toNat_inj]
    simp at first ⊢
    omega
  have start : trimStart (u :: rest) = u :: rest := by simp [trimStart, noSpace]
  have whole : (u :: rest).takeWhile isDigit = u :: rest := List.takeWhile_eq_self_iff.mpr all
  simp only [parseInt, start, isDigit_ne first (v := unit '-') (by decide), isDigit_ne first (v := unit '+') (by decide),
    Bool.false_eq_true, if_false]
  simp only [whole]

theorem parseInt_decimal (n : Nat) : parseInt (decimal n) = some (false, ofNat n) := by
  rw [parseInt_digits (decimal_ne_nil n) fun u mem => isDigit_of_mem_decimal mem, numeral_decimal]

end Double

end Errex.Foundation
