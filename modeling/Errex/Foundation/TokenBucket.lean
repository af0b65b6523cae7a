import Mathlib.Tactic

/-!
# Token buckets

A bucket gains tokens at a constant rate up to its capacity, and an action takes one.
`Covers.within_le_capacity` is the law of such buckets: of the actions that find their tokens, no
interval has more than the capacity and the gain of the interval.
-/

namespace Errex.Foundation.TokenBucket

structure Meter (K : Type) where
  capacity : K
  rate : K

structure Bucket (K : Type) where
  tokens : K
  last : K

variable {K : Type}

section Interval

variable [LinearOrder K] {times : List K} {start stop now : K}

def within (start stop : K) (times : List K) : Nat :=
  times.countP fun now => decide (start ≤ now ∧ now ≤ stop)

theorem within_cons_of_mem (low : start ≤ now) (high : now ≤ stop) (times : List K) :
    within start stop (now :: times) = within start stop times + 1 :=
  List.countP_cons_of_pos (by simp [low, high])

theorem within_cons_of_lt (before : now < start) (stop : K) (times : List K) :
    within start stop (now :: times) = within start stop times :=
  List.countP_cons_of_neg (by simp [before])

theorem within_cons_of_gt (start : K) (after : stop < now) (times : List K) :
    within start stop (now :: times) = within start stop times :=
  List.countP_cons_of_neg (by simp [after])

theorem within_eq_of_le {first : K} (low : start ≤ first) (later : ∀ t ∈ times, first ≤ t) (stop : K) :
    within start stop times = within first stop times := by
  apply List.countP_congr
  intro t mem
  simp [later t mem, low.trans (later t mem)]

end Interval

variable [Field K] [LinearOrder K]

def level (m : Meter K) (b : Bucket K) (now : K) : K := min (b.tokens + (now - b.last) * m.rate) m.capacity

def refill (m : Meter K) (b : Bucket K) (now : K) : Bucket K := ⟨level m b now, now⟩

def take (m : Meter K) (b : Bucket K) (now : K) : Bucket K := ⟨level m b now - 1, now⟩

/-- Each of the actions finds a token. -/
def Covers (m : Meter K) (b : Bucket K) : List K → Prop
  | [] => True
  | now :: times => 1 ≤ level m b now ∧ Covers m (take m b now) times

/-- The actions that find a token, when the others are turned away. -/
def granted (m : Meter K) (b : Bucket K) : List K → List K
  | [] => []
  | now :: times =>
      if 1 ≤ level m b now then now :: granted m (take m b now) times
      else granted m (refill m b now) times

def full (m : Meter K) (now : K) : Bucket K := ⟨m.capacity, now⟩

variable {m : Meter K} {b b' : Bucket K} {times : List K} {start stop now : K}

theorem level_le_capacity (m : Meter K) (b : Bucket K) (now : K) : level m b now ≤ m.capacity := min_le_right _ _

theorem granted_sublist (m : Meter K) (b : Bucket K) (times : List K) : (granted m b times).Sublist times := by
  induction times generalizing b with
  | nil => exact .slnil
  | cons t times ih =>
      rw [granted]
      split_ifs
      · exact (ih _).cons_cons t
      · exact (ih _).cons t

variable [IsStrictOrderedRing K]

@[simp] theorem level_full (gains : 0 ≤ m.rate) (later : start ≤ now) : level m (full m start) now = m.capacity := by
  simp only [level, full, min_eq_right_iff]
  nlinarith [mul_nonneg (sub_nonneg.mpr later) gains]

theorem level_refill (gains : 0 ≤ m.rate) (later : now ≤ stop) :
    level m (refill m b now) stop = level m b stop := by
  have gain : 0 ≤ (stop - now) * m.rate := mul_nonneg (sub_nonneg.mpr later) gains
  simp only [level, refill, min_add, min_assoc]
  rw [min_eq_right (show m.capacity ≤ m.capacity + (stop - now) * m.rate by linarith)]
  congr 1
  ring

theorem level_mono (gains : 0 ≤ m.rate) (later : now ≤ stop) : level m b now ≤ level m b stop := by
  apply min_le_min_right
  linarith [mul_le_mul_of_nonneg_right (sub_le_sub_right later b.last) gains]

theorem le_level_take (found : 1 ≤ level m b now) (gained : 1 ≤ (stop - now) * m.rate) (room : 1 ≤ m.capacity) :
    1 ≤ level m (take m b now) stop := by
  simp only [level, take] at found ⊢
  exact le_min (by linarith) room

theorem level_take_mono (le : level m b now ≤ level m b' now) (stop : K) :
    level m (take m b now) stop ≤ level m (take m b' now) stop := by
  simp only [level, take] at le ⊢
  apply min_le_min_right
  linarith

theorem Covers.mono (fuller : ∀ t ∈ times, level m b t ≤ level m b' t)
    (ordered : times.Pairwise (· ≤ ·)) (covers : Covers m b times) : Covers m b' times := by
  induction times generalizing b b' with
  | nil => trivial
  | cons t times ih =>
      obtain ⟨later, ordered⟩ := List.pairwise_cons.mp ordered
      have first := fuller t (by simp)
      exact ⟨covers.1.trans first, ih (fun u mem => level_take_mono first u) ordered covers.2⟩

theorem Covers.within_le (gains : 0 ≤ m.rate) (covers : Covers m b times)
    (ordered : (b.last :: times).Pairwise (· ≤ ·)) (held : 0 ≤ b.tokens) (later : b.last ≤ stop) :
    (within b.last stop times : K) ≤ b.tokens + (stop - b.last) * m.rate := by
  induction times generalizing b with
  | nil => simpa [within] using add_nonneg held (mul_nonneg (sub_nonneg.mpr later) gains)
  | cons t times ih =>
      obtain ⟨after, ordered⟩ := List.pairwise_cons.mp ordered
      have first := after t (by simp)
      have least : level m b t ≤ b.tokens + (t - b.last) * m.rate := min_le_left _ _
      by_cases inside : t ≤ stop
      · have rest := ih covers.2 ordered (sub_nonneg.mpr covers.1) inside
        rw [within_cons_of_mem first inside, within_eq_of_le first (List.pairwise_cons.mp ordered).1]
        push_cast
        simp only [take] at rest
        linarith
      · rw [within_cons_of_gt _ (not_le.mp inside),
          within_eq_of_le first (List.pairwise_cons.mp ordered).1,
          show within t stop times = 0 from List.countP_eq_zero.mpr fun u mem => by
            simp [lt_of_lt_of_le (not_le.mp inside) ((List.pairwise_cons.mp ordered).1 u mem)]]
        simpa using add_nonneg held (mul_nonneg (sub_nonneg.mpr later) gains)

theorem Covers.within_le_capacity (gains : 0 ≤ m.rate) (covers : Covers m b times)
    (ordered : times.Pairwise (· ≤ ·)) (room : 0 ≤ m.capacity) (order : start ≤ stop) :
    (within start stop times : K) ≤ m.capacity + (stop - start) * m.rate := by
  have gain : 0 ≤ (stop - start) * m.rate := mul_nonneg (sub_nonneg.mpr order) gains
  induction times generalizing b with
  | nil => simpa [within] using add_nonneg room gain
  | cons t times ih =>
      obtain ⟨after, rest⟩ := List.pairwise_cons.mp ordered
      by_cases early : t < start
      · rw [within_cons_of_lt early]
        exact ih covers.2 rest
      · have low := not_lt.mp early
        have first : ∀ u ∈ t :: times, t ≤ u := by simpa using after
        rw [within_eq_of_le low first]
        by_cases inside : t ≤ stop
        · have suffix := covers.2.within_le gains ordered (sub_nonneg.mpr covers.1) inside
          have least := level_le_capacity m b t
          have span : (stop - t) * m.rate ≤ (stop - start) * m.rate :=
            mul_le_mul_of_nonneg_right (by linarith) gains
          rw [within_cons_of_mem le_rfl inside]
          push_cast
          simp only [take] at suffix
          linarith
        · rw [within_cons_of_gt _ (not_le.mp inside),
            show within t stop times = 0 from List.countP_eq_zero.mpr fun u mem => by
              simp [lt_of_lt_of_le (not_le.mp inside) (after u mem)]]
          simpa using add_nonneg room gain

theorem covers_granted (gains : 0 ≤ m.rate) (ordered : times.Pairwise (· ≤ ·)) :
    Covers m b (granted m b times) := by
  induction times generalizing b with
  | nil => trivial
  | cons t times ih =>
      obtain ⟨after, ordered⟩ := List.pairwise_cons.mp ordered
      by_cases found : 1 ≤ level m b t
      · rw [granted, if_pos found]
        exact ⟨found, ih ordered⟩
      · rw [granted, if_neg found]
        refine (ih ordered).mono (fun u mem => ?_) (ordered.sublist (granted_sublist m _ times))
        exact (level_refill gains (after u ((granted_sublist m _ times).subset mem))).le

end Errex.Foundation.TokenBucket
