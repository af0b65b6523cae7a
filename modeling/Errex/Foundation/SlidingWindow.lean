import Mathlib.Tactic

/-!
# Sliding windows

A bound on how many of a growing list of instants fall into any window of one length. A gate keeps it
by admitting a new instant only when few of the old ones lie within one length before it.
-/

namespace Errex.Foundation.SlidingWindow

variable {τ : Type} [LinearOrder τ]

def since (start : τ) (times : List τ) : Nat := times.countP (start ≤ ·)

variable {start now : τ} {times : List τ}

theorem since_append (more : List τ) : since start (times ++ more) = since start times + since start more :=
  List.countP_append

theorem since_singleton_le : since start [now] ≤ 1 := List.countP_le_length

theorem since_eq_zero_iff : since start times = 0 ↔ ∀ t ∈ times, t < start := by
  simp [since, List.countP_eq_zero]

theorem since_antitone {later : τ} (le : start ≤ later) : since later times ≤ since start times := by
  apply List.countP_mono_left
  intro t _ after
  simp only [decide_eq_true_eq] at after ⊢
  exact le.trans after

theorem since_dropWhile {cutoff : τ} (le : cutoff ≤ start) (times : List τ) :
    since start (times.dropWhile (· < cutoff)) = since start times := by
  induction times with
  | nil => rfl
  | cons t times ih =>
      by_cases early : t < cutoff
      · rw [List.dropWhile_cons_of_pos (by simpa using early), ih, since, since,
          List.countP_cons_of_neg (by simpa using early.trans_le le)]
      · rw [List.dropWhile_cons_of_neg (by simpa using early)]

theorem length_takeWhile_reverse (ordered : times.Pairwise (· ≤ ·)) (start : τ) :
    (times.reverse.takeWhile (start ≤ ·)).length = since start times := by
  induction times using List.reverseRecOn with
  | nil => rfl
  | append_singleton times t ih =>
      obtain ⟨before, -, last⟩ := List.pairwise_append.mp ordered
      rw [since_append, List.reverse_append, List.reverse_singleton, List.singleton_append]
      by_cases late : start ≤ t
      · have one : since start [t] = 1 := by simp [since, late]
        rw [List.takeWhile_cons_of_pos (by simpa using late), List.length_cons, ih before, one]
      · have none_ : since start (times ++ [t]) = 0 := by
          rw [since_eq_zero_iff]
          intro u mem
          rcases List.mem_append.mp mem with old | new
          · exact (last u old t (List.mem_singleton.mpr rfl)).trans_lt (not_le.mp late)
          · rw [List.mem_singleton.mp new]
            exact not_le.mp late
        rw [List.takeWhile_cons_of_neg (by simpa using late), ← since_append, none_]
        rfl

section
variable {τ : Type} [AddCommGroup τ] [LinearOrder τ]

/-- A buffer holds instants of a history, and all those that lie within the horizon of its last one. -/
structure Buffers (horizon : τ) (history buffer : List τ) : Prop where
  sublist : buffer.Sublist history
  agrees : ∀ start, (∀ t ∈ history, t - horizon ≤ start) → since start buffer = since start history

theorem Buffers.nil (horizon : τ) : Buffers horizon ([] : List τ) [] := ⟨List.Sublist.refl _, fun _ _ => rfl⟩

theorem Buffers.push {horizon : τ} {history buffer : List τ} (buffers : Buffers horizon history buffer) (now : τ) :
    Buffers horizon (history ++ [now]) ((buffer ++ [now]).dropWhile (· < now - horizon)) where
  sublist := (List.dropWhile_sublist _).trans (buffers.sublist.append_right [now])
  agrees start reach := by
    have last := reach now (List.mem_append_right _ (List.mem_singleton.mpr rfl))
    rw [since_dropWhile last, since_append, since_append,
      buffers.agrees start fun t mem => reach t (List.mem_append_left _ mem)]

theorem Buffers.length_takeWhile_reverse [IsOrderedAddMonoid τ] {horizon now : τ} {history buffer : List τ} (buffers : Buffers horizon history buffer)
    (ordered : history.Pairwise (· ≤ ·)) (later : ∀ t ∈ history, t ≤ now) {window : τ} (inside : window ≤ horizon) :
    (buffer.reverse.takeWhile (now - window ≤ ·)).length = since (now - window) history := by
  rw [SlidingWindow.length_takeWhile_reverse (ordered.sublist buffers.sublist)]
  exact buffers.agrees _ fun t mem => sub_le_sub (later t mem) inside

end

variable [Add τ]

def within (span start : τ) (times : List τ) : Nat := times.countP fun t => start ≤ t ∧ t ≤ start + span

def Bounded (span : τ) (limit : Nat) (times : List τ) : Prop := ∀ start, within span start times ≤ limit

variable {span : τ} {limit : Nat}

theorem within_le_since : within span start times ≤ since start times := by
  apply List.countP_mono_left
  intro t _ inside
  simp only [decide_eq_true_eq] at inside ⊢
  exact inside.1

theorem Bounded.nil : Bounded span limit ([] : List τ) := fun _ => Nat.zero_le _

theorem Bounded.append (bounded : Bounded span limit times) {mark : τ} (few : since mark times < limit)
    (reach : ∀ start, now ≤ start + span → mark ≤ start) : Bounded span limit (times ++ [now]) := by
  intro start
  by_cases inside : now ≤ start + span
  · calc within span start (times ++ [now]) ≤ since start (times ++ [now]) := within_le_since
      _ = since start times + since start [now] := since_append [now]
      _ ≤ since mark times + 1 := Nat.add_le_add (since_antitone (reach start inside)) since_singleton_le
      _ ≤ limit := few
  · have out : within span start [now] = 0 := by simp [within, inside]
    have old : within span start (times ++ [now]) = within span start times := by
      rw [within, List.countP_append]
      exact congrArg _ out
    rw [old]
    exact bounded start

end Errex.Foundation.SlidingWindow
