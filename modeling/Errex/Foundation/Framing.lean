import Mathlib.Tactic

/-!
# Terminated fields

Fields one after another, each ended by a mark that none of them contains, can be told apart.
-/

namespace Errex.Foundation.Framing

variable {α : Type} [DecidableEq α]

def frame (stop : α) (fields : List (List α)) : List α := fields.flatMap (· ++ [stop])

def unframe (stop : α) : List α → Option (List (List α))
  | [] => some []
  | a :: s =>
      if a = stop then (unframe stop s).map ([] :: ·)
      else
        match unframe stop s with
        | some (field :: fields) => some ((a :: field) :: fields)
        | _ => none

variable {stop : α} {fields : List (List α)} {s : List α}

omit [DecidableEq α] in
theorem frame_cons (field : List α) (fields : List (List α)) :
    frame stop (field :: fields) = field ++ stop :: frame stop fields := by
  rw [frame, List.flatMap_cons, List.append_assoc]
  rfl

theorem unframe_append {field : List α} (clear : stop ∉ field) (s : List α) :
    unframe stop (field ++ stop :: s) = (unframe stop s).map (field :: ·) := by
  induction field with
  | nil => simp [unframe]
  | cons a field ih =>
      rw [List.mem_cons, not_or] at clear
      rw [List.cons_append, unframe, if_neg (Ne.symm clear.1), ih clear.2]
      cases unframe stop s <;> rfl

theorem unframe_frame (clear : ∀ field ∈ fields, stop ∉ field) : unframe stop (frame stop fields) = some fields := by
  induction fields with
  | nil => rfl
  | cons field fields ih =>
      rw [frame_cons, unframe_append (clear field (by simp)), ih fun f mem => clear f (by simp [mem])]
      rfl

theorem frame_unframe (read : unframe stop s = some fields) : s = frame stop fields := by
  induction s generalizing fields with
  | nil =>
      obtain rfl := Option.some.inj read
      rfl
  | cons a s ih =>
      rw [unframe] at read
      split_ifs at read with ended
      · obtain ⟨fields, rest, rfl⟩ := Option.map_eq_some_iff.mp read
        rw [frame_cons, ← ih rest, ended]
        rfl
      · split at read
        · rename_i field fields rest
          obtain rfl := Option.some.inj read
          rw [ih rest, frame_cons, frame_cons]
          rfl
        · cases read

end Errex.Foundation.Framing
