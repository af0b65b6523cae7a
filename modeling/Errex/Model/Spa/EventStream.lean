import Mathlib.Tactic

/-!
# Arrivals in the SPA

`eventStream.svelte.ts`: the two bounded buffers of arrival times, in milliseconds, and what is counted in them.
-/

namespace Errex.Model.Spa.EventStream

def HOUR_MS : ℚ := 60 * 60 * 1000

def HALF_HOUR_MS : ℚ := 30 * 60 * 1000

def prune (arr : List ℚ) (cutoff : ℚ) : List ℚ := arr.dropWhile fun t => decide (t < cutoff)

def countAfter (arr : List ℚ) (cutoff : ℚ) : Nat := (arr.reverse.takeWhile fun t => decide (cutoff ≤ t)).length

structure EventStreamStore where
  global : List ℚ
  perIssue : Int → Option (List ℚ)
  lastAt : Option ℚ

def recent (arr : List ℚ) (window now : ℚ) : Nat := countAfter arr (now - window)

def prior (arr : List ℚ) (window now : ℚ) : Int := countAfter arr (now - 2 * window) - recent arr window now

def count (slots : Nat) (start bucketMs : ℚ) (out : List Nat) (t : ℚ) : List Nat :=
  if t < start then out else out.modify (min (slots - 1) ⌊(t - start) / bucketMs⌋.toNat) (· + 1)

namespace EventStreamStore

def record (s : EventStreamStore) (issueId : Int) (when : ℚ) : EventStreamStore where
  lastAt := some when
  global := prune (s.global ++ [when]) (when - HOUR_MS)
  perIssue id :=
    if id = issueId then some (prune ((s.perIssue issueId).getD [] ++ [when]) (when - HALF_HOUR_MS)) else s.perIssue id

def clear (_ : EventStreamStore) : EventStreamStore := ⟨[], fun _ => none, none⟩

def ratePerMin (s : EventStreamStore) (window now : ℚ) : ℚ := countAfter s.global (now - window) / window * 60000

def isSpiking (s : EventStreamStore) (issueId : Int) (factor window now : ℚ) : Bool :=
  match s.perIssue issueId with
  | none => false
  | some arr =>
      if arr.length < 6 then false
      else decide (5 ≤ recent arr window now ∧ factor * max (prior arr window now) 1 ≤ recent arr window now)

def buckets (s : EventStreamStore) (issueId : Int) (slots : Nat) (window now : ℚ) : List Nat :=
  let out := List.replicate slots 0
  match s.perIssue issueId with
  | none => out
  | some arr => arr.foldl (count slots (now - window) (window / slots)) out

end EventStreamStore

end Errex.Model.Spa.EventStream
