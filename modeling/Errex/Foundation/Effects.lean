import Mathlib.Data.Fintype.Basic
import Mathlib.Tactic

/-!
# Effects that run again

Effects over a state that is made of sources. A scheduler remembers what each effect read when it ran last; once one of
these sources is set, the effect is dirty, and dirty effects run again, in any order, until there are none.
-/

namespace Errex.Foundation

/-- What a run of an effect leaves, the sources that it read and those that it set to another value. -/
structure EffectRun (σ κ : Type) where
  after : σ
  reads : Finset κ
  sets : Finset κ

structure Scheduler (ι σ κ : Type) where
  state : σ
  reads : ι → Finset κ
  dirty : Finset ι

namespace Scheduler

variable {ι σ κ : Type} [DecidableEq ι] [Fintype ι] [DecidableEq κ] (effects : ι → σ → EffectRun σ κ)

def start (s : σ) : Scheduler ι σ κ := ⟨s, fun _ => ∅, ∅⟩

def run (sch : Scheduler ι σ κ) (i : ι) : Scheduler ι σ κ :=
  let r := effects i sch.state
  let reads := Function.update sch.reads i r.reads
  ⟨r.after, reads, sch.dirty.erase i ∪ Finset.univ.filter fun j => ¬ Disjoint (reads j) r.sets⟩

def mount (order : List ι) (s : σ) : Scheduler ι σ κ := order.foldl (run effects) (start s)

inductive Flushes : Scheduler ι σ κ → Scheduler ι σ κ → Prop
  | done (sch : Scheduler ι σ κ) : Flushes sch sch
  | again {sch sch' : Scheduler ι σ κ} {i : ι} (mem : i ∈ sch.dirty) (rest : Flushes (sch.run effects i) sch') :
      Flushes sch sch'

/-- Effects run again until none is dirty. -/
def Settles (sch sch' : Scheduler ι σ κ) : Prop := Flushes effects sch sch' ∧ sch'.dirty = ∅

variable {effects} {sch sch' : Scheduler ι σ κ} {i : ι}

theorem mem_dirty_run {j : ι} : j ∈ (sch.run effects i).dirty ↔
    (j ≠ i ∧ j ∈ sch.dirty) ∨
      ¬ Disjoint (Function.update sch.reads i (effects i sch.state).reads j) (effects i sch.state).sets := by
  simp [run]

theorem dirty_run_of_silent (silent : (effects i sch.state).sets = ∅) : (sch.run effects i).dirty = sch.dirty.erase i := by
  simp [run, silent]

theorem flushes_iff_of_quiet (quiet : sch.dirty = ∅) : Flushes effects sch sch' ↔ sch' = sch := by
  constructor
  · intro flushes
    cases flushes with
    | done => rfl
    | again mem rest =>
        rw [quiet] at mem
        cases mem
  · rintro rfl
    exact .done sch'

theorem settles_iff_of_single (single : sch.dirty = {i}) (silent : (effects i sch.state).sets = ∅) :
    Settles effects sch sch' ↔ sch' = sch.run effects i := by
  have quiet : (sch.run effects i).dirty = ∅ := by
    rw [dirty_run_of_silent silent, single, Finset.erase_singleton]
  constructor
  · rintro ⟨flushes, settled⟩
    cases flushes with
    | done =>
        rw [single] at settled
        cases Finset.singleton_ne_empty i settled
    | again mem rest =>
        rw [single, Finset.mem_singleton] at mem
        subst mem
        exact (flushes_iff_of_quiet quiet).mp rest
  · rintro rfl
    exact ⟨.again (by rw [single]; exact Finset.mem_singleton_self i) (.done _), quiet⟩

end Scheduler

end Errex.Foundation
