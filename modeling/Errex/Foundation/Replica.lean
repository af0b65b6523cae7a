import Errex.Foundation.Table

/-!
# Replicas

A replica of a keyed store starts from a snapshot and replays updates. An update replaces what the
replica has under its key, so of the updates of one key only the latest counts: a snapshot may be
newer than some of the updates that are replayed over it, as long as the latest ones are not older.
-/

namespace Errex.Foundation.Replica

variable {ν κ ρ : Type} [DecidableEq κ] (key : ν → κ)

def latest (k : κ) : List ν → Option ν
  | [] => none
  | update :: rest => (latest k rest).or (if key update = k then some update else none)

def replay (replica : κ → Option ν) (updates : List ν) (k : κ) : Option ν :=
  (latest key k updates).or (replica k)

variable (reads : ν → ρ → Prop)

/-- Under every key, the replica has a reading of the row of the store. -/
def Mirrors (replica : κ → Option ν) (store : κ → Option ρ) : Prop :=
  ∀ k, Option.Rel reads (replica k) (store k)

def Current (updates : List ν) (store : κ → Option ρ) : Prop :=
  ∀ k update, latest key k updates = some update → ∃ row, store k = some row ∧ reads update row

/-- A change of the store together with updates that tell all of it. -/
structure Announces (updates : List ν) (before after : κ → Option ρ) : Prop where
  current : Current key reads updates after
  others : ∀ k, latest key k updates = none → after k = before k

variable {key reads} {k : κ} {replica : κ → Option ν} {before between after store : κ → Option ρ}
  {older newer updates : List ν}

theorem latest_append : latest key k (older ++ newer) = (latest key k newer).or (latest key k older) := by
  induction older with
  | nil => simp [latest]
  | cons update older ih => rw [List.cons_append, latest, ih, latest, Option.or_assoc]

theorem mem_of_latest {update : ν} (found : latest key k updates = some update) :
    update ∈ updates ∧ key update = k := by
  induction updates with
  | nil => cases found
  | cons first rest ih =>
      rcases Option.or_eq_some_iff.mp found with later | ⟨-, here⟩
      · exact ⟨List.mem_cons_of_mem _ (ih later).1, (ih later).2⟩
      · split_ifs at here with same
        obtain rfl := Option.some.inj here
        exact ⟨List.mem_cons_self, same⟩

theorem latest_eq_none_iff : latest key k updates = none ↔ ∀ update ∈ updates, key update ≠ k := by
  induction updates with
  | nil => simp [latest]
  | cons first rest ih => simp [latest, ih, and_comm]

theorem replay_append : replay key replica (older ++ newer) = replay key (replay key replica older) newer := by
  funext k
  rw [replay, latest_append, Option.or_assoc]
  rfl

theorem Announces.refl : Announces key reads [] store store where
  current _ _ found := by cases found
  others _ _ := rfl

theorem Announces.single {update : ν} {row : ρ} (written : after (key update) = some row) (read : reads update row)
    (others : ∀ k, key update ≠ k → after k = before k) : Announces key reads [update] before after where
  current k found h := by
    obtain ⟨mem, rfl⟩ := mem_of_latest h
    obtain rfl := List.mem_singleton.mp mem
    exact ⟨row, written, read⟩
  others k none := others k (latest_eq_none_iff.mp none update (List.mem_singleton_self update))

theorem Current.announce (current : Current key reads older before)
    (announced : Announces key reads newer before after) : Current key reads (older ++ newer) after := by
  intro k update found
  rw [latest_append] at found
  rcases Option.or_eq_some_iff.mp found with new | ⟨none, old⟩
  · exact announced.current k update new
  · rw [announced.others k none]
    exact current k update old

theorem Announces.trans (first : Announces key reads older before between)
    (second : Announces key reads newer between after) : Announces key reads (older ++ newer) before after where
  current := first.current.announce second
  others k none := by
    rw [latest_append] at none
    obtain ⟨new, old⟩ := Option.or_eq_none_iff.mp none
    rw [second.others k new, first.others k old]

theorem Current.nil : Current key reads [] store := fun _ _ found => by cases found

theorem Mirrors.announce (mirrors : Mirrors reads replica before) (announced : Announces key reads updates before after) :
    Mirrors reads (replay key replica updates) after := by
  intro k
  rw [replay]
  cases found : latest key k updates with
  | some update =>
      obtain ⟨row, stored, read⟩ := announced.current k update found
      rw [stored]
      exact .some read
  | none =>
      rw [announced.others k found]
      exact mirrors k

/-- Over a snapshot of the store, older updates that are current do no harm. -/
theorem Mirrors.replay (mirrors : Mirrors reads replica store) (current : Current key reads updates store) :
    Mirrors reads (replay key replica updates) store :=
  mirrors.announce ⟨current, fun _ _ => rfl⟩

theorem mirrors_snapshot {snapshot : List ν}
    (rows : ∀ update ∈ snapshot, ∃ row, store (key update) = some row ∧ reads update row)
    (complete : ∀ k row, store k = some row → ∃ update ∈ snapshot, key update = k) :
    Mirrors reads (latest key · snapshot) store := by
  intro k
  show Option.Rel reads (latest key k snapshot) (store k)
  cases found : latest key k snapshot with
  | some update =>
      obtain ⟨mem, rfl⟩ := mem_of_latest found
      obtain ⟨row, stored, read⟩ := rows update mem
      rw [stored]
      exact .some read
  | none =>
      cases stored : store k with
      | none => exact .none
      | some row =>
          obtain ⟨update, mem, same⟩ := complete k row stored
          exact absurd same (latest_eq_none_iff.mp found update mem)

theorem find?_foldl_set (t : Table ν κ key) (rows : List ν) :
    (rows.foldl Table.set t).find? = replay key t.find? rows := by
  induction rows generalizing t with
  | nil => rfl
  | cons row rows ih =>
      have first : (t.set row).find? = replay key t.find? [row] := by
        funext k
        rw [Table.find?_set, replay, latest, latest]
        split_ifs <;> rfl
      rw [List.foldl_cons, ih, first, ← replay_append]
      rfl

end Errex.Foundation.Replica
