import Errex.Model.DigestTask
import Errex.Proof.Frame
import Errex.Proof.Issues.Upsert

/-!
# The order of the digest

Whatever is sent in between, the batches are the sent events in their order: none is lost, doubled or overtaken. A batch
that the store commits is broadcast event by event.
-/

namespace Errex.Proof.DigestTask
open Foundation Transaction Model Store Digest Issues

def About (event : IngestEvent) (result : UpsertResult) : Prop :=
  result.issue.project = event.project ∧ result.issue.fingerprint = event.fingerprint

theorem upsertedRow_key (input : UpsertInput) (db : Db) : (upsertedRow input db).key = input.key := by
  unfold upsertedRow
  split
  · rfl
  · rename_i old found
    exact (bumpIssue_key input _ old).trans (Table.key_of_find? found)

theorem upsertInput_about {now : UtcNow} {received : SqliteTime} {event : IngestEvent} {db db' : Db} {result : UpsertResult}
    (ok : upsertInput now received event.input db = .ok (result, db')) : About event result := by
  obtain ⟨⟨row, created, regressed⟩, db₁, upserted, rest⟩ := bind_eq_ok_iff.mp ok
  obtain ⟨_, db₂, -, done⟩ := bind_eq_ok_iff.mp rest
  obtain ⟨db₃, spec, -⟩ := upsertRow_spec event.input.toUpsertInput db
  have same : row = upsertedRow event.input.toUpsertInput db := by
    cases spec.symm.trans upserted
    rfl
  have key := upsertedRow_key event.input.toUpsertInput db
  rw [← same] at key
  cases done
  exact Prod.mk.inj key

theorem batch_about {now : UtcNow} {received : Nat → SqliteTime} {batch : List IngestEvent} {db db' : Db}
    {results : List UpsertResult}
    (ok : upsertBatchWithEvents now received (batch.map (·.input)) db = .ok (results, db')) :
    List.Forall₂ About batch results := by
  induction batch generalizing received db results with
  | nil =>
      cases ok
      exact .nil
  | cons event batch ih =>
      obtain ⟨result, db₁, first, rest⟩ := bind_eq_ok_iff.mp ok
      obtain ⟨results, db₂, later, done⟩ := bind_eq_ok_iff.mp rest
      cases done
      exact .cons (upsertInput_about first) (ih later)

def Announces (result : UpsertResult) (m : ServerMessage) : Prop :=
  if result.created then m = .issueCreated result.issue else m = .issueUpdated result.issue

/-- What a batch leads to: one result and one message for each event of a committed one, and nothing otherwise. -/
def Announced (round : Round) : Prop :=
  match round.answer with
  | .ok results => List.Forall₂ About round.batch results ∧ List.Forall₂ Announces results round.messages
  | .error _ => round.messages = []

theorem announces_message (result : UpsertResult) : Announces result (message result) := by
  unfold Announces message
  split_ifs <;> rfl

theorem announced_answer (w : World) (batch : List IngestEvent) (db : Db) :
    let reply := (transact w (upsertBatchWithEvents w.now w.received (batch.map (·.input))) db).1
    Announced ⟨batch, reply, broadcasts batch reply⟩ := by
  intro reply
  rcases answer : reply with error | results
  · exact rfl
  · have about := batch_about (transact_ok answer)
    refine ⟨about, ?_⟩
    have all : broadcasts batch (.ok results) = results.map message := by
      rw [broadcasts, ← Function.comp_def message, ← List.map_map]
      exact congrArg (List.map message) (List.map_snd_zip about.length_eq.ge)
    change List.Forall₂ Announces results (broadcasts batch (.ok results))
    rw [all, List.forall₂_map_right_iff, List.forall₂_same]
    exact fun result _ => announces_message result

def held (s : State) : List IngestEvent := if s.stage = .processing then [] else s.buffer

def Buffered (s : State) : Prop :=
  match s.stage with
  | .receiving => s.buffer = []
  | .draining => s.buffer ≠ [] ∧ s.buffer.length ≤ BATCH_SIZE
  | .processing => ∃ before, s.handed = before ++ [s.buffer]
  | .exited => s.buffer = [] ∧ s.channel = [] ∧ s.closed = true

def Answered (s : State) : Prop :=
  s.handed = s.rounds.map (·.batch) ++ if s.stage = .processing then [s.buffer] else []

structure Orderly (s : State) : Prop where
  conserved : s.handed.flatten ++ (held s ++ s.channel) = s.sent
  sizes : ∀ batch ∈ s.handed, batch ≠ [] ∧ batch.length ≤ BATCH_SIZE
  buffered : Buffered s
  answered : Answered s
  announced : ∀ round ∈ s.rounds, Announced round

theorem Orderly.initial (db : Db) : Orderly (.initial db) where
  conserved := rfl
  sizes := nofun
  buffered := rfl
  answered := rfl
  announced := nofun

section Steps

variable {s : State}

theorem Orderly.send (orderly : Orderly s) (capacity : Nat) (event : IngestEvent) :
    Orderly (step capacity s (.send event)) := by
  rw [step]
  split_ifs with refused
  · exact orderly
  · obtain ⟨-, running, -⟩ := not_or.mp refused |>.imp id not_or.mp
    refine ⟨?_, orderly.sizes, ?_, orderly.answered, orderly.announced⟩
    · rw [← orderly.conserved]
      simp [held]
    · have buffered := orderly.buffered
      unfold Buffered at buffered ⊢
      cases stage : s.stage with
      | exited => exact absurd stage running
      | receiving | draining | processing => simpa [stage] using buffered

theorem Orderly.close (orderly : Orderly s) (capacity : Nat) : Orderly (step capacity s .close) := by
  refine ⟨orderly.conserved, orderly.sizes, ?_, orderly.answered, orderly.announced⟩
  have buffered := orderly.buffered
  unfold Buffered at buffered ⊢
  cases stage : s.stage <;> simp_all [step]

theorem Orderly.recv (orderly : Orderly s) (capacity : Nat) : Orderly (step capacity s .recv) := by
  obtain ⟨conserved, sizes, buffered, answered, announced⟩ := orderly
  rw [step]
  split
  · rename_i first channel stage waiting
    rw [Buffered, stage] at buffered
    rw [Answered, stage, if_neg nofun] at answered
    rw [held, stage, if_neg nofun, waiting] at conserved
    refine ⟨?_, sizes, ?_, ?_, announced⟩
    · rw [← conserved]
      simp [held]
    · simp [Buffered, buffered, BATCH_SIZE]
    · simpa [Answered] using answered
  · rename_i stage empty
    split_ifs with closed
    · rw [Buffered, stage] at buffered
      rw [Answered, stage, if_neg nofun] at answered
      rw [held, stage, if_neg nofun] at conserved
      exact ⟨by simpa [held] using conserved, sizes, ⟨buffered, empty, closed⟩, by simpa [Answered] using answered, announced⟩
    · exact ⟨conserved, sizes, buffered, answered, announced⟩
  · exact ⟨conserved, sizes, buffered, answered, announced⟩

theorem Orderly.hand (orderly : Orderly s) (stage : s.stage = .draining) : Orderly (hand s) := by
  obtain ⟨conserved, sizes, buffered, answered, announced⟩ := orderly
  rw [Buffered, stage] at buffered
  rw [Answered, stage, if_neg nofun, List.append_nil] at answered
  rw [held, stage, if_neg nofun] at conserved
  rw [Digest.hand, if_neg (by simpa using buffered.1)]
  refine ⟨?_, ?_, ⟨s.handed, rfl⟩, ?_, announced⟩
  · rw [← conserved]
    simp [held]
  · intro batch mem
    rcases List.mem_append.mp mem with before | last
    · exact sizes batch before
    · rw [List.mem_singleton.mp last]
      exact buffered
  · simp [Answered, answered]

theorem Orderly.tryRecv (orderly : Orderly s) (capacity : Nat) : Orderly (step capacity s .tryRecv) := by
  rw [step]
  split
  · rename_i stage
    split_ifs with room
    · split
      · rename_i event channel waiting
        obtain ⟨conserved, sizes, buffered, answered, announced⟩ := orderly
        rw [Answered, stage, if_neg nofun] at answered
        rw [held, stage, if_neg nofun, waiting] at conserved
        refine ⟨?_, sizes, ?_, ?_, announced⟩
        · rw [← conserved]
          simp [held, stage]
        · simp [Buffered, stage]
          omega
        · simpa [Answered, stage] using answered
      · exact orderly.hand stage
    · exact orderly.hand stage
  · exact orderly

theorem Orderly.answer (orderly : Orderly s) (capacity : Nat) (w : World) : Orderly (step capacity s (.answer w)) := by
  rw [step]
  split
  · rename_i stage
    obtain ⟨conserved, sizes, buffered, answered, announced⟩ := orderly
    rw [Answered, stage, if_pos rfl] at answered
    rw [held, stage, if_pos rfl] at conserved
    refine ⟨by simpa [held] using conserved, sizes, rfl, ?_, ?_⟩
    · simpa [Answered] using answered
    · intro round mem
      rcases List.mem_append.mp mem with before | last
      · exact announced round before
      · rw [List.mem_singleton.mp last]
        exact announced_answer w s.buffer s.db
  · exact orderly

theorem Orderly.step (orderly : Orderly s) (capacity : Nat) (action : Action) : Orderly (Digest.step capacity s action) := by
  cases action with
  | send event => exact orderly.send capacity event
  | close => exact orderly.close capacity
  | recv => exact orderly.recv capacity
  | tryRecv => exact orderly.tryRecv capacity
  | answer w => exact orderly.answer capacity w
  | elsewhere db =>
      obtain ⟨conserved, sizes, buffered, answered, announced⟩ := orderly
      exact ⟨conserved, sizes, buffered, answered, announced⟩

end Steps

/-- However the senders and the task take turns, the batches are the sent events in their order, each of 1 to 16 events;
the loop ends with all of them handed over; it begins with an empty buffer; and a committed batch is broadcast event by
event. -/
theorem run_in_order (capacity : Nat) (db : Db) (actions : List Action) :
    let s := Machine.run (Digest.step capacity) (.initial db) actions
    s.handed.flatten <+: s.sent ∧
      (s.stage = .exited → s.closed = true ∧ s.handed.flatten = s.sent) ∧
      (∀ batch ∈ s.handed, 1 ≤ batch.length ∧ batch.length ≤ 16) ∧
      (s.stage = .receiving → s.buffer = []) ∧
      s.rounds.map (·.batch) <+: s.handed ∧ (s.stage ≠ .processing → s.rounds.map (·.batch) = s.handed) ∧
      ∀ round ∈ s.rounds, Announced round := by
  intro s
  have orderly : Orderly s := Machine.run_keeps Orderly (fun _ action orderly => orderly.step capacity action) actions
    (.initial db)
  obtain ⟨conserved, sizes, buffered, answered, announced⟩ := orderly
  refine ⟨⟨_, conserved⟩, fun exited => ?_, fun batch mem => ?_, fun receiving => ?_, ⟨_, answered.symm⟩, fun idle => ?_, announced⟩
  · rw [Buffered, exited] at buffered
    obtain ⟨empty, drained, closed⟩ := buffered
    rw [held, exited, if_neg nofun, empty, drained, List.append_nil, List.append_nil] at conserved
    exact ⟨closed, conserved⟩
  · exact ⟨List.length_pos_of_ne_nil (sizes batch mem).1, (sizes batch mem).2⟩
  · rwa [Buffered, receiving] at buffered
  · rw [Answered, if_neg idle, List.append_nil] at answered
    exact answered.symm

def sampleEvent (eventId : String) : IngestEvent :=
  ⟨"web", "f", "boom", none, none, "E", "f:1", noon, eventId, "\x7b\x7d"⟩

theorem run_in_order_ended :
    let s := Machine.run (Digest.step 2) (.initial Db.empty) [.send (sampleEvent "a"), .recv, .tryRecv,
      .send (sampleEvent "b"), .answer (noonWorld 0), .recv, .send (sampleEvent "c"), .tryRecv, .close, .tryRecv,
      .answer { noonWorld 1 with fault := some (.before (.sqlx .uniqueViolation)) }, .recv]
    s.stage = .exited ∧ s.sent.map (·.eventId) = ["a", "b", "c"] ∧ s.handed.flatten = s.sent ∧
      s.rounds.map (·.batch) = s.handed := by
  intro s
  have exited : s.stage = .exited := by decide +kernel
  obtain ⟨-, drained, -, -, -, answered, -⟩ := run_in_order 2 Db.empty [.send (sampleEvent "a"), .recv, .tryRecv,
    .send (sampleEvent "b"), .answer (noonWorld 0), .recv, .send (sampleEvent "c"), .tryRecv, .close, .tryRecv,
    .answer { noonWorld 1 with fault := some (.before (.sqlx .uniqueViolation)) }, .recv]
  refine ⟨exited, by decide +kernel, (drained exited).2, answered ?_⟩
  rw [exited]
  decide

end Errex.Proof.DigestTask
