import Errex.Foundation.Replica
import Errex.Model.Live
import Errex.Proof.Issues.ById

/-!
# Live views converge

The messages of a commit announce it: the last one about an issue carries its row. A client whose
snapshot is loaded shows the table once it has consumed its queue. Before, its queue may be older
than the snapshot to come, but what it says last of an issue is what the table has.
-/

namespace Errex.Proof.Live
open Foundation Foundation.Replica Transaction Model Model.Live Store Issues

/-- An issue is a reading of a row. A text that is no instant is read as the time of the reading. -/
def Reads (issue : Issue) (row : IssueRow) : Prop := ∃ now, issue = Issue.ofRow now row

def Shows (view : View) (db : Db) : Prop := ∀ id, Option.Rel Reads (view.byId.find? id) (issueOfId id db)

abbrev Announced (issues : List Issue) (db db' : Db) : Prop :=
  Announces Issue.id Reads issues (issueOfId · db) (issueOfId · db')

variable {db db' : Db}

theorem setStatus_announced {now : UtcNow} {issueId : Int} {status : IssueStatus} {issue : Issue}
    (done : setStatus now issueId status db = .ok (issue, db')) : Announced [issue] db db' := by
  obtain ⟨rfl, row, rfl, rfl, found⟩ := setStatus_written done
  refine .single found ⟨now, rfl⟩ fun id other => ?_
  exact (issueOfId_updateStatus row.id status id).trans (if_neg other)

theorem upsertInput_announced (sound : Integrity db) {now : UtcNow} {received : SqliteTime}
    {input : BatchUpsertInput} {result : UpsertResult}
    (done : upsertInput now received input db = .ok (result, db')) : Announced [result.issue] db db' := by
  obtain ⟨row, reading, written, others, -⟩ := upsertInput_written sound done
  rw [reading]
  exact .single written ⟨now, rfl⟩ others

theorem batch_announced (now : UtcNow) (batch : List BatchUpsertInput) {received : Nat → SqliteTime}
    {results : List UpsertResult} (sound : Integrity db)
    (done : upsertBatchWithEvents now received batch db = .ok (results, db')) :
    Announced (results.map (·.issue)) db db' := by
  induction batch generalizing received results db with
  | nil =>
      cases done
      exact .refl
  | cons input batch ih =>
      obtain ⟨result, db₁, first, rest⟩ := bind_eq_ok_iff.mp done
      obtain ⟨results, db₂, others, rest⟩ := bind_eq_ok_iff.mp rest
      cases rest
      have sound' : Integrity db₁ := Integrity.upsertInput_keeps now _ input db result db₁ first sound
      exact (upsertInput_announced sound first).trans (ih sound' others)

def update : ServerMessage → Option Issue
  | .issueCreated issue => some issue
  | .issueUpdated issue => some issue
  | .hello _ | .snapshot _ => none

def Updates (messages : List ServerMessage) : Prop := ∀ message ∈ messages, (update message).isSome

theorem Updates.append {older newer : List ServerMessage} (first : Updates older) (second : Updates newer) :
    Updates (older ++ newer) := by
  intro message mem
  rcases List.mem_append.mp mem with old | new
  · exact first message old
  · exact second message new

theorem update_message (result : UpsertResult) : update (Digest.message result) = some result.issue := by
  unfold Digest.message
  split_ifs <;> rfl

theorem processBatch_updates (results : List UpsertResult) :
    Updates (Digest.processBatch (.ok results)).2 ∧
      (Digest.processBatch (.ok results)).2.filterMap update = results.map (·.issue) := by
  constructor
  · intro message mem
    obtain ⟨result, -, rfl⟩ := List.mem_map.mp mem
    simp [update_message]
  · simp [Digest.processBatch, List.filterMap_map, update_message]

theorem find?_foldl_handle (view : View) {messages : List ServerMessage} (updates : Updates messages) :
    (messages.foldl View.handle view).byId.find? =
      replay Issue.id view.byId.find? (messages.filterMap update) := by
  induction messages generalizing view with
  | nil => rfl
  | cons message rest ih =>
      obtain ⟨issue, carries⟩ := Option.isSome_iff_exists.mp (updates message List.mem_cons_self)
      have handled : view.handle message = view.upsert issue := by
        cases message <;> cases carries <;> rfl
      have first : (view.upsert issue).byId.find? = replay Issue.id view.byId.find? [issue] :=
        find?_foldl_set view.byId [issue]
      rw [List.foldl_cons, handled, ih _ fun m mem => updates m (List.mem_cons_of_mem _ mem), first,
        ← replay_append, List.filterMap_cons_some carries]
      rfl

theorem loadIssues_mirrors (sound : Integrity db) {now : UtcNow} {issues : List Issue}
    (loaded : loadIssues now db = .ok (issues, db')) :
    Mirrors Reads (latest Issue.id · issues) (issueOfId · db) := by
  cases loaded
  refine mirrors_snapshot ?_ ?_
  · intro issue mem
    obtain ⟨row, stored, rfl⟩ := List.mem_map.mp mem
    exact ⟨row, issueOfId_of_mem sound (List.mem_mergeSort.mp stored), now, rfl⟩
  · intro id row stored
    have id_eq : row.id = id := by simpa using List.find?_some stored
    exact ⟨Issue.ofRow now row,
      List.mem_map_of_mem (List.mem_mergeSort.mpr (List.mem_of_find?_eq_some stored)), id_eq⟩

/-- A loaded client shows the table after its queue; before, what the queue says last of an issue is
what the table has. -/
def Follows (db : Db) : Client → Prop
  | ⟨true, queue, view⟩ => Shows (queue.foldl View.handle view) db
  | ⟨false, queue, _⟩ => Updates queue ∧ Current Issue.id Reads (queue.filterMap update) (issueOfId · db)

theorem Follows.send {c : Client} (follows : Follows db c) {messages : List ServerMessage}
    (updates : Updates messages) (announced : Announced (messages.filterMap update) db db') :
    Follows db' { c with queue := c.queue ++ messages } := by
  obtain ⟨loaded, queue, view⟩ := c
  cases loaded with
  | true =>
      intro id
      rw [List.foldl_append, find?_foldl_handle _ updates]
      exact Mirrors.announce follows announced id
  | false =>
      obtain ⟨old, current⟩ := follows
      refine ⟨old.append updates, ?_⟩
      rw [List.filterMap_append]
      exact current.announce announced

theorem Follows.load {queue : List ServerMessage} {view : View} (follows : Follows db ⟨false, queue, view⟩)
    (sound : Integrity db) {now : UtcNow} {issues : List Issue} (loaded : loadIssues now db = .ok (issues, db')) :
    Follows db ⟨true, greeting issues ++ queue, view⟩ := by
  obtain ⟨updates, current⟩ := follows
  intro id
  have snapshot : ((greeting issues).foldl View.handle view).byId.find? = (latest Issue.id · issues) := by
    refine (find?_foldl_set .empty issues).trans ?_
    funext k
    rw [replay, Table.find?_empty, Option.or_none]
  rw [List.foldl_append, find?_foldl_handle _ updates, snapshot]
  exact (loadIssues_mirrors sound loaded).replay current id

structure Converging (hub : Hub) : Prop where
  sound : Integrity hub.db
  follows : ∀ c ∈ hub.clients, Follows hub.db c

theorem Converging.send {hub : Hub} (converging : Converging hub) (sound : Integrity db)
    {messages : List ServerMessage} (updates : Updates messages)
    (announced : Announced (messages.filterMap update) hub.db db) :
    Converging ({ hub with db }.send messages) := by
  refine ⟨sound, fun c mem => ?_⟩
  obtain ⟨old, listening, rfl⟩ := List.mem_map.mp mem
  exact (converging.follows old listening).send updates announced

theorem Converging.set {hub : Hub} (converging : Converging hub) {c : Client} (follows : Follows hub.db c)
    (client : Nat) : Converging { hub with clients := hub.clients.set client c } := by
  refine ⟨converging.sound, fun other mem => ?_⟩
  rcases List.mem_or_eq_of_mem_set mem with old | rfl
  · exact converging.follows other old
  · exact follows

theorem Converging.step {hub : Hub} (converging : Converging hub) (action : Action) :
    Converging (Live.step hub action) := by
  cases action with
  | digest now received batch =>
      simp only [Live.step]
      split
      · rename_i results db done
        obtain ⟨updates, issues⟩ := processBatch_updates results
        refine converging.send ?_ updates ?_
        · exact upsertBatchWithEvents_keeps (Integrity.upsertInput_keeps _) _ _ _ _ _ done converging.sound
        · rw [issues]
          exact batch_announced now _ converging.sound done
      · exact converging
  | putStatus now issueId status =>
      simp only [Live.step]
      split
      · rename_i issue db done
        refine converging.send ?_ (by simp [Updates, update]) (setStatus_announced done)
        exact setStatus_keeps (fun _ sound => sound.updateStatus _ _) _ _ _ done converging.sound
      · exact converging
  | subscribe view =>
      refine ⟨converging.sound, fun c mem => ?_⟩
      rcases List.mem_append.mp mem with old | new
      · exact converging.follows c old
      · obtain rfl := List.mem_singleton.mp new
        exact ⟨fun _ none => absurd none List.not_mem_nil, Current.nil⟩
  | load client now =>
      simp only [Live.step]
      split
      · rename_i queue view issues db waiting loaded
        exact converging.set ((converging.follows _ (List.mem_of_getElem? waiting)).load converging.sound loaded) client
      · exact converging
  | consume client =>
      simp only [Live.step]
      split
      · rename_i message queue view next
        have follows : Follows hub.db ⟨true, message :: queue, view⟩ :=
          converging.follows _ (List.mem_of_getElem? next)
        -- The message is the first one of the fold.
        exact converging.set (show Follows hub.db ⟨true, queue, view.handle message⟩ from follows) client
      · exact converging

/-- From any database that calls lead to, without clients yet: whatever order the commits, the
subscriptions, the snapshots and the deliveries come in, a client that has its snapshot and nothing
left in its queue shows the issues table. -/
theorem run_converges (argon2 : Argon2) (calls : List (World × Call)) (actions : List Action) :
    let hub := Machine.run Live.step ⟨performAll (exec argon2) calls Db.empty, []⟩ actions
    ∀ c ∈ hub.clients, c.loaded → c.queue = [] → Shows c.view hub.db := by
  intro hub c mem loaded empty
  have sound : Integrity (performAll (exec argon2) calls Db.empty) :=
    performAll_invariant (exec argon2) Integrity (exec_integrity argon2) calls Integrity.empty
  have converging : Converging hub :=
    Machine.run_keeps Converging (fun _ action converging => converging.step action) actions
      ⟨sound, fun _ none => by cases none⟩
  have follows := converging.follows c mem
  obtain ⟨hasLoaded, queue, view⟩ := c
  obtain rfl : hasLoaded = true := loaded
  obtain rfl : queue = [] := empty
  exact follows

theorem run_converges_sample :
    let event : Digest.IngestEvent := ⟨"web", "f", "boom", none, none, "E", "f:1", noon, "e", "\x7b\x7d"⟩
    let hub := Machine.run Live.step ⟨performAll (exec plainArgon2) [] Db.empty, []⟩
      [.subscribe .empty, .digest noon (fun _ => noonReceived) [event], .putStatus noon 1 .muted, .load 0 noon,
        .consume 0, .consume 0, .consume 0, .consume 0]
    ∃ c ∈ hub.clients, c.loaded ∧ c.queue = [] ∧ Shows c.view hub.db := by
  intro event hub
  have ready : (hub.clients[0]?).any (fun c => c.loaded && c.queue.isEmpty) = true := by decide +kernel
  obtain ⟨c, here, ready⟩ := Option.any_eq_true _ _ |>.mp ready
  obtain ⟨loaded, empty⟩ := Bool.and_eq_true_iff.mp ready
  have mem : c ∈ hub.clients := List.mem_of_getElem? here
  have empty : c.queue = [] := List.isEmpty_iff.mp empty
  exact ⟨c, mem, loaded, empty, run_converges plainArgon2 [] _ c mem loaded empty⟩

end Errex.Proof.Live
