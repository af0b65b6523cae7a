import Errex.Model.Wire
import Errex.Proof.EventJson
import Errex.Proof.Fanout
import Errex.Proof.Timestamps

/-!
# What the live stream says can be read

Every message of a run of the fan-out is read back from its text frame as it was sent.
-/

namespace Errex.Proof.Wire
open Foundation Calendar Transaction Model Store Issues EventJson

def Fits (n : Int) : Prop := -2 ^ 63 ≤ n ∧ n < 2 ^ 63

structure Legible (i : Issue) : Prop where
  id : Fits i.id
  eventCount : Fits i.eventCount
  firstSeen : FourDigitYear i.firstSeen.day
  lastSeen : FourDigitYear i.lastSeen.day

def carried : ServerMessage → List Issue
  | .hello _ => []
  | .snapshot issues => issues
  | .issueCreated issue => [issue]
  | .issueUpdated issue => [issue]

theorem i64Of_i64Json {n : Int} (fits : Fits n) : i64Of (i64Json n) = some n := by
  obtain ⟨low, high⟩ := fits
  unfold i64Json
  split_ifs with sign
  · have small : n.toNat < 2 ^ 63 := by omega
    have same : (UInt64.ofNat n.toNat).toNat = n.toNat := by
      rw [UInt64.toNat_ofNat']
      exact Nat.mod_eq_of_lt (by omega)
    rw [i64Of, same, if_pos small, Int.toNat_of_nonneg sign]
  · rw [i64Of, Int64.toInt_ofInt_of_le low (by omega)]

theorem ofJson_status (status : IssueStatus) : IssueStatus.ofJson (.string status.name) = some status := by
  cases status <;> rfl

section

variable {fromStr : String → Option Reading}

theorem instantOf_isoText (relaxed : ∀ s t, parseFromRfc3339 s = some t → fromStr s = some t) {t : Reading}
    (four : FourDigitYear t.day) : instantOf fromStr (.string t.isoText) = some t := by
  apply relaxed
  have read : parseFromRfc3339 t.isoText = _ := Rfc3339.parseFromRfc3339_zone t .letter
  rw [read, if_pos four]

theorem issue_roundTrip (relaxed : ∀ s t, parseFromRfc3339 s = some t → fromStr s = some t) {i : Issue}
    (legible : Legible i) : Issue.ofJson fromStr i.toJson = some i := by
  have read : structFields ["id", "project", "fingerprint", "title", "culprit", "level", "status", "event_count",
      "first_seen", "last_seen"] i.toJson = some _ := @structFields_emit i.fields (by simp [Issue.fields])
  rw [Issue.ofJson, read]
  simp only [Issue.fields, List.map_cons, List.map_nil, required, defaulted, Option.bind_some, Option.bind_eq_bind,
    i64Of_i64Json legible.id, i64Of_i64Json legible.eventCount, instantOf_isoText relaxed legible.firstSeen,
    instantOf_isoText relaxed legible.lastSeen, Value.asStr, optional_text, ofJson_status]
  rfl

theorem listOf_issues (relaxed : ∀ s t, parseFromRfc3339 s = some t → fromStr s = some t) {issues : List Issue}
    (legible : ∀ i ∈ issues, Legible i) :
    listOf (Issue.ofJson fromStr) (.array (issues.map Issue.toJson)) = some issues := by
  rw [listOf]
  induction issues with
  | nil => rfl
  | cons i issues ih =>
      obtain ⟨first, later⟩ := List.forall_mem_cons.mp legible
      rw [List.map_cons, List.mapM_cons, issue_roundTrip relaxed first, ih later]
      rfl

theorem untag_tag (variant : String) {name : String} (apart : name ≠ "type") (v : Value) :
    untag (tag variant [(name, some v)]) = some (variant, emit [(name, some v)]) := by
  simp [untag, tag, emit, member, apart]

theorem onlyField_emit {α : Type} (name : String) {read : Value → Option α} {v : Value} {a : α} (back : read v = some a) :
    onlyField name read (emit [(name, some v)]) = some a := by
  have fields : structFields [name] (emit [(name, some v)]) = some [some v] :=
    @structFields_emit [(name, some v)] (List.nodup_singleton _)
  rw [onlyField, fields]
  exact back

theorem message_roundTrip (relaxed : ∀ s t, parseFromRfc3339 s = some t → fromStr s = some t) {m : ServerMessage}
    (legible : ∀ i ∈ carried m, Legible i) : ServerMessage.ofJson fromStr m.toJson = some m := by
  cases m with
  | hello serverVersion =>
      rw [ServerMessage.ofJson, ServerMessage.toJson, untag_tag _ (by decide), Option.bind_eq_bind, Option.bind_some]
      dsimp only
      rw [if_pos rfl, onlyField_emit _ (rfl : Value.asStr (.string serverVersion) = some serverVersion)]
      rfl
  | snapshot issues =>
      rw [ServerMessage.ofJson, ServerMessage.toJson, untag_tag _ (by decide), Option.bind_eq_bind, Option.bind_some]
      dsimp only
      have back : listOf (Issue.ofJson fromStr) (.array (issues.map Issue.toJson)) = some issues := listOf_issues relaxed legible
      rw [if_neg (by decide), if_pos rfl, onlyField_emit _ back]
      rfl
  | issueCreated issue =>
      have back := issue_roundTrip relaxed (legible issue List.mem_cons_self)
      rw [ServerMessage.ofJson, ServerMessage.toJson, untag_tag _ (by decide), Option.bind_eq_bind, Option.bind_some]
      dsimp only
      rw [if_neg (by decide), if_neg (by decide), if_pos rfl, onlyField_emit _ back]
      rfl
  | issueUpdated issue =>
      have back := issue_roundTrip relaxed (legible issue List.mem_cons_self)
      rw [ServerMessage.ofJson, ServerMessage.toJson, untag_tag _ (by decide), Option.bind_eq_bind, Option.bind_some]
      dsimp only
      rw [if_neg (by decide), if_neg (by decide), if_neg (by decide), if_pos rfl, onlyField_emit _ back]
      rfl

theorem plain_message (bits : UInt64 → Option UInt64) (m : ServerMessage) : Plain bits m.toJson := by
  have text : ∀ s, ∀ v ∈ some (Value.string s), Plain bits v := by
    intro s v mem
    obtain rfl := Option.some.inj mem
    rfl
  have number : ∀ n, ∀ v ∈ some (i64Json n), Plain bits v := by
    intro n v mem
    obtain rfl := Option.some.inj mem
    unfold i64Json Plain
    split_ifs <;> rfl
  have issue : ∀ i : Issue, Plain bits i.toJson := by
    intro i
    apply plain_emit
    simp only [Issue.fields, List.forall_mem_cons]
    exact ⟨number _, text _, text _, text _, plain_text _, plain_text _, text _, number _, text _, text _, nofun⟩
  have one : ∀ {v : Value}, Plain bits v → ∀ w ∈ some v, Plain bits w := by
    intro v plain w mem
    rwa [← Option.some.inj mem]
  cases m <;> apply plain_emit <;> simp only [List.forall_mem_cons]
  · exact ⟨text _, text _, nofun⟩
  · refine ⟨text _, one (plain_array bits fun v mem => ?_), nofun⟩
    obtain ⟨i, -, rfl⟩ := List.mem_map.mp mem
    exact issue i
  · exact ⟨text _, one (issue _), nofun⟩
  · exact ⟨text _, one (issue _), nofun⟩

end

/-- Neither the id of a row nor its count is beyond the ids that SQLite has drawn. -/
def Drawn (seq : Int) (row : IssueRow) : Prop := (1 ≤ row.id ∧ row.id ≤ seq) ∧ 1 ≤ row.eventCount ∧ row.eventCount ≤ seq

structure Numbered (db : Db) : Prop where
  nonneg : 0 ≤ db.issueSeq
  rows : ∀ row ∈ db.issues.rows, Drawn db.issueSeq row

theorem insertEvent_issues {db db' : Db} {received : SqliteTime} {issueId : Int} {eventId payload : String} {u : Unit}
    (done : insertEvent received issueId eventId payload db = .ok (u, db')) :
    db'.issues = db.issues ∧ db'.issueSeq = db.issueSeq := by
  unfold insertEvent at done
  split at done
  · cases done
    exact ⟨rfl, rfl⟩
  · split_ifs at done
    cases done
    exact ⟨rfl, rfl⟩

namespace Numbered

variable {db db' : Db}

theorem empty : Numbered Db.empty where
  nonneg := le_rfl
  rows _ mem := absurd mem List.not_mem_nil

theorem of_same (numbered : Numbered db) (issues : db'.issues = db.issues) (seq : db'.issueSeq = db.issueSeq) : Numbered db' where
  nonneg := seq ▸ numbered.nonneg
  rows := by
    rw [issues, seq]
    exact numbered.rows

theorem deleteIssues (numbered : Numbered db) (doomed : IssueRow → Bool) : Numbered (deleteIssues doomed db).2 where
  nonneg := numbered.nonneg
  rows := Table.forall_delete numbered.rows

theorem updateStatus (numbered : Numbered db) (issueId : Int) (status : IssueStatus) :
    Numbered (updateStatus issueId status db).2 where
  nonneg := numbered.nonneg
  rows := Table.forall_update numbered.rows (triageIssue_key status) fun _ old => old

theorem renameIssues_keeps (old new : String) : (renameIssues old new).Keeps Numbered := by
  intro db u db' done numbered
  unfold renameIssues at done
  split at done
  · cases done
  · rename_i issues renamed
    cases done
    exact ⟨numbered.nonneg, Table.forall_rekey numbered.rows renamed fun _ old => old⟩

theorem upsertRow (numbered : Numbered db) {input : UpsertInput} {answer : IssueRow × Bool × Bool}
    (done : upsertRow input db = .ok (answer, db')) : Numbered db' ∧ db'.issueSeq = db.issueSeq + 1 := by
  have nonneg := numbered.nonneg
  have later : ∀ row ∈ db.issues.rows, Drawn (db.issueSeq + 1) row := by
    intro row mem
    obtain ⟨id, count⟩ := numbered.rows row mem
    exact ⟨⟨id.1, by omega⟩, count.1, by omega⟩
  cases found : db.issues.find? input.key with
  | none =>
      obtain ⟨issues, inserted, upserted⟩ := upsertRow_of_new found
      rw [upserted] at done
      cases done
      refine ⟨⟨by simp only; omega, Table.forall_insert later inserted ?_⟩, rfl⟩
      exact ⟨⟨by simp only [newIssue]; omega, le_rfl⟩, le_rfl, by simp only [newIssue]; omega⟩
  | some old =>
      rw [upsertRow_of_old found] at done
      cases done
      refine ⟨⟨by simp only [Store.updateIssue]; omega, fun row mem => ?_⟩, rfl⟩
      obtain ⟨old, stored, rfl⟩ := (Table.mem_update (bumpIssue_key input _)).mp mem
      obtain ⟨id, count⟩ := numbered.rows old stored
      split_ifs
      · refine ⟨later old stored |>.1, ?_⟩
        simp only [bumpIssue, Store.updateIssue]
        omega
      · exact later old stored

theorem upsertIssue_keeps (now : UtcNow) (input : UpsertInput) : (upsertIssue now input).Keeps Numbered := by
  intro db result db' done numbered
  obtain ⟨row, db₁, upserted, rest⟩ := bind_eq_ok_iff.mp done
  cases rest
  exact (numbered.upsertRow upserted).1

theorem upsertInput (numbered : Numbered db) {now : UtcNow} {received : SqliteTime} {input : BatchUpsertInput}
    {result : UpsertResult} (done : upsertInput now received input db = .ok (result, db')) :
    Numbered db' ∧ db'.issueSeq = db.issueSeq + 1 := by
  obtain ⟨⟨row, created, regressed⟩, db₁, upserted, rest⟩ := bind_eq_ok_iff.mp done
  obtain ⟨u, db₂, inserted, rest⟩ := bind_eq_ok_iff.mp rest
  cases rest
  obtain ⟨kept, seq⟩ := numbered.upsertRow upserted
  obtain ⟨issues, same⟩ := insertEvent_issues inserted
  exact ⟨kept.of_same issues same, same.trans seq⟩

end Numbered

theorem exec_numbered (argon2 : Argon2) (w : World) (c : Call) (db : Db) (numbered : Numbered db) :
    Numbered (exec argon2 w c db).2 := by
  have frame := exec_frame argon2 w c db
  cases c
  case upsertIssue input => exact transact_keeps (Numbered.upsertIssue_keeps _ _) numbered
  case upsertBatchWithEvents batch =>
    refine transact_keeps (upsertBatchWithEvents_keeps (fun received input => ?_) _ _) numbered
    intro db result db' done numbered
    exact (numbered.upsertInput done).1
  case setStatus issueId status =>
    exact transact_keeps (setStatus_keeps fun _ numbered => numbered.updateStatus _ _) numbered
  case purgeExcessEventsPerIssue max =>
    exact transact_keeps (purgeExcessEventsPerIssue_keeps fun _ _ numbered => numbered.of_same rfl rfl) numbered
  case purgeExcessIssuesPerProject max =>
    exact transact_keeps (purgeExcessIssuesPerProject_keeps fun _ _ numbered => numbered.deleteIssues _) numbered
  case deleteProject name =>
    exact transact_keeps (deleteProject_keeps (fun _ _ numbered => numbered.deleteIssues _)
      fun _ _ numbered => numbered.of_same rfl rfl) numbered
  case renameProject old new =>
    exact transact_keeps (renameProject_keeps (fun _ _ _ numbered => numbered.of_same rfl rfl)
      (Numbered.renameIssues_keeps _ _)) numbered
  all_goals exact numbered.of_same (frame.issues rfl).1 (frame.issues rfl).2

abbrev Written (db : Db) : Prop := Timestamps.Stamped (fun _ _ => True) db

structure Readable (seq : Int) (i : Issue) : Prop where
  id : 1 ≤ i.id ∧ i.id ≤ seq
  eventCount : 1 ≤ i.eventCount ∧ i.eventCount ≤ seq
  firstSeen : FourDigitYear i.firstSeen.day
  lastSeen : FourDigitYear i.lastSeen.day

theorem Readable.mono {seq seq' : Int} {i : Issue} (readable : Readable seq i) (le : seq ≤ seq') : Readable seq' i :=
  ⟨⟨readable.id.1, readable.id.2.trans le⟩, ⟨readable.eventCount.1, readable.eventCount.2.trans le⟩, readable.firstSeen,
    readable.lastSeen⟩

theorem Readable.legible {seq : Int} {i : Issue} (readable : Readable seq i) (room : seq < 2 ^ 63) : Legible i where
  id := by
    have := readable.id
    unfold Fits
    omega
  eventCount := by
    have := readable.eventCount
    unfold Fits
    omega
  firstSeen := readable.firstSeen
  lastSeen := readable.lastSeen

theorem parseOrNow_four {now : UtcNow} (clock : FourDigitYear now.instant.day) {column : Timestamps.Column} {text : String}
    (known : Timestamps.Known (fun _ _ => True) column text) : FourDigitYear (parseOrNow now text).day := by
  obtain ⟨stamp, -, rfl⟩ := known
  unfold parseOrNow
  cases stamp with
  | bound t =>
      rw [Timestamps.Stamp.text, Rfc3339.parseFromRfc3339_toRfc3339]
      split_ifs with four
      · exact four
      · exact clock
  | currentTimestamp s =>
      rw [Timestamps.Stamp.text, Rfc3339.parseFromRfc3339_currentTimestamp]
      exact clock

variable {db db' : Db} {now : UtcNow}

theorem readable_ofRow (numbered : Numbered db) (written : Written db) (clock : FourDigitYear now.instant.day) {row : IssueRow}
    (mem : row ∈ db.issues.rows) : Readable db.issueSeq (Issue.ofRow now row) where
  id := (numbered.rows row mem).1
  eventCount := (numbered.rows row mem).2
  firstSeen := parseOrNow_four clock (written.issues row mem).1
  lastSeen := parseOrNow_four clock (written.issues row mem).2

theorem mem_of_issueOfId {id : Int} {row : IssueRow} (found : issueOfId id db = some row) : row ∈ db.issues.rows :=
  List.mem_of_find?_eq_some found

theorem batch_written {received : Nat → SqliteTime} {batch : List BatchUpsertInput} {results : List UpsertResult}
    (done : upsertBatchWithEvents now received batch db = .ok (results, db')) (written : Written db) : Written db' :=
  Timestamps.upsertBatch_stamped (fun _ _ => trivial) (fun _ _ => trivial) (fun _ => trivial) _ _ _ done written

theorem batch_readable (clock : FourDigitYear now.instant.day) {received : Nat → SqliteTime} {batch : List BatchUpsertInput}
    {results : List UpsertResult} (done : upsertBatchWithEvents now received batch db = .ok (results, db'))
    (sound : Integrity db) (numbered : Numbered db) (written : Written db) :
    Numbered db' ∧ db.issueSeq ≤ db'.issueSeq ∧ ∀ result ∈ results, Readable db'.issueSeq result.issue := by
  induction batch generalizing db received results with
  | nil =>
      cases done
      exact ⟨numbered, le_rfl, fun _ none => absurd none List.not_mem_nil⟩
  | cons input batch ih =>
      obtain ⟨result, db₁, first, rest⟩ := bind_eq_ok_iff.mp done
      obtain ⟨later, db₂, more, rest⟩ := bind_eq_ok_iff.mp rest
      cases rest
      obtain ⟨numbered₁, seq₁⟩ := numbered.upsertInput first
      have one : upsertBatchWithEvents now received [input] db = .ok ([result], db₁) :=
        bind_eq_ok_iff.mpr ⟨result, db₁, first, rfl⟩
      have written₁ := batch_written one written
      obtain ⟨row, reading, stored, -, -⟩ := upsertInput_written sound first
      have sound₁ := Integrity.upsertInput_keeps _ _ _ _ _ _ first sound
      obtain ⟨numbered₂, seq₂, others⟩ := ih more sound₁ numbered₁ written₁
      refine ⟨numbered₂, by omega, List.forall_mem_cons.mpr ⟨?_, others⟩⟩
      rw [reading]
      exact (readable_ofRow numbered₁ written₁ clock (mem_of_issueOfId stored)).mono seq₂

open Model.Fanout Foundation.Broadcast

def ReadableMessage (seq : Int) (m : ServerMessage) : Prop := ∀ i ∈ carried m, Readable seq i

theorem ReadableMessage.mono {seq seq' : Int} {m : ServerMessage} (readable : ReadableMessage seq m) (le : seq ≤ seq') :
    ReadableMessage seq' m := fun i mem => (readable i mem).mono le

structure Clear (hub : Hub) : Prop where
  sound : Integrity hub.db
  numbered : Numbered hub.db
  written : Written hub.db
  carries : hub.fanout.Carries hub.sent
  sent : ∀ m ∈ hub.sent, ReadableMessage hub.db.issueSeq m
  sockets : ∀ c ∈ hub.clients, ∀ m ∈ c.socket, ReadableMessage hub.db.issueSeq m

def Clocked : Action → Prop
  | .digest now _ _ | .putStatus now _ _ | .load _ now => FourDigitYear now.instant.day
  | .subscribe _ | .recv _ | .consume _ => True

variable {hub : Hub}

theorem Clear.send (clear : Clear hub) (sound : Integrity db) (numbered : Numbered db) (written : Written db)
    (seq : hub.db.issueSeq ≤ db.issueSeq) {messages : List ServerMessage}
    (readable : ∀ m ∈ messages, ReadableMessage db.issueSeq m) : Clear ({ hub with db }.send messages) where
  sound := sound
  numbered := numbered
  written := written
  carries := clear.carries.sendAll messages
  sent m mem := by
    rcases List.mem_append.mp mem with old | new
    · exact (clear.sent m old).mono seq
    · exact readable m new
  sockets c mem m inside := (clear.sockets c mem m inside).mono seq

theorem Clear.set (clear : Clear hub) (client lagged : Nat) {c : Client}
    (readable : ∀ m ∈ c.socket, ReadableMessage hub.db.issueSeq m) :
    Clear { hub with clients := hub.clients.set client c, wsLaggedTotal := lagged } where
  sound := clear.sound
  numbered := clear.numbered
  written := clear.written
  carries := clear.carries
  sent := clear.sent
  sockets other mem := by
    rcases List.mem_or_eq_of_mem_set mem with old | rfl
    · exact clear.sockets other old
    · exact readable

theorem Clear.recv (clear : Clear hub) {client : Nat} {c : Client} (here : hub.clients[client]? = some c) :
    Clear (Model.Fanout.recv hub client c) := by
  have before := clear.sockets c (List.mem_of_getElem? here)
  unfold Model.Fanout.recv
  rcases clear.carries.recv_cases c.next with ⟨m, later, got, split, rfl⟩ | ⟨behind, -, -, -⟩ | ⟨got, -⟩
  · rw [got]
    have broadcast : m ∈ hub.sent := List.mem_of_mem_drop (split ▸ List.mem_cons_self)
    refine clear.set client _ fun m' mem => ?_
    rcases List.mem_append.mp mem with old | new
    · exact before m' old
    · obtain rfl := List.mem_singleton.mp new
      exact clear.sent m' broadcast
  · rw [behind]
    exact clear.set client _ before
  · rw [got]
    exact clear

theorem Clear.step (clear : Clear hub) {action : Action} (clocked : Clocked action) : Clear (Model.Fanout.step hub action) := by
  cases action with
  | digest now received batch =>
      simp only [Model.Fanout.step]
      split
      · rename_i results db done
        obtain ⟨numbered, seq, readable⟩ := batch_readable clocked done clear.sound clear.numbered clear.written
        have written := batch_written done clear.written
        have sound : Integrity db :=
          upsertBatchWithEvents_keeps (Integrity.upsertInput_keeps _) _ _ _ _ _ done clear.sound
        refine clear.send sound numbered written seq fun m mem => ?_
        obtain ⟨result, inside, rfl⟩ := List.mem_map.mp mem
        intro i about
        have same : i = result.issue := by
          unfold Digest.message at about
          split_ifs at about <;> exact List.mem_singleton.mp about
        rw [same]
        exact readable result inside
      · exact clear
  | putStatus now issueId status =>
      simp only [Model.Fanout.step]
      split
      · rename_i issue db done
        obtain ⟨rfl, row, rfl, -, found⟩ := setStatus_written done
        have written : Written (updateStatus issueId status hub.db).2 :=
          { clear.written with
            issues := Table.forall_update clear.written.issues (triageIssue_key status) fun _ old => old }
        have numbered := clear.numbered.updateStatus issueId status
        refine clear.send (clear.sound.updateStatus _ _) numbered written le_rfl fun m mem => ?_
        obtain rfl := List.mem_singleton.mp mem
        intro i about
        obtain rfl := List.mem_singleton.mp about
        exact readable_ofRow numbered written clocked (mem_of_issueOfId found)
      · exact clear
  | subscribe view =>
      refine { clear with sockets := fun c mem => ?_ }
      rcases List.mem_append.mp mem with old | new
      · exact clear.sockets c old
      · obtain rfl := List.mem_singleton.mp new
        exact fun _ none => absurd none List.not_mem_nil
  | load client now =>
      simp only [Model.Fanout.step]
      split
      · rename_i c issues db here loaded
        split_ifs
        · exact clear
        · refine clear.set client _ fun m mem => ?_
          cases loaded
          simp only [Live.greeting, List.mem_cons, List.not_mem_nil, or_false] at mem
          rcases mem with rfl | rfl
          · exact fun _ none => absurd none List.not_mem_nil
          · intro i about
            obtain ⟨row, stored, rfl⟩ := List.mem_map.mp about
            exact readable_ofRow clear.numbered clear.written clocked (List.mem_mergeSort.mp stored)
      · exact clear
  | recv client =>
      simp only [Model.Fanout.step]
      split
      · rename_i c here
        split_ifs
        · exact clear.recv here
        · exact clear
      · exact clear
  | consume client =>
      simp only [Model.Fanout.step]
      split
      · rename_i next m socket view taken here
        refine clear.set client _ fun m' mem => ?_
        exact clear.sockets _ (List.mem_of_getElem? here) m' (List.mem_cons_of_mem _ mem)
      · exact clear

/-- From any database that calls lead to, with clocks in years of four digits and fewer than 2^63 ids drawn: whatever is
broadcast or greeted with is read back from its text frame as the message that was sent. -/
theorem run_frames_read_back {fromStr : String → Option Reading}
    (relaxed : ∀ s t, parseFromRfc3339 s = some t → fromStr s = some t) (bits : UInt64 → Option UInt64) (argon2 : Argon2)
    (calls : List (World × Call)) {actions : List Action} (clocked : ∀ action ∈ actions, Clocked action) :
    let hub := Machine.run Model.Fanout.step (.initial (performAll (exec argon2) calls Db.empty)) actions
    hub.db.issueSeq < 2 ^ 63 → ∀ m ∈ hub.sent ++ hub.clients.flatMap (·.socket),
      (reread bits m.toJson).bind (ServerMessage.ofJson fromStr) = some m := by
  intro hub room m mem
  have start : Clear (.initial (performAll (exec argon2) calls Db.empty)) := by
    refine ⟨?_, ?_, ?_, Carries.new FANOUT_CHANNEL_CAPACITY, fun m none => ?_, fun c none => ?_⟩
    · exact performAll_invariant (exec argon2) Integrity (exec_integrity argon2) calls Integrity.empty
    · exact performAll_invariant (exec argon2) Numbered (exec_numbered argon2) calls Numbered.empty
    · exact performAll_invariant (exec argon2) Written
        (fun w c db => Timestamps.call_stamped argon2 w c fun _ _ _ => trivial) calls Timestamps.Stamped.empty
    · cases none
    · cases none
  have clear : Clear hub :=
    Machine.run_keeps_of_forall Clear (fun hub action clear inTime => @Clear.step hub clear action inTime) clocked start
  have readable : ReadableMessage hub.db.issueSeq m := by
    rcases List.mem_append.mp mem with broadcast | waiting
    · exact clear.sent m broadcast
    · obtain ⟨c, inside, waiting⟩ := List.mem_flatMap.mp waiting
      exact clear.sockets c inside m waiting
  rw [plain_message bits m, Option.bind_some]
  exact message_roundTrip relaxed fun i about => (readable i about).legible room

theorem run_frames_read_back_sample :
    let event : Digest.IngestEvent := ⟨"web", "f", "boom", none, none, "E", "f:1", noon, "e", "\x7b\x7d"⟩
    let actions : List Action := [.digest noon (fun _ => noonReceived) [event], .subscribe .empty, .load 0 noon,
      .putStatus noon 1 .muted, .recv 0]
    let hub := Machine.run Model.Fanout.step (.initial (performAll (exec plainArgon2) [] Db.empty)) actions
    ∃ m ∈ hub.clients.flatMap (·.socket), (reread some m.toJson).bind (ServerMessage.ofJson parseFromRfc3339) = some m := by
  intro event actions hub
  have clocked : ∀ action ∈ actions, Clocked action := by
    have four : FourDigitYear noon.instant.day := by decide
    simp only [actions, List.forall_mem_cons]
    exact ⟨four, trivial, four, four, trivial, fun _ none => absurd none List.not_mem_nil⟩
  have three : (hub.clients.flatMap (·.socket)).length = 3 := by decide +kernel
  obtain ⟨m, mem⟩ := List.exists_mem_of_length_pos (Nat.lt_of_lt_of_eq (Nat.succ_pos 2) three.symm)
  have back := run_frames_read_back (fun _ _ read => read) some plainArgon2 [] clocked
  exact ⟨m, mem, back (by decide +kernel) m (List.mem_append_right _ mem)⟩

end Errex.Proof.Wire
