import Errex.Model.Payload
import Errex.Model.Spa.IssuePage
import Errex.Proof.Alerts
import Errex.Proof.Ingest.Addresses
import Errex.Proof.Spa.RoundTrip
import Errex.Proof.Webhook.Delivery
import Errex.Proof.Wire

/-!
# What an alert links to

The link in the body of every alert leads, through the daemon and its page, to a call for the latest event of the issue
that the alert is about, and the store has this issue.
-/

namespace Errex.Proof.AlertLinks
open Foundation Transaction Uri Utf16 Routing Model Webhook Model.Spa Model.Router Store Issues
open Ingest (PublicUrl)

theorem lookup_cons_eq (k other : String) (v : Value) (members : Map) :
    List.lookup other ((k, v) :: members) = if other = k then some v else members.lookup other := by
  rw [List.lookup_cons]
  by_cases same : other = k
  · rw [if_pos same, beq_iff_eq.mpr same]
  · rw [if_neg same, beq_eq_false_iff_ne.mpr same]

theorem lookup_insert (members : Map) (key other : String) (v : Value) :
    (members.insert key v).lookup other = if other = key then some v else members.lookup other := by
  induction members with
  | nil => exact lookup_cons_eq key other v []
  | cons member members ih =>
      obtain ⟨k, w⟩ := member
      unfold Map.insert
      by_cases here : key = k
      · subst here
        rw [if_pos rfl, lookup_cons_eq, lookup_cons_eq]
        split_ifs <;> rfl
      · rw [if_neg here]
        by_cases before : key < k
        · rw [if_pos before, lookup_cons_eq]
        · rw [if_neg before, lookup_cons_eq, lookup_cons_eq, ih]
          by_cases same : other = key
          · subst same
            rw [if_neg here]
            simp
          · rw [if_neg same]
            simp [same]

def titleLink (payload : Value) : Option String := do
  match ← payload.get "attachments" with
  | .array [attachment] => (← attachment.get "title_link").asStr
  | _ => none

theorem titleLink_buildPayload (t : Trigger) (publicUrl : String) :
    titleLink (buildPayload t publicUrl) = some (issueLink publicUrl t.issue.id) := by
  simp [titleLink, buildPayload, jsonObject, Value.get, lookup_insert, Value.asStr]

theorem toDigits_isDigit (n : Nat) : ∀ c ∈ Nat.toDigits 10 n, c.isDigit = true :=
  fun c mem => Nat.isDigit_of_mem_toDigits (by decide) (by decide) mem

theorem plain_digit {c : Char} (digit : c.isDigit = true) :
    isUnreserved c = true ∧ c ≠ '/' ∧ endsPath c = false ∧ c.toNat < 0x80 := by
  have range : 48 ≤ c.toNat ∧ c.toNat ≤ 57 := Char.isDigit_iff_toNat.mp digit
  have other : ∀ d : Char, 57 < d.toNat ∨ d.toNat < 48 → c ≠ d := by
    rintro d apart rfl
    omega
  refine ⟨by simp [isUnreserved, Char.isAlphanum, digit], other '/' (by decide), ?_, by omega⟩
  simp [endsPath, other '?' (by decide), other '#' (by decide)]

theorem encodeComponent_toDigits (n : Nat) : encodeComponent (Nat.toDigits 10 n) = Nat.toDigits 10 n := by
  have each : ∀ c ∈ Nat.toDigits 10 n, componentOf c = [c] := fun c mem =>
    if_pos (plain_digit (toDigits_isDigit n c mem)).1
  rw [encodeComponent, List.flatMap_congr each, List.flatMap_singleton']

theorem encode_toDigits (n : Nat) : (Nat.toDigits 10 n).flatMap encodeChar = decimal n := by
  have each : ∀ c ∈ Nat.toDigits 10 n, encodeChar c = [unit c] := fun c mem =>
    if_pos ((plain_digit (toDigits_isDigit n c mem)).2.2.2.trans (by decide))
  rw [List.flatMap_congr each, decimal, ← List.map_eq_flatMap]

theorem scalars_decimal (n : Nat) : scalars (decimal n) = Nat.toDigits 10 n := by
  rw [← encode_toDigits, scalars_flatMap]

theorem splitSign_toDigits (n : Nat) : splitSign (Nat.toDigits 10 n) = (false, Nat.toDigits 10 n) := by
  have digits := toDigits_isDigit n
  unfold splitSign
  split
  · next rest minus => exact absurd (digits '-' (minus ▸ List.mem_cons_self)) (by decide)
  · next rest plus => exact absurd (digits '+' (plus ▸ List.mem_cons_self)) (by decide)
  · rfl

theorem parseI64_toDigits {n : Nat} (small : n < 2 ^ 63) : parseI64 (Nat.toDigits 10 n) = some (n : Int) := by
  have all : (Nat.toDigits 10 n).all Char.isDigit = true := List.all_eq_true.mpr (toDigits_isDigit n)
  have some_ : (Nat.toDigits 10 n).isEmpty = false := by simp
  have value : Nat.ofDigitChars 10 (Nat.toDigits 10 n) 0 = n := Nat.ofDigitChars_toDigits (by decide) (by decide)
  have room : -2 ^ 63 ≤ (n : Int) ∧ (n : Int) < 2 ^ 63 := by omega
  rw [parseI64, splitSign_toDigits]
  simp only [all, some_, value, Bool.not_true, Bool.or_self, Bool.false_eq_true, if_false]
  exact if_pos room

theorem route_page (blank : Bool) (id : List Char) (plain : '/' ∉ id) :
    route blank .get (joinPath ["issues".toList, id]) = .fallback := by
  have parts : segments (joinPath ["issues".toList, id]) = ["issues".toList, id] :=
    segments_joinPath (by simp [plain]) (by simp)
  have literal : literals "issues".toList table = [] := rfl
  have param : params table = [] := rfl
  rw [route, parts, search, literal, param, search_nil]
  split_ifs <;> rfl

theorem handler_page {assets : List Char → Bool} (index : assets "index.html".toList = true) (id : List Char)
    (absent : assets ("issues/".toList ++ id) = false) :
    handler assets (joinPath ["issues".toList, id]) = .file "index.html".toList := by
  have path : joinPath ["issues".toList, id] = '/' :: ("issues/".toList ++ id) := by
    simp [joinPath, List.intercalate]
  have front : (joinPath ["issues".toList, id]).dropWhile (· == '/') = "issues/".toList ++ id := by
    rw [path]
    rfl
  have other : "/api/".toList.isPrefixOf (joinPath ["issues".toList, id]) = false := by
    rw [path]
    rfl
  rw [handler, other, if_neg (by decide)]
  have some_ : ("issues/".toList ++ id).isEmpty = false := rfl
  simp only [front, some_, absent, index, Bool.false_eq_true, if_false, if_true]

theorem call_latestEvent (blank : Bool) {n : Nat} (small : n < 2 ^ 53) :
    (route blank .get (resolvePath (IssuePage.latestEventPath (false, .ofNat n)))).call =
      some (.latestEvent, [.ofList (Nat.toDigits 10 n)]) := by
  have text : scalars (IssuePage.numberText (false, .ofNat n)) = Nat.toDigits 10 n := by
    rw [IssuePage.numberText, Bool.false_and, if_neg (by decide), Spa.toText_ofNat small, scalars_decimal]
  have path : IssuePage.latestEventPath (false, .ofNat n) =
      joinPath (["api".toList, "issues".toList] ++ encodeComponent (Nat.toDigits 10 n) :: ["event".toList]) := by
    rw [IssuePage.latestEventPath, text, encodeComponent_toDigits]
    rfl
  have plain : ∀ segment ∈ ["api".toList, "issues".toList] ++ ["event".toList],
      '/' ∉ segment ∧ isSingleDot segment = false ∧ isDoubleDot segment = false := by decide
  have undotted : ∀ s : List Char, s.all Char.isDigit = false → Nat.toDigits 10 n ≠ s := by
    rintro s other rfl
    exact absurd (List.all_eq_true.mpr (toDigits_isDigit n)) (by simp [other])
  have parts : segments (joinPath (["api".toList, "issues".toList] ++ Nat.toDigits 10 n :: ["event".toList])) =
      ["api".toList, "issues".toList] ++ Nat.toDigits 10 n :: ["event".toList] := by
    have slashes : '/' ∉ Nat.toDigits 10 n := fun mem => absurd (toDigits_isDigit n _ mem) (by decide)
    exact segments_joinPath (by simp [slashes]) (by simp)
  have free : literals (Nat.toDigits 10 n) (["api".toList, "issues".toList].foldl (fun table s => literals s table) table) =
      [] := rfl
  have fits : (blank || !(Nat.toDigits 10 n).isEmpty) = true := by simp
  have below := search_param free fits ["event".toList]
  have found : search blank (Routing.params (["api".toList, "issues".toList].foldl (fun table s => literals s table) table))
      ["event".toList] = some ([], [(.get, .latestEvent)]) := by cases blank <;> rfl
  rw [found] at below
  have decoded := decodeText_encodeComponent (Nat.toDigits 10 n)
  rw [encodeComponent_toDigits] at decoded
  rw [path, resolvePath_encodeComponent (undotted _ rfl) (undotted _ rfl) plain, encodeComponent_toDigits, route, parts,
    search_append below]
  simp [Routed.call, decoded]

theorem follow_issueLink {assets : List Char → Bool} (index : assets "index.html".toList = true)
    (apart : ∀ id, assets ("issues/".toList ++ id) = false) (blank : Bool) (url : PublicUrl) {n : Nat} (small : n < 2 ^ 53) :
    IssuePage.follow assets blank (issueLink url.text n).toList = some (.latestEvent, [.ofList (Nat.toDigits 10 n)]) := by
  have slashes : '/' ∉ Nat.toDigits 10 n := fun mem => absurd (toDigits_isDigit n _ mem) (by decide)
  have text : (issueLink url.text n).toList =
      url.scheme ++ ':' :: '/' :: '/' :: (url.authority ++ '/' :: ("issues/".toList ++ Nat.toDigits 10 n)) := by
    show (Admin.trimEndSlashes url.text ++ "/issues/" ++ toString (n : Int)).toList = _
    have digits : (n : Int).repr.toList = Nat.toDigits 10 n := by
      show (String.ofList (Nat.toDigits 10 n)).toList = _
      exact String.toList_ofList
    simp [Ingest.trimEndSlashes_text, digits]
  have inside : ∀ c ∈ '/' :: ("issues/".toList ++ Nat.toDigits 10 n), (!endsPath c) = true := by
    have front : ∀ c ∈ "/issues/".toList, endsPath c = false := Ingest.none_of_all (by decide)
    intro c mem
    rcases List.mem_append.mp (show c ∈ "/issues/".toList ++ Nat.toDigits 10 n from mem) with first | last
    · rw [front c first]
      rfl
    · rw [(plain_digit (toDigits_isDigit n c last)).2.2.1]
      rfl
  have path : joinPath ["issues".toList, Nat.toDigits 10 n] = '/' :: ("issues/".toList ++ Nat.toDigits 10 n) := by
    simp [joinPath, List.intercalate]
  have address : Uri.split (issueLink url.text n).toList =
      some ⟨url.scheme, url.authority, joinPath ["issues".toList, Nat.toDigits 10 n], none⟩ := by
    rw [text, split_eq url.scheme_ne_nil url.in_scheme url.in_authority rfl]
    simp only [List.span_eq_takeWhile_dropWhile, List.takeWhile_eq_self_iff.mpr inside,
      List.dropWhile_eq_nil_iff.mpr inside, path]
  have parameter : IssuePage.params (joinPath ["issues".toList, Nat.toDigits 10 n]) = some (decimal n) := by
    have parts : segments (joinPath ["issues".toList, Nat.toDigits 10 n]) = ["issues".toList, Nat.toDigits 10 n] :=
      segments_joinPath (by simp [slashes]) (by simp)
    have decoded := decodeText_encodeComponent (Nat.toDigits 10 n)
    rw [encodeComponent_toDigits] at decoded
    rw [IssuePage.params, parts]
    simp only [decoded, Option.map_some, encode, String.toList_ofList, encode_toDigits]
    exact if_pos ⟨trivial, by simp⟩
  have number : IssuePage.load (decimal n) = some (false, .ofNat n) := by
    rw [IssuePage.load, Double.parseInt_decimal, Double.ofNat_small small]
    rfl
  rw [IssuePage.follow, address]
  simp only [Option.bind_eq_bind, Option.bind_some, route_page blank _ slashes, handler_page index _ (apart _), and_self,
    if_true, parameter, number, call_latestEvent blank small]

/-- The store has the issue, with its id under its key. -/
def Stored (issue : Issue) (db : Db) : Prop :=
  ∃ row ∈ db.issues.rows, row.id = issue.id ∧ row.key = (issue.project, issue.fingerprint)

variable {db db' : Db} {issue : Issue}

theorem Stored.of_same (stored : Stored issue db) (issues : db'.issues = db.issues) : Stored issue db' := by
  rwa [Stored, issues]

theorem Stored.update {p : IssueRow → Bool} {f : IssueRow → IssueRow} (stored : Stored issue db)
    (keys : ∀ row, (f row).key = row.key) (ids : ∀ row, (f row).id = row.id) (issues : db'.issues = db.issues.update p f keys) :
    Stored issue db' := by
  obtain ⟨row, mem, id, key⟩ := stored
  refine ⟨if p row then f row else row, ?_, ?_, ?_⟩
  · rw [issues]
    exact (Table.mem_update keys).mpr ⟨row, mem, rfl⟩
  · split_ifs
    · exact (ids row).trans id
    · exact id
  · split_ifs
    · exact (keys row).trans key
    · exact key

theorem Stored.upsertRow (stored : Stored issue db) {input : UpsertInput} {answer : IssueRow × Bool × Bool}
    (done : upsertRow input db = .ok (answer, db')) : Stored issue db' := by
  cases found : db.issues.find? input.key with
  | none =>
      obtain ⟨issues, inserted, upserted⟩ := upsertRow_of_new found
      cases upserted.symm.trans done
      obtain ⟨row, mem, same⟩ := stored
      refine ⟨row, ?_, same⟩
      rw [Table.rows_of_insert inserted]
      exact List.mem_append_left _ mem
  | some old =>
      cases (upsertRow_of_old found).symm.trans done
      exact stored.update (bumpIssue_key input _) (fun _ => rfl) rfl

theorem upsertInput_stored (now : UtcNow) (received : SqliteTime) (input : BatchUpsertInput) :
    (upsertInput now received input).Keeps (Stored issue) := by
  intro db result db' done stored
  obtain ⟨⟨row, created, regressed⟩, db₁, upserted, rest⟩ := bind_eq_ok_iff.mp done
  obtain ⟨u, db₂, inserted, rest⟩ := bind_eq_ok_iff.mp rest
  cases rest
  exact (stored.upsertRow upserted).of_same (Wire.insertEvent_issues inserted).1

theorem batch_stored (now : UtcNow) (batch : List BatchUpsertInput) {received : Nat → SqliteTime}
    {results : List UpsertResult} (sound : Integrity db) (done : upsertBatchWithEvents now received batch db = .ok (results, db')) :
    ∀ result ∈ results, Stored result.issue db' := by
  induction batch generalizing received results db with
  | nil =>
      cases done
      exact fun _ none => absurd none List.not_mem_nil
  | cons input batch ih =>
      obtain ⟨result, db₁, first, rest⟩ := bind_eq_ok_iff.mp done
      obtain ⟨later, db₂, others, rest⟩ := bind_eq_ok_iff.mp rest
      cases rest
      have sound₁ : Integrity db₁ := Integrity.upsertInput_keeps now _ input db result db₁ first sound
      refine List.forall_mem_cons.mpr ⟨?_, ih sound₁ others⟩
      obtain ⟨row, reading, written, -, -⟩ := upsertInput_written sound first
      have here : Stored result.issue db₁ := by
        rw [reading]
        exact ⟨row, Wire.mem_of_issueOfId written, rfl, rfl⟩
      exact upsertBatchWithEvents_keeps (upsertInput_stored now) _ batch db₁ _ _ others here

theorem digest_channel (sound : Integrity db) {w : World} {batch : List BatchUpsertInput} {channel : List Trigger}
    {trigger : Trigger} (mem : trigger ∈ (Digest.processBatch
      (transact w (upsertBatchWithEvents w.now w.received batch) db).1).1.foldl trySend channel) :
    trigger ∈ channel ∨ Stored trigger.issue (transact w (upsertBatchWithEvents w.now w.received batch) db).2 := by
  rcases Alerts.digest_channel_cases mem with old | ⟨results, new, done⟩
  · exact .inl old
  · obtain ⟨result, reported, triggered⟩ := List.mem_filterMap.mp new
    rw [Alerts.issue_of_trigger triggered]
    exact .inr (batch_stored w.now _ sound done result reported)

structure Linked (s : State) : Prop where
  sound : Integrity s.db
  numbered : Wire.Numbered s.db
  waiting : ∀ trigger ∈ s.channel, Stored trigger.issue s.db
  inHand : ∀ trigger ∈ Delivery.inHand s.task, Stored trigger.issue s.db

namespace Linked

variable {channel : List Trigger} {task : Task}

theorem of_same (linked : Linked ⟨db, channel, task⟩) (sound : Integrity db') (issues : db'.issues = db.issues)
    (seq : db'.issueSeq = db.issueSeq) {task' : Task}
    (held : ∀ trigger ∈ Delivery.inHand task', trigger ∈ Delivery.inHand task) : Linked ⟨db', channel, task'⟩ where
  sound := sound
  numbered := linked.numbered.of_same issues seq
  waiting trigger mem := (linked.waiting trigger mem).of_same issues
  inHand trigger mem := (linked.inHand trigger (held trigger mem)).of_same issues

theorem digest (linked : Linked ⟨db, channel, task⟩) (w : World) (batch : List Digest.IngestEvent) :
    Linked (Webhook.step ⟨db, channel, task⟩ (.digest w batch)) := by
  have keeps : ∀ issue, Stored issue db → Stored issue (Webhook.step ⟨db, channel, task⟩ (.digest w batch)).db :=
    fun issue stored => transact_keeps (upsertBatchWithEvents_keeps (upsertInput_stored w.now) _ _) stored
  refine ⟨?_, ?_, fun trigger mem => ?_, fun trigger mem => keeps _ (linked.inHand trigger mem)⟩
  · exact transact_keeps (upsertBatchWithEvents_keeps (Integrity.upsertInput_keeps _) _ _) linked.sound
  · refine transact_keeps (upsertBatchWithEvents_keeps (fun received input => ?_) _ _) linked.numbered
    intro db result db' done numbered
    exact (numbered.upsertInput done).1
  · rcases digest_channel linked.sound mem with old | new
    · exact keeps _ (linked.waiting trigger old)
    · exact new

theorem setStatus (linked : Linked ⟨db, channel, task⟩) (w : World) (issueId : Int) (status : IssueStatus) :
    Linked (Webhook.step ⟨db, channel, task⟩ (.setStatus w issueId status)) := by
  have keeps : ∀ issue, Stored issue db → Stored issue (transact w (Store.setStatus w.now issueId status) db).2 :=
    fun issue stored => transact_keeps
      (setStatus_keeps fun _ stored => stored.update (triageIssue_key status) (fun _ => rfl) rfl) stored
  refine ⟨?_, ?_, fun trigger mem => keeps _ (linked.waiting trigger mem), fun trigger mem =>
    keeps _ (linked.inHand trigger mem)⟩
  · exact transact_keeps (setStatus_keeps fun _ sound => sound.updateStatus _ _) linked.sound
  · exact transact_keeps (setStatus_keeps fun _ numbered => numbered.updateStatus _ _) linked.numbered

theorem receive (linked : Linked ⟨db, channel, task⟩) : Linked (Webhook.step ⟨db, channel, task⟩ .receive) := by
  cases task <;> cases channel <;> try exact linked
  rename_i trigger rest
  have later : ∀ other ∈ rest, Stored other.issue db := fun other mem => linked.waiting other (List.mem_cons_of_mem _ mem)
  refine ⟨linked.sound, linked.numbered, later, fun other mem => ?_⟩
  cases quiet : silenced trigger.issue.status with
  | true =>
      simp only [Webhook.step, quiet, if_true, Delivery.inHand] at mem
      exact absurd mem List.not_mem_nil
  | false =>
      simp only [Webhook.step, quiet, Bool.false_eq_true, if_false, Delivery.inHand] at mem
      obtain rfl := List.mem_singleton.mp mem
      exact linked.waiting other List.mem_cons_self

theorem step {s : State} (linked : Linked s) (action : Action) : Linked (Webhook.step s action) := by
  obtain ⟨db, channel, task⟩ := s
  cases action with
  | digest w batch => exact linked.digest w batch
  | setStatus w issueId status => exact linked.setStatus w issueId status
  | receive => exact linked.receive
  | lookUp w =>
      cases task <;> try exact linked
      rename_i trigger
      have reads : (projectByName w.now trigger.issue.project).Keeps (· = db) := .read _
      have same := transact_keeps (w := w) reads rfl
      have sound : Integrity (transact w (projectByName w.now trigger.issue.project) db).2 := by
        rw [same]
        exact linked.sound
      refine linked.of_same sound (congrArg _ same) (congrArg _ same) fun other mem => ?_
      split at mem
      · exact mem
      · exact absurd mem List.not_mem_nil
  | answer w code =>
      cases task <;> try exact linked
      rename_i trigger url
      have keeps : (recordWebhookAttempt w.now trigger.issue.project code).Keeps
          fun db' => Integrity db' ∧ db'.issues = db.issues ∧ db'.issueSeq = db.issueSeq :=
        .execute fun db' kept => ⟨kept.1.of_same ⟨rfl, rfl⟩ ⟨rfl, rfl⟩, kept.2⟩
      have kept := transact_keeps (w := w) keeps ⟨linked.sound, rfl, rfl⟩
      exact linked.of_same kept.1 kept.2.1 kept.2.2 fun _ none => absurd none List.not_mem_nil

end Linked

/-- From any database that calls lead to, with fewer than 2^53 ids drawn: whenever the task posts an alert, the link in
its body is followed to the call for the latest event of an issue that the store has, the one of the alert. -/
theorem run_alerts_lead_to_issues {assets : List Char → Bool} (index : assets "index.html".toList = true)
    (apart : ∀ id, assets ("issues/".toList ++ id) = false) (blank : Bool) (url : PublicUrl) (argon2 : Argon2)
    (calls : List (World × Call)) (actions : List Action) :
    let s := Machine.run Webhook.step ⟨performAll (exec argon2) calls Db.empty, [], .receiving⟩ actions
    s.db.issueSeq < 2 ^ 53 → ∀ trigger hook, s.task = .posting trigger hook →
      ∃ link id row, titleLink (buildPayload trigger url.text) = some link ∧
        IssuePage.follow assets blank link.toList = some (.latestEvent, [id]) ∧ parseI64 id.toList = some row.id ∧
        issueOfId row.id s.db = some row ∧ row.key = (trigger.issue.project, trigger.issue.fingerprint) := by
  intro s room trigger hook posting
  have start : Linked ⟨performAll (exec argon2) calls Db.empty, [], .receiving⟩ := {
    sound := performAll_invariant (exec argon2) Integrity (exec_integrity argon2) calls Integrity.empty
    numbered := performAll_invariant (exec argon2) Wire.Numbered (Wire.exec_numbered argon2) calls Wire.Numbered.empty
    waiting := fun _ none => absurd none List.not_mem_nil
    inHand := fun _ none => absurd none List.not_mem_nil }
  have linked : Linked s := Machine.run_keeps Linked (fun _ action linked => linked.step action) actions start
  have held : trigger ∈ Delivery.inHand s.task := by
    rw [posting]
    exact List.mem_singleton_self _
  obtain ⟨row, mem, same, key⟩ := linked.inHand trigger held
  have drawn := (linked.numbered.rows row mem).1
  obtain ⟨n, natural⟩ := Int.eq_ofNat_of_zero_le (show 0 ≤ trigger.issue.id by omega)
  have small : n < 2 ^ 53 := by omega
  refine ⟨_, .ofList (Nat.toDigits 10 n), row, titleLink_buildPayload trigger url.text, ?_, ?_,
    issueOfId_of_mem linked.sound mem, key⟩
  · rw [natural]
    exact follow_issueLink index apart blank url small
  · rw [same, natural, String.toList_ofList]
    exact parseI64_toDigits (by omega)

theorem run_alerts_lead_to_issues_sample :
    let assets : List Char → Bool := (· == "index.html".toList)
    let s := Machine.run Webhook.step ⟨performAll (exec plainArgon2) Alerts.hooked Db.empty, [], .receiving⟩
      [Alerts.firstEvent, .receive, .lookUp (noonWorld 4)]
    ∃ trigger hook, s.task = .posting trigger hook ∧
      ∃ link id row, titleLink (buildPayload trigger Ingest.localUrl.text) = some link ∧
        IssuePage.follow assets false link.toList = some (.latestEvent, [id]) ∧ parseI64 id.toList = some row.id ∧
        issueOfId row.id s.db = some row ∧ row.key = (trigger.issue.project, trigger.issue.fingerprint) := by
  intro assets s
  have busy : (Alerts.postedUrl s.task).isSome := by decide +kernel
  obtain ⟨hook, posted⟩ := Option.isSome_iff_exists.mp busy
  obtain ⟨trigger, posting⟩ := Alerts.postedUrl_eq_some posted
  have apart : ∀ id, assets ("issues/".toList ++ id) = false := fun id => by simp [assets]
  have room : s.db.issueSeq < 2 ^ 53 := by decide +kernel
  exact ⟨trigger, hook, posting, run_alerts_lead_to_issues (by decide) apart false Ingest.localUrl plainArgon2 Alerts.hooked _ room
    trigger hook posting⟩

end Errex.Proof.AlertLinks
