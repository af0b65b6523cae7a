import Errex.Model.Ingest
import Errex.Proof.Envelope.Safety
import Errex.Proof.Ingest.Limiter

/-!
# The ingest rate cap

The limiter is consulted once for an envelope, whatever it holds. So the cap on events holds of some
envelopes, whenever they come and whatever the burst, exactly when none of them carries two events
(`withinCap_iff`).
-/

namespace Errex.Proof.Ingest
open Foundation Foundation.TokenBucket Process Model Model.RateLimit Model.Ingest Model.Digest

variable {limiter : RateLimiter} {project : String} {now : Instant}

/-- An envelope posted at an instant, and what its handling meets: the database and the channel,
which other tasks change in between, and the surroundings of each call. -/
structure Post where
  request : IngestRequest
  instant : Instant
  db : Db
  channel : List IngestEvent
  store : Nat → World
  receiverGone : Nat → Bool

namespace Post

def choices (post : Post) (n : Nat) : Surroundings := ⟨post.store n, post.instant, post.receiverGone n⟩

def shared (post : Post) (limiter : RateLimiter) : Shared := ⟨post.db, limiter, post.channel⟩

def calls (route : Route) (limiter : RateLimiter) (post : Post) : List (Surroundings × IngestCall) :=
  (ingestEnvelope route post.request).calls execIngest post.choices (post.shared limiter)

def limiterAfter (route : Route) (limiter : RateLimiter) (post : Post) : RateLimiter :=
  (performAll execIngest (post.calls route limiter) (post.shared limiter)).limiter

end Post

def sentBy (project : String) : Surroundings × IngestCall → Option Instant
  | (w, .send rec) => if rec.project = project ∧ w.receiverGone = false then some w.instant else none
  | _ => none

def sentInstants (route : Route) (project : String) (limiter : RateLimiter) : List Post → List Instant
  | [] => []
  | post :: posts =>
      (post.calls route limiter).filterMap (sentBy project) ++
        sentInstants route project (post.limiterAfter route limiter) posts

namespace Post

/-- The calls of the token check, if the envelope passes it. -/
def tokenCalls (route : Route) (post : Post) : Option Nat :=
  if !route.requireAuth then some 0
  else match extractSentryKey post.request.headers post.request.query with
    | none => none
    | some key =>
        match (transact (post.store 0) (Store.projectByToken (post.store 0).now key) post.db).1 with
        | .ok (some p) => if p.name = post.request.project then some 1 else none
        | _ => none

def events (route : Route) (post : Post) : List Event :=
  match maybeGunzip route.gunzip post.request.body with
  | .error _ => []
  | .ok raw =>
      match Envelope.parseEnvelope route.serde raw with
      | .ok events => events
      | _ => []

/-- How many of the events are taken before the receiver is gone. -/
def taken (gone : Nat → Bool) : List Event → Nat
  | [] => 0
  | _ :: events => if gone 1 then 0 else taken (fun n => gone (n + 2)) events + 1

/-- The number of events that an envelope sends if the limiter lets it pass. -/
def carries (route : Route) (post : Post) : Nat :=
  match post.tokenCalls route with
  | none => 0
  | some before => taken (fun n => post.receiverGone (n + 1 + before)) (post.events route)

def sends (route : Route) (limiter : RateLimiter) (post : Post) : Nat :=
  if (limiter.check post.request.project post.instant).1 then post.carries route else 0

def limiterNext (route : Route) (limiter : RateLimiter) (post : Post) : RateLimiter :=
  if (post.tokenCalls route).isSome then (limiter.check post.request.project post.instant).2 else limiter

end Post

def Leaves (choices : Nat → Surroundings) (s : Shared) (p : IngestHandler Response) (project : String)
    (sent : List Instant) (limiter : RateLimiter) : Prop :=
  (p.calls execIngest choices s).filterMap (sentBy project) = sent ∧
    (performAll execIngest (p.calls execIngest choices s) s).limiter = limiter

section Calls

variable {choices : Nat → Surroundings} {s : Shared} {sent : List Instant} {limiter' : RateLimiter}

theorem Leaves.ret (response : Response) : Leaves choices s (.ret response) project [] s.limiter := ⟨rfl, rfl⟩

theorem Leaves.quiet {c : IngestCall} {resume : c.Reply → IngestHandler Response} (reply : c.Reply) (s' : Shared)
    (effect : execIngest (choices 0) c s = (reply, s')) (nothing : sentBy project (choices 0, c) = none)
    (rest : Leaves (fun n => choices (n + 1)) s' (resume reply) project sent limiter') :
    Leaves choices s (.call c resume) project sent limiter' := by
  simp only [Leaves, Process.calls, List.filterMap_cons, nothing, performAll, List.foldl_cons, effect]
  exact rest

theorem Leaves.sending {c : IngestCall} {resume : c.Reply → IngestHandler Response} {now : Instant}
    (reply : c.Reply) (s' : Shared) (effect : execIngest (choices 0) c s = (reply, s'))
    (sends : sentBy project (choices 0, c) = some now)
    (rest : Leaves (fun n => choices (n + 1)) s' (resume reply) project sent limiter') :
    Leaves choices s (.call c resume) project (now :: sent) limiter' := by
  simp only [Leaves, Process.calls, List.filterMap_cons, sends, performAll, List.foldl_cons, effect]
  exact ⟨congrArg (now :: ·) rest.1, rest.2⟩

theorem sendAll_leaves (route : Route) (addressee : String) {now : Instant} {f : Bool → IngestHandler Response}
    (rest : ∀ answer choices s, Leaves choices s (f answer) project [] s.limiter)
    (events : List Event) (still : ∀ n, (choices n).instant = now) :
    Leaves choices s (sendAll route addressee events >>= f) project
      (if addressee = project then .replicate (Post.taken (fun n => (choices n).receiverGone) events) now else [])
      s.limiter := by
  induction events generalizing choices s with
  | nil => simpa [Post.taken, sendAll] using rest true choices s
  | cons event events ih =>
      apply Leaves.quiet (c := .utcNow) _ s rfl rfl
      let rec' := prepare route.toJson (choices 0).store.now addressee event
      cases gone : (choices 1).receiverGone with
      | true =>
          rw [Post.taken, if_pos gone, List.replicate_zero, ite_self]
          apply Leaves.quiet (c := .send rec') false s
          · exact if_pos gone
          · simp [sentBy, gone]
          · exact rest false _ s
      | false =>
          let s' : Shared := { s with channel := s.channel ++ [rec'] }
          have accepted : execIngest (choices 1) (.send rec') s = (true, s') := if_neg (by simp [gone])
          have more := @ih (fun n => choices (n + 2)) s' fun n => still (n + 2)
          by_cases ours : addressee = project
          · rw [Post.taken, gone, if_neg Bool.false_ne_true, if_pos ours, List.replicate_succ]
            rw [if_pos ours] at more
            apply Leaves.sending (c := .send rec') true s' accepted _ more
            simp [sentBy, gone, still 1, rec', prepare, ours]
          · rw [if_neg ours] at more ⊢
            apply Leaves.quiet (c := .send rec') true s' accepted _ more
            simp [sentBy, rec', prepare, ours]

theorem taken_leaves (request : IngestRequest) : Leaves choices s (taken request) project [] s.limiter :=
  .quiet (c := .touchProjectUsed request.project) _ _ rfl rfl (.ret _)

theorem forward_leaves (route : Route) (post : Post) (still : ∀ n, (choices n).instant = post.instant) :
    Leaves choices s (forward route post.request) project
      (if post.request.project = project then
        .replicate (Post.taken (fun n => (choices n).receiverGone) (post.events route)) post.instant
      else []) s.limiter := by
  have nothing {p : IngestHandler Response} (rest : Leaves choices s p project [] s.limiter) :
      Leaves choices s p project (if post.request.project = project then
        .replicate (Post.taken (fun n => (choices n).receiverGone) []) post.instant else []) s.limiter := by
    simpa [Post.taken] using rest
  unfold forward Post.events
  cases maybeGunzip route.gunzip post.request.body with
  | error error => exact nothing (.ret _)
  | ok raw =>
      dsimp only
      cases Envelope.parseEnvelope route.serde raw with
      | err error => exact nothing (.ret _)
      | panic => exact nothing ⟨rfl, rfl⟩
      | outOfFuel => exact nothing ⟨rfl, rfl⟩
      | ok events =>
          cases events with
          | nil => exact nothing (taken_leaves _)
          | cons event events =>
              refine sendAll_leaves route post.request.project (fun answer choices s => ?_) _ still
              cases answer with
              | false => exact .ret _
              | true => exact taken_leaves _

theorem accept_leaves (choices : Nat → Surroundings) (s : Shared) (route : Route) (post : Post) (still : ∀ n, (choices n).instant = post.instant) :
    Leaves choices s (accept route post.request) project
      (if post.request.project = project then
        .replicate (if (s.limiter.check post.request.project post.instant).1 then
          Post.taken (fun n => (choices (n + 1)).receiverGone) (post.events route) else 0) post.instant
      else [])
      (s.limiter.check post.request.project post.instant).2 := by
  rw [← still 0]
  refine Leaves.quiet (c := .check post.request.project) _ _ rfl rfl ?_
  rw [still 0]
  show Leaves _ { s with limiter := (s.limiter.check post.request.project post.instant).2 }
    (if (s.limiter.check post.request.project post.instant).1 then forward route post.request
      else .ret (.text 429 "rate limit exceeded")) _ _ _
  cases (s.limiter.check post.request.project post.instant).1 with
  | true => exact forward_leaves route post fun n => still (n + 1)
  | false =>
      rw [if_neg Bool.false_ne_true, if_neg Bool.false_ne_true, List.replicate_zero, ite_self]
      exact .ret _

theorem ingest_leaves (project : String) (route : Route) (post : Post) (limiter : RateLimiter) :
    Leaves post.choices (post.shared limiter) (ingestEnvelope route post.request) project
      (if post.request.project = project then .replicate (post.sends route limiter) post.instant else [])
      (post.limiterNext route limiter) := by
  have refused {choices : Nat → Surroundings} {s : Shared} {n : Nat} (response : Response) (nothing : n = 0) :
      Leaves choices s (.ret response) project
        (if post.request.project = project then .replicate n post.instant else []) s.limiter := by
    rw [nothing, List.replicate_zero, ite_self]
    exact .ret _
  unfold ingestEnvelope authorize Post.sends Post.carries Post.limiterNext Post.tokenCalls
  cases route.requireAuth with
  | false =>
      exact accept_leaves post.choices (post.shared limiter) route post fun n => rfl
  | true =>
      cases extractSentryKey post.request.headers post.request.query with
      | none => exact refused _ (ite_self 0)
      | some key =>
          let lookup := transact (post.store 0) (Store.projectByToken (post.store 0).now key) post.db
          refine Leaves.quiet (c := .projectByToken key) lookup.1 { post.shared limiter with db := lookup.2 } rfl rfl ?_
          simp only [Bool.not_true, Bool.false_eq_true, if_false]
          show Leaves _ _ _ _ (if _ then .replicate (if _ then (match (match lookup.1 with
            | .ok (some p) => if p.name = post.request.project then some 1 else none
            | _ => none) with | none => 0 | some before => _) else 0) _ else _) _
          rcases found : lookup.1 with error | _ | p
          · exact refused _ (ite_self 0)
          · exact refused _ (ite_self 0)
          · by_cases named : p.name = post.request.project
            · simp only [Process.bind, pure_eq, if_pos named]
              exact accept_leaves (fun n => post.choices (n + 1)) _ route post fun n => rfl
            · simp only [Process.bind, pure_eq, if_neg named]
              exact refused _ (ite_self 0)

end Calls

def eventInstants (route : Route) (project : String) (limiter : RateLimiter) : List Post → List Instant
  | [] => []
  | post :: posts =>
      (if post.request.project = project then .replicate (post.sends route limiter) post.instant else []) ++
        eventInstants route project (post.limiterNext route limiter) posts

theorem sentInstants_eq (route : Route) (project : String) (limiter : RateLimiter) (posts : List Post) :
    sentInstants route project limiter posts = eventInstants route project limiter posts := by
  induction posts generalizing limiter with
  | nil => rfl
  | cons post posts ih =>
      obtain ⟨sent, after⟩ := ingest_leaves project route post limiter
      rw [sentInstants, eventInstants, Post.limiterAfter, Post.calls, sent, after, ih]

def sentDuring (route : Route) (project : String) (limiter : RateLimiter) (posts : List Post) (start stop : ℚ) : Nat :=
  (sentInstants route project limiter posts).countP fun now => decide (start ≤ seconds now ∧ seconds now ≤ stop)

/-- In every interval at most the burst and what the interval gains were sent. -/
def WithinCap (route : Route) (perMin burst : UInt32) (project : String) (posts : List Post) : Prop :=
  ∀ start span : ℚ, 0 ≤ span →
    (sentDuring route project (.new perMin burst) posts start (start + span) : ℚ) ≤
      (max burst 1).toNat + span * perMin.toNat / 60

theorem withinCap_iff_within (route : Route) (perMin burst : UInt32) (project : String) (posts : List Post) :
    WithinCap route perMin burst project posts ↔ ∀ start stop, start ≤ stop →
      (within start stop ((eventInstants route project (.new perMin burst) posts).map seconds) : ℚ) ≤
        (meter (.new perMin burst)).capacity + (stop - start) * (meter (.new perMin burst)).rate := by
  simp only [WithinCap, sentDuring, sentInstants_eq, within, List.countP_map]
  constructor
  · intro capped start stop order
    have bound := capped start (stop - start) (sub_nonneg.mpr order)
    rw [add_sub_cancel, mul_div_assoc] at bound
    exact bound
  · intro windows start span nonneg
    have bound := windows start (start + span) (by linarith)
    rw [add_sub_cancel_left] at bound
    rw [mul_div_assoc]
    exact bound

theorem eventInstants_sublist_granted {route : Route} {posts : List Post}
    (ready : ∀ post ∈ posts, Ready limiter project post.instant)
    (ordered : posts.Pairwise (·.instant.nanos ≤ ·.instant.nanos))
    (single : ∀ post ∈ posts, post.request.project = project → post.carries route ≤ 1) :
    ∃ times : List Instant, times.Sublist (posts.map (·.instant)) ∧
      ((eventInstants route project limiter posts).map seconds).Sublist
        (granted (meter limiter) (held limiter project) (times.map seconds)) := by
  induction posts generalizing limiter with
  | nil => exact ⟨[], .slnil, .slnil⟩
  | cons post posts ih =>
      obtain ⟨later, ordered⟩ := List.pairwise_cons.mp ordered
      have first := ready post (by simp)
      have rest := fun limiter' ready' => @ih limiter' ready' ordered fun p mem => single p (by simp [mem])
      rw [eventInstants]
      by_cases passes : (post.tokenCalls route).isSome
      · rw [Post.limiterNext, if_pos passes]
        by_cases ours : post.request.project = project
        · have least := single post (by simp) ours
          subst ours
          have checked := check_checked first
          obtain ⟨times, among, sublist⟩ := rest _ fun p mem => checked.ready.later (later p mem)
          refine ⟨post.instant :: times, among.cons_cons _, ?_⟩
          have answer : (limiter.check post.request.project post.instant).1 =
              decide (1 ≤ level (meter limiter) (held limiter post.request.project) (seconds post.instant)) := by
            rw [check_eq first]
          rw [checked.meter_eq, checked.held_eq] at sublist
          rw [if_pos rfl, List.map_append, List.map_replicate, List.map_cons, granted, Post.sends, answer]
          simp only [decide_eq_true_eq]
          split_ifs at sublist ⊢ with found
          · obtain none | one : post.carries route = 0 ∨ post.carries route = 1 := by omega
            · rw [none]
              exact sublist.cons _
            · rw [one]
              exact sublist.cons_cons _
          · exact sublist
        · have untouched := check_untouched (Ne.symm ours) limiter post.instant
          obtain ⟨times, among, sublist⟩ := rest _ fun p mem => untouched.ready (ready p (by simp [mem]))
          rw [untouched.meter_eq, untouched.held_eq] at sublist
          refine ⟨times, among.cons _, ?_⟩
          rw [if_neg ours]
          exact sublist
      · obtain ⟨times, among, sublist⟩ := rest limiter fun p mem => ready p (by simp [mem])
        have nothing : post.sends route limiter = 0 := by
          rw [Post.sends, Post.carries, Option.not_isSome_iff_eq_none.mp passes, ite_self]
        refine ⟨times, among.cons _, ?_⟩
        rw [Post.limiterNext, if_neg passes, nothing, List.replicate_zero, ite_self]
        exact sublist

theorem withinCap_of_single {route : Route} {perMin : UInt32} (burst : UInt32) (limits : 0 < perMin) {posts : List Post}
    (ordered : posts.Pairwise (·.instant.nanos ≤ ·.instant.nanos))
    (single : ∀ post ∈ posts, post.request.project = project → post.carries route ≤ 1) :
    WithinCap route perMin burst project posts := by
  have ready : Ready (.new perMin burst) project ⟨0⟩ := .new limits project ⟨0⟩
  obtain ⟨times, among, sublist⟩ := eventInstants_sublist_granted
    (fun post _ => (.new limits project post.instant : Ready (.new perMin burst) project post.instant)) ordered single
  have inOrder : (times.map seconds).Pairwise (· ≤ ·) := by
    have posted : (posts.map (·.instant)).Pairwise (·.nanos ≤ ·.nanos) := List.pairwise_map.mpr ordered
    exact List.pairwise_map.mpr ((posted.sublist among).imp seconds_le.mpr)
  apply (withinCap_iff_within route perMin burst project posts).mpr
  intro start stop order
  have covers := covers_granted (m := meter (.new perMin burst)) (b := held (.new perMin burst) project)
    ready.gains.le inOrder
  have bound := covers.within_le_capacity ready.gains.le (inOrder.sublist (granted_sublist _ _ _)) ready.room order
  exact le_trans (Nat.cast_le.mpr sublist.countP_le) bound

def aMinute : Nat := 60000000000

/-- A limiter that grants the next envelope, and gains a token in a minute. -/
structure Stocked (limiter : RateLimiter) (project : String) (now : Instant) : Prop where
  ready : Ready limiter project now
  room : 1 ≤ limiter.capacity
  gains : 1 ≤ 60 * limiter.refillPerSec
  found : 1 ≤ level (meter limiter) (held limiter project) (seconds now)

theorem Stocked.new {perMin burst : UInt32} (limits : 0 < perMin) (project : String) (now : Instant) :
    Stocked (.new perMin burst) project now := by
  have ready : Ready (.new perMin burst) project now := .new limits project now
  have room : (1 : ℚ) ≤ (max burst 1).toNat := by
    rw [show max burst 1 = if burst ≤ 1 then 1 else burst from rfl]
    split_ifs with small
    · exact Nat.cast_one.ge
    · have : (1 : UInt32).toNat < burst.toNat := by simpa [UInt32.le_iff_toNat_le] using small
      exact_mod_cast this.le
  refine ⟨ready, room, ?_, ?_⟩
  · have least : (1 : ℚ) ≤ perMin.toNat := by exact_mod_cast UInt32.lt_iff_toNat_lt.mp limits
    show (1 : ℚ) ≤ 60 * (perMin.toNat / 60)
    linarith
  · have early : 0 ≤ seconds now := by unfold seconds; positivity
    show 1 ≤ level (meter _) (full (meter _) 0) (seconds now)
    rw [level_full (m := meter (.new perMin burst)) ready.gains.le early]
    exact room

theorem Stocked.granted (stocked : Stocked limiter project now) : (limiter.check project now).1 = true := by
  rw [check_eq stocked.ready]
  exact decide_eq_true stocked.found

theorem Stocked.later (stocked : Stocked limiter project now) {later : Instant} (order : now.nanos ≤ later.nanos) :
    Stocked limiter project later where
  ready := stocked.ready.later order
  room := stocked.room
  gains := stocked.gains
  found := stocked.found.trans (level_mono stocked.ready.gains.le (seconds_le.mpr order))

theorem Stocked.check (stocked : Stocked limiter project now) {later : Instant}
    (apart : now.nanos + aMinute ≤ later.nanos) : Stocked (limiter.check project now).2 project later := by
  have checked := check_checked stocked.ready
  have capacity : (limiter.check project now).2.capacity = limiter.capacity := congrArg Meter.capacity checked.meter_eq
  have rate : (limiter.check project now).2.refillPerSec = limiter.refillPerSec := congrArg Meter.rate checked.meter_eq
  have span : (60 : ℚ) ≤ seconds later - seconds now := by
    have order : ((now.nanos + aMinute : Nat) : ℚ) ≤ later.nanos := Nat.cast_le.mpr apart
    rw [aMinute] at order
    push_cast at order
    rw [seconds, seconds]
    linarith
  refine ⟨checked.ready.later (by omega), capacity ▸ stocked.room, rate ▸ stocked.gains, ?_⟩
  rw [checked.meter_eq, checked.held_eq, if_pos stocked.found]
  apply le_level_take stocked.found _ stocked.room
  have gains := stocked.gains
  show (1 : ℚ) ≤ (seconds later - seconds now) * limiter.refillPerSec
  nlinarith [stocked.ready.gains]

theorem Stocked.limiterNext {post : Post} (stocked : Stocked limiter project post.instant) (route : Route)
    {later : Instant} (apart : post.instant.nanos + aMinute ≤ later.nanos) :
    Stocked (post.limiterNext route limiter) project later := by
  rw [Post.limiterNext]
  split_ifs
  · by_cases ours : post.request.project = project
    · rw [ours]
      exact stocked.check apart
    · have untouched := check_untouched (Ne.symm ours) limiter post.instant
      have rest := stocked.later (show post.instant.nanos ≤ later.nanos by omega)
      refine ⟨untouched.ready rest.ready, ?_, ?_, ?_⟩
      · exact (congrArg Meter.capacity untouched.meter_eq).ge.trans' rest.room
      · exact (congrArg (60 * Meter.rate ·) untouched.meter_eq).ge.trans' rest.gains
      · rw [untouched.meter_eq, untouched.held_eq]
        exact rest.found
  · exact stocked.later (by omega)

theorem replicate_sublist_eventInstants {route : Route} {posts : List Post} {post : Post}
    (stocked : ∀ post ∈ posts, Stocked limiter project post.instant)
    (apart : posts.Pairwise fun a b => a.instant.nanos + aMinute ≤ b.instant.nanos) (mem : post ∈ posts)
    (ours : post.request.project = project) :
    (List.replicate (post.carries route) post.instant).Sublist (eventInstants route project limiter posts) := by
  induction posts generalizing limiter with
  | nil => simp at mem
  | cons first posts ih =>
      obtain ⟨later, apart⟩ := List.pairwise_cons.mp apart
      have here := stocked first (by simp)
      rw [eventInstants]
      rcases List.mem_cons.mp mem with rfl | mem
      · subst ours
        rw [if_pos rfl, Post.sends, here.granted, if_pos rfl]
        exact List.sublist_append_left _ _
      · have rest := ih (fun p inside => here.limiterNext route (later p inside)) apart mem
        exact rest.trans (List.sublist_append_right _ _)

/-- The same envelopes, posted at other instants. -/
def postedAt (posts : List Post) (times : List Instant) : List Post :=
  (posts.zip times).map fun (post, now) => { post with instant := now }

theorem postedAt_pairwise {posts : List Post} {times : List Instant} (all : times.length = posts.length)
    {R : Instant → Instant → Prop} (related : times.Pairwise R) :
    (postedAt posts times).Pairwise fun a b => R a.instant b.instant := by
  have same : (postedAt posts times).map (·.instant) = times := by
    rw [postedAt, List.map_map]
    exact List.map_snd_zip all.le
  exact List.pairwise_map.mp (same.symm ▸ related)

theorem mem_postedAt {posts : List Post} {times : List Instant} {post : Post} (mem : post ∈ postedAt posts times) :
    ∃ before ∈ posts, post = { before with instant := post.instant } := by
  obtain ⟨⟨before, now⟩, inside, rfl⟩ := List.mem_map.mp mem
  exact ⟨before, (List.of_mem_zip inside).1, rfl⟩

theorem exists_mem_postedAt {posts : List Post} {times : List Instant} (all : times.length = posts.length)
    {post : Post} (mem : post ∈ posts) : ∃ now, { post with instant := now } ∈ postedAt posts times := by
  have same : (posts.zip times).map Prod.fst = posts := List.map_fst_zip all.ge
  rw [← same] at mem
  obtain ⟨⟨_, now⟩, inside, rfl⟩ := List.mem_map.mp mem
  exact ⟨now, List.mem_map_of_mem inside⟩

def minutes (n : Nat) : List Instant := (List.range n).map fun i => ⟨i * aMinute⟩

theorem minutes_apart (n : Nat) : (minutes n).Pairwise fun a b => a.nanos + aMinute ≤ b.nanos := by
  apply List.pairwise_map.mpr
  apply List.pairwise_lt_range.imp
  intro i j order
  rw [← Nat.succ_mul]
  exact Nat.mul_le_mul_right _ order

/-- The cap holds of the envelopes with every burst and at all instants in order exactly when each
of them that passes the token check sends one event of the project at most. -/
theorem withinCap_iff (route : Route) (perMin : UInt32) (limits : 0 < perMin) (project : String) (posts : List Post) :
    (∀ (burst : UInt32) (times : List Instant), times.length = posts.length → times.Pairwise (·.nanos ≤ ·.nanos) →
        WithinCap route perMin burst project (postedAt posts times)) ↔
      ∀ post ∈ posts, post.request.project = project → post.carries route ≤ 1 := by
  constructor
  · -- a burst of one, and a minute between the envelopes: the limiter grants each of them
    intro capped post mem ours
    have all : (minutes posts.length).length = posts.length := by simp [minutes]
    have apart := postedAt_pairwise all (minutes_apart posts.length)
    obtain ⟨now, posted⟩ := exists_mem_postedAt all mem
    have stocked : ∀ post ∈ postedAt posts (minutes posts.length), Stocked (.new perMin 1) project post.instant :=
      fun post _ => .new limits project post.instant
    have sent : (List.replicate (post.carries route) now).Sublist
        (eventInstants route project (.new perMin 1) (postedAt posts (minutes posts.length))) :=
      replicate_sublist_eventInstants stocked apart posted ours
    have bound := (withinCap_iff_within route perMin 1 project _).mp
      (capped 1 _ all ((minutes_apart _).imp (by omega))) (seconds now) (seconds now) le_rfl
    have least : post.carries route ≤ within (seconds now) (seconds now)
        ((eventInstants route project (.new perMin 1) (postedAt posts (minutes posts.length))).map seconds) := by
      calc post.carries route
          = within (seconds now) (seconds now) ((List.replicate (post.carries route) now).map seconds) := by
            simp [within, List.countP_replicate]
        _ ≤ _ := (sent.map seconds).countP_le
    have one : (meter (.new perMin 1)).capacity = 1 := Nat.cast_one
    rw [sub_self, zero_mul, add_zero, one] at bound
    exact_mod_cast (Nat.cast_le (α := ℚ).mpr least).trans bound
  · intro single burst times all ordered
    refine withinCap_of_single burst limits (postedAt_pairwise all ordered) fun post mem ours => ?_
    obtain ⟨before, inside, same⟩ := mem_postedAt mem
    rw [same] at ours ⊢
    exact single before inside ours

def bareEvent : Event where
  eventId := ⟨0⟩
  timestamp := noon.instant.toReading
  platform := none
  level := none
  environment := none
  release := none
  serverName := none
  message := none
  exception := none
  breadcrumbs := none
  tags := none
  contexts := none
  extra := none
  user := none
  request := none

def openRoute : Route where
  requireAuth := false
  serde := Envelope.tableSerde [("\x7b\x7d", .object []), ("\x7b\"type\":\"event\"\x7d", .object [("type", .string "event")])]
    [("\x7b\x7d", bareEvent)]
  toJson _ := "\x7b\x7d"
  gunzip body := ⟨body, none⟩

def twoEvents : Post where
  request := ⟨"web", [], "",
    ⟨"\x7b\x7d\n\x7b\"type\":\"event\"\x7d\n\x7b\x7d\n\x7b\"type\":\"event\"\x7d\n\x7b\x7d\n".toUTF8.data.toList, by decide⟩⟩
  instant := ⟨0⟩
  db := .empty
  channel := []
  store _ := noonWorld 0
  receiverGone _ := false

theorem eventInstants_twoEvents : eventInstants openRoute "web" (.new 60 1) [twoEvents] = [⟨0⟩, ⟨0⟩] := by
  decide +kernel

def oneEventPost : Post := { twoEvents with
  request := ⟨"web", [], "", ⟨"\x7b\x7d\n\x7b\"type\":\"event\"\x7d\n\x7b\x7d\n".toUTF8.data.toList, by decide⟩⟩ }

theorem carries_samples : twoEvents.carries openRoute = 2 ∧ oneEventPost.carries openRoute = 1 := by
  decide +kernel

theorem withinCap_iff_samples :
    (∀ (burst : UInt32) (times : List Instant), times.length = 2 → times.Pairwise (·.nanos ≤ ·.nanos) →
        WithinCap openRoute 60 burst "web" (postedAt [oneEventPost, oneEventPost] times)) ∧
      ¬ ∀ (burst : UInt32) (times : List Instant), times.length = 1 → times.Pairwise (·.nanos ≤ ·.nanos) →
        WithinCap openRoute 60 burst "web" (postedAt [twoEvents] times) := by
  obtain ⟨two, one⟩ := carries_samples
  constructor
  · apply (withinCap_iff openRoute 60 (by decide) "web" [oneEventPost, oneEventPost]).mpr
    simp [one]
  · intro capped
    have bound := (withinCap_iff openRoute 60 (by decide) "web" [twoEvents]).mp capped twoEvents (by simp) rfl
    omega

/-- With a burst of one it takes one token and sends two events. -/
theorem withinCap_fails : ¬ ∀ (route : Route) (perMin burst : UInt32) (project : String) (posts : List Post),
    0 < perMin → posts.Pairwise (·.instant.nanos ≤ ·.instant.nanos) → WithinCap route perMin burst project posts := by
  intro capped
  have bound := capped openRoute 60 1 "web" [twoEvents] (by decide) (by simp) 0 0 le_rfl
  rw [sentDuring, sentInstants_eq, eventInstants_twoEvents] at bound
  revert bound
  decide +kernel

end Errex.Proof.Ingest
