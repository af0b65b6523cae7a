import Errex.Model.Spa.EventDetail
import Errex.Model.UserAgent
import Errex.Proof.Members

/-!
# Tags from the User-Agent

The augmentation inserts into tags in object form, so that every tag the SPA reads stays as it is. Tags in any other
shape are replaced by the derived ones.
-/

namespace Errex.Proof.Tags
open Foundation Utf16 Model Model.UserAgent Model.Spa Members

def insertAll (derived : List (String × String)) (members : Map) : Map :=
  derived.foldl (fun tags (key, value) => tags.orInsert key (.string value)) members

theorem ordered_insertAll {members : Map} (ordered : Ordered members) (derived : List (String × String)) :
    Ordered (insertAll derived members) := by
  induction derived generalizing members with
  | nil => exact ordered
  | cons tag derived ih => exact ih (ordered_orInsert ordered tag.1 _)

theorem mem_insertAll {members : Map} (ordered : Ordered members) {derived : List (String × String)}
    (distinct : (derived.map Prod.fst).Nodup) {key : String} {value : Value} :
    (key, value) ∈ insertAll derived members ↔ (key, value) ∈ members ∨
      (∀ n ∈ members, n.1 ≠ key) ∧ ∃ text, (key, text) ∈ derived ∧ value = .string text := by
  induction derived generalizing members with
  | nil => simp [insertAll]
  | cons tag derived ih =>
      obtain ⟨fresh, distinct⟩ := List.nodup_cons.mp distinct
      have rest := ih (ordered_orInsert ordered tag.1 (.string tag.2)) distinct
      rw [insertAll, List.foldl_cons, ← insertAll, rest, mem_orInsert ordered, absent_orInsert ordered]
      by_cases same : tag.1 = key
      · have gone : ∀ text, (key, text) ∉ derived := fun text mem => fresh (same ▸ List.mem_map_of_mem mem)
        subst same
        simp [gone, and_comm, Prod.ext_iff, eq_comm]
      · have apart : (key, value) ≠ (tag.1, .string tag.2) := fun eq => same (Prod.mk.inj eq).1.symm
        have other : ∀ text, (key, text) ≠ tag := fun text eq => same (congrArg Prod.fst eq).symm
        simp [apart, other, same]

section

variable (numberText : Number → Utf16)

theorem entryTags_isSome {entries : List (Utf16 × Value)} {out : Tags} :
    (entryTags numberText entries out).isSome ↔ ∀ entry ∈ entries, (stringOf numberText entry.2).isSome := by
  induction entries generalizing out with
  | nil => simp [entryTags]
  | cons entry entries ih =>
      cases text : stringOf numberText entry.2 <;> simp [entryTags, text, ih]

theorem entryTags_eq_some {entries : List (Utf16 × Value)} (distinct : (entries.map Prod.fst).Nodup) {out read : Tags}
    (done : entryTags numberText entries out = some read) {key value : Utf16} :
    read key = some value ↔ (key ≠ encode "__proto__" ∧ ∃ v, (key, v) ∈ entries ∧ stringOf numberText v = some value) ∨
      ((key = encode "__proto__" ∨ ∀ entry ∈ entries, entry.1 ≠ key) ∧ out key = some value) := by
  induction entries generalizing out with
  | nil =>
      obtain rfl := Option.some.inj done
      simp
  | cons entry entries ih =>
      obtain ⟨fresh, distinct⟩ := List.nodup_cons.mp distinct
      obtain ⟨text, named, done⟩ := Option.bind_eq_some_iff.mp done
      rw [ih distinct done]
      by_cases proto : key = encode "__proto__"
      · have kept : out.set entry.1 text key = out key := by
          rw [Tags.set, if_neg]
          rintro ⟨rfl, ne⟩
          exact ne proto
        rw [kept]
        simp [proto]
      by_cases same : entry.1 = key
      · have gone : ∀ v, (key, v) ∉ entries := fun v mem => fresh (same ▸ List.mem_map_of_mem mem)
        have absent : ∀ other ∈ entries, other.1 ≠ key := fun other mem eq => gone other.2 (eq ▸ mem)
        have written : out.set entry.1 text key = some text := by rw [Tags.set, if_pos ⟨same.symm, same ▸ proto⟩]
        have first : ∀ v, (key, v) ∈ entry :: entries ↔ v = entry.2 := fun v => by
          simp [gone, Prod.ext_iff, same]
        have head : ¬ ∀ other ∈ entry :: entries, other.1 ≠ key := fun all => all entry List.mem_cons_self same
        simp only [written, first, proto, gone, head, exists_eq_left, named, false_and, exists_false, and_false, or_false,
          false_or, ne_eq, not_false_eq_true, true_and, Option.some.injEq, and_iff_right_iff_imp]
        exact fun _ => absent
      · have kept : out.set entry.1 text key = out key := by
          rw [Tags.set, if_neg fun eq => same eq.1.symm]
        have later : ∀ v, (key, v) ∈ entry :: entries ↔ (key, v) ∈ entries := fun v => by
          simp only [List.mem_cons, or_iff_right_iff_imp]
          rintro rfl
          exact absurd rfl same
        simp [proto, kept, later, same]

/-- A tag that the SPA reads from a payload. -/
def Reads (tags : Option Value) (key value : Utf16) : Prop :=
  ∃ read, extractTags numberText tags = some read ∧ read key = some value

theorem reads_object {members : Map} (ordered : Ordered members) {key value : Utf16} :
    Reads numberText (some (.object members)) key value ↔ (∀ m ∈ members, (stringOf numberText m.2).isSome) ∧
      key ≠ encode "__proto__" ∧ ∃ m ∈ members, key = encode m.1 ∧ stringOf numberText m.2 = some value := by
  have distinct : ((members.map fun m => (encode m.1, m.2)).map Prod.fst).Nodup := by
    rw [List.map_map]
    refine List.pairwise_map.mpr (ordered.imp fun {a b} before same => ?_)
    rw [encode_injective same] at before
    exact String.lt_irrefl _ before
  have whole := @entryTags_isSome numberText (members.map fun m => (encode m.1, m.2)) fun _ => none
  constructor
  · rintro ⟨read, done, found⟩
    refine ⟨fun m mem => ?_, ?_⟩
    · exact whole.mp (by rw [← extractTags, done]; rfl) _ (List.mem_map_of_mem mem)
    · rcases (entryTags_eq_some numberText distinct done).mp found with ⟨plain, v, mem, text⟩ | ⟨-, none_⟩
      · obtain ⟨m, inside, eq⟩ := List.mem_map.mp mem
        obtain ⟨rfl, rfl⟩ := Prod.mk.inj eq
        exact ⟨plain, m, inside, rfl, text⟩
      · cases none_
  · rintro ⟨texts, plain, m, mem, rfl, text⟩
    have entries : ∀ entry ∈ members.map fun m => (encode m.1, m.2), (stringOf numberText entry.2).isSome := by
      intro entry mapped
      obtain ⟨n, inside, rfl⟩ := List.mem_map.mp mapped
      exact texts n inside
    obtain ⟨read, done⟩ := Option.isSome_iff_exists.mp (whole.mpr entries)
    exact ⟨read, done, (entryTags_eq_some numberText distinct done).mpr (.inl ⟨plain, m.2, List.mem_map_of_mem mem, text⟩)⟩

end

def derived (event : Event) : List (String × String) := ((extractUserAgent event).map parseUserAgent).getD []

def derivedKeys : List String := ["os.name", "os", "browser.name", "browser"]

theorem tags_augment (event : Event) : (augmentTagsFromUserAgent event).tags =
    if derived event = [] then event.tags
    else some (.object (insertAll (derived event) (ensureTagsObject event.tags))) := by
  rw [augmentTagsFromUserAgent, derived]
  cases extractUserAgent event with
  | none => rfl
  | some ua =>
      cases found : parseUserAgent ua with
      | nil => simp [found]
      | cons tag rest => simp [found, insertAll]

theorem keys_parseUserAgent (ua : String) : ((parseUserAgent ua).map Prod.fst).Sublist derivedKeys := by
  rw [parseUserAgent, List.map_append]
  cases detectOs ua <;> cases detectBrowser ua <;> simp [familyTags, derivedKeys]

theorem keys_derived (event : Event) : ((derived event).map Prod.fst).Sublist derivedKeys := by
  rw [derived]
  cases extractUserAgent event with
  | none => exact List.nil_sublist _
  | some ua => exact keys_parseUserAgent ua

theorem distinct_derived (event : Event) : ((derived event).map Prod.fst).Nodup :=
  (keys_derived event).nodup (by decide)

def InObjectForm (tags : Option Value) : Prop := ∀ v ∈ tags, ∃ members, v = .object members

theorem ordered_ensureTagsObject {tags : Option Value} (ordered : ∀ members, tags = some (.object members) → Ordered members) :
    Ordered (ensureTagsObject tags) := by
  unfold ensureTagsObject
  split
  · exact ordered _ rfl
  · exact .nil

section

variable {numberText : Number → Utf16} {event : Event}

theorem reads_derived (ordered : ∀ members, event.tags = some (.object members) → Ordered members)
    (some_ : derived event ≠ []) {key value : Utf16} :
    Reads numberText (augmentTagsFromUserAgent event).tags key value ↔
      (∀ m ∈ ensureTagsObject event.tags, (stringOf numberText m.2).isSome) ∧ key ≠ encode "__proto__" ∧
        ((∃ m ∈ ensureTagsObject event.tags, key = encode m.1 ∧ stringOf numberText m.2 = some value) ∨
          ∃ tag ∈ derived event, (∀ m ∈ ensureTagsObject event.tags, m.1 ≠ tag.1) ∧ key = encode tag.1 ∧
            value = encode tag.2) := by
  have before := ordered_ensureTagsObject ordered
  have inserted : ∀ {k v}, _ := fun {k v} => @mem_insertAll _ before _ (distinct_derived event) k v
  rw [tags_augment, if_neg some_, reads_object numberText (ordered_insertAll before _)]
  constructor
  · rintro ⟨texts, plain, ⟨k, v⟩, mem, rfl, text⟩
    refine ⟨fun m inside => texts m (inserted.mpr (.inl inside)), plain, ?_⟩
    rcases inserted.mp mem with old | ⟨absent, t, there, rfl⟩
    · exact .inl ⟨_, old, rfl, text⟩
    · exact .inr ⟨(k, t), there, absent, rfl, (Option.some.inj text).symm⟩
  · rintro ⟨texts, plain, found⟩
    refine ⟨fun ⟨k, v⟩ mem => ?_, plain, ?_⟩
    · rcases inserted.mp mem with old | ⟨-, t, -, rfl⟩
      · exact texts _ old
      · rfl
    · rcases found with ⟨m, old, same, text⟩ | ⟨tag, there, absent, rfl, rfl⟩
      · exact ⟨m, inserted.mpr (.inl old), same, text⟩
      · exact ⟨(tag.1, .string tag.2), inserted.mpr (.inr ⟨absent, tag.2, there, rfl⟩), rfl, rfl⟩

theorem ensureTagsObject_of_not_inObjectForm (other : ¬ InObjectForm event.tags) : ensureTagsObject event.tags = [] := by
  unfold ensureTagsObject
  split
  · rename_i members tags
    refine absurd ?_ other
    rw [tags]
    exact fun v mem => ⟨members, (Option.some.inj mem).symm⟩
  · rfl

/-- Tags in object form keep every pair that the SPA reads; tags in any other shape give way to what the User-Agent
says, if it says anything. No other keys are added. -/
theorem augment_keeps_tags (ordered : ∀ members, event.tags = some (.object members) → Ordered members) :
    (InObjectForm event.tags ∨ derived event = [] → ∀ key value, Reads numberText event.tags key value →
      Reads numberText (augmentTagsFromUserAgent event).tags key value) ∧
    (¬ InObjectForm event.tags → derived event ≠ [] → ∀ key value,
      Reads numberText (augmentTagsFromUserAgent event).tags key value ↔
        ∃ tag ∈ derived event, key = encode tag.1 ∧ value = encode tag.2) ∧
    ∀ key value, Reads numberText (augmentTagsFromUserAgent event).tags key value →
      (∃ before, Reads numberText event.tags key before) ∨ ∃ k ∈ derivedKeys, key = encode k := by
  have mem_keys : ∀ tag ∈ derived event, tag.1 ∈ derivedKeys := fun tag mem =>
    (keys_derived event).subset (List.mem_map_of_mem mem)
  refine ⟨fun form key value read => ?_, fun other some_ key value => ?_, fun key value read => ?_⟩
  · by_cases none_ : derived event = []
    · rwa [tags_augment, if_pos none_]
    have form := form.resolve_right none_
    rw [reads_derived ordered none_]
    cases tags : event.tags with
    | none =>
        rw [tags] at read
        obtain ⟨read, done, found⟩ := read
        obtain rfl := Option.some.inj done
        cases found
    | some v =>
        obtain ⟨members, rfl⟩ := form v tags
        rw [tags, reads_object numberText (ordered members tags)] at read
        obtain ⟨texts, plain, found⟩ := read
        exact ⟨texts, plain, .inl found⟩
  · rw [reads_derived ordered some_, ensureTagsObject_of_not_inObjectForm other]
    have plain : ∀ k ∈ derivedKeys, k ≠ "__proto__" := by decide
    constructor
    · rintro ⟨-, -, ⟨m, mem, -⟩ | ⟨tag, mem, -, key_, value_⟩⟩
      · cases mem
      · exact ⟨tag, mem, key_, value_⟩
    · rintro ⟨tag, mem, rfl, rfl⟩
      exact ⟨nofun, fun same => plain _ (mem_keys tag mem) (encode_injective same), .inr ⟨tag, mem, nofun, rfl, rfl⟩⟩
  · by_cases none_ : derived event = []
    · rw [tags_augment, if_pos none_] at read
      exact .inl ⟨value, read⟩
    obtain ⟨texts, plain, old | ⟨tag, mem, -, key_, -⟩⟩ := (reads_derived ordered none_).mp read
    · by_cases form : InObjectForm event.tags
      · cases tags : event.tags with
        | none =>
            rw [tags] at old
            obtain ⟨m, mem, -⟩ := old
            cases mem
        | some v =>
            obtain ⟨members, rfl⟩ := form v tags
            rw [tags] at old texts
            exact .inl ⟨value, (reads_object numberText (ordered members tags)).mpr ⟨texts, plain, old⟩⟩
      · rw [ensureTagsObject_of_not_inObjectForm form] at old
        obtain ⟨m, mem, -⟩ := old
        cases mem
    · exact .inr ⟨tag.1, mem_keys tag mem, key_⟩

end

def linuxEvent (tags : Value) : Event where
  eventId := ⟨1⟩
  timestamp := DateTime.toReading ⟨0, minNanos_le_zero, zero_le_maxNanos⟩
  platform := none
  level := none
  environment := none
  release := none
  serverName := none
  message := none
  exception := none
  breadcrumbs := none
  tags := tags
  contexts := none
  extra := none
  user := none
  request := some (.object [("headers", .object [("User-Agent", .string "Mozilla/5.0 (X11; Linux x86_64) Firefox/115.0")])])

theorem augment_keeps_tags_object : Reads (fun _ => [])
    (augmentTagsFromUserAgent (linuxEvent (.object [("os", .string "Custom OS Forever")]))).tags
      (encode "os") (encode "Custom OS Forever") := by
  have ordered : ∀ members, (linuxEvent (.object [("os", .string "Custom OS Forever")])).tags = some (.object members) →
      Ordered members := by
    rintro members tags
    obtain rfl := Value.object.inj (Option.some.inj tags)
    exact List.pairwise_singleton _ _
  exact (augment_keeps_tags ordered).1 (.inl fun v mem => ⟨_, (Option.some.inj mem).symm⟩) _ _ ⟨_, rfl, rfl⟩

/-- Tags in the form of pairs are lost to the derived ones. -/
theorem augment_drops_pairs : ¬ ∀ (event : Event), (∀ members, event.tags = some (.object members) → Ordered members) →
    ∀ key value, Reads (fun _ => []) event.tags key value →
      Reads (fun _ => []) (augmentTagsFromUserAgent event).tags key value := by
  intro kept
  obtain ⟨read, done, found⟩ := kept (linuxEvent (.array [.array [.string "release", .string "1.2"]])) nofun (encode "release")
    (encode "1.2") ⟨_, rfl, rfl⟩
  have lost : (extractTags (fun _ => []) (augmentTagsFromUserAgent
      (linuxEvent (.array [.array [.string "release", .string "1.2"]]))).tags).map (· (encode "release")) = some none := by
    decide +kernel
  rw [done, Option.map_some, found] at lost
  cases lost

end Errex.Proof.Tags
