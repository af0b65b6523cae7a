import Errex.Model.Digest
import Errex.Model.EventJson
import Errex.Proof.Rfc3339
import Errex.Proof.Tags

/-!
# Stored payloads

The payload of an event is read back as that event: its typed fields without exception but for the timestamp, whose
text is RFC 3339 only in a year of four digits, and its raw fields up to what serde_json makes of their floats.
-/

namespace Errex.Proof.EventJson
open Foundation Calendar Text Model Members

/-! ## Raw values -/

inductive Normal : Value → Prop
  | null : Normal .null
  | bool (b : Bool) : Normal (.bool b)
  | number (n : Number) : Normal (.number n)
  | string (s : String) : Normal (.string s)
  | array {elements : List Value} (all : ∀ v ∈ elements, Normal v) : Normal (.array elements)
  | object {members : Map} (ordered : Ordered members) (all : ∀ m ∈ members, Normal m.2) : Normal (.object members)

theorem mem_insert {members : Map} {key : String} {value : Value} {m : String × Value} (mem : m ∈ members.insert key value) :
    m = (key, value) ∨ m ∈ members := by
  induction members with
  | nil => exact .inl (List.mem_singleton.mp mem)
  | cons n members ih =>
      rw [Map.insert] at mem
      split_ifs at mem
      · exact (List.mem_cons.mp mem).imp id (List.mem_cons_of_mem n)
      · exact List.mem_cons.mp mem
      · rcases List.mem_cons.mp mem with rfl | mem
        · exact .inr List.mem_cons_self
        · exact (ih mem).imp id (List.mem_cons_of_mem n)

theorem ordered_insert {members : Map} (ordered : Ordered members) (key : String) (value : Value) :
    Ordered (members.insert key value) := by
  induction members with
  | nil => exact List.pairwise_singleton _ _
  | cons n members ih =>
      obtain ⟨above, rest⟩ := List.pairwise_cons.mp ordered
      rw [Map.insert]
      split_ifs with same before
      · subst same
        exact List.pairwise_cons.mpr ⟨above, rest⟩
      · refine List.pairwise_cons.mpr ⟨fun m mem => ?_, ordered⟩
        rcases List.mem_cons.mp mem with rfl | mem
        · exact before
        · exact String.lt_trans before (above m mem)
      · refine List.pairwise_cons.mpr ⟨fun m mem => ?_, ih rest⟩
        rcases mem_insert mem with rfl | mem
        · exact lt_of_not_lt before same
        · exact above m mem

theorem insert_last {members : Map} {key : String} (behind : ∀ m ∈ members, m.1 < key) (value : Value) :
    members.insert key value = members ++ [(key, value)] := by
  induction members with
  | nil => rfl
  | cons n members ih =>
      have before := behind n List.mem_cons_self
      have ne : key ≠ n.1 := fun same => String.lt_irrefl _ (same ▸ before)
      rw [Map.insert, if_neg ne, if_neg (String.lt_asymm before), ih fun m mem => behind m (List.mem_cons_of_mem _ mem)]
      rfl

theorem normal_elements {elements : List Value} (all : ∀ v ∈ elements, Normal v.normalize) :
    ∀ v ∈ normalizeElements elements, Normal v := by
  induction elements with
  | nil => exact nofun
  | cons v rest ih =>
      obtain ⟨first, later⟩ := List.forall_mem_cons.mp all
      rw [normalizeElements]
      exact List.forall_mem_cons.mpr ⟨first, ih later⟩

theorem normal_members {members map : Map} (each : ∀ m ∈ members, Normal m.2.normalize) (ordered : Ordered map)
    (all : ∀ m ∈ map, Normal m.2) :
    Ordered (normalizeMembers members map) ∧ ∀ m ∈ normalizeMembers members map, Normal m.2 := by
  induction members generalizing map with
  | nil => exact ⟨ordered, all⟩
  | cons member rest ih =>
      obtain ⟨first, later⟩ := List.forall_mem_cons.mp each
      rw [normalizeMembers]
      refine ih later (ordered_insert ordered member.1 _) fun m mem => ?_
      rcases mem_insert mem with rfl | mem
      · exact first
      · exact all m mem

theorem normal_normalize (v : Value) : Normal v.normalize := by
  induction v using Value.induct with
  | null => exact .null
  | bool b => exact .bool b
  | number n => exact .number n
  | string s => exact .string s
  | array elements each => exact .array (normal_elements each)
  | object members each =>
      obtain ⟨ordered, all⟩ := normal_members each .nil nofun
      exact .object ordered all

theorem normalizeElements_eq (elements : List Value) : normalizeElements elements = elements.map Value.normalize := by
  induction elements with
  | nil => rfl
  | cons v rest ih => rw [normalizeElements, ih, List.map_cons]

theorem normalizeMembers_append {members map : Map} (ordered : Ordered (map ++ members))
    (fixed : ∀ m ∈ members, m.2.normalize = m.2) : normalizeMembers members map = map ++ members := by
  induction members generalizing map with
  | nil => rw [normalizeMembers, List.append_nil]
  | cons m members ih =>
      have behind : ∀ n ∈ map, n.1 < m.1 := fun n mem =>
        (List.pairwise_append.mp ordered).2.2 n mem m List.mem_cons_self
      have shift : map ++ m :: members = (map ++ [m]) ++ members := by simp
      rw [shift] at ordered ⊢
      rw [normalizeMembers, fixed m List.mem_cons_self, insert_last behind,
        ih ordered fun n mem => fixed n (List.mem_cons_of_mem _ mem)]

theorem Normal.normalize {v : Value} (normal : Normal v) : v.normalize = v := by
  induction normal with
  | null | bool | number | string => rfl
  | array all ih =>
      rw [Value.normalize, normalizeElements_eq, List.map_congr_left ih, List.map_id']
  | object ordered all ih =>
      rw [Value.normalize, normalizeMembers_append (show Ordered ([] ++ _) from ordered) ih, List.nil_append]

/-! ## Texts of documents -/

section Reread

variable (bits : UInt64 → Option UInt64)

mutual

/-- What is read of the text of a document, over what is read of the text of a float. -/
def reread : Value → Option Value
  | .number (.float b) => (bits b).map fun b => .number (.float b)
  | .number (.posInt n) => some (.number (.posInt n))
  | .number (.negInt n) => some (.number (.negInt n))
  | .array elements => (rereadElements elements).map .array
  | .object members => (rereadMembers members).map .object
  | .null => some .null
  | .bool b => some (.bool b)
  | .string s => some (.string s)

def rereadElements : List Value → Option (List Value)
  | [] => some []
  | v :: rest => do pure ((← reread v) :: (← rereadElements rest))

def rereadMembers : List (String × Value) → Option (List (String × Value))
  | [] => some []
  | (k, v) :: rest => do pure ((k, ← reread v) :: (← rereadMembers rest))

end

theorem rereadElements_eq_some {elements elements' : List Value} (done : rereadElements bits elements = some elements') :
    List.Forall₂ (fun v v' => reread bits v = some v') elements elements' := by
  induction elements generalizing elements' with
  | nil =>
      obtain rfl := Option.some.inj done
      exact .nil
  | cons v rest ih =>
      obtain ⟨v', first, done⟩ := Option.bind_eq_some_iff.mp done
      obtain ⟨rest', later, done⟩ := Option.bind_eq_some_iff.mp done
      obtain rfl := Option.some.inj done
      exact .cons first (ih later)

theorem rereadMembers_eq_some {members members' : Map} (done : rereadMembers bits members = some members') :
    List.Forall₂ (fun m m' => m.1 = m'.1 ∧ reread bits m.2 = some m'.2) members members' := by
  induction members generalizing members' with
  | nil =>
      obtain rfl := Option.some.inj done
      exact .nil
  | cons m rest ih =>
      obtain ⟨v', first, done⟩ := Option.bind_eq_some_iff.mp done
      obtain ⟨rest', later, done⟩ := Option.bind_eq_some_iff.mp done
      obtain rfl := Option.some.inj done
      exact .cons ⟨rfl, first⟩ (ih later)

mutual

def floats : Value → List UInt64
  | .number (.float b) => [b]
  | .array elements => floatsOfElements elements
  | .object members => floatsOfMembers members
  | .null | .bool _ | .string _ | .number (.posInt _) | .number (.negInt _) => []

def floatsOfElements : List Value → List UInt64
  | [] => []
  | v :: rest => floats v ++ floatsOfElements rest

def floatsOfMembers : List (String × Value) → List UInt64
  | [] => []
  | (_, v) :: rest => floats v ++ floatsOfMembers rest

end

theorem rereadElements_eq_iff {elements : List Value}
    (each : ∀ v ∈ elements, (reread bits v = some v ↔ ∀ b ∈ floats v, bits b = some b)) :
    rereadElements bits elements = some elements ↔ ∀ b ∈ floatsOfElements elements, bits b = some b := by
  induction elements with
  | nil => simp [rereadElements, floatsOfElements]
  | cons v rest ih =>
      obtain ⟨first, later⟩ := List.forall_mem_cons.mp each
      rw [floatsOfElements, List.forall_mem_append, ← first, ← ih later]
      simp [rereadElements, Option.bind_eq_some_iff]

theorem rereadMembers_eq_iff {members : Map}
    (each : ∀ m ∈ members, (reread bits m.2 = some m.2 ↔ ∀ b ∈ floats m.2, bits b = some b)) :
    rereadMembers bits members = some members ↔ ∀ b ∈ floatsOfMembers members, bits b = some b := by
  induction members with
  | nil => simp [rereadMembers, floatsOfMembers]
  | cons m rest ih =>
      obtain ⟨first, later⟩ := List.forall_mem_cons.mp each
      rw [floatsOfMembers, List.forall_mem_append, ← first, ← ih later]
      obtain ⟨k, v⟩ := m
      simp [rereadMembers, Option.bind_eq_some_iff]

theorem reread_eq_iff (v : Value) : reread bits v = some v ↔ ∀ b ∈ floats v, bits b = some b := by
  induction v using Value.induct with
  | null | bool | string => simp [reread, floats]
  | number n => cases n <;> simp [reread, floats]
  | array elements each => simp [reread, floats, rereadElements_eq_iff bits each]
  | object members each => simp [reread, floats, rereadMembers_eq_iff bits each]

theorem exists_of_forall₂ {α β : Type} {R : α → β → Prop} {as : List α} {bs : List β} (related : List.Forall₂ R as bs)
    {b : β} (mem : b ∈ bs) : ∃ a ∈ as, R a b := by
  induction related with
  | nil => cases mem
  | cons first rest ih =>
      rcases List.mem_cons.mp mem with rfl | mem
      · exact ⟨_, List.mem_cons_self, first⟩
      · obtain ⟨a, inside, related⟩ := ih mem
        exact ⟨a, List.mem_cons_of_mem _ inside, related⟩

theorem keys_of_forall₂ {members members' : Map} (related : List.Forall₂ (fun m m' => m.1 = m'.1) members members') :
    members.map Prod.fst = members'.map Prod.fst := by
  induction related with
  | nil => rfl
  | cons first rest ih => rw [List.map_cons, List.map_cons, first, ih]

theorem Normal.reread {v v' : Value} (normal : Normal v) (done : reread bits v = some v') : Normal v' := by
  induction normal generalizing v' with
  | null | bool | string =>
      obtain rfl := Option.some.inj done
      constructor
  | number n =>
      cases n with
      | posInt n | negInt n =>
          obtain rfl := Option.some.inj done
          constructor
      | float b =>
          obtain ⟨b', -, rfl⟩ := Option.map_eq_some_iff.mp done
          constructor
  | array all ih =>
      obtain ⟨elements', each, rfl⟩ := Option.map_eq_some_iff.mp done
      refine .array fun v' mem => ?_
      obtain ⟨v, inside, first⟩ := exists_of_forall₂ (rereadElements_eq_some bits each) mem
      exact ih v inside first
  | object ordered all ih =>
      obtain ⟨members', each, rfl⟩ := Option.map_eq_some_iff.mp done
      have related := rereadMembers_eq_some bits each
      refine .object ?_ fun m' mem => ?_
      · have keys := List.pairwise_map.mpr ordered
        rw [keys_of_forall₂ (related.imp fun _ _ h => h.1)] at keys
        exact List.pairwise_map.mp keys
      · obtain ⟨m, inside, -, first⟩ := exists_of_forall₂ related mem
        exact ih m inside first

theorem reread_ne_null {v v' : Value} (some_ : v ≠ .null) (done : reread bits v = some v') : v' ≠ .null := by
  rintro rfl
  cases v with
  | null => exact some_ rfl
  | bool | string => cases done
  | number n =>
      cases n with
      | posInt | negInt => cases done
      | float b =>
          obtain ⟨_, -, eq⟩ := Option.map_eq_some_iff.mp done
          cases eq
  | array | object =>
      obtain ⟨_, -, eq⟩ := Option.map_eq_some_iff.mp done
      cases eq

/-! ## Structs -/

def Plain (v : Value) : Prop := reread bits v = some v

theorem plain_array {elements : List Value} (all : ∀ v ∈ elements, Plain bits v) : Plain bits (.array elements) := by
  have each : rereadElements bits elements = some elements := by
    induction elements with
    | nil => rfl
    | cons v rest ih =>
        have first : reread bits v = some v := all v List.mem_cons_self
        rw [rereadElements, first, ih fun v mem => all v (List.mem_cons_of_mem _ mem)]
        rfl
  rw [Plain, reread, each]
  rfl

def rereadFields : List (String × Option Value) → Option (List (String × Option Value))
  | [] => some []
  | (name, none) :: rest => do pure ((name, none) :: (← rereadFields rest))
  | (name, some v) :: rest => do pure ((name, some (← reread bits v)) :: (← rereadFields rest))

def written (fields : List (String × Option Value)) : List (String × Value) :=
  fields.filterMap fun (name, value) => value.map (name, ·)

theorem written_append (fields more : List (String × Option Value)) : written (fields ++ more) = written fields ++ written more :=
  List.filterMap_append

theorem written_none (name : String) (fields : List (String × Option Value)) : written ((name, none) :: fields) = written fields :=
  rfl

theorem written_some (name : String) (v : Value) (fields : List (String × Option Value)) :
    written ((name, some v) :: fields) = (name, v) :: written fields := rfl

theorem reread_emit (fields : List (String × Option Value)) :
    reread bits (emit fields) = (rereadFields bits fields).map emit := by
  have members : ∀ fields, rereadMembers bits (written fields) = (rereadFields bits fields).map written := by
    intro fields
    induction fields with
    | nil => rfl
    | cons field rest ih =>
        obtain ⟨name, value⟩ := field
        cases value with
        | none =>
            rw [written_none, ih, rereadFields]
            cases rereadFields bits rest <;> rfl
        | some v =>
            rw [written_some, rereadMembers, ih, rereadFields]
            cases reread bits v <;> cases rereadFields bits rest <;> rfl
  have whole : emit fields = .object (written fields) := rfl
  rw [whole, reread, members, Option.map_map]
  rfl

theorem rereadFields_append_plain {fields : List (String × Option Value)}
    (plain : ∀ field ∈ fields, ∀ v ∈ field.2, Plain bits v) (rest : List (String × Option Value)) :
    rereadFields bits (fields ++ rest) = (rereadFields bits rest).map (fields ++ ·) := by
  induction fields with
  | nil => cases h : rereadFields bits rest <;> simp [h]
  | cons field fields ih =>
      obtain ⟨name, value⟩ := field
      have later := ih fun field mem => plain field (List.mem_cons_of_mem _ mem)
      cases value with
      | none =>
          rw [List.cons_append, rereadFields, later]
          cases rereadFields bits rest <;> rfl
      | some v =>
          have first : reread bits v = some v := plain _ List.mem_cons_self v rfl
          rw [List.cons_append, rereadFields, later, first]
          cases rereadFields bits rest <;> rfl

theorem plain_emit {fields : List (String × Option Value)} (plain : ∀ field ∈ fields, ∀ v ∈ field.2, Plain bits v) :
    Plain bits (emit fields) := by
  have whole := rereadFields_append_plain bits plain []
  rw [List.append_nil] at whole
  rw [Plain, reread_emit, whole]
  simp [rereadFields]

end Reread

theorem structFields_emit {fields : List (String × Option Value)} (distinct : (fields.map Prod.fst).Nodup) :
    structFields (fields.map Prod.fst) (emit fields) = some (fields.map Prod.snd) := by
  have absent : ∀ (name : String) (fields : List (String × Option Value)), name ∉ fields.map Prod.fst →
      (written fields).filter (·.1 == name) = [] := by
    intro name fields fresh
    rw [List.filter_eq_nil_iff]
    rintro ⟨k, v⟩ mem same
    obtain ⟨⟨name', value⟩, inside, eq⟩ := List.mem_filterMap.mp mem
    obtain ⟨_, -, eq⟩ := Option.map_eq_some_iff.mp eq
    obtain ⟨rfl, rfl⟩ := Prod.mk.inj eq
    obtain rfl : name' = name := by simpa using same
    exact fresh (List.mem_map_of_mem inside)
  have one : ∀ field ∈ fields, member field.1 (written fields) = some field.2 := by
    rintro ⟨name, value⟩ mem
    obtain ⟨before, after, rfl⟩ := List.append_of_mem mem
    rw [List.map_append, List.map_cons, List.nodup_append] at distinct
    obtain ⟨-, rest, apart⟩ := distinct
    have fresh_after := absent name after (List.nodup_cons.mp rest).1
    have fresh_before := absent name before fun inside => apart _ inside _ List.mem_cons_self rfl
    change member name _ = some value
    rw [member, written_append, List.filter_append, fresh_before, List.nil_append]
    cases value with
    | none => rw [written_none, fresh_after]
    | some v =>
        have here : ((name, v) :: written after).filter (·.1 == name) = [(name, v)] := by
          rw [List.filter_cons_of_pos (by simp), fresh_after]
        rw [written_some, here]
  have all : ∀ some_ ⊆ fields, (some_.map Prod.fst).mapM (fun name => member name (written fields)) =
      some (some_.map Prod.snd) := by
    intro some_ inside
    induction some_ with
    | nil => rfl
    | cons field rest ih =>
        obtain ⟨first, later⟩ := List.cons_subset.mp inside
        rw [List.map_cons, List.mapM_cons, one field first, ih later]
        rfl
  exact all fields (List.Subset.refl _)

/-! ## Identifiers and levels -/

theorem drop_block {block : List Char} {n : Nat} (length : block.length = n) (rest : List Char) :
    (block ++ '-' :: rest).drop (n + 1) = rest := by
  rw [← length, ← List.drop_drop, List.drop_left]
  rfl

theorem getElem?_block {block rest : List Char} {n : Nat} (length : block.length = n) :
    (block ++ '-' :: rest)[n]? = some '-' := by
  rw [← length, List.getElem?_append_right le_rfl, Nat.sub_self]
  rfl

theorem parseHyphenated_blocks {a b c d e : List Char} (ha : a.length = 8) (hb : b.length = 4) (hc : c.length = 4)
    (hd : d.length = 4) (he : e.length = 12) :
    parseHyphenated (a ++ '-' :: (b ++ '-' :: (c ++ '-' :: (d ++ '-' :: e)))) = parseSimple (a ++ b ++ c ++ d ++ e) := by
  generalize whole : a ++ '-' :: (b ++ '-' :: (c ++ '-' :: (d ++ '-' :: e))) = s
  have drop₁ : s.drop 9 = b ++ '-' :: (c ++ '-' :: (d ++ '-' :: e)) := whole ▸ drop_block ha _
  have drop₂ : s.drop 14 = c ++ '-' :: (d ++ '-' :: e) := by
    have next := drop_block hb (c ++ '-' :: (d ++ '-' :: e))
    rwa [← drop₁, List.drop_drop] at next
  have drop₃ : s.drop 19 = d ++ '-' :: e := by
    have next := drop_block hc (d ++ '-' :: e)
    rwa [← drop₂, List.drop_drop] at next
  have drop₄ : s.drop 24 = e := by
    have next := drop_block hd e
    rwa [← drop₃, List.drop_drop] at next
  have dash₁ : s[8]? = some '-' := whole ▸ getElem?_block ha
  have dash₂ : s[13]? = some '-' := by
    rw [← getElem?_block hb, ← drop₁, List.getElem?_drop]
  have dash₃ : s[18]? = some '-' := by
    rw [← getElem?_block hc, ← drop₂, List.getElem?_drop]
  have dash₄ : s[23]? = some '-' := by
    rw [← getElem?_block hd, ← drop₃, List.getElem?_drop]
  have length : s.length = 36 := by
    rw [← whole]
    simp [ha, hb, hc, hd, he]
  have take₁ : s.take 8 = a := by rw [← whole, List.take_left' ha]
  rw [parseHyphenated, drop₁, drop₂, drop₃, drop₄, take₁, List.take_left' hb, List.take_left' hc, List.take_left' hd]
  have dashes : [8, 13, 18, 23].all (fun k => s[k]? == some '-') = true := by
    simp only [List.all_cons, List.all_nil, dash₁, dash₂, dash₃, dash₄, beq_self_eq_true, Bool.and_self]
  rw [if_pos ⟨length, dashes⟩]

theorem parseSimple_hexDigits (uuid : Uuid) : parseSimple (hexDigits 32 uuid.bits.toNat) = some uuid := by
  obtain ⟨values, read, value⟩ := mapM_hexDigits 32 uuid.bits.toNat
  have small : uuid.bits.toNat < 16 ^ 32 := uuid.bits.isLt
  rw [Nat.mod_eq_of_lt small] at value
  rw [parseSimple, read]
  simp [value]

theorem parseStr_hyphenated (uuid : Uuid) : Uuid.parseStr uuid.hyphenated = some uuid := by
  have length := hexDigits_length 32 uuid.bits.toNat
  have parsed := parseSimple_hexDigits uuid
  rw [Uuid.hyphenated, Uuid.parseStr]
  generalize hexDigits 32 uuid.bits.toNat = digits at length parsed ⊢
  have blocks := parseHyphenated_blocks (a := digits.take 8) (b := (digits.drop 8).take 4) (c := (digits.drop 12).take 4)
    (d := (digits.drop 16).take 4) (e := digits.drop 20) (by simp [length]) (by simp [length]) (by simp [length])
    (by simp [length]) (by simp [length])
  have together : digits.take 8 ++ (digits.drop 8).take 4 ++ (digits.drop 12).take 4 ++ (digits.drop 16).take 4 ++
      digits.drop 20 = digits := by
    have step : ∀ n k, digits.take n ++ (digits.drop n).take k = digits.take (n + k) := fun n k =>
      (List.take_add).symm
    rw [step, step, step, List.take_append_drop]
  rw [together, parsed] at blocks
  simp only [String.toList_ofList]
  have total : (digits.take 8 ++ '-' :: ((digits.drop 8).take 4 ++ '-' :: ((digits.drop 12).take 4 ++
      '-' :: ((digits.drop 16).take 4 ++ '-' :: digits.drop 20)))).length = 36 := by simp [length]
  rw [if_neg (by rw [total]; decide), if_neg (by rw [total]; simp), if_neg (by rw [total]; simp), blocks]

theorem ofJson_level (level : Level) : Level.ofJson (.string level.name) = some level := by
  cases level <;> rfl

/-! ## Round trips -/

theorem optional_orNull {α : Type} {read : Value → Option α} {write : α → Value} (back : ∀ a, read (write a) = some a)
    (some_ : ∀ a, write a ≠ .null) (x : Option α) : Model.optional read (orNull write x) = some x := by
  cases x with
  | none => rfl
  | some a =>
      rw [orNull, Model.optional, back]
      · rfl
      · exact some_ a

theorem listOf_map {α : Type} {read : Value → Option α} {write : α → Value} (back : ∀ a, read (write a) = some a)
    (as : List α) : listOf read (.array (as.map write)) = some as := by
  rw [listOf]
  induction as with
  | nil => rfl
  | cons a as ih =>
      rw [List.map_cons, List.mapM_cons, back, ih]
      rfl

theorem u32Of_u32Json (n : UInt32) : u32Of (u32Json n) = some n := by
  have small := n.toNat_lt
  have kept : (UInt64.ofNat n.toNat).toNat = n.toNat := by
    rw [UInt64.toNat_ofNat', Nat.mod_eq_of_lt (by omega)]
  rw [u32Json, u32Of, kept, if_pos small, UInt32.ofNat_toNat]

theorem optional_text (x : Option String) : Model.optional Value.asStr (orNull .string x) = some x :=
  @optional_orNull _ Value.asStr Value.string (fun _ => rfl) nofun x

theorem optional_u32 (x : Option UInt32) : Model.optional u32Of (orNull u32Json x) = some x :=
  optional_orNull u32Of_u32Json nofun x

theorem optional_bool (x : Option Bool) : Model.optional boolOf (orNull .bool x) = some x :=
  @optional_orNull _ boolOf Value.bool (fun _ => rfl) nofun x

theorem optional_level (x : Option Level) : Model.optional Level.ofJson (orNull (.string ·.name) x) = some x :=
  optional_orNull ofJson_level nofun x

theorem frame_roundTrip (f : Model.Frame) : Frame.ofJson f.toJson = some f := by
  have read : structFields ["filename", "function", "module", "lineno", "colno", "in_app"] f.toJson = some _ :=
    structFields_emit (by simp)
  rw [Frame.ofJson, read]
  simp [optional_text, optional_u32, optional_bool]

theorem stacktrace_roundTrip (s : Stacktrace) : Stacktrace.ofJson s.toJson = some s := by
  have read : structFields ["frames"] s.toJson = some _ := structFields_emit (by simp)
  rw [Stacktrace.ofJson, read]
  simp [defaulted, listOf_map frame_roundTrip]

theorem exception_roundTrip (e : ExceptionInfo) : ExceptionInfo.ofJson e.toJson = some e := by
  have read : structFields ["type", "value", "module", "stacktrace"] e.toJson = some _ := structFields_emit (by simp)
  have trace := optional_orNull stacktrace_roundTrip nofun e.stacktrace
  rw [ExceptionInfo.ofJson, read]
  simp [optional_text, trace]

theorem container_roundTrip (c : ExceptionContainer) : ExceptionContainer.ofJson c.toJson = some c := by
  have read : structFields ["values"] c.toJson = some _ := structFields_emit (by simp)
  rw [ExceptionContainer.ofJson, read]
  simp [defaulted, listOf_map exception_roundTrip]

/-! ## Typed fields have no floats -/

section PlainFields

variable {bits : UInt64 → Option UInt64}

theorem plain_orNull {α : Type} {write : α → Value} (plain : ∀ a, Plain bits (write a)) (x : Option α) :
    ∀ v ∈ orNull write x, Plain bits v := by
  cases x with
  | none =>
      rintro v mem
      obtain rfl := Option.some.inj mem
      rfl
  | some a =>
      rintro v mem
      obtain rfl := Option.some.inj mem
      exact plain a

theorem plain_map {α : Type} {write : α → Value} (plain : ∀ a, Plain bits (write a)) (as : List α) :
    ∀ v ∈ some (Value.array (as.map write)), Plain bits v := by
  rintro v mem
  obtain rfl := Option.some.inj mem
  refine plain_array bits fun v mem => ?_
  obtain ⟨a, -, rfl⟩ := List.mem_map.mp mem
  exact plain a

theorem plain_text (x : Option String) : ∀ v ∈ orNull Value.string x, Plain bits v :=
  @plain_orNull bits _ Value.string (fun _ => rfl) x

theorem plain_u32 (x : Option UInt32) : ∀ v ∈ orNull u32Json x, Plain bits v :=
  @plain_orNull bits _ u32Json (fun _ => rfl) x

theorem plain_bool (x : Option Bool) : ∀ v ∈ orNull Value.bool x, Plain bits v :=
  @plain_orNull bits _ Value.bool (fun _ => rfl) x

theorem plain_frame (f : Model.Frame) : Plain bits f.toJson := by
  apply plain_emit
  simp only [List.forall_mem_cons]
  exact ⟨plain_text _, plain_text _, plain_text _, plain_u32 _, plain_u32 _, plain_bool _, nofun⟩

theorem plain_stacktrace (s : Stacktrace) : Plain bits s.toJson := by
  apply plain_emit
  simp only [List.forall_mem_cons]
  exact ⟨plain_map plain_frame _, nofun⟩

theorem plain_exception (e : ExceptionInfo) : Plain bits e.toJson := by
  apply plain_emit
  simp only [List.forall_mem_cons]
  exact ⟨plain_text _, plain_text _, plain_text _, plain_orNull plain_stacktrace _, nofun⟩

theorem plain_container (c : ExceptionContainer) : Plain bits c.toJson := by
  apply plain_emit
  simp only [List.forall_mem_cons]
  exact ⟨plain_map plain_exception _, nofun⟩

end PlainFields

/-! ## Events -/

def typedFields (e : Event) : List (String × Option Value) :=
  [("event_id", some (.string e.eventId.hyphenated)), ("timestamp", some (.string e.timestamp.isoText)),
    ("platform", orNull .string e.platform), ("level", orNull (.string ·.name) e.level),
    ("environment", orNull .string e.environment), ("release", orNull .string e.release),
    ("server_name", orNull .string e.serverName), ("message", orNull .string e.message),
    ("exception", orNull ExceptionContainer.toJson e.exception)]

structure RawFields where
  breadcrumbs : Option Value
  tags : Option Value
  contexts : Option Value
  extra : Option Value
  user : Option Value
  request : Option Value

namespace RawFields

def values (r : RawFields) : List (Option Value) := [r.breadcrumbs, r.tags, r.contexts, r.extra, r.user, r.request]

def fields (r : RawFields) : List (String × Option Value) :=
  [("breadcrumbs", r.breadcrumbs), ("tags", r.tags), ("contexts", r.contexts), ("extra", r.extra), ("user", r.user),
    ("request", r.request)]

end RawFields

def rawFields (e : Event) : RawFields := ⟨e.breadcrumbs, e.tags, e.contexts, e.extra, e.user, e.request⟩

def withRaw (e : Event) (r : RawFields) : Event :=
  { e with
    breadcrumbs := r.breadcrumbs
    tags := r.tags
    contexts := r.contexts
    extra := r.extra
    user := r.user
    request := r.request }

theorem withRaw_eq_iff {e : Event} {r : RawFields} : withRaw e r = e ↔ r = rawFields e := by
  cases e
  cases r
  simp [withRaw, rawFields]

theorem plain_typedFields (bits : UInt64 → Option UInt64) (e : Event) :
    ∀ field ∈ typedFields e, ∀ v ∈ field.2, Plain bits v := by
  have text : ∀ s, ∀ v ∈ some (Value.string s), Plain bits v := by
    rintro s v mem
    obtain rfl := Option.some.inj mem
    rfl
  simp only [typedFields, List.forall_mem_cons]
  exact ⟨text _, text _, plain_text _, @plain_orNull bits _ (fun level : Level => .string level.name) (fun _ => rfl) _, plain_text _, plain_text _, plain_text _, plain_text _,
    plain_orNull plain_container _, nofun⟩

def Kept (value : Option Value) : Prop := ∀ v ∈ value, Normal v ∧ v ≠ .null

theorem raw_of_kept {value : Option Value} (kept : Kept value) : raw value = some value := by
  cases value with
  | none => rfl
  | some v =>
      obtain ⟨normal, some_⟩ := kept v rfl
      rw [raw, Model.optional]
      · rw [normal.normalize]
        rfl
      · exact some_

theorem ofJson_emit (newV4 : Uuid) (now : DateTime) (e : Event) (r : RawFields) (kept : ∀ v ∈ r.values, Kept v) :
    Event.ofJson newV4 now (emit (typedFields e ++ r.fields)) =
      if FourDigitYear e.timestamp.day then some (withRaw e r) else none := by
  have read : structFields ["event_id", "timestamp", "platform", "level", "environment", "release", "server_name",
      "message", "exception", "breadcrumbs", "tags", "contexts", "extra", "user", "request"]
      (emit (typedFields e ++ r.fields)) = some _ := @structFields_emit (typedFields e ++ r.fields) (by
    simp [typedFields, RawFields.fields])
  have time : parseFromRfc3339 e.timestamp.isoText = _ := Rfc3339.parseFromRfc3339_zone e.timestamp .letter
  have chain := optional_orNull container_roundTrip nofun e.exception
  simp only [RawFields.values, List.forall_mem_cons] at kept
  obtain ⟨k₁, k₂, k₃, k₄, k₅, k₆, -⟩ := kept
  have id : defaulted newV4 Uuid.ofJson (some (.string e.eventId.hyphenated)) = some e.eventId :=
    parseStr_hyphenated e.eventId
  have stamp : defaulted now.toReading deserializeSentryTimestamp (some (.string e.timestamp.isoText)) = _ := time
  rw [Event.ofJson, read]
  simp only [typedFields, RawFields.fields, List.map_cons, List.map_nil, List.cons_append, List.nil_append]
  rw [Option.bind_eq_bind, Option.bind_some]
  dsimp only
  rw [id, stamp, optional_text, optional_text, optional_text, optional_text, optional_text, optional_level, chain,
    raw_of_kept k₁, raw_of_kept k₂, raw_of_kept k₃, raw_of_kept k₄, raw_of_kept k₅, raw_of_kept k₆]
  split_ifs with year
  · rfl
  · rfl

/-! ## Events at ingest -/

theorem kept_of_raw {field value : Option Value} (decoded : raw field = some value) : Kept value := by
  rintro v rfl
  cases field with
  | none => cases decoded
  | some w =>
      cases w <;> cases decoded <;> exact ⟨normal_normalize _, nofun⟩

theorem kept_of_ofJson {newV4 : Uuid} {now : DateTime} {doc : Value} {e : Event}
    (decoded : Event.ofJson newV4 now doc = some e) : ∀ value ∈ (rawFields e).values, Kept value := by
  rw [Event.ofJson] at decoded
  obtain ⟨fields, -, decoded⟩ := Option.bind_eq_some_iff.mp decoded
  split at decoded
  · -- the typed fields come first
    iterate 9 obtain ⟨_, -, decoded⟩ := Option.bind_eq_some_iff.mp decoded
    obtain ⟨_, breadcrumbs, decoded⟩ := Option.bind_eq_some_iff.mp decoded
    obtain ⟨_, tags, decoded⟩ := Option.bind_eq_some_iff.mp decoded
    obtain ⟨_, contexts, decoded⟩ := Option.bind_eq_some_iff.mp decoded
    obtain ⟨_, extra, decoded⟩ := Option.bind_eq_some_iff.mp decoded
    obtain ⟨_, user, decoded⟩ := Option.bind_eq_some_iff.mp decoded
    obtain ⟨_, request, decoded⟩ := Option.bind_eq_some_iff.mp decoded
    obtain rfl := Option.some.inj decoded
    simp only [rawFields, RawFields.values, List.forall_mem_cons]
    exact ⟨kept_of_raw breadcrumbs, kept_of_raw tags, kept_of_raw contexts, kept_of_raw extra, kept_of_raw user,
      kept_of_raw request, nofun⟩
  · cases decoded

open UserAgent in
theorem rawFields_augment (e : Event) : rawFields (augmentTagsFromUserAgent e) =
    { rawFields e with tags := (augmentTagsFromUserAgent e).tags } := by
  rw [augmentTagsFromUserAgent]
  split
  · rfl
  · split <;> rfl

open UserAgent in
theorem kept_tags_augment {e : Event} (kept : Kept e.tags) : Kept (augmentTagsFromUserAgent e).tags := by
  rw [Tags.tags_augment]
  split_ifs
  · exact kept
  · rintro v mem
    obtain rfl := Option.some.inj mem
    have before : Ordered (ensureTagsObject e.tags) ∧ ∀ m ∈ ensureTagsObject e.tags, Normal m.2 := by
      unfold ensureTagsObject
      split
      · rename_i members tags
        obtain ⟨normal, -⟩ := kept _ tags
        cases normal with
        | object ordered all => exact ⟨ordered, all⟩
      · exact ⟨.nil, nofun⟩
    refine ⟨.object (Tags.ordered_insertAll before.1 _) fun m mem => ?_, nofun⟩
    rcases (Tags.mem_insertAll before.1 (Tags.distinct_derived e)).mp mem with old | ⟨-, text, -, eq⟩
    · exact before.2 m old
    · rw [eq]
      exact .string text

/-- An event that the ingest route prepares: a decoded document, with the tags of its User-Agent where the route adds
them. -/
def AtIngest (newV4 : Uuid) (now : DateTime) (e : Event) : Prop :=
  ∃ doc decoded, Event.ofJson newV4 now doc = some decoded ∧
    (e = decoded ∨ e = UserAgent.augmentTagsFromUserAgent decoded)

theorem AtIngest.kept {newV4 : Uuid} {now : DateTime} {e : Event} (ingested : AtIngest newV4 now e) :
    ∀ value ∈ (rawFields e).values, Kept value := by
  obtain ⟨doc, decoded, read, rfl | rfl⟩ := ingested
  · exact kept_of_ofJson read
  · have before := kept_of_ofJson read
    rw [rawFields_augment]
    simp only [rawFields, RawFields.values, List.forall_mem_cons] at before ⊢
    exact ⟨before.1, kept_tags_augment before.2.1, before.2.2⟩

def rawFloats (e : Event) : List UInt64 := (rawFields e).values.flatMap fun value => (value.map floats).getD []

/-! ## The payload -/

section Payload

variable {bits : UInt64 → Option UInt64}

def rereadRaw (bits : UInt64 → Option UInt64) : Option Value → Option (Option Value)
  | none => some none
  | some v => (reread bits v).map some

theorem kept_rereadRaw {value value' : Option Value} (kept : Kept value) (done : rereadRaw bits value = some value') :
    Kept value' := by
  cases value with
  | none =>
      obtain rfl := Option.some.inj done
      exact nofun
  | some v =>
      obtain ⟨v', again, rfl⟩ := Option.map_eq_some_iff.mp done
      obtain ⟨normal, some_⟩ := kept v rfl
      rintro _ ⟨⟩
      exact ⟨normal.reread bits again, reread_ne_null bits some_ again⟩

theorem rereadRaw_eq_iff {value : Option Value} :
    rereadRaw bits value = some value ↔ ∀ b ∈ (value.map floats).getD [], bits b = some b := by
  cases value with
  | none => simp [rereadRaw]
  | some v => simp [rereadRaw, reread_eq_iff]

def RawFields.reread (bits : UInt64 → Option UInt64) (r : RawFields) : Option RawFields := do
  pure ⟨← rereadRaw bits r.breadcrumbs, ← rereadRaw bits r.tags, ← rereadRaw bits r.contexts,
    ← rereadRaw bits r.extra, ← rereadRaw bits r.user, ← rereadRaw bits r.request⟩

theorem RawFields.reread_eq_some {r r' : RawFields} : r.reread bits = some r' ↔
    rereadRaw bits r.breadcrumbs = some r'.breadcrumbs ∧ rereadRaw bits r.tags = some r'.tags ∧
      rereadRaw bits r.contexts = some r'.contexts ∧ rereadRaw bits r.extra = some r'.extra ∧
      rereadRaw bits r.user = some r'.user ∧ rereadRaw bits r.request = some r'.request := by
  cases r'
  simp [RawFields.reread, Option.bind_eq_some_iff]

theorem rereadFields_cons (name : String) (value : Option Value) (rest : List (String × Option Value)) :
    rereadFields bits ((name, value) :: rest) =
      (rereadRaw bits value).bind fun value => (rereadFields bits rest).map ((name, value) :: ·) := by
  cases value with
  | none => cases h : rereadFields bits rest <;> simp [rereadFields, rereadRaw, h]
  | some v =>
      cases again : reread bits v <;> cases h : rereadFields bits rest <;> simp [rereadFields, rereadRaw, again, h]

theorem rereadFields_raw (r : RawFields) : rereadFields bits r.fields = (r.reread bits).map RawFields.fields := by
  rw [RawFields.fields, RawFields.reread]
  simp only [rereadFields_cons, rereadFields]
  cases rereadRaw bits r.breadcrumbs with
  | none => rfl
  | some _ =>
      cases rereadRaw bits r.tags with
      | none => rfl
      | some _ =>
          cases rereadRaw bits r.contexts with
          | none => rfl
          | some _ =>
              cases rereadRaw bits r.extra with
              | none => rfl
              | some _ =>
                  cases rereadRaw bits r.user with
                  | none => rfl
                  | some _ => cases rereadRaw bits r.request <;> rfl

theorem reread_toJson (e : Event) : reread bits e.toJson =
    ((rawFields e).reread bits).map fun r => emit (typedFields e ++ r.fields) := by
  have whole : e.toJson = emit (typedFields e ++ (rawFields e).fields) := rfl
  rw [whole, reread_emit, rereadFields_append_plain bits (plain_typedFields bits e), rereadFields_raw, Option.map_map,
    Option.map_map]
  rfl

theorem reread_kept {r r' : RawFields} (kept : ∀ value ∈ r.values, Kept value) (done : r.reread bits = some r') :
    ∀ value ∈ r'.values, Kept value := by
  obtain ⟨d₁, d₂, d₃, d₄, d₅, d₆⟩ := RawFields.reread_eq_some.mp done
  simp only [RawFields.values, List.forall_mem_cons] at kept ⊢
  obtain ⟨k₁, k₂, k₃, k₄, k₅, k₆, -⟩ := kept
  exact ⟨kept_rereadRaw k₁ d₁, kept_rereadRaw k₂ d₂, kept_rereadRaw k₃ d₃, kept_rereadRaw k₄ d₄, kept_rereadRaw k₅ d₅,
    kept_rereadRaw k₆ d₆, nofun⟩

theorem reread_raw_eq_iff (e : Event) :
    (rawFields e).reread bits = some (rawFields e) ↔ ∀ b ∈ rawFloats e, bits b = some b := by
  rw [RawFields.reread_eq_some, rawFloats, RawFields.values]
  simp only [List.flatMap_cons, List.flatMap_nil, List.append_nil, List.forall_mem_append, rereadRaw_eq_iff]

end Payload

/-- The stored payload is decoded to the event exactly in a year of four digits, and when serde_json reads the floats
of the raw fields as they were. -/
theorem payload_reads_back_iff {newV4 newV4' : Uuid} {now now' : DateTime} {e : Event} (ingested : AtIngest newV4 now e)
    {print : Value → String} {read : String → Option Value} {bits : UInt64 → Option UInt64}
    (serde : read (print e.toJson) = reread bits e.toJson) (receivedAt : UtcNow) (project : String) :
    (read (Digest.prepare (fun e => print e.toJson) receivedAt project e).payload).bind (Event.ofJson newV4' now') =
      some e ↔ FourDigitYear e.timestamp.day ∧ ∀ b ∈ rawFloats e, bits b = some b := by
  change (read (print e.toJson)).bind _ = _ ↔ _
  rw [serde, reread_toJson, ← reread_raw_eq_iff, Option.bind_map]
  constructor
  · intro back
    obtain ⟨r, again, decoded⟩ := Option.bind_eq_some_iff.mp back
    rw [Function.comp_apply, ofJson_emit newV4' now' e r (reread_kept ingested.kept again)] at decoded
    split_ifs at decoded with year
    rw [withRaw_eq_iff.mp (Option.some.inj decoded)] at again
    exact ⟨year, again⟩
  · rintro ⟨year, again⟩
    rw [again, Option.bind_some, Function.comp_apply, ofJson_emit newV4' now' e _ ingested.kept, if_pos year,
      withRaw_eq_iff.mpr rfl]

def sparseEvent (timestamp : Reading) (extra : Option Value) : Event where
  eventId := ⟨0⟩
  timestamp := timestamp
  platform := none
  level := none
  environment := none
  release := none
  serverName := none
  message := none
  exception := none
  breadcrumbs := none
  tags := none
  contexts := none
  extra := extra
  user := none
  request := none

theorem ofJson_sparse (now : DateTime) (timestamp extra : Option Value) :
    Event.ofJson ⟨0⟩ now (emit [("timestamp", timestamp), ("extra", extra)]) =
      (defaulted now.toReading deserializeSentryTimestamp timestamp).bind fun t => (raw extra).bind fun v => some (sparseEvent t v) := by
  have read : structFields ["event_id", "timestamp", "platform", "level", "environment", "release", "server_name",
      "message", "exception", "breadcrumbs", "tags", "contexts", "extra", "user", "request"]
      (emit [("timestamp", timestamp), ("extra", extra)]) = some [none, timestamp, none, none, none, none, none, none,
        none, none, none, none, extra, none, none] := by
    cases timestamp <;> cases extra <;> simp [structFields, emit, member]
  rw [Event.ofJson, read]
  rfl

def epoch : DateTime := ⟨0, minNanos_le_zero, zero_le_maxNanos⟩

def half : Value := .number (.float 0x3FE0000000000000)

def halfText : String :=
  "\x7b\"event_id\":\"00000000-0000-0000-0000-000000000000\",\"timestamp\":\"1970-01-01T00:00:00Z\"," ++
    "\"platform\":null,\"level\":null,\"environment\":null,\"release\":null,\"server_name\":null," ++
      "\"message\":null,\"exception\":null,\"extra\":0.5\x7d"

theorem half_atIngest : AtIngest ⟨0⟩ epoch (sparseEvent epoch.toReading (some half)) :=
  ⟨emit [("timestamp", none), ("extra", some half)], _, ofJson_sparse epoch none (some half), .inl rfl⟩

def readHalf (text : String) : Option Value :=
  if text = halfText then some (sparseEvent epoch.toReading (some half)).toJson else none

theorem payload_reads_back_half :
    ((readHalf halfText).bind (Event.ofJson ⟨1⟩ epoch) = some (sparseEvent epoch.toReading (some half)) ↔
      FourDigitYear epoch.day ∧ ∀ b ∈ rawFloats (sparseEvent epoch.toReading (some half)), some b = some b) := by
  have serde : readHalf halfText = reread some (sparseEvent epoch.toReading (some half)).toJson := by
    rw [readHalf, if_pos rfl, (reread_eq_iff some _).mpr fun _ _ => rfl]
  exact @payload_reads_back_iff ⟨0⟩ ⟨1⟩ epoch epoch _ half_atIngest (fun _ => halfText) readHalf some serde
    ⟨epoch, by decide⟩ "web"

def late : DateTime := ⟨253402300800 * 10 ^ 9, by decide, by decide⟩

/-- A timestamp in seconds may be of a year of five digits, whose text is not read back. -/
theorem payload_of_late_year_unread :
    Event.ofJson ⟨0⟩ epoch (.object [("timestamp", .number (.posInt 253402300800))]) = some (sparseEvent late.toReading none) ∧
      ∀ (print : Value → String) (read : String → Option Value), (∀ doc, read (print doc) = some doc) →
        ∀ (receivedAt : UtcNow) (project : String) (newV4 : Uuid) (now : DateTime),
          (read (Digest.prepare (fun e => print e.toJson) receivedAt project (sparseEvent late.toReading none)).payload).bind
            (Event.ofJson newV4 now) = none := by
  have stamp : deserializeSentryTimestamp (.number (.posInt 253402300800)) = some late.toReading := by decide +kernel
  have decoded := ofJson_sparse epoch (some (.number (.posInt 253402300800))) none
  rw [defaulted, stamp] at decoded
  refine ⟨decoded, ?_⟩
  intro print read serde receivedAt project newV4 now
  generalize unread : sparseEvent late.toReading none = e
  change (read (print e.toJson)).bind _ = none
  have whole : e.toJson = emit (typedFields e ++ (rawFields e).fields) := rfl
  have kept : ∀ value ∈ (rawFields e).values, Kept value := by
    subst unread
    simp only [rawFields, RawFields.values, List.forall_mem_cons]
    exact ⟨nofun, nofun, nofun, nofun, nofun, nofun, nofun⟩
  have year : ¬ FourDigitYear e.timestamp.day := by
    subst unread
    decide
  rw [serde, Option.bind_some, whole, ofJson_emit newV4 now e _ kept, if_neg year]

end Errex.Proof.EventJson
