import Errex.Model.Spa.UnifiedInput
import Errex.Proof.Spa.Tokenizer

/-!
# The highlighter's spans

The spans of the tokens lie in the text, and go forward except where one field gives several tokens, each with the span of
the whole field (`contract_iff`).
-/

namespace Errex.Proof.Spa
open Foundation Model Spa Utf16 Regex

def Apart (tokens : List Token) : Prop := tokens.Pairwise fun t u => t.span.2 ≤ u.span.1

def Within (start stop : Nat) (tokens : List Token) : Prop :=
  ∀ t ∈ tokens, start ≤ t.span.1 ∧ t.span.1 < t.span.2 ∧ t.span.2 ≤ stop

def shown (segments : List Segment) : Utf16 := segments.flatMap Segment.text

theorem slice_append_drop {s : Utf16} {start stop : Nat} (order : start ≤ stop) : slice s start stop ++ s.drop stop = s.drop start := by
  have rest : s.drop stop = (s.drop start).drop (stop - start) := by
    rw [List.drop_drop]
    congr 1
    omega
  rw [slice, rest, List.take_append_drop]

theorem length_slice {s : Utf16} {start stop : Nat} (inside : stop ≤ s.length) : (slice s start stop).length = stop - start := by
  rw [slice, List.length_take, List.length_drop]
  omega

theorem shown_segmentsFrom {value : Utf16} {pos : Nat} {tokens : List Token} (within : Within pos value.length tokens)
    (apart : Apart tokens) : shown (segmentsFrom value pos tokens) = value.drop pos := by
  induction tokens generalizing pos with
  | nil =>
      rw [segmentsFrom]
      split
      · simp [shown]
      · rename_i behind
        rw [List.drop_eq_nil_of_le (by omega)]
        rfl
  | cons t tokens ih =>
      obtain ⟨order, inside, bound⟩ := within t List.mem_cons_self
      obtain ⟨first, apart⟩ := List.pairwise_cons.mp apart
      have later : Within t.span.2 value.length tokens := by
        intro u mem
        exact ⟨first u mem, (within u (List.mem_cons_of_mem _ mem)).2⟩
      have gap_ : shown (if pos < t.span.1 then [⟨slice value pos t.span.1, none⟩] else []) = slice value pos t.span.1 := by
        split
        · simp [shown]
        · have same : t.span.1 - pos = 0 := by omega
          simp [shown, slice, same]
      have behind := ih later apart
      rw [shown] at gap_ behind ⊢
      rw [segmentsFrom, List.flatMap_append, gap_, List.flatMap_cons, behind, slice_append_drop inside.le,
        slice_append_drop order]

theorem length_shown (value : Utf16) (pos : Nat) {tokens : List Token} (within : Within 0 value.length tokens) :
    value.length - pos ≤ (shown (segmentsFrom value pos tokens)).length := by
  induction tokens generalizing pos with
  | nil =>
      rw [segmentsFrom]
      split
      · simp [shown]
      · omega
  | cons t tokens ih =>
      obtain ⟨-, inside, bound⟩ := within t List.mem_cons_self
      have rest := ih t.span.2 fun u mem => within u (List.mem_cons_of_mem _ mem)
      have gap_ : t.span.1 - pos ≤ (shown (if pos < t.span.1 then [⟨slice value pos t.span.1, none⟩] else [])).length := by
        split
        · simp [shown, length_slice (inside.le.trans bound)]
        · omega
      rw [shown] at gap_ rest ⊢
      rw [segmentsFrom, List.flatMap_append, List.flatMap_cons, List.length_append, List.length_append,
        length_slice bound]
      omega

theorem apart_of_shown {value : Utf16} {pos : Nat} {tokens : List Token} (within : Within 0 value.length tokens)
    (bound : pos ≤ value.length) (shows : (shown (segmentsFrom value pos tokens)).length = value.length - pos) :
    (∀ t ∈ tokens, pos ≤ t.span.1) ∧ Apart tokens := by
  induction tokens generalizing pos with
  | nil => exact ⟨fun _ mem => absurd mem List.not_mem_nil, .nil⟩
  | cons t tokens ih =>
      obtain ⟨-, inside, bound_⟩ := within t List.mem_cons_self
      have within' : Within 0 value.length tokens := fun u mem => within u (List.mem_cons_of_mem _ mem)
      have least := length_shown value t.span.2 within'
      have gap_ : (shown (if pos < t.span.1 then [⟨slice value pos t.span.1, none⟩] else [])).length = t.span.1 - pos := by
        split
        · simp [shown, length_slice (inside.le.trans bound_)]
        · simp only [shown, List.flatMap_nil, List.length_nil]
          omega
      rw [shown] at gap_ least shows
      rw [segmentsFrom, List.flatMap_append, List.flatMap_cons, List.length_append, List.length_append, gap_,
        length_slice bound_] at shows
      have order : pos ≤ t.span.1 := by omega
      obtain ⟨later, apart⟩ := ih within' bound_ (by rw [shown]; omega)
      refine ⟨List.forall_mem_cons.mpr ⟨order, fun u mem => ?_⟩, List.pairwise_cons.mpr ⟨later, apart⟩⟩
      have := later u mem
      omega

structure Tidy (s : Utf16) (lexed : Lexed) : Prop where
  length : lexed.length ≤ s.length
  within : Within 0 lexed.length lexed.tokens

theorem apart_nil : Apart [] := .nil

theorem apart_single (t : Token) : Apart [t] := List.pairwise_singleton _ _

theorem tidy_whole {s : Utf16} (kind : TokenKind) {n : Nat} (some_ : 1 ≤ n) (bound : n ≤ s.length) :
    Tidy s (.whole kind n) ∧ Apart (Lexed.whole kind n).tokens :=
  ⟨⟨bound, List.forall_mem_singleton.mpr ⟨le_rfl, some_, le_rfl⟩⟩, apart_single _⟩

theorem tidy_exec {r : Regex} {kind : Match → TokenKind} {s : Utf16} {lexed : Lexed} (some_ : 1 ≤ r.minLength)
    (found : (exec r s).map (fun m => Lexed.whole (kind m) m.text.length) = some lexed) : Tidy s lexed ∧ Apart lexed.tokens := by
  obtain ⟨m, matched, rfl⟩ := Option.map_eq_some_iff.mp found
  obtain ⟨least, lead⟩ := exec_length matched
  exact tidy_whole _ (some_.trans least) lead.length_le

theorem lastIndexOf_append (x num : Utf16) : lastIndexOf (x ++ num) num = some x.length := by
  have last : ∀ (p : Nat → Bool) (k n : Nat), k ≤ n → p k = true → (∀ j, k < j → j ≤ n → p j = false) →
      (List.range (n + 1)).reverse.find? p = some k := by
    intro p k n
    induction n with
    | zero =>
        intro le here _
        obtain rfl := Nat.le_zero.mp le
        simp [List.range_succ, here]
    | succ n ih =>
        intro le here above
        rw [List.range_succ, List.reverse_append, List.reverse_singleton, List.singleton_append]
        rcases Nat.lt_or_eq_of_le le with lt | rfl
        · rw [List.find?_cons_of_neg (by rw [above _ lt le_rfl]; decide)]
          exact ih (by omega) here fun j lt le => above j lt (by omega)
        · rw [List.find?_cons_of_pos here]
  rw [lastIndexOf]
  refine last _ _ _ (by simp) (by simp) fun j lt le => ?_
  rw [← Bool.not_eq_true, List.isPrefixOf_iff_prefix]
  intro lead
  have := lead.length_le
  rw [List.length_drop, List.length_append] at this
  rw [List.length_append] at le
  omega

theorem topRe_match {s : Utf16} {m : Match} (found : exec topRe s = some m) : ∃ w blank num, m.text = (w ++ blank) ++ num ∧
    m.group 1 = some w ∧ m.group 2 = some num ∧ 1 ≤ w.length ∧ 1 ≤ num.length := by
  obtain ⟨d, mem, groups, text⟩ := exec_eq_some found
  obtain ⟨c₁, first, mem⟩ := List.mem_flatMap.mp mem
  obtain ⟨c₂, second, mem⟩ := List.mem_flatMap.mp mem
  obtain ⟨c₃, third, mem⟩ := List.mem_flatMap.mp mem
  obtain ⟨w, split₁, least₁, groups₁⟩ := mem_group first (by decide)
  obtain ⟨blank, split₂, -, groups₂⟩ := mem_plain second (by decide)
  obtain ⟨num, split₃, least₃, groups₃⟩ := mem_group third (by decide)
  obtain rfl := mem_boundary mem
  have whole : m.text ++ d.rest = ((w ++ blank) ++ num) ++ d.rest := by
    rw [← text, List.append_assoc, List.append_assoc, ← split₃, ← split₂]
    exact split₁
  have captured : m.groups = [(2, num), (1, w)] := by
    rw [groups, groups₃, groups₂, groups₁]
    rfl
  refine ⟨w, blank, num, List.append_cancel_right whole, ?_, ?_, ?_, least₃⟩
  · rw [Match.group, captured]
    rfl
  · rw [Match.group, captured]
    rfl
  · exact (show 1 ≤ _ by decide).trans least₁

theorem mostRe_match {s num : Utf16} {m : Match} (found : exec mostRe s = some m) (number : m.group 2 = some num) :
    ∃ u x, m.text = (u :: x) ++ num ∧ isSpace u = false ∧ 1 ≤ num.length := by
  obtain ⟨d, mem, groups, text⟩ := exec_eq_some found
  obtain ⟨c₁, first, mem⟩ := List.mem_flatMap.mp mem
  obtain ⟨c₂, second, mem⟩ := List.mem_flatMap.mp mem
  obtain ⟨c₃, third, mem⟩ := List.mem_flatMap.mp mem
  obtain ⟨c₄, fourth, mem⟩ := List.mem_flatMap.mp mem
  obtain rfl := mem_boundary mem
  obtain ⟨most, split₁, letters, -⟩ := mem_word first
  have groups₁ := outcomes_groups (word "most") (by decide) _ c₁ first
  obtain ⟨blank, split₂, -, groups₂⟩ := mem_plain second (by decide)
  obtain ⟨w, split₃, -, groups₃⟩ := mem_group third (by decide)
  rcases List.mem_append.mp fourth with some_ | none_
  · obtain ⟨c₅, fifth, sixth⟩ := List.mem_flatMap.mp some_
    obtain ⟨blank', split₅, -, groups₅⟩ := mem_plain fifth (by decide)
    obtain ⟨num', split₆, least, groups₆⟩ := mem_group sixth (by decide)
    have captured : m.groups = [(2, num'), (1, w)] := by
      rw [groups, groups₆, groups₅, groups₃, groups₂, groups₁]
      rfl
    have same : num' = num := by
      rw [Match.group, captured] at number
      exact Option.some.inj number
    subst same
    cases most with
    | nil => cases letters
    | cons u most =>
        have head : lower u = unit 'm' := (List.cons.inj letters).1
        have plain := @letter_of_lower u (by rw [head]; decide)
        refine ⟨u, most ++ (blank ++ (w ++ blank')), ?_, plain.2, least⟩
        refine List.append_cancel_right (show m.text ++ d.rest = _ ++ d.rest from ?_)
        have whole : s = (u :: most) ++ (blank ++ (w ++ (blank' ++ (num' ++ d.rest)))) := by
          rw [← split₆, ← split₅, ← split₃, ← split₂]
          exact split₁
        rw [← text, whole]
        simp
  · cases List.mem_singleton.mp none_
    have captured : m.groups = [(1, w)] := by
      rw [groups, groups₃, groups₂, groups₁]
      rfl
    rw [Match.group, captured] at number
    cases number

theorem topRule_tidy {s : Utf16} {lexed : Lexed} (found : topRule s = some lexed) : Tidy s lexed ∧ Apart lexed.tokens := by
  obtain ⟨m, matched, rfl⟩ := Option.map_eq_some_iff.mp found
  obtain ⟨w, blank, num, text, first, second, some_, more⟩ := topRe_match matched
  have inside := (exec_length matched).2.length_le
  have length : m.text.length = (w.length + blank.length) + num.length := by rw [text, List.length_append, List.length_append]
  have start : (lastIndexOf m.text num).getD 0 = w.length + blank.length := by
    rw [text, lastIndexOf_append, Option.getD_some, List.length_append]
  have stop : w.length + blank.length + num.length ≤ m.text.length := length.ge
  have number : w.length + blank.length < w.length + blank.length + num.length := by omega
  simp only [first, second, Option.getD_some, start]
  split
  · refine ⟨⟨inside, ?_⟩, ?_⟩
    · rintro t (_ | ⟨_, _ | ⟨_, ⟨⟩⟩⟩)
      · exact ⟨le_rfl, some_, show w.length ≤ m.text.length by omega⟩
      · exact ⟨Nat.zero_le _, number, stop⟩
    · exact List.pairwise_cons.mpr ⟨List.forall_mem_singleton.mpr (Nat.le_add_right _ _), apart_single _⟩
  · exact ⟨⟨inside, List.forall_mem_singleton.mpr ⟨Nat.zero_le _, number, stop⟩⟩, apart_single _⟩

theorem trimEnd_length {u : CodeUnit} (plain : isSpace u = false) (x : Utf16) :
    1 ≤ (trimEnd (u :: x)).length ∧ (trimEnd (u :: x)).length ≤ (u :: x).length := by
  rw [trimEnd, List.length_reverse]
  constructor
  · rw [Nat.one_le_iff_ne_zero, ne_eq, List.length_eq_zero_iff, List.dropWhile_eq_nil_iff]
    intro all
    rw [all u (by simp)] at plain
    cases plain
  · exact (List.dropWhile_suffix _).length_le.trans (List.length_reverse ..).le

theorem mostRule_tidy {s : Utf16} {lexed : Lexed} (found : mostRule s = some lexed) : Tidy s lexed ∧ Apart lexed.tokens := by
  obtain ⟨m, matched, rfl⟩ := Option.map_eq_some_iff.mp found
  obtain ⟨least, lead⟩ := exec_length matched
  cases number : m.group 2 with
  | none => exact tidy_whole _ ((show 1 ≤ _ by decide).trans least) lead.length_le
  | some num =>
      obtain ⟨u, x, text, plain, more⟩ := mostRe_match matched number
      obtain ⟨some_, short⟩ := trimEnd_length plain x
      have length : m.text.length = (u :: x).length + num.length := by rw [text, List.length_append]
      have start : (lastIndexOf m.text num).getD 0 = (u :: x).length := by rw [text, lastIndexOf_append, Option.getD_some]
      have front : m.text.take (u :: x).length = u :: x := by rw [text, List.take_left]
      have stop : (u :: x).length + num.length ≤ m.text.length := length.ge
      have number_ : (u :: x).length < (u :: x).length + num.length := by omega
      simp only [start, front]
      refine ⟨⟨lead.length_le, ?_⟩, ?_⟩
      · rintro t (_ | ⟨_, _ | ⟨_, ⟨⟩⟩⟩)
        · exact ⟨le_rfl, some_, show (trimEnd (u :: x)).length ≤ m.text.length by omega⟩
        · exact ⟨Nat.zero_le _, number_, stop⟩
      · exact List.pairwise_cons.mpr ⟨List.forall_mem_singleton.mpr short, apart_single _⟩

theorem negRule_tidy {s : Utf16} {lexed : Lexed} (found : negRule s = some lexed) : Tidy s lexed ∧ Apart lexed.tokens := by
  unfold negRule at found
  split at found
  · split at found <;> cases found
    exact tidy_whole _ le_rfl (by simp)
  · cases found

theorem quotedRule_tidy {s : Utf16} {lexed : Lexed} (found : quotedRule s = some lexed) : Tidy s lexed ∧ Apart lexed.tokens := by
  unfold quotedRule at found
  split at found
  · cases found
  · split at found
    · split at found <;> cases found
      · exact tidy_whole _ (by omega) (by simp)
      · rename_i stop index
        have inside := (List.findIdx?_eq_some_iff_getElem.mp index).1
        exact tidy_whole _ (by omega) (by simp; omega)
    · cases found

theorem timeRule_tidy {s : Utf16} {lexed : Lexed} (found : timeRule s = some lexed) : Tidy s lexed ∧ Apart lexed.tokens := by
  obtain ⟨pattern, mem, matched⟩ := List.exists_of_findSome?_eq_some found
  exact tidy_exec (timePattern_nonempty mem) matched

theorem tagRule_tidy {s : Utf16} {lexed : Lexed} (found : tagRule s = some lexed) : Tidy s lexed ∧ Apart lexed.tokens := by
  obtain ⟨m, matched, rfl⟩ := Option.map_eq_some_iff.mp found
  obtain ⟨least, lead⟩ := exec_length matched
  have some_ : 1 ≤ m.text.length := (show 1 ≤ _ by decide).trans least
  cases m.group 2 with
  | none => exact tidy_whole _ some_ lead.length_le
  | some values => exact tidy_whole _ some_ lead.length_le

theorem rules_tidy {s : Utf16} {lexed : Lexed} (found : (rules.dropLast.findSome? fun rule => rule s) = some lexed) :
    Tidy s lexed ∧ Apart lexed.tokens := by
  obtain ⟨rule, mem, found⟩ := List.exists_of_findSome?_eq_some found
  simp only [rules, List.dropLast, List.mem_cons, List.not_mem_nil, or_false] at mem
  rcases mem with rfl | rfl | rfl | rfl | rfl | rfl | rfl | rfl | rfl | rfl | rfl | rfl
  · exact tidy_exec (r := saveRe) (by decide) found
  · exact tidy_exec (r := forgetRe) (by decide) found
  · exact topRule_tidy found
  · exact mostRule_tidy found
  · exact tidy_exec (r := limitRe) (by decide) found
  · exact timeRule_tidy found
  · exact tidy_exec (r := opRe) (by decide) found
  · exact negRule_tidy found
  · exact quotedRule_tidy found
  · exact tidy_exec (r := savedRe) (by decide) found
  · exact tagRule_tidy found
  · exact tidy_exec (r := urlRe) (by decide) found

theorem bareValues_length {α : Type} (resolve : Utf16 → Option α) (fuel : Nat) (s : Utf16) :
    (bareValues resolve fuel s).2 ≤ s.length := by
  induction fuel generalizing s with
  | zero => exact Nat.zero_le _
  | succ fuel ih =>
      rw [bareValues]
      split
      · exact Nat.zero_le _
      · rename_i m matched
        have lead := (exec_length matched).2.length_le
        split
        · exact Nat.zero_le _
        · split
          · exact lead
          · rename_i u rest behind
            have length := congrArg List.length behind
            rw [List.length_drop, List.length_cons] at length
            split
            · have := ih rest
              dsimp only
              omega
            · exact lead

theorem parseBareCsv_length {α : Type} {resolve : Utf16 → Option α} {s : Utf16} {found : List α × Nat}
    (parsed : parseBareCsv resolve s = some found) : found.2 ≤ s.length := by
  have bound := bareValues_length resolve s.length s
  unfold parseBareCsv at parsed
  split at parsed
  · cases parsed
  · cases parsed
    exact bound

theorem csvRule_tidy {s : Utf16} {lexed : Lexed} (found : csvRule s = some lexed) : Tidy s lexed ∧ Apart lexed.tokens := by
  have some_ := csvRule_advances found
  unfold csvRule at found
  split at found
  · rename_i parsed
    cases found
    exact tidy_whole _ some_ (parseBareCsv_length parsed)
  · split at found
    · rename_i parsed
      cases found
      exact tidy_whole _ some_ (parseBareCsv_length parsed)
    · cases found

theorem bareRule_tidy {last : Option Token} {s : Utf16} {lexed : Lexed} (found : bareRule last s = some lexed) :
    Tidy s lexed ∧ Apart lexed.tokens := by
  obtain ⟨m, matched, rfl⟩ := Option.map_eq_some_iff.mp found
  cases csv : csvRule s with
  | some lexed => exact csvRule_tidy csv
  | none =>
      obtain ⟨least, lead⟩ := exec_length matched
      exact tidy_whole _ ((show 1 ≤ _ by decide).trans least) lead.length_le

def fieldValues (field : Utf16) (values : List Utf16) : List Utf16 :=
  if field == ofString "text" then values
  else if field == ofString "is" || field == ofString "has" then values.filter fun v => (isKind v).isSome
  else []

/-- The text begins with a `text:`, `is:` or `has:` of two values or more that give tokens, and no other rule takes it. -/
def RepeatsSpan (s : Utf16) : Prop :=
  s.head?.any isSpace = false ∧ (∀ rule ∈ rules.dropLast, rule s = none) ∧
    ∃ m, exec fieldRe s = some m ∧
      2 ≤ (fieldValues (toLowerCase ((m.group 1).getD [])) (listed ((m.group 2).getD []))).length

theorem fieldKinds_length (field : Utf16) (values : List Utf16) :
    2 ≤ (fieldKinds field values).length ↔ 2 ≤ (fieldValues field values).length := by
  have other : ∀ {name : String}, ofString name ≠ ofString "text" ∧ ofString name ≠ ofString "is" ∧
      ofString name ≠ ofString "has" → (fieldValues (ofString name) values) = [] := by
    rintro name ⟨text, is_, has⟩
    simp [fieldValues, text, is_, has]
  have filtered : ∀ values : List Utf16, (values.filterMap isKind).length = (values.filter fun v => (isKind v).isSome).length := by
    intro values
    rw [List.length_filterMap_eq_countP, List.countP_eq_length_filter]
  unfold fieldKinds
  split_ifs with level status text is_ sort
  · rw [beq_iff_eq.mp level, other (by decide)]
    split <;> simp
  · rw [beq_iff_eq.mp status, other (by decide)]
    split <;> simp
  · rw [fieldValues, if_pos text, List.length_map]
  · rw [fieldValues, if_neg text, if_pos is_, filtered]
  · rw [beq_iff_eq.mp sort, other (by decide)]
    cases index sortMap ((values.head?.map toLowerCase).getD []) <;> simp
  · rw [fieldValues, if_neg text, if_neg is_]
    exact Iff.rfl

theorem fieldRule_tidy {s : Utf16} {lexed : Lexed} (found : fieldRule s = some lexed) : Tidy s lexed ∧
    (Apart lexed.tokens ↔ lexed.tokens.length ≤ 1) := by
  obtain ⟨m, matched, rfl⟩ := Option.map_eq_some_iff.mp found
  obtain ⟨least, lead⟩ := exec_length matched
  have some_ : 1 ≤ m.text.length := (show 1 ≤ _ by decide).trans least
  refine ⟨⟨lead.length_le, fun t mem => ?_⟩, ?_⟩
  · obtain ⟨kind, -, rfl⟩ := List.mem_map.mp mem
    exact ⟨le_rfl, some_, le_rfl⟩
  · generalize fieldKinds (toLowerCase ((m.group 1).getD [])) (listed ((m.group 2).getD [])) = kinds
    rcases kinds with _ | ⟨k, _ | ⟨l, kinds⟩⟩
    · exact iff_of_true apart_nil (Nat.zero_le _)
    · exact iff_of_true (apart_single _) le_rfl
    · refine iff_of_false (fun apart => ?_) (by simp)
      have := (List.pairwise_cons.mp apart).1 _ List.mem_cons_self
      exact absurd this (by dsimp only; omega)

theorem rules_split : rules = rules.dropLast ++ [fieldRule] := rfl

theorem lex_tidy (last : Option Token) {s : Utf16} (some_ : s ≠ []) : Tidy s (lex last s) ∧
    (Apart (lex last s).tokens ↔ ¬ RepeatsSpan s) := by
  have one : Tidy s ⟨[], 1⟩ := ⟨List.length_pos_iff.mpr some_, fun _ mem => absurd mem List.not_mem_nil⟩
  unfold lex
  split
  · rename_i space
    refine ⟨one, iff_of_true apart_nil ?_⟩
    rintro ⟨plain, -⟩
    rw [plain] at space
    cases space
  · rename_i plain
    rw [rules_split, List.findSome?_append]
    cases before : rules.dropLast.findSome? fun rule => rule s with
    | some lexed =>
        obtain ⟨tidy, apart⟩ := rules_tidy before
        refine ⟨tidy, iff_of_true apart ?_⟩
        rintro ⟨-, none_, -⟩
        obtain ⟨rule, mem, found⟩ := List.exists_of_findSome?_eq_some before
        rw [none_ rule mem] at found
        cases found
    | none =>
        have none_ := List.findSome?_eq_none_iff.mp before
        rw [Option.none_or, List.findSome?_cons]
        cases field : fieldRule s with
        | some lexed =>
            obtain ⟨tidy, apart⟩ := fieldRule_tidy field
            refine ⟨tidy, apart.trans ?_⟩
            obtain ⟨m, matched, rfl⟩ := Option.map_eq_some_iff.mp field
            rw [List.length_map, ← Nat.not_lt]
            refine not_congr (Iff.trans (fieldKinds_length _ _) ⟨fun several => ?_, ?_⟩)
            · exact ⟨by simpa using plain, none_, m, matched, several⟩
            · rintro ⟨-, -, m', matched', several⟩
              cases matched.symm.trans matched'
              exact several
        | none =>
            have noField : ¬ RepeatsSpan s := by
              rintro ⟨-, -, m, matched, -⟩
              rw [fieldRule, matched] at field
              cases field
            cases bare : bareRule last s with
            | none => exact ⟨one, iff_of_true apart_nil noField⟩
            | some lexed =>
                obtain ⟨tidy, apart⟩ := bareRule_tidy bare
                exact ⟨tidy, iff_of_true apart noField⟩

def roundsFrom : Nat → Utf16 → List Utf16
  | 0, _ => []
  | _, [] => []
  | fuel + 1, u :: rest => (u :: rest) :: roundsFrom fuel ((u :: rest).drop (lex none (u :: rest)).length)

def rounds (input : Utf16) : List Utf16 := roundsFrom input.length input

theorem lex_length (last : Option Token) (s : Utf16) : (lex last s).length = (lex none s).length := by
  have bare : ((bareRule last s).getD ⟨[], 1⟩).length = ((bareRule none s).getD ⟨[], 1⟩).length := by
    rw [bareRule, bareRule]
    cases exec (plus (one isBareUnit)) s with
    | none => rfl
    | some m => cases csvRule s <;> simp [Lexed.whole]
  unfold lex
  split
  · rfl
  · cases rules.findSome? fun rule => rule s with
    | some lexed => rfl
    | none => exact bare

theorem within_shift {start stop : Nat} {tokens : List Token} (within : Within start stop tokens) (i : Nat) :
    Within (i + start) (i + stop) (tokens.map (Token.shift i)) := by
  intro t mem
  obtain ⟨u, inside, rfl⟩ := List.mem_map.mp mem
  obtain ⟨first, some_, last⟩ := within u inside
  exact ⟨Nat.add_le_add_left first i, Nat.add_lt_add_left some_ i, Nat.add_le_add_left last i⟩

theorem apart_shift {tokens : List Token} (i : Nat) : Apart (tokens.map (Token.shift i)) ↔ Apart tokens := by
  rw [Apart, List.pairwise_map]
  exact List.Pairwise.iff fun t u => by simp [Token.shift]

theorem apart_append {a b : List Token} {start middle stop : Nat} (left : Within start middle a) (right : Within middle stop b) :
    Apart (a ++ b) ↔ Apart a ∧ Apart b := by
  rw [Apart, List.pairwise_append]
  constructor
  · rintro ⟨first, second, -⟩
    exact ⟨first, second⟩
  · rintro ⟨first, second⟩
    exact ⟨first, second, fun t mem u mem' => (left t mem).2.2.trans (right u mem').1⟩

theorem tokenizeFrom_spans (fuel i : Nat) (last : Option Token) (s : Utf16) :
    Within i (i + s.length) (tokenizeFrom fuel i last s) ∧
      (Apart (tokenizeFrom fuel i last s) ↔ ∀ r ∈ roundsFrom fuel s, ¬ RepeatsSpan r) := by
  induction fuel generalizing i last s with
  | zero => exact ⟨fun _ mem => absurd mem List.not_mem_nil, iff_of_true apart_nil fun _ mem => absurd mem List.not_mem_nil⟩
  | succ fuel ih =>
      cases s with
      | nil => exact ⟨fun _ mem => absurd mem List.not_mem_nil, iff_of_true apart_nil fun _ mem => absurd mem List.not_mem_nil⟩
      | cons u rest =>
          obtain ⟨⟨length, within⟩, apart⟩ := lex_tidy last (List.cons_ne_nil u rest)
          rw [tokenizeFrom, roundsFrom, ← lex_length last]
          generalize lex last (u :: rest) = lexed at length within apart ⊢
          obtain ⟨within', apart'⟩ := ih (i + lexed.length) (((lexed.tokens.map (Token.shift i)).getLast?).or last)
            ((u :: rest).drop lexed.length)
          have stop : i + lexed.length + ((u :: rest).drop lexed.length).length = i + (u :: rest).length := by
            rw [List.length_drop]
            omega
          rw [stop] at within'
          have here : Within i (i + lexed.length) (lexed.tokens.map (Token.shift i)) := within_shift within i
          refine ⟨fun t mem => ?_, ?_⟩
          · rcases List.mem_append.mp mem with mem | mem
            · obtain ⟨first, some_, last_⟩ := here t mem
              exact ⟨first, some_, by omega⟩
            · obtain ⟨first, some_, last_⟩ := within' t mem
              exact ⟨by omega, some_, last_⟩
          · rw [apart_append here within', apart_shift, apart, apart', List.forall_mem_cons]

/-- What the highlighter relies on. -/
structure Contract (input : Utf16) : Prop where
  within : Within 0 input.length (tokenize input)
  apart : Apart (tokenize input)
  shown : shown (segments input) = input

/-- The spans lie in the input and are not empty. They go forward, and the overlay shows the input, exactly when no round
of the tokenizer is at a field that repeats its span. -/
theorem contract_iff (input : Utf16) : Within 0 input.length (tokenize input) ∧
    (Contract input ↔ ∀ s ∈ rounds input, ¬ RepeatsSpan s) ∧
    (shown (segments input) = input ↔ ∀ s ∈ rounds input, ¬ RepeatsSpan s) := by
  obtain ⟨within, apart⟩ := tokenizeFrom_spans input.length 0 none input
  rw [Nat.zero_add] at within
  have shows : shown (segments input) = input ↔ Apart (tokenize input) := by
    constructor
    · intro same
      have length := congrArg List.length same
      exact (apart_of_shown within (Nat.zero_le _) length).2
    · intro apart
      exact shown_segmentsFrom within apart
  refine ⟨within, ⟨fun contract => apart.mp contract.apart, fun single => ?_⟩, shows.trans apart⟩
  exact ⟨within, apart.mpr single, shows.mpr (apart.mpr single)⟩

/-- Two texts of one field are shown twice. -/
theorem contract_broken : ¬ ∀ input, Contract input := by
  intro contract
  have apart := (contract (ofString "text:a,b")).apart
  have spans : (tokenize (ofString "text:a,b")).map Token.span = [(0, 8), (0, 8)] := by decide +kernel
  have ordered : ((tokenize (ofString "text:a,b")).map Token.span).Pairwise fun t u => t.2 ≤ u.1 := List.pairwise_map.mpr apart
  rw [spans] at ordered
  exact absurd ((List.pairwise_cons.mp ordered).1 (0, 8) (by simp)) (by decide)

end Errex.Proof.Spa
