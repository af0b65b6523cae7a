import Errex.Model.Spa.QueryParser

/-!
# Rounds of the tokenizer

Every round moves the cursor, so the loop of `tokenize` always ends by itself. What it makes of a text depends on
the text and on whether the token before was a sort, so texts can be read part by part (`kinds_eq`).
-/

namespace Errex.Proof.Spa
open Foundation Model Spa Utf16 Regex

theorem index_unlisted {α : Type} {object : List (String × α)} {key : Utf16}
    (unlisted : key ∉ object.map fun entry => ofString entry.1) :
    index object key = if key ∈ objectPrototype then some (.inherited key) else none := by
  rw [index]
  split
  · rename_i name value found
    have same := List.find?_some found
    exact absurd (List.mem_map.mpr ⟨(name, value), List.mem_of_find?_eq_some found, beq_iff_eq.mp same⟩) unlisted
  · rfl

theorem index_eq_none_iff {α : Type} {object : List (String × α)} {key : Utf16} :
    index object key = none ↔ key ∉ object.map (fun entry => ofString entry.1) ∧ key ∉ objectPrototype := by
  by_cases listed_ : key ∈ object.map fun entry => ofString entry.1
  · refine iff_of_false (fun absent => ?_) fun plain => plain.1 listed_
    obtain ⟨entry, mem, same⟩ := List.mem_map.mp listed_
    rw [index] at absent
    split at absent
    · cases absent
    · rename_i none_
      exact List.find?_eq_none.mp none_ entry mem (beq_iff_eq.mpr same)
  · rw [index_unlisted listed_, and_iff_right listed_]
    by_cases inherited : key ∈ objectPrototype <;> simp [inherited]

theorem length_of_exec {r : Regex} {build : Match → Lexed} {s : Utf16} {lexed : Lexed} (some_ : 1 ≤ r.minLength)
    (whole : ∀ m, (build m).length = m.text.length) (found : (exec r s).map build = some lexed) : 1 ≤ lexed.length := by
  obtain ⟨m, matched, rfl⟩ := Option.map_eq_some_iff.mp found
  rw [whole]
  exact some_.trans (exec_length matched).1

theorem timePattern_nonempty {pattern : Regex × (Match → Double)} (mem : pattern ∈ TIME_PATTERNS) :
    1 ≤ pattern.1.minLength := by
  have each : (TIME_PATTERNS.map fun pattern => pattern.1.minLength).all (1 ≤ ·) = true := by decide
  exact of_decide_eq_true (List.all_eq_true.mp each _ (List.mem_map_of_mem mem))

theorem timeRule_advances {s : Utf16} {lexed : Lexed} (found : timeRule s = some lexed) : 1 ≤ lexed.length := by
  obtain ⟨pattern, mem, matched⟩ := List.exists_of_findSome?_eq_some found
  exact length_of_exec (timePattern_nonempty mem) (fun _ => rfl) matched

theorem rules_advance {s : Utf16} {lexed : Lexed} (found : (rules.findSome? fun rule => rule s) = some lexed) :
    1 ≤ lexed.length := by
  obtain ⟨rule, mem, found⟩ := List.exists_of_findSome?_eq_some found
  simp only [rules, List.mem_cons, List.not_mem_nil, or_false] at mem
  rcases mem with rfl | rfl | rfl | rfl | rfl | rfl | rfl | rfl | rfl | rfl | rfl | rfl | rfl
  · exact length_of_exec (r := saveRe) (by decide) (fun _ => rfl) found
  · exact length_of_exec (r := forgetRe) (by decide) (fun _ => rfl) found
  · exact length_of_exec (r := topRe) (by decide) (fun _ => rfl) found
  · refine length_of_exec (r := mostRe) (by decide) (fun m => ?_) found
    cases m.group 2 <;> rfl
  · exact length_of_exec (r := limitRe) (by decide) (fun _ => rfl) found
  · exact timeRule_advances found
  · exact length_of_exec (r := opRe) (by decide) (fun _ => rfl) found
  · unfold negRule at found
    split at found
    · split at found <;> cases found
      exact le_rfl
    · cases found
  · unfold quotedRule at found
    split at found
    · cases found
    · split at found
      · split at found <;> cases found <;> simp [Lexed.whole]
      · cases found
  · exact length_of_exec (r := savedRe) (by decide) (fun _ => rfl) found
  · refine length_of_exec (r := tagRe) (by decide) (fun m => ?_) found
    cases m.group 2 <;> rfl
  · exact length_of_exec (r := urlRe) (by decide) (fun _ => rfl) found
  · exact length_of_exec (r := fieldRe) (by decide) (fun _ => rfl) found

theorem bareValues_advances {α : Type} {resolve : Utf16 → Option α} {fuel : Nat} {s : Utf16} {v : α} {values : List α}
    {length : Nat} (found : bareValues resolve fuel s = (v :: values, length)) : 1 ≤ length := by
  cases fuel with
  | zero => cases found
  | succ fuel =>
      rw [bareValues] at found
      split at found
      · cases found
      · rename_i m matched
        have some_ : 1 ≤ m.text.length := (exec_length matched).1
        split at found
        · cases found
        · split at found
          · cases found; exact some_
          · split at found
            · cases found; omega
            · cases found; exact some_

theorem parseBareCsv_advances {α : Type} {resolve : Utf16 → Option α} {s : Utf16} {found : List α × Nat}
    (parsed : parseBareCsv resolve s = some found) : 1 ≤ found.2 := by
  unfold parseBareCsv at parsed
  split at parsed
  · cases parsed
  · rename_i nonempty
    have value := Option.some.inj parsed
    obtain ⟨values, length⟩ := found
    cases values with
    | nil => exact (nonempty length value).elim
    | cons v values => exact bareValues_advances value

theorem csvRule_advances {s : Utf16} {lexed : Lexed} (found : csvRule s = some lexed) : 1 ≤ lexed.length := by
  unfold csvRule at found
  split at found
  · rename_i parsed
    cases found
    exact parseBareCsv_advances parsed
  · split at found
    · rename_i parsed
      cases found
      exact parseBareCsv_advances parsed
    · cases found

theorem bareRule_advances {last : Option Token} {s : Utf16} {lexed : Lexed} (found : bareRule last s = some lexed) :
    1 ≤ lexed.length := by
  obtain ⟨m, matched, rfl⟩ := Option.map_eq_some_iff.mp found
  cases csv : csvRule s with
  | none => exact (exec_length matched).1
  | some lexed => exact csvRule_advances csv

theorem lex_advances (last : Option Token) (s : Utf16) : 1 ≤ (lex last s).length := by
  unfold lex
  split
  · exact le_rfl
  · split
    · rename_i found
      exact rules_advance found
    · cases found : bareRule last s with
      | none => exact le_rfl
      | some lexed => exact bareRule_advances found

theorem tokenizeFrom_fuel {m n i : Nat} {last : Option Token} {s : Utf16} (enough : s.length ≤ m) (enough' : s.length ≤ n) :
    tokenizeFrom m i last s = tokenizeFrom n i last s := by
  induction m generalizing n i last s with
  | zero =>
      have blank : s = [] := List.eq_nil_of_length_eq_zero (by omega)
      subst blank
      cases n <;> rfl
  | succ m ih =>
      cases s with
      | nil => cases n <;> rfl
      | cons u rest =>
          cases n with
          | zero => simp at enough'
          | succ n =>
              have moved := lex_advances last (u :: rest)
              have shorter : ((u :: rest).drop (lex last (u :: rest)).length).length ≤ rest.length := by
                simp only [List.length_drop, List.length_cons]
                omega
              simp only [List.length_cons] at enough enough'
              rw [tokenizeFrom, tokenizeFrom]
              rw [ih (n := n) (by omega) (by omega)]

theorem lex_last {last last' : Option Token} (same : last.any Token.isSort = last'.any Token.isSort) (s : Utf16) :
    lex last s = lex last' s := by
  simp only [lex, bareRule, wordKind, same]

theorem isSort_shift (tokens : List Token) (i : Nat) (last : Option Token) :
    ((tokens.map (Token.shift i)).getLast?.or last).any Token.isSort = (tokens.getLast?.or last).any Token.isSort := by
  rw [List.getLast?_map]
  cases tokens.getLast? <;> rfl

theorem kind_shift (tokens : List Token) (i : Nat) : (tokens.map (Token.shift i)).map Token.kind = tokens.map Token.kind := by
  rw [List.map_map]
  rfl

theorem tokenizeFrom_kinds {fuel i j : Nat} {last last' : Option Token} {s : Utf16}
    (same : last.any Token.isSort = last'.any Token.isSort) :
    (tokenizeFrom fuel i last s).map Token.kind = (tokenizeFrom fuel j last' s).map Token.kind := by
  induction fuel generalizing i j last last' s with
  | zero => rfl
  | succ fuel ih =>
      cases s with
      | nil => rfl
      | cons u rest =>
          rw [tokenizeFrom, tokenizeFrom]
          rw [lex_last same, List.map_append, List.map_append, kind_shift, kind_shift]
          congr 1
          refine ih ?_
          rw [isSort_shift, isSort_shift]
          cases (lex last' (u :: rest)).tokens.getLast? with
          | none => exact same
          | some t => rfl

def kinds (last : Option Token) (s : Utf16) : List TokenKind := (tokenizeFrom s.length 0 last s).map Token.kind

theorem kinds_eq (last : Option Token) {s : Utf16} (nonempty : s ≠ []) :
    kinds last s = (lex last s).tokens.map Token.kind ++
      kinds ((lex last s).tokens.getLast?.or last) (s.drop (lex last s).length) := by
  obtain ⟨u, rest, rfl⟩ := List.exists_cons_of_ne_nil nonempty
  have moved := lex_advances last (u :: rest)
  rw [kinds, List.length_cons, tokenizeFrom]
  rw [List.map_append, kind_shift]
  congr 1
  rw [kinds, tokenizeFrom_fuel (m := rest.length) (n := ((u :: rest).drop (lex last (u :: rest)).length).length)
    (by simp only [List.length_drop, List.length_cons]; omega) le_rfl]
  exact tokenizeFrom_kinds (isSort_shift _ _ _)

theorem kinds_last {last last' : Option Token} (same : last.any Token.isSort = last'.any Token.isSort) (s : Utf16) :
    kinds last s = kinds last' s := tokenizeFrom_kinds same

theorem kinds_space (last : Option Token) {u : CodeUnit} (space : isSpace u = true) (s : Utf16) :
    kinds last (u :: s) = kinds last s := by
  have passed : lex last (u :: s) = ⟨[], 1⟩ := by simp [lex, space]
  rw [kinds_eq last (List.cons_ne_nil _ _), passed]
  rfl

theorem buildFrom_kinds {q : Query} {negated : Bool} {tokens tokens' : List Token}
    (same : tokens.map Token.kind = tokens'.map Token.kind) : buildFrom q negated tokens = buildFrom q negated tokens' := by
  induction tokens generalizing q negated tokens' with
  | nil =>
      rw [List.map_nil, eq_comm, List.map_eq_nil_iff] at same
      rw [same]
  | cons t tokens ih =>
      cases tokens' with
      | nil => cases same
      | cons t' tokens' =>
          rw [List.map_cons, List.map_cons, List.cons.injEq] at same
          obtain ⟨kind, rest⟩ := same
          have isNeg : t.isNeg = t'.isNeg := by rw [Token.isNeg, Token.isNeg, kind]
          rw [buildFrom, buildFrom, kind, isNeg]
          exact ih rest

theorem buildFrom_append {before : List Token} (noSign : ∀ t ∈ before, t.isNeg = false) (q : Query) (after : List Token) :
    buildFrom q false (before ++ after) = buildFrom (buildFrom q false before) false after := by
  induction before generalizing q with
  | nil => rfl
  | cons t before ih =>
      rw [List.cons_append, buildFrom, buildFrom, noSign t List.mem_cons_self,
        ih fun t mem => noSign t (List.mem_cons_of_mem _ mem)]

def merge (a b : Query) : Query where
  levels := a.levels ∪ b.levels
  statuses := a.statuses ∪ b.statuses
  sinceMs := b.sinceMs.or a.sinceMs
  spiking := a.spiking || b.spiking
  newOnly := a.newOnly || b.newOnly
  staleOnly := a.staleOnly || b.staleOnly
  text := a.text ++ b.text
  words := a.words ++ b.words
  tags := a.tags ++ b.tags
  urls := a.urls ++ b.urls
  negLevels := a.negLevels ∪ b.negLevels
  negStatuses := a.negStatuses ∪ b.negStatuses
  negSavedNames := a.negSavedNames ∪ b.negSavedNames
  sort := b.sort.or a.sort
  limit := b.limit.or a.limit
  saveAs := b.saveAs.or a.saveAs
  recallSaved := b.recallSaved.or a.recallSaved
  forgetName := b.forgetName.or a.forgetName

theorem merge_empty (a : Query) : merge a .empty = a := by simp [merge, Query.empty]

theorem merge_add (a b : Query) (negated : Bool) (kind : TokenKind) :
    (merge a b).add negated kind = merge a (b.add negated kind) := by
  cases kind with
  | level values => cases negated <;> simp [merge, Query.add, Finset.union_assoc]
  | status values => cases negated <;> simp [merge, Query.add, Finset.union_assoc]
  | keyword value =>
      cases value with
      | own keyword => cases keyword <;> simp [merge, Query.add]
      | inherited name => rfl
  | saved name => cases negated <;> simp [merge, Query.add, Finset.union_assoc]
  | text value isPattern => simp [merge, Query.add]
  | word value => simp [merge, Query.add]
  | tag key values => simp [merge, Query.add]
  | url value isPattern => simp [merge, Query.add]
  | time ms => rfl
  | sort key => rfl
  | limit n => rfl
  | save name => rfl
  | forget name => rfl
  | op value => rfl
  | neg => rfl
  | filler => rfl

theorem buildFrom_merge (a b : Query) (negated : Bool) (tokens : List Token) :
    buildFrom (merge a b) negated tokens = merge a (buildFrom b negated tokens) := by
  induction tokens generalizing b negated with
  | nil => rfl
  | cons t tokens ih => rw [buildFrom, buildFrom, merge_add, ih]

theorem buildFrom_eq_merge (q : Query) (tokens : List Token) : buildFrom q false tokens = merge q (buildQuery tokens) := by
  calc buildFrom q false tokens
      = buildFrom (merge q .empty) false tokens := by rw [merge_empty]
    _ = merge q (buildQuery tokens) := buildFrom_merge q .empty false tokens

end Errex.Proof.Spa
