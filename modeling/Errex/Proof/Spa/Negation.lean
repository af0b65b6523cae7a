import Errex.Proof.Spa.Tokenizer

/-!
# What a negated term adds to a query

A term is what one round of the tokenizer pushes, so `buildQuery` adds term after term (`parseQuery_terms`). Only levels,
statuses and saved filters look at the token before them, and only at a sign; `negated_iff` says for which inputs that is
enough.
-/

namespace Errex.Proof.Spa
open Foundation Model Spa Utf16

/-- The tokens of one round, with the token pushed before. -/
structure Term where
  prev : Option Token
  tokens : List Token
  deriving DecidableEq

namespace Term

def negated (t : Term) : Bool := t.prev.any fun prev => prev.isNeg || prev.kind == .op .not

def add (t : Term) (q : Query) : Query := buildFrom q (t.prev.any Token.isNeg) t.tokens

end Term

def termsFrom : Nat → Nat → Option Token → Utf16 → List Term
  | 0, _, _, _ => []
  | _, _, _, [] => []
  | fuel + 1, i, last, u :: rest =>
      let lexed := lex last (u :: rest)
      let tokens := lexed.tokens.map (Token.shift i)
      ⟨last, tokens⟩ :: termsFrom fuel (i + lexed.length) (tokens.getLast?.or last) ((u :: rest).drop lexed.length)

def terms (input : Utf16) : List Term := termsFrom input.length 0 none input

theorem buildFrom_append_prev (q : Query) (prev : Option Token) (before after : List Token) :
    buildFrom q (prev.any Token.isNeg) (before ++ after) =
      buildFrom (buildFrom q (prev.any Token.isNeg) before) ((before.getLast?.or prev).any Token.isNeg) after := by
  induction before generalizing q prev with
  | nil => rfl
  | cons t before ih =>
      rw [List.cons_append, buildFrom, buildFrom, Regex.getLast?_cons_or]
      exact ih (q.add (prev.any Token.isNeg) t.kind) (some t)

theorem buildFrom_terms (fuel i : Nat) (last : Option Token) (s : Utf16) (q : Query) :
    buildFrom q (last.any Token.isNeg) (tokenizeFrom fuel i last s) =
      (termsFrom fuel i last s).foldl (fun q t => t.add q) q := by
  induction fuel generalizing i last s q with
  | zero => rfl
  | succ fuel ih =>
      cases s with
      | nil => rfl
      | cons u rest =>
          rw [tokenizeFrom, termsFrom, List.foldl_cons, buildFrom_append_prev, ih]
          rfl

theorem parseQuery_terms (input : Utf16) : (parseQuery input).2 = (terms input).foldl (fun q t => t.add q) .empty :=
  buildFrom_terms input.length 0 none input .empty

structure Positive where
  levels : Finset Level
  statuses : Finset IssueStatus
  text : List TextMatcher
  words : List Utf16
  tags : List TagFilter
  urls : List TextMatcher
  spiking : Bool
  newOnly : Bool
  staleOnly : Bool
  recallSaved : Option Utf16

def positive (q : Query) : Positive :=
  ⟨q.levels, q.statuses, q.text, q.words, q.tags, q.urls, q.spiking, q.newOnly, q.staleOnly, q.recallSaved⟩

/-- Levels, statuses and saved filters are kept back by a sign, and some kinds have nothing on the positive side. -/
def withheld (signed : Bool) : TokenKind → Bool
  | .level values => signed || values.isEmpty
  | .status values => signed || values.isEmpty
  | .saved _ => signed
  | .keyword (.own .crashing) => true
  | .keyword (.own _) => false
  | .keyword (.inherited _) => true
  | .text _ _ => false
  | .word _ => false
  | .tag _ _ => false
  | .url _ _ => false
  | .time _ => true
  | .sort _ => true
  | .limit _ => true
  | .filler => true
  | .op _ => true
  | .neg => true
  | .save _ => true
  | .forget _ => true

theorem positive_add {signed : Bool} {kind : TokenKind} (kept : withheld signed kind = true) (q : Query) :
    positive (q.add signed kind) = positive q := by
  cases kind with
  | level values =>
      cases signed with
      | true => rfl
      | false =>
          obtain rfl := List.isEmpty_iff.mp kept
          simp [positive, Query.add]
  | status values =>
      cases signed with
      | true => rfl
      | false =>
          obtain rfl := List.isEmpty_iff.mp kept
          simp [positive, Query.add]
  | saved name =>
      cases signed with
      | true => rfl
      | false => cases kept
  | keyword value =>
      cases value with
      | own keyword => cases keyword <;> first | rfl | cases kept
      | inherited name => rfl
  | text value isPattern => cases kept
  | word value => cases kept
  | tag key values => cases kept
  | url value isPattern => cases kept
  | _ => rfl

theorem withheld_of_blank {signed : Bool} {kind : TokenKind} {q : Query}
    (blank : positive (q.add signed kind) = positive .empty) :
    positive q = positive .empty ∧ withheld signed kind = true := by
  cases kind with
  | level values =>
      cases signed with
      | true => exact ⟨blank, rfl⟩
      | false =>
          simp only [positive, Query.add, Query.empty, Bool.false_eq_true, if_false, Positive.mk.injEq,
            Finset.union_eq_empty, List.toFinset_eq_empty_iff] at blank
          obtain ⟨⟨none_, rfl⟩, rest⟩ := blank
          exact ⟨by simp only [positive, Query.empty, none_, rest], rfl⟩
  | status values =>
      cases signed with
      | true => exact ⟨blank, rfl⟩
      | false =>
          simp only [positive, Query.add, Query.empty, Bool.false_eq_true, if_false, Positive.mk.injEq,
            Finset.union_eq_empty, List.toFinset_eq_empty_iff] at blank
          obtain ⟨levels, ⟨none_, rfl⟩, rest⟩ := blank
          exact ⟨by simp only [positive, Query.empty, levels, none_, rest], rfl⟩
  | saved name =>
      cases signed with
      | true => exact ⟨blank, rfl⟩
      | false => simp [positive, Query.add, Query.empty] at blank
  | keyword value =>
      cases value with
      | own keyword => cases keyword <;> first | exact ⟨blank, rfl⟩ | simp [positive, Query.add, Query.empty] at blank
      | inherited name => exact ⟨blank, rfl⟩
  | text value isPattern => simp [positive, Query.add, Query.empty] at blank
  | word value => simp [positive, Query.add, Query.empty] at blank
  | tag key values => simp [positive, Query.add, Query.empty] at blank
  | url value isPattern => simp [positive, Query.add, Query.empty] at blank
  | _ => exact ⟨blank, rfl⟩

/-- The kinds of tokens, each with whether a sign is the token before it. -/
def signs (prev : Option Token) : List Token → List (Bool × TokenKind)
  | [] => []
  | t :: tokens => (prev.any Token.isNeg, t.kind) :: signs (some t) tokens

def Withheld (t : Term) : Prop := ∀ p ∈ signs t.prev t.tokens, withheld p.1 p.2 = true

theorem Term.positive_of_withheld {t : Term} (kept : Withheld t) (q : Query) : positive (t.add q) = positive q := by
  obtain ⟨prev, tokens⟩ := t
  rw [Withheld] at kept
  rw [Term.add]
  dsimp only at kept ⊢
  induction tokens generalizing q prev with
  | nil => rfl
  | cons token tokens ih =>
      obtain ⟨first, rest⟩ := List.forall_mem_cons.mp kept
      rw [buildFrom]
      exact (ih _ (some token) rest).trans (positive_add first q)

theorem Term.withheld_of_blank {t : Term} {q : Query} (blank : positive (t.add q) = positive .empty) :
    positive q = positive .empty ∧ Withheld t := by
  obtain ⟨prev, tokens⟩ := t
  rw [Withheld]
  rw [Term.add] at blank
  dsimp only at blank ⊢
  induction tokens generalizing q prev with
  | nil => exact ⟨blank, List.forall_mem_nil _⟩
  | cons token tokens ih =>
      rw [buildFrom] at blank
      obtain ⟨blank, rest⟩ := ih (some token) blank
      obtain ⟨blank, first⟩ := Spa.withheld_of_blank blank
      exact ⟨blank, List.forall_mem_cons.mpr ⟨first, rest⟩⟩

theorem Term.positive_add_iff (t : Term) : (∀ q, positive (t.add q) = positive q) ↔ Withheld t := by
  constructor
  · intro same
    have blank : positive (t.add Query.empty) = positive Query.empty := same Query.empty
    exact (Term.withheld_of_blank blank).2
  · exact Term.positive_of_withheld

/-- The query of an input is what its terms add one after the other, and of these the negated ones add nothing to
the positive side exactly when their tokens are of kinds that are held back. -/
theorem negated_iff (input : Utf16) :
    (parseQuery input).2 = (terms input).foldl (fun q t => t.add q) .empty ∧
      ((∀ t ∈ terms input, t.negated = true → ∀ q, positive (t.add q) = positive q) ↔
        ∀ t ∈ terms input, t.negated = true → Withheld t) := by
  refine ⟨parseQuery_terms input, ?_⟩
  exact forall₂_congr fun t _ => imp_congr_right fun _ => t.positive_add_iff

/-- `-timeout` selects what it should not. -/
theorem negated_word : ¬ ∀ input, ∀ t ∈ terms input, t.negated = true → ∀ q, positive (t.add q) = positive q := by
  intro silent
  let word : Term := ⟨some ⟨.neg, (0, 1)⟩, [⟨.word (ofString "timeout"), (1, 8)⟩]⟩
  have mem : word ∈ terms (ofString "-timeout") := by decide +kernel
  have same := congrArg Positive.words (silent _ word mem rfl .empty)
  cases same

end Errex.Proof.Spa
