import Mathlib.Tactic

/-!
# Routing

A table of path patterns, searched segment by segment: a literal segment goes before a parameter, and the search goes
back to the parameter where the literal leads nowhere.
-/

namespace Errex.Foundation.Routing

variable {α : Type}

inductive Segment where
  | literal (s : List Char)
  | param
  deriving DecidableEq

abbrev Table (α : Type) := List (List Segment × α)

def literals (s : List Char) (table : Table α) : Table α :=
  table.filterMap fun
    | (.literal t :: rest, a) => if t = s then some (rest, a) else none
    | _ => none

def params (table : Table α) : Table α :=
  table.filterMap fun
    | (.param :: rest, a) => some (rest, a)
    | _ => none

/-- `blank`: an empty segment fits a parameter. -/
def search (blank : Bool) : Table α → List (List Char) → Option (List (List Char) × α)
  | table, [] => (table.find? (·.1.isEmpty)).map fun found => ([], found.2)
  | table, s :: path =>
      match search blank (literals s table) path with
      | some found => some found
      | none =>
          if blank || !s.isEmpty then (search blank (params table) path).map fun found => (s :: found.1, found.2)
          else none

theorem search_append {blank : Bool} {path before : List (List Char)} {found : List (List Char) × α} {table : Table α}
    (below : search blank (before.foldl (fun table s => literals s table) table) path = some found) :
    search blank table (before ++ path) = some found := by
  induction before generalizing table with
  | nil => exact below
  | cons s before ih => rw [List.cons_append, search, ih below]

theorem search_nil (blank : Bool) (path : List (List Char)) : search blank ([] : Table α) path = none := by
  induction path with
  | nil => rfl
  | cons s path ih => simp [search, literals, params, ih]

theorem search_param {blank : Bool} {s : List Char} {table : Table α} (free : literals s table = [])
    (fits : (blank || !s.isEmpty) = true) (path : List (List Char)) :
    search blank table (s :: path) = (search blank (params table) path).map fun found => (s :: found.1, found.2) := by
  rw [search, free, search_nil, if_pos fits]

end Errex.Foundation.Routing
