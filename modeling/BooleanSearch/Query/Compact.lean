import BooleanSearch.Query.Basic

/-!
# Compact form

The form of a tree on a single line: `{Occur:MUST, Terms:["a","b"], SubQueries:[…]}`.  The terms
are written as they are, and a section without entries is left out.

## Main definitions

* `Query.Piece` — what may still have to be written while a tree is under way.
* `Query.compact` — the compact form.
-/

namespace BooleanSearch

namespace Query

/-- A part of the compact form that is still to be written. -/
inductive Piece
  /-- The first of several neighbouring nodes, with everything below it. -/
  | first (q : Query)
  /-- A later one of several neighbouring nodes, which a comma separates from the one before. -/
  | later (q : Query)
  /-- The end of a list of subqueries and of the node that holds it. -/
  | close

namespace Piece

/-- A bound on the number of steps that it takes to write a piece. -/
def cost : Piece → Nat
  | first q => 1 + 2 * sizeAll q.subqueries
  | later q => 2 + 2 * sizeAll q.subqueries
  | close => 1

/-- The bounds of several pieces taken together. -/
def costAll : List Piece → Nat
  | [] => 0
  | piece :: pieces => piece.cost + costAll pieces

theorem costAll_append (pieces more : List Piece) :
    costAll (pieces ++ more) = costAll pieces + costAll more := by
  induction pieces with
  | nil => exact (Nat.zero_add _).symm
  | cons piece pieces ih => rw [List.cons_append, costAll, costAll, ih, Nat.add_assoc]

/-- The pieces of neighbouring nodes. -/
def ofList : List Query → List Piece
  | [] => []
  | q :: qs => first q :: qs.map later

theorem costAll_map_later (qs : List Query) : costAll (qs.map later) = 2 * sizeAll qs := by
  induction qs with
  | nil => rfl
  | cons q qs ih =>
    simp only [List.map_cons, costAll, ih, cost, sizeAll_cons, size_eq q]
    omega

theorem costAll_ofList {qs : List Query} (h : qs ≠ []) :
    costAll (ofList qs) + 1 = 2 * sizeAll qs := by
  cases qs with
  | nil => contradiction
  | cons q qs =>
    simp only [ofList, costAll, costAll_map_later, cost, sizeAll_cons, size_eq q]
    omega

end Piece

/-- The section of a node that lists its terms. -/
def termSection : List String → String
  | [] => ""
  | terms => ", Terms:[" ++ ",".intercalate (terms.map fun term => "\"" ++ term ++ "\"") ++ "]"

/-- Writes all pending pieces after the text `out`. -/
def compactAll (out : String) : List Piece → String
  | [] => out
  | .close :: rest => compactAll (out ++ "]\x7d") rest
  | .later q :: rest => compactAll (out ++ ",") (.first q :: rest)
  | .first q :: rest =>
    let out := out ++ "\x7bOccur:" ++ q.occur.text ++ termSection q.terms
    if q.subqueries.isEmpty then
      compactAll (out ++ "\x7d") rest
    else
      compactAll (out ++ ", SubQueries:[") (Piece.ofList q.subqueries ++ .close :: rest)
termination_by work => Piece.costAll work
decreasing_by
  · simp [Piece.costAll, Piece.cost]
  · simp [Piece.costAll, Piece.cost]
  · simp only [Piece.costAll, Piece.cost]
    omega
  · next h =>
    have := Piece.costAll_ofList (show q.subqueries ≠ [] by simpa using h)
    simp only [Piece.costAll_append, Piece.costAll, Piece.cost]
    omega

/-- The compact form of a tree. -/
def compact (q : Query) : String :=
  compactAll "" [.first q]

end Query

end BooleanSearch
