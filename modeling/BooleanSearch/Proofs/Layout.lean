import BooleanSearch.Draft
import BooleanSearch.Proofs.Subtrees

/-!
# Trees laid out in an array

A draft keeps the nodes of its tree in an array, in the order in which they were opened, which is
preorder.  So the array is determined by the tree: a node is followed by the layouts of its
subqueries, and the place of a subquery is found by counting the nodes before it.

Assembling goes through the array from its end.  When it comes to a node, the trees built so far
are the subtrees that follow the node in preorder, and those of its children are among them.

## Main definitions

* `Query.places` — the places of neighbouring trees.
* `Query.layout` — the nodes of a tree in preorder.

## Main results

* `Draft.assemble_layout` — assembling the layout of a tree builds its subtrees.
* `Draft.query_of_layout` — a draft whose nodes are the layout of a tree stands for that tree.
-/

namespace BooleanSearch

namespace Query

/-- The places of neighbouring trees, the first of which begins at `place`. -/
def places : Nat → List Query → List Nat
  | _, [] => []
  | place, q :: qs => place :: places (place + q.size) qs

@[simp] theorem places_nil (place : Nat) : places place [] = [] := rfl

@[simp] theorem places_cons (place : Nat) (q : Query) (qs : List Query) :
    places place (q :: qs) = place :: places (place + q.size) qs := rfl

theorem places_append (place : Nat) (qs rs : List Query) :
    places place (qs ++ rs) = places place qs ++ places (place + sizeAll qs) rs := by
  induction qs generalizing place with
  | nil => rfl
  | cons q qs ih => simp [ih, Nat.add_assoc]

/-- The root of a tree by itself, where the tree begins at `place`. -/
def root (place : Nat) (q : Query) : Node where
  occur := q.occur
  terms := q.terms.toArray
  children := (places (place + 1) q.subqueries).toArray

mutual

/-- The nodes of a tree that begins at `place`, in preorder. -/
def layout : Nat → Query → List Node
  | place, ⟨o, ts, subs⟩ => root place ⟨o, ts, subs⟩ :: layoutAll (place + 1) subs

/-- The nodes of neighbouring trees, the first of which begins at `place`, in preorder. -/
def layoutAll : Nat → List Query → List Node
  | _, [] => []
  | place, q :: qs => q.layout place ++ layoutAll (place + q.size) qs

end

theorem layout_eq (place : Nat) (q : Query) :
    q.layout place = q.root place :: layoutAll (place + 1) q.subqueries := by
  cases q; rfl

@[simp] theorem layoutAll_nil (place : Nat) : layoutAll place [] = [] := rfl

@[simp] theorem layoutAll_cons (place : Nat) (q : Query) (qs : List Query) :
    layoutAll place (q :: qs) = q.layout place ++ layoutAll (place + q.size) qs := rfl

theorem layoutAll_append (place : Nat) (qs rs : List Query) :
    layoutAll place (qs ++ rs) = layoutAll place qs ++ layoutAll (place + sizeAll qs) rs := by
  induction qs generalizing place with
  | nil => rfl
  | cons q qs ih => simp [ih, Nat.add_assoc]

mutual

@[simp] theorem length_layout : ∀ (place : Nat) (q : Query), (q.layout place).length = q.size
  | place, ⟨_, _, subs⟩ => by
    rw [layout, List.length_cons, length_layoutAll (place + 1) subs, size, Nat.add_comm]

@[simp] theorem length_layoutAll :
    ∀ (place : Nat) (qs : List Query), (layoutAll place qs).length = sizeAll qs
  | _, [] => rfl
  | place, q :: qs => by
    rw [layoutAll, List.length_append, length_layout place q,
      length_layoutAll (place + q.size) qs, sizeAll]

end

end Query

namespace Draft

open Query

/-! ### Assembling -/

/-- The tree that has been built for the node at `place`, of `count` nodes in all. -/
def built? (count : Nat) (built : Array Query) (place : Nat) : Option Query :=
  if place < count then built[count - 1 - place]? else none

theorem assembleNode_eq (count : Nat) (node : Node) (built : Array Query) :
    assembleNode count node built =
      built.push ⟨node.occur, node.terms.toList,
        node.children.toList.filterMap (built? count built)⟩ := rfl

/-- Where the trees built last are the subtrees of `qs`, they are found at their places. -/
theorem built?_append {count place : Nat} {built : Array Query} {qs : List Query}
    (hcount : built.size + place + sizeAll qs = count) {i : Nat} (hi : i < sizeAll qs) :
    built? count (built ++ (subtreesAll qs).reverse.toArray) (place + i)
      = (subtreesAll qs)[i]? := by
  have hplace : place + i < count := by omega
  -- trees are built back to front, so a place is counted from the end
  have hindex : count - 1 - (place + i) = built.size + (sizeAll qs - 1 - i) := by omega
  have hrev : sizeAll qs - 1 - i + i + 1 = (subtreesAll qs).length := by
    rw [length_subtreesAll]; omega
  rw [built?, ite_cond_eq_true _ _ (eq_true hplace), hindex,
    Array.getElem?_append_right (Nat.le_add_right _ _), Nat.add_sub_cancel_left,
    List.getElem?_toArray, List.getElem?_reverse' hrev]

/-- Where every subtree of `qs` is found at its place, the trees found at the places of `qs` are
`qs` itself. -/
theorem filterMap_places {find? : Nat → Option Query} {place : Nat} {qs : List Query}
    (hfind : ∀ i < sizeAll qs, find? (place + i) = (subtreesAll qs)[i]?) :
    (places place qs).filterMap find? = qs := by
  induction qs generalizing place with
  | nil => rfl
  | cons q qs ih =>
    have hhead : find? place = some q := by
      have h := hfind 0 (by rw [sizeAll_cons]; have := q.size_pos; omega)
      rwa [Nat.add_zero, subtreesAll_cons, subtrees_eq, List.cons_append,
        List.getElem?_cons_zero] at h
    -- the second tree begins behind everything below the first
    have htail : ∀ i < sizeAll qs, find? (place + q.size + i) = (subtreesAll qs)[i]? := by
      intro i hi
      have h := hfind (q.size + i) (by rw [sizeAll_cons]; omega)
      rw [subtreesAll_cons, List.getElem?_append_right (by simp), length_subtrees,
        Nat.add_sub_cancel_left, ← Nat.add_assoc] at h
      exact h
    rw [places_cons, List.filterMap_cons_some hhead, ih htail]

mutual

/-- Assembling the nodes of a tree, after the trees of all later nodes were built, builds the
subtrees, the tree itself last. -/
theorem foldr_layout (count : Nat) : ∀ (place : Nat) (q : Query) (built : Array Query),
    built.size + place + q.size = count →
      (q.layout place).foldr (assembleNode count) built
        = built ++ q.subtrees.reverse.toArray
  | place, ⟨o, ts, subs⟩, built, hcount => by
    have hbelow : built.size + (place + 1) + sizeAll subs = count := by
      rw [← hcount, size]; omega
    -- everything below the node is built before the node itself
    have hchildren : (places (place + 1) subs).filterMap
        (built? count (built ++ (subtreesAll subs).reverse.toArray)) = subs :=
      filterMap_places fun i hi => built?_append hbelow hi
    rw [layout, List.foldr_cons, foldr_layoutAll count (place + 1) subs built hbelow,
      assembleNode_eq]
    simp only [root, hchildren, subtrees, List.reverse_cons, Array.push_eq_append,
      Array.append_assoc, List.append_toArray]

theorem foldr_layoutAll (count : Nat) :
    ∀ (place : Nat) (qs : List Query) (built : Array Query),
      built.size + place + sizeAll qs = count →
        (layoutAll place qs).foldr (assembleNode count) built
          = built ++ (subtreesAll qs).reverse.toArray
  | _, [], built, _ => by simp
  | place, q :: qs, built, hcount => by
    rw [sizeAll] at hcount
    rw [layoutAll, List.foldr_append,
      foldr_layoutAll count (place + q.size) qs built (by omega),
      foldr_layout count place q _ (by simp; omega)]
    simp

end

/-- Assembling the layout of a tree builds its subtrees, the tree itself last. -/
theorem assemble_layout (q : Query) :
    assemble (q.layout 0).toArray = q.subtrees.reverse.toArray := by
  have h := foldr_layout q.size 0 q #[] (by simp)
  simpa [assemble] using h

/-- A draft whose nodes are the layout of a tree stands for that tree. -/
theorem query_of_layout {d : Draft} {q : Query} (h : d.nodes = (q.layout 0).toArray) :
    d.query = q := by
  rw [query, h, assemble_layout, subtrees_eq]
  simp

end Draft

end BooleanSearch
