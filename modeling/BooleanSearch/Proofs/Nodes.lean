import BooleanSearch.Proofs.Parentheses

/-!
# The nodes of a draft by their places

A place in a draft is a number in the preorder of its tree, so a node of the draft is the root of
the subtree with that number.  A token can be seen as an edit of the array of nodes: it changes the
node at the place of the cursor, or it adds a node behind all others.

## Main definitions

* `Draft.IsAt` — whether a token belongs to a node.
* `Draft.termCount` — the number of terms of the node under the cursor.

## Main results

* `Spine.getElem?_nodes` — the node at a place is the root of a subtree.
* `Draft.getElem?_modifyCurrent`, `Draft.getElem?_descend` — how tokens edit the nodes.
-/

namespace BooleanSearch

/-! ### Places and subtrees -/

namespace Query

mutual

/-- The nodes of a layout are the roots of the subtrees. -/
theorem getElem?_layout : ∀ (q : Query) (place n : Nat),
    (q.layout place)[n]? = q.subtrees[n]?.map (root (place + n))
  | ⟨_, _, _⟩, _, 0 => rfl
  | ⟨o, ts, subs⟩, place, n + 1 => by
    rw [layout_eq, subtrees_eq, List.getElem?_cons_succ, List.getElem?_cons_succ,
      getElem?_layoutAll subs (place + 1) n, Nat.add_assoc, Nat.add_comm 1]

theorem getElem?_layoutAll : ∀ (qs : List Query) (place n : Nat),
    (layoutAll place qs)[n]? = (subtreesAll qs)[n]?.map (root (place + n))
  | [], _, _ => rfl
  | q :: qs, place, n => by
    rw [layoutAll_cons, subtreesAll_cons]
    rcases Nat.lt_or_ge n q.size with hlt | hge
    · rw [List.getElem?_append_left (by simpa using hlt),
        List.getElem?_append_left (by simpa using hlt), getElem?_layout q place n]
    · -- the layout of the other trees begins behind that of the first
      have hplace : place + q.size + (n - q.size) = place + n := by omega
      rw [List.getElem?_append_right (by simpa using hge),
        List.getElem?_append_right (by simpa using hge), length_layout, length_subtrees,
        getElem?_layoutAll qs (place + q.size) (n - q.size), hplace]

end

end Query

namespace Spine

/-- The node at a place is the root of the subtree with that number. -/
theorem getElem?_nodes (z : Spine) (place : Nat) :
    z.draft.nodes[place]? = z.tree.subtrees[place]?.map (Query.root place) := by
  rw [draft, List.getElem?_toArray, Query.getElem?_layout, Nat.zero_add]

/-- There is a node under the cursor. -/
theorem cursor_lt_size_nodes (z : Spine) : z.draft.cursor < z.draft.nodes.size := by
  have hpos := z.current.size_pos
  rw [cursor_draft, size_nodes_draft]
  omega

/-- Only the root is at place zero. -/
theorem path_eq_nil_of_cursor_eq_zero {z : Spine} (h : z.draft.cursor = 0) : z.draft.path = [] := by
  obtain ⟨q, above, phrase⟩ := z
  cases above with
  | nil => rfl
  | cons parent above =>
    have hpos := parent.size_pos
    rw [cursor_draft, Query.sizeAll_cons] at h
    omega

end Spine

/-! ### Edits of the nodes -/

namespace Draft

/-- Whether what is read next belongs to the node at a place: no phrase is open, and the cursor is
on the node. -/
def IsAt (d : Draft) (place : Nat) : Prop :=
  d.phrase = none ∧ d.cursor = place

instance (d : Draft) (place : Nat) : Decidable (d.IsAt place) :=
  inferInstanceAs (Decidable (_ ∧ _))

/-- The number of terms of the node under the cursor. -/
def termCount (d : Draft) : Nat :=
  d.nodes[d.cursor]?.elim 0 fun node => node.terms.size

theorem termCount_eq {d : Draft} {node : Node} (h : d.nodes[d.cursor]? = some node) :
    d.termCount = node.terms.size := by
  rw [termCount, h]
  rfl

theorem getElem?_modifyCurrent (d : Draft) (f : Node → Node) (place : Nat) :
    (d.modifyCurrent f).nodes[place]?
      = if d.cursor = place then d.nodes[place]?.map f else d.nodes[place]? :=
  Array.getElem?_modify

/-- A new node is behind all others, and its place is noted at the node under the cursor. -/
theorem getElem?_descend (d : Draft) (o : Occur) (place : Nat) :
    (d.descend o).nodes[place]?
      = if place = d.nodes.size then some { occur := o }
        else (d.modifyCurrent fun node =>
          { node with children := node.children.push d.nodes.size }).nodes[place]? := by
  have hsize := size_nodes_modifyCurrent d fun node =>
    { node with children := node.children.push d.nodes.size }
  simp only [descend, Array.getElem?_push, hsize]

end Draft

end BooleanSearch
