import BooleanSearch.Proofs.Splits
import Mathlib.Data.List.Chain

/-!
# The places of a draft

A draft notes at each node the places of its subqueries, and on its path the places of the open
nodes.  These places are in order: every node but the root is noted once, at a node that was opened
before it, the subqueries of a node are noted as they were opened, and a node is open only as the
last subquery of the one above it.

No more has to be known of a draft to see that a token keeps the order.  For a token leaves the
places as they are, closes the node under the cursor, or opens a new one there, which is noted
behind all others.

## Main definitions

* `Draft.childPlaces` — the places that are noted at the nodes.
* `Draft.InOrder` — the order of the places.
* `Draft.Moves` — what a token may do to the places.

## Main results

* `Draft.moves_step` — what a token does to the places is one of the cases.
* `Draft.InOrder.step`, `Draft.inOrder_foldl` — **tokens keep the places in order.**
-/

namespace BooleanSearch

namespace Draft

/-- The places of the subqueries of each node. -/
def childPlaces (d : Draft) : List (List Nat) :=
  d.nodes.toList.map fun node => node.children.toList

/-- Whether the node at a place is the last subquery of the node at another. -/
def IsLastOf (d : Draft) (place parent : Nat) : Prop :=
  ∃ places, d.childPlaces[parent]? = some places ∧ places.getLast? = some place

/-- The order of the places of a draft. -/
structure InOrder (d : Draft) : Prop where
  /-- The root and the subqueries of all nodes are all nodes, each of them once. -/
  once : (0 :: d.childPlaces.flatten).Perm (List.range d.nodes.size)
  /-- A subquery was opened after the node that it is noted at. -/
  later : ∀ (parent : Nat) (places : List Nat), d.childPlaces[parent]? = some places →
    ∀ place ∈ places, parent < place
  /-- Subqueries are noted as they were opened. -/
  increasing : ∀ places ∈ d.childPlaces, places.Pairwise (· < ·)
  /-- An open node is the last subquery of the one above it, the outermost one that of the root. -/
  path : (d.path ++ [0]).IsChain d.IsLastOf

variable {d d' : Draft} {place parent : Nat} {places : List Nat}

/-! ### The places after a token -/

@[simp] theorem length_childPlaces (d : Draft) : d.childPlaces.length = d.nodes.size := by
  rw [childPlaces, List.length_map, Array.length_toList]

theorem getElem?_childPlaces (d : Draft) (place : Nat) :
    d.childPlaces[place]? = d.nodes[place]?.map fun node => node.children.toList := by
  rw [childPlaces, List.getElem?_map, Array.getElem?_toList]

theorem childPlaces_modifyCurrent (d : Draft) {f : Node → Node}
    (hf : ∀ node, (f node).children = node.children) :
    (d.modifyCurrent f).childPlaces = d.childPlaces := by
  apply List.ext_getElem?
  intro place
  rw [getElem?_childPlaces, getElem?_childPlaces, getElem?_modifyCurrent]
  split
  · rw [Option.map_map]
    exact congrArg (Option.map · _) (funext fun node => congrArg Array.toList (hf node))
  · rfl

/-- A new node is noted at the node under the cursor, and nothing is noted at it. -/
theorem childPlaces_descend (d : Draft) (o : Occur) :
    (d.descend o).childPlaces = d.childPlaces.modify d.cursor (· ++ [d.nodes.size]) ++ [[]] := by
  have hmodify : ((d.modifyCurrent fun node =>
      { node with children := node.children.push d.nodes.size }).childPlaces)
        = d.childPlaces.modify d.cursor (· ++ [d.nodes.size]) := by
    apply List.ext_getElem?
    intro place
    rw [getElem?_childPlaces, getElem?_modifyCurrent, List.getElem?_modify, getElem?_childPlaces]
    cases d.nodes[place]? with
    | none => split <;> rfl
    | some node =>
      split
      · exact congrArg some (Array.toList_push ..)
      · rfl
  rw [← hmodify, childPlaces, childPlaces, descend, Array.toList_push, List.map_append]
  rfl

theorem getElem?_childPlaces_descend (d : Draft) (o : Occur) (place : Nat) :
    (d.descend o).childPlaces[place]?
      = if place = d.nodes.size then some []
        else if d.cursor = place then d.childPlaces[place]?.map (· ++ [d.nodes.size])
        else d.childPlaces[place]? := by
  rw [getElem?_childPlaces, getElem?_childPlaces, getElem?_descend, getElem?_modifyCurrent]
  split
  · rfl
  split
  · cases d.nodes[place]? with
    | none => rfl
    | some node => exact congrArg some (Array.toList_push ..)
  · rfl

/-- The cursor is on the innermost open node, or else on the root. -/
theorem path_concat_zero (d : Draft) : d.path ++ [0] = d.cursor :: (d.path ++ [0]).tail := by
  unfold cursor
  cases d.path <;> rfl

/-- What a token may do to the places of a draft. -/
inductive Moves (d : Draft) : Draft → Prop
  /-- The places stay as they are. -/
  | same {d' : Draft} (hchildren : d'.childPlaces = d.childPlaces) (hpath : d'.path = d.path) :
    Moves d d'
  /-- A subquery of the node under the cursor is opened. -/
  | descend (o : Occur) : Moves d (d.descend o)
  /-- The node under the cursor is closed. -/
  | ascend : Moves d d.ascend

theorem moves_modifyCurrent (d : Draft) {f : Node → Node}
    (hf : ∀ node, (f node).children = node.children) : d.Moves (d.modifyCurrent f) :=
  .same (d.childPlaces_modifyCurrent hf) rfl

theorem moves_pushTerm (d : Draft) (term : String) : d.Moves (d.pushTerm term) := by
  unfold pushTerm
  exact d.moves_modifyCurrent fun _ => rfl

theorem moves_toggleQuote (d : Draft) : d.Moves d.toggleQuote := by
  unfold toggleQuote
  split
  · exact .same rfl rfl
  · unfold pushTerm
    exact .same (childPlaces_modifyCurrent _ fun _ => rfl) rfl

theorem moves_applyAnd (d : Draft) : d.Moves d.applyAnd := by
  unfold applyAnd
  apply d.moves_modifyCurrent
  intro node
  split <;> rfl

theorem moves_applyOr (d : Draft) : d.Moves d.applyOr := by
  unfold applyOr setOccur
  split
  · exact .descend .should
  · exact d.moves_modifyCurrent fun _ => rfl

/-- What a token does to the places is one of the cases. -/
theorem moves_step (d : Draft) (t : Token) : d.Moves (d.step t) := by
  unfold step
  split
  · cases t with
    | quoteMark => exact d.moves_toggleQuote
    | _ => exact .same rfl rfl
  · cases t with
    | literal word => exact d.moves_pushTerm word
    | and => exact d.moves_applyAnd
    | or => exact d.moves_applyOr
    | quoteMark => exact d.moves_toggleQuote
    | leftParen => exact .descend .must
    | rightParen => exact .ascend
    | whitespace _ | illegal _ | endOfInput => exact .same rfl rfl

/-! ### Tokens keep the order -/

namespace InOrder

theorem lt_size_iff (h : d.InOrder) :
    place < d.nodes.size ↔ place = 0 ∨ place ∈ d.childPlaces.flatten := by
  rw [← List.mem_range, ← h.once.mem_iff, List.mem_cons]

/-- What is noted at a node is the place of a node. -/
theorem lt_size_of_mem (h : d.InOrder) (hplaces : d.childPlaces[parent]? = some places)
    (hplace : place ∈ places) : place < d.nodes.size :=
  h.lt_size_iff.2 (Or.inr (List.mem_flatten_of_mem (List.mem_of_getElem? hplaces) hplace))

theorem lt_of_isLastOf (h : d.InOrder) (hlast : d.IsLastOf place parent) : parent < place := by
  obtain ⟨places, hplaces, hplace⟩ := hlast
  exact h.later parent places hplaces place (List.mem_of_getLast? hplace)

/-- The places of open nodes get smaller towards the root. -/
theorem path_decreasing (h : d.InOrder) : (d.path ++ [0]).Pairwise (· > ·) :=
  List.isChain_iff_pairwise.1 (h.path.imp fun _ _ => h.lt_of_isLastOf)

/-- There is a node at each place of the path. -/
theorem lt_size_of_mem_path (h : d.InOrder) (hplace : place ∈ d.path) : place < d.nodes.size := by
  obtain ⟨inner, outer, hpath⟩ := List.append_of_mem hplace
  obtain ⟨above, rest, hrest⟩ : ∃ above rest, outer ++ [0] = above :: rest :=
    List.exists_cons_of_ne_nil (by simp)
  have hchain := h.path
  rw [hpath, List.append_assoc, List.cons_append, hrest, List.isChain_append_cons_cons] at hchain
  obtain ⟨places, hplaces, hget⟩ := hchain.2.1
  exact h.lt_size_of_mem hplaces (List.mem_of_getLast? hget)

theorem cursor_lt_size (h : d.InOrder) : d.cursor < d.nodes.size := by
  unfold cursor
  cases hpath : d.path with
  | nil => exact h.lt_size_iff.2 (Or.inl rfl)
  | cons place path =>
    apply h.lt_size_of_mem_path
    rw [hpath]
    exact List.mem_cons_self

theorem of_same (h : d.InOrder) (hchildren : d'.childPlaces = d.childPlaces)
    (hpath : d'.path = d.path) : d'.InOrder := by
  have hsize : d'.nodes.size = d.nodes.size := by
    rw [← length_childPlaces, hchildren, length_childPlaces]
  have hlast : d'.IsLastOf = d.IsLastOf := by
    unfold IsLastOf
    rw [hchildren]
  exact ⟨by rw [hchildren, hsize]; exact h.once, by rw [hchildren]; exact h.later,
    by rw [hchildren]; exact h.increasing, by rw [hpath, hlast]; exact h.path⟩

theorem ascend (h : d.InOrder) : d.ascend.InOrder := by
  refine ⟨h.once, h.later, h.increasing, ?_⟩
  change (d.path.tail ++ [0]).IsChain d.IsLastOf
  cases hpath : d.path with
  | nil => exact List.isChain_singleton 0
  | cons place path =>
    have hchain := h.path
    rw [hpath] at hchain
    exact hchain.tail

/-- A node that is last of another one stays so, unless the cursor is on the other. -/
theorem isLastOf_descend (hlast : d.IsLastOf place parent) (hparent : parent ≠ d.cursor)
    (o : Occur) : (d.descend o).IsLastOf place parent := by
  obtain ⟨places, hplaces, hget⟩ := hlast
  have hlt : parent < d.nodes.size := by
    rw [← length_childPlaces]
    exact (List.getElem?_eq_some_iff.1 hplaces).1
  refine ⟨places, ?_, hget⟩
  rw [getElem?_childPlaces_descend, if_neg (Nat.ne_of_lt hlt), if_neg (Ne.symm hparent), hplaces]

/-- The new node is the last one of the node under the cursor. -/
theorem isLastOf_cursor (h : d.InOrder) (o : Occur) :
    (d.descend o).IsLastOf d.nodes.size d.cursor := by
  have hlt := h.cursor_lt_size
  obtain ⟨places, hplaces⟩ : ∃ places, d.childPlaces[d.cursor]? = some places :=
    ⟨_, List.getElem?_eq_getElem (by rwa [length_childPlaces])⟩
  refine ⟨places ++ [d.nodes.size], ?_, List.getLast?_concat⟩
  rw [getElem?_childPlaces_descend, if_neg (Nat.ne_of_lt hlt), if_pos rfl, hplaces]
  rfl

theorem descend (h : d.InOrder) (o : Occur) : (d.descend o).InOrder where
  once := by
    have hlt := h.cursor_lt_size
    rw [← length_childPlaces] at hlt
    obtain ⟨before, places, after, hsplit, -, hmodify⟩ :=
      List.exists_of_modify (· ++ [d.nodes.size]) hlt
    have honce := h.once
    rw [hsplit] at honce
    rw [childPlaces_descend, hmodify, size_nodes_descend, List.range_succ]
    refine List.Perm.trans ?_ (honce.append_right [d.nodes.size])
    -- the new place has to pass those that are noted behind the node under the cursor
    have hpass : ([d.nodes.size] ++ after.flatten).Perm (after.flatten ++ [d.nodes.size]) :=
      List.perm_append_comm
    simp only [List.flatten_append, List.flatten_cons, List.flatten_nil, List.append_nil,
      List.append_assoc, List.cons_append]
    exact ((hpass.append_left places).append_left before.flatten).cons 0
  later := by
    intro parent places hplaces place hplace
    rw [getElem?_childPlaces_descend] at hplaces
    split at hplaces
    · cases hplaces
      cases hplace
    split at hplaces
    · next hcursor =>
      obtain ⟨places, hold, rfl⟩ := Option.map_eq_some_iff.1 hplaces
      rcases List.mem_append.1 hplace with hmem | hmem
      · exact h.later parent places hold place hmem
      · rw [List.mem_singleton.1 hmem, ← hcursor]
        exact h.cursor_lt_size
    · exact h.later parent places hplaces place hplace
  increasing := by
    intro places hplaces
    obtain ⟨parent, hplaces⟩ := List.mem_iff_getElem?.1 hplaces
    rw [getElem?_childPlaces_descend] at hplaces
    split at hplaces
    · cases hplaces
      exact List.Pairwise.nil
    split at hplaces
    · obtain ⟨places, hold, rfl⟩ := Option.map_eq_some_iff.1 hplaces
      refine List.pairwise_append.2
        ⟨h.increasing places (List.mem_of_getElem? hold), List.pairwise_singleton _ _, ?_⟩
      intro place hplace new hnew
      rw [List.mem_singleton.1 hnew]
      exact h.lt_size_of_mem hold hplace
    · exact h.increasing places (List.mem_of_getElem? hplaces)
  path := by
    have hchain : (d.path ++ [0]).IsChain (d.descend o).IsLastOf := by
      refine h.path.imp_of_mem_tail_imp fun place parent _ hparent hlast => ?_
      -- the cursor is the innermost place, and the others are smaller
      have hdecreasing := h.path_decreasing
      rw [path_concat_zero, List.pairwise_cons] at hdecreasing
      exact isLastOf_descend hlast (Nat.ne_of_lt (hdecreasing.1 parent hparent)) o
    rw [path_descend, List.cons_append]
    refine hchain.cons fun place hplace => ?_
    rw [path_concat_zero, List.head?_cons, Option.mem_some] at hplace
    rw [← hplace]
    exact h.isLastOf_cursor o

theorem of_moves (h : d.InOrder) (hmoves : d.Moves d') : d'.InOrder := by
  cases hmoves with
  | same hchildren hpath => exact h.of_same hchildren hpath
  | descend o => exact h.descend o
  | ascend => exact h.ascend

/-- A token keeps the places in order. -/
theorem step (h : d.InOrder) (t : Token) : (d.step t).InOrder :=
  h.of_moves (d.moves_step t)

end InOrder

theorem inOrder_empty : InOrder {} where
  once := List.Perm.refl _
  later := by
    intro parent places hplaces place hplace
    have hempty : places = [] := List.mem_singleton.1 (List.mem_of_getElem? hplaces)
    rw [hempty] at hplace
    cases hplace
  increasing := List.forall_mem_singleton.2 List.Pairwise.nil
  path := List.isChain_singleton 0

/-- Tokens keep the places in order. -/
theorem inOrder_foldl (ts : List Token) : ∀ d : Draft, d.InOrder → (ts.foldl step d).InOrder := by
  induction ts with
  | nil =>
    intro d h
    exact h
  | cons t ts ih =>
    intro d h
    exact ih (d.step t) (h.step t)

end Draft

end BooleanSearch
