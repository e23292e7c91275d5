import BooleanSearch.Proofs.Places

/-!
# Assembling the nodes of a draft

The tree of a draft is assembled from the last node to the first.  As the places of a draft are in
order, the trees of the subqueries of a node are all there when it is the turn of the node, and each
of them is asked for once.  So they may as well be taken out of the slots that they are kept in: in
the end all slots are empty but that of the root.

That the tree lists the nodes in preorder does not follow from the order of the places alone: where
the first of two neighbours gains a subquery after the second was opened, the places are still in
order.  But a token opens a node under the cursor only, behind everything else.

## Main definitions

* `Draft.treeAt?` — the tree that is assembled for the node at a place.
* `Draft.takeTrees`, `Draft.fillSlots` — assembling with slots that are emptied.

## Main results

* `Draft.InOrder.isBuilt` — the tree of a node has the trees of all its subqueries.
* `Draft.InOrder.holdsFrom_fillSlots` — what the slots hold while they are filled.
* `places_assembled` — **the places of a draft are in order, and its tree is assembled whole.**
-/

namespace BooleanSearch

namespace Draft

variable {d : Draft} {count place first : Nat} {node : Node} {built : Array Query}

/-- The nodes from a place on, the first of them and the others. -/
theorem drop_nodes_eq_cons {rest : List Node} (h : d.nodes.toList.drop first = node :: rest) :
    d.nodes[first]? = some node ∧ d.nodes.toList.drop (first + 1) = rest := by
  constructor
  · rw [← Array.getElem?_toList, ← List.head?_drop, h, List.head?_cons]
  · rw [← List.tail_drop, h, List.tail_cons]

theorem getElem?_childPlaces_of_node (h : d.nodes[place]? = some node) :
    d.childPlaces[place]? = some node.children.toList := by
  rw [getElem?_childPlaces, h]
  rfl

/-! ### The trees that are assembled -/

/-- Whether the tree of a node has been built, and has the trees of all its subqueries. -/
def IsBuilt (count : Nat) (built : Array Query) (place : Nat) (node : Node) : Prop :=
  ∃ trees, built? count built place = some ⟨node.occur, node.terms.toList, trees⟩ ∧
    List.Forall₂ (fun child tree => built? count built child = some tree) node.children.toList trees

/-- The tree that is assembled for the node at a place. -/
def treeAt? (d : Draft) (place : Nat) : Option Query :=
  built? d.nodes.size (assemble d.nodes) place

/-- Trees that have been built stay. -/
theorem built?_push_of_eq_some {q : Query} (h : built? count built place = some q) (tree : Query) :
    built? count (built.push tree) place = some q := by
  unfold built? at h ⊢
  split at h
  · next hplace =>
    have hlt : count - 1 - place < built.size := (Array.getElem?_eq_some_iff.1 h).1
    rw [if_pos hplace, Array.getElem?_push, if_neg (Nat.ne_of_lt hlt), h]
  · cases h

/-- The next tree is that of the node before those that have been built. -/
theorem built?_push_first (h : built.size + first + 1 = count) (tree : Query) :
    built? count (built.push tree) first = some tree := by
  have hindex : count - 1 - first = built.size := by omega
  rw [built?, if_pos (by omega), hindex, Array.getElem?_push, if_pos rfl]

theorem IsBuilt.push (h : IsBuilt count built place node) (tree : Query) :
    IsBuilt count (built.push tree) place node := by
  obtain ⟨trees, hself, hchildren⟩ := h
  exact ⟨trees, built?_push_of_eq_some hself tree,
    hchildren.imp fun _ _ hchild => built?_push_of_eq_some hchild tree⟩

/-- A node is built from the trees of its subqueries, if these have been built. -/
theorem isBuilt_assembleNode (hsize : built.size + first + 1 = count)
    (hchildren : ∀ child ∈ node.children.toList, (built? count built child).isSome = true) :
    IsBuilt count (assembleNode count node built) first node := by
  rw [assembleNode_eq]
  exact ⟨_, built?_push_first hsize _, (forall₂_filterMap hchildren).imp
    fun _ _ hchild => built?_push_of_eq_some hchild _⟩

namespace InOrder

/-- The trees of all nodes from a place on, built from the last to the first. -/
theorem isBuilt_foldr (h : d.InOrder) (suffix : List Node) : ∀ first : Nat,
    d.nodes.toList.drop first = suffix → first ≤ d.nodes.size →
      (suffix.foldr (assembleNode d.nodes.size) #[]).size + first = d.nodes.size ∧
        ∀ place node, first ≤ place → d.nodes[place]? = some node →
          IsBuilt d.nodes.size (suffix.foldr (assembleNode d.nodes.size) #[]) place node := by
  induction suffix with
  | nil =>
    intro first hdrop hle
    rw [List.drop_eq_nil_iff, Array.length_toList] at hdrop
    refine ⟨?_, fun place node hfirst hnode => ?_⟩
    · rw [List.foldr_nil, List.size_toArray, List.length_nil]
      omega
    · have hlt := (Array.getElem?_eq_some_iff.1 hnode).1
      omega
  | cons node suffix ih =>
    intro first hdrop hle
    obtain ⟨hfirst, hrest⟩ := drop_nodes_eq_cons hdrop
    have hlt : first < d.nodes.size := (Array.getElem?_eq_some_iff.1 hfirst).1
    obtain ⟨hsize, hbuilt⟩ := ih (first + 1) hrest hlt
    rw [List.foldr_cons]
    generalize suffix.foldr (assembleNode d.nodes.size) #[] = built at hsize hbuilt ⊢
    refine ⟨?_, fun place other hplace hother => ?_⟩
    · rw [assembleNode_eq, Array.size_push]
      omega
    rcases Nat.eq_or_lt_of_le hplace with rfl | hlater
    · obtain rfl : node = other := Option.some.inj (hfirst.symm.trans hother)
      refine isBuilt_assembleNode (by omega) fun child hchild => ?_
      -- a subquery comes after the node, so its tree is there
      have hnoted := getElem?_childPlaces_of_node hfirst
      obtain ⟨n, hn⟩ : ∃ n, d.nodes[child]? = some n :=
        ⟨_, Array.getElem?_eq_getElem (h.lt_size_of_mem hnoted hchild)⟩
      obtain ⟨trees, hself, -⟩ := hbuilt child n (h.later first _ hnoted child hchild) hn
      rw [hself]
      rfl
    · rw [assembleNode_eq]
      exact (hbuilt place other hlater hother).push _

theorem size_assemble (h : d.InOrder) : (assemble d.nodes).size = d.nodes.size := by
  rw [assemble, ← Array.foldr_toList]
  exact (h.isBuilt_foldr _ 0 rfl (Nat.zero_le _)).1

/-- The tree of a node has the trees of all its subqueries. -/
theorem isBuilt (h : d.InOrder) (hnode : d.nodes[place]? = some node) :
    IsBuilt d.nodes.size (assemble d.nodes) place node := by
  rw [assemble, ← Array.foldr_toList]
  exact (h.isBuilt_foldr _ 0 rfl (Nat.zero_le _)).2 place node (Nat.zero_le _) hnode

theorem size_pos (h : d.InOrder) : 0 < d.nodes.size :=
  h.lt_size_iff.2 (Or.inl rfl)

/-- The tree of the draft is the one that is assembled for the root. -/
theorem back?_assemble (h : d.InOrder) : (assemble d.nodes).back? = some d.query := by
  have hpos := h.size_pos
  rw [← h.size_assemble] at hpos
  have hback : (assemble d.nodes).back? = some (assemble d.nodes)[(assemble d.nodes).size - 1] := by
    rw [Array.back?_eq_getElem?]
    exact Array.getElem?_eq_getElem (Nat.sub_lt hpos Nat.one_pos)
  rw [query, hback, Option.getD_some]

theorem treeAt?_zero (h : d.InOrder) : d.treeAt? 0 = some d.query := by
  rw [treeAt?, built?, if_pos h.size_pos, Nat.sub_zero, ← h.size_assemble,
    ← Array.back?_eq_getElem?, h.back?_assemble]

end InOrder

/-! ### Assembling with slots -/

/-- Takes the trees at some places out of their slots, in order.  A slot that is empty gives
none. -/
def takeTrees (slots : Array (Option Query)) : List Nat → List Query × Array (Option Query)
  | [] => ([], slots)
  | place :: places =>
    let taken := takeTrees (slots.setIfInBounds place none) places
    (slots[place]?.join.toList ++ taken.1, taken.2)

/-- Puts the tree of a node into its slot.  The trees of its subqueries are taken out of theirs. -/
def fillSlot (slots : Array (Option Query)) (place : Nat) (node : Node) : Array (Option Query) :=
  let taken := takeTrees slots node.children.toList
  taken.2.setIfInBounds place (some ⟨node.occur, node.terms.toList, taken.1⟩)

/-- Fills the slots of some nodes from the last to the first, which has the given place. -/
def fillSlots (slots : Array (Option Query)) (first : Nat) : List Node → Array (Option Query)
  | [] => slots
  | node :: nodes => fillSlot (fillSlots slots (first + 1) nodes) first node

/-- The slots of all nodes, once those of all nodes have been filled. -/
def slots (d : Draft) : Array (Option Query) :=
  fillSlots (Array.replicate d.nodes.size none) 0 d.nodes.toList

theorem size_takeTrees (places : List Nat) : ∀ slots : Array (Option Query),
    (takeTrees slots places).2.size = slots.size := by
  induction places with
  | nil =>
    intro slots
    rfl
  | cons place places ih =>
    intro slots
    rw [takeTrees, ih, Array.size_setIfInBounds]

/-- Trees are taken out of slots that are full, and the slots are empty then. -/
theorem takeTrees_eq {places : List Nat} {trees : List Query} (hnodup : places.Nodup) :
    ∀ {slots : Array (Option Query)},
      List.Forall₂ (fun place tree => slots[place]? = some (some tree)) places trees →
        (takeTrees slots places).1 = trees ∧
          ∀ place, (takeTrees slots places).2[place]?
            = if place ∈ places then some none else slots[place]? := by
  induction places generalizing trees with
  | nil =>
    intro slots hfull
    cases hfull
    exact ⟨rfl, fun place => (if_neg List.not_mem_nil).symm⟩
  | cons first places ih =>
    intro slots hfull
    obtain ⟨hfirst, hnodup⟩ := List.nodup_cons.1 hnodup
    cases hfull with
    | cons hslot hfull =>
      next tree trees =>
      have hlt : first < slots.size := (Array.getElem?_eq_some_iff.1 hslot).1
      have hleft : List.Forall₂
          (fun place tree => (slots.setIfInBounds first none)[place]? = some (some tree))
          places trees := by
        refine (List.forall₂_and_left _ _ |>.2 ⟨fun _ hmem => hmem, hfull⟩).imp ?_
        rintro place tree ⟨hmem, hplace⟩
        have hne : first ≠ place := fun heq => hfirst (heq ▸ hmem)
        rw [Array.getElem?_setIfInBounds, if_neg hne, hplace]
      obtain ⟨htrees, htaken⟩ := ih hnodup hleft
      refine ⟨?_, fun place => ?_⟩
      · rw [takeTrees, htrees, hslot]
        rfl
      · rw [takeTrees, htaken, Array.getElem?_setIfInBounds]
        by_cases heq : first = place
        · subst heq
          rw [if_neg hfirst, if_pos rfl, if_pos hlt, if_pos List.mem_cons_self]
        · simp only [List.mem_cons, Ne.symm heq, heq, false_or, if_false]

/-- What the slots hold when those from a place on have been filled: the tree of a node, until the
node that it is noted at is filled. -/
structure HoldsFrom (d : Draft) (first : Nat) (slots : Array (Option Query)) : Prop where
  /-- There is a slot for each node. -/
  size : slots.size = d.nodes.size
  /-- A tree that no node has taken so far is in its slot. -/
  full : ∀ place, first ≤ place → place < d.nodes.size →
    (∀ parent places, first ≤ parent → d.childPlaces[parent]? = some places → place ∉ places) →
      slots[place]? = some (d.treeAt? place)
  /-- A tree that a node has taken is in its slot no more. -/
  taken : ∀ (place parent : Nat) (places : List Nat), first ≤ parent →
    d.childPlaces[parent]? = some places → place ∈ places → slots[place]? = some none

namespace InOrder

/-- A node is noted at one other node only. -/
theorem parent_unique (h : d.InOrder) {parent parent' : Nat} {places places' : List Nat}
    (hplaces : d.childPlaces[parent]? = some places)
    (hplaces' : d.childPlaces[parent']? = some places') (hmem : place ∈ places)
    (hmem' : place ∈ places') : parent = parent' := by
  have hnodup : d.childPlaces.flatten.Nodup :=
    (List.nodup_cons.1 (h.once.nodup_iff.2 List.nodup_range)).2
  have hdisjoint := List.pairwise_iff_getElem.1 (List.nodup_flatten.1 hnodup).2
  obtain ⟨hlt, hget⟩ := List.getElem?_eq_some_iff.1 hplaces
  obtain ⟨hlt', hget'⟩ := List.getElem?_eq_some_iff.1 hplaces'
  rcases Nat.lt_trichotomy parent parent' with hless | heq | hgreater
  · exact absurd (hget' ▸ hmem') (hdisjoint parent parent' hlt hlt' hless (hget ▸ hmem))
  · exact heq
  · exact absurd (hget ▸ hmem) (hdisjoint parent' parent hlt' hlt hgreater (hget' ▸ hmem'))

section

variable {slots : Array (Option Query)} (h : d.InOrder) (hnode : d.nodes[first]? = some node)
  (hslots : d.HoldsFrom (first + 1) slots)
include h hnode hslots

/-- When it is the turn of a node, no later one has taken the trees of its subqueries. -/
theorem forall₂_slots {trees : List Query}
    (hchildren : List.Forall₂ (fun child tree => d.treeAt? child = some tree)
      node.children.toList trees) :
    List.Forall₂ (fun child tree => slots[child]? = some (some tree))
      node.children.toList trees := by
  have hnoted := getElem?_childPlaces_of_node hnode
  refine (List.forall₂_and_left _ _ |>.2 ⟨fun _ hmem => hmem, hchildren⟩).imp ?_
  rintro child tree ⟨hmem, hchild⟩
  rw [← hchild]
  refine hslots.full child (h.later first _ hnoted child hmem) (h.lt_size_of_mem hnoted hmem) ?_
  intro parent places hparent hplaces hmem'
  have heq := h.parent_unique hnoted hplaces hmem hmem'
  omega

theorem getElem?_fillSlot (place : Nat) :
    (fillSlot slots first node)[place]?
      = if first = place then some (d.treeAt? first)
        else if place ∈ node.children.toList then some none else slots[place]? := by
  obtain ⟨trees, hself, hchildren⟩ := h.isBuilt hnode
  have hnodup : node.children.toList.Nodup :=
    (h.increasing _ (List.mem_of_getElem? (getElem?_childPlaces_of_node hnode))).imp Nat.ne_of_lt
  obtain ⟨htrees, htaken⟩ := takeTrees_eq hnodup (h.forall₂_slots hnode hslots hchildren)
  have hlt : first < (takeTrees slots node.children.toList).2.size := by
    rw [size_takeTrees, hslots.size]
    exact (Array.getElem?_eq_some_iff.1 hnode).1
  rw [fillSlot, Array.getElem?_setIfInBounds, if_pos hlt, htrees, htaken, treeAt?, hself]

/-- Filling the slot of one more node. -/
theorem holdsFrom_fillSlot : d.HoldsFrom first (fillSlot slots first node) := by
  have hnoted := getElem?_childPlaces_of_node hnode
  have hget := h.getElem?_fillSlot hnode hslots
  refine ⟨?_, fun place hfirst hplace hfree => ?_,
    fun place parent places hparent hplaces hmem => ?_⟩
  · rw [fillSlot, Array.size_setIfInBounds, size_takeTrees, hslots.size]
  · rw [hget]
    rcases Nat.eq_or_lt_of_le hfirst with rfl | hlater
    · rw [if_pos rfl]
    · rw [if_neg (Nat.ne_of_lt hlater), if_neg (hfree first _ (Nat.le_refl _) hnoted)]
      exact hslots.full place hlater hplace
        fun parent places hparent => hfree parent places (Nat.le_of_succ_le hparent)
  · have hless := h.later parent places hplaces place hmem
    rw [hget, if_neg (by omega)]
    rcases Nat.eq_or_lt_of_le hparent with rfl | hlater
    · obtain rfl : node.children.toList = places := Option.some.inj (hnoted.symm.trans hplaces)
      rw [if_pos hmem]
    · split
      · rfl
      · exact hslots.taken place parent places hlater hplaces hmem

end

/-- What the slots hold while they are filled. -/
theorem holdsFrom_fillSlots (h : d.InOrder) (suffix : List Node) : ∀ first : Nat,
    d.nodes.toList.drop first = suffix →
      d.HoldsFrom first (fillSlots (Array.replicate d.nodes.size none) first suffix) := by
  induction suffix with
  | nil =>
    intro first hdrop
    rw [List.drop_eq_nil_iff, Array.length_toList] at hdrop
    refine ⟨Array.size_replicate, fun place hfirst hplace _ => ?_,
      fun place parent places hparent hplaces _ => ?_⟩
    · omega
    · have hlt := (List.getElem?_eq_some_iff.1 hplaces).1
      rw [length_childPlaces] at hlt
      omega
  | cons node suffix ih =>
    intro first hdrop
    obtain ⟨hfirst, hrest⟩ := drop_nodes_eq_cons hdrop
    exact h.holdsFrom_fillSlot hfirst (ih (first + 1) hrest)

/-- In the end only the slot of the root is full. -/
theorem getElem?_slots (h : d.InOrder) (hplace : place < d.nodes.size) :
    d.slots[place]? = some (if place = 0 then some d.query else none) := by
  have hslots := h.holdsFrom_fillSlots d.nodes.toList 0 rfl
  have hnodup := h.once.nodup_iff.2 List.nodup_range
  rcases h.lt_size_iff.1 hplace with rfl | hmem
  · rw [if_pos rfl, ← h.treeAt?_zero]
    refine hslots.full 0 (Nat.le_refl _) hplace fun parent places _ hplaces hmem => ?_
    exact Nat.not_lt_zero _ (h.later parent places hplaces 0 hmem)
  · obtain ⟨places, hplaces, hplace'⟩ := List.mem_flatten.1 hmem
    obtain ⟨parent, hparent⟩ := List.mem_iff_getElem?.1 hplaces
    have hless := h.later parent places hparent place hplace'
    rw [if_neg (by omega)]
    exact hslots.taken place parent places (Nat.zero_le _) hparent hplace'

end InOrder

theorem inOrder_ofTokens (ts : List Token) : (ofTokens ts).InOrder :=
  inOrder_foldl ts {} inOrder_empty

end Draft

/-- The nodes of a layout have the requirements and the terms of the subtrees. -/
theorem Query.map_layout (q : Query) (place : Nat) :
    (q.layout place).map (fun node => (node.occur, node.terms.toList))
      = q.subtrees.map fun sub => (sub.occur, sub.terms) := by
  apply List.ext_getElem?
  intro n
  rw [List.getElem?_map, List.getElem?_map, getElem?_layout, Option.map_map]
  rfl

/-- **The places of a draft are in order, and its tree is assembled whole.**  Whatever tokens a
draft was written down from, its places are in order, and the nodes in preorder are those of its
tree.  And for every draft whose places are in order there is a tree for each node, which has the
trees of all subqueries of the node.  The one for the root is the tree of the draft.  If the trees
are taken out of slots, none is missing and none is left over. -/
theorem places_assembled :
    (∀ ts : List Token, (Draft.ofTokens ts).InOrder ∧
      (Draft.ofTokens ts).query.subtrees.map (fun sub => (sub.occur, sub.terms))
        = (Draft.ofTokens ts).nodes.toList.map fun node => (node.occur, node.terms.toList)) ∧
    ∀ d : Draft, d.InOrder →
      (Draft.assemble d.nodes).back? = some d.query ∧
      d.treeAt? 0 = some d.query ∧
      (∀ (place : Nat) (node : Node), d.nodes[place]? = some node →
        ∃ trees, d.treeAt? place = some ⟨node.occur, node.terms.toList, trees⟩ ∧
          List.Forall₂ (fun child tree => d.treeAt? child = some tree)
            node.children.toList trees) ∧
      ∀ place < d.nodes.size,
        d.slots[place]? = some (if place = 0 then some d.query else none) := by
  constructor
  · intro ts
    refine ⟨Draft.inOrder_ofTokens ts, ?_⟩
    rw [Draft.ofTokens_eq, Spine.query_draft]
    exact (Query.map_layout _ 0).symm
  · intro d h
    exact ⟨h.back?_assemble, h.treeAt?_zero, fun place node hnode => h.isBuilt hnode,
      fun place hplace => h.getElem?_slots hplace⟩

/-- A group that has been closed, with one inside it, and another one that is open. -/
theorem places_assembled_plums :
    let d := Draft.ofTokens [.literal "figs", .leftParen, .literal "pears", .leftParen,
      .literal "plums", .rightParen, .rightParen, .literal "nuts", .leftParen]
    d.childPlaces = [[1, 3], [2], [], []] ∧ d.path = [3] ∧ d.InOrder ∧
      d.query.subtrees.map (fun sub => (sub.occur, sub.terms))
        = [(.must, ["figs", "nuts"]), (.must, ["pears"]), (.must, ["plums"]), (.must, [])] ∧
      (∃ trees, d.treeAt? 0 = some ⟨.must, ["figs", "nuts"], trees⟩ ∧
        List.Forall₂ (fun child tree => d.treeAt? child = some tree) [1, 3] trees) ∧
      d.slots[0]? = some (some d.query) ∧ d.slots[2]? = some none := by
  intro d
  obtain ⟨htokens, hassembled⟩ := places_assembled
  obtain ⟨horder, hpreorder⟩ := htokens [.literal "figs", .leftParen, .literal "pears", .leftParen,
    .literal "plums", .rightParen, .rightParen, .literal "nuts", .leftParen]
  obtain ⟨-, -, htrees, hslots⟩ := hassembled d horder
  have hsize : d.nodes.size = 4 := by decide +kernel
  refine ⟨by decide +kernel, by decide +kernel, horder, ?_, ?_, ?_, ?_⟩
  · exact hpreorder.trans (by decide +kernel)
  · exact htrees 0 ⟨.must, #["figs", "nuts"], #[1, 3]⟩ (by decide +kernel)
  · exact hslots 0 (hsize ▸ by decide)
  · exact hslots 2 (hsize ▸ by decide)

end BooleanSearch
