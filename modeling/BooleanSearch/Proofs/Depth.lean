import BooleanSearch.Proofs.Repair
import BooleanSearch.Proofs.Requirements
import Mathlib.Order.Bounds.Basic

/-!
# The depth of a tree

The depth of a tree is found by going through all its nodes and keeping the greatest level so far.
It is the height of the tree, which recursion tells.

While a string is read the cursor goes up and down, and nodes are never taken away.  So the tree is
as deep as the cursor has been at any time: a token that takes it deeper than it was before adds a
level, and no other token does.

## Main definitions

* `Draft.pathLengths` — how far below the root the cursor is while tokens are read.

## Main results

* `Query.depth_eq_height` — the greatest level is the height.
* `Spine.height_step` — what a token does to the height.
* `Spine.height_foldl` — the height after all tokens.
* `depth_parse` — **the depth of a tree is told from the path of the cursor.**
-/

namespace BooleanSearch

/-! ### Depth and height -/

namespace Query

theorem height_eq (q : Query) : q.height = 1 + heightAll q.subqueries := by
  cases q
  rfl

theorem height_pos (q : Query) : 0 < q.height := by
  rw [height_eq]
  omega

theorem heightAll_append (qs rs : List Query) :
    heightAll (qs ++ rs) = max (heightAll qs) (heightAll rs) := by
  induction qs with
  | nil => exact (Nat.zero_max _).symm
  | cons q qs ih => rw [List.cons_append, heightAll, heightAll, ih, Nat.max_assoc]

theorem heightAll_le_iff {qs : List Query} {n : Nat} :
    heightAll qs ≤ n ↔ ∀ q ∈ qs, q.height ≤ n := by
  induction qs with
  | nil => exact iff_of_true (Nat.zero_le n) (List.forall_mem_nil _)
  | cons q qs ih => rw [heightAll, Nat.max_le, ih, List.forall_mem_cons]

/-- The levels of a tree, if its root has the given level, are that of the root and those of its
subqueries. -/
theorem add_height_le_iff {q : Query} {level n : Nat} :
    level + q.height ≤ n + 1 ↔
      level ≤ n ∧ ∀ sub ∈ q.subqueries, level + 1 + sub.height ≤ n + 1 := by
  constructor
  · intro hle
    rw [height_eq] at hle
    refine ⟨by omega, fun sub hsub => ?_⟩
    have hsub' := heightAll_le_iff.1 (Nat.le_refl (heightAll q.subqueries)) sub hsub
    omega
  · rintro ⟨hroot, hsubs⟩
    have hbelow : heightAll q.subqueries ≤ n - level :=
      heightAll_le_iff.2 fun sub hsub => by have hle := hsubs sub hsub; omega
    rw [height_eq]
    omega

/-- The loop over pending trees is told by its upper bounds, in which the order of the trees does
not matter. -/
theorem depthAll_le_iff {n : Nat} (deepest : Nat) (work : List (Nat × Query)) :
    depthAll deepest work ≤ n ↔ deepest ≤ n ∧ ∀ p ∈ work, p.1 + p.2.height ≤ n + 1 := by
  fun_induction depthAll deepest work with
  | case1 deepest => exact (and_iff_left (List.forall_mem_nil _)).symm
  | case2 deepest level q rest ih =>
    -- the recursion is on the subqueries with the fact that they are such
    have hattach : (q.subqueries.attach.reverse.map fun sub => (level + 1, sub.1))
        = q.subqueries.reverse.map fun sub => (level + 1, sub) := by
      rw [List.map_reverse, List.map_reverse]
      exact congrArg List.reverse List.attach_map_val
    have hstep : depthAll (max deepest level)
          (q.subqueries.reverse.map (fun sub => (level + 1, sub)) ++ rest) ≤ n
        ↔ max deepest level ≤ n ∧
          ∀ p ∈ q.subqueries.reverse.map (fun sub => (level + 1, sub)) ++ rest,
            p.1 + p.2.height ≤ n + 1 := by
      rw [← hattach]
      exact ih
    rw [hstep, Nat.max_le, List.forall_mem_append, List.forall_mem_map, List.forall_mem_cons,
      add_height_le_iff]
    simp only [List.mem_reverse, and_assoc]

/-- The greatest level of a tree is its height. -/
theorem depth_eq_height (q : Query) : q.depth = q.height := by
  refine eq_of_forall_ge_iff fun n => ?_
  rw [depth, depthAll_le_iff, List.forall_mem_singleton, Nat.add_comm 1]
  exact ⟨fun h => Nat.le_of_succ_le_succ h.2, fun h => ⟨Nat.zero_le n, Nat.succ_le_succ h⟩⟩

/-! ### The height of an open tree -/

theorem height_pushSubquery (q sub : Query) :
    (q.pushSubquery sub).height = max q.height (1 + sub.height) := by
  rw [height_eq, height_eq q, pushSubquery, heightAll_append, heightAll, heightAll]
  omega

theorem height_pushTerm (q : Query) (term : String) : (q.pushTerm term).height = q.height := by
  rw [height_eq, height_eq q]
  rfl

theorem height_setOccur (q : Query) (o : Occur) : (q.setOccur o).height = q.height := by
  rw [height_eq, height_eq q]
  rfl

/-- A node that grows to some height makes the whole tree grow, as far as the node is below the
root. -/
theorem height_closeInto {height : Nat} (above : List Query) : ∀ {q q' : Query},
    q'.height = max q.height height →
      (q'.closeInto above).height = max (q.closeInto above).height (above.length + height) := by
  induction above generalizing height with
  | nil =>
    intro q q' h
    rw [closeInto_nil, closeInto_nil, h, List.length_nil, Nat.zero_add]
  | cons parent above ih =>
    intro q q' h
    have hparent : (parent.pushSubquery q').height
        = max (parent.pushSubquery q).height (1 + height) := by
      rw [height_pushSubquery, height_pushSubquery, h]
      omega
    rw [closeInto_cons, closeInto_cons, ih hparent, List.length_cons, Nat.add_assoc]

/-- A node that does not grow leaves the height as it is, and it is no deeper than that. -/
theorem height_closeInto_of_eq {q q' : Query} (h : q'.height = q.height) (above : List Query) :
    (q'.closeInto above).height = max (q.closeInto above).height (above.length + 1) := by
  apply height_closeInto
  rw [h, Nat.max_eq_left q.height_pos]

end Query

/-! ### The height along a run -/

namespace Spine

/-- The cursor is on a node of the tree. -/
theorem length_above_lt_height (z : Spine) : z.above.length < z.tree.height := by
  have hself := Query.height_closeInto_of_eq (Eq.refl z.current.height) z.above
  rw [tree, hself]
  omega

/-- A token makes the tree as high as the cursor is deep, if it was not so before. -/
theorem Effect.height_tree {z z' : Spine} {term? : Option String} (h : z.Effect term? z') :
    z'.tree.height = max z.tree.height (z'.above.length + 1) := by
  cases h with
  | phrase words => exact Query.height_closeInto_of_eq rfl z.above
  | term term words => exact Query.height_closeInto_of_eq (z.current.height_pushTerm term) z.above
  | occur o => exact Query.height_closeInto_of_eq (z.current.height_setOccur o) z.above
  | descend o =>
    have hleaf : (z.current.pushSubquery { occur := o }).height = max z.current.height 2 :=
      Query.height_pushSubquery _ _
    exact Query.height_closeInto z.above hleaf
  | ascend =>
    have hlt := z.ascend.length_above_lt_height
    rw [tree_ascend] at hlt ⊢
    exact (Nat.max_eq_left hlt).symm

theorem height_step (z : Spine) (t : Token) :
    (z.step t).tree.height = max z.tree.height ((z.step t).above.length + 1) :=
  (z.effect_step t).height_tree

end Spine

/-- The lengths that the path of the cursor has while tokens are read, before the first of them and
after each. -/
def Draft.pathLengths (ts : List Token) : Set Nat :=
  {n | ∃ before, before <+: ts ∧ (ofTokens before).path.length = n}

theorem Draft.pathLengths_nil : pathLengths [] = {0} := by
  ext n
  simp [pathLengths, ofTokens, eq_comm]

theorem Draft.pathLengths_concat (ts : List Token) (t : Token) :
    pathLengths (ts ++ [t]) = insert (ofTokens (ts ++ [t])).path.length (pathLengths ts) := by
  ext n
  simp [pathLengths, List.prefix_concat_iff, or_and_right, exists_or, eq_comm]

/-- The tree is as high as the cursor has been deep. -/
theorem Spine.height_foldl (ts : List Token) :
    ∃ longest, IsGreatest (Draft.pathLengths ts) longest ∧
      (ts.foldl step {}).tree.height = 1 + longest := by
  induction ts using List.reverseRecOn with
  | nil => exact ⟨0, Draft.pathLengths_nil ▸ isGreatest_singleton, rfl⟩
  | append_singleton ts t ih =>
    obtain ⟨longest, hgreatest, hheight⟩ := ih
    have hpath : (Draft.ofTokens (ts ++ [t])).path.length
        = ((ts.foldl step {}).step t).above.length := by
      rw [Draft.ofTokens_eq, length_path_draft, List.foldl_append]
      rfl
    refine ⟨max ((ts.foldl step {}).step t).above.length longest, ?_, ?_⟩
    · rw [Draft.pathLengths_concat, hpath]
      exact hgreatest.insert _
    · rw [List.foldl_append, List.foldl_cons, List.foldl_nil, height_step, hheight]
      omega

/-- **The depth of a tree is its height, and for a tree that was read it is told from the path of
the cursor.**  It is one more than the greatest length of the path, nodes that `OR` opened included,
at any time while the string is read. -/
theorem depth_parse :
    (∀ q : Query, q.depth = q.height) ∧
      ∀ s : String, ∃ longest, IsGreatest (Draft.pathLengths (tokenize s)) longest ∧
        (parse s).depth = 1 + longest := by
  constructor
  · exact Query.depth_eq_height
  · intro s
    rw [Query.depth_eq_height, parse_eq_tree]
    exact Spine.height_foldl (tokenize s)

end BooleanSearch
