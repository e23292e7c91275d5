import BooleanSearch.Proofs.Spine

/-!
# Putting a tree in the place of a node

A node is known by its number in preorder.  Putting another tree in its place leaves every other
node as it is.  A token that is read later sees nothing of a node that has been closed, so it makes
no difference whether the tree is put there before or after the token is read.

## Main definitions

* `Query.replace` — another tree in the place of a node.
* `Spine.IsClosed` — the numbers of the nodes that have been closed.
* `Spine.replace` — another tree in the place of a node that has been closed.

## Main results

* `Query.getElem?_subtrees_replace` — the tree that was put in the place is there.
* `Spine.foldl_step_replace` — **tokens keep the replacement.**
* `Spine.tree_replace` — closing all open nodes keeps it as well.
-/

namespace BooleanSearch

namespace Query

mutual

/-- The tree in which `x` stands in the place of node number `n`. -/
def replace : Query → Nat → Query → Query
  | _, 0, x => x
  | ⟨o, ts, subs⟩, n + 1, x => ⟨o, ts, replaceAll subs n x⟩

/-- The neighbouring trees in which `x` stands in the place of node number `n`. -/
def replaceAll : List Query → Nat → Query → List Query
  | [], _, _ => []
  | q :: qs, n, x =>
    if n < q.size then q.replace n x :: qs else q :: replaceAll qs (n - q.size) x

end

theorem replace_zero (q x : Query) : q.replace 0 x = x := by
  cases q
  rfl

theorem replace_succ (q : Query) (n : Nat) (x : Query) :
    q.replace (n + 1) x = { q with subqueries := replaceAll q.subqueries n x } := by
  cases q
  rfl

theorem replaceAll_append_of_lt {n : Nat} {qs : List Query} (h : n < sizeAll qs)
    (rs : List Query) (x : Query) : replaceAll (qs ++ rs) n x = replaceAll qs n x ++ rs := by
  induction qs generalizing n with
  | nil => cases h
  | cons q qs ih =>
    rw [sizeAll_cons] at h
    rw [List.cons_append, replaceAll, replaceAll]
    by_cases hn : n < q.size
    · rw [if_pos hn, if_pos hn, List.cons_append]
    · rw [if_neg hn, if_neg hn, ih (by omega), List.cons_append]

theorem replaceAll_append_of_le {n : Nat} {qs : List Query} (h : sizeAll qs ≤ n)
    (rs : List Query) (x : Query) :
    replaceAll (qs ++ rs) n x = qs ++ replaceAll rs (n - sizeAll qs) x := by
  induction qs generalizing n with
  | nil => rfl
  | cons q qs ih =>
    rw [sizeAll_cons] at h
    have hn : ¬n < q.size := by omega
    rw [List.cons_append, replaceAll, if_neg hn, ih (by omega), sizeAll_cons, Nat.sub_sub,
      List.cons_append]

mutual

/-- The tree that was put in the place of a node is there. -/
theorem getElem?_subtrees_replace : ∀ (q : Query) {n : Nat} (x : Query), n < q.size →
    (q.replace n x).subtrees[n]? = some x
  | q, 0, x, _ => by
    rw [replace_zero, subtrees_eq]
    rfl
  | ⟨o, ts, subs⟩, n + 1, x, h => by
    have hn : n < sizeAll subs := by
      rw [size] at h
      omega
    rw [replace_succ, subtrees_eq, List.getElem?_cons_succ]
    exact getElem?_subtreesAll_replaceAll subs x hn

theorem getElem?_subtreesAll_replaceAll : ∀ (qs : List Query) {n : Nat} (x : Query),
    n < sizeAll qs → (subtreesAll (replaceAll qs n x))[n]? = some x
  | [], n, x, h => by cases h
  | q :: qs, n, x, h => by
    rw [sizeAll] at h
    rw [replaceAll]
    by_cases hn : n < q.size
    · have hq := getElem?_subtrees_replace q x hn
      obtain ⟨hlt, -⟩ := List.getElem?_eq_some_iff.1 hq
      rw [if_pos hn, subtreesAll_cons, List.getElem?_append_left hlt, hq]
    · rw [if_neg hn, subtreesAll_cons, List.getElem?_append_right (by simpa using hn),
        length_subtrees]
      exact getElem?_subtreesAll_replaceAll qs x (by omega)

end

/-! ### Growing a node in which a tree was put -/

theorem size_setOccur (q : Query) (o : Occur) : (q.setOccur o).size = q.size := by
  rw [setOccur, size_eq, size_eq q]

/-- Terms and the requirement of a node are not below it. -/
theorem replace_pushTerm (q : Query) (n : Nat) (x : Query) (term : String) :
    (q.replace (n + 1) x).pushTerm term = (q.pushTerm term).replace (n + 1) x := by
  rw [replace_succ, replace_succ]
  rfl

theorem replace_setOccur (q : Query) (n : Nat) (x : Query) (o : Occur) :
    (q.replace (n + 1) x).setOccur o = (q.setOccur o).replace (n + 1) x := by
  rw [replace_succ, replace_succ]
  rfl

theorem replace_applyAnd (q : Query) (n : Nat) (x : Query) :
    (q.replace (n + 1) x).applyAnd = q.applyAnd.replace (n + 1) x := by
  rw [replace_succ, replace_succ, applyAnd, applyAnd]
  split <;> rfl

theorem requiresSeveral_replace (q : Query) (n : Nat) (x : Query) :
    (q.replace (n + 1) x).requiresSeveral = q.requiresSeveral := by
  rw [replace_succ]
  rfl

/-- A node below a node stays where it is when a subquery is added. -/
theorem replace_pushSubquery_of_lt {q : Query} {n : Nat} (h₀ : 0 < n) (h : n < q.size)
    (sub x : Query) : (q.pushSubquery sub).replace n x = (q.replace n x).pushSubquery sub := by
  obtain ⟨m, rfl⟩ := Nat.exists_eq_add_one_of_ne_zero (Nat.ne_of_gt h₀)
  have hm : m < sizeAll q.subqueries := by
    rw [size_eq] at h
    omega
  rw [replace_succ, replace_succ, pushSubquery, pushSubquery, replaceAll_append_of_lt hm]

/-- The nodes of a subquery come after those that are there when it is added. -/
theorem replace_pushSubquery_of_le {q sub : Query} {n : Nat} (h : q.size ≤ n)
    (hsub : n < q.size + sub.size) (x : Query) :
    (q.pushSubquery sub).replace n x = q.pushSubquery (sub.replace (n - q.size) x) := by
  have hpos := q.size_pos
  obtain ⟨m, rfl⟩ := Nat.exists_eq_add_one_of_ne_zero (Nat.ne_of_gt (Nat.lt_of_lt_of_le hpos h))
  rw [size_eq] at h hsub
  have hm : m - sizeAll q.subqueries = m + 1 - q.size := by
    rw [size_eq]
    omega
  have hlt : m - sizeAll q.subqueries < sub.size := by omega
  rw [replace_succ, pushSubquery, pushSubquery, replaceAll_append_of_le (by omega), replaceAll,
    if_pos hlt, hm]

/-! ### Open nodes -/

/-- The open nodes, innermost first, when `x` is put in the place of node number `n`. -/
def replaceOpen : List Query → Nat → Query → List Query
  | [], _, _ => []
  | q :: above, n, x =>
    if sizeAll above ≤ n then q.replace (n - sizeAll above) x :: above
    else q :: replaceOpen above n x

theorem isEmpty_replaceOpen (above : List Query) (n : Nat) (x : Query) :
    (replaceOpen above n x).isEmpty = above.isEmpty := by
  cases above with
  | nil => rfl
  | cons q above =>
    rw [replaceOpen]
    split <;> rfl

/-- Whether node number `n` has been closed below one of the open nodes, which come innermost
first. -/
def IsClosedBelow (n : Nat) : List Query → Prop
  | [] => False
  | q :: above => (sizeAll above < n ∧ n < sizeAll above + q.size) ∨ IsClosedBelow n above

theorem IsClosedBelow.lt_sizeAll {n : Nat} {above : List Query} (h : IsClosedBelow n above) :
    n < sizeAll above := by
  induction above with
  | nil => exact h.elim
  | cons q above ih =>
    rw [sizeAll_cons]
    rcases h with ⟨-, hlt⟩ | habove
    · omega
    · have hlt := ih habove
      omega

end Query

namespace Spine

open Query

/-- The numbers of the nodes that have been closed. -/
def IsClosed (z : Spine) (n : Nat) : Prop :=
  IsClosedBelow n (z.current :: z.above)

/-- The spine in which `x` stands in the place of node number `n`. -/
def replace (z : Spine) (n : Nat) (x : Query) : Spine :=
  if sizeAll z.above ≤ n then z.modify (·.replace (n - sizeAll z.above) x)
  else { z with above := replaceOpen z.above n x }

theorem replace_of_le {q : Query} {above : List Query} {n : Nat} (h : sizeAll above ≤ n)
    (phrase : Option (List String)) (x : Query) :
    replace ⟨q, above, phrase⟩ n x = ⟨q.replace (n - sizeAll above) x, above, phrase⟩ :=
  if_pos h

theorem replace_of_lt {q : Query} {above : List Query} {n : Nat} (h : n < sizeAll above)
    (phrase : Option (List String)) (x : Query) :
    replace ⟨q, above, phrase⟩ n x = ⟨q, replaceOpen above n x, phrase⟩ :=
  if_neg (Nat.not_le_of_lt h)

@[simp] theorem phrase_replace (z : Spine) (n : Nat) (x : Query) :
    (z.replace n x).phrase = z.phrase := by
  rw [replace]
  split <;> rfl

/-- A closed node lies below the node under the cursor, or below a node above it. -/
theorem IsClosed.cases {q : Query} {above : List Query} {phrase : Option (List String)} {n : Nat}
    (h : IsClosed ⟨q, above, phrase⟩ n) :
    (∃ m, n = sizeAll above + (m + 1) ∧ m + 1 < q.size) ∨
      (n < sizeAll above ∧ IsClosedBelow n above) := by
  rcases h with hcurrent | habove
  · have hpos : sizeAll above < n ∧ n < sizeAll above + q.size := hcurrent
    refine Or.inl ⟨n - sizeAll above - 1, ?_, ?_⟩ <;> omega
  · exact Or.inr ⟨habove.lt_sizeAll, habove⟩

variable {z : Spine} {n : Nat}

/-- A change of the node under the cursor that leaves alone what is below it. -/
theorem modify_replace {f : Query → Query} (h : z.IsClosed n)
    (hf : ∀ (q : Query) (m : Nat) (x : Query), f (q.replace (m + 1) x) = (f q).replace (m + 1) x)
    (x : Query) : (z.replace n x).modify f = (z.modify f).replace n x := by
  obtain ⟨q, above, phrase⟩ := z
  have hmodify (q : Query) (above : List Query) :
      modify ⟨q, above, phrase⟩ f = ⟨f q, above, phrase⟩ := rfl
  rcases h.cases with ⟨m, rfl, -⟩ | ⟨hlt, -⟩
  · have hle : sizeAll above ≤ sizeAll above + (m + 1) := Nat.le_add_right _ _
    rw [replace_of_le hle, hmodify, hmodify, replace_of_le hle, Nat.add_sub_cancel_left, hf]
  · rw [replace_of_lt hlt, hmodify, hmodify, replace_of_lt hlt]

theorem descend_replace (h : z.IsClosed n) (o : Occur) (x : Query) :
    (z.replace n x).descend o = (z.descend o).replace n x := by
  obtain ⟨q, above, phrase⟩ := z
  have hdescend (q : Query) (above : List Query) :
      descend ⟨q, above, phrase⟩ o = ⟨{ occur := o }, q :: above, phrase⟩ := rfl
  have hlt : n < sizeAll (q :: above) := IsClosedBelow.lt_sizeAll h
  rw [hdescend, replace_of_lt hlt, replaceOpen]
  by_cases hle : sizeAll above ≤ n
  · rw [if_pos hle, replace_of_le hle, hdescend]
  · rw [if_neg hle, replace_of_lt (Nat.lt_of_not_le hle), hdescend]

/-- A node below the one that is closed goes with it into its parent. -/
theorem ascend_replace_current {q parent : Query} {above : List Query} {m : Nat}
    (hm : m < q.size) (phrase : Option (List String)) (x : Query) :
    (replace ⟨q, parent :: above, phrase⟩ (sizeAll (parent :: above) + m) x).ascend
      = replace ⟨parent.pushSubquery q, above, phrase⟩ (sizeAll (parent :: above) + m) x := by
  have hascend : ascend ⟨q.replace m x, parent :: above, phrase⟩
      = ⟨parent.pushSubquery (q.replace m x), above, phrase⟩ := rfl
  have hle : sizeAll above ≤ parent.size + sizeAll above + m := by omega
  have hindex : parent.size + sizeAll above + m - sizeAll above = parent.size + m := by omega
  rw [replace_of_le (Nat.le_add_right _ _), Nat.add_sub_cancel_left, hascend, sizeAll_cons,
    replace_of_le hle, hindex,
    replace_pushSubquery_of_le (Nat.le_add_right _ _) (Nat.add_lt_add_left hm _),
    Nat.add_sub_cancel_left]

/-- A node below one of the other open nodes stays there. -/
theorem ascend_replace_above {q parent : Query} {above : List Query}
    (h : IsClosedBelow n (parent :: above)) (phrase : Option (List String)) (x : Query) :
    (replace ⟨q, parent :: above, phrase⟩ n x).ascend
      = replace ⟨parent.pushSubquery q, above, phrase⟩ n x := by
  have hascend (parent : Query) (above : List Query) :
      ascend ⟨q, parent :: above, phrase⟩ = ⟨parent.pushSubquery q, above, phrase⟩ := rfl
  rw [replace_of_lt h.lt_sizeAll, replaceOpen]
  by_cases hle : sizeAll above ≤ n
  · have hparent : sizeAll above < n ∧ n < sizeAll above + parent.size := by
      rcases h with hparent | habove
      · exact hparent
      · exact absurd habove.lt_sizeAll (Nat.not_lt_of_le hle)
    rw [if_pos hle, hascend, replace_of_le hle,
      replace_pushSubquery_of_lt (by omega) (by omega)]
  · rw [if_neg hle, hascend, replace_of_lt (Nat.lt_of_not_le hle)]

theorem ascend_replace (h : z.IsClosed n) (x : Query) :
    (z.replace n x).ascend = z.ascend.replace n x := by
  obtain ⟨q, above, phrase⟩ := z
  cases above with
  | nil =>
    have hle : sizeAll [] ≤ n := Nat.zero_le n
    have hroot (q : Query) : ascend ⟨q, [], phrase⟩ = ⟨q, [], phrase⟩ := rfl
    rw [replace_of_le hle, hroot, hroot, replace_of_le hle]
  | cons parent above =>
    rcases h.cases with ⟨m, rfl, hm⟩ | ⟨-, habove⟩
    · exact ascend_replace_current hm phrase x
    · exact ascend_replace_above habove phrase x

/-! ### Tokens -/

theorem IsClosed.modify {f : Query → Query} (h : z.IsClosed n) (hf : ∀ q, (f q).size = q.size) :
    (z.modify f).IsClosed n := by
  rcases h with hcurrent | habove
  · refine Or.inl ?_
    rw [Spine.modify, hf]
    exact hcurrent
  · exact Or.inr habove

theorem IsClosed.descend (h : z.IsClosed n) (o : Occur) : (z.descend o).IsClosed n :=
  Or.inr h

theorem IsClosed.ascend (h : z.IsClosed n) : z.ascend.IsClosed n := by
  obtain ⟨q, above, phrase⟩ := z
  cases above with
  | nil => exact h
  | cons parent above =>
    have hsize := size_pushSubquery parent q
    show IsClosedBelow n (parent.pushSubquery q :: above)
    rcases h with hcurrent | hparent | habove
    · have hlt : sizeAll (parent :: above) < n ∧ n < sizeAll (parent :: above) + q.size := hcurrent
      rw [sizeAll_cons] at hlt
      exact Or.inl ⟨by omega, by omega⟩
    · exact Or.inl ⟨hparent.1, by omega⟩
    · exact Or.inr habove

theorem applyOr_replace (h : z.IsClosed n) (x : Query) :
    (z.replace n x).applyOr = z.applyOr.replace n x := by
  have hsplit : ((z.replace n x).above.isEmpty && (z.replace n x).current.requiresSeveral)
      = (z.above.isEmpty && z.current.requiresSeveral) := by
    obtain ⟨q, above, phrase⟩ := z
    rcases h.cases with ⟨m, rfl, -⟩ | ⟨hlt, -⟩
    · rw [replace_of_le (Nat.le_add_right _ _), Nat.add_sub_cancel_left, requiresSeveral_replace]
    · rw [replace_of_lt hlt, isEmpty_replaceOpen]
  rw [applyOr, hsplit, applyOr]
  split
  · exact descend_replace h .should x
  · exact modify_replace h (fun q m x => replace_setOccur q m x .should) x

theorem Effect.isClosed {z' : Spine} {term? : Option String} (heffect : z.Effect term? z')
    (h : z.IsClosed n) : z'.IsClosed n := by
  cases heffect with
  | phrase words => exact h
  | term term words => exact h.modify fun q => size_pushTerm q term
  | occur o => exact h.modify fun q => size_setOccur q o
  | descend o => exact h.descend o
  | ascend => exact h.ascend

/-- A token leaves what has been closed where it is. -/
theorem IsClosed.step (h : z.IsClosed n) (t : Token) : (z.step t).IsClosed n :=
  (z.effect_step t).isClosed h

/-- A token sees nothing of what has been closed. -/
theorem step_replace (h : z.IsClosed n) (x : Query) (t : Token) :
    (z.replace n x).step t = (z.step t).replace n x := by
  have hterm (term : String) :
      (z.replace n x).modify (·.pushTerm term) = (z.modify (·.pushTerm term)).replace n x :=
    modify_replace h (fun q m x => replace_pushTerm q m x term) x
  have hphrase (z : Spine) (phrase : Option (List String)) :
      { z.replace n x with phrase } = replace { z with phrase } n x := by
    obtain ⟨q, above, old⟩ := z
    rw [replace, replace]
    split <;> rfl
  rw [step, phrase_replace]
  cases hz : z.phrase with
  | some words =>
    rw [step, hz]
    cases t with
    | quoteMark =>
      simp only [stepInPhrase]
      rw [hterm, hphrase]
    | _ => exact hphrase z _
  | none =>
    rw [step, hz]
    cases t with
    | literal word => exact hterm word
    | and => exact modify_replace h replace_applyAnd x
    | or => exact applyOr_replace h x
    | quoteMark => exact hphrase z _
    | leftParen => exact descend_replace h .must x
    | rightParen => exact ascend_replace h x
    | _ => rfl

/-- Tokens keep the replacement of a node that has been closed before. -/
theorem foldl_step_replace (h : z.IsClosed n) (x : Query) (ts : List Token) :
    ts.foldl step (z.replace n x) = (ts.foldl step z).replace n x ∧
      (ts.foldl step z).IsClosed n := by
  induction ts generalizing z with
  | nil => exact ⟨rfl, h⟩
  | cons t ts ih =>
    rw [List.foldl_cons, List.foldl_cons, step_replace h x t]
    exact ih (h.step t)

/-! ### The tree -/

theorem size_closeInto (q : Query) (above : List Query) :
    (q.closeInto above).size = sizeAll above + q.size := by
  induction above generalizing q with
  | nil => exact (Nat.zero_add _).symm
  | cons parent above ih =>
    rw [closeInto_cons, ih, size_pushSubquery, sizeAll_cons]
    omega

theorem IsClosed.lt_size_tree (h : z.IsClosed n) : n < z.tree.size := by
  rw [tree, size_closeInto]
  have hlt := IsClosedBelow.lt_sizeAll h
  rw [sizeAll_cons] at hlt
  omega

/-- The tree of a spine in which a node was replaced. -/
theorem tree_replace (h : z.IsClosed n) (x : Query) :
    (z.replace n x).tree = z.tree.replace n x := by
  obtain ⟨q, above, phrase⟩ := z
  induction above generalizing q with
  | nil => rfl
  | cons parent above ih =>
    -- one node after the other is closed into its parent
    rw [← tree_ascend, ascend_replace h, ← tree_ascend ⟨q, parent :: above, phrase⟩]
    exact ih _ h.ascend

end Spine

end BooleanSearch
