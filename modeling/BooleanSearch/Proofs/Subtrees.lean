import BooleanSearch.Query.Basic

/-!
# The subtrees of a query tree

Each node of a tree is the root of a subtree.  Listed in preorder, the subtrees number the nodes:
a node comes before everything below it, and what is below it comes before its later siblings.
Nodes are opened in this order while a search string is read, so the number of a node is also its
age.

## Main definitions

* `Query.subtrees` — the subtrees in preorder, the tree itself first.

## Main results

* `Query.length_subtrees` — there is one subtree for each node.
* `Query.mem_subtreesAll` — a subtree of neighbouring trees is one of a single tree.
* `Query.forall_mem_subtrees_iff` — what holds of all subtrees of a tree.
* `Query.induction` — from the subqueries of a tree to the tree.
-/

namespace BooleanSearch

namespace Query

/-- A tree is told by the parts of its root. -/
@[ext] theorem ext {q q' : Query} (hoccur : q.occur = q'.occur) (hterms : q.terms = q'.terms)
    (hsubs : q.subqueries = q'.subqueries) : q = q' := by
  cases q
  cases q'
  rw [Query.mk.injEq]
  exact ⟨hoccur, hterms, hsubs⟩

mutual

/-- The subtrees of a tree in preorder. -/
def subtrees : Query → List Query
  | ⟨o, ts, subs⟩ => ⟨o, ts, subs⟩ :: subtreesAll subs

/-- The subtrees of neighbouring trees in preorder. -/
def subtreesAll : List Query → List Query
  | [] => []
  | q :: qs => q.subtrees ++ subtreesAll qs

end

theorem subtrees_eq (q : Query) : q.subtrees = q :: subtreesAll q.subqueries := by
  cases q; rfl

@[simp] theorem subtreesAll_nil : subtreesAll [] = [] := rfl

@[simp] theorem subtreesAll_cons (q : Query) (qs : List Query) :
    subtreesAll (q :: qs) = q.subtrees ++ subtreesAll qs := rfl

theorem subtreesAll_append (qs rs : List Query) :
    subtreesAll (qs ++ rs) = subtreesAll qs ++ subtreesAll rs := by
  induction qs with
  | nil => rfl
  | cons q qs ih => rw [List.cons_append, subtreesAll_cons, subtreesAll_cons, ih, List.append_assoc]

theorem mem_subtreesAll {sub : Query} {qs : List Query} :
    sub ∈ subtreesAll qs ↔ ∃ q ∈ qs, sub ∈ q.subtrees := by
  induction qs with
  | nil => simp
  | cons q qs ih => simp [ih]

/-- What holds of all subtrees holds of the tree and of all subtrees of its subqueries. -/
theorem forall_mem_subtrees_iff {p : Query → Prop} {q : Query} :
    (∀ sub ∈ q.subtrees, p sub) ↔ p q ∧ ∀ sub ∈ q.subqueries, ∀ below ∈ sub.subtrees, p below := by
  rw [subtrees_eq, List.forall_mem_cons]
  refine and_congr_right fun _ => ?_
  constructor
  · intro h sub hsub below hbelow
    exact h below (mem_subtreesAll.2 ⟨sub, hsub, hbelow⟩)
  · intro h below hbelow
    obtain ⟨sub, hsub, hbelow⟩ := mem_subtreesAll.1 hbelow
    exact h sub hsub below hbelow

mutual

@[simp] theorem length_subtrees : ∀ q : Query, q.subtrees.length = q.size
  | ⟨_, _, subs⟩ => by
    rw [subtrees, List.length_cons, length_subtreesAll subs, size, Nat.add_comm]

@[simp] theorem length_subtreesAll : ∀ qs : List Query, (subtreesAll qs).length = sizeAll qs
  | [] => rfl
  | q :: qs => by
    rw [subtreesAll, List.length_append, length_subtrees q, length_subtreesAll qs, sizeAll]

end

theorem size_pos (q : Query) : 0 < q.size := by
  rw [size_eq]; omega

mutual

/-- What holds of a tree whenever it holds of its subqueries holds of every tree. -/
@[elab_as_elim]
theorem induction {motive : Query → Prop}
    (node : ∀ q : Query, (∀ sub ∈ q.subqueries, motive sub) → motive q) : ∀ q : Query, motive q
  | ⟨o, ts, subs⟩ => node ⟨o, ts, subs⟩ (inductionAll node subs)

theorem inductionAll {motive : Query → Prop}
    (node : ∀ q : Query, (∀ sub ∈ q.subqueries, motive sub) → motive q) :
    ∀ qs : List Query, ∀ sub ∈ qs, motive sub
  | [] => by
    intro sub hsub
    cases hsub
  | q :: qs => by
    intro sub hsub
    rcases List.mem_cons.1 hsub with heq | hsub
    · rw [heq]
      exact induction node q
    · exact inductionAll node qs sub hsub

end

/-! ### Growing a node -/

@[simp] theorem size_pushTerm (q : Query) (term : String) : (q.pushTerm term).size = q.size := by
  cases q; rfl

@[simp] theorem size_pushSubquery (q sub : Query) :
    (q.pushSubquery sub).size = q.size + sub.size := by
  simp [pushSubquery, size_eq q, size_eq ⟨_, _, _⟩, Nat.add_assoc]

end Query

end BooleanSearch
