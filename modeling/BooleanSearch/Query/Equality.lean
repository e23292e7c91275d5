import BooleanSearch.Query.Basic

/-!
# Equality of query trees

Two trees are equal when their nodes agree pairwise.  The comparison keeps a list of the pairs
still to compare, so that it also decides equality of very deep trees.

## Main definitions

* `Query.sameAll` — whether the two trees of every pending pair are equal.
* `Query.instDecidableEq` — the decision procedure built on it.
-/

namespace BooleanSearch

namespace Query

/-- Whether the two trees of every pair are equal. -/
def sameAll : List (Query × Query) → Bool
  | [] => true
  | (q, r) :: rest =>
    q.occur == r.occur && q.terms == r.terms &&
      q.subqueries.length == r.subqueries.length &&
      sameAll (q.subqueries.zip r.subqueries ++ rest)
termination_by work => sizeAll (work.map Prod.fst)
decreasing_by
  -- pairing may drop trees of the longer list, never add one
  have drop : ∀ qs rs : List Query, sizeAll ((qs.zip rs).map Prod.fst) ≤ sizeAll qs := by
    intro qs
    induction qs with
    | nil => simp
    | cons q qs ih =>
      intro rs
      cases rs with
      | nil => simp
      | cons r rs => have := ih rs; simp; omega
  have := drop q.subqueries r.subqueries
  simp only [List.map_append, List.map_cons, sizeAll_append, sizeAll_cons, size_eq q]
  omega

/-- Two lists of one length are equal when the members of every pair are. -/
private theorem eq_iff_forall_mem_zip : ∀ {qs rs : List Query}, qs.length = rs.length →
    (qs = rs ↔ ∀ p ∈ qs.zip rs, p.1 = p.2)
  | [], [], _ => by simp
  | [], _ :: _, h => by simp at h
  | _ :: _, [], h => by simp at h
  | q :: qs, r :: rs, h => by
    have ih : qs = rs ↔ ∀ p ∈ qs.zip rs, p.1 = p.2 := eq_iff_forall_mem_zip (by simpa using h)
    rw [List.zip_cons_cons, List.forall_mem_cons, ← ih, List.cons.injEq]

theorem sameAll_iff (work : List (Query × Query)) :
    sameAll work = true ↔ ∀ p ∈ work, p.1 = p.2 := by
  fun_induction sameAll work with
  | case1 => simp
  | case2 q r rest ih =>
    obtain ⟨o, ts, qs⟩ := q
    obtain ⟨o', ts', rs⟩ := r
    simp only [Bool.and_eq_true, beq_iff_eq, ih, List.forall_mem_append, List.forall_mem_cons,
      Query.mk.injEq]
    constructor
    · rintro ⟨⟨⟨ho, ht⟩, hl⟩, hz, hr⟩
      exact ⟨⟨ho, ht, (eq_iff_forall_mem_zip hl).2 hz⟩, hr⟩
    · rintro ⟨⟨ho, ht, hs⟩, hr⟩
      exact ⟨⟨⟨ho, ht⟩, congrArg List.length hs⟩,
        (eq_iff_forall_mem_zip (congrArg List.length hs)).1 hs, hr⟩

instance instDecidableEq : DecidableEq Query := fun q r =>
  decidable_of_iff (sameAll [(q, r)] = true) (by simp [sameAll_iff])

end Query

end BooleanSearch
