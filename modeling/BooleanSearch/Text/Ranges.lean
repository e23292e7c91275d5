/-!
# Sets of code points

A set of code points is given by its maximal runs: a list of closed intervals in rising order,
with a gap between any two of them.

## Main definitions

* `Ranges` — the list of runs.
* `Ranges.Ascending` — the order that the runs have to be in.
* `Ranges.contains` — membership, which looks no further than the first run that ends at or
  above the code point.

## Main results

* `Ranges.contains_iff` — in a list of ascending runs, that run settles membership.
-/

namespace BooleanSearch

/-- A set of code points, as its runs in rising order.  A run is a pair of its least and its
greatest member. -/
abbrev Ranges := List (Nat × Nat)

namespace Ranges

/-- Whether a code point lies in one of the runs. -/
def contains : Ranges → Nat → Bool
  | [], _ => false
  | (low, high) :: rest, n => if n ≤ high then low ≤ n else contains rest n

/-- Runs are ascending from `least` on if none of them is empty, the first does not begin below
`least`, and at least one code point lies between each run and the next. -/
def Ascending : Nat → Ranges → Prop
  | _, [] => True
  | least, (low, high) :: rest => least ≤ low ∧ low ≤ high ∧ Ascending (high + 2) rest

instance decidableAscending : (least : Nat) → (r : Ranges) → Decidable (Ascending least r)
  | _, [] => .isTrue trivial
  | _, (_, high) :: rest =>
    have := decidableAscending (high + 2) rest
    inferInstanceAs (Decidable (_ ∧ _ ∧ _))

/-- No run of an ascending list has a member below the bound. -/
theorem Ascending.le_of_mem {least : Nat} {r : Ranges} (h : Ascending least r) {run : Nat × Nat}
    (hr : run ∈ r) : least ≤ run.1 := by
  induction r generalizing least with
  | nil => simp at hr
  | cons head rest ih =>
    obtain ⟨hl, hlh, hrest⟩ := h
    rcases List.mem_cons.1 hr with rfl | hr
    · exact hl
    · have := ih hrest hr
      omega

theorem contains_iff {least : Nat} {r : Ranges} (h : Ascending least r) (n : Nat) :
    r.contains n = true ↔ ∃ run ∈ r, run.1 ≤ n ∧ n ≤ run.2 := by
  induction r generalizing least with
  | nil => simp [contains]
  | cons head rest ih =>
    obtain ⟨low, high⟩ := head
    obtain ⟨_, _, hrest⟩ := h
    by_cases hn : n ≤ high
    · simp only [contains, hn, if_true, decide_eq_true_eq]
      constructor
      · intro hlow
        exact ⟨(low, high), List.mem_cons_self, hlow, hn⟩
      · rintro ⟨run, hr, hlow, -⟩
        rcases List.mem_cons.1 hr with rfl | hr
        · exact hlow
        · -- every later run begins above the first
          have := hrest.le_of_mem hr
          omega
    · rw [contains, if_neg hn, ih hrest]
      constructor
      · rintro ⟨run, hr, hrun⟩
        exact ⟨run, List.mem_cons_of_mem _ hr, hrun⟩
      · rintro ⟨run, hr, hlow, hhigh⟩
        rcases List.mem_cons.1 hr with rfl | hr
        · exact absurd hhigh hn
        · exact ⟨run, hr, hlow, hhigh⟩

end Ranges

end BooleanSearch
