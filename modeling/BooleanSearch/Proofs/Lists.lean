import Mathlib.Data.List.Forall2
import Mathlib.Data.List.Perm.Subperm

/-!
# Lists

What is said of lists of any kind, and is not in the library in this form: changes of one entry of
two lists that are joined, a run that ends within the first of them, entries that are looked up or
written one after another, and lists without repetition.

## Main results

* `modify_append_left`, `modify_append_right`, `modify_append_cons` — a change of one entry.
* `takeWhile_append_of_stop` — a run that ends within a list.
* `forall₂_filterMap` — entries that are all found.
* `foldl_eq_append_join` — texts that are written one behind the other.
* `exists_perm_append` — a list without repetition may be moved to the front.
-/

namespace BooleanSearch

variable {α β : Type}

/-! ### Changes of one entry -/

theorem modify_append_left (f : α → α) (r : List α) :
    ∀ {l : List α} {n : Nat}, n < l.length → (l ++ r).modify n f = l.modify n f ++ r := by
  intro l
  induction l with
  | nil =>
    intro n h
    cases h
  | cons a l ih =>
    intro n h
    cases n with
    | zero => rfl
    | succ n =>
      rw [List.cons_append, List.modify_succ_cons, List.modify_succ_cons,
        ih (Nat.lt_of_succ_lt_succ h), List.cons_append]

theorem modify_append_right (f : α → α) (l r : List α) (n : Nat) :
    (l ++ r).modify (l.length + n) f = l ++ r.modify n f :=
  List.modifyTailIdx_add _ n l r

theorem modify_append_cons (f : α → α) (a : α) (l r : List α) :
    (l ++ a :: r).modify l.length f = l ++ f a :: r :=
  modify_append_right f l (a :: r) 0

/-! ### Runs -/

/-- A run ends within a list, or at the end of it if the list after it begins with no member. -/
theorem takeWhile_append_of_stop {member : α → Bool} {l r : List α}
    (h : l.dropWhile member = [] → ∀ a ∈ r.head?, member a = false) :
    (l ++ r).takeWhile member = l.takeWhile member ∧
      (l ++ r).dropWhile member = l.dropWhile member ++ r := by
  induction l with
  | nil =>
    cases r with
    | nil => exact ⟨rfl, rfl⟩
    | cons a r =>
      have ha : member a = false := h rfl a rfl
      simp [ha]
  | cons a l ih =>
    cases ha : member a with
    | false => simp [ha]
    | true =>
      rw [List.dropWhile_cons_of_pos ha] at h
      simp [ha, ih h]

/-! ### One entry after another -/

theorem filterMap_cons_eq (find? : α → Option β) (a : α) (l : List α) :
    (a :: l).filterMap find? = (find? a).toList ++ l.filterMap find? := by
  rw [List.filterMap_cons]
  cases find? a <;> rfl

/-- Where all entries are found, none is lost. -/
theorem forall₂_filterMap {find? : α → Option β} {l : List α}
    (h : ∀ a ∈ l, (find? a).isSome = true) :
    List.Forall₂ (fun a b => find? a = some b) l (l.filterMap find?) := by
  induction l with
  | nil => exact .nil
  | cons a l ih =>
    rw [List.forall_mem_cons] at h
    obtain ⟨b, hb⟩ := Option.isSome_iff_exists.1 h.1
    rw [List.filterMap_cons_some hb]
    exact .cons hb (ih h.2)

/-- Where each step writes its own text behind what is there, all steps write their texts in
order. -/
theorem foldl_eq_append_join {write : String → α → String} {text : α → String} {l : List α}
    (h : ∀ a ∈ l, ∀ out, write out a = out ++ text a) :
    ∀ out, l.foldl write out = out ++ String.join (l.map text) := by
  induction l with
  | nil =>
    intro out
    rw [List.foldl_nil, List.map_nil, String.join_nil, String.append_empty]
  | cons a l ih =>
    intro out
    rw [List.forall_mem_cons] at h
    rw [List.foldl_cons, h.1, ih h.2, List.map_cons, String.join_cons, String.append_assoc]

/-! ### Lists without repetition -/

theorem exists_perm_append {l m : List α} (h : l.Nodup) (hsubset : l ⊆ m) :
    ∃ others, m.Perm (l ++ others) := by
  obtain ⟨l', hl, hsublist⟩ := List.subperm_of_subset h hsubset
  obtain ⟨others, hothers⟩ := hsublist.exists_perm_append
  exact ⟨others, hothers.trans (hl.append_right others)⟩

end BooleanSearch
