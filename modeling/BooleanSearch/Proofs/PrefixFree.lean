import Mathlib.Data.List.Basic

/-!
# Items that tell where they end

Some items are written one after another without a length in front.  They can be told apart again if
what is written for an item cannot also be what is written for another one and something behind it.
It may be that this holds only if nothing of a certain kind comes behind an item.

## Main definitions

* `PrefixFree` — two items are told apart, or are the same, wherever what is written for them is the
  beginning of the same text.

## Main results

* `append_cons_inj` — a text may be ended by a letter that does not occur in it.
* `flatMap_append_inj`, `flatMap_inj` — items one after another.
* `intercalate_append_inj` — items with commas between them.
-/

namespace BooleanSearch

section PrefixFree

variable {α β : Type}

/-- Whatever comes behind two items, if only it is of the kind `Follows`: where the whole is the
same, the items are the same, and so is what comes behind. -/
def PrefixFree (Follows : List β → Prop) (f : α → List β) (a b : α) : Prop :=
  ∀ r s, Follows r → Follows s → f a ++ r = f b ++ s → a = b ∧ r = s

/-- A text that is ended by a letter that does not occur in it. -/
theorem append_cons_inj {stop : β} : ∀ {t u r s : List β}, stop ∉ t → stop ∉ u →
    t ++ stop :: r = u ++ stop :: s → t = u ∧ r = s := by
  intro t
  induction t with
  | nil =>
    intro u r s _ hu h
    cases u with
    | nil => exact ⟨rfl, (List.cons.inj h).2⟩
    | cons d u => exact absurd (List.mem_cons.2 (Or.inl (List.cons.inj h).1)) hu
  | cons c t ih =>
    intro u r s ht hu h
    cases u with
    | nil => exact absurd (List.mem_cons.2 (Or.inl (List.cons.inj h).1.symm)) ht
    | cons d u =>
      obtain ⟨rfl, hrest⟩ := List.cons.inj h
      rw [List.mem_cons, not_or] at ht hu
      obtain ⟨rfl, hrs⟩ := ih ht.2 hu.2 hrest
      exact ⟨rfl, hrs⟩

/-- Items that are written one after another, if what comes behind them cannot be taken for a
further item. -/
theorem flatMap_append_inj {Follows : List β → Prop} {f : α → List β} {r s : List β}
    (hfollows : ∀ a x, Follows x → Follows (f a ++ x)) (hr : Follows r) (hs : Follows s)
    (hrend : ∀ a x, f a ++ x ≠ r) (hsend : ∀ a x, f a ++ x ≠ s) : ∀ {l m : List α},
      (∀ a ∈ l, ∀ b ∈ m, PrefixFree Follows f a b) →
        l.flatMap f ++ r = m.flatMap f ++ s → l = m ∧ r = s := by
  have hitems : ∀ {x : List β}, Follows x → ∀ l : List α, Follows (l.flatMap f ++ x) := by
    intro x hx l
    induction l with
    | nil => exact hx
    | cons a l ih =>
      rw [List.flatMap_cons, List.append_assoc]
      exact hfollows a _ ih
  intro l
  induction l with
  | nil =>
    intro m _ h
    cases m with
    | nil => exact ⟨rfl, h⟩
    | cons b m =>
      rw [List.flatMap_cons, List.append_assoc] at h
      exact absurd h.symm (hrend b _)
  | cons a l ih =>
    intro m hfree h
    cases m with
    | nil =>
      rw [List.flatMap_cons, List.append_assoc] at h
      exact absurd h (hsend a _)
    | cons b m =>
      rw [List.flatMap_cons, List.flatMap_cons, List.append_assoc, List.append_assoc] at h
      obtain ⟨rfl, hrest⟩ := hfree a List.mem_cons_self b List.mem_cons_self _ _ (hitems hr l)
        (hitems hs m) h
      have htail : ∀ c ∈ l, ∀ d ∈ m, PrefixFree Follows f c d := by
        intro c hc d hd
        exact hfree c (List.mem_cons_of_mem a hc) d (List.mem_cons_of_mem a hd)
      obtain ⟨rfl, hrs⟩ := ih htail hrest
      exact ⟨rfl, hrs⟩

/-- Items that are written one after another, with nothing behind them. -/
theorem flatMap_inj {f : α → List β} (hne : ∀ a, f a ≠ []) {l m : List α}
    (hfree : ∀ a ∈ l, ∀ b ∈ m, PrefixFree (fun _ => True) f a b)
    (h : l.flatMap f = m.flatMap f) : l = m := by
  have hends : ∀ a x, f a ++ x ≠ [] := by
    intro a x hnil
    exact hne a (List.append_eq_nil_iff.1 hnil).1
  have happend : l.flatMap f ++ [] = m.flatMap f ++ [] := by rw [h]
  exact (flatMap_append_inj (fun _ _ _ => trivial) trivial trivial hends hends hfree happend).1

theorem intercalate_cons_eq (sep : List β) (t : List β) (us : List (List β)) :
    sep.intercalate (t :: us) = t ++ us.flatMap (sep ++ ·) := by
  induction us generalizing t with
  | nil => rw [List.intercalate_singleton, List.flatMap_nil, List.append_nil]
  | cons u us ih =>
    rw [List.intercalate_cons_cons, ih, List.flatMap_cons, List.append_assoc, List.append_assoc]

/-- Items with commas between them, if another letter ends them. -/
theorem intercalate_append_inj {f : α → List β} {comma stop : β} (hstop : comma ≠ stop)
    {l m : List α} {r s : List β} (hl : l ≠ []) (hm : m ≠ [])
    (hfree : ∀ a ∈ l, ∀ b ∈ m, PrefixFree (fun _ => True) f a b)
    (h : [comma].intercalate (l.map f) ++ stop :: r
      = [comma].intercalate (m.map f) ++ stop :: s) : l = m ∧ r = s := by
  obtain ⟨a, l, rfl⟩ := List.exists_cons_of_ne_nil hl
  obtain ⟨b, m, rfl⟩ := List.exists_cons_of_ne_nil hm
  -- the first item has no comma in front, all others have
  have htail : ∀ n : List α,
      (n.map f).flatMap ([comma] ++ ·) = n.flatMap fun c => comma :: f c := by
    intro n
    rw [List.flatMap_map]
    rfl
  rw [List.map_cons, List.map_cons, intercalate_cons_eq, intercalate_cons_eq, htail, htail,
    List.append_assoc, List.append_assoc] at h
  obtain ⟨rfl, hrest⟩ := hfree a List.mem_cons_self b List.mem_cons_self _ _ trivial trivial h
  have hends : ∀ x : List β, ∀ c y, comma :: f c ++ y ≠ stop :: x := by
    intro x c y heq
    exact hstop (List.cons.inj heq).1
  have hfree' : ∀ c ∈ l, ∀ d ∈ m, PrefixFree (fun _ => True) (fun c => comma :: f c) c d := by
    intro c hc d hd x y hx hy heq
    exact hfree c (List.mem_cons_of_mem a hc) d (List.mem_cons_of_mem a hd) x y hx hy
      (List.cons.inj heq).2
  obtain ⟨rfl, hrs⟩ := flatMap_append_inj (fun _ _ _ => trivial) trivial trivial (hends r) (hends s)
    hfree' hrest
  exact ⟨rfl, (List.cons.inj hrs).2⟩

end PrefixFree

end BooleanSearch
