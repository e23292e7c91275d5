import BooleanSearch.Proofs.Lists
import BooleanSearch.Proofs.Subtrees
import BooleanSearch.Query.Json
import Mathlib.Data.List.Basic
import Mathlib.Data.List.Nodup

/-!
# The JSON forms of a tree

A tree may be written as JSON in more than one way.  A node is an object with the fields of its
parts, whatever else the object has, or the array of its parts, and a requirement is its word, or
the object whose only key is that word and whose value is null.  At every node any of these may be
chosen.

The values that are read as a tree are just these forms of it, and the value that is written for a
tree is one of them.

## Main definitions

* `Occur.IsForm` — the values that stand for a requirement.
* `Query.IsForm` — the values that stand for a tree.

## Main results

* `Query.ofJson_object_eq_ok_iff`, `Query.ofJson_array_eq_ok_iff` — what is read of an object and of
  an array.
* `Query.ofJson_eq_ok_iff` — **a value is read as a tree if and only if it is a form of it.**
* `Query.isForm_object_iff_perm` — a form that is an object, up to the order of the fields.
* `Query.json_forms` — the forms of a tree, what is read and what is rejected.
-/

namespace BooleanSearch

/-! ### Results and fields -/

section Except

variable {ε α β : Type}

theorem bind_eq_ok_iff {x : Except ε α} {f : α → Except ε β} {b : β} :
    x >>= f = .ok b ↔ ∃ a, x = .ok a ∧ f a = .ok b := by
  cases x with
  | error e =>
    constructor
    · intro h
      cases h
    · rintro ⟨a, ha, -⟩
      cases ha
  | ok a =>
    constructor
    · intro h
      exact ⟨a, rfl, h⟩
    · rintro ⟨_, ha, hb⟩
      cases ha
      exact hb

theorem pure_eq_ok_iff {a b : α} : (pure a : Except ε α) = .ok b ↔ a = b :=
  ⟨Except.ok.inj, congrArg Except.ok⟩

/-- What is made of some values, if none of them fails. -/
theorem mapM_eq_ok_iff {f : α → Except ε β} (as : List α) : ∀ bs : List β,
    as.mapM f = .ok bs ↔ List.Forall₂ (fun b a => f a = .ok b) bs as := by
  induction as with
  | nil =>
    intro bs
    rw [List.mapM_nil, pure_eq_ok_iff, List.forall₂_nil_right_iff, eq_comm]
  | cons a as ih =>
    intro bs
    simp only [List.mapM_cons, bind_eq_ok_iff, pure_eq_ok_iff, ih, List.forall₂_cons_right_iff]
    constructor
    · rintro ⟨b, hb, cs, hcs, rfl⟩
      exact ⟨b, cs, hb, hcs, rfl⟩
    · rintro ⟨b, cs, hb, hcs, rfl⟩
      exact ⟨b, hb, cs, hcs, rfl⟩

/-- What is made of a value that may be missing, if it is there. -/
theorem mapM_eq_ok_some_iff {f : α → Except ε β} {a? : Option α} {b : β} :
    a?.mapM f = .ok (some b) ↔ ∃ a, a? = some a ∧ f a = .ok b := by
  cases a? with
  | none =>
    constructor
    · intro h
      cases h
    · rintro ⟨a, ha, -⟩
      cases ha
  | some a =>
    have hmap : (some a).mapM f = f a >>= fun b => pure (some b) := rfl
    simp only [hmap, bind_eq_ok_iff, pure_eq_ok_iff, Option.some.injEq, exists_eq_right,
      exists_eq_left']

end Except

/-- Where keys are distinct, a look-up finds what is there. -/
theorem lookup_eq_some_iff_mem {fields : List (String × Json)}
    (h : (fields.map Prod.fst).Nodup) {key : String} {value : Json} :
    fields.lookup key = some value ↔ (key, value) ∈ fields := by
  rw [List.lookup_eq_some_iff]
  constructor
  · rintro ⟨before, after, rfl, -⟩
    exact List.mem_append_right before List.mem_cons_self
  · intro hmem
    obtain ⟨before, after, rfl⟩ := List.append_of_mem hmem
    rw [List.map_append, List.map_cons, List.nodup_middle, List.nodup_cons] at h
    refine ⟨before, after, rfl, ?_⟩
    intro field hfield
    rw [bne_iff_ne]
    intro hkey
    apply h.1
    rw [List.mem_append, List.mem_map]
    exact Or.inl ⟨field, hfield, hkey.symm⟩

/-! ### Forms -/

/-- The values that stand for a requirement. -/
inductive Occur.IsForm : Occur → Json → Prop
  /-- Its word. -/
  | word (o : Occur) : o.IsForm (.string o.text)
  /-- An object whose only key is the word and whose value is null. -/
  | key (o : Occur) : o.IsForm (.object [(o.text, .null)])

namespace Query

/-- The values that stand for a tree. -/
inductive IsForm : Query → Json → Prop
  /-- An object that has the parts under their keys, whatever it has under other keys. -/
  | object {o : Occur} {terms : List String} {subs : List Query} {fields : List (String × Json)}
      {occurForm : Json} {subForms : List Json} (occur : o.IsForm occurForm)
      (subqueries : List.Forall₂ IsForm subs subForms)
      (lookup_occur : fields.lookup Part.occur.key = some occurForm)
      (lookup_terms : fields.lookup Part.terms.key = some (.array (terms.map .string)))
      (lookup_subqueries : fields.lookup Part.subqueries.key = some (.array subForms)) :
      IsForm ⟨o, terms, subs⟩ (.object fields)
  /-- The array of the parts. -/
  | array {o : Occur} {terms : List String} {subs : List Query} {occurForm : Json}
      {subForms : List Json} (occur : o.IsForm occurForm)
      (subqueries : List.Forall₂ IsForm subs subForms) :
      IsForm ⟨o, terms, subs⟩ (.array [occurForm, .array (terms.map .string), .array subForms])

/-! ### What is read of a value -/

theorem require_eq_ok_iff {α : Type} {part : Part} {a? : Option α} {a : α} :
    require part a? = .ok a ↔ a? = some a := by
  cases a? with
  | none =>
    constructor
    · intro h
      cases h
    · intro h
      cases h
  | some b =>
    show Except.ok b = Except.ok a ↔ some b = some a
    rw [Except.ok.injEq, Option.some.injEq]

theorem occurOfWord_text (o : Occur) : occurOfWord o.text = .ok o := by
  cases o <;> rfl

theorem occurOfWord_eq_ok_iff {word : String} {o : Occur} :
    occurOfWord word = .ok o ↔ word = o.text := by
  constructor
  · intro h
    unfold occurOfWord Occur.ofText? at h
    split at h
    · next o' ho =>
      cases h
      split at ho
      · cases ho; rfl
      · cases ho; rfl
      · cases ho
    · cases h
  · rintro rfl
    exact occurOfWord_text o

/-- A value is read as a requirement if and only if it is a form of it. -/
theorem occurOfJson_eq_ok_iff {v : Json} {o : Occur} : occurOfJson v = .ok o ↔ o.IsForm v := by
  constructor
  · intro h
    unfold occurOfJson at h
    split at h
    · rw [occurOfWord_eq_ok_iff.1 h]
      exact .word o
    · obtain ⟨o', hword, h⟩ := bind_eq_ok_iff.1 h
      split at h
      · cases h
        rw [occurOfWord_eq_ok_iff.1 hword]
        exact .key o
      · cases h
    · cases h
    · cases h
  · intro h
    cases h with
    | word => exact occurOfWord_text o
    | key =>
      show (occurOfWord o.text >>= fun o => pure o) = .ok o
      rw [occurOfWord_text]
      rfl

theorem termOfJson_eq_ok_iff {v : Json} {term : String} :
    termOfJson v = .ok term ↔ v = .string term := by
  constructor
  · intro h
    unfold termOfJson at h
    split at h
    · cases h
      rfl
    · cases h
  · rintro rfl
    rfl

/-- A value is read as terms if and only if it is the array of them. -/
theorem termsOfJson_eq_ok_iff {v : Json} {terms : List String} :
    termsOfJson v = .ok terms ↔ v = .array (terms.map .string) := by
  have hitems : ∀ items : List Json,
      items.mapM termOfJson = .ok terms ↔ items = terms.map .string := by
    intro items
    have hstring : (fun (term : String) (item : Json) => termOfJson item = .ok term)
        = fun term item => .string term = item := by
      funext term item
      exact propext (termOfJson_eq_ok_iff.trans eq_comm)
    rw [mapM_eq_ok_iff, hstring, ← List.forall₂_map_left_iff (R := Eq), List.forall₂_eq_eq_eq,
      eq_comm]
  constructor
  · intro h
    unfold termsOfJson at h
    split at h
    · rw [(hitems _).1 h]
    · cases h
  · rintro rfl
    exact (hitems _).2 rfl

theorem ofJsonAll_eq_mapM (items : List Json) : ofJsonAll items = items.mapM ofJson := by
  induction items with
  | nil => rw [ofJsonAll, List.mapM_nil]; rfl
  | cons item items ih => rw [ofJsonAll, List.mapM_cons, ih]

/-- A value is read as subqueries if and only if it is an array of values that are read as these. -/
theorem subqueriesOfJson_eq_ok_iff {v : Json} {qs : List Query} :
    subqueriesOfJson v = .ok qs ↔
      ∃ items, v = .array items ∧ List.Forall₂ (fun q item => ofJson item = .ok q) qs items := by
  constructor
  · intro h
    unfold subqueriesOfJson at h
    split at h
    · next items =>
      rw [ofJsonAll_eq_mapM, mapM_eq_ok_iff] at h
      exact ⟨items, rfl, h⟩
    · cases h
  · rintro ⟨items, rfl, h⟩
    rw [subqueriesOfJson, ofJsonAll_eq_mapM, mapM_eq_ok_iff]
    exact h

/-- The subqueries of an object are the value of one field. -/
theorem subqueriesOfFields_eq_mapM (fields : List (String × Json)) :
    subqueriesOfFields fields = (fields.lookup Part.subqueries.key).mapM subqueriesOfJson := by
  induction fields with
  | nil => rw [subqueriesOfFields]; rfl
  | cons field fields ih =>
    obtain ⟨key, value⟩ := field
    rw [subqueriesOfFields, List.lookup_cons, ih, BEq.comm]
    cases Part.subqueries.key == key with
    | true => rfl
    | false => rfl

/-- What is read of an object. -/
theorem ofJson_object_eq_ok_iff {fields : List (String × Json)} {q : Query} :
    ofJson (.object fields) = .ok q ↔
      (∃ v, fields.lookup Part.occur.key = some v ∧ occurOfJson v = .ok q.occur) ∧
      (∃ v, fields.lookup Part.terms.key = some v ∧ termsOfJson v = .ok q.terms) ∧
      ∃ v, fields.lookup Part.subqueries.key = some v ∧ subqueriesOfJson v = .ok q.subqueries := by
  obtain ⟨o, terms, subs⟩ := q
  simp only [ofJson, subqueriesOfFields_eq_mapM, bind_eq_ok_iff, require_eq_ok_iff, pure_eq_ok_iff,
    ← mapM_eq_ok_some_iff, Query.mk.injEq]
  constructor
  · rintro ⟨_, ho, _, hs, _, ht, _, rfl, _, rfl, _, rfl, rfl, rfl, rfl⟩
    exact ⟨ho, ht, hs⟩
  · rintro ⟨ho, ht, hs⟩
    exact ⟨_, ho, _, hs, _, ht, _, rfl, _, rfl, _, rfl, rfl, rfl, rfl⟩

/-- What is read of an array. -/
theorem ofJson_array_eq_ok_iff {items : List Json} {q : Query} :
    ofJson (.array items) = .ok q ↔
      ∃ o ts ss, items = [o, ts, ss] ∧ occurOfJson o = .ok q.occur ∧ termsOfJson ts = .ok q.terms ∧
        subqueriesOfJson ss = .ok q.subqueries := by
  obtain ⟨o, terms, subs⟩ := q
  rw [ofJson]
  constructor
  · intro h
    unfold ofItems at h
    split at h
    · cases h
    · obtain ⟨_, -, h⟩ := bind_eq_ok_iff.1 h
      cases h
    · obtain ⟨_, -, h⟩ := bind_eq_ok_iff.1 h
      obtain ⟨_, -, h⟩ := bind_eq_ok_iff.1 h
      cases h
    · next v w x rest =>
      obtain ⟨_, ho, h⟩ := bind_eq_ok_iff.1 h
      obtain ⟨_, ht, h⟩ := bind_eq_ok_iff.1 h
      obtain ⟨_, hs, h⟩ := bind_eq_ok_iff.1 h
      split at h
      · next hrest =>
        cases h
        exact ⟨v, w, x, by rw [List.isEmpty_iff.1 hrest], ho, ht, hs⟩
      · cases h
  · rintro ⟨v, w, x, rfl, ho, ht, hs⟩
    simp only [ofItems, bind_eq_ok_iff, ho, ht, hs]
    exact ⟨o, rfl, terms, rfl, subs, rfl, rfl⟩

/-- **A value is read as a tree if and only if it is a form of it.** -/
theorem ofJson_eq_ok_iff (q : Query) : ∀ v : Json, ofJson v = .ok q ↔ q.IsForm v := by
  induction q using Query.induction with
  | node q ih =>
    have hsubs : ∀ items : List Json,
        List.Forall₂ (fun sub item => ofJson item = .ok sub) q.subqueries items ↔
          List.Forall₂ IsForm q.subqueries items := by
      intro items
      rw [List.forall₂_iff_zip, List.forall₂_iff_zip]
      refine and_congr_right fun _ => ?_
      constructor
      · intro h sub item hmem
        exact (ih sub (List.of_mem_zip hmem).1 item).1 (h hmem)
      · intro h sub item hmem
        exact (ih sub (List.of_mem_zip hmem).1 item).2 (h hmem)
    obtain ⟨o, terms, subs⟩ := q
    intro v
    constructor
    · intro h
      cases v with
      | object fields =>
        obtain ⟨⟨v, hv, ho⟩, ⟨w, hw, ht⟩, ⟨x, hx, hs⟩⟩ := ofJson_object_eq_ok_iff.1 h
        obtain ⟨items, rfl, hitems⟩ := subqueriesOfJson_eq_ok_iff.1 hs
        rw [termsOfJson_eq_ok_iff.1 ht] at hw
        exact .object (occurOfJson_eq_ok_iff.1 ho) ((hsubs items).1 hitems) hv hw hx
      | array items =>
        obtain ⟨v, w, x, rfl, ho, ht, hs⟩ := ofJson_array_eq_ok_iff.1 h
        obtain ⟨items, rfl, hitems⟩ := subqueriesOfJson_eq_ok_iff.1 hs
        rw [termsOfJson_eq_ok_iff.1 ht]
        exact .array (occurOfJson_eq_ok_iff.1 ho) ((hsubs items).1 hitems)
      | _ => cases h
    · intro h
      cases h with
      | object ho hs hv hw hx =>
        refine ofJson_object_eq_ok_iff.2 ⟨⟨_, hv, occurOfJson_eq_ok_iff.2 ho⟩,
          ⟨_, hw, termsOfJson_eq_ok_iff.2 rfl⟩, ⟨_, hx, ?_⟩⟩
        exact subqueriesOfJson_eq_ok_iff.2 ⟨_, rfl, (hsubs _).2 hs⟩
      | array ho hs =>
        refine ofJson_array_eq_ok_iff.2 ⟨_, _, _, rfl, occurOfJson_eq_ok_iff.2 ho,
          termsOfJson_eq_ok_iff.2 rfl, ?_⟩
        exact subqueriesOfJson_eq_ok_iff.2 ⟨_, rfl, (hsubs _).2 hs⟩

/-! ### Written forms -/

theorem toJsonAll_eq_map (qs : List Query) : toJsonAll qs = qs.map toJson := by
  induction qs with
  | nil => rfl
  | cons q qs ih => rw [toJsonAll, List.map_cons, ih]

/-- The fields of the parts, with the given values. -/
def partFields (occur terms subqueries : Json) : List (String × Json) :=
  [(Part.occur.key, occur), (Part.terms.key, terms), (Part.subqueries.key, subqueries)]

theorem toJson_eq (q : Query) :
    q.toJson = .object (partFields (.string q.occur.text) (.array (q.terms.map .string))
      (.array (q.subqueries.map toJson))) := by
  rw [← toJsonAll_eq_map]
  cases q
  rfl

theorem lookup_partFields (o terms subs : Json) :
    (partFields o terms subs).lookup Part.occur.key = some o ∧
      (partFields o terms subs).lookup Part.terms.key = some terms ∧
      (partFields o terms subs).lookup Part.subqueries.key = some subs :=
  ⟨rfl, rfl, rfl⟩

/-- What is written for a tree is a form of it. -/
theorem isForm_toJson (q : Query) : q.IsForm q.toJson := by
  induction q using Query.induction with
  | node q ih =>
    have hsubs : List.Forall₂ IsForm q.subqueries (q.subqueries.map toJson) := by
      rw [List.forall₂_map_right_iff, List.forall₂_same]
      exact ih
    obtain ⟨hocc, hterms, hsubqueries⟩ := lookup_partFields (.string q.occur.text)
      (.array (q.terms.map .string)) (.array (q.subqueries.map toJson))
    rw [toJson_eq]
    obtain ⟨o, terms, subs⟩ := q
    exact .object (.word o) hsubs hocc hterms hsubqueries

/-! ### The order of the fields -/

/-- Up to the order of the fields, an object that is a form of a tree has the parts and some fields
with other keys. -/
theorem isForm_object_iff_perm {fields : List (String × Json)} (h : (fields.map Prod.fst).Nodup)
    (q : Query) :
    q.IsForm (.object fields) ↔
      ∃ (occurForm : Json) (subForms : List Json) (others : List (String × Json)),
        q.occur.IsForm occurForm ∧ List.Forall₂ IsForm q.subqueries subForms ∧
        (∀ field ∈ others, ∀ part : Part, field.1 ≠ part.key) ∧
        fields.Perm
          (partFields occurForm (.array (q.terms.map .string)) (.array subForms) ++ others) := by
  constructor
  · intro hform
    cases hform with
    | @object o terms subs _ occurForm subForms ho hs hocc hterms hsubs =>
      rw [lookup_eq_some_iff_mem h] at hocc hterms hsubs
      have hnodup :
          (partFields occurForm (.array (terms.map .string)) (.array subForms)).Nodup := by
        simp [partFields, Part.key]
      have hsubset :
          partFields occurForm (.array (terms.map .string)) (.array subForms) ⊆ fields := by
        intro field hfield
        simp only [partFields, List.mem_cons, List.not_mem_nil, or_false] at hfield
        rcases hfield with rfl | rfl | rfl
        · exact hocc
        · exact hterms
        · exact hsubs
      obtain ⟨others, hperm⟩ := exists_perm_append hnodup hsubset
      refine ⟨occurForm, subForms, others, ho, hs, ?_, hperm⟩
      -- the keys of the parts are taken, so no other field has one of them
      intro field hfield part hkey
      have hkeys := (hperm.map Prod.fst).nodup_iff.1 h
      rw [List.map_append, List.nodup_append] at hkeys
      refine hkeys.2.2 part.key ?_ field.1 (List.mem_map_of_mem hfield) hkey.symm
      cases part <;> simp [partFields]
  · obtain ⟨o, terms, subs⟩ := q
    rintro ⟨occurForm, subForms, others, ho, hs, -, hperm⟩
    have hmem : ∀ field ∈ partFields occurForm (.array (terms.map .string)) (.array subForms),
        field ∈ fields := by
      intro field hfield
      exact hperm.mem_iff.2 (List.mem_append_left others hfield)
    refine .object ho hs ?_ ?_ ?_
    · exact (lookup_eq_some_iff_mem h).2 (hmem _ (by simp [partFields]))
    · exact (lookup_eq_some_iff_mem h).2 (hmem _ (by simp [partFields]))
    · exact (lookup_eq_some_iff_mem h).2 (hmem _ (by simp [partFields]))

/-- **The forms of a tree are read back, and nothing else is read.**  What is written for a tree is
a form of it, and a value that is no form of any tree is rejected.  An object, whose keys are
distinct, is a form of a tree if it has the parts and any fields with other keys, in any order. -/
theorem json_forms :
    (∀ q : Query, q.IsForm q.toJson ∧ ofJson q.toJson = .ok q) ∧
      (∀ (v : Json) (q : Query), ofJson v = .ok q ↔ q.IsForm v) ∧
      (∀ v : Json, (∃ e, ofJson v = .error e) ↔ ∀ q : Query, ¬q.IsForm v) ∧
      ∀ fields : List (String × Json), (fields.map Prod.fst).Nodup → ∀ q : Query,
        (q.IsForm (.object fields) ↔
          ∃ (occurForm : Json) (subForms : List Json) (others : List (String × Json)),
            q.occur.IsForm occurForm ∧ List.Forall₂ IsForm q.subqueries subForms ∧
            (∀ field ∈ others, ∀ part : Part, field.1 ≠ part.key) ∧
            fields.Perm
              (partFields occurForm (.array (q.terms.map .string)) (.array subForms)
                ++ others)) := by
  refine ⟨?_, fun v q => ofJson_eq_ok_iff q v, ?_, fun fields h q => isForm_object_iff_perm h q⟩
  · intro q
    exact ⟨isForm_toJson q, (ofJson_eq_ok_iff q _).2 (isForm_toJson q)⟩
  · intro v
    constructor
    · rintro ⟨e, he⟩ q hform
      rw [(ofJson_eq_ok_iff q v).2 hform] at he
      cases he
    · intro hnone
      cases hv : ofJson v with
      | ok q => exact absurd ((ofJson_eq_ok_iff q v).1 hv) (hnone q)
      | error e => exact ⟨e, rfl⟩

/-- An object with another field in front, in which the requirement is an object too, below it an
array, and below that an object as it is written. -/
theorem json_forms_mixed :
    ["note", Part.occur.key, Part.terms.key, Part.subqueries.key].Nodup ∧
      ofJson (.object ([("note", .null)] ++ partFields (.object [("SHOULD", .null)])
        (.array [.string "figs", .string ""])
        (.array [.array [.string "MUST", .array [], .array [toJson ⟨.should, ["MUST"], []⟩]]])))
        = .ok ⟨.should, ["figs", ""], [⟨.must, [], [⟨.should, ["MUST"], []⟩]⟩]⟩ := by
  have hkeys : ["note", Part.occur.key, Part.terms.key, Part.subqueries.key].Nodup := by decide
  have hother : ∀ part : Part, "note" ≠ part.key := by
    intro part
    cases part <;> decide
  have hinner : IsForm ⟨.must, [], [⟨.should, ["MUST"], []⟩]⟩
      (.array [.string "MUST", .array [], .array [toJson ⟨.should, ["MUST"], []⟩]]) :=
    .array (.word .must) (.cons (json_forms.1 _).1 .nil)
  refine ⟨hkeys, (json_forms.2.1 _ _).2 ((json_forms.2.2.2 _ ?_ _).2 ?_)⟩
  · exact hkeys
  refine ⟨_, _, [("note", .null)], .key .should, .cons hinner .nil, ?_, List.perm_append_comm⟩
  intro field hfield
  rw [List.mem_singleton.1 hfield]
  exact hother

end Query

end BooleanSearch
