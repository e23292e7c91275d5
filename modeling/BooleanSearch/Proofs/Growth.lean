import BooleanSearch.Proofs.Lexemes
import BooleanSearch.Query.Equality

/-!
# Growing trees

The tree of a search string only grows when more is written behind the string.  A node keeps its
place, its terms and its subqueries, and gains others behind them; and a node that is closed by the
end of the string, and so lies neither under the cursor nor above it, does not change any more.

Only a word may be an exception: if the string ends in one, letters written behind it make it
another word.

## Main definitions

* `Query.at?`, `Query.numberAt` — the subtree at an address, and the number of its root.
* `Query.GrowsAlong` — a tree that grows at the nodes on the way to an address.
* `Spine.address` — the address of the cursor.
* `Spine.GrowsInto` — what tokens may do to a spine.

## Main results

* `Spine.getElem?_nodes_draft` — the number of a node is its place in the draft.
* `Spine.growsInto_step`, `Spine.growsInto_foldl` — one token, and all.
* `parse_append_grows` — **the tree of a string only grows behind it, and closed nodes stay.**
-/

namespace BooleanSearch

namespace Query

/-! ### Addresses -/

/-- The subtree at an address, which gives the index of a subquery for each level. -/
def at? : Query → List Nat → Option Query
  | q, [] => some q
  | q, i :: address => q.subqueries[i]?.bind fun sub => sub.at? address

/-- The number of the node at an address.  Nodes are numbered in preorder, which is the order in
which they are opened. -/
def numberAt : Query → List Nat → Nat
  | _, [] => 0
  | q, i :: address =>
    1 + sizeAll (q.subqueries.take i) + (q.subqueries[i]?.elim 0 fun sub => sub.numberAt address)

@[simp] theorem at?_nil (q : Query) : q.at? [] = some q := by
  rw [at?]

theorem at?_cons (q : Query) (i : Nat) (address : List Nat) :
    q.at? (i :: address) = q.subqueries[i]?.bind fun sub => sub.at? address := by
  rw [at?]

@[simp] theorem numberAt_nil (q : Query) : q.numberAt [] = 0 := by
  rw [numberAt]

theorem numberAt_cons {q sub : Query} {i : Nat} (h : q.subqueries[i]? = some sub)
    (address : List Nat) :
    q.numberAt (i :: address)
      = 1 + sizeAll (q.subqueries.take i) + sub.numberAt address := by
  rw [numberAt, h]
  rfl

/-- The number of a node is its place in the layout of its tree. -/
theorem getElem?_layout_numberAt (address : List Nat) :
    ∀ {q n : Query}, q.at? address = some n → ∀ place : Nat,
      (q.layout place)[q.numberAt address]? = some (n.root (place + q.numberAt address)) := by
  induction address with
  | nil =>
    intro q n h place
    rw [at?_nil] at h
    cases h
    rw [numberAt_nil, layout_eq, List.getElem?_cons_zero, Nat.add_zero]
  | cons i address ih =>
    intro q n h place
    rw [at?_cons] at h
    obtain ⟨sub, hsub, hn⟩ := Option.bind_eq_some_iff.1 h
    -- the nodes of the subquery come after those of the trees before it
    obtain ⟨hi, hget⟩ := List.getElem?_eq_some_iff.1 hsub
    have hsplit : layoutAll (place + 1) q.subqueries
        = layoutAll (place + 1) (q.subqueries.take i) ++
            (sub.layout (place + 1 + sizeAll (q.subqueries.take i)) ++
              layoutAll (place + 1 + sizeAll (q.subqueries.take i) + sub.size)
                (q.subqueries.drop (i + 1))) := by
      conv => lhs; rw [← List.take_append_drop i q.subqueries, List.drop_eq_getElem_cons hi, hget]
      rw [layoutAll_append, layoutAll_cons]
    have hnode := ih hn (place + 1 + sizeAll (q.subqueries.take i))
    obtain ⟨hlt, -⟩ := List.getElem?_eq_some_iff.1 hnode
    have hlength := length_layoutAll (place + 1) (q.subqueries.take i)
    rw [numberAt_cons hsub, layout_eq, Nat.add_assoc 1, Nat.add_comm 1, List.getElem?_cons_succ,
      hsplit, ← hlength, List.getElem?_append_right (Nat.le_add_right _ _),
      Nat.add_sub_cancel_left, List.getElem?_append_left (hlength ▸ hlt), hlength, hnode]
    congr 2
    omega

/-! ### Growth -/

/-- A tree grows into another one along an address: a node keeps its address, and it gains terms
and subqueries behind those that it has at most.  Only a node on the way to the address gains any,
below it or by itself. -/
def GrowsAlong (cursor : List Nat) (q q' : Query) : Prop :=
  ∀ (address : List Nat) (n : Query), q.at? address = some n →
    ∃ n', q'.at? address = some n' ∧ n.terms <+: n'.terms ∧
      n.subqueries.length ≤ n'.subqueries.length ∧ (¬address <+: cursor → n' = n)

theorem GrowsAlong.refl (cursor : List Nat) (q : Query) : GrowsAlong cursor q q := by
  intro address n hn
  exact ⟨n, hn, List.prefix_refl _, Nat.le_refl _, fun _ => rfl⟩

/-- Growth goes on where no closed node is opened again. -/
theorem GrowsAlong.trans {cursor cursor' : List Nat} {q q' q'' : Query}
    (h : GrowsAlong cursor q q') (h' : GrowsAlong cursor' q' q'')
    (hclosed : ∀ address : List Nat,
      (q.at? address).isSome = true → address <+: cursor' → address <+: cursor) :
    GrowsAlong cursor q q'' := by
  intro address n hn
  obtain ⟨n', hn', hterms, hsubs, hsame⟩ := h address n hn
  obtain ⟨n'', hn'', hterms', hsubs', hsame'⟩ := h' address n' hn'
  refine ⟨n'', hn'', hterms.trans hterms', Nat.le_trans hsubs hsubs', ?_⟩
  intro haway
  have haway' : ¬address <+: cursor' := by
    intro hprefix
    apply haway
    apply hclosed address _ hprefix
    rw [hn]
    rfl
  rw [hsame' haway', hsame haway]

/-- A node whose subqueries stay as they are. -/
theorem growsAlong_of_subqueries_eq {q q' : Query} (hterms : q.terms <+: q'.terms)
    (hsubs : q'.subqueries = q.subqueries) : GrowsAlong [] q q' := by
  intro address n hn
  cases address with
  | nil =>
    rw [at?_nil] at hn
    cases hn
    exact ⟨q', at?_nil q', hterms, Nat.le_of_eq (congrArg List.length hsubs).symm,
      fun haway => absurd (List.prefix_refl []) haway⟩
  | cons i address =>
    refine ⟨n, ?_, List.prefix_refl _, Nat.le_refl _, fun _ => rfl⟩
    rw [at?_cons, hsubs, ← at?_cons]
    exact hn

theorem at?_pushSubquery_of_lt {q : Query} {i : Nat} (h : i < q.subqueries.length)
    (sub : Query) (address : List Nat) :
    (q.pushSubquery sub).at? (i :: address) = q.at? (i :: address) := by
  rw [at?_cons, at?_cons, pushSubquery, List.getElem?_append_left h]

theorem at?_pushSubquery_length (q sub : Query) (address : List Nat) :
    (q.pushSubquery sub).at? (q.subqueries.length :: address) = sub.at? address := by
  rw [at?_cons, pushSubquery, List.getElem?_concat_length]
  rfl

/-- A node to which a subquery is added. -/
theorem growsAlong_pushSubquery (q sub : Query) : GrowsAlong [] q (q.pushSubquery sub) := by
  intro address n hn
  cases address with
  | nil =>
    rw [at?_nil] at hn
    cases hn
    refine ⟨q.pushSubquery sub, at?_nil _, List.prefix_refl _, ?_,
      fun haway => absurd (List.prefix_refl []) haway⟩
    rw [pushSubquery, List.length_append]
    exact Nat.le_add_right _ _
  | cons i address =>
    have hi : i < q.subqueries.length := by
      rw [at?_cons] at hn
      obtain ⟨sub', hsub', -⟩ := Option.bind_eq_some_iff.1 hn
      exact (List.getElem?_eq_some_iff.1 hsub').1
    refine ⟨n, ?_, List.prefix_refl _, Nat.le_refl _, fun _ => rfl⟩
    rw [at?_pushSubquery_of_lt hi]
    exact hn

/-- The last subquery of a node grows. -/
theorem GrowsAlong.pushSubquery {cursor : List Nat} {q q' : Query} (h : GrowsAlong cursor q q')
    (parent : Query) :
    GrowsAlong (parent.subqueries.length :: cursor) (parent.pushSubquery q)
      (parent.pushSubquery q') := by
  intro address n hn
  cases address with
  | nil =>
    rw [at?_nil] at hn
    cases hn
    refine ⟨parent.pushSubquery q', at?_nil _, List.prefix_refl _, ?_,
      fun haway => absurd List.nil_prefix haway⟩
    rw [Query.pushSubquery, Query.pushSubquery, List.length_append, List.length_append]
    exact Nat.le_refl _
  | cons i address =>
    rcases Nat.lt_trichotomy i parent.subqueries.length with hlt | rfl | hgt
    · refine ⟨n, ?_, List.prefix_refl _, Nat.le_refl _, fun _ => rfl⟩
      rw [at?_pushSubquery_of_lt hlt] at hn ⊢
      exact hn
    · rw [at?_pushSubquery_length] at hn
      obtain ⟨n', hn', hterms, hsubs, hsame⟩ := h address n hn
      refine ⟨n', ?_, hterms, hsubs, ?_⟩
      · rw [at?_pushSubquery_length]
        exact hn'
      · intro haway
        apply hsame
        intro hprefix
        exact haway (List.cons_prefix_cons.2 ⟨rfl, hprefix⟩)
    · rw [at?_cons, Query.pushSubquery, List.getElem?_eq_none (by simp; omega)] at hn
      cases hn

/-- The address of the node under a cursor, given the open nodes above it, innermost first. -/
def cursorAddress : List Query → List Nat
  | [] => []
  | parent :: above => cursorAddress above ++ [parent.subqueries.length]

/-- Closing the open nodes above keeps growth. -/
theorem growsAlong_closeInto (above : List Query) :
    ∀ {cursor : List Nat} {q q' : Query}, GrowsAlong cursor q q' →
      GrowsAlong (cursorAddress above ++ cursor) (q.closeInto above) (q'.closeInto above) := by
  induction above with
  | nil =>
    intro cursor q q' h
    exact h
  | cons parent above ih =>
    intro cursor q q' h
    rw [cursorAddress, List.append_assoc]
    exact ih (h.pushSubquery parent)

theorem at?_closeInto (above : List Query) :
    ∀ (q : Query) (address : List Nat),
      (q.closeInto above).at? (cursorAddress above ++ address) = q.at? address := by
  induction above with
  | nil =>
    intro q address
    rfl
  | cons parent above ih =>
    intro q address
    rw [cursorAddress, List.append_assoc, closeInto_cons, ih]
    exact at?_pushSubquery_length parent q address

/-- The nodes above a cursor come before the node under it. -/
theorem numberAt_closeInto (above : List Query) :
    ∀ (q : Query) (address : List Nat),
      (q.closeInto above).numberAt (cursorAddress above ++ address)
        = sizeAll above + q.numberAt address := by
  induction above with
  | nil =>
    intro q address
    exact (Nat.zero_add _).symm
  | cons parent above ih =>
    intro q address
    have hsub : (parent.pushSubquery q).subqueries[parent.subqueries.length]? = some q :=
      List.getElem?_concat_length
    have htake : (parent.pushSubquery q).subqueries.take parent.subqueries.length
        = parent.subqueries := List.take_left
    rw [cursorAddress, List.append_assoc, closeInto_cons, ih]
    show sizeAll above + (parent.pushSubquery q).numberAt (parent.subqueries.length :: address) = _
    rw [numberAt_cons hsub, htake, sizeAll_cons, size_eq parent]
    omega

/-- The numbers of the open nodes are their places. -/
theorem numberAt_mem_openPlaces {address : List Nat} (above : List Query) :
    ∀ q : Query, address <+: cursorAddress above → address ≠ [] →
      (q.closeInto above).numberAt address ∈ openPlaces above := by
  induction above with
  | nil =>
    intro q h hroot
    exact absurd (List.prefix_nil.1 h) hroot
  | cons parent above ih =>
    intro q h hroot
    rcases List.prefix_concat_iff.1 h with rfl | habove
    · apply List.mem_cons.2
      left
      have hnumber := numberAt_closeInto (parent :: above) q []
      rwa [List.append_nil, numberAt_nil, Nat.add_zero] at hnumber
    · exact List.mem_cons_of_mem _ (ih _ habove hroot)

end Query

/-! ### Spines -/

namespace Spine

/-- The address of the node under the cursor. -/
def address (z : Spine) : List Nat :=
  Query.cursorAddress z.above

/-- What tokens may do to a spine: the tree grows along the address of the cursor, and no node that
is closed is opened again. -/
structure GrowsInto (z z' : Spine) : Prop where
  /-- The tree grows at the open nodes only. -/
  grows : Query.GrowsAlong z.address z.tree z'.tree
  /-- Of the nodes that there are, those which will be open are open now. -/
  closed : ∀ address : List Nat,
    (z.tree.at? address).isSome = true → address <+: z'.address → address <+: z.address

theorem GrowsInto.refl (z : Spine) : z.GrowsInto z :=
  ⟨.refl z.address z.tree, fun _ _ hprefix => hprefix⟩

theorem GrowsInto.trans {z z' z'' : Spine} (h : z.GrowsInto z') (h' : z'.GrowsInto z'') :
    z.GrowsInto z'' := by
  have hclosed : ∀ address : List Nat,
      (z.tree.at? address).isSome = true → address <+: z''.address → address <+: z'.address := by
    intro address hsome
    obtain ⟨n, hn⟩ := Option.isSome_iff_exists.1 hsome
    obtain ⟨n', hn', -⟩ := h.grows address n hn
    apply h'.closed address
    rw [hn']
    rfl
  refine ⟨h.grows.trans h'.grows ?_, ?_⟩
  · intro address hsome hprefix
    exact h.closed address hsome hprefix
  · intro address hsome hprefix
    exact h.closed address hsome (hclosed address hsome hprefix)

/-- Words and keywords change the node under the cursor by itself. -/
theorem growsInto_modify (z : Spine) {f : Query → Query}
    (hterms : z.current.terms <+: (f z.current).terms)
    (hsubs : (f z.current).subqueries = z.current.subqueries) : z.GrowsInto (z.modify f) := by
  refine ⟨?_, fun _ _ hprefix => hprefix⟩
  have hgrows := Query.growsAlong_closeInto z.above
    (Query.growsAlong_of_subqueries_eq hterms hsubs)
  rwa [List.append_nil] at hgrows

theorem growsInto_pushTerm (z : Spine) (term : String) :
    z.GrowsInto (z.modify (·.pushTerm term)) :=
  z.growsInto_modify (List.prefix_append _ _) rfl

theorem growsInto_setOccur (z : Spine) (o : Occur) : z.GrowsInto (z.modify (·.setOccur o)) :=
  z.growsInto_modify (List.prefix_refl _) rfl

/-- The node that is opened has an address that no node had before. -/
theorem growsInto_descend (z : Spine) (o : Occur) : z.GrowsInto (z.descend o) := by
  constructor
  · have hgrows := Query.growsAlong_closeInto z.above
      (Query.growsAlong_pushSubquery z.current { occur := o })
    rwa [List.append_nil] at hgrows
  · intro address hsome hprefix
    have hnone : z.tree.at? (z.descend o).address = none := by
      show (z.current.closeInto z.above).at?
        (Query.cursorAddress z.above ++ [z.current.subqueries.length]) = none
      rw [Query.at?_closeInto, Query.at?_cons, List.getElem?_eq_none (Nat.le_refl _)]
      rfl
    rcases List.prefix_concat_iff.1 hprefix with heq | habove
    · rw [heq] at hsome
      exact absurd hnone (Option.isSome_iff_ne_none.1 hsome)
    · exact habove

/-- The node under the cursor is closed. -/
theorem growsInto_ascend (z : Spine) : z.GrowsInto z.ascend := by
  obtain ⟨q, above, phrase⟩ := z
  cases above with
  | nil => exact GrowsInto.refl _
  | cons parent above =>
    refine ⟨.refl _ _, ?_⟩
    intro address _ hprefix
    exact hprefix.trans (List.prefix_append _ _)

/-- The tree does not show whether a phrase is open. -/
theorem growsInto_phrase (z : Spine) (words : Option (List String)) :
    z.GrowsInto { z with phrase := words } :=
  ⟨.refl _ _, fun _ _ hprefix => hprefix⟩

theorem Effect.growsInto {z z' : Spine} {term? : Option String} (h : z.Effect term? z') :
    z.GrowsInto z' := by
  cases h with
  | phrase words => exact z.growsInto_phrase words
  | term term words => exact (z.growsInto_pushTerm term).trans (growsInto_phrase _ words)
  | occur o => exact z.growsInto_setOccur o
  | descend o => exact z.growsInto_descend o
  | ascend => exact z.growsInto_ascend

/-- A token lets the tree grow at the open nodes. -/
theorem growsInto_step (z : Spine) (t : Token) : z.GrowsInto (z.step t) :=
  (z.effect_step t).growsInto

/-- Tokens let the tree grow at the nodes that are open before them. -/
theorem growsInto_foldl (ts : List Token) : ∀ z : Spine, z.GrowsInto (ts.foldl step z) := by
  induction ts with
  | nil =>
    intro z
    exact GrowsInto.refl z
  | cons t ts ih =>
    intro z
    exact (z.growsInto_step t).trans (ih (z.step t))

/-- The number of a node is its place in the draft. -/
theorem getElem?_nodes_draft (z : Spine) {address : List Nat} {n : Query}
    (h : z.tree.at? address = some n) :
    z.draft.nodes[z.tree.numberAt address]? = some (n.root (z.tree.numberAt address)) := by
  have hlayout := Query.getElem?_layout_numberAt address h 0
  rw [Nat.zero_add] at hlayout
  rw [draft, List.getElem?_toArray, hlayout]

/-- A node below the root is open if it is on the path of the draft. -/
theorem numberAt_mem_path (z : Spine) {address : List Nat} (h : address <+: z.address)
    (hroot : address ≠ []) : z.tree.numberAt address ∈ z.draft.path :=
  Query.numberAt_mem_openPlaces z.above z.current h hroot

end Spine

/-! ### Strings -/

/-- **The tree of a string only grows behind it, and closed nodes stay.**  The string must not be
cut within a word.  A node keeps its address, and all that it gains stands behind what it has; and
if it is neither the root nor on the path to the cursor at the end of the string, it stays as it
is. -/
theorem parse_append_grows {s t : String}
    (hcut : ¬((∃ u ∈ (tokenize s).getLast?, u.isWordRun = true) ∧
      ∃ c ∈ t.toList.head?, isWordChar c = true)) :
    ∀ (address : List Nat) (n : Query), (parse s).at? address = some n →
      ∃ n', (parse (s ++ t)).at? address = some n' ∧ n.terms <+: n'.terms ∧
        n.subqueries.length ≤ n'.subqueries.length ∧
        (address ≠ [] →
          (parse s).numberAt address ∉ (Draft.ofTokens (tokenize s)).path → n' = n) := by
  intro address n hn
  have hword : ∀ u ∈ (lexemes s.toList).getLast?, u.isWordRun = true →
      ∀ d ∈ t.toList.head?, isWordChar d = false := by
    intro u hu hrun d hd
    rw [← tokenize_eq] at hu
    cases hchar : isWordChar d with
    | false => rfl
    | true => exact absurd ⟨⟨u, hu, hrun⟩, ⟨d, hd, hchar⟩⟩ hcut
  have hread : parse (s ++ t) = ((({} : Spine).read s.toList).read t.toList).tree := by
    rw [parse_eq_read, String.toList_append, Spine.read_append _ hword]
  have hgrows := Spine.growsInto_foldl (lexemes t.toList) (({} : Spine).read s.toList)
  rw [hread, Draft.ofTokens_tokenize]
  rw [parse_eq_read] at hn ⊢
  obtain ⟨n', hn', hterms, hsubs, hsame⟩ := hgrows.grows address n hn
  refine ⟨n', hn', hterms, hsubs, ?_⟩
  intro hroot haway
  apply hsame
  intro hprefix
  exact haway (Spine.numberAt_mem_path _ hprefix hroot)

/-- A closed group stays as it is when an open one beside it goes on. -/
theorem parse_append_grows_figs :
    (parse "apples (figs) (plums").at? [0] = some { terms := ["figs"] } ∧
      (parse ("apples (figs) (plums" ++ " OR nuts) pears")).at? [0]
        = some { terms := ["figs"] } := by
  have hcut : ¬((∃ u ∈ (tokenize "apples (figs) (plums").getLast?, u.isWordRun = true) ∧
      ∃ c ∈ " OR nuts) pears".toList.head?, isWordChar c = true) := by
    rintro ⟨-, c, hc, hword⟩
    cases hc
    cases hword
  have hfigs : (parse "apples (figs) (plums").at? [0] = some { terms := ["figs"] } := by
    rw [parse_eq_tree, tokenize_eq]
    decide +kernel
  have hclosed : (parse "apples (figs) (plums").numberAt [0]
      ∉ (Draft.ofTokens (tokenize "apples (figs) (plums")).path := by
    rw [parse_eq_tree, tokenize_eq]
    decide +kernel
  obtain ⟨n', hn', -, -, hsame⟩ := parse_append_grows hcut [0] _ hfigs
  refine ⟨hfigs, ?_⟩
  rw [hn', hsame (List.cons_ne_nil _ _) hclosed]

end BooleanSearch
