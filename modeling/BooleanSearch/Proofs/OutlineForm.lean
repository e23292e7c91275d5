import BooleanSearch.Proofs.Escapes
import BooleanSearch.Proofs.Levels
import BooleanSearch.Proofs.Lists
import BooleanSearch.Query.Outline

/-!
# The outline form identifies the tree

The outline has a line for each node and for each term.  Terms are quoted, so a line is never
broken, and a line shows by its first character behind the blanks whether it is that of a node or of
a term.  The subqueries of a node begin behind its terms, and they end before the next line of a
node that is no deeper than the node itself.  So the lines and their levels give the tree back.

## Main definitions

* `Query.Label` — what stands in a line.
* `Query.lines` — the labels of a tree with their levels; `Query.lineText`, the text of a line.
* `Query.EndsNode` — what may come behind the lines of a node of some level.

## Main results

* `Query.toList_outline` — the outline is made of the lines of the tree.
* `Query.lineText_inj` — a line shows its level and its label.
* `Query.lines_prefixFree` — the lines of a node tell where they end.
* `outline_identifies` — **trees with the same outline are the same.**
-/

namespace BooleanSearch

namespace Query

/-! ### Lines -/

/-- What stands in a line of the outline, behind the blanks. -/
inductive Label
  /-- The requirement of a node. -/
  | node (o : Occur)
  /-- A term. -/
  | term (text : String)

/-- The text of a label. -/
def Label.text : Label → String
  | node o => o.text
  | term text => quoted text

/-- The labels of a node by itself, without those of its subqueries. -/
def labels (q : Query) : List Label :=
  .node q.occur :: q.terms.map .term

/-- The labels of a node with their levels.  Its terms are one level deeper. -/
def nodeLabels (level : Nat) (q : Query) : List (Nat × Label) :=
  (level, .node q.occur) :: q.terms.map fun term => (level + 1, .term term)

/-- The labels of a tree in preorder with their levels, where the root has the given one. -/
def lines (level : Nat) (q : Query) : List (Nat × Label) :=
  (q.levelled level).flatMap fun p => p.2.nodeLabels p.1

/-- The text of a line, without the line break. -/
def lineText (line : Nat × Label) : List Char :=
  (indent line.1).toList ++ line.2.text.toList

theorem lines_eq (level : Nat) (q : Query) :
    q.lines level = (level, .node q.occur) ::
      ((q.terms.map fun term => (level + 1, .term term)) ++
        q.subqueries.flatMap (lines (level + 1))) := by
  rw [lines, levelled_eq, List.flatMap_cons, List.flatMap_assoc]
  rfl

/-- The labels of a tree are those of its nodes. -/
theorem map_snd_lines (level : Nat) (q : Query) :
    (q.lines level).map Prod.snd = q.subtrees.flatMap labels := by
  have hnode : ∀ p : Nat × Query, (p.2.nodeLabels p.1).map Prod.snd = p.2.labels := by
    intro p
    rw [nodeLabels, labels, List.map_cons, List.map_map]
    rfl
  rw [lines, List.map_flatMap, ← map_snd_levelled q level, List.flatMap_map]
  exact List.flatMap_congr fun p _ => hnode p

/-- There is a line for each node and for each term. -/
theorem length_lines (level : Nat) (q : Query) :
    (q.lines level).length = q.size + (q.subtrees.map fun sub => sub.terms.length).sum := by
  have hlabels : ∀ qs : List Query,
      (qs.flatMap labels).length = qs.length + (qs.map fun sub => sub.terms.length).sum := by
    intro qs
    induction qs with
    | nil => rfl
    | cons q qs ih =>
      simp only [List.flatMap_cons, List.length_append, ih, labels, List.length_cons,
        List.length_map, List.map_cons, List.sum_cons]
      omega
  have hlength := congrArg List.length (map_snd_lines level q)
  rwa [List.length_map, hlabels, length_subtrees] at hlength

theorem foldl_append_line (texts : List String) (out : String) :
    (texts.foldl (fun out text => out ++ text ++ "\n") out).toList
      = out.toList ++ texts.flatMap fun text => text.toList ++ ['\n'] := by
  have hline : ∀ text ∈ texts, ∀ out, out ++ text ++ "\n" = out ++ (text ++ "\n") :=
    fun _ _ _ => String.append_assoc ..
  rw [foldl_eq_append_join hline, String.toList_append, String.toList_join, List.flatMap_map]
  simp

/-- The outline is made of the lines of the tree, with a line break behind each. -/
theorem toList_outline (q : Query) :
    q.outline.toList = ((q.lines 0).map lineText).flatMap (· ++ ['\n']) := by
  have hnode : ∀ p : Nat × Query,
      (nodeLines p.1 p.2).map String.toList = (p.2.nodeLabels p.1).map lineText := by
    intro p
    simp [nodeLines, nodeLabels, lineText, Label.text]
  have hlines : ((q.levelled 0).flatMap fun p => nodeLines p.1 p.2).map String.toList
      = (q.lines 0).map lineText := by
    rw [lines, List.map_flatMap, List.map_flatMap]
    exact List.flatMap_congr fun p _ => hnode p
  rw [outline, visit_eq_foldl, ← List.foldl_flatMap, foldl_append_line, ← hlines, List.flatMap_map]
  rfl

/-- A label begins with a letter or a quote mark. -/
theorem Label.exists_text_eq (label : Label) :
    ∃ c cs, label.text.toList = c :: cs ∧ c ≠ ' ' := by
  cases label with
  | node o =>
    cases o with
    | must => exact ⟨'M', ['U', 'S', 'T'], rfl, by decide⟩
    | should => exact ⟨'S', ['H', 'O', 'U', 'L', 'D'], rfl, by decide⟩
  | term text => exact ⟨'"', _, toList_quoted text, by decide⟩

/-- A label shows what it is. -/
theorem Label.text_inj {label label' : Label} (h : label.text = label'.text) : label = label' := by
  have hne : ∀ (o : Occur) (text : String), o.text ≠ quoted text := by
    intro o text heq
    have htext := congrArg String.toList heq
    rw [toList_quoted] at htext
    cases o with
    | must => exact absurd (List.cons.inj htext).1 (by decide)
    | should => exact absurd (List.cons.inj htext).1 (by decide)
  cases label with
  | node o =>
    cases label' with
    | node o' =>
      have hoccur : some o = some o' := by
        rw [← Occur.ofText?_text, ← Occur.ofText?_text]
        exact congrArg Occur.ofText? h
      rw [Option.some.inj hoccur]
    | term text => exact absurd h (hne o text)
  | term text =>
    cases label' with
    | node o => exact absurd h.symm (hne o text)
    | term text' => rw [quoted_inj h]

theorem toList_indent (level : Nat) : (indent level).toList = List.replicate (2 * level) ' ' :=
  String.toList_ofList

/-- Without the blanks at its beginning a line is its label. -/
theorem dropWhile_lineText (line : Nat × Label) :
    (lineText line).dropWhile (· == ' ') = line.2.text.toList := by
  obtain ⟨c, cs, htext, hc⟩ := line.2.exists_text_eq
  have hblank : ∀ d ∈ (indent line.1).toList, (d == ' ') = true := by
    intro d hd
    rw [toList_indent] at hd
    exact beq_iff_eq.2 (List.eq_of_mem_replicate hd)
  rw [lineText, List.dropWhile_append_of_pos hblank, htext,
    List.dropWhile_cons_of_neg (by simpa using hc)]

/-- A line shows its level and its label. -/
theorem lineText_inj {line line' : Nat × Label} (h : lineText line = lineText line') :
    line = line' := by
  have hlabel : line.2 = line'.2 := by
    have htext := dropWhile_lineText line
    rw [h, dropWhile_lineText] at htext
    exact (Label.text_inj (String.toList_inj.1 htext)).symm
  have hlevel : line.1 = line'.1 := by
    rw [lineText, lineText, hlabel] at h
    have hindent := congrArg List.length (List.append_cancel_right h)
    rw [toList_indent, toList_indent, List.length_replicate, List.length_replicate] at hindent
    exact Nat.eq_of_mul_eq_mul_left (by decide) hindent
  exact Prod.ext hlevel hlabel

/-- A line is not broken. -/
theorem newline_not_mem_lineText (line : Nat × Label) : '\n' ∉ lineText line := by
  rw [lineText, List.mem_append, toList_indent, not_or]
  constructor
  · intro hmem
    exact absurd (List.eq_of_mem_replicate hmem) (by decide)
  · cases line.2 with
    | node o => cases o <;> decide
    | term text => exact newline_not_mem_quoted text

/-! ### Telling trees from their lines -/

/-- What may come behind the lines of a node of the given level: nothing, or a line of a node that
is no deeper. -/
def EndsNode (level : Nat) (rest : List (Nat × Label)) : Prop :=
  ∀ line ∈ rest.head?, line.1 ≤ level ∧ ∃ o, line.2 = .node o

theorem EndsNode.mono {level level' : Nat} {rest : List (Nat × Label)} (h : EndsNode level rest)
    (hle : level ≤ level') : EndsNode level' rest := by
  intro line hline
  obtain ⟨hlevel, hnode⟩ := h line hline
  exact ⟨Nat.le_trans hlevel hle, hnode⟩

/-- The lines of a node begin with one of the node itself. -/
theorem endsNode_lines (level : Nat) (q : Query) (rest : List (Nat × Label)) :
    EndsNode level (q.lines level ++ rest) := by
  intro line hline
  rw [lines_eq, List.cons_append, List.head?_cons, Option.mem_some_iff] at hline
  rw [← hline]
  exact ⟨Nat.le_refl level, q.occur, rfl⟩

theorem endsNode_flatMap_lines {level : Nat} (qs : List Query) {rest : List (Nat × Label)}
    (h : EndsNode level rest) : EndsNode level (qs.flatMap (lines level) ++ rest) := by
  cases qs with
  | nil => exact h
  | cons q qs =>
    rw [List.flatMap_cons, List.append_assoc]
    exact endsNode_lines level q _

/-- The terms of a node end where the line of a node comes, or no line. -/
theorem terms_append_inj {level level' : Nat} {ts us : List String} {r s : List (Nat × Label)}
    (hr : EndsNode level' r) (hs : EndsNode level' s)
    (h : (ts.map fun term => (level, Label.term term)) ++ r
      = (us.map fun term => (level, Label.term term)) ++ s) : ts = us ∧ r = s := by
  have hends : ∀ {x : List (Nat × Label)}, EndsNode level' x →
      ∀ term y, [(level, Label.term term)] ++ y ≠ x := by
    rintro _ hx term y rfl
    obtain ⟨-, o, ho⟩ := hx (level, .term term) rfl
    cases ho
  have hfree : ∀ t u : String,
      PrefixFree (fun _ => True) (fun term => [(level, Label.term term)]) t u := by
    intro t u x y _ _ heq
    obtain ⟨hline, hxy⟩ := List.cons.inj heq
    exact ⟨Label.term.inj (Prod.mk.inj hline).2, hxy⟩
  rw [List.map_eq_flatMap, List.map_eq_flatMap] at h
  exact flatMap_append_inj (fun _ _ _ => trivial) trivial trivial (hends hr) (hends hs)
    (fun t _ u _ => hfree t u) h

/-- **The lines of a node tell where they end**, if no line of a deeper node comes behind them. -/
theorem lines_prefixFree (q : Query) : ∀ (level : Nat) (q' : Query),
    PrefixFree (EndsNode level) (lines level) q q' := by
  induction q using Query.induction with
  | node q ih =>
    intro level q' r s hr hs h
    rw [lines_eq, lines_eq, List.cons_append, List.cons_append, List.append_assoc,
      List.append_assoc] at h
    obtain ⟨hfirst, h⟩ := List.cons.inj h
    have hoccur : q.occur = q'.occur := Label.node.inj (Prod.mk.inj hfirst).2
    have hdeeper : ∀ {x : List (Nat × Label)}, EndsNode level x → EndsNode (level + 1) x :=
      fun hx => hx.mono (Nat.le_succ level)
    obtain ⟨hterms, h⟩ := terms_append_inj (endsNode_flatMap_lines _ (hdeeper hr))
      (endsNode_flatMap_lines _ (hdeeper hs)) h
    -- a subquery is deeper than the node, so it does not begin behind the lines of the node
    have hends : ∀ {x : List (Nat × Label)}, EndsNode level x →
        ∀ sub y, lines (level + 1) sub ++ y ≠ x := by
      rintro _ hx sub y rfl
      rw [lines_eq, List.cons_append] at hx
      exact absurd (hx (level + 1, .node sub.occur) rfl).1 (Nat.not_succ_le_self level)
    obtain ⟨hsubs, hrs⟩ := flatMap_append_inj (fun sub x _ => endsNode_lines (level + 1) sub x)
      (hdeeper hr) (hdeeper hs) (hends hr) (hends hs)
      (fun sub hsub sub' _ => ih sub hsub (level + 1) sub') h
    exact ⟨Query.ext hoccur hterms hsubs, hrs⟩

/-- The lines of an outline are told from its text. -/
theorem lines_eq_of_outline_eq {q q' : Query} (h : q.outline = q'.outline) :
    q.lines 0 = q'.lines 0 := by
  have htext := congrArg String.toList h
  rw [toList_outline, toList_outline, List.flatMap_map, List.flatMap_map] at htext
  have hne : ∀ line : Nat × Label, lineText line ++ ['\n'] ≠ [] := by
    simp
  have hfree : ∀ line line' : Nat × Label,
      PrefixFree (fun _ => True) (fun line => lineText line ++ ['\n']) line line' := by
    intro line line' r s _ _ heq
    simp only [List.append_assoc, List.singleton_append] at heq
    obtain ⟨hline, hrs⟩ := append_cons_inj (newline_not_mem_lineText line)
      (newline_not_mem_lineText line') heq
    exact ⟨lineText_inj hline, hrs⟩
  exact flatMap_inj hne (fun line _ line' _ => hfree line line') htext

end Query

/-- **Trees with the same outline are the same.**  The outline has one line for each node and for
each term: without the blanks at their beginning, the lines are the requirement of a node and its
terms, for all nodes in preorder. -/
theorem outline_identifies :
    (∀ q q' : Query, q.outline = q'.outline → q = q') ∧
      ∀ q : Query, ∃ lines : List (List Char),
        q.outline.toList = lines.flatMap (· ++ ['\n']) ∧ (∀ line ∈ lines, '\n' ∉ line) ∧
        lines.map (·.dropWhile (· == ' '))
          = q.subtrees.flatMap (fun sub =>
              sub.occur.text.toList :: sub.terms.map fun term => (quoted term).toList) ∧
        lines.length = q.size + (q.subtrees.map fun sub => sub.terms.length).sum := by
  constructor
  · intro q q' h
    have hnone : Query.EndsNode 0 [] := by
      intro line hline
      cases hline
    have hlines : q.lines 0 ++ [] = q'.lines 0 ++ [] := by
      rw [Query.lines_eq_of_outline_eq h]
    exact (Query.lines_prefixFree q 0 q' [] [] hnone hnone hlines).1
  · intro q
    refine ⟨(q.lines 0).map Query.lineText, q.toList_outline, ?_, ?_, ?_⟩
    · intro line hline
      obtain ⟨labelled, -, rfl⟩ := List.mem_map.1 hline
      exact Query.newline_not_mem_lineText labelled
    · have hlabel : ∀ sub : Query, sub.labels.map (fun label => label.text.toList)
          = sub.occur.text.toList :: sub.terms.map fun term => (quoted term).toList := by
        intro sub
        rw [Query.labels, List.map_cons, List.map_map]
        rfl
      have hblanks : (fun line : List Char => line.dropWhile (· == ' ')) ∘ Query.lineText
          = (fun label : Query.Label => label.text.toList) ∘ Prod.snd :=
        funext Query.dropWhile_lineText
      rw [List.map_map, hblanks, ← List.map_map, Query.map_snd_lines, List.map_flatMap]
      exact List.flatMap_congr fun sub _ => hlabel sub
    · rw [List.length_map, Query.length_lines]

/-- A term with line breaks that looks like the lines of a node. -/
theorem outline_identifies_lines :
    Query.outline
          (Query.pushTerm ⟨.should, [], [⟨.must, ["\\\""], []⟩]⟩ "\n  MUST\n    \"\\u\x7ba\x7d\"")
        = Query.outline
            ⟨.should, ["\n  MUST\n    \"\\u\x7ba\x7d\""], [⟨.must, ["\\\""], []⟩]⟩ ∧
      Query.pushTerm ⟨.should, [], [⟨.must, ["\\\""], []⟩]⟩ "\n  MUST\n    \"\\u\x7ba\x7d\""
        = ⟨.should, ["\n  MUST\n    \"\\u\x7ba\x7d\""], [⟨.must, ["\\\""], []⟩]⟩ :=
  ⟨rfl, outline_identifies.1 _ _ rfl⟩

end BooleanSearch
