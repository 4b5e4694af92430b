import ChangeQuery.Parser
import ChangeQuery.Proofs.Tree.Outline
import Mathlib.Logic.Function.Basic

/-!
## Changes and vocabularies

Trees of equal outline are split into sides of equal outlines, or are no change for the same reason.
A parser makes trees of equal outline over all vocabularies, so the vocabulary that it has does not
show in the change that it reads.

* `Change.ofTree_congr`, `TokenSides.ofTree_congr`: both ways of splitting.
* `Parser.change_congr`: reading a change over two vocabularies.
-/

namespace ChangeQuery

/-! ### Equal images -/

/-- Predicates that are known from an image choose elements of equal images. -/
theorem map_filter_congr {α β : Type} {f : α → β} {p : α → Bool} (hp : p.FactorsThrough f)
    {as bs : List α} (h : as.map f = bs.map f) : (as.filter p).map f = (bs.filter p).map f := by
  have hp' : p = Function.extend f p (fun _ => false) ∘ f := funext fun a => (hp.extend_apply _ a).symm
  rw [hp', ← List.filter_map, ← List.filter_map, h]

theorem map_takeWhile_congr {α β : Type} {f : α → β} {p : α → Bool} (hp : p.FactorsThrough f)
    {as bs : List α} (h : as.map f = bs.map f) :
    (as.takeWhile p).map f = (bs.takeWhile p).map f := by
  have hp' : p = Function.extend f p (fun _ => false) ∘ f := funext fun a => (hp.extend_apply _ a).symm
  rw [hp', ← List.takeWhile_map, ← List.takeWhile_map, h]

theorem map_dropWhile_congr {α β : Type} {f : α → β} {p : α → Bool} (hp : p.FactorsThrough f)
    {as bs : List α} (h : as.map f = bs.map f) :
    (as.dropWhile p).map f = (bs.dropWhile p).map f := by
  have hp' : p = Function.extend f p (fun _ => false) ∘ f := funext fun a => (hp.extend_apply _ a).symm
  rw [hp', ← List.dropWhile_map, ← List.dropWhile_map, h]

/-! ### Splitting -/

namespace Change

/-- The outlines of the tree and of the two sides. -/
def outline (c : Change) :=
  (c.tree.outline, c.old.outline, c.new.outline)

/-- Finds the sides among the sites that are left when layout is taken away. -/
def ofSites (tree : Tree) (delimiter : String) (sites : List Site) : Except ParseError Change :=
  match sites.span fun site => !(site.node.isToken && site.node.label == delimiter) with
  | (_, []) => .error (.missingDelimiter delimiter)
  | (before, _ :: after) =>
    match before.getLast?, after.head? with
    | none, _ => .error (.missingSide .old)
    | some _, none => .error (.missingSide .new)
    | some old, some new => .ok ⟨tree, old, new⟩

theorem ofSites_congr {t t' : Tree} (h : t.outline = t'.outline) (delimiter : String)
    {sites sites' : List Site} (hsites : sites.map Site.outline = sites'.map Site.outline) :
    (ofSites t delimiter sites).map outline = (ofSites t' delimiter sites').map outline := by
  have hdelimiter : (fun s : Site => !(s.node.isToken && s.node.label == delimiter)).FactorsThrough
      Site.outline := by
    intro s s' houtline
    have hlabels := Site.labels_congr houtline
    dsimp only
    rw [Node.isToken_congr hlabels, Node.label_congr hlabels]
  have hbefore := map_takeWhile_congr hdelimiter hsites
  have hafter := map_dropWhile_congr hdelimiter hsites
  rw [ofSites, ofSites, List.span_eq_takeWhile_dropWhile, List.span_eq_takeWhile_dropWhile]
  generalize sites.takeWhile _ = before at hbefore ⊢
  generalize sites'.takeWhile _ = before' at hbefore ⊢
  generalize sites.dropWhile _ = after at hafter ⊢
  generalize sites'.dropWhile _ = after' at hafter ⊢
  cases after with
  | nil => rw [List.map_eq_nil_iff.mp hafter.symm]
  | cons arrow after =>
  cases after' with
  | nil => cases hafter
  | cons arrow' after' =>
  have hold : before.getLast?.map Site.outline = before'.getLast?.map Site.outline := by
    rw [← List.getLast?_map, ← List.getLast?_map, hbefore]
  have hnew : after.head?.map Site.outline = after'.head?.map Site.outline := by
    rw [← List.head?_map, ← List.head?_map, (List.cons.inj hafter).2]
  dsimp only
  rcases option_cases_of_map_eq hold with ⟨hlast, hlast'⟩ | ⟨old, old', hlast, hlast', hold⟩
  · rw [hlast, hlast']
  rcases option_cases_of_map_eq hnew with ⟨hhead, hhead'⟩ | ⟨new, new', hhead, hhead', hnew⟩
  · rw [hlast, hlast', hhead, hhead']
  · rw [hlast, hlast', hhead, hhead']
    exact congrArg Except.ok (Prod.ext h (Prod.ext hold hnew))

theorem ofTree_of_root {t : Tree} {root : Node} (h : t.root? = some root) (delimiter : String) :
    ofTree t delimiter =
      ofSites t delimiter ((Site.mk root none).children.filter fun s => !s.node.isFormatting) := by
  rw [ofTree, h]
  rfl

/-- **The sides of a change** are two children of the root, one behind the other. -/
theorem sublist_children_of_ofTree {tree : Tree} {delimiter : String} {c : Change}
    (h : ofTree tree delimiter = .ok c) : ∃ root, tree.root? = some root ∧
      [c.old.node, c.new.node].Sublist root.children := by
  cases hroot : tree.root? with
  | none =>
    rw [ofTree, hroot] at h
    cases h
  | some root =>
    rw [ofTree_of_root hroot, ofSites, List.span_eq_takeWhile_dropWhile] at h
    generalize hsites : (Site.mk root none).children.filter _ = sites at h
    have hsplit := List.takeWhile_append_dropWhile
      (p := fun site : Site => !(site.node.isToken && site.node.label == delimiter)) (l := sites)
    generalize sites.takeWhile _ = before at h hsplit
    generalize sites.dropWhile _ = after at h hsplit
    cases after with
    | nil => cases h
    | cons arrow after =>
    dsimp only at h
    cases hold : before.getLast? with
    | none =>
      rw [hold] at h
      cases h
    | some old =>
    cases hnew : after.head? with
    | none =>
      rw [hold, hnew] at h
      cases h
    | some new =>
      rw [hold, hnew] at h
      obtain rfl := Except.ok.inj h
      have hsides : [old, new].Sublist sites := by
        rw [← hsplit]
        exact (List.singleton_sublist.mpr (List.mem_of_getLast? hold)).append
          ((List.singleton_sublist.mpr (List.mem_of_mem_head? hnew)).cons arrow)
      have hchildren : (sites.map Site.node).Sublist root.children := by
        have hnodes : (Site.mk root none).children.map Site.node = root.children := by
          rw [Site.children, List.map_map]
          exact List.map_id root.children
        rw [← hnodes, ← hsites]
        exact List.filter_sublist.map Site.node
      exact ⟨root, rfl, (hsides.map Site.node).trans hchildren⟩

/-- The sides of a change stand directly below the root. -/
theorem mem_children_of_ofTree {tree : Tree} {delimiter : String} {c : Change}
    (h : ofTree tree delimiter = .ok c) : ∃ root, tree.root? = some root ∧
      c.old.node ∈ root.children ∧ c.new.node ∈ root.children := by
  obtain ⟨root, hroot, hsides⟩ := sublist_children_of_ofTree h
  exact ⟨root, hroot, hsides.subset List.mem_cons_self, hsides.subset (.tail _ List.mem_cons_self)⟩

/-- **Splitting along the tree** gives sides of equal outlines, or fails for the same reason. -/
theorem ofTree_congr {t t' : Tree} (h : t.outline = t'.outline) (delimiter : String) :
    (ofTree t delimiter).map outline = (ofTree t' delimiter).map outline := by
  rcases option_cases_of_map_eq (Tree.root?_congr h) with ⟨hroot, hroot'⟩ |
    ⟨root, root', hroot, hroot', houtline⟩
  · rw [ofTree, ofTree, hroot, hroot']
  · have hlayout : (fun s : Site => !s.node.isFormatting).FactorsThrough Site.outline :=
      fun s s' h => congrArg not (Node.isFormatting_congr (Site.labels_congr h))
    have hsites : (Site.mk root none).outline = (Site.mk root' none).outline := Prod.ext houtline rfl
    rw [ofTree_of_root hroot, ofTree_of_root hroot']
    exact ofSites_congr h delimiter (map_filter_congr hlayout (Site.children_congr hsites))

end Change

/-- **Splitting the tokens** gives the same texts. -/
theorem TokenSides.ofTree_congr {t t' : Tree} (h : t.outline = t'.outline) (delimiter : String) :
    ofTree t delimiter = ofTree t' delimiter := by
  have htexts : ∀ t : Tree, significantTexts t =
      (t.outline?.map fun outline => (outline.map Prod.snd).texts.filter
        fun text => !isLayout text).getD [] := by
    intro t
    rw [significantTexts, Tree.outline?, Option.map_map]
    cases t.root? with
    | none => rfl
    | some root =>
      dsimp only
      rw [Node.map_label_significant, Option.map_some, Option.getD_some, Function.comp,
        Node.map_snd_outline]
  rw [ofTree, ofTree, htexts, htexts, (Prod.mk.inj h).1]

/-! ### Parsing -/

namespace Tree

/-- A numbered tree of labels has the numbers and labels that it was made from. -/
theorem outline_ofLabels (v : Vocabulary) (labels : Rose Label) :
    (ofLabels v labels).2.outline = (some (labels.number 0), labels.size) := by
  have houtline : ∀ w : Vocabulary, ((labels.number 0).map fun numbered =>
      Entry.mk numbered.1 (w.category numbered.2)).map
        (fun entry => (entry.id, entry.category.label)) = labels.number 0 := by
    intro w
    rw [Rose.map_map]
    have hself : ((fun entry : Entry => (entry.id, entry.category.label)) ∘
        fun numbered : ℕ × Label => Entry.mk numbered.1 (w.category numbered.2)) = id :=
      funext fun numbered => Prod.ext rfl (w.label_category numbered.2)
    rw [hself, Rose.map_id]
  exact Prod.ext (congrArg some (houtline _)) rfl

end Tree

namespace Parser

variable {p : Parser} {v v' w w' : Vocabulary} {source delimiter : String}

/-- **A parser makes trees of equal outline** over all vocabularies, or refuses a text over all. -/
theorem tree_congr (p : Parser) (v v' : Vocabulary) (source : String) :
    (p.tree v source).map (fun parsed => parsed.2.outline) =
      (p.tree v' source).map (fun parsed => parsed.2.outline) := by
  unfold tree
  cases p.read source with
  | error cause => rfl
  | ok labels? =>
    cases labels? with
    | none => rfl
    | some labels =>
      have houtline :=
        (Tree.outline_ofLabels v labels).trans (Tree.outline_ofLabels v' labels).symm
      exact congrArg Except.ok houtline

/-- **Reading a change** does not depend on the vocabulary. -/
theorem change_congr (p : Parser) (v v' : Vocabulary) (source delimiter : String) :
    (p.change v source delimiter).map (fun parsed => parsed.2.outline) =
      (p.change v' source delimiter).map (fun parsed => parsed.2.outline) := by
  have hmap : ∀ (w : Vocabulary) (outcome : Except ParseError Change),
      (outcome.map fun change => (w, change)).map (fun parsed => parsed.2.outline) =
        outcome.map Change.outline := by
    intro w outcome
    cases outcome <;> rfl
  unfold change
  rcases except_cases_of_map_eq (p.tree_congr v v' source) with
    ⟨cause, htree, htree'⟩ | ⟨parsed, parsed', htree, htree', houtline⟩
  · rw [htree, htree']
  · rw [htree, htree']
    dsimp only
    rw [hmap, hmap, Change.ofTree_congr houtline]

end Parser

end ChangeQuery
