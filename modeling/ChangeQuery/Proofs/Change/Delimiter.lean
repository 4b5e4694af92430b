import ChangeQuery.Proofs.Change.Outline
import ChangeQuery.Proofs.Config.Settings
import Mathlib.Data.List.TakeWhile

/-!
## Delimiters that can split

A root with an old side, a delimiter and a new side, and with layout anywhere around them, should be
split at the delimiter.  The delimiter is looked for after layout has been taken away, so it is found
as long as it is not layout itself.  The checks of a configuration refuse the empty delimiter, but not
one that is made up of blanks; such a delimiter is never found, in any tree.

* `Parted.ofTree`: the sides are found, unless the delimiter is layout.
* `Change.ofTree_of_isLayout`: a delimiter that is layout splits nothing.
* `Config.ofTree_of_settings`: what this means for a configuration that was checked.
-/

namespace ChangeQuery

/-- The node is a token with the text of the delimiter. -/
def Node.isDelimiter (delimiter : String) (n : Node) : Bool :=
  n.isToken && n.label == delimiter

/-- The root has an old side, a delimiter and a new side.  All its other children are layout; the
delimiter counts even if it is layout itself. -/
structure Parted (delimiter : String) (root old new : Node) : Prop where
  exists_arrow : ∃ arrow : Node,
    root.children.filter (fun child : Node => !child.isFormatting || child.isDelimiter delimiter) =
      [old, arrow, new] ∧ arrow.isDelimiter delimiter = true
  isFormatting_old : old.isFormatting = false
  isFormatting_new : new.isFormatting = false
  isDelimiter_old : old.isDelimiter delimiter = false
  isDelimiter_new : new.isDelimiter delimiter = false

namespace Node

variable {delimiter : String} {n : Node}

/-- A delimiter is layout exactly if its text is. -/
theorem isFormatting_of_isDelimiter (h : n.isDelimiter delimiter = true) :
    n.isFormatting = isLayout delimiter := by
  obtain ⟨htoken, hlabel⟩ := Bool.and_eq_true_iff.mp h
  rw [isFormatting, htoken, eq_of_beq hlabel, Bool.true_and]
  rfl

/-- If the delimiter is not layout, then nothing that counts is left out with the layout. -/
theorem isFormatting_or_isDelimiter (h : isLayout delimiter = false) :
    (!n.isFormatting || n.isDelimiter delimiter) = !n.isFormatting := by
  cases hdelimiter : n.isDelimiter delimiter with
  | false => rw [Bool.or_false]
  | true =>
    rw [isFormatting_of_isDelimiter hdelimiter, h]
    rfl

end Node

namespace Change

variable {delimiter : String} {root : Node} {tree : Tree}

/-- The sites of the children that are more than layout. -/
theorem filter_children (root : Node) :
    (Site.mk root none).children.filter (fun s => !s.node.isFormatting) =
      (root.children.filter fun child : Node => !child.isFormatting).map (Site.mk · (some root)) := by
  rw [Site.children, List.filter_map]
  rfl

/-- **A delimiter that is layout splits nothing**: it is taken away before it is looked for. -/
theorem ofTree_of_isLayout (h : isLayout delimiter = true) (hroot : tree.root? = some root) :
    ofTree tree delimiter = .error (.missingDelimiter delimiter) := by
  have hnone : ∀ s ∈ (Site.mk root none).children.filter (fun s => !s.node.isFormatting),
      (!(s.node.isToken && s.node.label == delimiter)) = true := by
    intro s hs
    have hformatting := (List.mem_filter.mp hs).2
    cases hdelimiter : s.node.isDelimiter delimiter with
    | false => exact congrArg not hdelimiter
    | true =>
      rw [Node.isFormatting_of_isDelimiter hdelimiter, h] at hformatting
      cases hformatting
  rw [ofTree_of_root hroot, ofSites, List.span_eq_takeWhile_dropWhile,
    List.dropWhile_eq_nil_iff.mpr hnone]

end Change

/-- **The sides are found** unless the delimiter is layout, wherever layout stands between them. -/
theorem Parted.ofTree {delimiter : String} {root old new : Node} {tree : Tree}
    (h : Parted delimiter root old new) (hlayout : isLayout delimiter = false)
    (hroot : tree.root? = some root) :
    Change.ofTree tree delimiter = .ok ⟨tree, ⟨old, some root⟩, ⟨new, some root⟩⟩ := by
  obtain ⟨arrow, hchildren, harrow⟩ := h.exists_arrow
  simp only [Node.isFormatting_or_isDelimiter hlayout] at hchildren
  rw [Change.ofTree_of_root hroot, Change.filter_children, hchildren, Change.ofSites]
  -- The old side is passed over, and the search stops at the delimiter.
  have hold : (!(old.isToken && old.label == delimiter)) = true := congrArg not h.isDelimiter_old
  have hstop : (!(arrow.isToken && arrow.label == delimiter)) = false := congrArg not harrow
  simp only [List.map_cons, List.map_nil, List.span, List.span.loop, hold, hstop, List.reverse_cons,
    List.reverse_nil, List.nil_append, List.getLast?_singleton, List.head?_cons]

namespace Config

variable {c : Config} {s : Settings}

/-- **Delimiters of configurations that were checked.**  They are not empty.  If they are more than
layout, then they split every tree whose root has an old side, a delimiter and a new side, with layout
around them.  If they are layout, then no tree can be split, and every change of a search fails for want
of a delimiter. -/
theorem ofTree_of_settings (h : c.settings = .ok s) :
    c.delimiter ≠ "" ∧
    (isLayout c.delimiter = false → ∀ (tree : Tree) (root old new : Node),
      tree.root? = some root → Parted c.delimiter root old new →
        Change.ofTree tree c.delimiter = .ok ⟨tree, ⟨old, some root⟩, ⟨new, some root⟩⟩) ∧
    (isLayout c.delimiter = true → ∀ (tree : Tree) (root : Node), tree.root? = some root →
      Change.ofTree tree c.delimiter = .error (.missingDelimiter c.delimiter)) := by
  obtain ⟨-, -, -, -, -, hdelimiter⟩ := settings_eq_ok_iff.mp h
  refine ⟨bne_iff_ne.mp hdelimiter, ?_, ?_⟩
  · exact fun hlayout tree root old new hroot hparted => hparted.ofTree hlayout hroot
  · exact fun hlayout tree root hroot => Change.ofTree_of_isLayout hlayout hroot

/-- Every delimiter passes the checks unless it is empty. -/
theorem exists_settings_withDelimiter (delimiter : String) (h : delimiter ≠ "") :
    ∃ s, ({ delimiter } : Config).settings = .ok s := by
  have hbuild : Placeholder.Table.build Placeholder.Names.default.toList .default
      Placeholder.defaultEmptyLabel = .ok .default := by decide
  have htable : ({ delimiter } : Config).table = .ok .default :=
    congrArg (Except.mapError ConfigError.placeholders) hbuild
  have hthreshold : (0 ≤ (0.8 : Float) && (0.8 : Float) ≤ 1) = true := by decide +kernel
  obtain ⟨buckets, hbuckets⟩ : ∃ buckets, ({ delimiter } : Config).checkedBuckets = .ok buckets := by
    have heven : 2 ≤ 128 ∧ 128 % 2 = 0 := by decide
    exact ⟨⟨128, heven.1, heven.2⟩, by rw [checkedBuckets, Buckets.ofNat?, dif_pos heven]⟩
  exact ⟨⟨{ delimiter }, .default, buckets⟩,
    settings_eq_ok_iff.mpr ⟨rfl, htable, hbuckets, hthreshold, rfl, bne_iff_ne.mpr h⟩⟩

/-- A change with an old side `a` and a new side `b`, and with line breaks around the delimiter. -/
def changeAround (delimiter : String) : Tree :=
  (Tree.ofLabels ⟨0, []⟩ (.node (.construct "change")
    [.node (.construct "side") [.leaf (.token "a")], .leaf (.token "\n"), .leaf (.token delimiter),
     .leaf (.token "\n"), .node (.construct "side") [.leaf (.token "b")]])).2

theorem changeAround_arrow : ∃ s root old new, ({ delimiter := "->" } : Config).settings = .ok s ∧
    (changeAround "->").root? = some root ∧ Parted "->" root old new ∧
    old.text = "a" ∧ new.text = "b" ∧
    Change.ofTree (changeAround "->") "->" =
      .ok ⟨changeAround "->", ⟨old, some root⟩, ⟨new, some root⟩⟩ := by
  obtain ⟨s, hsettings⟩ := exists_settings_withDelimiter "->" (by decide)
  obtain ⟨root, old, new, hroot, hparted, hold, hnew⟩ : ∃ root old new,
      (changeAround "->").root? = some root ∧ Parted "->" root old new ∧ old.text = "a" ∧
        new.text = "b" := ⟨_, _, _, rfl, ⟨⟨_, rfl, rfl⟩, rfl, rfl, rfl, rfl⟩, by decide, by decide⟩
  exact ⟨s, root, old, new, hsettings, hroot, hparted, hold, hnew,
    (ofTree_of_settings hsettings).2.1 (by decide) _ root old new hroot hparted⟩

/-- A blank passes the checks as a delimiter, but the tree with a blank between its sides cannot be
split. -/
theorem not_ofTree_of_blank : ∃ s root old new, ({ delimiter := " " } : Config).settings = .ok s ∧
    (changeAround " ").root? = some root ∧ Parted " " root old new ∧
    ∀ change, Change.ofTree (changeAround " ") " " ≠ .ok change := by
  obtain ⟨s, hsettings⟩ := exists_settings_withDelimiter " " (by decide)
  refine ⟨s, _, _, _, hsettings, rfl, ⟨⟨_, rfl, rfl⟩, rfl, rfl, rfl, rfl⟩, fun change hchange => ?_⟩
  rw [Change.ofTree_of_isLayout (by decide) rfl] at hchange
  cases hchange

end Config

end ChangeQuery
