import ChangeQuery.Parser
import ChangeQuery.Proofs.Abstraction.Matching
import ChangeQuery.Proofs.Abstraction.Replace

/-!
## Abstractions find what they were made from

A query made from a parsed change by putting placeholders in the place of subtrees of its sides is a
change again: its sides are the abstractions of the sides.  It matches the change it was made from,
and its tokens align with those of this change, if every numbered placeholder only stands for
subtrees with the same tokens.

* `exists_splits_of_abstracts`: an abstraction splits into abstractions of the two sides.
* `changesMatch_of_abstracts`: an abstraction finds the change it was made from.
-/

namespace ChangeQuery

open Placeholder (Table Kind wildcardText numberedText)
open ChangeQuery.Alignment (IsNumbered aligns slotsOf Covers)
open ChangeGrammar (IsSide)

/-- All tokens of the change are plain code. -/
def Change.isPlain (table : Table) (change : Change) : Bool :=
  change.tree.root?.all fun root => root.tokens.all fun token => table.kind token == .plain

/-- The node stands at or below one of the sides. -/
def Change.Inside (change : Change) (site : Site) : Prop :=
  site.node ∈ change.old.node.preorder ∨ site.node ∈ change.new.node.preorder

/-- The tree is that of the change with query tokens put in the place of some subtrees that stand at
or below the sides. -/
def Tree.Abstracts (query : Tree) (change : Change) (rs : List Replacement) : Prop :=
  ∃ root root', query.root? = some root ∧ change.tree.root? = some root' ∧
    ChangeQuery.Abstracts change.Inside [root] [⟨root', none⟩] rs

/-- A numbered placeholder only stands for subtrees with the same tokens. -/
def Consistent (rs : List Replacement) : Prop :=
  ∀ a ∈ rs, ∀ b ∈ rs, IsNumbered .default a.1 → a.1 = b.1 → a.2 = b.2

/-! ### What is not replaced -/

variable {change : Change} {rs : List Replacement}

theorem isPlain_of_mem_children {root side : Node} (hplain : change.isPlain .default = true)
    (hroot : change.tree.root? = some root) (hside : side ∈ root.children) (hnodes : OfSide side) :
    side.IsPlain := by
  intro t ht
  obtain ⟨n, htoken, hlabels⟩ := hnodes.exists_mem_tokens hside ht
  rw [Change.isPlain, hroot] at hplain
  have hthis := List.all_eq_true.mp hplain n htoken
  rwa [Placeholder.kind_of_token hlabels, beq_iff_eq] at hthis

/-- Nodes with layout or an arrow among their tokens do not stand inside a side. -/
theorem not_inside (hold : OfSide change.old.node) (hnew : OfSide change.new.node) {site : Site}
    {t : String} (ht : t ∈ site.node.labels.texts) (hbetween : isLayout t = true ∨ t = "->") :
    ¬ change.Inside site := by
  have hnot : ∀ side : Node, OfSide side → site.node ∈ side.preorder → False := by
    intro side hside hmem
    obtain ⟨hlayout, harrow⟩ := hside.of_mem_texts (Node.texts_subset hmem ht)
    rcases hbetween with h | h
    · rw [h] at hlayout
      cases hlayout
    · exact harrow h
  rintro (hmem | hmem)
  · exact hnot _ hold hmem
  · exact hnot _ hnew hmem

/-- Layout between the sides is kept. -/
theorem isLayout_of_abstracts (hold : OfSide change.old.node) (hnew : OfSide change.new.node)
    {qs nodes : List Node} {parent? : Option Node} (hlayout : ∀ n ∈ nodes, Node.IsLayout n)
    (h : Abstracts change.Inside qs (nodes.map fun child => ⟨child, parent?⟩) rs) :
    (∀ q ∈ qs, Node.IsLayout q) ∧ rs = [] := by
  obtain ⟨hmap, rfl⟩ := h.map_labels
    (by
      intro c hc
      obtain ⟨n, hn, rfl⟩ := List.mem_map.mp hc
      obtain ⟨t, ht, -⟩ := hlayout n hn
      exact ⟨t, ht⟩)
    (by
      intro c hc
      obtain ⟨n, hn, rfl⟩ := List.mem_map.mp hc
      obtain ⟨t, ht, hblank⟩ := hlayout n hn
      exact not_inside hold hnew (Node.mem_texts_of_leaf ht) (.inl hblank))
  refine ⟨fun q hq => ?_, rfl⟩
  have hmem := List.mem_map_of_mem (f := Node.labels) hq
  rw [hmap, List.map_map] at hmem
  obtain ⟨n, hn, heq⟩ := List.mem_map.mp hmem
  obtain ⟨t, ht, hblank⟩ := hlayout n hn
  exact ⟨t, heq ▸ ht, hblank⟩

/-- The arrow between the sides is kept. -/
theorem arrow_of_abstracts (hold : OfSide change.old.node) (hnew : OfSide change.new.node)
    {q arrow : Node} {parent? : Option Node} (harrow : arrow.labels = .leaf (.token "->"))
    (h : Abstracts change.Inside [q] [⟨arrow, parent?⟩] rs) :
    q.labels = .leaf (.token "->") ∧ rs = [] := by
  obtain ⟨hmap, rfl⟩ := h.map_labels
    (by
      intro c hc
      obtain rfl := List.mem_singleton.mp hc
      exact ⟨_, harrow⟩)
    (by
      intro c hc
      obtain rfl := List.mem_singleton.mp hc
      exact not_inside hold hnew (Node.mem_texts_of_leaf harrow) (.inr rfl))
  exact ⟨(List.cons.inj hmap).1.trans harrow, rfl⟩

/-- The tokens of the abstraction of a side are neither layout nor arrows. -/
theorem texts_of_abstracts {allowed : Site → Prop} {q : Node} {c : Site}
    (h : Abstracts allowed [q] [c] rs) (hside : OfSide c.node) :
    ∀ t ∈ q.labels.texts, isLayout t = false ∧ t ≠ "->" := by
  intro t ht
  have hmem : t ∈ [q].flatMap fun q => q.labels.texts := by
    rwa [List.flatMap_singleton]
  rcases h.mem_texts_or (fun d hd => List.mem_singleton.mp hd ▸ hside) hmem with hkept | hput
  · rw [List.flatMap_singleton] at hkept
    exact hside.of_mem_texts hkept
  · obtain ⟨d, hd, hstands⟩ := hput
    exact hstands.isLayout_eq_false hd

/-! ### The sides of an abstraction -/

/-- **An abstraction splits** into abstractions of the two sides. -/
theorem exists_splits_of_abstracts {root root' old new : Node} (hsplits : Splits "->" root' old new)
    (hchangeOld : change.old = ⟨old, some root'⟩) (hchangeNew : change.new = ⟨new, some root'⟩)
    (hold : OfSide old) (hnew : OfSide new)
    (h : Abstracts change.Inside [root] [⟨root', none⟩] rs) :
    ∃ old' new' rsOld rsNew, Splits "->" root old' new' ∧ rs = rsOld ++ rsNew ∧
      Abstracts change.Inside [old'] [change.old] rsOld ∧
      Abstracts change.Inside [new'] [change.new] rsNew := by
  have hold' : OfSide change.old.node := by rw [hchangeOld]; exact hold
  have hnew' : OfSide change.new.node := by rw [hchangeNew]; exact hnew
  obtain ⟨l₁, l₂, l₃, l₄, arrow, hchildren, ⟨h₁, h₂, h₃, h₄⟩, harrow⟩ := hsplits.exists_children
  -- The root has the arrow among its tokens, so it is kept.
  have harrowMem : arrow ∈ root'.children := by simp [hchildren]
  have hmem : "->" ∈ root'.labels.texts :=
    Node.texts_subset (Rose.mem_preorder_child harrowMem (Rose.mem_preorder_self arrow))
      (Node.mem_texts_of_leaf harrow)
  cases h with
  | replace _ hinside _ _ => exact absurd hinside (not_inside hold' hnew' hmem (.inr rfl))
  | @keep _ _ _ _ below _ hsame hlabel hbelow hrest =>
    obtain ⟨-, rfl⟩ := hrest.eq_nil
    rw [Site.children, hchildren] at hbelow
    simp only [List.map_append, List.map_cons] at hbelow
    -- The children of the root are taken apart like those that they were made from.
    obtain ⟨q₁, _, _, _, hqs, hrs, hpart₁, hrest₁⟩ := hbelow.exists_of_append
    obtain ⟨hq₁, rfl⟩ := isLayout_of_abstracts hold' hnew' h₁ hpart₁
    obtain ⟨old', _, rsOld, _, rfl, rfl, hqOld, hrest₂⟩ := hrest₁.exists_of_cons
    obtain ⟨q₂, _, _, _, rfl, rfl, hpart₂, hrest₃⟩ := hrest₂.exists_of_append
    obtain ⟨hq₂, rfl⟩ := isLayout_of_abstracts hold' hnew' h₂ hpart₂
    obtain ⟨arrow', _, _, _, rfl, rfl, hqArrow, hrest₄⟩ := hrest₃.exists_of_cons
    obtain ⟨harrow', rfl⟩ := arrow_of_abstracts hold' hnew' harrow hqArrow
    obtain ⟨q₃, _, _, _, rfl, rfl, hpart₃, hrest₅⟩ := hrest₄.exists_of_append
    obtain ⟨hq₃, rfl⟩ := isLayout_of_abstracts hold' hnew' h₃ hpart₃
    obtain ⟨new', q₄, rsNew, _, rfl, rfl, hqNew, hpart₄⟩ := hrest₅.exists_of_cons
    obtain ⟨hq₄, rfl⟩ := isLayout_of_abstracts hold' hnew' h₄ hpart₄
    refine ⟨old', new', rsOld, rsNew, ?_, ?_, ?_, ?_⟩
    · exact
        { isToken_root := by
            obtain ⟨_, hroot, -⟩ :=
              Abstracts.labels_of_kept_construct hsplits.isToken_root hsame hlabel
            rw [Node.isToken_of_labels hroot]
            rfl
          exists_children := ⟨q₁, q₂, q₃, q₄, arrow', hqs, ⟨hq₁, hq₂, hq₃, hq₄⟩, harrow'⟩
          isLayout_delimiter := hsplits.isLayout_delimiter
          old_texts := texts_of_abstracts hqOld hold
          new_texts := fun t ht => (texts_of_abstracts hqNew hnew t ht).1 }
    · simp [hrs]
    · rwa [hchangeOld]
    · rwa [hchangeNew]

/-- **An abstraction finds the change it was made from**: if a query is made from a parsed change of
plain code by putting query tokens in the place of subtrees of the sides, and numbered placeholders
only stand for subtrees with the same tokens, then the query is a change, it matches the change it
was made from, and its tokens align with those of this change. -/
theorem changesMatch_of_abstracts {v w : Vocabulary} {source : String} {query : Tree}
    (hchange : Parser.java.change v source "->" = .ok (w, change))
    (hplain : change.isPlain .default = true) (habstracts : query.Abstracts change rs)
    (hconsistent : Consistent rs) :
    ∃ abstraction, Change.ofTree query "->" = .ok abstraction ∧
      Comparison.changesMatch .default abstraction change = true ∧
      aligns .default (TokenSides.ofTree query "->") (TokenSides.ofTree change.tree "->") =
        true := by
  obtain ⟨root, old, new, hroot, -, hold, hnew, hsplits, holdSide, hnewSide, -, -⟩ :=
    exists_splits_of_change hchange
  obtain ⟨root', root'', hroot', hroot'', h⟩ := habstracts
  obtain rfl := Option.some.inj (hroot.symm.trans hroot'')
  have holdNodes := ofSide_of_isSide holdSide
  have hnewNodes := ofSide_of_isSide hnewSide
  obtain ⟨old', new', rsOld, rsNew, hsplits', rfl, holdAbstracts, hnewAbstracts⟩ :=
    exists_splits_of_abstracts hsplits hold hnew holdNodes hnewNodes h
  rw [hold] at holdAbstracts
  rw [hnew] at hnewAbstracts
  have holdPlain := isPlain_of_mem_children hplain hroot hsplits.old_mem_children holdNodes
  have hnewPlain := isPlain_of_mem_children hplain hroot hsplits.new_mem_children hnewNodes
  refine ⟨_, hsplits'.change hroot', ?_, ?_⟩
  · -- Both sides match, one after the other.
    rw [Comparison.changesMatch_iff, hold, hnew]
    constructor
    · refine holdAbstracts.matches_of_mem_zip ?_ ?_ _ (List.mem_singleton_self _)
      · exact fun c hc => List.mem_singleton.mp hc ▸ holdNodes
      · exact fun c hc => List.mem_singleton.mp hc ▸ holdPlain
    · refine hnewAbstracts.matches_of_mem_zip ?_ ?_ _ (List.mem_singleton_self _)
      · exact fun c hc => List.mem_singleton.mp hc ▸ hnewNodes
      · exact fun c hc => List.mem_singleton.mp hc ▸ hnewPlain
  · -- One choice serves both sides: each placeholder takes what it was put in the place of.
    obtain ⟨choice, hchoice⟩ := Alignment.exists_choice hconsistent
    rw [hsplits'.sides hroot', hsplits.sides hroot, Alignment.aligns_iff_exists_choice]
    refine ⟨choice, ?_, ?_⟩
    · have hcovers := holdAbstracts.covers (fun c hc => List.mem_singleton.mp hc ▸ holdNodes)
        (fun c hc => List.mem_singleton.mp hc ▸ holdPlain)
        fun r hr => hchoice r (List.mem_append_left _ hr)
      rwa [List.flatMap_singleton, List.flatMap_singleton] at hcovers
    · have hcovers := hnewAbstracts.covers (fun c hc => List.mem_singleton.mp hc ▸ hnewNodes)
        (fun c hc => List.mem_singleton.mp hc ▸ hnewPlain)
        fun r hr => hchoice r (List.mem_append_right _ hr)
      rwa [List.flatMap_singleton, List.flatMap_singleton] at hcovers

/-- The name in `x = 1; -> x = 2;` is replaced on both sides. -/
def samplePlan (id : ℕ) : Option String :=
  if id = 10 ∨ id = 29 then some (numberedText "ID" "1") else none

theorem sample_changesMatch :
    ∃ w change root, Parser.java.change ⟨0, []⟩ "x = 1; -> x = 2;" "->" = .ok (w, change) ∧
      change.tree.root? = some root ∧
      (root.replace samplePlan).labels.texts =
        ["ID<1>", "=", "1", ";", "->", "ID<1>", "=", "2", ";"] ∧
      ∃ abstraction, Change.ofTree ⟨some (root.replace samplePlan), 39⟩ "->" = .ok abstraction ∧
        Comparison.changesMatch .default abstraction change = true ∧
        aligns .default (TokenSides.ofTree ⟨some (root.replace samplePlan), 39⟩ "->")
          (TokenSides.ofTree change.tree "->") = true := by
  have hall : (Parser.java.change ⟨0, []⟩ "x = 1; -> x = 2;" "->").toOption.any (fun parsed =>
      parsed.2.isPlain .default && parsed.2.tree.root?.all fun root =>
        (root.replace samplePlan).labels.texts ==
            ["ID<1>", "=", "1", ";", "->", "ID<1>", "=", "2", ";"] &&
          (Site.below none root).all fun site => (samplePlan site.node.id).isNone ||
            site.node.isToken && site.node.label == "x" && site.node.labels.texts == ["x"]) =
      true := by decide +kernel
  obtain ⟨w, change, hchange, hall⟩ := Parser.exists_change_of_any hall
  obtain ⟨hplain, hroots⟩ := Bool.and_eq_true_iff.mp hall
  obtain ⟨root, old, new, hroot, -, hold, hnew, hsplits, -, -, -, -⟩ :=
    exists_splits_of_change hchange
  rw [hroot] at hroots
  obtain ⟨htexts, hsites⟩ := Bool.and_eq_true_iff.mp hroots
  -- Only tokens with the text `x` are replaced, and they stand inside a side.
  have hplan : ∀ site ∈ Site.below none root, ∀ text, samplePlan site.node.id = some text →
      site.node.labels.texts = ["x"] ∧ change.Inside site ∧ StandsFor text site := by
    intro site hsite text htext
    have hthis := List.all_eq_true.mp hsites site hsite
    simp only [htext, Option.isNone_some, Bool.false_or, Bool.and_eq_true, beq_iff_eq] at hthis
    obtain ⟨⟨htoken, hlabel⟩, hsingle⟩ := hthis
    obtain rfl : text = numberedText "ID" "1" := by
      unfold samplePlan at htext
      split_ifs at htext
      exact (Option.some.inj htext).symm
    refine ⟨hsingle, ?_, .identifier "1" htoken (by rw [hlabel]; decide)⟩
    have hmem : site.node ∈ root.preorder := by
      rw [← Site.map_node_below root none]
      exact List.mem_map_of_mem hsite
    rw [Change.Inside, hold, hnew]
    rcases hsplits.mem_preorder_cases hmem with heq | ⟨t, ht, hblank⟩ | harrow | hinside
    · rw [heq, hsplits.isToken_root] at htoken
      cases htoken
    · rw [ht, Rose.texts_leaf] at hsingle
      obtain rfl := (List.cons.inj hsingle).1
      exact absurd hblank (by decide)
    · rw [harrow, Rose.texts_leaf] at hsingle
      exact absurd hsingle (by decide)
    · exact hinside
  obtain ⟨rs, habstracts, hrs⟩ := abstracts_replace root none
    fun site hsite text htext => (hplan site hsite text htext).2
  refine ⟨w, change, root, hchange, hroot, beq_iff_eq.mp htexts, ?_⟩
  refine changesMatch_of_abstracts hchange hplain ⟨_, root, rfl, hroot, habstracts⟩ ?_
  intro a ha b hb _ _
  obtain ⟨site, hsite, htext, htokens⟩ := hrs a ha
  obtain ⟨site', hsite', htext', htokens'⟩ := hrs b hb
  rw [← htokens, ← htokens', (hplan site hsite _ htext).1, (hplan site' hsite' _ htext').1]

end ChangeQuery
