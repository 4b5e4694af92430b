import ChangeQuery.Proofs.Tree.Planting
import ChangeQuery.Proofs.Tree.Sites

/-!
## Links of a tree

A tree can be read as a table of nodes by number.  The *link* of a node says which number stands above
it and which numbers stand directly below it, from left to right.

`Tree.link?_add` says all that appending does to this table: the new node gets the next free number
and has nothing below it, the node above it gets one more child behind the others, and all other
links stay as they are.  From this follows what holds of the links of every tree that comes about by
appending (`Tree.Linked`): numbers are positions, a node stands below a smaller number, and it occurs
once, among the children of the node above it.
-/

namespace ChangeQuery

/-- How a node is tied to others: the numbers of the node above it and of those directly below. -/
structure Link where
  id : ℕ
  label : Label
  parent? : Option ℕ
  children : List ℕ
  deriving DecidableEq, Repr

/-- Takes in a child, if its parent is the node with this link. -/
def Link.adopt (parent? : Option ℕ) (child : ℕ) (l : Link) : Link :=
  if parent? = some l.id then { l with children := l.children ++ [child] } else l

@[simp] theorem Link.id_adopt (parent? : Option ℕ) (child : ℕ) (l : Link) :
    (l.adopt parent? child).id = l.id := by
  unfold adopt; split_ifs <;> rfl

@[simp] theorem Link.parent?_adopt (parent? : Option ℕ) (child : ℕ) (l : Link) :
    (l.adopt parent? child).parent? = l.parent? := by
  unfold adopt; split_ifs <;> rfl

theorem Link.children_adopt (parent? : Option ℕ) (child : ℕ) (l : Link) :
    (l.adopt parent? child).children =
      l.children ++ if parent? = some l.id then [child] else [] := by
  unfold adopt
  split_ifs
  · rfl
  · exact (List.append_nil _).symm

namespace Node

mutual
/-- The links of a node below the number `above?` and of everything below it, in pre-order. -/
def links (above? : Option ℕ) : Node → List Link
  | .node entry children =>
    ⟨entry.id, entry.category.label, above?, children.map id⟩ :: linksAll entry.id children
/-- The links of nodes directly below the number `above` and of everything below them. -/
def linksAll (above : ℕ) : List Node → List Link
  | [] => []
  | child :: children => links (some above) child ++ linksAll above children
end

theorem links_node (above? : Option ℕ) (entry : Entry) (cs : List Node) :
    links above? (.node entry cs) =
      ⟨entry.id, entry.category.label, above?, cs.map id⟩ :: cs.flatMap (links (some entry.id)) := by
  have hall : linksAll entry.id cs = cs.flatMap (links (some entry.id)) := by
    induction cs with
    | nil => rfl
    | cons c cs ih => rw [linksAll, ih, List.flatMap_cons]
  rw [links, hall]

/-! ### Links after appending -/

@[simp] theorem id_graft (parent : ℕ) (new n : Node) : (graft parent new n).id = n.id := by
  cases n
  rw [graft_node]
  rfl

/-- **The links after appending a leaf**: the old links, where the node above the leaf has taken it
in, and the link of the leaf. -/
theorem mem_links_graft_iff {parent : ℕ} {new : Entry} {n : Node} {l : Link} :
    ∀ {above? : Option ℕ}, l ∈ (graft parent (.leaf new) n).links above? ↔
      (∃ old ∈ n.links above?, l = old.adopt (some parent) new.id) ∨
        parent ∈ n.ids ∧ l = ⟨new.id, new.category.label, some parent, []⟩ := by
  induction n using Rose.induct with
  | node entry cs ih =>
    intro above?
    have hchildren : (cs.map (graft parent (.leaf new))).map id = cs.map id := by
      rw [List.map_map]
      exact List.map_congr_left fun c _ => id_graft parent _ c
    -- What comes of the links below the children, whether the leaf stands there or not.
    have hbelow : l ∈ (cs.map (graft parent (.leaf new))).flatMap (links (some entry.id)) ↔
        (∃ old ∈ cs.flatMap (links (some entry.id)), l = old.adopt (some parent) new.id) ∨
        parent ∈ cs.flatMap ids ∧ l = ⟨new.id, new.category.label, some parent, []⟩ := by
      simp only [List.mem_flatMap, List.mem_map]
      constructor
      · rintro ⟨_, ⟨c, hc, rfl⟩, hl⟩
        rcases (ih c hc).mp hl with ⟨old, hold, rfl⟩ | ⟨hmem, rfl⟩
        · exact .inl ⟨old, ⟨c, hc, hold⟩, rfl⟩
        · exact .inr ⟨⟨c, hc, hmem⟩, rfl⟩
      · rintro (⟨old, ⟨c, hc, hold⟩, rfl⟩ | ⟨⟨c, hc, hmem⟩, rfl⟩)
        · exact ⟨_, ⟨c, hc, rfl⟩, (ih c hc).mpr (.inl ⟨old, hold, rfl⟩)⟩
        · exact ⟨_, ⟨c, hc, rfl⟩, (ih c hc).mpr (.inr ⟨hmem, rfl⟩)⟩
    rw [graft_node, links_node, links_node, ids_node, List.exists_mem_cons_iff, List.mem_cons,
      List.mem_cons]
    by_cases hentry : entry.id = parent
    · subst hentry
      have hadopt : Link.adopt (some entry.id) new.id
          ⟨entry.id, entry.category.label, above?, cs.map id⟩ =
          ⟨entry.id, entry.category.label, above?, cs.map id ++ [new.id]⟩ := if_pos rfl
      have hnew : links (some entry.id) (.leaf new) =
          [⟨new.id, new.category.label, some entry.id, []⟩] := rfl
      have hids : (cs.map (graft entry.id (.leaf new)) ++ [Rose.leaf new]).map id =
          cs.map id ++ [new.id] := by
        rw [List.map_append, hchildren]
        rfl
      rw [if_pos rfl, hids, List.flatMap_append, List.mem_append, hbelow, List.flatMap_singleton,
        hnew, List.mem_singleton, hadopt, and_iff_right (Or.inl rfl), or_assoc, or_assoc,
        or_iff_right_of_imp And.right]
    · have hadopt : Link.adopt (some parent) new.id
          ⟨entry.id, entry.category.label, above?, cs.map id⟩ =
          ⟨entry.id, entry.category.label, above?, cs.map id⟩ :=
        if_neg fun h => hentry (Option.some.inj h).symm
      rw [if_neg hentry, hchildren, hbelow, hadopt, or_iff_right (Ne.symm hentry), or_assoc]

end Node

/-- The link of the node at a site. -/
def Site.link (s : Site) : Link :=
  ⟨s.node.id, s.node.category.label, s.parent?.map Node.id, s.node.children.map Node.id⟩

theorem Site.map_link_below (n : Node) : ∀ parent? : Option Node,
    (below parent? n).map link = n.links (parent?.map Node.id) := by
  induction n using Rose.induct with
  | node entry cs ih =>
    intro parent?
    rw [below_node, Node.links_node, List.map_cons, List.map_flatMap]
    exact congrArg _ (List.flatMap_congr fun c hc => ih c hc _)

namespace Tree

/-- The links of the nodes in pre-order. -/
def links (t : Tree) : List Link :=
  t.sites.map Site.link

/-- The link of the node with number `id`. -/
def link? (t : Tree) (id : ℕ) : Option Link :=
  (t.site? id).map Site.link

theorem links_of_root {t : Tree} {root : Node} (h : t.root? = some root) :
    t.links = root.links none := by
  rw [links, sites, h]
  exact Site.map_link_below root none

theorem links_of_none {t : Tree} (h : t.root? = none) : t.links = [] := by
  rw [links, sites, h]
  rfl

variable {t t' : Tree} {i : ℕ} {l : Link} {category : Category} {parent? : Option ℕ}

theorem map_id_sites (t : Tree) : t.sites.map (fun s => s.node.id) = t.ids := by
  rw [sites, ids]
  cases t.root? with
  | none => rfl
  | some root =>
    dsimp only
    rw [Node.ids, ← Site.map_node_below root none, List.map_map]
    rfl

/-- **The site of a number** is the only one among the sites of the tree. -/
theorem site?_eq_some_iff (h : t.ids.Perm (List.range t.size)) {s : Site} :
    t.site? i = some s ↔ s ∈ t.sites ∧ s.node.id = i := by
  have hnodup : (t.sites.map fun s => s.node.id).Nodup := by
    rw [map_id_sites]
    exact h.nodup_iff.mpr List.nodup_range
  have hfound : ∀ {found : Site}, t.site? i = some found →
      found ∈ t.sites ∧ found.node.id = i := by
    intro found hfind
    have hid := List.find?_some hfind
    exact ⟨List.mem_of_find?_eq_some hfind, beq_iff_eq.mp hid⟩
  refine ⟨hfound, ?_⟩
  rintro ⟨hmem, rfl⟩
  have hsome : (t.site? s.node.id).isSome := by
    rw [site?, List.find?_isSome]
    exact ⟨s, hmem, beq_self_eq_true s.node.id⟩
  obtain ⟨found, hfind⟩ := Option.isSome_iff_exists.mp hsome
  obtain ⟨hmem', hid⟩ := hfound hfind
  rw [hfind, List.inj_on_of_nodup_map hnodup hmem' hmem hid]

theorem isSome_site?_iff (h : t.ids.Perm (List.range t.size)) :
    (t.site? i).isSome ↔ i < t.size := by
  rw [site?, List.find?_isSome, ← List.mem_range, ← h.mem_iff, ← map_id_sites, List.mem_map]
  simp only [beq_iff_eq]

/-- **The link of a number** is the only one among the links of the tree. -/
theorem link?_eq_some_iff (h : t.ids.Perm (List.range t.size)) :
    t.link? i = some l ↔ l ∈ t.links ∧ l.id = i := by
  rw [link?, Option.map_eq_some_iff, links, List.mem_map]
  simp only [site?_eq_some_iff h]
  constructor
  · rintro ⟨s, ⟨hs, hid⟩, rfl⟩
    exact ⟨⟨s, hs, rfl⟩, hid⟩
  · rintro ⟨⟨s, hs, rfl⟩, hid⟩
    exact ⟨s, ⟨hs, hid⟩, rfl⟩

theorem isSome_link?_iff (h : t.ids.Perm (List.range t.size)) :
    (t.link? i).isSome ↔ i < t.size := by
  rw [link?, Option.isSome_map, isSome_site?_iff h]

/-! ### What appending does -/

/-- Why a node is refused below `parent?`. -/
inductive Refuses (t : Tree) : Option ℕ → TreeError → Prop
  | unknownParent {parent : ℕ} (h : t.size ≤ parent) :
    Refuses t (some parent) (.unknownParent parent t.size)
  | duplicateRoot {root : Node} (h : t.root? = some root) :
    Refuses t none (.duplicateRoot root.id)

theorem add_eq_error_iff {cause : TreeError} :
    t.add category parent? = .error cause ↔ t.Refuses parent? cause := by
  obtain ⟨root?, size⟩ := t
  constructor
  · intro h
    cases parent? with
    | none =>
      cases root? with
      | none => cases h
      | some root =>
        obtain rfl := Except.error.inj h
        exact .duplicateRoot rfl
    | some parent =>
      simp only [add] at h
      split_ifs at h with hparent
      obtain rfl := Except.error.inj h
      exact .unknownParent (Nat.not_lt.mp hparent)
  · intro h
    cases h with
    | unknownParent h => simp only [add, if_neg (Nat.not_lt.mpr h)]
    | duplicateRoot h =>
      cases h
      rfl

/-- A node that is accepted goes below a node of the tree, or becomes the root of an empty tree. -/
theorem of_add_eq_ok (h : t.ids.Perm (List.range t.size)) (hadd : t.add category parent? = .ok t') :
    t'.size = t.size + 1 ∧ (parent? = none → t.size = 0) ∧ ∀ p ∈ parent?, p < t.size := by
  obtain ⟨root?, size⟩ := t
  cases parent? with
  | none =>
    cases root? with
    | none =>
      obtain rfl := Except.ok.inj hadd
      have hlength : 0 = size := by simpa [ids] using h.length_eq
      exact ⟨rfl, fun _ => hlength.symm, fun p hp => absurd hp (Option.not_mem_none p)⟩
    | some root => cases hadd
  | some parent =>
    simp only [add] at hadd
    split_ifs at hadd with hparent
    obtain rfl := Except.ok.inj hadd
    exact ⟨rfl, fun hnone => absurd hnone (Option.some_ne_none parent),
      fun p hp => Option.some.inj hp ▸ hparent⟩

/-- The links of the tree after appending. -/
theorem mem_links_add_iff (h : t.ids.Perm (List.range t.size))
    (hadd : t.add category parent? = .ok t') :
    l ∈ t'.links ↔ (∃ old ∈ t.links, l = old.adopt parent? t.size) ∨
      l = ⟨t.size, category.label, parent?, []⟩ := by
  obtain ⟨root?, size⟩ := t
  cases parent? with
  | none =>
    cases root? with
    | none =>
      obtain rfl := Except.ok.inj hadd
      rw [links_of_none (t := ⟨none, size⟩) rfl]
      show l ∈ [Link.mk size category.label none []] ↔ _
      rw [List.mem_singleton, iff_or_self]
      exact fun ⟨old, hold, _⟩ => nomatch hold
    | some root => cases hadd
  | some parent =>
    simp only [add] at hadd
    split_ifs at hadd with hparent
    obtain rfl := Except.ok.inj hadd
    cases root? with
    | none =>
      have hlength : 0 = size := by simpa [ids] using h.length_eq
      omega
    | some root =>
      have hmem : parent ∈ Node.ids root := h.mem_iff.mpr (List.mem_range.mpr hparent)
      rw [links_of_root (t := ⟨some root, size⟩) rfl, links_of_root (Option.map_some ..),
        Node.mem_links_graft_iff, and_iff_right hmem]

/-- **What appending does to the links**: the new node has the next free number and nothing below
it, its parent takes it in behind its other children, and nothing else changes. -/
theorem link?_add (h : t.ids.Perm (List.range t.size)) (hadd : t.add category parent? = .ok t')
    (i : ℕ) :
    t'.link? i = if i = t.size then some ⟨t.size, category.label, parent?, []⟩
      else (t.link? i).map (Link.adopt parent? t.size) := by
  have hsize : t.link? t.size = none := by
    rw [← Option.not_isSome_iff_eq_none, isSome_link?_iff h]
    exact Nat.lt_irrefl _
  ext l
  rw [link?_eq_some_iff (perm_ids_add h hadd), mem_links_add_iff h hadd]
  constructor
  · rintro ⟨⟨old, hold, rfl⟩ | rfl, rfl⟩
    · have hlink : t.link? old.id = some old := (link?_eq_some_iff h).mpr ⟨hold, rfl⟩
      have hne : old.id ≠ t.size := by
        intro heq
        rw [heq, hsize] at hlink
        cases hlink
      rw [Link.id_adopt, if_neg hne, hlink]
      rfl
    · exact if_pos rfl
  · intro hl
    split_ifs at hl with hi
    · obtain rfl := Option.some.inj hl
      exact ⟨.inr rfl, hi.symm⟩
    · obtain ⟨old, hold, rfl⟩ := Option.map_eq_some_iff.mp hl
      obtain ⟨hmem, rfl⟩ := (link?_eq_some_iff h).mp hold
      exact ⟨.inl ⟨old, hmem, rfl⟩, Link.id_adopt ..⟩

/-! ### What holds of all links -/

/-- The invariant of the links: numbers are positions, the root is the node with number 0, every other
node stands below a smaller number, and exactly the nodes below a number are its children. -/
structure Linked (t : Tree) : Prop where
  isSome_iff : ∀ i, (t.link? i).isSome ↔ i < t.size
  id_eq : ∀ i l, t.link? i = some l → l.id = i
  parent?_eq_none_iff : ∀ i l, t.link? i = some l → (l.parent? = none ↔ i = 0)
  parent_lt : ∀ i l, t.link? i = some l → ∀ p ∈ l.parent?, p < i
  mem_children_iff : ∀ p l, t.link? p = some l → ∀ i,
    i ∈ l.children ↔ ∃ c, t.link? i = some c ∧ c.parent? = some p
  ascending : ∀ p l, t.link? p = some l → l.children.Pairwise (· < ·)

theorem Linked.lt_size (h : t.Linked) (hl : t.link? i = some l) : i < t.size :=
  (h.isSome_iff i).mp (hl ▸ rfl)

theorem linked_empty : Linked .empty where
  isSome_iff _ := ⟨nofun, nofun⟩
  id_eq := nofun
  parent?_eq_none_iff := nofun
  parent_lt := nofun
  mem_children_iff := nofun
  ascending := nofun

/-- The links after appending, one by one. -/
theorem link?_add_cases (h : t.ids.Perm (List.range t.size))
    (hadd : t.add category parent? = .ok t') (hl : t'.link? i = some l) :
    (i = t.size ∧ l = ⟨t.size, category.label, parent?, []⟩) ∨
      ∃ old, t.link? i = some old ∧ l = old.adopt parent? t.size := by
  rw [link?_add h hadd] at hl
  split_ifs at hl with hi
  · exact .inl ⟨hi, (Option.some.inj hl).symm⟩
  · obtain ⟨old, hold, heq⟩ := Option.map_eq_some_iff.mp hl
    exact .inr ⟨old, hold, heq.symm⟩

theorem link?_add_new (h : t.ids.Perm (List.range t.size))
    (hadd : t.add category parent? = .ok t') :
    t'.link? t.size = some ⟨t.size, category.label, parent?, []⟩ := by
  rw [link?_add h hadd, if_pos rfl]

namespace Linked

variable (h : t.Linked) (hids : t.ids.Perm (List.range t.size))
  (hadd : t.add category parent? = .ok t')
include h hids hadd

theorem link?_add_old (hl : t.link? i = some l) :
    t'.link? i = some (l.adopt parent? t.size) := by
  rw [link?_add hids hadd, if_neg (Nat.ne_of_lt (h.lt_size hl)), hl]
  rfl

/-- A parent stands before its children after appending. -/
theorem parent_lt_add (hl : t'.link? i = some l) : ∀ p ∈ l.parent?, p < i := by
  obtain ⟨-, -, hparent⟩ := of_add_eq_ok hids hadd
  rcases link?_add_cases hids hadd hl with ⟨rfl, rfl⟩ | ⟨old, hlink, rfl⟩
  · exact hparent
  · rw [Link.parent?_adopt]
    exact h.parent_lt i old hlink

/-- Lists of children and parents belong together after appending. -/
theorem mem_children_add_iff {p : ℕ} (hl : t'.link? p = some l) :
    i ∈ l.children ↔ ∃ c, t'.link? i = some c ∧ c.parent? = some p := by
  rcases link?_add_cases hids hadd hl with ⟨rfl, rfl⟩ | ⟨old, hlink, rfl⟩
  · -- Nothing stands below the new node, since all numbers are at most its own.
    refine ⟨fun hi => absurd hi List.not_mem_nil, ?_⟩
    rintro ⟨c, hc, hcparent⟩
    have hlt : i < t.size + 1 := by
      rw [← (of_add_eq_ok hids hadd).1, ← isSome_link?_iff (perm_ids_add hids hadd), hc]
      rfl
    have habove := h.parent_lt_add hids hadd hc t.size hcparent
    omega
  · rw [Link.children_adopt, h.id_eq p old hlink, List.mem_append, h.mem_children_iff p old hlink]
    constructor
    · rintro (⟨c, hc, hcparent⟩ | hi)
      · exact ⟨_, h.link?_add_old hids hadd hc, by rw [Link.parent?_adopt]; exact hcparent⟩
      · split_ifs at hi with hp
        · obtain rfl := List.mem_singleton.mp hi
          exact ⟨_, link?_add_new hids hadd, hp⟩
        · exact absurd hi List.not_mem_nil
    · rintro ⟨c, hc, hcparent⟩
      rcases link?_add_cases hids hadd hc with ⟨rfl, rfl⟩ | ⟨old', hlink', rfl⟩
      · exact .inr (by rw [if_pos hcparent]; exact List.mem_singleton_self _)
      · rw [Link.parent?_adopt] at hcparent
        exact .inl ⟨old', hlink', hcparent⟩

/-- A new child is the greatest one. -/
theorem ascending_add {p : ℕ} (hl : t'.link? p = some l) : l.children.Pairwise (· < ·) := by
  rcases link?_add_cases hids hadd hl with ⟨rfl, rfl⟩ | ⟨old, hlink, rfl⟩
  · exact List.Pairwise.nil
  · rw [Link.children_adopt, List.pairwise_append]
    refine ⟨h.ascending p old hlink, by split_ifs <;> simp, fun c hc new hnew => ?_⟩
    obtain ⟨child, hchild, -⟩ := (h.mem_children_iff p old hlink c).mp hc
    split_ifs at hnew
    · obtain rfl := List.mem_singleton.mp hnew
      exact h.lt_size hchild
    · exact absurd hnew List.not_mem_nil

/-- **Appending keeps the invariant**. -/
theorem add : t'.Linked := by
  obtain ⟨-, hroot, hparent⟩ := of_add_eq_ok hids hadd
  refine
    { isSome_iff := fun i => isSome_link?_iff (perm_ids_add hids hadd)
      id_eq := fun i l hl => ?_
      parent?_eq_none_iff := fun i l hl => ?_
      parent_lt := fun i l hl => h.parent_lt_add hids hadd hl
      mem_children_iff := fun p l hl i => h.mem_children_add_iff hids hadd hl
      ascending := fun p l hl => h.ascending_add hids hadd hl }
  · rcases link?_add_cases hids hadd hl with ⟨rfl, rfl⟩ | ⟨old, hlink, rfl⟩
    · rfl
    · rw [Link.id_adopt, h.id_eq i old hlink]
  · rcases link?_add_cases hids hadd hl with ⟨rfl, rfl⟩ | ⟨old, hlink, rfl⟩
    · -- The new node has number 0 only in an empty tree, where nothing can stand above it.
      refine ⟨hroot, fun hzero => Option.eq_none_iff_forall_not_mem.mpr fun p hp => ?_⟩
      have hlt := hparent p hp
      omega
    · rw [Link.parent?_adopt, h.parent?_eq_none_iff i old hlink]

end Linked

/-- **The links of a grown tree** keep the invariant. -/
theorem Grown.linked {v : Vocabulary} (h : t.Grown v) : t.Linked := by
  induction h with
  | empty => exact linked_empty
  | insert _ _ ih => exact ih
  | token h hadd ih => exact ih.add h.perm_ids hadd
  | construct h hadd ih => exact ih.add h.perm_ids (Prod.mk.inj hadd).2

/-- The root of a grown tree is the node with number 0, and only the empty tree has none. -/
theorem Grown.map_id_root? {v : Vocabulary} (h : t.Grown v) :
    t.root?.map Node.id = if t.isEmpty then none else some 0 := by
  split_ifs with hempty
  · rw [Option.map_eq_none_iff, Option.eq_none_iff_forall_ne_some]
    intro root hroot
    have hlength := h.perm_ids.length_eq
    rw [ids, hroot, List.length_range, beq_iff_eq.mp hempty] at hlength
    have hpos := Rose.size_pos root
    rw [Node.length_ids] at hlength
    omega
  · obtain ⟨root, hroot, -⟩ := h.exists_root (Bool.not_eq_true _ ▸ hempty)
    have hmem : ⟨root, none⟩ ∈ t.sites := by
      rw [sites, hroot]
      cases root
      exact List.mem_cons_self
    have hlink : t.link? (Node.id root) = some (Site.link ⟨root, none⟩) := by
      rw [link?, (site?_eq_some_iff h.perm_ids).mpr ⟨hmem, rfl⟩]
      rfl
    rw [hroot, Option.map_some, (h.linked.parent?_eq_none_iff _ _ hlink).mp rfl]

/-! ### Trees from additions -/

/-- A node to be appended: what it says, and the number it goes below. -/
structure Addition where
  label : Label
  parent? : Option ℕ

/-- Appends a node.  A node that is refused leaves the tree as it was. -/
def attempt (s : Vocabulary × Tree) (a : Addition) : Vocabulary × Tree :=
  match s.2.addLabel s.1 a.label a.parent? with
  | (v, .ok t) => (v, t)
  | (v, .error _) => (v, s.2)

/-- Appends nodes one after another. -/
def attemptAll (s : Vocabulary × Tree) (additions : List Addition) : Vocabulary × Tree :=
  additions.foldl attempt s

/-- The tree that additions make of the empty one. -/
def ofAdditions (v : Vocabulary) (additions : List Addition) : Tree :=
  (attemptAll (v, .empty) additions).2

/-- What comes of one more node: it is refused for a reason and the tree stays as it was, or there is
no reason to refuse it and it gets the next free number below its parent. -/
def Answers (t : Tree) (v : Vocabulary) (a : Addition) : Prop :=
  match (t.addLabel v a.label a.parent?).2 with
  | .error cause => t.Refuses a.parent? cause ∧ (attempt (v, t) a).2 = t
  | .ok t' => (∀ cause, ¬ t.Refuses a.parent? cause) ∧ (attempt (v, t) a).2 = t' ∧
      t'.size = t.size + 1 ∧
      ∀ i, t'.link? i = if i = t.size then some ⟨t.size, a.label, a.parent?, []⟩
        else (t.link? i).map (Link.adopt a.parent? t.size)

theorem snd_attempt (v : Vocabulary) (t : Tree) (a : Addition) :
    (attempt (v, t) a).2 =
      match (t.addLabel v a.label a.parent?).2 with | .ok t' => t' | .error _ => t := by
  unfold attempt
  cases t.addLabel v a.label a.parent? with
  | mk w outcome => cases outcome <;> rfl

theorem answers (h : t.ids.Perm (List.range t.size)) (v : Vocabulary) (a : Addition) :
    t.Answers v a := by
  have hadd := congrArg Prod.snd (addLabel_eq t v a.label a.parent?)
  rw [Answers, snd_attempt]
  cases hout : (t.addLabel v a.label a.parent?).2 with
  | error cause => exact ⟨add_eq_error_iff.mp (hadd.symm.trans hout), rfl⟩
  | ok t' =>
    have hok := hadd.symm.trans hout
    refine ⟨fun cause hrefuses => ?_, rfl, (of_add_eq_ok h hok).1, fun i => ?_⟩
    · rw [add_eq_error_iff.mpr hrefuses] at hok
      cases hok
    · rw [link?_add h hok, Vocabulary.label_category]

theorem Grown.attempt {v : Vocabulary} (h : t.Grown v) (a : Addition) :
    (attempt (v, t) a).2.Grown (attempt (v, t) a).1 := by
  obtain ⟨label, parent?⟩ := a
  unfold Tree.attempt
  split
  · rename_i hadd
    exact h.addLabel hadd
  · rename_i hadd
    cases label with
    | token text =>
      obtain ⟨rfl, -⟩ := Prod.mk.inj hadd
      exact h
    | construct name =>
      obtain ⟨rfl, -⟩ := Prod.mk.inj hadd
      exact .insert name h

/-- **Additions make grown trees**, whether they are accepted or refused. -/
theorem Grown.attemptAll (additions : List Addition) : ∀ {s : Vocabulary × Tree}, s.2.Grown s.1 →
    (attemptAll s additions).2.Grown (attemptAll s additions).1 := by
  induction additions with
  | nil => exact fun h => h
  | cons a additions ih => exact fun h => ih (h.attempt a)

end Tree

end ChangeQuery
