import ChangeQuery.Proofs.Tree.Growth

/-!
## Trees built node by node

`Tree.ofLabels` numbers a whole tree of labels at once.  `Tree.plant` builds the same tree by
appending one node at a time: first a node, then everything below it, from left to right.

`Tree.plant_eq_ofLabels` says that both come to the same.  So appending in this order is never
refused, the tree made from labels is a grown tree, and its numbers are the positions in pre-order.

The proof looks at a subtree planted below any node of a tree.  Its nodes go below its root, and
they cannot be told from nodes that were there when the root itself was appended
(`Node.graft_graft`).
-/

namespace ChangeQuery

/-! ### Growing vocabularies -/

namespace Vocabulary

/-- The vocabulary at an earlier and at a later time. -/
def GrowsTo (v w : Vocabulary) : Prop :=
  v.owner = w.owner ∧ v.names <+: w.names

theorem GrowsTo.trans {u v w : Vocabulary} (h : u.GrowsTo v) (h' : v.GrowsTo w) : u.GrowsTo w :=
  ⟨h.1.trans h'.1, h.2.trans h'.2⟩

theorem growsTo_insertMany (v : Vocabulary) (names : List String) :
    v.GrowsTo (v.insertMany names) := by
  obtain ⟨added, hadded⟩ := v.names_insertMany_eq_append names
  exact ⟨(v.owner_insertMany names).symm, added, hadded.symm⟩

theorem insertMany_append (v : Vocabulary) (names names' : List String) :
    v.insertMany (names ++ names') = (v.insertMany names).insertMany names' :=
  List.foldl_append

/-- A label whose name is listed keeps its category. -/
theorem GrowsTo.category_eq {v w : Vocabulary} (h : v.GrowsTo w) {label : Label}
    (hlisted : ∀ name ∈ label.construct?, name ∈ v.names) :
    w.category label = v.category label := by
  cases label with
  | token text => rfl
  | construct name =>
    obtain ⟨added, hadded⟩ := h.2
    have hidx := idxOf_append (hlisted name rfl) added
    rw [hadded] at hidx
    simp only [category, symbol, h.1, hidx]

end Vocabulary

/-! ### Numbered trees -/

namespace Node

/-- A tree of labels with numbers from `start` on, over a vocabulary that lists its names. -/
def numbered (w : Vocabulary) (start : ℕ) (labels : Rose Label) : Node :=
  (labels.number start).map fun entry => ⟨entry.1, w.category entry.2⟩

/-- Trees of labels numbered one after another. -/
def numberedAll (w : Vocabulary) : ℕ → List (Rose Label) → List Node
  | _, [] => []
  | start, c :: cs => numbered w start c :: numberedAll w (start + c.size) cs

theorem numbered_node (w : Vocabulary) (start : ℕ) (label : Label) (cs : List (Rose Label)) :
    numbered w start (.node label cs) =
      .node ⟨start, w.category label⟩ (numberedAll w (start + 1) cs) := by
  have hcs : ∀ start, (Rose.numberAll start cs).map
      (Rose.map fun entry => ⟨entry.1, w.category entry.2⟩) = numberedAll w start cs := by
    induction cs with
    | nil => exact fun _ => rfl
    | cons c cs ih =>
      intro start
      rw [Rose.numberAll, List.map_cons, ih, numberedAll, numbered]
  rw [numbered, Rose.number, Rose.map_node, hcs]

/-- The numbers count up. -/
theorem ids_numbered (w : Vocabulary) (start : ℕ) (labels : Rose Label) :
    (numbered w start labels).ids = List.range' start labels.size := by
  rw [ids, numbered, Rose.preorder_map, ← Rose.values_number start labels, Rose.values,
    List.map_map, List.map_map]
  exact List.map_congr_left fun n _ => by rw [Function.comp, id, Rose.value_map]; rfl

theorem le_of_mem_ids_numberedAll {w : Vocabulary} {cs : List (Rose Label)} :
    ∀ {start : ℕ} {n : Node}, n ∈ numberedAll w start cs → ∀ i ∈ n.ids, start ≤ i := by
  induction cs with
  | nil => exact fun h => absurd h List.not_mem_nil
  | cons c cs ih =>
    intro start n hn i hi
    rcases List.mem_cons.mp hn with rfl | hn
    · rw [ids_numbered, List.mem_range'_1] at hi
      exact hi.1
    · have hle := ih hn i hi
      omega

/-! ### Appending one after another -/

/-- Below a node that occurs only in what was appended, the new nodes could have been there
before. -/
theorem foldl_graft_graft {p q : ℕ} {n : Node} (h : q ∉ n.ids) (news : List Node) : ∀ x : Node,
    news.foldl (fun n new => graft q new n) (graft p x n) =
      graft p (news.foldl (fun n new => graft q new n) x) n := by
  induction news with
  | nil => exact fun _ => rfl
  | cons new news ih =>
    intro x
    rw [List.foldl_cons, List.foldl_cons, graft_graft x new h, ih]

/-- Nodes appended one after another below a root stand there in this order. -/
theorem foldl_graft_node (entry : Entry) (news : List Node) : ∀ cs : List Node,
    (∀ c ∈ cs, entry.id ∉ ids c) → (∀ new ∈ news, entry.id ∉ ids new) →
      news.foldl (fun n new => graft entry.id new n) (.node entry cs) =
        .node entry (cs ++ news) := by
  induction news with
  | nil => exact fun cs _ _ => by rw [List.append_nil]; rfl
  | cons new news ih =>
    intro cs hcs hnews
    have hkept : cs.map (graft entry.id new) = cs :=
      (List.map_congr_left fun c hc => graft_of_notMem new (hcs c hc)).trans cs.map_id
    have hnext : ∀ c ∈ cs ++ [new], entry.id ∉ ids c := by
      intro c hc
      rcases List.mem_append.mp hc with hc | hc
      · exact hcs c hc
      · rw [List.mem_singleton.mp hc]
        exact hnews new List.mem_cons_self
    rw [List.foldl_cons, graft_node, if_pos rfl, hkept,
      ih _ hnext fun new' hnew' => hnews new' (List.mem_cons_of_mem new hnew'),
      List.append_assoc, List.singleton_append]

/-- The numbers of a node appended below another one come from one of the two. -/
theorem mem_ids_graft {parent i : ℕ} {new n : Node} (h : i ∈ (graft parent new n).ids) :
    i ∈ n.ids ∨ i ∈ new.ids := by
  have hcount := count_ids_graft parent new n i
  have hpos := List.count_pos_iff.mpr h
  by_contra hnone
  rw [not_or] at hnone
  rw [List.count_eq_zero.mpr hnone.1, List.count_eq_zero.mpr hnone.2] at hcount
  omega

end Node

/-! ### Planting -/

namespace Tree

/-- Appends a node with a label. -/
def addLabel (t : Tree) (v : Vocabulary) (label : Label) (parent? : Option ℕ) :
    Vocabulary × Except TreeError Tree :=
  match label with
  | .construct name => t.addConstruct v name parent?
  | .token text => (v, t.addToken text parent?)

mutual
/-- Appends a tree of labels node by node: its root below `parent?`, then what stands below it. -/
def plant (v : Vocabulary) (t : Tree) (parent? : Option ℕ) :
    Rose Label → Vocabulary × Except TreeError Tree
  | .node label children =>
    match t.addLabel v label parent? with
    | (v, .error cause) => (v, .error cause)
    | (v, .ok grown) => plantAll v grown t.size children
/-- Appends trees of labels below the node with number `parent`, one after another. -/
def plantAll (v : Vocabulary) (t : Tree) (parent : ℕ) :
    List (Rose Label) → Vocabulary × Except TreeError Tree
  | [] => (v, .ok t)
  | child :: children =>
    match plant v t (some parent) child with
    | (v, .error cause) => (v, .error cause)
    | (v, .ok grown) => plantAll v grown parent children
end

theorem addLabel_eq (t : Tree) (v : Vocabulary) (label : Label) (parent? : Option ℕ) :
    t.addLabel v label parent? = (v.insertMany label.construct?.toList,
      t.add ((v.insertMany label.construct?.toList).category label) parent?) := by
  cases label <;> rfl

theorem constructNames_node (label : Label) (cs : List (Rose Label)) :
    constructNames (.node label cs) = label.construct?.toList ++ cs.flatMap constructNames := by
  rw [constructNames, Rose.values_node, ← List.singleton_append, List.filterMap_append,
    List.filterMap_flatMap]
  cases label <;> rfl

/-- The category of a label does not change once its name is listed. -/
theorem category_of_growsTo {v w : Vocabulary} {label : Label} {names : List String}
    (h : (v.insertMany (label.construct?.toList ++ names)).GrowsTo w) :
    (v.insertMany label.construct?.toList).category label = w.category label := by
  rw [Vocabulary.insertMany_append] at h
  refine (((Vocabulary.growsTo_insertMany _ names).trans h).category_eq fun name hname => ?_).symm
  exact Vocabulary.mem_names_insertMany (Option.mem_toList.mpr hname) v

/-- Planting the labels below any node of a tree makes them its last subtree, with the next free
numbers.  The constructs are symbols of the later vocabulary `w`. -/
def PlantsBelow (w : Vocabulary) (labels : Rose Label) : Prop :=
  ∀ (v : Vocabulary) (root : Node) (size parent : ℕ),
    (v.insertMany (constructNames labels)).GrowsTo w → parent < size →
      (∀ i ∈ root.ids, i < size) →
      plant v ⟨some root, size⟩ (some parent) labels =
        (v.insertMany (constructNames labels),
          .ok ⟨some (Node.graft parent (Node.numbered w size labels) root), size + labels.size⟩)

theorem plantAll_below {w : Vocabulary} {cs : List (Rose Label)} (h : ∀ c ∈ cs, PlantsBelow w c) :
    ∀ (v : Vocabulary) (root : Node) (size parent : ℕ),
      (v.insertMany (cs.flatMap constructNames)).GrowsTo w → parent < size →
        (∀ i ∈ root.ids, i < size) →
        plantAll v ⟨some root, size⟩ parent cs =
          (v.insertMany (cs.flatMap constructNames),
            .ok ⟨some ((Node.numberedAll w size cs).foldl
              (fun n new => Node.graft parent new n) root), size + Rose.sizeAll cs⟩) := by
  induction cs with
  | nil => exact fun _ _ _ _ _ _ _ => rfl
  | cons c cs ih =>
    intro v root size parent hgrows hparent hids
    rw [List.flatMap_cons, Vocabulary.insertMany_append] at hgrows ⊢
    have hfirst := h c List.mem_cons_self v root size parent
      ((Vocabulary.growsTo_insertMany _ _).trans hgrows) hparent hids
    have hids' : ∀ i ∈ (Node.graft parent (Node.numbered w size c) root).ids,
        i < size + c.size := by
      intro i hi
      rcases Node.mem_ids_graft hi with hi | hi
      · have hlt := hids i hi
        omega
      · rw [Node.ids_numbered, List.mem_range'_1] at hi
        exact hi.2
    have hrest := ih (fun c' hc' => h c' (List.mem_cons_of_mem c hc')) _ _ (size + c.size) parent
      hgrows (by omega) hids'
    rw [plantAll, hfirst]
    dsimp only
    rw [hrest, Node.numberedAll, List.foldl_cons, Rose.sizeAll, Nat.add_assoc]

/-- What is planted below a new node stands below it, and it is the only subtree there. -/
theorem foldl_graft_numberedAll {w : Vocabulary} {size : ℕ} (category : Category)
    (cs : List (Rose Label)) :
    (Node.numberedAll w (size + 1) cs).foldl (fun n new => Node.graft size new n)
        (.leaf ⟨size, category⟩) =
      .node ⟨size, category⟩ (Node.numberedAll w (size + 1) cs) := by
  have hfresh : ∀ new ∈ Node.numberedAll w (size + 1) cs, size ∉ Node.ids new := by
    intro new hnew hmem
    have hle := Node.le_of_mem_ids_numberedAll hnew size hmem
    omega
  have hnode := Node.foldl_graft_node ⟨size, category⟩ (Node.numberedAll w (size + 1) cs) []
    (fun _ hc => absurd hc List.not_mem_nil) hfresh
  rwa [List.nil_append] at hnode

/-- **A tree planted below a node** becomes its last subtree. -/
theorem plantsBelow (w : Vocabulary) (labels : Rose Label) : PlantsBelow w labels := by
  induction labels using Rose.induct with
  | node label cs ih =>
    intro v root size parent hgrows hparent hids
    rw [constructNames_node] at hgrows ⊢
    have hcategory := category_of_growsTo hgrows
    rw [Vocabulary.insertMany_append] at hgrows ⊢
    have hids' : ∀ i ∈ (Node.graft parent (.leaf ⟨size, w.category label⟩) root).ids,
        i < size + 1 := by
      intro i hi
      rcases Node.mem_ids_graft hi with hi | hi
      · exact Nat.lt_succ_of_lt (hids i hi)
      · obtain rfl := List.mem_singleton.mp hi
        exact Nat.lt_succ_self _
    have hchildren := plantAll_below ih _ _ (size + 1) size hgrows (Nat.lt_succ_self size) hids'
    rw [plant, addLabel_eq, hcategory, add]
    simp only [if_pos hparent, Option.map_some]
    -- The children come below a node that the old tree does not have.
    rw [hchildren, Node.foldl_graft_graft fun hmem => Nat.lt_irrefl size (hids size hmem),
      foldl_graft_numberedAll, Node.numbered_node, Rose.size, Nat.add_assoc]

/-- **Node by node** the tree of labels is built that `ofLabels` numbers at once. -/
theorem plant_eq_ofLabels (v : Vocabulary) (labels : Rose Label) :
    plant v .empty none labels = ((ofLabels v labels).1, .ok (ofLabels v labels).2) := by
  obtain ⟨label, cs⟩ := labels
  have hofLabels : ofLabels v (.node label cs) =
      (v.insertMany (constructNames (.node label cs)),
        ⟨some (Node.numbered (v.insertMany (constructNames (.node label cs))) 0 (.node label cs)),
          (Rose.node label cs).size⟩) := rfl
  have hgrows : (v.insertMany (label.construct?.toList ++ cs.flatMap constructNames)).GrowsTo
      (v.insertMany (label.construct?.toList ++ cs.flatMap constructNames)) :=
    ⟨rfl, List.prefix_rfl⟩
  rw [hofLabels, constructNames_node]
  have hcategory := category_of_growsTo hgrows
  rw [Vocabulary.insertMany_append] at hgrows hcategory ⊢
  generalize hw : (v.insertMany label.construct?.toList).insertMany (cs.flatMap constructNames) = w
    at hgrows hcategory ⊢
  have hids : ∀ i ∈ Node.ids (.leaf ⟨0, w.category label⟩), i < 1 := by
    intro i hi
    obtain rfl := List.mem_singleton.mp hi
    exact Nat.one_pos
  have hgrows' : ((v.insertMany label.construct?.toList).insertMany
      (cs.flatMap constructNames)).GrowsTo w := by rwa [hw]
  have hchildren := plantAll_below (fun c _ => plantsBelow w c) _ _ 1 0 hgrows' Nat.one_pos hids
  rw [plant, addLabel_eq, hcategory]
  simp only [empty, add]
  rw [hchildren, foldl_graft_numberedAll, Node.numbered_node, hw, Rose.size]

/-- What is planted in a grown tree is a grown tree. -/
theorem Grown.addLabel {v w : Vocabulary} {t t' : Tree} {label : Label} {parent? : Option ℕ}
    (h : t.Grown v) (hadd : t.addLabel v label parent? = (w, .ok t')) : t'.Grown w := by
  cases label with
  | construct name => exact .construct h hadd
  | token text =>
    obtain ⟨rfl, htoken⟩ := Prod.mk.inj hadd
    exact .token h htoken

theorem Grown.plant {labels : Rose Label} : ∀ {v w : Vocabulary} {t t' : Tree}
    {parent? : Option ℕ}, t.Grown v → plant v t parent? labels = (w, .ok t') → t'.Grown w := by
  induction labels using Rose.induct with
  | node label cs ih =>
    have hall : ∀ {v w : Vocabulary} {t t' : Tree} {parent : ℕ}, t.Grown v →
        plantAll v t parent cs = (w, .ok t') → t'.Grown w := by
      clear label
      induction cs with
      | nil =>
        intro v w t t' parent h hplant
        obtain ⟨rfl, heq⟩ := Prod.mk.inj hplant
        exact Except.ok.inj heq ▸ h
      | cons c cs ihcs =>
        intro v w t t' parent h hplant
        rw [plantAll] at hplant
        split at hplant
        · cases hplant
        · rename_i heq
          exact ihcs (fun c' hc' => ih c' (List.mem_cons_of_mem c hc'))
            (ih c List.mem_cons_self h heq) hplant
    intro v w t t' parent? h hplant
    rw [Tree.plant] at hplant
    split at hplant
    · cases hplant
    · rename_i heq
      exact hall (h.addLabel heq) hplant

/-- **A tree made from labels is a grown tree**, over the vocabulary with its names. -/
theorem grown_ofLabels (v : Vocabulary) (labels : Rose Label) :
    (ofLabels v labels).2.Grown (ofLabels v labels).1 :=
  Grown.plant (.empty v) (plant_eq_ofLabels v labels)

/-- The numbers are the positions in pre-order. -/
def InPreorder (t : Tree) : Prop :=
  t.ids = List.range t.size

theorem inPreorder_ofLabels (v : Vocabulary) (labels : Rose Label) :
    (ofLabels v labels).2.InPreorder := by
  have hids := Node.ids_numbered (v.insertMany (constructNames labels)) 0 labels
  rw [← List.range_eq_range'] at hids
  exact hids

end Tree

end ChangeQuery
