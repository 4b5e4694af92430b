import ChangeQuery.Proofs.Abstraction.Basic
import ChangeQuery.Proofs.Tree.Sites

/-!
## Making abstractions

`Node.replace` carries out a plan: it says for every node number which query token, if any, is put in
the place of the subtree with this number.  Subtrees below a replaced one are gone, so the subtrees
that are replaced are disjoint, and every set of disjoint subtrees is that of some plan.

* `abstracts_replace`: a plan gives an abstraction, if its query tokens may stand for the nodes that
  it puts them in the place of.
-/

namespace ChangeQuery

namespace Node

mutual
/-- Puts query tokens in the place of the subtrees that the plan names. -/
def replace (plan : ℕ → Option String) : Node → Node
  | .node entry children =>
    match plan entry.id with
    | some text => .leaf ⟨entry.id, .token text⟩
    | none => .node entry (replaceAll plan children)
/-- Puts query tokens in the place of the subtrees of a list of trees. -/
def replaceAll (plan : ℕ → Option String) : List Node → List Node
  | [] => []
  | child :: children => replace plan child :: replaceAll plan children
end

theorem sameCategory_self (n : Node) : n.sameCategory n = true := by
  rw [sameCategory]
  cases n.category with
  | construct symbol => simp [Category.same, Symbol.same]
  | token text => rfl

end Node

/-- **A plan gives an abstraction**, and what it puts where is what the abstraction records. -/
theorem abstracts_replace {allowed : Site → Prop} {plan : ℕ → Option String} (n : Node) :
    ∀ parent? : Option Node,
      (∀ site ∈ Site.below parent? n, ∀ text, plan site.node.id = some text →
        allowed site ∧ StandsFor text site) →
      ∃ rs, Abstracts allowed [n.replace plan] [⟨n, parent?⟩] rs ∧
        ∀ r ∈ rs, ∃ site ∈ Site.below parent? n, plan site.node.id = some r.1 ∧
          site.node.labels.texts = r.2 := by
  induction n using Rose.induct with
  | node entry children ih =>
    intro parent? hplan
    rw [Site.below, Site.belowAll_eq_flatMap] at hplan ⊢
    rw [Node.replace]
    cases hentry : plan entry.id with
    | some text =>
      obtain ⟨hallowed, hstands⟩ := hplan _ List.mem_cons_self text hentry
      refine ⟨_, .replace rfl hallowed hstands .nil, fun r hr => ?_⟩
      obtain rfl := List.mem_singleton.mp hr
      exact ⟨_, List.mem_cons_self, hentry, rfl⟩
    | none =>
      -- The children, one after another.
      have hchildren : ∀ nodes ⊆ children,
          ∃ rs, Abstracts allowed (Node.replaceAll plan nodes)
              (nodes.map fun child => ⟨child, some (.node entry children)⟩) rs ∧
            ∀ r ∈ rs, ∃ site ∈ children.flatMap (Site.below (some (.node entry children))),
              plan site.node.id = some r.1 ∧ site.node.labels.texts = r.2 := by
        intro nodes hnodes
        induction nodes with
        | nil => exact ⟨[], .nil, fun _ hr => absurd hr List.not_mem_nil⟩
        | cons c nodes ihNodes =>
          obtain ⟨hc, hnodes⟩ := List.cons_subset.mp hnodes
          obtain ⟨rs, hrest, hrs⟩ := ihNodes hnodes
          have hbelow : ∀ site ∈ Site.below (some (.node entry children)) c,
              site ∈ children.flatMap (Site.below (some (.node entry children))) :=
            fun site hsite => List.mem_flatMap.mpr ⟨c, hc, hsite⟩
          obtain ⟨rs', hfirst, hrs'⟩ := ih c hc (some (.node entry children))
            fun site hsite => hplan site (List.mem_cons_of_mem _ (hbelow site hsite))
          refine ⟨rs' ++ rs, hfirst.append hrest, fun r hr => ?_⟩
          rcases List.mem_append.mp hr with hr | hr
          · obtain ⟨site, hsite, hthis⟩ := hrs' r hr
            exact ⟨site, hbelow site hsite, hthis⟩
          · exact hrs r hr
      obtain ⟨rs, habstracts, hrs⟩ := hchildren children (List.Subset.refl _)
      refine ⟨rs ++ [], .keep (Node.sameCategory_self _) rfl habstracts .nil, fun r hr => ?_⟩
      rw [List.append_nil] at hr
      obtain ⟨site, hsite, hthis⟩ := hrs r hr
      exact ⟨site, List.mem_cons_of_mem _ hsite, hthis⟩

end ChangeQuery
