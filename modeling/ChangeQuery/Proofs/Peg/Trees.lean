import ChangeQuery.Proofs.Peg.Reading
import ChangeQuery.Proofs.Tree.Labels

/-!
## The trees that parsing expressions leave

`Grammar.Leaves` says which lists of trees an expression can leave, whatever the text around them:
constructs above what their bodies leave, and tokens with a text that their bodies read.  It forgets
the order of choices and what is looked ahead at; what is looked ahead at matters only for the texts
of tokens, which `Grammar.Spells` keeps.

* `Grammar.leaves_of_reads`: everything left was left in this sense.
* `Grammar.Leaves.grows`: every node of a tree that was left comes from a construct or a token of the
  grammar.

Three questions about what an expression can leave are answered by looking at the expression: whether
a token is among the trees, which token is the first, and what stands at the roots.
-/

namespace ChangeQuery

variable {ρ : Type}

namespace Grammar

/-- The text was read by the expression somewhere. -/
def Spells (g : Grammar ρ) (body : Peg ρ) (text : String) : Prop :=
  ∃ s input p, Reads g s (.expr body) input (some p) ∧ text = String.ofList p.consumed

/-- The expression can leave these trees. -/
inductive Leaves (g : Grammar ρ) : Peg ρ → List (Rose Label) → Prop
  | chars {text} : Leaves g (.chars text) []
  | one {accepts} : Leaves g (.one accepts) []
  | call {rule ts} (h : Leaves g (g.rule rule) ts) : Leaves g (.call rule) ts
  | seq {first second ts us} (ht : Leaves g first ts) (hu : Leaves g second us) :
    Leaves g (.seq first second) (ts ++ us)
  | choice_first {first second ts} (h : Leaves g first ts) : Leaves g (.choice first second) ts
  | choice_second {first second ts} (h : Leaves g second ts) : Leaves g (.choice first second) ts
  | many_nil {body} : Leaves g (.many body) []
  | many {body ts us} (ht : Leaves g body ts) (hu : Leaves g (.many body) us) :
    Leaves g (.many body) (ts ++ us)
  | option_nil {body} : Leaves g (.option body) []
  | option {body ts} (h : Leaves g body ts) : Leaves g (.option body) ts
  | followedBy {body} : Leaves g (.followedBy body) []
  | notFollowedBy {body} : Leaves g (.notFollowedBy body) []
  | stop : Leaves g .stop []
  | leaf {body text} (h : g.Spells body text) : Leaves g (.leaf body) [.leaf (.token text)]
  | branch {name body ts} (h : Leaves g body ts) :
    Leaves g (.branch name body) [.node (.construct name) ts]
  | tight {body ts} (h : Leaves g body ts) : Leaves g (.tight body) ts
  | spaced {body ts} (h : Leaves g body ts) : Leaves g (.spaced body) ts

/-- The trees that can be left, whatever there is to read: layout leaves none. -/
def LeavesTask (g : Grammar ρ) : Task ρ → List (Rose Label) → Prop
  | .expr e, ts => g.Leaves e ts
  | .gap, ts => ts = []
  | .rounds body, ts => g.Leaves (.many body) ts

variable {g : Grammar ρ}

theorem leavesTask_of_reads {s : Bool} {t : Task ρ} {input : List Char} {p : Parsed}
    (h : Reads g s t input (some p)) : g.LeavesTask t p.trees := by
  induction h using Reads.induct with
  | chars => exact .chars
  | one => exact .one
  | call _ ih => exact .call ih
  | @seq _ _ _ _ a b c _ _ _ iha ihb ihc =>
    -- Layout between the parts leaves nothing.
    have hb : b.trees = [] := ihb
    show Leaves g _ (a.trees ++ (b.trees ++ c.trees))
    rw [hb]
    exact .seq iha ihc
  | choice_first _ ih => exact .choice_first ih
  | choice_second _ _ ih => exact .choice_second ih
  | many_nothing => exact .many_nil
  | many _ _ iha ihb => exact .many iha ihb
  | option_nothing => exact .option_nil
  | option _ ih => exact .option ih
  | followedBy => exact .followedBy
  | notFollowedBy => exact .notFollowedBy
  | stop => exact .stop
  | leaf ha => exact .leaf ⟨_, _, _, ha, rfl⟩
  | branch _ ih => exact .branch ih
  | tight _ ih => exact .tight ih
  | spaced _ ih => exact .spaced ih
  | gap_tight => rfl
  | gap_spaced => rfl
  | rounds_none_gap => exact .many_nil
  | rounds_none => exact .many_nil
  | @rounds _ _ _ a b c _ _ _ iha ihb ihc =>
    have ha : a.trees = [] := iha
    show Leaves g _ ((a.trees ++ b.trees) ++ c.trees)
    rw [ha]
    exact .many ihb ihc

/-- **Everything that was left** can be left. -/
theorem leaves_of_reads {s : Bool} {e : Peg ρ} {input : List Char} {p : Parsed}
    (h : Reads g s (.expr e) input (some p)) : g.Leaves e p.trees :=
  leavesTask_of_reads h

/-! ### Taking the trees of an expression apart -/

variable {e first second body : Peg ρ} {ts : List (Rose Label)}

theorem leaves_append_iff : g.Leaves (first ++ second) ts ↔
    ∃ us vs, ts = us ++ vs ∧ g.Leaves first us ∧ g.Leaves second vs := by
  constructor
  · intro h
    change g.Leaves (.seq first second) ts at h
    cases h with
    | seq ht hu => exact ⟨_, _, rfl, ht, hu⟩
  · rintro ⟨us, vs, rfl, ht, hu⟩
    exact .seq ht hu

theorem leaves_orElse_iff : g.Leaves (first <|> second) ts ↔
    g.Leaves first ts ∨ g.Leaves second ts := by
  constructor
  · intro h
    change g.Leaves (.choice first second) ts at h
    cases h with
    | choice_first h => exact .inl h
    | choice_second h => exact .inr h
  · exact fun h => h.elim .choice_first .choice_second

theorem leaves_token_iff : g.Leaves (Peg.token body) ts ↔
    ∃ text, g.Spells (.tight body) text ∧ ts = [.leaf (.token text)] := by
  constructor
  · intro h
    cases h with
    | leaf h => exact ⟨_, h, rfl⟩
  · rintro ⟨text, h, rfl⟩
    exact .leaf h

/-- A repetition leaves what its rounds leave. -/
theorem exists_rounds_of_leaves_many (h : g.Leaves (.many body) ts) :
    ∃ rounds : List (List (Rose Label)), ts = rounds.flatten ∧ ∀ us ∈ rounds, g.Leaves body us := by
  generalize he : Peg.many body = e at h
  induction h with
  | many_nil => exact ⟨[], rfl, by simp⟩
  | @many _ us _ hu _ _ ih =>
    obtain rfl := Peg.many.inj he
    obtain ⟨rounds, rfl, hrounds⟩ := ih rfl
    exact ⟨us :: rounds, rfl, List.forall_mem_cons.mpr ⟨hu, hrounds⟩⟩
  | _ => cases he

theorem leaves_branch_iff {name : String} : g.Leaves (.branch name body) ts ↔
    ∃ us, g.Leaves body us ∧ ts = [.node (.construct name) us] := by
  constructor
  · intro h
    cases h with
    | branch h => exact ⟨_, h, rfl⟩
  · rintro ⟨us, h, rfl⟩
    exact .branch h

end Grammar

/-! ### The origin of a node -/

namespace Peg

/-- The constructs of an expression, each with its body. -/
def branches : Peg ρ → List (String × Peg ρ)
  | branch name body => (name, body) :: body.branches
  | seq first second | choice first second => first.branches ++ second.branches
  | many body | option body | tight body | spaced body => body.branches
  | chars _ | one _ | call _ | followedBy _ | notFollowedBy _ | stop | leaf _ => []

/-- The bodies of the tokens of an expression. -/
def tokens : Peg ρ → List (Peg ρ)
  | leaf body => [body]
  | seq first second | choice first second => first.tokens ++ second.tokens
  | many body | option body | tight body | spaced body | branch _ body => body.tokens
  | chars _ | one _ | call _ | followedBy _ | notFollowedBy _ | stop => []

end Peg

namespace Grammar

variable {g : Grammar ρ}

/-- What a node can be: one of the constructs above what its body leaves, or one of the tokens. -/
def Grows (g : Grammar ρ) (branches : List (String × Peg ρ)) (tokens : List (Peg ρ))
    (n : Rose Label) : Prop :=
  match n.value with
  | .construct name => ∃ body, (name, body) ∈ branches ∧ g.Leaves body n.children
  | .token text => n.children = [] ∧ ∃ body ∈ tokens, g.Spells body text

/-- **The origin of a node**: every node of a tree that was left is one of the constructs or one of
the tokens of the grammar. -/
theorem Leaves.grows {branches : List (String × Peg ρ)} {tokens : List (Peg ρ)}
    (hrules : ∀ rule, (g.rule rule).branches ⊆ branches ∧ (g.rule rule).tokens ⊆ tokens)
    {e : Peg ρ} {ts : List (Rose Label)} (h : g.Leaves e ts) :
    e.branches ⊆ branches → e.tokens ⊆ tokens →
      ∀ t ∈ ts, ∀ n ∈ t.preorder, g.Grows branches tokens n := by
  induction h with
  | @call rule _ _ ih => exact fun _ _ => ih (hrules rule).1 (hrules rule).2
  | seq _ _ iht ihu =>
    intro hbranches htokens t ht
    rw [Peg.branches, List.append_subset] at hbranches
    rw [Peg.tokens, List.append_subset] at htokens
    rcases List.mem_append.mp ht with ht | ht
    · exact iht hbranches.1 htokens.1 t ht
    · exact ihu hbranches.2 htokens.2 t ht
  | choice_first _ ih =>
    intro hbranches htokens
    rw [Peg.branches, List.append_subset] at hbranches
    rw [Peg.tokens, List.append_subset] at htokens
    exact ih hbranches.1 htokens.1
  | choice_second _ ih =>
    intro hbranches htokens
    rw [Peg.branches, List.append_subset] at hbranches
    rw [Peg.tokens, List.append_subset] at htokens
    exact ih hbranches.2 htokens.2
  | many _ _ iht ihu =>
    intro hbranches htokens t ht
    rcases List.mem_append.mp ht with ht | ht
    · exact iht hbranches htokens t ht
    · exact ihu hbranches htokens t ht
  | option _ ih | tight _ ih | spaced _ ih => exact ih
  | @leaf body text h =>
    intro _ htokens t ht n hn
    obtain rfl := List.mem_singleton.mp ht
    rw [Rose.leaf, Rose.preorder_node, List.flatMap_nil] at hn
    obtain rfl := List.mem_singleton.mp hn
    exact ⟨rfl, body, htokens List.mem_cons_self, h⟩
  | @branch name body us h ih =>
    intro hbranches htokens t ht n hn
    obtain rfl := List.mem_singleton.mp ht
    rw [Peg.branches, List.cons_subset] at hbranches
    rw [Rose.preorder_node, List.mem_cons, List.mem_flatMap] at hn
    -- The node is the construct itself, or stands in what its body left.
    rcases hn with rfl | ⟨c, hc, hn⟩
    · exact ⟨body, hbranches.1, h⟩
    · exact ih hbranches.2 htokens c hc n hn
  | _ => exact fun _ _ t ht => absurd ht List.not_mem_nil

end Grammar

/-! ### What is surely left -/

/-- Reading surely leaves a token, at any depth.  A rule counts as leaving one. -/
def Peg.worded : Peg ρ → Bool
  | leaf _ | call _ => true
  | seq first second => first.worded || second.worded
  | choice first second => first.worded && second.worded
  | branch _ body | tight body | spaced body => body.worded
  | chars _ | one _ | many _ | option _ | followedBy _ | notFollowedBy _ | stop => false

/-- The first token that reading leaves, if it leaves any, is an accepted one.  Rules count as doing
so. -/
def Peg.opens (accepts : Peg ρ → Bool) : Peg ρ → Bool
  | leaf body => accepts body
  | seq first second => first.opens accepts && (first.worded || second.opens accepts)
  | choice first second => first.opens accepts && second.opens accepts
  | many body | option body | branch _ body | tight body | spaced body => body.opens accepts
  | chars _ | one _ | call _ | followedBy _ | notFollowedBy _ | stop => true

/-- The trees that reading leaves are accepted tokens and constructs; `calls` says that those of the
rules are. -/
def Peg.roots (token : Peg ρ → Bool) (construct : String → Bool) (calls : Bool) : Peg ρ → Bool
  | leaf body => token body
  | branch name _ => construct name
  | call _ => calls
  | seq first second | choice first second =>
    first.roots token construct calls && second.roots token construct calls
  | many body | option body | tight body | spaced body => body.roots token construct calls
  | chars _ | one _ | followedBy _ | notFollowedBy _ | stop => true

namespace Grammar

variable {g : Grammar ρ} {e : Peg ρ} {ts : List (Rose Label)}

/-- **Tokens below**: an expression that says so leaves at least one token. -/
theorem Leaves.texts_ne_nil (hrules : ∀ rule, (g.rule rule).worded = true) (h : g.Leaves e ts) :
    e.worded = true → ts.flatMap Rose.texts ≠ [] := by
  induction h with
  | @call rule _ _ ih => exact fun _ => ih (hrules rule)
  | seq _ _ iht ihu =>
    intro he hnil
    rw [List.flatMap_append, List.append_eq_nil_iff] at hnil
    rcases Bool.or_eq_true_iff.mp he with hfirst | hsecond
    · exact iht hfirst hnil.1
    · exact ihu hsecond hnil.2
  | choice_first _ ih => exact fun he => ih (Bool.and_eq_true_iff.mp he).1
  | choice_second _ ih => exact fun he => ih (Bool.and_eq_true_iff.mp he).2
  | tight _ ih | spaced _ ih => exact ih
  | leaf =>
    intro _
    rw [List.flatMap_singleton, Rose.texts_leaf]
    exact List.cons_ne_nil _ _
  | branch _ ih =>
    intro he
    rw [List.flatMap_singleton, Rose.texts_construct]
    exact ih he
  | _ => exact fun he => absurd he Bool.false_ne_true

/-- **The first token** that is left was read by an accepted expression. -/
theorem Leaves.head_texts {accepts : Peg ρ → Bool}
    (hrules : ∀ rule, (g.rule rule).worded = true ∧ (g.rule rule).opens accepts = true)
    (h : g.Leaves e ts) : e.opens accepts = true → ∀ text ∈ (ts.flatMap Rose.texts).head?,
      ∃ body, accepts body = true ∧ g.Spells body text := by
  induction h with
  | @call rule _ _ ih => exact fun _ => ih (hrules rule).2
  | @seq first second us vs ht _ iht ihu =>
    intro he text htext
    rw [Peg.opens, Bool.and_eq_true, Bool.or_eq_true] at he
    rw [List.flatMap_append, List.head?_append] at htext
    -- The first token comes from the second part only if the first part leaves none.
    cases hhead : (us.flatMap Rose.texts).head? with
    | some first =>
      rw [hhead] at htext
      exact iht he.1 text (by rw [hhead]; exact htext)
    | none =>
      have hworded : first.worded ≠ true :=
        fun hfirst => ht.texts_ne_nil (fun rule => (hrules rule).1) hfirst
          (List.head?_eq_none_iff.mp hhead)
      rw [hhead] at htext
      exact ihu (he.2.resolve_left hworded) text htext
  | choice_first _ ih => exact fun he => ih (Bool.and_eq_true_iff.mp he).1
  | choice_second _ ih => exact fun he => ih (Bool.and_eq_true_iff.mp he).2
  | @many body us vs _ _ iht ihu =>
    intro he text htext
    rw [List.flatMap_append, List.head?_append] at htext
    cases hhead : (us.flatMap Rose.texts).head? with
    | some first =>
      rw [hhead] at htext
      exact iht he text (by rw [hhead]; exact htext)
    | none =>
      rw [hhead] at htext
      exact ihu he text htext
  | option _ ih | tight _ ih | spaced _ ih => exact ih
  | leaf h =>
    intro he text htext
    rw [List.flatMap_singleton, Rose.texts_leaf] at htext
    obtain rfl := Option.some.inj htext
    exact ⟨_, he, h⟩
  | branch _ ih =>
    intro he
    rw [List.flatMap_singleton, Rose.texts_construct]
    exact ih he
  | _ => exact fun _ _ h => absurd h (Option.not_mem_none _)

/-- A root that is accepted. -/
def IsRoot (g : Grammar ρ) (token : Peg ρ → Bool) (construct : String → Bool)
    (t : Rose Label) : Prop :=
  match t.value with
  | .construct name => construct name = true
  | .token text => t.children = [] ∧ ∃ body, token body = true ∧ g.Spells body text

/-- **The roots** of the trees that are left are accepted ones. -/
theorem Leaves.isRoot {token : Peg ρ → Bool} {construct : String → Bool} {calls : Bool}
    (hrules : calls = true → ∀ rule, (g.rule rule).roots token construct calls = true)
    (h : g.Leaves e ts) :
    e.roots token construct calls = true → ∀ t ∈ ts, g.IsRoot token construct t := by
  induction h with
  | @call rule _ _ ih => exact fun he => ih (hrules he rule)
  | seq _ _ iht ihu =>
    intro he t ht
    rw [Peg.roots, Bool.and_eq_true] at he
    rcases List.mem_append.mp ht with ht | ht
    · exact iht he.1 t ht
    · exact ihu he.2 t ht
  | choice_first _ ih => exact fun he => ih (Bool.and_eq_true_iff.mp he).1
  | choice_second _ ih => exact fun he => ih (Bool.and_eq_true_iff.mp he).2
  | many _ _ iht ihu =>
    intro he t ht
    rcases List.mem_append.mp ht with ht | ht
    · exact iht he t ht
    · exact ihu he t ht
  | option _ ih | tight _ ih | spaced _ ih => exact ih
  | leaf h =>
    intro he t ht
    obtain rfl := List.mem_singleton.mp ht
    exact ⟨rfl, _, he, h⟩
  | branch _ _ =>
    intro he t ht
    obtain rfl := List.mem_singleton.mp ht
    exact he
  | _ => exact fun _ _ h => absurd h List.not_mem_nil

end Grammar

end ChangeQuery
