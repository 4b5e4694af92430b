import ChangeQuery.Config
import ChangeQuery.File
import ChangeQuery.Text.Utf8
import ChangeQuery.Yaml.Layout
import ChangeQuery.Yaml.Typed

/-!
## Configurations as documents

A configuration can be written to a YAML document and read from one.  In a document, every setting may
be left out and takes its default then; settings of other names are passed over, and none may be given
twice.  An empty document stands for the defaults.  What was read is checked like any other
configuration.
-/

namespace ChangeQuery

open Yaml (Value)

/-! ### Placeholder rules -/

namespace Placeholder

/-- How many tokens the value says a placeholder covers. -/
def Span.ofValue? (v : Value) : Option Span := do
  match ← v.choice? with
  | "single" => some .single
  | "subtree" => some .subtree
  | _ => none

/-- The value that says how many tokens a placeholder covers. -/
def Span.toValue : Span → Value
  | single => .ofString "single"
  | subtree => .ofString "subtree"

namespace Condition

/-- Configurations nest at most 128 levels; five of them lie around the values of a condition. -/
def depthLimit : Nat := 123

/-- The labels in a sequence of texts. -/
def labelsOf? : Value → Option (List String)
  | .sequence _ items => items.mapM Value.properText?
  | _ => none

/-- The condition of a kind on labels that are given or missing. -/
def ofKind? (kind : String) (labels? : Option (List String)) : Option Condition :=
  match kind with
  | "parent_label" => labels?.map .below
  | "leaf" => some .childless
  | "label" => labels?.map .labelled
  | _ => none

/-- The key is that of the labels; they can be named or counted from zero.  Other keys must be texts or
natural numbers. -/
def isLabelsKey? (key : Value) : Option Bool :=
  match key.meaning? with
  | some .text => some (key.text? == some "labels")
  | some (.whole n) => if n < 0 then none else some (n == 0)
  | _ => none

/-- The labels among the entries of a condition, where they stand exactly once. -/
def labelsAmong? (entries : List (Value × Value)) : Option (List String) := do
  let marked ← entries.mapM fun entry => (isLabelsKey? entry.1).map fun isLabels => (isLabels, entry.2)
  match marked.filter Prod.fst with
  | [(_, labels)] => labelsOf? labels
  | _ => none

/-- The condition that a value describes: a mapping with the kind of the condition under `kind`, or a
sequence that begins with the kind. -/
def ofValue? : Value → Option Condition
  | .mapping tag? entries =>
    match entries.partition fun entry => entry.1.properText? == some "kind" with
    | ([(_, kind)], others) =>
      if (Yaml.ownTag? tag?).isNone && others.all fun entry =>
          entry.1.isCommon depthLimit && entry.2.isCommon depthLimit then do
        ofKind? (← kind.text?) (labelsAmong? others)
      else none
    | _ => none
  | .sequence tag? (kind :: others) =>
    if (Yaml.ownTag? tag?).isSome || !others.all (Value.isCommon depthLimit) then none
    else do
      let kind ← kind.text?
      match others with
      | [] => ofKind? kind none
      | [labels] => if kind == "leaf" then none else ofKind? kind (labelsOf? labels)
      | _ => none
  | _ => none

/-- The value that describes a condition. -/
def toValue : Condition → Value
  | below labels => .record [("kind", .ofString "parent_label"), ("labels", .ofStrings labels)]
  | childless => .record [("kind", .ofString "leaf")]
  | labelled labels => .record [("kind", .ofString "label"), ("labels", .ofStrings labels)]

end Condition

/-- The rule that a value describes. -/
def Rule.ofValue? (v : Value) : Option Rule := do
  let fields ← v.record? ["predicate", "span"]
  let condition ← Condition.ofValue? (← fields.lookup "predicate")
  match fields.lookup "span" with
  | none => some { condition }
  | some span => some ⟨condition, ← Span.ofValue? span⟩

/-- The value that describes a rule. -/
def Rule.toValue (r : Rule) : Value :=
  .record [("predicate", r.condition.toValue), ("span", r.span.toValue)]

/-- The rules of a mapping; of several rules for a name, the last one counts. -/
def RuleBook.ofValue? (v : Value) : Option RuleBook := do
  let rules ← (← v.fields?).mapM fun field => (Rule.ofValue? field.2).map fun rule => (field.1, rule)
  some (.ofList rules)

/-- The mapping of rules. -/
def RuleBook.toValue (b : RuleBook) : Value :=
  .record (b.entries.map fun entry => (entry.1, entry.2.toValue))

end Placeholder

/-! ### Configurations -/

namespace Config

/-- The names of the settings. -/
def settingNames : List String :=
  ["placeholders", "empty_marker_label", "fingerprint", "similarity_threshold", "top_k",
    "min_query_nodes", "max_matches", "workers", "ordered", "skip_unchanged", "max_change_chars",
    "delimiter"]

/-- Takes a setting from a document, if it is there. -/
def settingOr {α : Type} (fields : List (String × Value)) (name : String) (default : α)
    (read : Value → Option α) : Option α :=
  match fields.lookup name with
  | none => some default
  | some v => read v

/-- The configuration that a value describes. -/
def ofValue? (v : Value) : Option Config := do
  let base : Config := {}
  let fields ← v.record? settingNames
  let placeholders ← settingOr fields "placeholders" [] (Value.record? ["names", "rules"])
  let fingerprint ← settingOr fields "fingerprint" [] (Value.record? ["buckets"])
  some
    { placeholderNames :=
        ← settingOr placeholders "names" base.placeholderNames (Value.list? Value.text?)
      placeholderRules :=
        ← settingOr placeholders "rules" base.placeholderRules Placeholder.RuleBook.ofValue?
      emptyLabel := ← settingOr fields "empty_marker_label" base.emptyLabel Value.text?
      buckets := ← settingOr fingerprint "buckets" base.buckets Value.natural?
      similarityThreshold :=
        ← settingOr fields "similarity_threshold" base.similarityThreshold Value.float?
      topK := ← settingOr fields "top_k" base.topK Value.natural?
      minQueryNodes := ← settingOr fields "min_query_nodes" base.minQueryNodes Value.natural?
      maxMatches? :=
        ← settingOr fields "max_matches" base.maxMatches? (Value.optional? Value.natural?)
      workers := ← settingOr fields "workers" base.workers Value.natural?
      ordered := ← settingOr fields "ordered" base.ordered Value.truth?
      skipUnchanged := ← settingOr fields "skip_unchanged" base.skipUnchanged Value.truth?
      maxChangeChars := ← settingOr fields "max_change_chars" base.maxChangeChars Value.natural?
      delimiter := ← settingOr fields "delimiter" base.delimiter Value.text? }

/-- The value that describes a configuration. -/
def toValue (c : Config) : Value :=
  let number (n : Nat) : Value := .ofPlain (toString n)
  let truth (b : Bool) : Value := .ofPlain (if b then "true" else "false")
  .record
    [("placeholders",
      .record
        [("names", .ofStrings c.placeholderNames), ("rules", c.placeholderRules.toValue)]),
     ("empty_marker_label", .ofString c.emptyLabel),
     ("fingerprint", .record [("buckets", number c.buckets)]),
     ("similarity_threshold", .ofPlain (FloatStyle.document.write c.similarityThreshold)),
     ("top_k", number c.topK),
     ("min_query_nodes", number c.minQueryNodes),
     ("max_matches", (c.maxMatches?.map number).getD (.ofPlain "null")),
     ("workers", number c.workers),
     ("ordered", truth c.ordered),
     ("skip_unchanged", truth c.skipUnchanged),
     ("max_change_chars", number c.maxChangeChars),
     ("delimiter", .ofString c.delimiter)]

/-- The document of a configuration. -/
def toYaml (c : Config) : String :=
  String.ofList c.toValue.write

/-- The configuration of a document, with everything checked. -/
def ofYaml (text : List Char) : Except ConfigError Config :=
  match Value.ofText? text with
  | none => .error .malformed
  | some v? =>
    match ofValue? (v?.getD .empty) with
    | none => .error .malformed
    | some c => c.settings.map Settings.config

/-- The configuration of the document in a file, which must be in UTF-8. -/
def ofFile (f : File) : Except ConfigError Config :=
  match f.stored?.bind Text.Utf8.decode? with
  | none => .error .unreadable
  | some text => ofYaml text

end Config

end ChangeQuery
