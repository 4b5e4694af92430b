import ChangeQuery.Corpus.Features
import ChangeQuery.Proofs.Change.Outline
import ChangeQuery.Proofs.Config.Settings
import ChangeQuery.Proofs.FeatureRows.RoundTrip
import ChangeQuery.Proofs.Fingerprint.Dimension
import ChangeQuery.Proofs.Fingerprint.Labels
import ChangeQuery.Proofs.Text.Utf8
import ChangeQuery.Text.Utf8

/-!
## The fingerprints of a corpus

A change gets a row or is skipped according to its text alone, so the two lists of numbers are read off
the numbered changes with two filters.

* `featuresFrom_rows`, `featuresFrom_skipped`: the filters.
* `fingerprint?_congr`: what the parser read before does not matter.
* `featuresFrom_select`: the changes that have a row keep it when the others are taken out.
* `features_faithful`: a table of fingerprints says about a corpus what it should.
-/

namespace ChangeQuery.Corpus

/-! ### Rows and skipped numbers -/

section FeaturesFrom

variable (fingerprint? : String → Option FeatureVector) (dimension : ℕ)

@[simp] theorem dimension_featuresFrom (texts : List (String × ℕ)) :
    (featuresFrom fingerprint? dimension texts).dimension = dimension := by
  induction texts with
  | nil => rfl
  | cons entry texts ih =>
    rw [featuresFrom]
    cases fingerprint? entry.1 <;> exact ih

theorem featuresFrom_rows (texts : List (String × ℕ)) :
    (featuresFrom fingerprint? dimension texts).rows =
      texts.filterMap fun entry => (fingerprint? entry.1).map fun vector => (entry.2, vector) := by
  induction texts with
  | nil => rfl
  | cons entry texts ih =>
    rw [featuresFrom, List.filterMap_cons, ← ih]
    cases fingerprint? entry.1 <;> rfl

theorem featuresFrom_ids (texts : List (String × ℕ)) :
    (featuresFrom fingerprint? dimension texts).ids =
      (texts.filter fun entry => (fingerprint? entry.1).isSome).map Prod.snd := by
  induction texts with
  | nil => rfl
  | cons entry texts ih =>
    rw [featuresFrom, List.filter_cons]
    cases fingerprint? entry.1 with
    | none => exact ih
    | some vector => exact congrArg (entry.2 :: ·) ih

theorem featuresFrom_skipped (texts : List (String × ℕ)) :
    (featuresFrom fingerprint? dimension texts).skipped =
      (texts.filter fun entry => (fingerprint? entry.1).isNone).map Prod.snd := by
  induction texts with
  | nil => rfl
  | cons entry texts ih =>
    rw [featuresFrom, List.filter_cons]
    cases fingerprint? entry.1 with
    | none => exact congrArg (entry.2 :: ·) ih
    | some vector => exact ih

/-- Numbers picked from those of a list of changes are in ascending order. -/
theorem pairwise_lt_map_filter_zipIdx (changes : List String) (keep : String × ℕ → Bool) :
    ((changes.zipIdx.filter keep).map Prod.snd).Pairwise (· < ·) := by
  have hall : (changes.zipIdx.map Prod.snd).Pairwise (· < ·) := by
    rw [List.zipIdx_map_snd]
    exact List.pairwise_lt_range'
  exact hall.sublist (List.filter_sublist.map Prod.snd)

theorem mem_featuresFrom_rows_iff (c : Corpus) {id : ℕ} {vector : FeatureVector} :
    (id, vector) ∈ (featuresFrom fingerprint? dimension c.changes.zipIdx).rows ↔
      ∃ text, c.change? id = some text ∧ fingerprint? text = some vector := by
  rw [featuresFrom_rows, List.mem_filterMap]
  constructor
  · rintro ⟨⟨text, i⟩, hentry, hvector⟩
    obtain ⟨vector', hfingerprint, hpair⟩ := Option.map_eq_some_iff.mp hvector
    obtain ⟨rfl, rfl⟩ := Prod.mk.inj hpair
    exact ⟨text, List.mk_mem_zipIdx_iff_getElem?.mp hentry, hfingerprint⟩
  · rintro ⟨text, htext, hfingerprint⟩
    refine ⟨(text, id), List.mk_mem_zipIdx_iff_getElem?.mpr htext, ?_⟩
    rw [hfingerprint]
    rfl

theorem mem_map_filter_zipIdx_iff (c : Corpus) (keep : String → Bool) {id : ℕ} :
    id ∈ (c.changes.zipIdx.filter fun entry => keep entry.1).map Prod.snd ↔
      ∃ text, c.change? id = some text ∧ keep text = true := by
  rw [List.mem_map]
  constructor
  · rintro ⟨⟨text, i⟩, hentry, rfl⟩
    obtain ⟨hmem, hkeep⟩ := List.mem_filter.mp hentry
    exact ⟨text, List.mk_mem_zipIdx_iff_getElem?.mp hmem, hkeep⟩
  · rintro ⟨text, htext, hkeep⟩
    exact ⟨(text, id), List.mem_filter.mpr ⟨List.mk_mem_zipIdx_iff_getElem?.mpr htext, hkeep⟩, rfl⟩

theorem mem_featuresFrom_ids_iff (c : Corpus) {id : ℕ} :
    id ∈ (featuresFrom fingerprint? dimension c.changes.zipIdx).ids ↔
      ∃ text, c.change? id = some text ∧ (fingerprint? text).isSome := by
  rw [featuresFrom_ids]
  exact mem_map_filter_zipIdx_iff c fun text => (fingerprint? text).isSome

theorem mem_featuresFrom_skipped_iff (c : Corpus) {id : ℕ} :
    id ∈ (featuresFrom fingerprint? dimension c.changes.zipIdx).skipped ↔
      ∃ text, c.change? id = some text ∧ (fingerprint? text).isNone := by
  rw [featuresFrom_skipped]
  exact mem_map_filter_zipIdx_iff c fun text => (fingerprint? text).isNone

/-- No number has a row and is skipped. -/
theorem disjoint_featuresFrom (c : Corpus) :
    (featuresFrom fingerprint? dimension c.changes.zipIdx).ids.Disjoint
      (featuresFrom fingerprint? dimension c.changes.zipIdx).skipped := by
  intro id hrow hskipped
  obtain ⟨text, htext, hsome⟩ := (mem_featuresFrom_ids_iff _ _ c).mp hrow
  obtain ⟨text', htext', hnone⟩ := (mem_featuresFrom_skipped_iff _ _ c).mp hskipped
  obtain rfl := Option.some.inj (htext.symm.trans htext')
  rw [Option.isNone_iff_eq_none.mp hnone] at hsome
  cases hsome

/-- The numbers that have a row or are skipped are those of the changes. -/
theorem mem_featuresFrom_iff (c : Corpus) {id : ℕ} :
    id ∈ (featuresFrom fingerprint? dimension c.changes.zipIdx).ids ∨
      id ∈ (featuresFrom fingerprint? dimension c.changes.zipIdx).skipped ↔ id < c.size := by
  have hid : id < c.size ↔ ∃ text, c.change? id = some text := by
    rw [← Option.isSome_iff_exists, change?, isSome_getElem?, size]
  rw [mem_featuresFrom_ids_iff, mem_featuresFrom_skipped_iff, hid]
  constructor
  · rintro (⟨text, htext, -⟩ | ⟨text, htext, -⟩)
    all_goals exact ⟨text, htext⟩
  · rintro ⟨text, htext⟩
    cases hfingerprint : fingerprint? text with
    | none => exact .inr ⟨text, htext, by rw [hfingerprint]; rfl⟩
    | some vector => exact .inl ⟨text, htext, by rw [hfingerprint]; rfl⟩

/-- **Taking out the changes without a row** leaves the rows of the others as they are and numbers them
from 0. -/
theorem featuresFrom_select (c : Corpus) {rows : List (ℕ × FeatureVector)}
    (hrows : ∀ id vector, (id, vector) ∈ rows →
      ∃ text, c.change? id = some text ∧ fingerprint? text = some vector) : ∀ start,
    featuresFrom fingerprint? dimension (((rows.map Prod.fst).filterMap c.change?).zipIdx start) =
      { dimension, rows := ((rows.map Prod.snd).zipIdx start).map Prod.swap } := by
  induction rows with
  | nil => exact fun _ => rfl
  | cons row rows ih =>
    intro start
    obtain ⟨id, vector⟩ := row
    obtain ⟨text, htext, hfingerprint⟩ := hrows id vector List.mem_cons_self
    rw [List.map_cons, List.filterMap_cons_some htext, List.zipIdx_cons, featuresFrom,
      ih (fun id vector h => hrows id vector (List.mem_cons_of_mem _ h)), hfingerprint]
    rfl

end FeaturesFrom

/-! ### Single changes -/

variable {config : Config} {b : Buckets} {p : Parser} {text : String} {vector : FeatureVector}

theorem fingerprint?_eq_some_iff {v : Vocabulary} :
    fingerprint? config b p v text = some vector ↔ text.length ≤ config.maxChangeChars ∧
      ∃ w change, p.change v text config.delimiter = .ok (w, change) ∧
        vector = Fingerprint.ofChange b change := by
  unfold fingerprint?
  split_ifs with hlong
  · exact iff_of_false (fun h => by cases h) fun h => absurd h.1 (Nat.not_le.mpr hlong)
  · cases p.change v text config.delimiter with
    | error cause =>
      refine iff_of_false (fun h => by cases h) ?_
      rintro ⟨-, _, _, h, -⟩
      cases h
    | ok parsed =>
      obtain ⟨w, change⟩ := parsed
      refine ⟨fun h => ⟨Nat.not_lt.mp hlong, w, change, rfl, (Option.some.inj h).symm⟩, ?_⟩
      rintro ⟨-, _, _, h, rfl⟩
      obtain ⟨-, rfl⟩ := Prod.mk.inj (Except.ok.inj h)
      rfl

/-- **Fingerprints do not depend on what the parser read before.** -/
theorem fingerprint?_congr (config : Config) (b : Buckets) (p : Parser) (v w : Vocabulary) :
    fingerprint? config b p v = fingerprint? config b p w := by
  funext text
  unfold fingerprint?
  rcases except_cases_of_map_eq (p.change_congr v w text config.delimiter) with
    ⟨cause, hv, hw⟩ | ⟨⟨v', change⟩, ⟨w', change'⟩, hv, hw, houtline⟩
  · rw [hv, hw]
  · obtain ⟨-, hsides⟩ := Prod.mk.inj houtline
    obtain ⟨hold, hnew⟩ := Prod.mk.inj hsides
    rw [hv, hw]
    dsimp only
    rw [Fingerprint.ofChange_congr b (Site.labels_congr hold) (Site.labels_congr hnew)]

/-! ### Tables -/

theorem features_eq_ok_iff {c : Corpus} {v : Vocabulary} {table : FeatureTable} :
    c.features config p v = .ok table ↔ ∃ b, config.checkedBuckets = .ok b ∧
      config.checkParser p = .ok () ∧
        table = featuresFrom (fingerprint? config b p v) b.dimension c.changes.zipIdx := by
  unfold features
  simp only [bind_eq_ok_iff]
  constructor
  · rintro ⟨b, hb, ⟨⟩, hparser, htable⟩
    exact ⟨b, hb, hparser, (Except.ok.inj htable).symm⟩
  · rintro ⟨b, hb, hparser, rfl⟩
    exact ⟨b, hb, (), hparser, rfl⟩

section Features

variable {c : Corpus} {v : Vocabulary} {table : FeatureTable}

theorem ids_increasing_of_features (h : c.features config p v = .ok table) :
    table.ids.Pairwise (· < ·) := by
  obtain ⟨b, -, -, rfl⟩ := features_eq_ok_iff.mp h
  rw [featuresFrom_ids]
  exact pairwise_lt_map_filter_zipIdx _ _

/-- **The row of a change** is its fingerprint, over whatever vocabulary it is parsed. -/
theorem mem_rows_of_features (h : c.features config p v = .ok table)
    (hb : config.checkedBuckets = .ok b) (w : Vocabulary) {id : ℕ} :
    (id, vector) ∈ table.rows ↔ ∃ text, c.change? id = some text ∧
      text.length ≤ config.maxChangeChars ∧ ∃ w' change,
        p.change w text config.delimiter = .ok (w', change) ∧
          vector = Fingerprint.ofChange b change := by
  obtain ⟨b', hb', -, rfl⟩ := features_eq_ok_iff.mp h
  obtain rfl := Except.ok.inj (hb.symm.trans hb')
  rw [mem_featuresFrom_rows_iff, fingerprint?_congr config b p v w]
  simp only [fingerprint?_eq_some_iff]

/-- **The changes that have a row** are those that are not too long and that parse. -/
theorem mem_ids_of_features (h : c.features config p v = .ok table) (w : Vocabulary) {id : ℕ} :
    id ∈ table.ids ↔ ∃ text, c.change? id = some text ∧ text.length ≤ config.maxChangeChars ∧
      ∃ parsed, p.change w text config.delimiter = .ok parsed := by
  obtain ⟨b, hb, -, -⟩ := features_eq_ok_iff.mp h
  have hid : id ∈ table.ids ↔ ∃ vector, (id, vector) ∈ table.rows := by simp [FeatureTable.ids]
  rw [hid]
  simp only [mem_rows_of_features h hb w]
  constructor
  · rintro ⟨_, text, htext, hlength, w', change, hchange, -⟩
    exact ⟨text, htext, hlength, (w', change), hchange⟩
  · rintro ⟨text, htext, hlength, ⟨w', change⟩, hchange⟩
    exact ⟨_, text, htext, hlength, w', change, hchange, rfl⟩

theorem dimension_of_features (h : c.features config p v = .ok table)
    (hb : config.checkedBuckets = .ok b) : table.dimension = b.dimension := by
  obtain ⟨b', hb', -, rfl⟩ := features_eq_ok_iff.mp h
  obtain rfl := Except.ok.inj (hb.symm.trans hb')
  exact dimension_featuresFrom _ _ _

/-- All rows have the length of the table. -/
theorem dimension_of_mem_rows (h : c.features config p v = .ok table)
    (hb : config.checkedBuckets = .ok b) : ∀ row ∈ table.rows, row.2.dimension = b.dimension := by
  rintro ⟨id, _⟩ hrow
  obtain ⟨_, _, _, _, _, _, rfl⟩ := (mem_rows_of_features h hb v).mp hrow
  exact Fingerprint.dimension_ofChange b _

end Features

/-- The rows are written into a file and read from it. -/
theorem read_toText {table : FeatureTable} {dimension : ℕ} (hpos : dimension ≠ 0)
    (hdimension : ∀ vector ∈ table.vectors, vector.dimension = dimension) :
    FeatureRows.read (Text.Utf8.decode (Text.Utf8.encode table.toText.toList)) =
      .ok table.vectors := by
  rw [Text.Utf8.decode_encode]
  exact FeatureRows.read_write hpos hdimension

/-- What a table of fingerprints says about a corpus, where the fingerprints have the buckets `b`. -/
structure Faithful (c : Corpus) (config : Config) (p : Parser) (b : Buckets)
    (table : FeatureTable) : Prop where
  ids_increasing : table.ids.Pairwise (· < ·)
  skipped_increasing : table.skipped.Pairwise (· < ·)
  /-- No change has a row and is skipped. -/
  disjoint : table.ids.Disjoint table.skipped
  /-- Every change has a row or is skipped. -/
  mem_ids_or_mem_skipped_iff : ∀ id, id ∈ table.ids ∨ id ∈ table.skipped ↔ id < c.size
  /-- A change has a row if it is not too long and if it parses, whatever was read before. -/
  mem_ids_iff : ∀ w id, id ∈ table.ids ↔ ∃ text, c.change? id = some text ∧
    text.length ≤ config.maxChangeChars ∧ ∃ parsed, p.change w text config.delimiter = .ok parsed
  /-- The row of a change is its fingerprint. -/
  mem_rows_iff : ∀ w id vector, (id, vector) ∈ table.rows ↔ ∃ text, c.change? id = some text ∧
    text.length ≤ config.maxChangeChars ∧ ∃ w' change,
      p.change w text config.delimiter = .ok (w', change) ∧ vector = Fingerprint.ofChange b change
  dimension_eq : ∀ vector ∈ table.vectors, vector.dimension = 2 * config.buckets
  /-- The file of the rows gives them back in the order of their numbers. -/
  read_toText : ∃ vectors, FeatureRows.read
    (Text.Utf8.decode (Text.Utf8.encode table.toText.toList)) = .ok vectors ∧
      table.ids.zip vectors = table.rows ∧ vectors.length = table.ids.length
  /-- The changes that have a row keep it when they are selected, and are numbered from 0. -/
  features_select : ∀ w, (c.select table.ids).features config p w =
    .ok { dimension := table.dimension, rows := table.vectors.zipIdx.map Prod.swap }

/-- **Fingerprints of a corpus** are complete and belong to the changes under whose numbers they stand,
in the table, in its file and after selecting. -/
theorem features_faithful {c : Corpus} {v : Vocabulary} {table : FeatureTable}
    (h : c.features config p v = .ok table) :
    ∃ b, config.checkedBuckets = .ok b ∧ c.Faithful config p b table := by
  obtain ⟨b, hb, hparser, htable⟩ := features_eq_ok_iff.mp h
  have hdimension : ∀ vector ∈ table.vectors, vector.dimension = b.dimension := by
    intro vector hvector
    obtain ⟨row, hrow, rfl⟩ := List.mem_map.mp hvector
    exact dimension_of_mem_rows h hb row hrow
  have hpos : b.dimension ≠ 0 := by
    have htwo := b.two_le
    unfold Buckets.dimension
    omega
  refine ⟨b, hb, ?_⟩
  constructor
  · exact ids_increasing_of_features h
  · rw [htable, featuresFrom_skipped]
    exact pairwise_lt_map_filter_zipIdx _ _
  · rw [htable]
    exact disjoint_featuresFrom _ _ c
  · intro id
    rw [htable]
    exact mem_featuresFrom_iff _ _ c
  · exact fun w id => mem_ids_of_features h w
  · exact fun w id vector => mem_rows_of_features h hb w
  · intro vector hvector
    rw [hdimension vector hvector, Buckets.dimension, Config.checkedBuckets_eq_ok hb]
  · exact ⟨table.vectors, read_toText hpos hdimension, (List.zip_of_prod rfl rfl).symm, by
      rw [FeatureTable.vectors, FeatureTable.ids, List.length_map, List.length_map]⟩
  · intro w
    refine features_eq_ok_iff.mpr ⟨b, hb, hparser, ?_⟩
    have hselected : ∀ id vector, (id, vector) ∈ table.rows → ∃ text, c.change? id = some text ∧
        fingerprint? config b p w text = some vector := by
      intro id vector hrow
      obtain ⟨text, htext, hfingerprint⟩ := (mem_rows_of_features h hb w).mp hrow
      exact ⟨text, htext, fingerprint?_eq_some_iff.mpr hfingerprint⟩
    rw [dimension_of_features h hb]
    exact (featuresFrom_select _ _ c hselected 0).symm

/-- A change, one that is not in the language, one that is too long, and another change. -/
def sample : Corpus :=
  .ofChanges ["a = 1; -> a = 2;", "a = (", "a = 1; -> anotherLongName = 2;", "b; -> c;"]

theorem sample_features_faithful :
    ∃ table, sample.features { maxChangeChars := 20 } .java ⟨0, []⟩ = .ok table ∧
      table.ids = [0, 3] ∧ table.skipped = [1, 2] ∧
        ∃ b, Config.checkedBuckets { maxChangeChars := 20 } = .ok b ∧
          sample.Faithful { maxChangeChars := 20 } .java b table := by
  have hnumbers : ((sample.features { maxChangeChars := 20 } .java ⟨0, []⟩).toOption.map
      fun table => (table.ids, table.skipped)) = some ([0, 3], [1, 2]) := by decide +kernel
  cases htable : sample.features { maxChangeChars := 20 } .java ⟨0, []⟩ with
  | error cause =>
    rw [htable] at hnumbers
    cases hnumbers
  | ok table =>
    rw [htable] at hnumbers
    obtain ⟨hids, hskipped⟩ := Prod.mk.inj (Option.some.inj hnumbers)
    exact ⟨table, rfl, hids, hskipped, features_faithful htable⟩

end ChangeQuery.Corpus
