import ChangeQuery.Search.Engine
import ChangeQuery.Proofs.Similarity.Order

/-!
## Settings that were checked

What is known of a configuration once its settings were made, and that settings are made of every
configuration of which this holds.

* `bind_eq_ok_iff`: checks that follow each other.
* `Config.settings_eq_ok_iff`: the checks, one for each setting.
* `isNaN_threshold_of_settings`: a threshold that was checked is a number.
-/

namespace ChangeQuery

/-- Steps that follow each other give a result exactly if each of them does. -/
theorem bind_eq_ok_iff {ε α β : Type} {x : Except ε α} {f : α → Except ε β} {result : β} :
    x >>= f = .ok result ↔ ∃ a, x = .ok a ∧ f a = .ok result := by
  cases x with
  | error cause => exact iff_of_false (fun h => by cases h) fun ⟨_, h, _⟩ => by cases h
  | ok a =>
    constructor
    · exact fun h => ⟨a, rfl, h⟩
    · rintro ⟨_, ha, h⟩
      obtain rfl := Except.ok.inj ha
      exact h

namespace Config

variable {c : Config} {p : Parser} {s : Settings}

theorem require_eq_ok_iff {condition : Bool} {cause : ConfigError} {done : Unit} :
    require condition cause = .ok done ↔ condition = true := by
  cases condition with
  | false => exact iff_of_false (fun h => by cases h) Bool.false_ne_true
  | true => exact iff_of_true rfl rfl

/-- **The settings of a configuration** are made exactly if it passes all checks. -/
theorem settings_eq_ok_iff :
    c.settings = .ok s ↔ s.config = c ∧ c.table = .ok s.table ∧ c.checkedBuckets = .ok s.buckets ∧
      (0 ≤ c.similarityThreshold && c.similarityThreshold ≤ 1) = true ∧ (c.topK != 0) = true ∧
        (c.delimiter != "") = true := by
  unfold settings
  simp only [bind_eq_ok_iff, require_eq_ok_iff]
  constructor
  · rintro ⟨table, htable, buckets, hbuckets, -, hthreshold, -, htopK, -, hdelimiter, hsettings⟩
    obtain rfl := Except.ok.inj hsettings
    exact ⟨rfl, htable, hbuckets, hthreshold, htopK, hdelimiter⟩
  · rintro ⟨rfl, htable, hbuckets, hthreshold, htopK, hdelimiter⟩
    exact ⟨_, htable, _, hbuckets, (), hthreshold, (), htopK, (), hdelimiter, rfl⟩

theorem isNaN_threshold_of_settings (h : c.settings = .ok s) :
    c.similarityThreshold.isNaN = false := by
  obtain ⟨-, -, -, hthreshold, -⟩ := settings_eq_ok_iff.mp h
  exact Similarity.isNaN_of_le (of_decide_eq_true (Bool.and_eq_true_iff.mp hthreshold).1)

theorem checkedBuckets_eq_ok {b : Buckets} (h : c.checkedBuckets = .ok b) :
    b.count = c.buckets := by
  unfold checkedBuckets Buckets.ofNat? at h
  split_ifs at h with heven
  · obtain rfl := Except.ok.inj h
    rfl

end Config

/-- A search can be made ready exactly if the settings and the parser pass. -/
theorem Engine.checkedSettings_eq_ok_iff {config : Config} {p : Parser} {s : Settings} :
    checkedSettings config p = .ok s ↔
      config.settings = .ok s ∧ config.checkParser p = .ok () := by
  unfold checkedSettings
  simp only [bind_eq_ok_iff]
  constructor
  · rintro ⟨settings, hsettings, ⟨⟩, hparser, h⟩
    obtain rfl := Except.ok.inj h
    exact ⟨hsettings, hparser⟩
  · rintro ⟨hsettings, hparser⟩
    exact ⟨s, hsettings, (), hparser, rfl⟩

end ChangeQuery
