import ChangeQuery.Corpus.CommitInfo
import ChangeQuery.Proofs.Text.Occurrences
import ChangeQuery.Proofs.Text.Trimming

/-!
## Lines that name a commit

A line names a commit, a place in the source and a patch file.  The file lies in a directory `patch` and
is named for the owner and the name of a repository, with a hyphen in between.  Commit and place come
back from every such line.  The repository does if the directory `patch` is the first whose name *ends*
with `patch`: the parts of a line are looked for as texts, so that the name of another directory can be
taken for the one that is meant.

* `CommitLine.IsPlain`: the parts of a line can be told apart.
* `CommitLine.repositoryOf_patchFile`, `CommitLine.repositoryOf_patchFile_ne`: the repository of a patch
  file.
* `CommitLine.origin_of_text`: the origin that a line names.
* `CommitLine.not_repository_of_segment`: a directory with a name that ends with `patch`.
-/

namespace ChangeQuery

open Text (isBlank trim words fields splitFirst?)

/-- What a line says. -/
structure CommitLine where
  commit : String
  location : String
  /-- Where the directory `patch` lies. -/
  directory : String
  owner : String
  name : String

namespace CommitLine

/-- The name of the patch file without its ending. -/
def stem (l : CommitLine) : List Char :=
  l.owner.toList ++ '-' :: l.name.toList

/-- The path of the patch file without its ending. -/
def path (l : CommitLine) : List Char :=
  l.directory.toList ++ '/' :: ("patch".toList ++ '/' :: l.stem)

/-- The path of the patch file. -/
def patchFile (l : CommitLine) : List Char :=
  l.path ++ ".patch".toList

/-- The line as it is written. -/
def text (l : CommitLine) : String :=
  "commit " ++ l.commit ++ " @@ " ++ l.location ++ " @@ " ++ l.directory ++ "/patch/" ++ l.owner ++
    "-" ++ l.name ++ ".patch"

/-- Owner and name of the repository. -/
def repository (l : CommitLine) : String :=
  l.owner ++ "/" ++ l.name

/-- The address of the commit. -/
def url (l : CommitLine) : String :=
  "https://github.com/" ++ l.repository ++ "/commit/" ++ l.commit

/-- The text contains no blank and none of the marks. -/
def Lacks (marks : List Char) (s : String) : Prop :=
  ∀ c ∈ s.toList, c ∉ marks ∧ isBlank c = false

instance (marks : List Char) (s : String) : Decidable (Lacks marks s) :=
  decidable_of_iff ((s.toList.all fun c => !marks.contains c && !isBlank c) = true) <| by
    simp [Lacks]

/-- The parts of the line can be told apart. -/
@[mk_iff]
structure IsPlain (l : CommitLine) : Prop where
  commit_ne : l.commit ≠ ""
  commit : Lacks ['@'] l.commit
  /-- Blanks may stand inside the place, but not at its ends. -/
  location : '@' ∉ l.location.toList
  location_head : ∀ c ∈ l.location.toList.head?, isBlank c = false
  location_last : ∀ c ∈ l.location.toList.getLast?, isBlank c = false
  directory : Lacks ['@'] l.directory
  directory_segments : "patch".toList ∉ fields '/' l.directory.toList
  owner_ne : l.owner ≠ ""
  owner : Lacks ['-', '/', '.', '@'] l.owner
  name : Lacks ['/', '@'] l.name
  name_patch : ¬ ".patch".toList <:+: l.name.toList

instance (l : CommitLine) : Decidable l.IsPlain :=
  decidable_of_iff
    ((l.commit ≠ "" ∧ Lacks ['@'] l.commit) ∧
      (¬ l.location.toList.contains '@' ∧
        l.location.toList.head?.all (fun c => !isBlank c) = true ∧
        l.location.toList.getLast?.all (fun c => !isBlank c) = true) ∧
      (Lacks ['@'] l.directory ∧ ¬ (fields '/' l.directory.toList).contains "patch".toList) ∧
      (l.owner ≠ "" ∧ Lacks ['-', '/', '.', '@'] l.owner) ∧
      Lacks ['/', '@'] l.name ∧ splitFirst? (".patc".toList ++ ['h']) l.name.toList = none) <| by
    have hends : ∀ o : Option Char, o.all (fun c => !isBlank c) = true ↔ ∀ c ∈ o, isBlank c = false := by
      intro o
      cases o <;> simp
    rw [isPlain_iff, Text.splitFirst?_eq_none_iff, hends, hends, List.contains_iff_mem,
      List.contains_iff_mem]
    simp only [and_assoc]
    rfl

variable {l : CommitLine} {marks : List Char} {s : String} {c : Char} {before : List Char}

theorem Lacks.notMem (h : Lacks marks s) (hc : c ∈ marks) : c ∉ s.toList :=
  fun hmem => (h c hmem).1 hc

/-- Neither the mark between parts nor a blank stands in such a text. -/
theorem Lacks.unmarked (h : Lacks marks s) (hmark : '@' ∈ marks) :
    ∀ c ∈ s.toList, c ≠ '@' ∧ isBlank c = false :=
  fun c hc => ⟨fun heq => h.notMem hmark (heq ▸ hc), (h c hc).2⟩

/-! ### The repository -/

/-- The slash takes the place of the hyphen behind the owner. -/
theorem slashFirstHyphen_append {owner : List Char} (h : '-' ∉ owner) (name : List Char) :
    CommitInfo.slashFirstHyphen (owner ++ '-' :: name) = owner ++ '/' :: name := by
  induction owner with
  | nil => rfl
  | cons c owner ih =>
    rw [List.mem_cons, not_or] at h
    rw [List.cons_append, CommitInfo.slashFirstHyphen, if_neg (Ne.symm h.1), ih h.2, List.cons_append]

/-- There is one slash more where a hyphen was. -/
theorem count_slashFirstHyphen {cs : List Char} (h : '-' ∈ cs) :
    (CommitInfo.slashFirstHyphen cs).count '/' = cs.count '/' + 1 := by
  induction cs with
  | nil => exact absurd h List.not_mem_nil
  | cons c cs ih =>
    rw [CommitInfo.slashFirstHyphen]
    by_cases hc : c = '-'
    · rw [if_pos hc, hc, List.count_cons_self, List.count_cons_of_ne (by decide)]
    · have hcs : '-' ∈ cs := (List.mem_cons.mp h).resolve_left (Ne.symm hc)
      rw [if_neg hc, List.count_cons, List.count_cons, ih hcs]
      omega

/-- The ending of a file is found behind a text in which it does not occur. -/
theorem splitFirst?_ending (h : ¬ ".patch".toList <:+: before) :
    splitFirst? ".patch".toList (before ++ ".patch".toList) = some (before, []) := by
  have hnot : ¬ ".patc".toList ++ ['h'] <:+: before ++ ".patc".toList := by
    rw [Text.infix_append_iff_of_last (by decide)]
    exact h
  have hsplit := Text.splitFirst?_append_first hnot []
  simpa using hsplit

/-- What stands between the first `patch/` and the ending of the file names the repository. -/
theorem repositoryOf_append {rest : List Char} (h : ¬ "patch".toList ++ ['/'] <:+: before ++ "patch".toList)
    (hrest : ¬ ".patch".toList <:+: rest) (hne : rest ≠ []) :
    CommitInfo.repositoryOf (before ++ ("patch".toList ++ ['/'] ++ (rest ++ ".patch".toList))) =
      some (CommitInfo.slashFirstHyphen rest) := by
  have hdirectory := Text.splitFirst?_append_first h (rest ++ ".patch".toList)
  have hempty : rest.isEmpty = false := by simpa using hne
  unfold CommitInfo.repositoryOf
  show (splitFirst? ("patch".toList ++ ['/']) _).bind _ = _
  rw [hdirectory, Option.bind_some]
  show (splitFirst? ".patch".toList _).bind _ = _
  rw [splitFirst?_ending hrest, Option.bind_some]
  simp only [hempty, Bool.false_eq_true, if_false]

theorem IsPlain.stem_lacks (h : l.IsPlain) : ¬ ".patch".toList <:+: l.stem := by
  rw [stem, Text.infix_append_cons_iff (by decide), not_or]
  refine ⟨fun howner => ?_, h.name_patch⟩
  exact h.owner.notMem (by decide) (howner.subset (by decide : '.' ∈ ".patch".toList))

theorem IsPlain.path_lacks (h : l.IsPlain) (hdirectory : ¬ ".patch".toList <:+: l.directory.toList) :
    ¬ ".patch".toList <:+: l.path := by
  rw [path, Text.infix_append_cons_iff (by decide), Text.infix_append_cons_iff (by decide), not_or, not_or]
  refine ⟨hdirectory, fun hpatch => ?_, h.stem_lacks⟩
  exact absurd hpatch.length_le (by decide)

theorem mem_stem : '-' ∈ l.stem :=
  List.mem_append_right _ List.mem_cons_self

/-- **The repository** is that of the file, if no directory above `patch` has a name that ends so. -/
theorem IsPlain.repositoryOf_patchFile (h : l.IsPlain)
    (hsegments : ∀ segment ∈ fields '/' l.directory.toList, ¬ "patch".toList <:+ segment) :
    (CommitInfo.repositoryOf l.patchFile).map String.ofList = some l.repository := by
  have hfirst : ¬ "patch".toList ++ ['/'] <:+: (l.directory.toList ++ ['/']) ++ "patch".toList := by
    rw [Text.infix_append_iff_of_last (by decide), Text.infix_terminated_iff (by decide)]
    rintro ⟨segment, hsegment, hends⟩
    exact hsegments segment hsegment hends
  have hpath : l.patchFile =
      (l.directory.toList ++ ['/']) ++ ("patch".toList ++ ['/'] ++ (l.stem ++ ".patch".toList)) := by
    simp [patchFile, path]
  rw [hpath, repositoryOf_append hfirst h.stem_lacks (List.ne_nil_of_mem mem_stem), stem,
    slashFirstHyphen_append (h.owner.notMem (by decide)), Option.map_some, repository]
  congr 1
  apply String.toList_inj.mp
  simp

/-- Above a directory with a name that ends with `patch`, the text begins too early: it has one slash
more than the name of a repository. -/
theorem IsPlain.repositoryOf_patchFile_ne (h : l.IsPlain)
    (hdirectory : ¬ ".patch".toList <:+: l.directory.toList)
    {segment : List Char} (hsegment : segment ∈ fields '/' l.directory.toList)
    (hends : "patch".toList <:+ segment) :
    (CommitInfo.repositoryOf l.patchFile).map String.ofList ≠ some l.repository := by
  have hinfix : "patch".toList ++ ['/'] <:+: l.directory.toList ++ ['/'] :=
    (Text.infix_terminated_iff (by decide)).mpr ⟨segment, hsegment, hends⟩
  obtain ⟨⟨before, after⟩, hsplit⟩ :=
    Option.ne_none_iff_exists'.mp fun hnone => Text.splitFirst?_eq_none_iff.mp hnone hinfix
  obtain ⟨hparts, hfirst⟩ := Text.splitFirst?_eq_some_iff_first.mp hsplit
  let rest := after ++ ("patch".toList ++ '/' :: l.stem)
  have hpath : l.path = before ++ ("patch".toList ++ ['/'] ++ rest) := by
    have happend : l.path = (l.directory.toList ++ ['/']) ++ ("patch".toList ++ '/' :: l.stem) := by
      simp [path]
    rw [happend, ← hparts]
    simp [rest]
  have hrest : ¬ ".patch".toList <:+: rest := by
    intro hpatch
    have hsuffix : rest <:+ l.path := by
      rw [hpath, ← List.append_assoc]
      exact List.suffix_append _ rest
    exact h.path_lacks hdirectory (hpatch.trans hsuffix.isInfix)
  have hhyphen : '-' ∈ rest := by simp [rest, mem_stem]
  have hfile : l.patchFile = before ++ ("patch".toList ++ ['/'] ++ (rest ++ ".patch".toList)) := by
    rw [patchFile, hpath]
    simp
  rw [hfile, repositoryOf_append hfirst hrest (List.ne_nil_of_mem hhyphen), Option.map_some]
  intro hrepository
  have heq : CommitInfo.slashFirstHyphen rest = l.repository.toList := by
    rw [← Option.some.inj hrepository, String.toList_ofList]
  have howner : l.owner.toList.count '/' = 0 := List.count_eq_zero.mpr (h.owner.notMem (by decide))
  have hname : l.name.toList.count '/' = 0 := List.count_eq_zero.mpr (h.name.notMem (by decide))
  have hone : l.repository.toList.count '/' = 1 := by simp [repository, howner, hname]
  have hslash : 0 < rest.count '/' := List.count_pos_iff.mpr (by simp [rest])
  have htwo := count_slashFirstHyphen hhyphen
  rw [heq, hone] at htwo
  omega

/-! ### The line -/

/-- The first mark ends a part of the line. -/
theorem splitFirst?_separator (h : '@' ∉ before) (after : List Char) :
    splitFirst? CommitInfo.separator (before ++ "@@".toList ++ after) = some (before, after) := by
  have hnot : ¬ ['@'] ++ ['@'] <:+: before ++ ['@'] := by
    show ¬ '@' :: ['@'] <:+: before ++ ['@']
    rw [Text.infix_append_iff_of_first h]
    intro hinfix
    exact absurd hinfix.length_le (by decide)
  rw [List.append_assoc]
  exact Text.splitFirst?_append_first hnot after

/-- No mark is found in the last part of the line. -/
theorem splitFirst?_separator_eq_none (h : '@' ∉ before) :
    splitFirst? CommitInfo.separator before = none := by
  show splitFirst? (['@'] ++ ['@']) before = none
  rw [Text.splitFirst?_eq_none_iff]
  exact fun hmark => h (hmark.subset List.mem_cons_self)

theorem toList_text : l.text.toList =
    ("commit ".toList ++ l.commit.toList ++ [' ']) ++ "@@".toList ++
      ((' ' :: l.location.toList ++ [' ']) ++ "@@".toList ++ (' ' :: l.patchFile)) := by
  have htext : l.text = "commit " ++ l.commit ++ " @@ " ++ l.location ++ " @@ " ++ l.directory ++
      "/patch/" ++ l.owner ++ "-" ++ l.name ++ ".patch" := rfl
  rw [htext]
  simp [patchFile, path, stem]

theorem isBlank_of_mem_blank : ∀ c ∈ [' '], isBlank c = true := by
  intro c hc
  obtain rfl := List.mem_singleton.mp hc
  decide

/-- Neither marks nor blanks stand in the path. -/
theorem IsPlain.patchFile_unmarked (h : l.IsPlain) : ∀ c ∈ l.patchFile, c ≠ '@' ∧ isBlank c = false := by
  simp only [patchFile, path, stem, List.forall_mem_append, List.forall_mem_cons]
  have hdirectory := h.directory.unmarked (by decide)
  have howner := h.owner.unmarked (by decide)
  have hname := h.name.unmarked (by decide)
  have hpatch : Lacks ['@'] "patch" := by decide
  have hending : Lacks ['@'] ".patch" := by decide
  exact ⟨⟨hdirectory, by decide, hpatch.unmarked (by decide), by decide, howner, by decide, hname⟩,
    hending.unmarked (by decide)⟩

/-- The blank behind the commit is taken away. -/
theorem IsPlain.trim_commit (h : l.IsPlain) :
    trim ("commit ".toList ++ l.commit.toList ++ [' ']) = "commit ".toList ++ l.commit.toList := by
  have hcommit : l.commit.toList ≠ [] := fun hnil => h.commit_ne (String.toList_eq_nil_iff.mp hnil)
  have hfirst : ∀ c ∈ ("commit ".toList ++ l.commit.toList).head?, isBlank c = false := by
    intro c hc
    rw [List.head?_append_of_ne_nil _ (by decide)] at hc
    obtain rfl := Option.some.inj hc
    decide
  have hlast : ∀ c ∈ ("commit ".toList ++ l.commit.toList).getLast?, isBlank c = false := by
    intro c hc
    rw [List.getLast?_append_of_ne_nil _ hcommit] at hc
    exact (h.commit c (List.mem_of_getLast? hc)).2
  exact @Text.trim_append [] _ [' '] (by simp) isBlank_of_mem_blank hfirst hlast

/-- The blanks around the place are taken away, those inside it are not. -/
theorem IsPlain.trim_location (h : l.IsPlain) :
    trim (' ' :: l.location.toList ++ [' ']) = l.location.toList :=
  @Text.trim_append [' '] _ [' '] isBlank_of_mem_blank isBlank_of_mem_blank h.location_head
    h.location_last

/-- The blank in front of the path is taken away. -/
theorem IsPlain.trim_patchFile (h : l.IsPlain) : trim (' ' :: l.patchFile) = l.patchFile := by
  have htrim := @Text.trim_append [' '] l.patchFile [] isBlank_of_mem_blank (by simp)
    (fun c hc => (h.patchFile_unmarked c (List.mem_of_head? hc)).2)
    (fun c hc => (h.patchFile_unmarked c (List.mem_of_getLast? hc)).2)
  simpa using htrim

/-- **The parts of a line** are the ones that it was written with. -/
theorem IsPlain.parts?_text (h : l.IsPlain) :
    CommitInfo.parts? l.text.toList =
      some ("commit ".toList ++ l.commit.toList, l.location.toList, l.patchFile) := by
  have hhead : '@' ∉ "commit ".toList ++ l.commit.toList ++ [' '] := by
    simp [h.commit.notMem]
  have hlocation : '@' ∉ ' ' :: l.location.toList ++ [' '] := by
    simp [h.location]
  have hpatch : '@' ∉ ' ' :: l.patchFile := by
    rw [List.mem_cons, not_or]
    exact ⟨by decide, fun hmem => (h.patchFile_unmarked '@' hmem).1 rfl⟩
  rw [CommitInfo.parts?, toList_text, splitFirst?_separator hhead, Option.bind_some]
  simp only [splitFirst?_separator hlocation, splitFirst?_separator_eq_none hpatch, Option.map_some,
    Option.map_none, Option.getD_none, h.trim_commit, h.trim_location, h.trim_patchFile]

/-- The word `commit` and the blank behind it are taken away. -/
theorem IsPlain.commitOf_text (h : l.IsPlain) :
    CommitInfo.commitOf ("commit ".toList ++ l.commit.toList) = l.commit.toList := by
  have hword : "commit".toList.isPrefixOf? ("commit".toList ++ (' ' :: l.commit.toList)) =
      some (' ' :: l.commit.toList) := Text.isPrefixOf?_append _ _
  have hkept : l.commit.toList.filter (fun c => !isBlank c) = l.commit.toList := by
    rw [List.filter_eq_self]
    intro c hc
    rw [(h.commit c hc).2]
    rfl
  unfold CommitInfo.commitOf
  show (words (("commit".toList.isPrefixOf?
    ("commit".toList ++ (' ' :: l.commit.toList))).getD _)).flatten = _
  rw [hword, Option.getD_some, Text.flatten_words, List.filter_cons_of_neg (by decide), hkept]

/-- **What a line names**: commit and place come back, and the repository with them if no directory
above `patch` has a name that ends with `patch`.  Unless `.patch` stands in the name of such a directory,
this is also the only case in which the repository does. -/
theorem origin_of_text (h : l.IsPlain) :
    ∃ info, CommitInfo.ofLine? l.text = some info ∧ info.commit = l.commit ∧ info.location = l.location ∧
      ((∀ segment ∈ fields '/' l.directory.toList, ¬ "patch".toList <:+ segment) →
        info.repository? = some l.repository ∧ info.url? = some l.url) ∧
      (¬ ".patch".toList <:+: l.directory.toList → info.repository? = some l.repository →
        ∀ segment ∈ fields '/' l.directory.toList, ¬ "patch".toList <:+ segment) := by
  have hcommit : l.commit.toList.isEmpty = false := by
    simpa [String.toList_eq_nil_iff] using h.commit_ne
  refine ⟨⟨l.commit, l.location, (CommitInfo.repositoryOf l.patchFile).map String.ofList⟩, ?_, rfl, rfl,
    fun hsegments => ?_, fun hdirectory hrepository segment hsegment hends => ?_⟩
  · rw [CommitInfo.ofLine?, h.parts?_text, Option.bind_some]
    simp only [h.commitOf_text, hcommit, Bool.false_eq_true, if_false, String.ofList_toList]
  · have hrepository := h.repositoryOf_patchFile hsegments
    exact ⟨hrepository, by rw [CommitInfo.url?, hrepository]; rfl⟩
  · exact h.repositoryOf_patchFile_ne hdirectory hsegment hends hrepository

/-- A line with a blank in the place, a hyphen in the name and a directory with the letters of `patch`. -/
def sampleLine : CommitLine :=
  ⟨"9ab3", "src/Main App.java", "data/patches", "owner", "my-tool"⟩

theorem isPlain_sampleLine : sampleLine.IsPlain := by
  decide

/-- The sample line names the repository of its file. -/
theorem origin_of_sampleLine : sampleLine.IsPlain ∧
    (∀ segment ∈ fields '/' sampleLine.directory.toList, ¬ "patch".toList <:+ segment) ∧
    ∃ info, CommitInfo.ofLine? sampleLine.text = some info ∧ info.commit = "9ab3" ∧
      info.location = "src/Main App.java" ∧ info.repository? = some "owner/my-tool" ∧
      info.url? = some "https://github.com/owner/my-tool/commit/9ab3" := by
  obtain ⟨info, hinfo, hcommit, hlocation, hrepository, -⟩ := origin_of_text isPlain_sampleLine
  have hsegments : ∀ segment ∈ fields '/' sampleLine.directory.toList, ¬ "patch".toList <:+ segment := by
    decide
  obtain ⟨hname, hurl⟩ := hrepository hsegments
  exact ⟨isPlain_sampleLine, hsegments, info, hinfo, hcommit, hlocation, hname, hurl⟩

/-- A line with a directory whose name ends with `patch`. -/
def misleadingLine : CommitLine :=
  ⟨"c", "l", "mypatch", "o", "r"⟩

theorem isPlain_misleadingLine : misleadingLine.IsPlain := by
  decide

/-- **A directory whose name ends with `patch`** is taken for the one that is meant: the repository is not
that of every line whose parts can be told apart. -/
theorem not_repository_of_segment :
    ¬ ∀ l : CommitLine, l.IsPlain →
      CommitInfo.ofLine? l.text = some ⟨l.commit, l.location, some l.repository⟩ := by
  intro h
  have htext : misleadingLine.text = "commit c @@ l @@ mypatch/patch/o-r.patch" := by decide
  have hline : CommitInfo.ofLine? "commit c @@ l @@ mypatch/patch/o-r.patch" =
      some ⟨"c", "l", some "patch/o/r"⟩ := by
    decide
  have hclaimed := h misleadingLine isPlain_misleadingLine
  rw [htext, hline] at hclaimed
  exact absurd hclaimed (by decide)

end CommitLine

end ChangeQuery
