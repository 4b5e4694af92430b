import ChangeQuery.Text.Blank
import ChangeQuery.Text.Split

/-!
## Where a change came from

A line such as `commit 9ab3 @@ src/A.java @@ data/patch/owner-name.patch` names the commit of a change,
the place in the source and, through the name of a patch file, the repository.
-/

namespace ChangeQuery

/-- The origin of a change. -/
structure CommitInfo where
  commit : String
  location : String
  /-- Owner and name with a slash in between, if the patch file names them. -/
  repository? : Option String
  deriving DecidableEq, Repr

namespace CommitInfo

/-- The mark between the parts of a line. -/
def separator : List Char := "@@".toList

/-- The first three parts of a line; a fourth part is ignored. -/
def parts? (line : List Char) : Option (List Char × List Char × List Char) :=
  (Text.splitFirst? separator line).bind fun (head, rest) =>
    (Text.splitFirst? separator rest).map fun (location, rest) =>
      (Text.trim head, Text.trim location,
        Text.trim (((Text.splitFirst? separator rest).map Prod.fst).getD rest))

/-- The commit named by the first part: what follows the word `commit`, without blanks. -/
def commitOf (head : List Char) : List Char :=
  (Text.words (("commit".toList.isPrefixOf? head).getD head)).flatten

/-- Puts a slash in the place of the first hyphen. -/
def slashFirstHyphen : List Char → List Char
  | [] => []
  | c :: cs => if c = '-' then '/' :: cs else c :: slashFirstHyphen cs

/-- The repository that a patch file is named for: what stands between the first `patch/` and the
next `.patch`. -/
def repositoryOf (patch : List Char) : Option (List Char) :=
  (Text.splitFirst? "patch/".toList patch).bind fun (_, rest) =>
    (Text.splitFirst? ".patch".toList rest).bind fun (name, _) =>
      if name.isEmpty then none else some (slashFirstHyphen name)

/-- The origin that a line names. -/
def ofLine? (line : String) : Option CommitInfo :=
  (parts? line.toList).bind fun (head, location, patch) =>
    let commit := commitOf head
    if commit.isEmpty then none
    else some ⟨String.ofList commit, String.ofList location, (repositoryOf patch).map String.ofList⟩

/-- The address of the commit, if the repository is known. -/
def url? (info : CommitInfo) : Option String :=
  info.repository?.map fun repository =>
    "https://github.com/" ++ repository ++ "/commit/" ++ info.commit

end CommitInfo

end ChangeQuery
