import ChangeQuery.LineCode
import ChangeQuery.Text.Split

/-!
## Corpora

A corpus is a list of changes, numbered from 0, with a line about the origin of each change or with
none at all.  In a corpus file, every line is a change with its line feeds encoded.

* `Corpus.select` picks changes by number together with their origins.
* `Corpus.lines` and `Corpus.ofText` write and read the file.
-/

namespace ChangeQuery

/-- The numbers of lines and changes differ. -/
structure InfoLengthError where
  info : Nat
  changes : Nat
  deriving DecidableEq, Repr

/-- The wording of the cause. -/
def InfoLengthError.message (e : InfoLengthError) : String :=
  s!"commit info has {e.info} lines but the corpus has {e.changes} changes"

/-- Changes, and a line of commit info for each of them or for none. -/
structure Corpus where
  changes : List String := []
  info : List String := []
  deriving DecidableEq, Repr

namespace Corpus

/-- The corpus of the given changes, without commit info. -/
def ofChanges (changes : List String) : Corpus :=
  ⟨changes, []⟩

/-- The corpus of encoded changes. -/
def ofLines (lines : List String) : Corpus :=
  ofChanges (lines.map LineCode.decode)

/-- The lines of a text. -/
def linesOf (text : List Char) : List String :=
  (Text.lines text).map String.ofList

/-- The corpus of a text with an encoded change on each line. -/
def ofText (text : List Char) : Corpus :=
  ofLines (linesOf text)

/-- The number of changes. -/
def size (c : Corpus) : Nat :=
  c.changes.length

/-- The text of a change. -/
def change? (c : Corpus) (id : Nat) : Option String :=
  c.changes[id]?

/-- The line of commit info of a change. -/
def info? (c : Corpus) (id : Nat) : Option String :=
  c.info[id]?

/-- Puts commit info in place of what was there; there must be a line for every change. -/
def withInfo (c : Corpus) (info : List String) : Except InfoLengthError Corpus :=
  if info.length = c.changes.length then .ok { c with info }
  else .error ⟨info.length, c.changes.length⟩

/-- The changes with the given numbers, in that order; numbers that are not in the corpus are passed
over. -/
def select (c : Corpus) (ids : List Nat) : Corpus :=
  ⟨ids.filterMap c.change?, ids.filterMap c.info?⟩

/-- The file of the corpus: an encoded change on each line. -/
def toText (c : Corpus) : String :=
  String.join (c.changes.map fun change => LineCode.encode change ++ "\n")

end Corpus

end ChangeQuery
