import ChangeQuery.Corpus.Basic
import ChangeQuery.FeatureRows
import ChangeQuery.File
import ChangeQuery.Gzip.File
import ChangeQuery.Text.Utf8

/-!
## Files of changes, commit info and feature rows

Files whose name ends in `.gz` are compressed.  A file is delivered up to its first fault; text is read
from it line by line, so a row that breaks a rule is reported before a fault that lies behind it.
-/

namespace ChangeQuery

/-- Why the text of a file could not be used. -/
inductive FileError where
  /-- Nothing is stored under the name. -/
  | notFound
  /-- The contents could not be read to the end. -/
  | damaged
  /-- A row of features breaks a rule. -/
  | row (cause : FeatureRows.RowError)
  /-- The lines of commit info do not fit the corpus. -/
  | info (cause : InfoLengthError)

/-- The wording of the cause; faults of the storage have none of their own. -/
def FileError.message? : FileError → Option String
  | notFound => none
  | damaged => none
  | row cause => some cause.message
  | info cause => some cause.message

namespace File

/-- Files of this name are compressed: the name ends in `.gz` and has something in front of that. -/
def isCompressedName (name : String) : Bool :=
  let chars := name.toList
  chars.drop (chars.length - 3) == ".gz".toList && chars.length != 3

/-- What is read from a file. -/
def deliver (f : File) : Except FileError Delivery :=
  match f.stored? with
  | none => .error .notFound
  | some bytes => .ok (if isCompressedName f.name then Gzip.read bytes else ⟨bytes, true⟩)

/-- The lines of a file, which must be intact. -/
def lines (f : File) : Except FileError (List String) :=
  match f.deliver with
  | .error e => .error e
  | .ok delivery =>
    if delivery.intact then .ok (Corpus.linesOf (Text.Utf8.decode delivery.bytes))
    else .error .damaged

/-- The feature rows of a file.  Of a damaged file, the lines that were delivered in full are read
before the fault is reported. -/
def featureRows (f : File) : Except FileError (List FeatureVector) :=
  match f.deliver with
  | .error e => .error e
  | .ok delivery =>
    let text := Text.Utf8.decode delivery.bytes
    if delivery.intact then (FeatureRows.read text).mapError .row
    else
      match FeatureRows.readLines (Text.terminatedLines text).1 with
      | .error e => .error (.row e)
      | .ok _ => .error .damaged

/-- The file of feature rows under a name, compressed if the name asks for it. -/
def ofFeatureRows (name : String) (rows : List FeatureVector) : Except FileError File :=
  if isFileName name then
    let bytes := Text.Utf8.encode (FeatureRows.write rows).toList
    .ok ⟨name, some (if isCompressedName name then Gzip.write bytes else bytes)⟩
  else .error .notFound

end File

/-- The corpus of a file with an encoded change on each line. -/
def Corpus.ofFile (f : File) : Except FileError Corpus :=
  f.lines.map Corpus.ofLines

/-- Puts the commit info of a file in place of what was there. -/
def Corpus.withInfoFile (c : Corpus) (f : File) : Except FileError Corpus :=
  match f.lines with
  | .error e => .error e
  | .ok info => (c.withInfo info).mapError .info

end ChangeQuery
