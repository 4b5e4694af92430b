/-!
## Files

A `File` is a name in a directory with the bytes stored under it, if any.  A name with a slash belongs
to no file of the directory.
-/

namespace ChangeQuery

/-- A name in a directory, and what is stored under it. -/
structure File where
  name : String
  contents? : Option (List UInt8)

namespace File

/-- The name can be given to a file of the directory. -/
def isFileName (name : String) : Bool :=
  !(name.toList.contains '/' || name == "" || name == "." || name == "..")

/-- The bytes that can be read under the name. -/
def stored? (f : File) : Option (List UInt8) :=
  if isFileName f.name then f.contents? else none

end File

end ChangeQuery
