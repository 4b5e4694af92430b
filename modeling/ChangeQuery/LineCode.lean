/-!
## One line per change

A corpus file holds one change per line, so the line feeds of a change are written as two dollar
signs.  `encode` writes them and `decode` reads them back; when dollar signs stand in a row, they are
read in pairs from the left.

* `newline_notMem_encode`: a written change has no line feed.
* `encode_decode`: what is read from a line is written back as that line.
-/

namespace ChangeQuery.LineCode

/-- Writes every line feed as two dollar signs. -/
def encodeChars : List Char → List Char
  | [] => []
  | c :: cs => if c = '\n' then '$' :: '$' :: encodeChars cs else c :: encodeChars cs

/-- Reads every pair of dollar signs as a line feed. -/
def decodeChars : List Char → List Char
  | '$' :: '$' :: cs => '\n' :: decodeChars cs
  | c :: cs => c :: decodeChars cs
  | [] => []

/-- The line that stands for a change. -/
def encode (change : String) : String :=
  String.ofList (encodeChars change.toList)

/-- The change that a line stands for. -/
def decode (line : String) : String :=
  String.ofList (decodeChars line.toList)

/-- A character that does not begin a pair of dollar signs is read as itself. -/
theorem decodeChars_cons {c : Char} {cs : List Char} (h : c = '$' → cs.head? ≠ some '$') :
    decodeChars (c :: cs) = c :: decodeChars cs := by
  rw [decodeChars]
  rintro ds rfl rfl
  exact h rfl rfl

/-- A written change is a single line. -/
theorem newline_notMem_encodeChars (cs : List Char) : '\n' ∉ encodeChars cs := by
  induction cs with
  | nil => exact List.not_mem_nil
  | cons c cs ih =>
    rw [encodeChars]
    split
    · simpa using ih
    · rename_i hc
      exact fun h => (List.mem_cons.mp h).elim (fun heq => hc heq.symm) ih

/-- What is read from a single line is written back as that line. -/
theorem encodeChars_decodeChars {cs : List Char} (h : '\n' ∉ cs) :
    encodeChars (decodeChars cs) = cs := by
  fun_induction decodeChars cs with
  | case1 cs ih =>
    simp only [List.mem_cons, not_or] at h
    rw [encodeChars, if_pos rfl, ih h.2.2]
  | case2 c cs _ ih =>
    simp only [List.mem_cons, not_or] at h
    rw [encodeChars, if_neg (Ne.symm h.1), ih h.2]
  | case3 => rfl

example : decode "$$$" = "\n$" := by decide

end ChangeQuery.LineCode
