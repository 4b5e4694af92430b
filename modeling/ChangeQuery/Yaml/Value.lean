import ChangeQuery.Yaml.Token

/-!
## The value of a document

A document holds a `Value`: a scalar, a sequence of values, or a mapping of values to values in the
order in which it was written.  A value can have a tag, and it can be repeated under a name given to
it before; the names do not show in the result.  `Value.ofText?` reads a text with at most one
document.

The reader follows the tokens.  Its loops are bounded by their number, as each turn consumes one of
them.
-/

namespace ChangeQuery.Yaml

/-- What a document holds. -/
inductive Value where
  | scalar (tag? : Option String) (style : ScalarStyle) (text : String)
  | sequence (tag? : Option String) (items : List Value)
  | mapping (tag? : Option String) (entries : List (Value × Value))
  /-- A value repeated within itself. -/
  | endless
  deriving Repr

/-- The value of a place where nothing is written. -/
def Value.empty : Value :=
  .scalar none .plain ""

/-- Where the reader is, and what it has to remember. -/
structure ValueReader where
  tokens : List Token
  /-- The short forms of tags. -/
  handles : List (String × String) := []
  /-- The named values in the order in which they begin. -/
  anchors : Array (String × Value) := #[]

/-- A step of the reader, which can refuse. -/
abbrev Reading := StateT ValueReader Option

namespace Reading

/-- The next token. -/
def next? : Reading (Option Token) := do
  return (← get).tokens.head?

/-- Skips a token. -/
def advance : Reading Unit :=
  modify fun r => { r with tokens := r.tokens.drop 1 }

/-- The next token is among some. -/
def isNext (ts : List Token) : Reading Bool := do
  return (← next?).any ts.contains

/-- Skips the next token if it is the given one, and tells so. -/
def accept (t : Token) : Reading Bool := do
  if ← isNext [t] then
    advance
    return true
  else return false

/-- Skips the given token, which must come next. -/
def expect (t : Token) : Reading Unit := do
  unless ← accept t do failure

/-! ### Names and tags -/

/-- Reads the name given to a value. -/
def anchor? : Reading (Option String) := do
  match ← next? with
  | some (.anchor name) => advance; return name
  | _ => return none

/-- Reads the tag of a value and writes it out; a handle that was not declared is refused. -/
def tag? : Reading (Option String) := do
  match ← next? with
  | some (.tag handle suffix) =>
    advance
    if handle == "" then return suffix
    match (← get).handles.lookup handle with
    | some stem => return stem ++ suffix
    | none => failure
  | _ => return none

/-- Reads the name and the tag of a value, in either order. -/
def properties : Reading (Option String × Option String) := do
  match ← anchor? with
  | some name => return (some name, ← tag?)
  | none =>
    match ← tag? with
    | some tag => return (← anchor?, some tag)
    | none => return (none, none)

/-- The value of that name which began last. -/
def named (name : String) : Reading Value := do
  match (← get).anchors.toList.reverse.lookup name with
  | some v => return v
  | none => failure

/-- Reads a value and remembers it if it has a name. -/
def remember (name? : Option String) (read : Reading Value) : Reading Value := do
  match name? with
  | none => read
  | some name =>
    let position := (← get).anchors.size
    modify fun r => { r with anchors := r.anchors.push (name, .endless) }
    let v ← read
    modify fun r => { r with anchors := r.anchors.setIfInBounds position (name, v) }
    return v

/-! ### Values -/

/-- The value where nothing is written, if that is allowed. -/
def emptyContent (tag? : Option String) (mayBeEmpty : Bool) : Reading Value :=
  if mayBeEmpty then return .scalar tag? .plain "" else failure

/-- Reads a value, or nothing if one of the given tokens follows. -/
def unlessAt (stops : List Token) (read : Reading Value) : Reading Value := do
  if ← isNext stops then return .empty else read

/-- Reads a value behind a mark, or nothing if the mark or the value is missing. -/
def behind (mark : Token) (stops : List Token) (read : Reading Value) : Reading Value := do
  if ← accept mark then unlessAt stops read else return .empty

/-- Reads the key of a pair within a sequence in brackets.  Where it is missing, the token in its
place is skipped. -/
def pairKey (read : Reading Value) : Reading Value := do
  if ← isNext [.value, .comma, .flowSequenceEnd] then
    advance
    return .empty
  else read

mutual

/-- Reads a value.  Blocks are only read `inBlock`, and a sequence of dashes that is not indented only
if it may be `dashed`. -/
def value (bound : Nat) (inBlock dashed : Bool) : Reading Value :=
  match bound with
  | 0 => failure
  | bound + 1 => do
    match ← next? with
    | some (.reference name) =>
      advance
      named name
    | _ =>
      let (name?, tag?) ← properties
      remember name? (content bound inBlock dashed tag? (name?.isSome || tag?.isSome))

/-- Reads a value behind its name and its tag.  If it has one of them, nothing needs to follow. -/
def content (bound : Nat) (inBlock dashed : Bool) (tag? : Option String) (mayBeEmpty : Bool) :
    Reading Value :=
  match bound with
  | 0 => failure
  | bound + 1 => do
    match ← next? with
    | some (.scalar style text) =>
      advance
      return .scalar (tag?.filter (· != "!")) style text
    | some .flowSequenceStart =>
      advance
      return .sequence tag? (← flowItems bound true)
    | some .flowMappingStart =>
      advance
      return .mapping tag? (← flowEntries bound true)
    | some .blockSequenceStart =>
      if !inBlock then emptyContent tag? mayBeEmpty
      else
        advance
        return .sequence tag? (← blockItems bound)
    | some .blockMappingStart =>
      if !inBlock then emptyContent tag? mayBeEmpty
      else
        advance
        return .mapping tag? (← blockEntries bound)
    | some .entry =>
      if !dashed then emptyContent tag? mayBeEmpty
      else return .sequence tag? (← dashedItems bound)
    | _ => emptyContent tag? mayBeEmpty

/-- Reads the elements of an indented sequence. -/
def blockItems (bound : Nat) : Reading (List Value) :=
  match bound with
  | 0 => failure
  | bound + 1 => do
    if ← accept .entry then
      let item ← unlessAt [.entry, .blockEnd] (value bound true false)
      return item :: (← blockItems bound)
    else
      expect .blockEnd
      return []

/-- Reads the elements of a sequence that is not indented. -/
def dashedItems (bound : Nat) : Reading (List Value) :=
  match bound with
  | 0 => failure
  | bound + 1 => do
    if ← accept .entry then
      let item ← unlessAt [.entry, .key, .value, .blockEnd] (value bound true false)
      return item :: (← dashedItems bound)
    else return []

/-- Reads the entries of an indented mapping. -/
def blockEntries (bound : Nat) : Reading (List (Value × Value)) :=
  match bound with
  | 0 => failure
  | bound + 1 => do
    if ← accept .key then
      let stops := [.key, .value, .blockEnd]
      let key ← unlessAt stops (value bound true true)
      let item ← behind .value stops (value bound true true)
      return (key, item) :: (← blockEntries bound)
    else
      expect .blockEnd
      return []

/-- Reads the elements of a sequence in brackets.  A pair of key and value is an element as well. -/
def flowItems (bound : Nat) (first : Bool) : Reading (List Value) :=
  match bound with
  | 0 => failure
  | bound + 1 => do
    if ← accept .flowSequenceEnd then return []
    unless first do expect .comma
    if ← accept .key then
      let key ← pairKey (value bound false false)
      let item ← behind .value [.comma, .flowSequenceEnd] (value bound false false)
      return .mapping none [(key, item)] :: (← flowItems bound false)
    if ← accept .flowSequenceEnd then return []
    let item ← value bound false false
    return item :: (← flowItems bound false)

/-- Reads the entries of a mapping in braces. -/
def flowEntries (bound : Nat) (first : Bool) : Reading (List (Value × Value)) :=
  match bound with
  | 0 => failure
  | bound + 1 => do
    if ← accept .flowMappingEnd then return []
    unless first do expect .comma
    if ← accept .key then
      let key ← unlessAt [.value, .comma, .flowMappingEnd] (value bound false false)
      let item ← behind .value [.comma, .flowMappingEnd] (value bound false false)
      return (key, item) :: (← flowEntries bound false)
    if ← accept .flowMappingEnd then return []
    let key ← value bound false false
    return (key, .empty) :: (← flowEntries bound false)

end

/-! ### Documents -/

/-- The short forms of tags that need no declaration. -/
def commonHandles : List (String × String) :=
  [("!", "!"), ("!!", "tag:yaml.org,2002:")]

/-- Reads the directives of a document.  A version is given at most once and must be known; a short
form is declared at most once. -/
def directives (versioned : Bool) : Nat → List (String × String) → Reading Unit
  | 0, _ => failure
  | bound + 1, declared => do
    match ← next? with
    | some (.version major minor) =>
      if versioned || major != 1 || !(minor == 1 || minor == 2) then failure
      advance
      directives true bound declared
    | some (.tagHandle handle stem) =>
      if (declared.lookup handle).isSome then failure
      advance
      directives versioned bound ((handle, stem) :: declared)
    | _ => modify fun r => { r with handles := declared ++ commonHandles }

/-- The next token lies outside the contents of a document. -/
def isOutside : Option Token → Bool
  | none | some (.version ..) | some (.tagHandle ..) | some .documentStart | some .documentEnd => true
  | _ => false

/-- Reads the value of a document.  The mark at its start can be left out, but not behind
directives. -/
def documentValue (bound : Nat) : Reading Value := do
  let marked := isOutside (← next?)
  directives false bound []
  if marked then
    expect .documentStart
    if isOutside (← next?) then return .empty
  value bound true false

/-- Reads the value of the only document, if there is a document. -/
def onlyDocument (bound : Nat) : Reading (Option Value) := do
  if (← get).tokens.isEmpty then return none
  let v ← documentValue bound
  modify fun r => { r with tokens := r.tokens.dropWhile (· == .documentEnd) }
  if (← get).tokens.isEmpty then return some v else failure

end Reading

/-- Reads a text that holds one document or none. -/
def Value.ofText? (text : List Char) : Option (Option Value) := do
  let tokens ← Token.readAll? text
  (Reading.onlyDocument (3 * tokens.length + 3)).run' { tokens }

end ChangeQuery.Yaml
