import ChangeQuery.Peg

/-!
## The grammar of changes

`old statements -> new statements`, where statements are those of a Java-like language extended with
query tokens: the placeholders `ID`, `LT`, `EXPR`, `binOP` and `OP`, bare or numbered as `ID<1>`, the
wildcard `<...>`, and the marker `_` of an empty side.

Constructs appear in the tree under the names given to `branch`.  Punctuation, keywords, the arrow
and query tokens are tokens; names, literals and operators are constructs above a single token.  A
binary chain is flat: operands separated by operators.  Operands are `expression` constructs, so
`EXPR` can stand for an operand as well as for a whole expression.

Layout consists of blanks and comments.  Around the arrow it is read by hand, so that line breaks
there remain in the tree as tokens.
-/

namespace ChangeQuery.ChangeGrammar

/-- The rules that refer to each other. -/
inductive Rule where
  | statement
  | expression
  deriving DecidableEq, Repr

/-- A parsing expression over these rules. -/
abbrev Reader := Peg Rule

open Peg (text one many many1 option followedBy notFollowedBy token branch leaf tight spaced)

/-! ### Layout -/

/-- Everything to the end of the line, or to the closing mark. -/
def comment : Reader :=
  tight
    (text "//" ++ many (notFollowedBy (text "\n") ++ Peg.any) <|>
      text "/*" ++ many (notFollowedBy (text "*/") ++ Peg.any) ++ text "*/")

/-- Blanks and comments in any order. -/
def layout : Reader :=
  many (one (fun c => c == ' ' || c == '\t' || c == '\r' || c == '\n') <|> comment)

/-! ### Words -/

/-- The characters that may continue a name. -/
def isNameChar (c : Char) : Bool :=
  c.isAlphanum || c == '_' || c == '$'

/-- The characters that may start a name. -/
def isNameStart (c : Char) : Bool :=
  c.isAlpha || c == '_' || c == '$'

/-- The name ends here. -/
def endOfName : Reader :=
  notFollowedBy (one isNameChar)

/-- The first of these texts. -/
def oneOf (first : String) (others : List String) : Reader :=
  others.foldl (fun reader other => reader <|> text other) (text first)

/-- The number of a numbered placeholder, such as `<1>`. -/
def variant : Reader :=
  text "<" ++ many1 (one fun c => c.isAlphanum || c == '_') ++ text ">"

/-- A placeholder name, bare or numbered. -/
def placeholder (name : String) : Reader :=
  text name ++ option variant ++ endOfName

/-- Words of the language and names of placeholders, which are no names. -/
def reserved : Reader :=
  oneOf "if"
      ["else", "while", "for", "do", "return", "break", "continue", "new", "this", "throw", "true",
       "false", "null", "EXPR", "binOP", "OP", "LT", "ID", "_"] ++
    endOfName

/-- A name that is not reserved. -/
def name : Reader :=
  notFollowedBy reserved ++ one isNameStart ++ many (one isNameChar)

/-- The token of a word of the language. -/
def keyword (word : String) : Reader :=
  token (text word ++ endOfName)

/-- The token of a punctuation mark. -/
def mark (symbol : String) : Reader :=
  token (text symbol)

/-! ### Query tokens -/

/-- Any number of things at this place. -/
def wildcard : Reader := token (text "<...>")

/-- The marker of an empty side. -/
def emptyMarker : Reader := token (text "_" ++ endOfName)

/-- A placeholder for an expression. -/
def exprPlaceholder : Reader := token (placeholder "EXPR")

/-- A placeholder for a binary operator. -/
def binaryPlaceholder : Reader := token (placeholder "binOP")

/-- A placeholder for an operator of either kind. -/
def operatorPlaceholder : Reader := token (placeholder "OP")

/-! ### Literals and names -/

/-- One decimal digit. -/
def digit : Reader := one Char.isDigit

/-- One hexadecimal digit. -/
def hexDigit : Reader :=
  one fun c => c.isDigit || ('a' ≤ c && c ≤ 'f') || ('A' ≤ c && c ≤ 'F')

/-- Digits on both sides of a point, with an exponent and a type suffix if wanted. -/
def floatLiteral : Reader :=
  many1 digit ++ text "." ++ many1 digit ++
    option (oneOf "e" ["E"] ++ option (oneOf "+" ["-"]) ++ many1 digit) ++
    option (oneOf "f" ["F", "d", "D"])

/-- Hexadecimal digits after `0x`. -/
def hexLiteral : Reader :=
  text "0" ++ oneOf "x" ["X"] ++ many1 hexDigit ++ option (oneOf "l" ["L"])

/-- Decimal digits. -/
def intLiteral : Reader :=
  many1 digit ++ option (oneOf "l" ["L"])

/-- Text between two delimiters on one line; a backslash takes the next character with it. -/
def quotedLiteral (delimiter : String) : Reader :=
  text delimiter ++
    many (text "\\" ++ Peg.any <|> notFollowedBy (oneOf delimiter ["\n"]) ++ Peg.any) ++
    text delimiter

/-- A number, a string, a character, a literal word, or a placeholder for one of these. -/
def literal : Reader :=
  branch "literal"
    (token
      (placeholder "LT" <|> floatLiteral <|> hexLiteral <|> intLiteral <|> quotedLiteral "\"" <|>
        quotedLiteral "'" <|> oneOf "true" ["false", "null"] ++ endOfName))

/-- A name or a placeholder for one. -/
def identifier : Reader :=
  branch "identifier" (token (placeholder "ID" <|> name))

/-- A dotted name or a placeholder, followed by brackets for arrays. -/
def typeName : Reader :=
  branch "type_name"
    (token
      ((placeholder "ID" <|> name ++ many (text "." ++ name)) ++ many (text "[" ++ text "]")))

/-! ### Expressions -/

/-- What may follow a placeholder that stands for a whole expression. -/
def endOfExpression : Reader :=
  mark ";" <|> mark ")" <|> mark "," <|> mark "]" <|> mark ":"

/-- An expression, or a placeholder for a whole one. -/
def expressionSlot : Reader :=
  exprPlaceholder ++ followedBy endOfExpression <|> .call .expression

/-- Expressions separated by commas. -/
def commaSeparated (item : Reader) : Reader :=
  item ++ many (mark "," ++ item)

/-- The operators that stand between the operands of a chain. -/
def binaryOperator : Reader :=
  branch "binary_operators"
    (token
      (oneOf "||" ["&&", "==", "!=", "<=", ">="] <|>
        oneOf ">>>" [">>", "<<"] ++ notFollowedBy (text "=") <|>
        oneOf "|" ["&", "^", "+", "*", "/", "%", "<", ">"] ++ notFollowedBy (text "=") <|>
        text "-" ++ notFollowedBy (oneOf ">" ["="])))

/-- The operators of an assignment. -/
def assignOperator : Reader :=
  branch "assign_operators"
    (token
      (oneOf "+=" ["-=", "*=", "/=", "%=", "&=", "|=", "^=", "<<=", ">>>=", ">>="] <|>
        text "=" ++ notFollowedBy (text "=")))

/-- A binary operator or a placeholder for one. -/
def binarySlot : Reader :=
  binaryPlaceholder <|> operatorPlaceholder <|> binaryOperator

/-- An assignment operator or a placeholder for one. -/
def assignSlot : Reader :=
  operatorPlaceholder <|> assignOperator

/-- Parentheses around an expression. -/
def parExpression : Reader :=
  branch "par_expression" (mark "(" ++ expressionSlot ++ mark ")")

/-- Parentheses around arguments.  The list between them is one node also when it is empty. -/
def arguments : Reader :=
  branch "arguments"
    (mark "(" ++ branch "argument_list" (option (commaSeparated expressionSlot)) ++ mark ")")

/-- A new object. -/
def creator : Reader :=
  branch "creator" (keyword "new" ++ typeName ++ arguments)

/-- What can stand alone as a value. -/
def primary : Reader :=
  branch "primary"
    (wildcard <|> literal <|> parExpression <|> creator <|> keyword "this" <|> identifier)

/-- What may follow a value: a member, a call, an element. -/
def selector : Reader :=
  branch "selector"
    (mark "." ++ identifier ++ option arguments <|> arguments <|>
      mark "[" ++ expressionSlot ++ mark "]")

/-- A sign or negation.  The minus must not begin an arrow; layout read while looking for the arrow
belongs to the token. -/
def prefixOperator : Reader :=
  branch "prefix_operator"
    (leaf (oneOf "++" ["--", "!", "~", "+"] <|> text "-" ++ notFollowedBy (text ">")))

/-- An increment or decrement behind a value. -/
def postfixOperator : Reader :=
  branch "postfix_operator" (leaf (oneOf "++" ["--"]))

/-- A value with its operators and selectors. -/
def unary : Reader :=
  branch "unary" (many prefixOperator ++ primary ++ many selector ++ option postfixOperator)

/-- An operand, or a placeholder for one. -/
def operandSlot : Reader :=
  exprPlaceholder <|> branch "expression" unary

/-- A chain of operands, an assignment, or a single value. -/
def expression : Reader :=
  branch "expression"
    (operandSlot ++ (many1 (binarySlot ++ operandSlot) <|> assignSlot ++ expressionSlot) <|> unary)

/-! ### Statements -/

/-- Any number of statements. -/
def statements : Reader :=
  branch "multipleStatements" (many (.call .statement))

/-- Statements, or the marker that there are none. -/
def body : Reader :=
  emptyMarker <|> statements

/-- Statements in braces. -/
def block : Reader :=
  branch "block" (mark "\x7b" ++ body ++ mark "\x7d")

/-- A condition with one or two branches. -/
def ifStatement : Reader :=
  branch "if_statement"
    (keyword "if" ++ parExpression ++ .call .statement ++
      option (keyword "else" ++ .call .statement))

/-- A loop with a condition. -/
def whileStatement : Reader :=
  branch "while_statement" (keyword "while" ++ parExpression ++ .call .statement)

/-- A declared name with its value, if any. -/
def variableDeclarator : Reader :=
  branch "variable_declarator" (identifier ++ option (assignSlot ++ expressionSlot))

/-- A type and the names declared to have it. -/
def declarators : Reader :=
  typeName ++ commaSeparated variableDeclarator

/-- Expressions separated by commas, as one node. -/
def expressionList : Reader :=
  branch "expression_list" (commaSeparated expressionSlot)

/-- A loop over the elements of a collection. -/
def forEach : Reader :=
  branch "for_each" (typeName ++ identifier ++ mark ":" ++ expressionSlot)

/-- A loop with a start, a condition and a step. -/
def forClassic : Reader :=
  branch "for_classic"
    (option (branch "for_init" (declarators <|> expressionList)) ++ mark ";" ++
      option expressionSlot ++ mark ";" ++ option expressionList)

/-- A loop of either kind. -/
def forStatement : Reader :=
  branch "for_statement"
    (keyword "for" ++ mark "(" ++ (forEach <|> forClassic) ++ mark ")" ++ .call .statement)

/-- Leaving a method. -/
def returnStatement : Reader :=
  branch "return_statement" (keyword "return" ++ option expressionSlot ++ mark ";")

/-- Raising an exception. -/
def throwStatement : Reader :=
  branch "throw_statement" (keyword "throw" ++ expressionSlot ++ mark ";")

/-- Leaving or repeating a loop. -/
def jumpStatement : Reader :=
  branch "jump_statement"
    ((keyword "break" <|> keyword "continue") ++ option identifier ++ mark ";")

/-- A declaration of local variables. -/
def localVariableDeclaration : Reader :=
  branch "local_variable_declaration" (declarators ++ mark ";")

/-- An expression for its effect. -/
def expressionStatement : Reader :=
  branch "expression_statement" (expressionSlot ++ mark ";")

/-- One statement. -/
def statement : Reader :=
  branch "statement"
    (block <|> ifStatement <|> whileStatement <|> forStatement <|> returnStatement <|>
      throwStatement <|> jumpStatement <|> localVariableDeclaration <|> expressionStatement <|>
      wildcard)

/-! ### Changes -/

/-- One side of a change. -/
def snippet : Reader :=
  spaced (branch "snippet" body)

/-- Layout around the arrow; its line breaks are tokens. -/
def looseLayout : Reader :=
  many (mark "\n" <|> one (fun c => c == ' ' || c == '\t' || c == '\r') <|> comment)

/-- A whole text: two sides around an arrow. -/
def change : Reader :=
  tight
    (branch "change"
      (looseLayout ++ snippet ++ looseLayout ++ mark "->" ++ looseLayout ++ snippet ++
        looseLayout ++ .stop))

/-- The rules of the grammar and its layout. -/
def grammar : Grammar Rule where
  rule
    | .statement => statement
    | .expression => expression
  layout := layout

/-- The tree of a change text, if the text follows the grammar. -/
def read? (source : String) : Option (Rose Label) :=
  grammar.read? change source

end ChangeQuery.ChangeGrammar
