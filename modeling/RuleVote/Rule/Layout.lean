import RuleVote.Rule.Grammar
import RuleVote.Rule.Program

/-!
# The layout of programs

A text is laid out as its lines that hold more than blanks and comments,
each with its indentation: a space is one column, a tab goes on to the next
multiple of eight. A comment starts at a `#` outside quotes.

A block takes the lines at its own indentation. A conditional takes its
header lines at that indentation and below each of them a body, which is a
return on the header line itself or a deeper block. Each level stops at the
first line that is indented less, and the caller decides what that line
means. Every block, body or branch that is opened takes a line first, so the
number of lines bounds how often one is opened.
-/

namespace RuleVote

/-- A line of a program. -/
structure SourceLine where
  /-- Its number in the text, from one. -/
  number : Nat
  /-- The column of its first character. -/
  indent : Nat
  /-- Its text without comment and surrounding blanks. -/
  content : List Char
deriving DecidableEq, Repr

namespace Layout

/-- A line up to its comment, read after an opening quote, if any. -/
def beforeComment : Option Char → List Char → List Char
  | _, [] => []
  | none, c :: cs =>
    if c = '#' then []
    else c :: beforeComment (if c = '"' ∨ c = '\'' then some c else none) cs
  | some quote, c :: cs => c :: beforeComment (if c = quote then none else some quote) cs

/-- A line without its comment. -/
def stripComment (line : List Char) : List Char := beforeComment none line

/-- Lines put back together with line feeds. -/
def joinLines : List (List Char) → List Char
  | [] => []
  | [line] => line
  | line :: lines => line ++ '\n' :: joinLines lines

/-- A text without its comments. -/
def stripComments (text : List Char) : List Char :=
  joinLines ((textLines text).map stripComment)

/-- The columns between two tab stops. -/
def tabWidth : Nat := 8

/-- The column after the spaces and tabs that start a line. -/
def indentFrom (column : Nat) : List Char → Nat
  | ' ' :: cs => indentFrom (column + 1) cs
  | '\t' :: cs => indentFrom ((column / tabWidth + 1) * tabWidth) cs
  | _ => column

/-- A line as a line of a program, unless it is blank. -/
def sourceLine? (number : Nat) (line : List Char) : Option SourceLine :=
  let line := stripComment line
  let content := trimChars line
  if content.isEmpty then none else some ⟨number, indentFrom 0 line, content⟩

/-- The lines of a program, the first of them with a given number. -/
def numberLines (number : Nat) : List (List Char) → List SourceLine
  | [] => []
  | line :: lines => (sourceLine? number line).toList ++ numberLines (number + 1) lines

/-- The lines of a program. -/
def layout (text : List Char) : List SourceLine := numberLines 1 (textLines text)

/-- The failure for a line. -/
def lineFailure (line : SourceLine) (message : String) : Failure :=
  .malformedRule ("line " ++ toString line.number ++ ": " ++ message ++ ": `"
    ++ String.ofList line.content ++ "`")

/-- The largest index that a return can name. -/
def maxIndex : Nat := Nat.pow 2 31 - 1

/-- An index, with an optional minus sign. -/
def takeIndex? (cs : List Char) : Option (Int × List Char) :=
  let (negative, rest) := match cs with
    | '-' :: rest => (true, rest)
    | _ => (false, cs)
  match Token.takeDigits rest with
  | ([], _) => none
  | (ds, rest) =>
    let n := digitsValue ds
    if negative then if n ≤ maxIndex + 1 then some (-n, rest) else none
    else if n ≤ maxIndex then some (n, rest) else none

/-- What a return names: an index or a word. -/
def takeTarget? (cs : List Char) : Option (ReturnTarget × List Char) :=
  match takeIndex? cs with
  | some (i, rest) => some (.index i, rest)
  | none => (Token.takeWord? cs).map fun (name, rest) => (.label name, rest)

/-- The target of a text that is one return. -/
def returnTarget? (cs : List Char) : Option ReturnTarget := do
  let rest ← Token.takeKeyword? "return" cs
  let (target, rest) ← takeTarget? (Token.skipGaps rest)
  if (Token.skipGaps rest).isEmpty then some target else none

/-- The return on a line of which `content` is shown. -/
def returnLine (line : SourceLine) (content : List Char) :
    Except Failure (Statement ReturnTarget) :=
  match returnTarget? content with
  | some target => .ok (.give target)
  | none =>
    .error (lineFailure ⟨line.number, line.indent, content⟩
      "expected `return <LABEL>` or `return <index>`")

/-- The condition of a header line and the text after its colon. -/
def header? (keyword : String) (content : List Char) : Option (Expr × List Char) := do
  let rest ← Token.takeKeyword? keyword content
  let (condition, rest) ← (Grammar.takeExpression rest).toOption
  let rest ← Token.takeMark? ':' rest
  return (condition, rest)

/-- The text after the colon of an `else`. -/
def elseHeader? (content : List Char) : Option (List Char) := do
  Token.takeMark? ':' (← Token.takeKeyword? "else" content)

mutual

/-- The statements at one indentation, up to a line that is indented less.
`fuel` is never short when it exceeds the number of lines. -/
def block : Nat → Nat → List SourceLine →
    Except Failure (Block ReturnTarget × List SourceLine)
  | 0, _, lines => .ok ([], lines)
  | _ + 1, _, [] => .ok ([], [])
  | fuel + 1, indent, line :: lines =>
    if line.indent < indent then .ok ([], line :: lines)
    else if indent < line.indent then .error (lineFailure line "unexpected indent")
    else if Token.startsWith "if" line.content then do
      let (branch, rest) ← branch fuel "if" indent line lines
      let ((branches, otherwise), rest) ← branches fuel indent rest
      let (statements, rest) ← block fuel indent rest
      return (.conditional (branch :: branches) otherwise :: statements, rest)
    else if Token.startsWith "elif" line.content || Token.startsWith "else" line.content then
      .error (lineFailure line "branch without a matching `if`")
    else do
      let statement ← returnLine line line.content
      let (statements, rest) ← block fuel indent lines
      return (statement :: statements, rest)

/-- The condition on a header line with its body. -/
def branch : Nat → String → Nat → SourceLine → List SourceLine →
    Except Failure ((Expr × Block ReturnTarget) × List SourceLine)
  | 0, _, _, line, _ => .error (lineFailure line "malformed condition")
  | fuel + 1, keyword, indent, line, lines =>
    match header? keyword line.content with
    | none => .error (lineFailure line "malformed condition")
    | some (condition, after) => do
      let (statements, rest) ← body fuel indent line after lines
      return ((condition, statements), rest)

/-- The further branches of a conditional and its last body. -/
def branches : Nat → Nat → List SourceLine →
    Except Failure
      ((List (Expr × Block ReturnTarget) × Option (Block ReturnTarget)) × List SourceLine)
  | 0, _, lines => .ok (([], none), lines)
  | _ + 1, _, [] => .ok (([], none), [])
  | fuel + 1, indent, line :: lines =>
    if line.indent ≠ indent then .ok (([], none), line :: lines)
    else if Token.startsWith "elif" line.content then do
      let (branch, rest) ← branch fuel "elif" indent line lines
      let ((branches, otherwise), rest) ← branches fuel indent rest
      return ((branch :: branches, otherwise), rest)
    else if Token.startsWith "else" line.content then
      match elseHeader? line.content with
      | none => .error (lineFailure line "malformed else")
      | some after => do
        let (statements, rest) ← body fuel indent line after lines
        return (([], some statements), rest)
    else .ok (([], none), line :: lines)

/-- The body of a header line, of which `after` is the text after the
colon. -/
def body : Nat → Nat → SourceLine → List Char → List SourceLine →
    Except Failure (Block ReturnTarget × List SourceLine)
  | 0, _, line, _, _ => .error (lineFailure line "expected an indented block")
  | fuel + 1, indent, line, after, lines =>
    let after := trimChars after
    if after.isEmpty then
      match lines with
      | next :: _ =>
        if indent < next.indent then block fuel next.indent lines
        else .error (lineFailure line "expected an indented block")
      | [] => .error (lineFailure line "expected an indented block")
    else do return ([← returnLine line after], lines)

end

/-- Reads the lines of a program. A line is opened at most as a statement, a
branch and a body. -/
def parseProgram (lines : List SourceLine) : Except Failure (Block ReturnTarget) := do
  let indent := match lines with
    | line :: _ => line.indent
    | [] => 0
  let (statements, rest) ← block (4 * lines.length + 4) indent lines
  match rest with
  | line :: _ => .error (lineFailure line "unindent does not match any outer level")
  | [] => return statements

end Layout

/-- Reads rule text. A text whose first line begins with `if` or `return` is
a program, any other one condition. -/
def parseBody (text : String) : Except Failure RuleBody :=
  let text := text.toList
  let lines := Layout.layout text
  match lines with
  | [] => .error (.malformedRule "rule is empty")
  | first :: _ =>
    if Token.startsWith "if" first.content || Token.startsWith "return" first.content then
      RuleBody.program <$> Layout.parseProgram lines
    else RuleBody.expression <$> parseExpression (Layout.stripComments text)

end RuleVote
