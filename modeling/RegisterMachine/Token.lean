import RegisterMachine.Fault
import RegisterMachine.Text.Blank

/-!
Tokens of a source text. A comment runs to the end of its line; a double quote opens a quoted token
that keeps both quotes and may hold anything, line ends included; a symbol is a token by itself; any
other run of characters without blanks is one token.
-/
namespace RegisterMachine

structure Token where
  text : String
  place : Position
  deriving DecidableEq

structure Lexicon where
  comment : Option Char
  symbols : List Char

namespace Token

def replaceEscape (letter replacement : Char) : List Char → List Char
  | '\\' :: c :: rest =>
    if c = letter then replacement :: replaceEscape letter replacement rest
    else '\\' :: replaceEscape letter replacement (c :: rest)
  | c :: rest => c :: replaceEscape letter replacement rest
  | [] => []

/-- Replaces a backslash with `n` after it by a line end, then one with `t` after it by a tab. -/
def substitute (chars : List Char) : List Char :=
  replaceEscape 't' '\t' (replaceEscape 'n' '\n' chars)

/-- What the character before has left open. Characters are kept last first. -/
inductive Mode where
  | between
  | word (start : Position) (chars : List Char)
  | quoted (start : Position) (chars : List Char)
  | comment

/-- A scan that stands after the character at `line` and `column`. -/
structure Scan where
  line : Nat := 1
  column : Nat := 0
  mode : Mode := .between
  tokens : Array Token := #[]

namespace Scan

/-- The place of the next character. A line end counts as column zero of the line it ends. -/
def place (scan : Scan) (c : Char) : Position :=
  ⟨scan.line, if c = '\n' then 0 else scan.column + 1⟩

def move (scan : Scan) (c : Char) : Scan :=
  if c = '\n' then { scan with line := scan.line + 1, column := 0 }
  else { scan with column := scan.column + 1 }

def emit (scan : Scan) (place : Position) (text : List Char) : Scan :=
  { scan with tokens := scan.tokens.push ⟨String.ofList text, place⟩ }

def close (scan : Scan) : Scan :=
  match scan.mode with
  | .word start chars => { scan with mode := .between }.emit start chars.reverse
  | _ => { scan with mode := .between }

def advanceText (lexicon : Lexicon) (scan : Scan) (c : Char) : Scan :=
  let place := scan.place c
  let moved := scan.move c
  if c = '"' then { moved.close with mode := .quoted place [c] }
  else if c ∈ lexicon.symbols then moved.close.emit place [c]
  else if Text.isBlank c then moved.close
  else match scan.mode with
    | .word start chars => { moved with mode := .word start (c :: chars) }
    | _ => { moved with mode := .word place [c] }

def advanceQuoted (scan : Scan) (start : Position) (chars : List Char) (c : Char) : Scan :=
  let moved := scan.move c
  if c = '"' then
    { moved with mode := .between }.emit start (substitute (c :: chars).reverse)
  else { moved with mode := .quoted start (c :: chars) }

/-- Takes one character. A line end that itself starts comments does not end them. -/
def advance (lexicon : Lexicon) (scan : Scan) (c : Char) : Scan :=
  match scan.mode with
  | .quoted start chars => scan.advanceQuoted start chars c
  | .comment =>
    if c = '\n' ∧ lexicon.comment ≠ some c then scan.advanceText lexicon c else scan.move c
  | _ =>
    if lexicon.comment = some c then { (scan.move c).close with mode := .comment }
    else scan.advanceText lexicon c

def finish (scan : Scan) : Except Fault (List Token) :=
  match scan.mode with
  | .quoted start _ => .error (.located start .unterminatedText)
  | _ => .ok scan.close.tokens.toList

end Scan

end Token

def Lexicon.tokenize (lexicon : Lexicon) (source : String) : Except Fault (List Token) :=
  (source.toList.foldl (Token.Scan.advance lexicon) {}).finish

end RegisterMachine
