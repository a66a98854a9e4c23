import GraphqlCypher.Language.Value
import GraphqlCypher.Number.Shortest
import GraphqlCypher.Text.Characters

/-! Writing values and directives.

Strings are the only part of a value that can be written in more than one way: a
text of several lines stands as a block, indented like the lines around it, or on
one line with escapes. `Value.textWith` takes the way to write strings. -/
namespace GraphqlCypher

/-- Numbers are always positional, and whole ones have no fraction. -/
def plainNumbers : NumberStyle := { tie := .away, positional := fun _ => true, wholeEnding := "" }

namespace Printer

/-- So many blanks. -/
def blanks (indent : Nat) : String := String.ofList (List.replicate indent ' ')

/-- Characters that stand for themselves between quotes. -/
def isPlain (c : Char) : Bool := 0x20 ≤ c.toNat && c.toNat ≤ 0xFFFF

/-- The code of a character in decimal, with four digits at least. -/
def codeEscape (c : Char) : List Char :=
  let digits := Nat.toDigits 10 c.toNat
  ['\\', 'u'] ++ List.replicate (4 - digits.length) '0' ++ digits

def escape (c : Char) : List Char :=
  if c = '\r' then ['\\', 'r']
  else if c = '\n' then ['\\', 'n']
  else if c = '\t' then ['\\', 't']
  else if c = '"' then ['\\', '"']
  else if c = '\\' then ['\\', '\\']
  else if isPlain c then [c]
  else codeEscape c

/-- A text on one line, between quotes. -/
def quoted (s : String) : String := String.ofList ('"' :: s.toList.flatMap escape ++ ['"'])

/-- Three quotes get a backslash. -/
def escapeQuotes : List Char → List Char
  | [] => []
  | '"' :: '"' :: '"' :: rest => '\\' :: '"' :: '"' :: '"' :: escapeQuotes rest
  | c :: rest => c :: escapeQuotes rest

/-- A text as a block whose lines stand one level deeper. Blank lines are left empty. -/
def block (indent : Nat) (s : String) : String :=
  let line (cs : List Char) : String :=
    if Text.isBlankLine cs then "\n"
    else blanks (indent + 2) ++ String.ofList (escapeQuotes cs) ++ "\n"
  "\"\"\"\n" ++ String.join ((Text.lines s.toList).map line) ++ blanks indent ++ "\"\"\""

/-- Whether every character may stand in a block. -/
def fitsBlock (s : String) : Bool :=
  s.toList.all fun c => c == '\n' || c == '\r' || c == '\t' || isPlain c

/-- A text of several lines is a block if it can be one; any other is on one line. -/
def string (indent : Nat) (s : String) : String :=
  if s.toList.contains '\n' && fitsBlock s then block indent s else quoted s

end Printer

mutual

/-- The text of a value, whose strings are written in the given way. -/
def Value.textWith (string : String → String) : Value → String
  | .var n => "$" ++ n
  | .int n => toString n
  | .float x => plainNumbers.text x
  | .string s => string s
  | .bool true => "true"
  | .bool false => "false"
  | .null => "null"
  | .enum n => n
  | .list items => "[" ++ ", ".intercalate (Value.textItems string items) ++ "]"
  | .object fields => "\x7b" ++ ", ".intercalate (Value.textFields string fields) ++ "\x7d"

def Value.textItems (string : String → String) : List Value → List String
  | [] => []
  | v :: rest => v.textWith string :: Value.textItems string rest

def Value.textFields (string : String → String) : List (String × Value) → List String
  | [] => []
  | (k, v) :: rest => (k ++ ": " ++ v.textWith string) :: Value.textFields string rest

end

/-- Arguments in parentheses, or nothing if there are none. -/
def Value.argumentsText (string : String → String) (arguments : List (String × Value)) :
    String :=
  if arguments.isEmpty then ""
  else "(" ++ ", ".intercalate (Value.textFields string arguments) ++ ")"

def Directive.textWith (string : String → String) (d : Directive) : String :=
  "@" ++ d.name ++ Value.argumentsText string d.arguments

/-- Directives as they follow what they mark, each after a blank. -/
def Directive.suffix (string : String → String) (ds : List Directive) : String :=
  String.join (ds.map fun d => " " ++ d.textWith string)

end GraphqlCypher
