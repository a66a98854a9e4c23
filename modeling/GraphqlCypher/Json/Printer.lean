import GraphqlCypher.Json.Basic

/-! JSON text.

`compact` writes a value without blanks, `pretty` with one entry a line. Strings
escape the quote, the backslash and the control characters; all else is written as
it is. A floating point number always shows that it is one. -/
namespace GraphqlCypher.Json

/-- Floating point numbers are positional from `0.00001` up to `1e16`, and whole
ones end in `.0`. -/
def numberStyle : NumberStyle :=
  { tie := .toEven, positional := fun e => -5 ≤ e && e < 16, wholeEnding := ".0" }

def Number.text : Number → String
  | .integer n => toString n
  | .real (.infinite _) => "null"
  | .real x => numberStyle.text x

def hexDigit (n : Nat) : Char := (Nat.digitChar n)

/-- A character as it stands between quotes. -/
def escape (c : Char) : List Char :=
  if c = '"' then ['\\', '"']
  else if c = '\\' then ['\\', '\\']
  else if c = '\n' then ['\\', 'n']
  else if c = '\r' then ['\\', 'r']
  else if c = '\t' then ['\\', 't']
  else if c.toNat = 8 then ['\\', 'b']
  else if c.toNat = 12 then ['\\', 'f']
  else if c.toNat < 32 then
    ['\\', 'u', '0', '0', hexDigit (c.toNat / 16), hexDigit (c.toNat % 16)]
  else [c]

def quote (s : String) : String := String.ofList ('"' :: s.toList.flatMap escape ++ ['"'])

mutual

/-- The value without blanks. -/
def compact : Json → String
  | .null => "null"
  | .bool true => "true"
  | .bool false => "false"
  | .number n => n.text
  | .string s => quote s
  | .array items => "[" ++ ",".intercalate (compactItems items) ++ "]"
  | .object entries => "\x7b" ++ ",".intercalate (compactEntries entries) ++ "\x7d"

def compactItems : List Json → List String
  | [] => []
  | v :: rest => compact v :: compactItems rest

def compactEntries : List (String × Json) → List String
  | [] => []
  | (k, v) :: rest => (quote k ++ ":" ++ compact v) :: compactEntries rest

end

/-- Two blanks for each level. -/
def margin (level : Nat) : String := String.ofList (List.replicate (2 * level) ' ')

/-- The parts between two brackets, one a line; nothing stands between them if
there is no part. -/
def bracketed (level : Nat) (first last : String) (parts : List String) : String :=
  if parts.isEmpty then first ++ last
  else
    let inner := margin (level + 1)
    first ++ "\n" ++ inner ++ (",\n" ++ inner).intercalate parts ++ "\n" ++ margin level ++ last

mutual

def prettyAt (level : Nat) : Json → String
  | .array items => bracketed level "[" "]" (prettyItems (level + 1) items)
  | .object entries => bracketed level "\x7b" "\x7d" (prettyEntries (level + 1) entries)
  | .null => "null"
  | .bool b => if b then "true" else "false"
  | .number n => n.text
  | .string s => quote s

def prettyItems (level : Nat) : List Json → List String
  | [] => []
  | v :: rest => prettyAt level v :: prettyItems level rest

def prettyEntries (level : Nat) : List (String × Json) → List String
  | [] => []
  | (k, v) :: rest => (quote k ++ ": " ++ prettyAt level v) :: prettyEntries level rest

end

/-- The value with one entry a line, indented by two blanks a level. -/
def pretty (v : Json) : String := prettyAt 0 v

end GraphqlCypher.Json
