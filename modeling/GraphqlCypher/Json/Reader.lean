import GraphqlCypher.Json.Basic
import GraphqlCypher.Reader
import GraphqlCypher.Text.Characters

/-! Reading JSON text.

`Json.parse` reads a whole text. Values may be nested 127 deep. A value that nobody
will look at is read under looser rules (`Mode.skip`): its numbers have no bounds,
its escapes need not pair, and it may be nested to any depth.

Whatever cannot be read is refused with the cause that a reader from left to right
meets first. -/
namespace GraphqlCypher.Json

/-- Why a text is not JSON. -/
inductive Malformed where
  | endInValue
  | endInObject
  | endInList
  | endInString
  | expectedValue
  | expectedLiteral
  | expectedColon
  | expectedListEnd
  | expectedObjectEnd
  | keyNotString
  | trailingComma
  | trailingCharacters
  | hexEscapeEnd
  | loneSurrogate
  | invalidEscape
  | invalidNumber
  | numberOutOfRange
  | controlCharacter
  | tooDeep
deriving DecidableEq, Repr

def Malformed.message : Malformed → String
  | .endInValue => "EOF while parsing a value"
  | .endInObject => "EOF while parsing an object"
  | .endInList => "EOF while parsing a list"
  | .endInString => "EOF while parsing a string"
  | .expectedValue => "expected value"
  | .expectedLiteral => "expected ident"
  | .expectedColon => "expected `:`"
  | .expectedListEnd => "expected `,` or `]`"
  | .expectedObjectEnd => "expected `,` or `\x7d`"
  | .keyNotString => "key must be a string"
  | .trailingComma => "trailing comma"
  | .trailingCharacters => "trailing characters"
  | .hexEscapeEnd => "unexpected end of hex escape"
  | .loneSurrogate => "lone leading surrogate in hex escape"
  | .invalidEscape => "invalid escape"
  | .invalidNumber => "invalid number"
  | .numberOutOfRange => "number out of range"
  | .controlCharacter => "control character (\\u0000-\\u001F) found while parsing a string"
  | .tooDeep => "recursion limit exceeded"

/-- Why a value is not the one that was asked for. -/
inductive DecodeError where
  | malformed (cause : Malformed)
  | wrongType (found : String) (expected : String)
  | duplicateField (name : String)
  | tooManyElements (length : Nat)
  | noGenerator
  | unnamedGenerator
deriving DecidableEq, Repr

/-- Whether the value that is read is wanted, and whether a repeated key counts as
often as it is written (`every`) or once (`keep`). -/
inductive Mode where
  | keep
  | every
  | skip
deriving DecidableEq, Repr

/-- Reads JSON text. -/
abbrev TextReader (strict : Bool) (α : Type) := Reader Char DecodeError strict α

namespace TextReader

def fail {α : Type} {s : Bool} (cause : Malformed) : TextReader s α :=
  Reader.refuse fun _ => .malformed cause

/-- The cause that depends on whether the text has come to its end. -/
def atEnd (cause otherwise : Malformed) (input : List Char) : DecodeError :=
  .malformed (if input.isEmpty then cause else otherwise)

def isBlank (c : Char) : Bool := c == ' ' || c == '\n' || c == '\t' || c == '\r'

def blanks : TextReader false Unit := (Reader.takeWhile isBlank).map fun _ => ()

/-- The given character. -/
def char (c : Char) (error : List Char → DecodeError) : TextReader true Unit :=
  Reader.take (fun x => if x = c then some () else none) error

def startsWith (c : Char) (input : List Char) : Bool := input.head? == some c

/-! ### Literals and numbers -/

/-- The rest of a word whose first letter decided that it must follow. -/
def letters : List Char → TextReader false Unit
  | [] => Reader.done ()
  | c :: rest => ((char c (atEnd .endInValue .expectedLiteral)).andThen fun _ => letters rest).relax

def literal (word : List Char) (v : Json) : TextReader true Json :=
  match word with
  | [] => fail .expectedLiteral
  | c :: rest => (char c (atEnd .endInValue .expectedLiteral)).andThen fun _ =>
      (letters rest).map fun _ => v

/-- What is missing where a digit must stand. -/
def digitMissing (mode : Mode) : List Char → DecodeError :=
  match mode with
  | .skip => fun _ => .malformed .invalidNumber
  | _ => atEnd .endInValue .invalidNumber

/-- One digit or more. -/
def digits (mode : Mode) : TextReader true (List Char) :=
  (Reader.take (fun c => if c.isDigit then some c else none) (digitMissing mode)).andThen fun c =>
    (Reader.takeWhile Char.isDigit).map (c :: ·)

/-- The digits before the point: zero alone, or digits that begin with another. -/
def wholeDigits (mode : Mode) : TextReader true (List Char) :=
  (digits mode).check (fun ds => if ds.head? = some '0' ∧ 1 < ds.length then none else some ds)
    fun _ => .malformed .invalidNumber

def fraction (mode : Mode) : TextReader false (Option (List Char)) := Reader.look fun input =>
  if startsWith '.' input then
    ((char '.' fun _ => .malformed .invalidNumber).andThen fun _ => (digits mode).map some).relax
  else Reader.done none

def sign : TextReader false Bool := Reader.look fun input =>
  if startsWith '-' input then
    ((char '-' fun _ => .malformed .invalidNumber).map fun _ => true).relax
  else if startsWith '+' input then
    ((char '+' fun _ => .malformed .invalidNumber).map fun _ => false).relax
  else Reader.done false

def exponent (mode : Mode) : TextReader false (Option Int) := Reader.look fun input =>
  if startsWith 'e' input || startsWith 'E' input then
    ((Reader.take some fun _ => .malformed .invalidNumber).andThen fun _ =>
      sign.andThen fun negative => (digits mode).map fun ds =>
        let n : Int := Nat.ofDigitChars 10 ds 0
        some (if negative then -n else n)).relax
  else Reader.done none

/-- Whole numbers of 64 bits, signed or not, stay whole; all others are rounded,
`-0` included. A number beyond the floating point numbers is refused. -/
def numberOf? ( negative : Bool) (whole : List Char) (places : Option (List Char))
    (power : Option Int) : Option Number :=
  let rounded (coefficient : Nat) (e : Int) : Option Number :=
    match Binary64.ofDecimal negative coefficient e with
    | .infinite _ => none
    | x => some (.real x)
  let n := Nat.ofDigitChars 10 whole 0
  match places, power with
  | none, none =>
    if negative then
      if n = 0 || Nat.pow 2 63 < n then rounded n 0 else some (.integer (-(n : Int)))
    else if n < Nat.pow 2 64 then some (.integer n) else rounded n 0
  | _, _ =>
    let fractional := places.getD []
    rounded (Nat.ofDigitChars 10 (whole ++ fractional) 0) (power.getD 0 - fractional.length)

def number (mode : Mode) : TextReader true Json :=
  Reader.look fun input =>
    let unsigned ( negative : Bool) : TextReader true Json :=
      ((wholeDigits mode).andThen fun whole =>
        (fraction mode).andThen fun places =>
          (exponent mode).map fun power => (whole, places, power)).check
        (fun (whole, places, power) =>
          match mode with
          | .skip => some .null
          | _ => (numberOf? negative whole places power).map Json.number)
        fun _ => .malformed .numberOutOfRange
    if startsWith '-' input then
      (char '-' fun _ => .malformed .invalidNumber).andThen fun _ => unsigned true
    else unsigned false

/-! ### Strings -/

/-- Four hexadecimal digits. The text has ended if fewer than four bytes are left. -/
def hex : TextReader true Nat
  | a :: b :: c :: d :: rest =>
    match Text.hexValue? a, Text.hexValue? b, Text.hexValue? c, Text.hexValue? d with
    | some w, some x, some y, some z =>
      .ok ⟨((w * 16 + x) * 16 + y) * 16 + z, rest, ⟨[a, b, c, d], rfl⟩, by simp⟩
    | _, _, _, _ => .error (.malformed .invalidEscape)
  | short =>
    .error (.malformed
      (if (String.ofList short).utf8ByteSize < 4 then .endInString else .invalidEscape))

/-- The second half of a pair of escapes, after the first half. -/
def lowSurrogate (high : Nat) : TextReader true Char :=
  (char '\\' (atEnd .endInString .hexEscapeEnd)).andThen fun _ =>
    (char 'u' (atEnd .endInString .hexEscapeEnd)).andThen fun _ =>
      hex.check
        (fun low => if 0xDC00 ≤ low ∧ low ≤ 0xDFFF then
            some (Char.ofNat (0x10000 + (high - 0xD800) * 0x400 + (low - 0xDC00)))
          else none)
        fun _ => .malformed .loneSurrogate

/-- What follows the letter `u` of an escape. -/
def unicodeEscape (mode : Mode) : TextReader true Char :=
  hex.andThen fun n =>
    if mode = .skip then Reader.done ' '
    else if 0xDC00 ≤ n ∧ n ≤ 0xDFFF then fail .loneSurrogate
    else if 0xD800 ≤ n ∧ n ≤ 0xDBFF then (lowSurrogate n).relax
    else Reader.done (Char.ofNat n)

/-- What follows a backslash. -/
def escaped (mode : Mode) : TextReader true Char :=
  (Reader.take some fun _ => .malformed .endInString).andThen fun c =>
    match c with
    | '"' => Reader.done '"'
    | '\\' => Reader.done '\\'
    | '/' => Reader.done '/'
    | 'b' => Reader.done '\x08'
    | 'f' => Reader.done '\x0c'
    | 'n' => Reader.done '\n'
    | 'r' => Reader.done '\r'
    | 't' => Reader.done '\t'
    | 'u' => (unicodeEscape mode).relax
    | _ => fail .invalidEscape

/-- One character of a string. -/
def stringChar (mode : Mode) : TextReader true Char :=
  (Reader.take some fun _ => .malformed .endInString).andThen fun c =>
    if c = '\\' then (escaped mode).relax
    else if c.toNat < 32 then fail .controlCharacter
    else Reader.done c

def string (mode : Mode) : TextReader true String :=
  (char '"' fun _ => .malformed .expectedValue).andThen fun _ =>
    (Reader.many (fun input => !startsWith '"' input) (stringChar mode)).andThen fun cs =>
      (char '"' fun _ => .malformed .endInString).map fun _ => String.ofList cs

/-! ### Lists and objects -/

/-- The elements of a list, folded from left to right. -/
def listFold {σ : Type} (mode : Mode) (a : σ) (element : σ → TextReader true σ) :
    TextReader true σ :=
  let spaced (a : σ) : TextReader true σ :=
    (element a).andThen fun b => blanks.map fun _ => b
  let next (a : σ) : TextReader true σ :=
    (char ',' fun _ => .malformed .expectedListEnd).andThen fun _ => blanks.andThen fun _ =>
      Reader.look fun input =>
        if mode ≠ .skip ∧ startsWith ']' input then fail .trailingComma else (spaced a).relax
  (char '[' fun _ => .malformed .expectedValue).andThen fun _ => blanks.andThen fun _ =>
    (Reader.look fun input =>
      if startsWith ']' input then Reader.done a
      else if input.isEmpty then fail .endInList
      else ((spaced a).andThen (Reader.foldWhile (startsWith ',') next)).relax).andThen fun b =>
        (char ']' (atEnd .endInList .expectedListEnd)).map fun _ => b

/-- A value with the colon before it. -/
def afterColon {α : Type} (p : TextReader true α) : TextReader true α :=
  blanks.andThen fun _ => (char ':' (atEnd .endInObject .expectedColon)).andThen fun _ =>
    blanks.andThen fun _ => p

/-- The entries of an object, folded from left to right. What follows a key is read by
`entry`, the colon included. -/
def objectFold {σ : Type} (mode : Mode) (a : σ) (entry : σ → String → TextReader true σ) :
    TextReader true σ :=
  let spaced (a : σ) : TextReader true σ :=
    (string mode).andThen fun key => (entry a key).andThen fun b => blanks.map fun _ => b
  let next (a : σ) : TextReader true σ :=
    (char ',' fun _ => .malformed .expectedObjectEnd).andThen fun _ => blanks.andThen fun _ =>
      Reader.look fun input =>
        if startsWith '"' input then (spaced a).relax
        else if mode ≠ .skip ∧ startsWith '\x7d' input then fail .trailingComma
        else if input.isEmpty then
          fail (if mode = .skip then .endInObject else .endInValue)
        else fail .keyNotString
  (char '\x7b' fun _ => .malformed .expectedValue).andThen fun _ => blanks.andThen fun _ =>
    (Reader.look fun input =>
      if startsWith '\x7d' input then Reader.done a
      else if input.isEmpty then fail .endInObject
      else if startsWith '"' input then
        ((spaced a).andThen (Reader.foldWhile (startsWith ',') next)).relax
      else fail .keyNotString).andThen fun b =>
        (char '\x7d' (atEnd .endInObject .expectedObjectEnd)).map fun _ => b

/-! ### Values -/

/-- A value whose parts, if it may have any, are read by `inner`. -/
def valueWith (mode : Mode) (inner : Option (TextReader true Json)) : TextReader true Json :=
  Reader.look fun input =>
    match input.head?, inner with
    | none, _ => fail .endInValue
    | some 'n', _ => literal ['n', 'u', 'l', 'l'] .null
    | some 't', _ => literal ['t', 'r', 'u', 'e'] (.bool true)
    | some 'f', _ => literal ['f', 'a', 'l', 's', 'e'] (.bool false)
    | some '"', _ => (string mode).map Json.string
    | some '[', none => fail .tooDeep
    | some '\x7b', none => fail .tooDeep
    | some '[', some v => (listFold mode [] fun items => v.map (· :: items)).map fun items =>
        .array items.reverse
    | some '\x7b', some v => (objectFold mode ([] : Object) fun m k =>
        (afterColon v).map fun x =>
          if mode = .every then m ++ [(k, x)] else Entries.insert m k x).map Json.object
    | some c, _ => if c = '-' || c.isDigit then number mode else fail .expectedValue

/-- A value nested at most so many levels deep. -/
def valueAt (mode : Mode) : Nat → TextReader true Json
  | 0 => valueWith mode none
  | levels + 1 => valueWith mode (some (valueAt mode levels))

/-- How deep values may be nested. -/
def maxLevels : Nat := 127

def value (levels : Nat) : TextReader true Json := valueAt .keep levels

/-- Passes over a value. Each level takes a bracket, so the text bounds the depth. -/
def skipValue : TextReader true Unit := Reader.look fun input =>
  (valueAt .skip input.length).map fun _ => ()

/-- A whole text: the value may stand between blanks, and nothing else may follow. -/
def whole {α : Type} (p : TextReader true α) (text : String) : Except DecodeError α :=
  let all : TextReader true α := blanks.andThen fun _ => p.andThen fun a => blanks.andThen fun _ =>
    Reader.look fun input => if input.isEmpty then Reader.done a else fail .trailingCharacters
  match all text.toList with
  | .ok r => .ok r.value
  | .error e => .error e

end TextReader

/-- Reads a text that holds one value. -/
def parse (text : String) : Except DecodeError Json :=
  TextReader.whole (TextReader.value TextReader.maxLevels) text

end GraphqlCypher.Json
