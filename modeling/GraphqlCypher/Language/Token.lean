import GraphqlCypher.Language.Value
import GraphqlCypher.Number.Shortest
import GraphqlCypher.Reader
import GraphqlCypher.Text.Characters

/-! The tokens of schemas and operations.

`Token.scan` cuts a text into tokens, each with the place where it starts. What
stands between tokens is blanks, commas and comments. The scan ends in `finish`, or
in `unreadable` at the first place where no token can be read: no rule of a grammar
accepts either of them, so a reader of tokens stops there by itself. -/
namespace GraphqlCypher

/-- A line and a column, both counted from one. -/
structure Position where
  line : Nat
  column : Nat
deriving DecidableEq, Repr, Inhabited

namespace Position

def start : Position := ⟨1, 1⟩

/-- The place after a piece of text: every character is one column, and a line feed
begins a line. -/
def after (p : Position) (text : List Char) : Position :=
  text.foldl (fun p c => if c = '\n' then ⟨p.line + 1, 1⟩ else ⟨p.line, p.column + 1⟩) p

def text (p : Position) : String := toString p.line ++ ":" ++ toString p.column

end Position

/-- A token; numbers and strings are already read. -/
inductive Token where
  | mark (c : Char)
  | spread
  | name (s : String)
  | int (n : Int)
  | float (x : Binary64)
  | string (s : String)
  | unreadable
  | finish
deriving DecidableEq, Repr, Inhabited

/-- A token and the place where it starts. -/
structure Located where
  position : Position
  token : Token
deriving DecidableEq, Repr, Inhabited

namespace Token

def isMark (c : Char) : Bool := "()[]\x7b\x7d!$:=@|&".toList.contains c

def isNameStart (c : Char) : Bool := c == '_' || c.isAlpha

def isNameChar (c : Char) : Bool := c == '_' || c.isAlphanum

/-- The characters at which a number ends. -/
def endsNumber (c : Char) : Bool :=
  c == ' ' || c == '\n' || c == '\r' || c == '\t' || c == ',' || c == '#' || isMark c

/-! ### Numbers -/

/-- The digits of a whole number, without its sign. -/
def unsigned (cs : List Char) : List Char :=
  match cs with
  | '-' :: rest => rest
  | _ => cs

/-- Zero, or digits that do not begin with zero; perhaps a minus sign before them. -/
def isWhole (cs : List Char) : Bool :=
  let ds := unsigned cs
  !ds.isEmpty && ds.all Char.isDigit && (ds == ['0'] || ds.head? != some '0')

/-- Cuts at the last character that passes the test. -/
def cutLast? (test : Char → Bool) (cs : List Char) : Option (List Char × List Char) :=
  let reversed := cs.reverse
  match reversed.dropWhile (!test ·) with
  | [] => none
  | _ :: before => some (before.reverse, (reversed.takeWhile (!test ·)).reverse)

/-- A power of ten: its first character is a sign or one of the digits 1 to 8. A
sign alone is no power. -/
def power? : List Char → Option Int
  | '-' :: c :: ds =>
    if (c :: ds).all Char.isDigit then some (-(Nat.ofDigitChars 10 (c :: ds) 0)) else none
  | '+' :: c :: ds =>
    if (c :: ds).all Char.isDigit then some (Nat.ofDigitChars 10 (c :: ds) 0) else none
  | c :: ds =>
    if '1' ≤ c && c ≤ '8' && ds.all Char.isDigit then some (Nat.ofDigitChars 10 (c :: ds) 0)
    else none
  | [] => none

/-- A floating point number from its digits before the exponent. -/
def floatOf? (body : List Char) (power : Int) : Option Token :=
  let negative := body.head? == some '-'
  match cutLast? (· == '.') body with
  | some (whole, places) =>
    if isWhole whole && !places.isEmpty && places.all Char.isDigit then
      some (.float (Binary64.ofDecimal negative
        (Nat.ofDigitChars 10 (unsigned whole ++ places) 0) (power - places.length)))
    else none
  | none =>
    if isWhole body then
      some (.float (Binary64.ofDecimal negative (Nat.ofDigitChars 10 (unsigned body) 0) power))
    else none

/-- Whole numbers must fit 64 bits with a sign. -/
def intOf? (cs : List Char) : Option Token :=
  if isWhole cs then
    let n := Nat.ofDigitChars 10 (unsigned cs) 0
    if cs.head? == some '-' then if n ≤ Nat.pow 2 63 then some (.int (-(n : Int))) else none
    else if n < Nat.pow 2 63 then some (.int n) else none
  else none

def numberOf? (cs : List Char) : Option Token :=
  let isE (c : Char) : Bool := c == 'e' || c == 'E'
  match cutLast? isE cs with
  | some (body, exponent) => (power? exponent).bind (floatOf? body)
  | none => if cs.contains '.' then floatOf? cs 0 else intOf? cs

/-! ### Strings -/

/-- What stands before the quote that ends a string, and what follows the quote. A
backslash takes its meaning from the next character. -/
def closeQuote (afterBackslash : Bool) : List Char → Option (List Char × List Char)
  | [] => none
  | c :: rest =>
    if c = '"' ∧ afterBackslash = false then some ([], rest)
    else if c = '\n' then none
    else (closeQuote (c = '\\' && !afterBackslash) rest).map fun (text, more) => (c :: text, more)

theorem closeQuote_suffix (b : Bool) (cs text rest : List Char)
    (h : closeQuote b cs = some (text, rest)) : rest <:+ cs ∧ rest.length < cs.length := by
  induction cs generalizing b text with
  | nil => simp [closeQuote] at h
  | cons c cs ih =>
    rw [closeQuote] at h
    split at h
    · simp only [Option.some.injEq, Prod.mk.injEq] at h
      simp [h.2]
    · split at h
      · simp at h
      · obtain ⟨⟨text', rest'⟩, h', e⟩ := Option.map_eq_some_iff.1 h
        simp only [Prod.mk.injEq] at e
        obtain ⟨suffix, shorter⟩ := ih _ _ (e.2 ▸ h')
        exact ⟨suffix.trans (List.suffix_cons c cs), Nat.lt_succ_of_lt shorter⟩

/-- What stands before the three quotes that end a block. Three quotes after a
backslash belong to the block. -/
def closeBlock (previous : Char) : List Char → Option (List Char × List Char)
  | [] => none
  | '"' :: '"' :: '"' :: rest =>
    if previous = '\\' then
      (closeBlock '"' rest).map fun (text, more) => ('"' :: '"' :: '"' :: text, more)
    else some ([], rest)
  | c :: rest => (closeBlock c rest).map fun (text, more) => (c :: text, more)

theorem closeBlock_suffix (p : Char) (cs text rest : List Char)
    (h : closeBlock p cs = some (text, rest)) : rest <:+ cs ∧ rest.length < cs.length := by
  fun_induction closeBlock p cs generalizing text with
  | case1 => simp at h
  | case2 cs ih =>
    obtain ⟨⟨text', rest'⟩, h', e⟩ := Option.map_eq_some_iff.1 h
    simp only [Prod.mk.injEq] at e
    obtain ⟨suffix, shorter⟩ := ih _ (e.2 ▸ h')
    refine ⟨suffix.trans ⟨['"', '"', '"'], rfl⟩, ?_⟩
    simp only [List.length_cons]
    omega
  | case3 p cs hp =>
    simp only [Option.some.injEq, Prod.mk.injEq] at h
    refine ⟨⟨['"', '"', '"'], by simp [h.2]⟩, ?_⟩
    simp only [← h.2, List.length_cons]
    omega
  | case4 p c cs hc ih =>
    obtain ⟨⟨text', rest'⟩, h', e⟩ := Option.map_eq_some_iff.1 h
    simp only [Prod.mk.injEq] at e
    obtain ⟨suffix, shorter⟩ := ih _ (e.2 ▸ h')
    exact ⟨suffix.trans (List.suffix_cons c cs), Nat.lt_succ_of_lt shorter⟩

/-- A number in hexadecimal; a plus sign may stand before it. -/
def hexNumber? (cs : List Char) : Option Nat :=
  let digits := match cs with
    | '+' :: rest => rest
    | _ => cs
  digits.foldl (fun n c => n.bind fun n => (Text.hexValue? c).map (16 * n + ·)) (some 0)

/-- The character with a code, unless it is half of a pair. -/
def codePoint? (n : Nat) : Option Char := if n.isValidChar then some (Char.ofNat n) else none

/-- What a backslash and a letter stand for. -/
def escapes : List (Char × Char) :=
  [('"', '"'), ('\\', '\\'), ('/', '/'), ('b', '\x10'), ('f', '\x0c'), ('n', '\n'), ('r', '\r'),
    ('t', '\t')]

/-- The text of a string without its escapes. -/
def unescape : List Char → Option (List Char)
  | [] => some []
  | '\\' :: 'u' :: a :: b :: c :: d :: rest => do
    let n ← hexNumber? [a, b, c, d]
    let x ← codePoint? n
    (unescape rest).map (x :: ·)
  | '\\' :: c :: rest => do
    let x ← escapes.lookup c
    (unescape rest).map (x :: ·)
  | c :: rest => if c = '\\' then none else (unescape rest).map (c :: ·)

/-! ### Blocks -/

/-- The number of bytes of the blanks that a line begins with. -/
def indent (line : List Char) : Nat := (String.ofList (line.takeWhile Text.isBlank)).utf8ByteSize

/-- The line without its first characters, as many as make so many bytes. -/
def dropBytes (n : Nat) : List Char → List Char
  | [] => []
  | c :: rest => if n = 0 then c :: rest else dropBytes (n - c.utf8Size) rest

/-- A line without the common indent; a line shorter than that stays as it is. -/
def outdent (common : Nat) (line : List Char) : List Char :=
  if common ≤ (String.ofList line).utf8ByteSize then dropBytes common line else line

/-- Three quotes after a backslash stand for the quotes alone. -/
def dropQuoteEscapes : List Char → List Char
  | [] => []
  | '\\' :: '"' :: '"' :: '"' :: rest => '"' :: '"' :: '"' :: dropQuoteEscapes rest
  | c :: rest => c :: dropQuoteEscapes rest

/-- The text of a block: blank lines at both ends go, and so does the smallest
indent of the lines after the first one. -/
def blockText (raw : List Char) : List Char :=
  let lines := Text.lines raw
  let common := (lines.drop 1).foldl (fun (least : Option Nat) line =>
    if Text.isBlankLine line then least
    else some (match least with
      | none => indent line
      | some n => min n (indent line))) none
  let cut (line : List Char) : List Char := match common with
    | none => line
    | some n => outdent n line
  let outdented := match lines with
    | [] => []
    | first :: rest => (first, Text.isBlankLine first) ::
        rest.map fun line => (cut line, Text.isBlankLine line)
  let kept := ((outdented.dropWhile Prod.snd).reverse.dropWhile Prod.snd).reverse
  dropQuoteEscapes (['\n'].intercalate (kept.map Prod.fst))

/-! ### Scanning -/

/-- Reads characters; there is one way to fail. -/
abbrev CharReader (α : Type) := Reader Char Unit true α

/-- A token and the text it was read from. -/
abbrev Lexeme := Token × List Char

def quotedLexeme : CharReader Lexeme :=
  (Reader.take (fun c => if c = '"' then some () else none) fun _ => ()).andThen fun _ =>
    ((Reader.split (closeQuote false) (closeQuote_suffix false) fun _ => ()).check
      (fun raw => (unescape raw).map fun text =>
        (Token.string (String.ofList text), '"' :: raw ++ ['"'])) fun _ => ()).relax

def blockLexeme : CharReader Lexeme :=
  let quotes : List Char := ['"', '"', '"']
  let opening : CharReader Unit := Reader.split
    (fun input => match input with
      | '"' :: '"' :: '"' :: rest => some ((), rest)
      | _ => none)
    (by
      intro input a rest h
      split at h
      · next rest' =>
        simp only [Option.some.injEq, Prod.mk.injEq] at h
        obtain ⟨-, rfl⟩ := h
        refine ⟨⟨['"', '"', '"'], rfl⟩, ?_⟩
        simp only [List.length_cons]
        omega
      · simp at h)
    fun _ => ()
  opening.andThen fun _ =>
    ((Reader.split (closeBlock '"') (closeBlock_suffix '"') fun _ => ()).map fun raw =>
      (Token.string (String.ofList (blockText raw)), quotes ++ raw ++ quotes)).relax

def nameLexeme : CharReader Lexeme :=
  (Reader.take (fun c => if isNameStart c then some c else none) fun _ => ()).andThen fun c =>
    (Reader.takeWhile isNameChar).map fun cs => (.name (String.ofList (c :: cs)), c :: cs)

def numberLexeme : CharReader Lexeme :=
  let first : CharReader Char :=
    Reader.take (fun c => if c = '-' || c.isDigit then some c else none) fun _ => ()
  (first.andThen fun c => (Reader.takeWhile (!endsNumber ·)).map (c :: ·)).check
    (fun cs => (numberOf? cs).map fun t => (t, cs)) fun _ => ()

def spreadLexeme : CharReader Lexeme :=
  let dot : CharReader Unit := Reader.take (fun c => if c = '.' then some () else none) fun _ => ()
  dot.andThen fun _ => dot.andThen fun _ => dot.map fun _ => (.spread, ['.', '.', '.'])

/-- The token that a text begins with. -/
def lexeme : CharReader Lexeme := Reader.look fun input =>
  match input with
  | '"' :: '"' :: '"' :: _ => blockLexeme
  | '"' :: _ => quotedLexeme
  | '.' :: _ => spreadLexeme
  | c :: _ =>
    if isNameStart c then nameLexeme
    else if c = '-' || c.isDigit then numberLexeme
    else Reader.take (fun c => if isMark c then some (.mark c, [c]) else none) fun _ => ()
  | [] => Reader.refuse fun _ => ()

/-- The tokens of a text that begins at a place. A tab is eight columns wide; a
carriage return and a byte order mark have no width. A comment ends with the first
character of a line break, and the line with it. -/
def scanFrom (p : Position) (text : List Char) : List Located :=
  match text with
  | [] => [⟨p, .finish⟩]
  | c :: rest =>
    if c = ' ' ∨ c = ',' then scanFrom ⟨p.line, p.column + 1⟩ rest
    else if c = '\t' then scanFrom ⟨p.line, p.column + 8⟩ rest
    else if c = '\n' then scanFrom ⟨p.line + 1, 1⟩ rest
    else if c = '\r' ∨ c = '\ufeff' then scanFrom p rest
    else if c = '#' then
      match h : rest.dropWhile (fun c => c != '\r' && c != '\n') with
      | [] => [⟨p, .finish⟩]
      | _ :: more => scanFrom ⟨p.line + 1, 1⟩ more
    else
      match lexeme (c :: rest) with
      | .error _ => [⟨p, .unreadable⟩]
      | .ok r => ⟨p, r.value.1⟩ :: scanFrom (p.after r.value.2) r.rest
termination_by text.length
decreasing_by
  all_goals simp_wf
  · have hs : (rest.dropWhile fun c => c != '\r' && c != '\n').Sublist rest :=
      List.dropWhile_sublist _
    have := hs.length_le
    rw [h] at this
    simp at this
    omega
  · have := r.length_le
    simp at this
    omega

def scan (text : String) : List Located := scanFrom .start text.toList

end Token

end GraphqlCypher
