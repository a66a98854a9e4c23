import GraphqlCypher.Language.Token

/-! The rules that schemas and operations share: names, type references, values,
directives and arguments.

A token that does not continue a rule is refused at its place. Brackets may be
nested 50 deep, counting all that are open; the rules that nest take the number of
brackets that may still be opened and recurse on it. -/
namespace GraphqlCypher

/-- Reads tokens; an error is the place of the token that was refused. -/
abbrev TokenReader (strict : Bool) (α : Type) := Reader Located Position strict α

namespace Grammar

/-- How many brackets may be open at a time. -/
def maxBrackets : Nat := 50

/-- The place of the next token. -/
def here (tokens : List Located) : Position := (tokens.head?.map Located.position).getD .start

def refuseHere {α : Type} {s : Bool} : TokenReader s α := Reader.refuse here

def next? (tokens : List Located) : Option Token := tokens.head?.map Located.token

def accept {α : Type} (f : Token → Option α) : TokenReader true α :=
  Reader.take (fun t => f t.token) here

def mark (c : Char) : TokenReader true Unit :=
  accept fun t => if t = .mark c then some () else none

def name : TokenReader true String := accept fun
  | .name s => some s
  | _ => none

/-- A name that is one of the given words. -/
def oneOf (words : List String) : TokenReader true String := accept fun
  | .name s => if words.contains s then some s else none
  | _ => none

def keyword (word : String) : TokenReader true Unit := (oneOf [word]).map fun _ => ()

/-! ### What comes next -/

def nextIsMark (c : Char) (tokens : List Located) : Bool := next? tokens == some (.mark c)

def nextIsKeyword (word : String) (tokens : List Located) : Bool :=
  next? tokens == some (.name word)

def nextIsName (tokens : List Located) : Bool :=
  match next? tokens with
  | some (.name _) => true
  | _ => false

def nextIsString (tokens : List Located) : Bool :=
  match next? tokens with
  | some (.string _) => true
  | _ => false

/-- A name, or a string that describes what is named. -/
def nextIsNamed (tokens : List Located) : Bool := nextIsName tokens || nextIsString tokens

/-! ### Sequences -/

/-- One or more between brackets. -/
def bracketed {α : Type} (first last : Char) (more : List Located → Bool)
    (p : TokenReader true α) : TokenReader true (List α) :=
  (mark first).andThen fun _ => (Reader.oneOrMore more p).andThen fun items =>
    (mark last).map fun _ => items

/-- Any number between brackets, up to the closing one. -/
def enclosed {α : Type} (first last : Char) (p : TokenReader true α) :
    TokenReader true (List α) :=
  (mark first).andThen fun _ => (Reader.many (fun ts => !nextIsMark last ts) p).andThen fun items =>
    (mark last).map fun _ => items

/-- One or more between brackets, or nothing at all if the bracket is missing. -/
def optionalBracketed {α : Type} (first last : Char) (more : List Located → Bool)
    (p : TokenReader true α) : TokenReader false (List α) :=
  Reader.look fun tokens =>
    if nextIsMark first tokens then (bracketed first last more p).relax else Reader.done []

/-- Names with a mark between them, perhaps with one before the first. -/
def separated {α : Type} (separator : Char) (p : TokenReader true α) :
    TokenReader true (List α) :=
  (Reader.optional (nextIsMark separator) (mark separator)).andThen fun _ => p.andThen fun a =>
    (Reader.many (nextIsMark separator) ((mark separator).andThen fun _ => p)).map (a :: ·)

/-! ### Type references and values -/

/-- A type reference; `item` reads what a list holds, if there may be a list. -/
def typeRefWith (item : Option (TokenReader true TypeRef)) : TokenReader true TypeRef :=
  let bare : TokenReader true TypeRef := Reader.look fun tokens =>
    match item with
    | none => name.map TypeRef.named
    | some p =>
      if nextIsMark '[' tokens then
        (mark '[').andThen fun _ => p.andThen fun t => (mark ']').map fun _ => .list t
      else name.map TypeRef.named
  bare.andThen fun t => (Reader.optional (nextIsMark '!') (mark '!')).map fun bang =>
    if bang.isSome then .nonNull t else t

/-- A type reference with so many brackets left to open. -/
def typeRef : Nat → TokenReader true TypeRef
  | 0 => typeRefWith none
  | brackets + 1 => typeRefWith (some (typeRef brackets))

/-- Puts a field where the order of names has it; a field of the same name gives way. -/
def insertField (fields : List (String × Value)) (k : String) (v : Value) :
    List (String × Value) :=
  match fields with
  | [] => [(k, v)]
  | (k', v') :: rest =>
    if k = k' then (k, v) :: rest
    else if k < k' then (k, v) :: (k', v') :: rest
    else (k', v') :: insertField rest k v

/-- The names that stand for values of their own. -/
def namedValue (s : String) : Value :=
  if s = "true" then .bool true
  else if s = "false" then .bool false
  else if s = "null" then .null
  else .enum s

def scalar : TokenReader true Value := accept fun
  | .name s => some (namedValue s)
  | .int n => some (.int n)
  | .float x => some (.float x)
  | .string s => some (.string s)
  | _ => none

/-- A name, a colon and what follows them. -/
def entry {α : Type} (p : TokenReader true α) : TokenReader true (String × α) :=
  name.andThen fun k => (mark ':').andThen fun _ => p.map fun a => (k, a)

/-- A value; `part` reads what lists and objects hold, if there may be any. -/
def valueWith (constant : Bool) (part : Option (TokenReader true Value)) : TokenReader true Value :=
  Reader.look fun tokens =>
    if nextIsMark '$' tokens && !constant then
      (mark '$').andThen fun _ => name.map Value.var
    else match part with
      | none => scalar
      | some p =>
        if nextIsMark '[' tokens then (enclosed '[' ']' p).map Value.list
        else if nextIsMark '\x7b' tokens then
          (enclosed '\x7b' '\x7d' (entry p)).map fun fields =>
            .object (fields.foldl (fun fs f => insertField fs f.1 f.2) [])
        else scalar

/-- A value with so many brackets left to open. A constant holds no variables. -/
def value (constant : Bool) : Nat → TokenReader true Value
  | 0 => valueWith constant none
  | brackets + 1 => valueWith constant (some (value constant brackets))

/-- Arguments in parentheses, or none. -/
def arguments (brackets : Nat) : TokenReader false (List (String × Value)) :=
  Reader.look fun tokens =>
    match brackets with
    | 0 => if nextIsMark '(' tokens then refuseHere else Reader.done []
    | n + 1 => optionalBracketed '(' ')' nextIsName (entry (value false n))

def directives (brackets : Nat) : TokenReader false (List Directive) :=
  Reader.many (nextIsMark '@') ((mark '@').andThen fun _ => name.andThen fun n =>
    (arguments brackets).map fun as => ⟨n, as⟩)

/-- A value after an equals sign, or none. -/
def initialValue (brackets : Nat) : TokenReader false (Option Value) :=
  Reader.optional (nextIsMark '=') ((mark '=').andThen fun _ => value true brackets)

/-! ### Whole texts -/

/-- One or more up to the end of the text. -/
def whole {α : Type} (p : TokenReader true α) (text : String) : Except Position (List α) :=
  let all : TokenReader true (List α) :=
    (Reader.oneOrMore (fun ts => next? ts != some .finish) p).andThen fun items =>
      (accept fun t => if t = .finish then some () else none).map fun _ => items
  match all (Token.scan text) with
  | .ok r => .ok r.value
  | .error e => .error e

end Grammar

end GraphqlCypher
