import GraphqlCypher.Json.Printer
import GraphqlCypher.Json.Reader
import GraphqlCypher.Text.Invisible

/-! Decoding JSON into records.

A record has named fields, each with a default. It is written as an object, whose
unknown keys are passed over, or as a list of its first fields in order. `fromText`
decodes while it reads, so the first thing that is wrong from left to right is the
one reported; `fromValue` decodes a value that was read before. -/
namespace GraphqlCypher.Json

/-- What a message calls a value. -/
def kindText : Json → String
  | .null => "null"
  | .bool b => "boolean `" ++ (if b then "true" else "false") ++ "`"
  | .number (.integer n) => "integer `" ++ toString n ++ "`"
  | .number (.real x) => "floating point `" ++ (Number.real x).text ++ "`"
  | .string s => "string " ++ Text.quoted s
  | .array _ => "sequence"
  | .object _ => "map"

def DecodeError.message : DecodeError → String
  | .malformed cause => cause.message
  | .wrongType found expected => "invalid type: " ++ found ++ ", expected " ++ expected
  | .duplicateField name => "duplicate field `" ++ name ++ "`"
  | .tooManyElements length =>
    "invalid length " ++ toString length ++ ", expected fewer elements in array"
  | .noGenerator => "data did not match any variant of untagged enum RawIndexConfig"
  | .unnamedGenerator =>
    "indexConfig must be `false` or name a generator, e.g. \x7b \"use\": \"cuid\" \x7d"

/-- What a field takes, and how it goes into the record. A field of any shape sees a
repeated key as often as it is written. -/
inductive FieldShape (σ : Type) where
  | flag (set : σ → Bool → σ)
  | text (set : σ → String → σ)
  | any (set : σ → Json → Except DecodeError σ)

/-- A record: what a message calls it, its defaults, and its fields in order. -/
structure RecordShape (σ : Type) where
  name : String
  defaults : σ
  fields : List (String × FieldShape σ)

namespace FieldShape

variable {σ : Type}

def fromValue (shape : FieldShape σ) (a : σ) (v : Json) : Except DecodeError σ :=
  match shape, v with
  | .flag set, .bool b => .ok (set a b)
  | .flag _, v => .error (.wrongType (kindText v) "a boolean")
  | .text set, .string s => .ok (set a s)
  | .text _, v => .error (.wrongType (kindText v) "a string")
  | .any set, v => set a v

end FieldShape

namespace TextReader

/-- Refuses the value that comes next; of a list or an object only the bracket is
looked at. -/
def wrongType {α : Type} (expected : String) : TextReader true α := Reader.look fun input =>
  if startsWith '[' input then Reader.refuse fun _ => .wrongType "sequence" expected
  else if startsWith '\x7b' input then Reader.refuse fun _ => .wrongType "map" expected
  else (valueWith .keep none).andThen fun v =>
    Reader.refuse (s := false) fun _ => .wrongType (kindText v) expected

/-- Reads a field of a record whose values may be nested so many levels deep. -/
def field {σ : Type} (levels : Nat) (shape : FieldShape σ) (a : σ) : TextReader true σ :=
  Reader.look fun input =>
    match shape with
    | .flag set =>
      if startsWith 't' input || startsWith 'f' input then
        (valueWith .keep none).map fun v => set a (v matches .bool true)
      else wrongType "a boolean"
    | .text set =>
      if startsWith '"' input then (string .keep).map (set a) else wrongType "a string"
    | .any set => (valueAt .every levels).andThen fun v =>
      match set a v with
      | .ok b => Reader.done b
      | .error e => Reader.refuse fun _ => e

/-- The elements of a list as the first fields of a record. -/
def fieldsInOrder {σ : Type} (levels : Nat) (first : Bool) :
    List (String × FieldShape σ) → σ → TextReader false σ
  | [], a => Reader.done a
  | (_, shape) :: rest, a => Reader.look fun input =>
    if startsWith ']' input then Reader.done a
    else if input.isEmpty then fail .endInList
    else if first then
      ((field levels shape a).andThen fun b => blanks.andThen fun _ =>
        fieldsInOrder levels false rest b).relax
    else
      ((char ',' (fun _ => .malformed .expectedListEnd)).andThen fun _ => blanks.andThen fun _ =>
        Reader.look fun input =>
          if startsWith ']' input then fail .trailingComma
          else (field levels shape a).andThen fun b => blanks.andThen fun _ =>
            fieldsInOrder levels false rest b).relax

/-- The bracket that ends a list all of whose elements were wanted. -/
def listEnd : TextReader true Unit := Reader.look fun input =>
  if startsWith ',' input then
    (char ',' fun _ => .malformed .trailingCharacters).andThen fun _ => blanks.andThen fun _ =>
      Reader.look fun input =>
        fail (s := false) (if startsWith ']' input then .trailingComma else .trailingCharacters)
  else char ']' (atEnd .endInList .trailingCharacters)

/-- A record, as an object or as a list. -/
def record {σ : Type} (shape : RecordShape σ) : TextReader true σ := Reader.look fun input =>
  let levels := maxLevels - 1
  if startsWith '\x7b' input then
    (objectFold .keep (shape.defaults, ([] : List String)) fun (a, seen) key =>
      match shape.fields.lookup key with
      | none => (afterColon skipValue).map fun _ => (a, seen)
      | some f =>
        if seen.contains key then Reader.refuse fun _ => .duplicateField key
        else (afterColon (field levels f a)).map (·, key :: seen)).map Prod.fst
  else if startsWith '[' input then
    (char '[' fun _ => .malformed .expectedValue).andThen fun _ => blanks.andThen fun _ =>
      (fieldsInOrder levels true shape.fields shape.defaults).andThen fun a =>
        listEnd.map fun _ => a
  else if input.isEmpty then fail .endInValue
  else wrongType ("struct " ++ shape.name)

/-- An object with any keys. -/
def anyObject : TextReader true Object := Reader.look fun input =>
  if startsWith '\x7b' input then
    objectFold .keep ([] : Object) fun m k =>
      (afterColon (value (maxLevels - 1))).map (Entries.insert m k ·)
  else if input.isEmpty then fail .endInValue
  else wrongType "a map"

end TextReader

namespace RecordShape

variable {σ : Type}

/-- Decodes a text. -/
def fromText (shape : RecordShape σ) (text : String) : Except DecodeError σ :=
  TextReader.whole (TextReader.record shape) text

/-- The entries of an object as fields; a key that is no field is passed over. -/
def fromEntries (shape : RecordShape σ) (a : σ) : List (String × Json) → Except DecodeError σ
  | [] => .ok a
  | (key, v) :: rest =>
    match shape.fields.lookup key with
    | none => fromEntries shape a rest
    | some f =>
      match f.fromValue a v with
      | .ok b => fromEntries shape b rest
      | .error e => .error e

/-- The elements of a list as the first fields. -/
def fromItems (a : σ) : List (String × FieldShape σ) → List Json → Except DecodeError σ
  | (_, f) :: fields, v :: rest =>
    match f.fromValue a v with
    | .ok b => fromItems b fields rest
    | .error e => .error e
  | _, _ => .ok a

/-- Decodes a value. -/
def fromValue (shape : RecordShape σ) : Json → Except DecodeError σ
  | .object entries => fromEntries shape shape.defaults entries
  | .array items =>
    match fromItems shape.defaults shape.fields items with
    | .ok a =>
      if shape.fields.length < items.length then .error (.tooManyElements items.length) else .ok a
    | .error e => .error e
  | v => .error (.wrongType (kindText v) ("struct " ++ shape.name))

end RecordShape

/-- Reads a text that holds one object. -/
def parseObject (text : String) : Except DecodeError Object :=
  TextReader.whole TextReader.anyObject text

end GraphqlCypher.Json
