import GraphqlCypher.Json.Basic

/-! Statements for the database.

A statement is a text and the parameters it runs with. Operation text is passed to
the database as one string literal: `quote` escapes it, `unquote` undoes that, and
`unquote_quote` says that what stands before the closing quote is the text itself. -/
namespace GraphqlCypher

structure Statement where
  text : String
  parameters : Json.Object
deriving Repr, Inhabited

namespace Statement

/-! ### String literals -/

/-- A text as it stands between single quotes: a backslash goes before every quote
and every backslash. -/
def quote : List Char → List Char
  | [] => []
  | c :: rest => if c = '\\' ∨ c = '\'' then '\\' :: c :: quote rest else c :: quote rest

/-- Reads a literal whose opening quote was read: the text, and what follows the
closing quote. -/
def unquote : List Char → Option (List Char × List Char)
  | [] => none
  | '\'' :: rest => some ([], rest)
  | '\\' :: c :: rest => (unquote rest).map fun (text, more) => (c :: text, more)
  | c :: rest => (unquote rest).map fun (text, more) => (c :: text, more)

/-- **A quoted text is read back whole, and the reading stops at its closing quote.** -/
theorem unquote_quote (s rest : List Char) :
    unquote (quote s ++ '\'' :: rest) = some (s, rest) := by
  induction s with
  | nil => rfl
  | cons c s ih =>
    by_cases h : c = '\\' ∨ c = '\''
    · simp only [quote, if_pos h, List.cons_append, unquote, ih, Option.map_some]
    · have hq : ¬ c = '\'' := fun e => h (.inr e)
      have hb : ¬ c = '\\' := fun e => h (.inl e)
      simp only [quote, if_neg h, List.cons_append]
      rw [unquote]
      · rw [ih]; rfl
      · exact fun e => hq e
      · exact fun _ _ e => absurd e hb

/-- A text as a literal. -/
def literal (s : String) : String := "'" ++ String.ofList (quote s.toList) ++ "'"

/-! ### Calls -/

/-- `a: {a}, b: {b}`: each parameter under its own name. -/
def parameterMap (names : List String) : String :=
  ", ".intercalate (names.map fun n => n ++ ": \x7b" ++ n ++ "\x7d")

/-- Has the database run an operation as it is, with the variables as parameters. -/
def forward (procedure operation : String) (values : Json.Object) : Statement :=
  { text := "CALL graphql." ++ procedure ++ "(" ++ literal operation ++ ", \x7b" ++
      parameterMap (Entries.keys values) ++ "\x7d)"
    parameters := values }

/-- Has the database answer a read operation. -/
def query (operation : String) (values : Json.Object) : Statement :=
  forward "query" operation values

/-- Has the database execute a mutation that it knows itself. -/
def execute (operation : String) (values : Json.Object) : Statement :=
  forward "execute" operation values

def toJson (s : Statement) : Json :=
  .object [("text", .string s.text), ("parameters", .object s.parameters)]

end Statement

end GraphqlCypher
