import GraphqlCypher.Text.Likeness

/-! The words of a command line.

A level of a command line takes flags, options with a value, words in fixed places
and, if it has subcommands, one of those with all that follows it. Options may stand
anywhere before the word `--`, after which all words are plain. An option without
`=` takes the next word, unless that looks like an option itself. -/
namespace GraphqlCypher

/-- Why a command line cannot be used, or is not meant to be. -/
inductive UsageError where
  | missingSubcommand
  | missingWord
  | unknownArgument (word : String)
  /-- A word that is nearly a subcommand. -/
  | misspeltSubcommand (word : String)
  | unknownHelpTopic
  | repeated (name : String)
  | emptyValue (name : String)
  | helpWanted
  | versionWanted
deriving DecidableEq, Repr

/-- What a level of a command line takes. -/
structure CommandLevel where
  flags : List String := []
  options : List String := []
  /-- The number of words in fixed places. -/
  places : Nat := 0
  subcommands : List String := []

/-- What a level of a command line was given. -/
structure GivenWords where
  /-- The names of flags and options, as often as they were given. -/
  names : List String := []
  values : List (String × String) := []
  plain : List String := []
  /-- The option that waits for its value. -/
  waiting : Option String := none
  /-- Whether `--` was read. -/
  ended : Bool := false
deriving Repr

namespace GivenWords

def hasFlag (g : GivenWords) (name : String) : Bool := g.names.contains name

def value? (g : GivenWords) (name : String) : Option String := g.values.lookup name

end GivenWords

namespace CommandLevel

variable (l : CommandLevel)

/-- Whether a word is an option by its looks; a single dash is not. -/
def looksLikeOption (word : String) : Bool :=
  match word.toList with
  | '-' :: _ :: _ => true
  | _ => false

/-- The name after all leading dashes, and what follows the first `=`. -/
def nameAndValue (word : String) : String × Option String :=
  let body := word.toList.dropWhile (· == '-')
  let name := String.ofList (body.takeWhile (· != '='))
  match body.dropWhile (· != '=') with
  | [] => (name, none)
  | _ :: v => (name, some (String.ofList (v.dropWhile (· == '='))))

/-- A flag or an option by its long name. -/
def takeLong (g : GivenWords) (word : String) : Except UsageError GivenWords :=
  let (name, v) := nameAndValue word
  if l.options.contains name then
    match v with
    | some v =>
      .ok { g with names := g.names ++ [name], values := g.values ++ [(name, v)], waiting := none }
    | none => .ok { g with names := g.names ++ [name], waiting := some name }
  else if name = "help" then .error .helpWanted
  else if name = "version" then .error .versionWanted
  else if l.flags.contains name then .ok { g with names := g.names ++ [name], waiting := none }
  else .error (.unknownArgument word)

/-- The only letters are those for help and for the version. -/
def takeShort (word : String) : UsageError :=
  match word.toList.dropWhile (· == '-') with
  | 'h' :: _ => .helpWanted
  | 'V' :: _ => .versionWanted
  | _ => .unknownArgument word

/-- A word that is neither an option nor a value. -/
def takePlain (g : GivenWords) (word : String) : Except UsageError GivenWords :=
  if l.subcommands.any (Text.isLike word) then .error (.misspeltSubcommand word)
  else if g.plain.length < l.places then .ok { g with plain := g.plain ++ [word] }
  else .error (.unknownArgument word)

/-- What follows the word `help` may be one subcommand. -/
def takeHelp : List String → UsageError
  | [] => .helpWanted
  | [topic] => if l.subcommands.contains topic then .helpWanted else .unknownHelpTopic
  | _ => .unknownHelpTopic

/-- Reads the words of a level. With them come the subcommand, if there is one, and
the words after it. -/
def scan (g : GivenWords) :
    List String → Except UsageError (GivenWords × Option (String × List String))
  | [] => .ok (g, none)
  | word :: rest =>
    if g.ended then (l.takePlain g word).bind fun g => scan g rest
    else if word = "--" then scan { g with ended := true } rest
    else if g.waiting.isNone && l.subcommands.contains word then
      if word = "help" then .error (l.takeHelp rest) else .ok (g, some (word, rest))
    else if looksLikeOption word then
      if word.startsWith "--" then (l.takeLong g word).bind fun g => scan g rest
      else .error (takeShort word)
    else
      match g.waiting with
      | some name => scan { g with values := g.values ++ [(name, word)], waiting := none } rest
      | none => (l.takePlain g word).bind fun g => scan g rest

/-- Checks that nothing is missing, empty or given twice. -/
def check (g : GivenWords) : Except UsageError GivenWords :=
  if g.plain.length < l.places then .error .missingWord
  else
    match g.names.find? fun n => l.options.contains n && (g.value? n).isNone with
    | some name => .error (.emptyValue name)
    | none =>
      match g.names.find? fun n => 1 < g.names.count n with
      | some name => .error (.repeated name)
      | none => .ok g

/-- The words of a level without subcommands. -/
def read (words : List String) : Except UsageError GivenWords :=
  (l.scan {} words).bind fun (g, _) => l.check g

end CommandLevel

end GraphqlCypher
