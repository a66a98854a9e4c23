import GraphqlCypher.Augment.Document
import GraphqlCypher.CommandLine.Files
import GraphqlCypher.CommandLine.Words
import GraphqlCypher.Request.Binding
import GraphqlCypher.Request.Config
import GraphqlCypher.Request.Registration

/-! Commands: what a command line asks for, the files it needs, and what it prints.

`augment` prints type definitions with everything that is generated for them,
`compile` prints the statement and the parameters of an operation, and `idl` prints
type definitions as they are registered with the database. -/
namespace GraphqlCypher

open Schema

/-! ### Command lines -/

inductive LogFormat where
  | text
  | json
deriving DecidableEq, Repr

/-- Anything but a known name stands for JSON. -/
def LogFormat.ofName : Option String → LogFormat
  | some "text" | some "devel" => .text
  | _ => .json

/-- A command with the paths of its files. -/
inductive Command where
  | augment (schema : String) (options : AugmentOptions)
  | compile (schema operation : String) (values config : Option String)
  | idl (schema : String)
deriving Repr

structure CommandLine where
  logFormat : LogFormat
  command : Command
deriving Repr

namespace CommandLine

def topLevel : CommandLevel :=
  { options := ["log-format"], subcommands := ["augment", "compile", "idl", "help"] }

def augmentLevel : CommandLevel :=
  { flags := ["remote", "no-query", "no-mutation", "no-id-fields"], places := 1 }

def compileLevel : CommandLevel := { options := ["variables", "config"], places := 2 }

def idlLevel : CommandLevel := { places := 1 }

def readAugment (words : List String) : Except UsageError Command :=
  (augmentLevel.read words).map fun g =>
    .augment (g.plain.headD "") {
      query := !g.hasFlag "no-query"
      mutation := !g.hasFlag "no-mutation"
      idFields := !g.hasFlag "no-id-fields"
      remote := g.hasFlag "remote" }

def readCompile (words : List String) : Except UsageError Command :=
  (compileLevel.read words).map fun g =>
    .compile (g.plain.headD "") (g.plain.getD 1 "") (g.value? "variables") (g.value? "config")

def readIdl (words : List String) : Except UsageError Command :=
  (idlLevel.read words).map fun g => .idl (g.plain.headD "")

/-- Reads the words after the program's name. What is wrong after the subcommand is
reported before what is wrong in front of it. -/
def read (words : List String) : Except UsageError CommandLine := do
  let (g, subcommand) ← topLevel.scan {} words
  let command ← match subcommand with
    | none => .error .missingSubcommand
    | some ("augment", rest) => readAugment rest
    | some ("compile", rest) => readCompile rest
    | some (_, rest) => readIdl rest
  let g ← topLevel.check g
  return ⟨LogFormat.ofName (g.value? "log-format"), command⟩

end CommandLine

/-! ### What a command needs -/

/-- Why a command prints nothing. -/
inductive CommandFailure where
  | unreadableFile (path : String) (problem : FileProblem)
  | unreadableValues (e : Json.DecodeError)
  | request (f : RequestFailure)
deriving Repr

namespace CommandFailure

def message : CommandFailure → String
  | .unreadableFile path problem => "Could not read `" ++ path ++ "`: " ++ problem.message
  | .unreadableValues e => e.message
  | .request f => f.message

def ofSchema (e : SchemaError) : CommandFailure := .request (.core (.schema e))

end CommandFailure

/-- A command with the contents of its files. -/
inductive Job where
  | augment (schema : String) (options : AugmentOptions)
  | compile (schema operation : String) (values : Json.Object) (config : BindingConfig)
  | idl (schema : String)

section Load
variable {m : Type → Type} [Monad m] (readFile : String → m (Except FileProblem String))

def loadFile (path : String) : ExceptT CommandFailure m String := do
  match ← ExceptT.lift (readFile path) with
  | .ok text => return text
  | .error problem => throw (.unreadableFile path problem)

def loadVariables : Option String → Except CommandFailure Json.Object
  | none => .ok []
  | some text =>
    match Json.parseObject text with
    | .ok values => .ok values
    | .error e => .error (.unreadableValues e)

def loadConfig : Option String → ExceptT CommandFailure m BindingConfig
  | none => return {}
  | some path => do
    match BindingConfig.ofText (← loadFile readFile path) with
    | .ok config => return config
    | .error f => throw (.request f)

/-- Loads what a command needs: variables, then the configuration, then the schema. -/
def Command.load : Command → ExceptT CommandFailure m Job
  | .augment schema options => return .augment (← loadFile readFile schema) options
  | .compile schema operation values config => do
    let values ← ExceptT.mk (pure (loadVariables values))
    let config ← loadConfig readFile config
    return .compile (← loadFile readFile schema) operation values config
  | .idl schema => return .idl (← loadFile readFile schema)

end Load

/-! ### What is printed -/

namespace Job

/-- The statement of an operation on the augmented schema. -/
def compileStatement (schema operation : String) (values : Json.Object)
    (ids : Option IdGenerator) : Except RequestFailure Statement := do
  let core {α : Type} (e : Except SchemaError α) : Except RequestFailure α :=
    e.mapError fun e => .core (.schema e)
  let augmented ← core (Document.augmentText {} schema)
  let catalog ← core (Catalog.ofText augmented)
  let op ← Operation.parse operation values
  let (plan, _) := (Link.mk catalog false ids).planFrom op 0
  return (← plan).statement

/-- What the command prints. Ids come from the seed. -/
def output (seed : Nat) : Job → Except CommandFailure String
  | .augment schema options =>
    (Document.augmentText options schema).mapError CommandFailure.ofSchema
  | .compile schema operation values config =>
    let ids := config.index.strategy?.map (·.generator seed)
    match compileStatement schema operation values ids with
    | .ok s => .ok s.toJson.pretty
    | .error f => .error (.request f)
  | .idl schema =>
    ((Document.augmentText AugmentOptions.forRemote schema).bind Document.oneLineText).mapError
      CommandFailure.ofSchema

end Job

end GraphqlCypher
