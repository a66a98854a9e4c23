import GraphqlCypher.CommandLine.Command

/-! The program: reads its command line, does the command, and prints what it says.
A failure is printed as one line of JSON on the error output. -/
namespace GraphqlCypher

/-- What is said when a command line asks for help. -/
def helpText : String :=
  "Schema augmentation and statement compilation for graphql bindings.\n\n" ++
  "graphql-cypher [--log-format <format>] augment <schema> " ++
  "[--remote] [--no-query] [--no-mutation] [--no-id-fields]\n" ++
  "graphql-cypher [--log-format <format>] compile <schema> <operation> " ++
  "[--variables <json>] [--config <path>]\n" ++
  "graphql-cypher [--log-format <format>] idl <schema>"

def versionText : String := "graphql-cypher 0.1.0"

/-- What is said about a command line that cannot be used. -/
def UsageError.message : UsageError → String
  | .missingSubcommand => helpText
  | .missingWord => "The following required arguments were not provided."
  | .unknownArgument word =>
    "Found argument '" ++ word ++ "' which wasn't expected, or isn't valid in this context"
  | .misspeltSubcommand word => "The subcommand '" ++ word ++ "' wasn't recognized"
  | .unknownHelpTopic => "The subcommand wasn't recognized"
  | .repeated name =>
    "The argument '--" ++ name ++ "' was provided more than once, but cannot be used multiple times"
  | .emptyValue name => "The argument '--" ++ name ++ "' requires a value but none was supplied"
  | .helpWanted => helpText
  | .versionWanted => versionText

/-- What an error of the system says about a file. Its code may come with a minus sign. -/
def problemOf (e : IO.Error) : FileProblem :=
  let isCode (code expected : UInt32) : Bool := code == expected || 0 - code == expected
  match e with
  | .noFileOrDirectory _ _ _ => .notFound
  | .inappropriateType _ code _ => if isCode code 21 then .isDirectory else .notDirectory
  | .invalidArgument _ code _ => if isCode code 36 then .nameTooLong else .nulInPath
  | e => .other (toString e)

/-- The text of the file at a path. -/
def readTextFile (path : String) : IO (Except FileProblem String) := do
  try
    return fileText (← IO.FS.readBinFile path)
  catch e =>
    return .error (problemOf e)

/-- Does a command and prints its outcome. -/
def runCommand (command : Command) : IO UInt32 := do
  let seed ← IO.monoNanosNow
  let loaded ← (command.load readTextFile).run
  match loaded.bind (Job.output seed) with
  | .ok text => do
    IO.println text
    return 0
  | .error failure => do
    IO.eprintln (Json.object [("message", .string failure.message)]).compact
    return 1

end GraphqlCypher

open GraphqlCypher in
def main (words : List String) : IO UInt32 := do
  match CommandLine.read words with
  | .ok line => runCommand line.command
  | .error .helpWanted => do
    IO.println helpText
    return 0
  | .error .versionWanted => do
    IO.println versionText
    return 0
  | .error e => do
    IO.eprintln e.message
    return 1
