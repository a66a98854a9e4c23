import GraphqlCypher.Plan
import GraphqlCypher.Request.Operation

/-! Sessions with the database.

The database is seen through what it answers: one `Reply` for every session that is
asked for. `World.run` opens a session for one statement and closes it again. -/
namespace GraphqlCypher

/-- What happens in one session. -/
structure Reply where
  /-- Opening fails. -/
  openError : Option String := none
  /-- The run fails, perhaps with a code. -/
  runError : Option (Option String × String) := none
  /-- What the run returns. -/
  records : List Record := []
  /-- Closing fails. -/
  closeError : Option String := none
deriving Repr, Inhabited

/-- What is logged about a request. -/
inductive Event where
  | request (statement : String) (parameters : Json)
  | response (data : Json)
deriving Repr

/-- Everything that requests leave behind. -/
structure World where
  /-- The replies to come; after the last one the database answers nothing. -/
  replies : List Reply
  opened : Nat := 0
  closed : Nat := 0
  /-- The statements that were run. -/
  ran : List Statement := []
  log : List Event := []
  /-- The number of ids drawn. -/
  drawn : Nat := 0
  /-- The root field that is being executed. -/
  operationName : Option String := none
deriving Repr

namespace World

/-- Asks for a session. It answers as the next reply says. -/
def openSession (w : World) : Except Failure Reply × World :=
  let session := w.replies.head?.getD {}
  let w := { w with replies := w.replies.tail }
  match session.openError with
  | some message => (.error (.connection message), w)
  | none => (.ok session, { w with opened := w.opened + 1 })

/-- Runs a statement in an open session. -/
def runIn (w : World) (session : Reply) (s : Statement) : Except Failure (List Record) × World :=
  let w := { w with ran := w.ran ++ [s] }
  match session.runError with
  | some (code, message) => (.error (.database code message), w)
  | none => (.ok session.records, w)

/-- Closes an open session. It is given up even if that fails. -/
def closeSession (w : World) (session : Reply) : Except Failure Unit × World :=
  let w := { w with closed := w.closed + 1 }
  match session.closeError with
  | some message => (.error (.connection message), w)
  | none => (.ok (), w)

/-- Runs a statement in a session of its own, which is closed whatever the outcome. A
failed run is reported before a failed close. -/
def run (w : World) (s : Statement) : Except Failure (List Record) × World :=
  match w.openSession with
  | (.error f, w) => (.error f, w)
  | (.ok session, w) =>
    let (result, w) := w.runIn session s
    let (closed, w) := w.closeSession session
    match result, closed with
    | .ok records, .ok () => (.ok records, w)
    | .error f, _ => (.error f, w)
    | .ok _, .error f => (.error f, w)

end World

/-- Handling a request: it may fail, and what it did stays done. -/
abbrev RequestM := ExceptT RequestFailure (StateM World)

namespace RequestM

/-- A step that leaves the world as it is. -/
def ofExcept {α : Type} (e : Except RequestFailure α) : RequestM α := ExceptT.mk (pure e)

def ofCore {α : Type} (e : Except Failure α) : RequestM α :=
  ofExcept (match e with
    | .ok a => .ok a
    | .error f => .error (.core f))

/-- Runs a statement. -/
def execute (s : Statement) : RequestM (List Record) := do
  let (outcome, w) := (← get).run s
  set w
  ofCore outcome

def note (e : Event) : RequestM Unit := modify fun w => { w with log := w.log ++ [e] }

end RequestM

end GraphqlCypher
