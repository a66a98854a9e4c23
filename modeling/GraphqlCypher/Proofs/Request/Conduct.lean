import GraphqlCypher.Proofs.Traversal
import GraphqlCypher.Request.Session

/-! What a step may do to its world.

A step is prepared from what it is asked, before the database is. It may be refused or
answered then; otherwise an `Errand` is left: one statement, and what its outcome is made
into. `World.Conducts` says what comes of each of the three. The first two leave all
sessions alone, the last asks for one session and reports what happened in it.

`RequestM.Follows` says the same of a computation. There is one rule for each way to
put computations together, so that a step follows what its parts prepare. -/
namespace GraphqlCypher

/-! ### Sessions -/

/-- Whether the session is opened at all. -/
def Reply.opens (r : Reply) : Bool := r.openError.isNone

/-- The open error, else the run error, else the close error, else the records. -/
def Reply.outcome (r : Reply) : Except Failure (List Record) :=
  match r.openError, r.runError, r.closeError with
  | some message, _, _ => .error (.connection message)
  | none, some (code, message), _ => .error (.database code message)
  | none, none, some message => .error (.connection message)
  | none, none, none => .ok r.records

namespace World

/-- The reply to the next session. -/
def reply (w : World) : Reply := w.replies.head?.getD {}

/-- No session is asked for between two worlds. -/
structure Idle (w w' : World) : Prop where
  replies : w'.replies = w.replies
  opened : w'.opened = w.opened
  closed : w'.closed = w.closed
  ran : w'.ran = w.ran

/-- One session is asked for between two worlds. If it opens, one statement is run in it
and it is closed. -/
structure AfterSession (w : World) (s : Statement) (w' : World) : Prop where
  replies : w'.replies = w.replies.tail
  opened : w'.opened = w.opened + if w.reply.opens then 1 else 0
  closed : w'.closed = w.closed + if w.reply.opens then 1 else 0
  ran : w'.ran = w.ran ++ if w.reply.opens then [s] else []

/-- At most one session is asked for between two worlds, and one statement run. -/
def AtMostOneSession (w w' : World) : Prop :=
  ∃ asked ≤ 1, w'.replies = w.replies.drop asked ∧ w'.opened ≤ w.opened + asked ∧
    ∃ ran : List Statement, w'.ran = w.ran ++ ran ∧ ran.length ≤ asked

variable {w w₁ w₂ : World} {s : Statement}

theorem Idle.refl (w : World) : w.Idle w := ⟨rfl, rfl, rfl, rfl⟩

theorem Idle.reply (h : w.Idle w₁) : w₁.reply = w.reply := by
  unfold World.reply
  rw [h.replies]

theorem Idle.trans (h : w.Idle w₁) (h' : w₁.Idle w₂) : w.Idle w₂ where
  replies := h'.replies.trans h.replies
  opened := h'.opened.trans h.opened
  closed := h'.closed.trans h.closed
  ran := h'.ran.trans h.ran

theorem Idle.afterSession (h : w.Idle w₁) (h' : w₁.AfterSession s w₂) : w.AfterSession s w₂ where
  replies := by rw [h'.replies, h.replies]
  opened := by rw [h'.opened, h.opened, h.reply]
  closed := by rw [h'.closed, h.closed, h.reply]
  ran := by rw [h'.ran, h.ran, h.reply]

theorem AfterSession.idle (h : w.AfterSession s w₁) (h' : w₁.Idle w₂) : w.AfterSession s w₂ where
  replies := h'.replies.trans h.replies
  opened := h'.opened.trans h.opened
  closed := h'.closed.trans h.closed
  ran := h'.ran.trans h.ran

theorem Idle.atMostOne (h : w.Idle w₁) : w.AtMostOneSession w₁ :=
  ⟨0, Nat.zero_le 1, h.replies, Nat.le_of_eq h.opened, [], by rw [h.ran, List.append_nil], Nat.le_refl 0⟩

theorem AfterSession.atMostOne (h : w.AfterSession s w₁) : w.AtMostOneSession w₁ := by
  refine ⟨1, Nat.le_refl 1, by rw [h.replies, List.drop_one], ?_, _, h.ran, ?_⟩
  · rw [h.opened]
    split <;> omega
  · split <;> simp

theorem runIn_snd (w : World) (session : Reply) (s : Statement) :
    (w.runIn session s).2 = { w with ran := w.ran ++ [s] } := by
  unfold runIn
  cases session.runError <;> rfl

theorem closeSession_snd (w : World) (session : Reply) :
    (w.closeSession session).2 = { w with closed := w.closed + 1 } := by
  unfold closeSession
  cases session.closeError <;> rfl

/-- An open session is closed after the run, whatever that gave. -/
theorem run_of_opens {session : Reply} (s : Statement)
    (h : w.openSession = (.ok session, w₁)) :
    w.run s =
      ((w₁.runIn session s).1.bind fun records =>
        ((w₁.runIn session s).2.closeSession session).1.map fun _ => records,
        ((w₁.runIn session s).2.closeSession session).2) := by
  unfold run
  rw [h]
  dsimp only
  rcases (w₁.runIn session s).1 with f | records
  · rfl
  · rcases ((w₁.runIn session s).2.closeSession session).1 with f | _ <;> rfl

/-- **A statement runs in one session, which is closed if it was opened, and the first
thing that went wrong is reported.** -/
theorem run_spec (w : World) (s : Statement) :
    (w.run s).1 = w.reply.outcome ∧ w.AfterSession s (w.run s).2 := by
  cases hopen : w.reply.openError with
  | some message =>
    have refused : w.openSession =
        (.error (.connection message), { w with replies := w.replies.tail }) := by
      have found : (w.replies.head?.getD {}).openError = some message := hopen
      simp only [openSession, found]
    have opens : w.reply.opens = false := by simp [Reply.opens, hopen]
    unfold run
    rw [refused]
    refine ⟨by simp [Reply.outcome, hopen], ?_⟩
    constructor <;> simp [opens]
  | none =>
    have granted : w.openSession =
        (.ok w.reply, { w with replies := w.replies.tail, opened := w.opened + 1 }) := by
      have found : (w.replies.head?.getD {}).openError = none := hopen
      simp only [openSession, found]
      rfl
    have opens : w.reply.opens = true := by simp [Reply.opens, hopen]
    rw [run_of_opens s granted]
    constructor
    · unfold runIn closeSession Reply.outcome
      rw [hopen]
      rcases w.reply.runError with _ | ⟨code, message⟩
      · rcases w.reply.closeError with _ | message <;> rfl
      · rfl
    · rw [closeSession_snd, runIn_snd]
      constructor <;> simp [opens]

example (s : Statement) :
    (World.run ⟨[⟨none, some (none, "run"), [], some "close"⟩], 0, 0, [], [], 0, none⟩ s).1 =
      .error (.database none "run") := rfl

end World

/-! ### Preparations -/

/-- A statement, and what the outcome of its run is made into. -/
structure Errand (α : Type) where
  statement : Statement
  report : Except Failure (List Record) → Except RequestFailure α

/-- A statement whose records are shaped. What the driver reports goes first. -/
def Errand.shaping {α : Type} (s : Statement) (shape : List Record → Except RequestFailure α) :
    Errand α :=
  ⟨s, fun outcome => (outcome.mapError .core).bind shape⟩

/-- What is known of a step before the database is asked. -/
inductive Preparation (α : Type) where
  | refused (f : RequestFailure)
  | answered (a : α)
  | runs (j : Errand α)

namespace Preparation

variable {α β : Type}

/-- Goes on from what needs no database. -/
def after (e : Except RequestFailure α) (k : α → Preparation β) : Preparation β :=
  match e with
  | .error f => .refused f
  | .ok a => k a

def map (g : α → β) : Preparation α → Preparation β
  | refused f => refused f
  | answered a => answered (g a)
  | runs j => runs ⟨j.statement, fun outcome => (j.report outcome).map g⟩

/-- Nothing fails any more: failures become part of the value. -/
def caught (g : Except RequestFailure α → β) : Preparation α → Preparation β
  | refused f => answered (g (.error f))
  | answered a => answered (g (.ok a))
  | runs j => runs ⟨j.statement, fun outcome => .ok (g (j.report outcome))⟩

end Preparation

/-- What a step with a preparation reports, and how it leaves the world. -/
def World.Conducts {α : Type} (w : World) (p : Preparation α) (outcome : Except RequestFailure α)
    (w' : World) : Prop :=
  match p with
  | .refused f => outcome = .error f ∧ w.Idle w'
  | .answered a => outcome = .ok a ∧ w.Idle w'
  | .runs j => outcome = j.report w.reply.outcome ∧ w.AfterSession j.statement w'

namespace World.Conducts

variable {α β : Type} {p : Preparation α} {outcome : Except RequestFailure α} {w w₁ w₂ : World}

theorem of_idle (idle : w.Idle w₁) (h : w₁.Conducts p outcome w₂) : w.Conducts p outcome w₂ := by
  cases p with
  | refused f => exact ⟨h.1, idle.trans h.2⟩
  | answered a => exact ⟨h.1, idle.trans h.2⟩
  | runs j => exact ⟨idle.reply ▸ h.1, idle.afterSession h.2⟩

theorem map (g : α → β) (h : w.Conducts p outcome w₁) :
    w.Conducts (p.map g) (outcome.map g) w₁ := by
  cases p with
  | refused f => exact ⟨congrArg (Except.map g) h.1, h.2⟩
  | answered a => exact ⟨congrArg (Except.map g) h.1, h.2⟩
  | runs j => exact ⟨congrArg (Except.map g) h.1, h.2⟩

theorem caught (g : Except RequestFailure α → β) (h : w.Conducts p outcome w₁) :
    w.Conducts (p.caught g) (.ok (g outcome)) w₁ := by
  cases p with
  | refused f => exact ⟨by rw [h.1], h.2⟩
  | answered a => exact ⟨by rw [h.1], h.2⟩
  | runs j => exact ⟨by rw [h.1], h.2⟩

/-- **A step keeps sessions balanced.** -/
theorem balanced (h : w.Conducts p outcome w₁) (before : w.opened = w.closed) :
    w₁.opened = w₁.closed := by
  cases p with
  | refused f => rw [h.2.opened, h.2.closed, before]
  | answered a => rw [h.2.opened, h.2.closed, before]
  | runs j => rw [h.2.opened, h.2.closed, before]

/-- **A step asks for at most one session and runs at most one statement.** -/
theorem atMostOne (h : w.Conducts p outcome w₁) : w.AtMostOneSession w₁ := by
  cases p with
  | refused f => exact h.2.atMostOne
  | answered a => exact h.2.atMostOne
  | runs j => exact h.2.atMostOne

end World.Conducts

/-! ### Computations -/

namespace RequestM

variable {α β : Type} {w : World}

theorem run_bind (m : RequestM α) (k : α → RequestM β) (w : World) :
    (m >>= k).run.run w =
      match m.run.run w with
      | (.ok a, w₁) => (k a).run.run w₁
      | (.error f, w₁) => (.error f, w₁) := by
  show (ExceptT.run m >>= ExceptT.bindCont k) w = _
  show (match ExceptT.run m w with | (r, w₁) => ExceptT.bindCont k r w₁) = _
  rcases h : m.run.run w with ⟨_ | a, w₁⟩
  · have h' : ExceptT.run m w = (.error _, w₁) := h
    rw [h']
    rfl
  · have h' : ExceptT.run m w = (.ok a, w₁) := h
    rw [h']
    rfl

/-- A computation does to a world what a preparation says. -/
def Follows (m : RequestM α) (w : World) (p : Preparation α) : Prop :=
  w.Conducts p (m.run.run w).1 (m.run.run w).2

theorem follows_throw (f : RequestFailure) (w : World) :
    Follows (throw f : RequestM α) w (.refused f) := ⟨rfl, .refl w⟩

theorem follows_pure (a : α) (w : World) : Follows (pure a : RequestM α) w (.answered a) :=
  ⟨rfl, .refl w⟩

/-- What leaves sessions alone and gives a value goes unseen. -/
theorem follows_bind_of_idle {m : RequestM α} {k : α → RequestM β} {a : α} {w₁ : World}
    {p : Preparation β} (run : m.run.run w = (.ok a, w₁)) (idle : w.Idle w₁)
    (h : Follows (k a) w₁ p) : Follows (m >>= k) w p := by
  unfold Follows
  rw [run_bind, run]
  exact .of_idle idle h

theorem follows_after (e : Except RequestFailure α) {k : α → RequestM β}
    {p : α → Preparation β} (h : ∀ a, Follows (k a) w (p a)) :
    Follows (ofExcept e >>= k) w (.after e p) := by
  cases e with
  | error f => exact ⟨rfl, .refl w⟩
  | ok a => exact follows_bind_of_idle rfl (.refl w) (h a)

theorem follows_map {m : RequestM α} {p : Preparation α} (g : α → β) (h : Follows m w p) :
    Follows (m >>= fun a => pure (g a)) w (p.map g) := by
  unfold Follows at h ⊢
  rw [run_bind]
  generalize m.run.run w = r at h ⊢
  obtain ⟨_ | a, w₁⟩ := r <;> exact .map g h

/-- A run of a statement is a session. -/
theorem follows_execute (s : Statement) (w : World) :
    Follows (execute s) w (.runs ⟨s, fun outcome => outcome.mapError .core⟩) := by
  obtain ⟨outcome, session⟩ := w.run_spec s
  have run : (execute s).run.run w = ((w.run s).1.mapError .core, (w.run s).2) := by
    change (ofCore (w.run s).1).run.run (w.run s).2 = _
    rcases (w.run s).1 with f | records <;> rfl
  unfold Follows
  rw [run]
  exact ⟨congrArg (Except.mapError RequestFailure.core) outcome, session⟩

/-- What is made of the outcome of an errand needs no database. -/
theorem follows_bind_of_runs {m : RequestM α} {k : α → RequestM β} {j : Errand α}
    {g : α → Except RequestFailure β} (h : Follows m w (.runs j))
    (after : ∀ a w₁, ((k a).run.run w₁).1 = g a ∧ w₁.Idle ((k a).run.run w₁).2) :
    Follows (m >>= k) w (.runs ⟨j.statement, fun outcome => (j.report outcome).bind g⟩) := by
  unfold Follows at h ⊢
  rw [run_bind]
  generalize m.run.run w = r at h ⊢
  obtain ⟨f | a, w₁⟩ := r <;> obtain ⟨outcome, session⟩ := h
  · exact ⟨congrArg (Except.bind · g) outcome, session⟩
  · obtain ⟨value, idle⟩ := after a w₁
    refine ⟨?_, session.idle idle⟩
    rw [value]
    exact congrArg (Except.bind · g) outcome

/-- What is logged goes unseen. -/
theorem follows_logged {log : Bool} (e : Event) {k : Unit → RequestM α} {p : Preparation α}
    (h : ∀ w, Follows (k ()) w p) :
    Follows (if log then (do let r ← note e; k r) else k ()) w p := by
  cases log with
  | true =>
    have idle : w.Idle { w with log := w.log ++ [e] } := ⟨rfl, rfl, rfl, rfl⟩
    exact follows_bind_of_idle rfl idle (h _)
  | false => exact h w

theorem ofCore_eq (e : Except Failure α) : ofCore e = ofExcept (e.mapError .core) := by
  cases e <;> rfl

/-- Once the records are there, nothing more is asked of the database. -/
theorem follows_execute_shaping (s : Statement) (w : World)
    {k : List Record → RequestM α} {shape : List Record → Except RequestFailure α}
    (h : ∀ records w, Follows (k records) w (.after (shape records) .answered)) :
    Follows (execute s >>= k) w (.runs (.shaping s shape)) := by
  refine follows_bind_of_runs (follows_execute s w) fun records w₁ => ?_
  have shaped := h records w₁
  unfold Follows at shaped
  cases hs : shape records <;> rw [hs] at shaped <;> exact shaped

end RequestM

/-! ### What errands report -/

/-- What can go wrong before the database is asked, and not after: the binding or the
field is missing, the operation cannot be read, is not supported or cannot be compiled, or
a schema cannot be read. -/
def RequestFailure.precedesSession : RequestFailure → Bool
  | .missingBinding _ | .missingCallable _ _ | .unknownArgument _ _ => true
  | .unreadable _ | .noOperation | .noField _ => true
  | .subscriptionPlanned | .subscriptionResolved | .notRoot _ => true
  | .core (.schema _) | .core (.unknownMutation _) | .core (.idGeneration _) => true
  | .core f => f.isCompileError
  | .dataNotObject _ | .configuration _ => false

/-- What the driver reports makes a step fail, and records never make it fail in a way that
precedes a session. -/
structure Errand.Reports {α : Type} (j : Errand α) (failed : RequestFailure → Except RequestFailure α) :
    Prop where
  driver : ∀ f, j.report (.error f) = failed (.core f)
  records : ∀ records f, j.report (.ok records) = .error f → f.precedesSession = false

namespace Preparation

variable {α β : Type} {failed : RequestFailure → Except RequestFailure α}

/-- If an errand is left, it reports what the driver does. -/
def Reports (failed : RequestFailure → Except RequestFailure α) : Preparation α → Prop
  | refused _ => True
  | answered _ => True
  | runs j => j.Reports failed

theorem reports_after {e : Except RequestFailure β} {k : β → Preparation α}
    (h : ∀ b, (k b).Reports failed) : (after e k).Reports failed := by
  cases e with
  | error f => trivial
  | ok b => exact h b

theorem Reports.map {p : Preparation α} (g : α → β) (h : p.Reports failed) :
    (p.map g).Reports fun f => (failed f).map g := by
  cases p with
  | refused f => trivial
  | answered a => trivial
  | runs j =>
    refine ⟨fun f => congrArg (Except.map g) (h.driver f), fun records f failing => ?_⟩
    exact h.records _ _ (error_of_map failing)

theorem Reports.caught {p : Preparation α} (g : Except RequestFailure α → β)
    (h : p.Reports failed) : (p.caught g).Reports fun f => .ok (g (failed f)) := by
  cases p with
  | refused f => trivial
  | answered a => trivial
  | runs j => exact ⟨fun f => congrArg (fun o => Except.ok (g o)) (h.driver f), nofun⟩

theorem reports_shaping (s : Statement) {shape : List Record → Except RequestFailure α}
    (h : ∀ records f, shape records = .error f → f.precedesSession = false) :
    (runs (.shaping s shape)).Reports .error :=
  ⟨fun _ => rfl, h⟩

end Preparation

theorem precedesSession_of_outcome {r : Reply} {f : Failure} (h : r.outcome = .error f) :
    (RequestFailure.core f).precedesSession = false := by
  unfold Reply.outcome at h
  split at h <;> cases h <;> rfl

/-- What fails on the way to the database asks for no session. -/
theorem World.Conducts.idle_of_precedesSession {α : Type} {p : Preparation α}
    {failed : RequestFailure → Except RequestFailure α} {outcome : Except RequestFailure α}
    {w w' : World} {f : RequestFailure} (h : w.Conducts p outcome w') (reports : p.Reports failed)
    (failed_eq : ∀ f f', failed f = .error f' → f' = f) (failing : outcome = .error f)
    (precedes : f.precedesSession) : w.Idle w' := by
  cases p with
  | refused f' => exact h.2
  | answered a => exact h.2
  | runs j =>
    exfalso
    have reported : j.report w.reply.outcome = .error f := h.1.symm.trans failing
    cases hr : w.reply.outcome with
    | error e =>
      rw [hr, reports.driver] at reported
      have late := precedesSession_of_outcome hr
      rw [← failed_eq _ _ reported, precedes] at late
      cases late
    | ok records =>
      rw [hr] at reported
      have late := reports.records _ _ reported
      rw [precedes] at late
      cases late

end GraphqlCypher
