import GraphqlCypher.Proofs.Mutation.Shaped
import GraphqlCypher.Proofs.Request.Conduct
import GraphqlCypher.Request.Service

/-! Sessions of a service.

Whatever is asked of a service, and however the database behaves, a step does what
`Service.prepare` says before the database is asked: it is refused, it is answered, or it
runs one statement in one session. **`Service.serve_keeps`** draws the consequences after
any sequence of steps: sessions are balanced, a step asks for at most one, what fails on
the way to the database asks for none, and what the database answers is reported in a
fixed order.

The preparation of a step reads no reply, and its parts are those of the step: links
plan, bindings look their fields up, services look for a binding. -/
namespace GraphqlCypher

theorem precedesSession_of_isOfRecords {f : Failure} (h : f.isOfRecords) :
    (RequestFailure.core f).precedesSession = false := by
  cases f <;> first | rfl | cases h

/-! ### Links and bindings -/

namespace Link

variable (l : Link) (op : Operation)

/-- An operation is planned; its plan is run and the records are shaped. -/
def prepare (drawn : Nat) : Preparation Json :=
  .after (l.planFrom op drawn).1 fun plan =>
    .runs (.shaping plan.statement fun records =>
      (plan.shape l.catalog records).mapError .core)

theorem plan_run (w : World) :
    (l.plan op).run.run w =
      ((l.planFrom op w.drawn).1, { w with drawn := (l.planFrom op w.drawn).2 }) := rfl

theorem plan_follows (w : World) :
    (l.plan op).Follows w (.after (l.planFrom op w.drawn).1 .answered) := by
  have idle : w.Idle { w with drawn := (l.planFrom op w.drawn).2 } := ⟨rfl, rfl, rfl, rfl⟩
  unfold RequestM.Follows
  rw [plan_run]
  cases (l.planFrom op w.drawn).1 <;> exact ⟨rfl, idle⟩

theorem request_follows (w : World) : (l.request op).Follows w (l.prepare op w.drawn) := by
  have idle : w.Idle { w with drawn := (l.planFrom op w.drawn).2 } := ⟨rfl, rfl, rfl, rfl⟩
  have planned := l.plan_run op w
  unfold request prepare
  cases hp : (l.planFrom op w.drawn).1 with
  | error f =>
    unfold RequestM.Follows
    rw [RequestM.run_bind, planned, hp]
    exact ⟨rfl, idle⟩
  | ok plan =>
    rw [hp] at planned
    refine RequestM.follows_bind_of_idle planned idle ?_
    refine RequestM.follows_logged _ fun w₁ => ?_
    refine RequestM.follows_execute_shaping _ _ fun records w₂ => ?_
    rw [RequestM.ofCore_eq]
    refine RequestM.follows_after _ fun data => ?_
    exact RequestM.follows_logged _ fun w₃ => RequestM.follows_pure data w₃

/-- What is handled never fails: its failures are errors of the response. -/
theorem handle_follows (w : World) :
    RequestM.Follows (liftM (l.handle op)) w ((l.prepare op w.drawn).caught Response.ofResult) :=
  (l.request_follows op w).caught Response.ofResult

theorem prepare_reports (drawn : Nat) : (l.prepare op drawn).Reports .error := by
  refine Preparation.reports_after fun plan => Preparation.reports_shaping _ fun records f h => ?_
  cases hs : plan.shape l.catalog records with
  | error e =>
    rw [hs] at h
    cases h
    exact precedesSession_of_isOfRecords (Plan.isOfRecords_of_shape_error hs)
  | ok data =>
    rw [hs] at h
    cases h

end Link

/-- A field is looked up, its arguments become an operation, and the value of the field is
taken from the data. -/
def Binding.prepare (b : Binding) (kind : OperationKind) (field : String)
    (arguments : Json.Object) (selection : Option String) (drawn : Nat) : Preparation Json :=
  match b.signatures.find? kind field with
  | none => .refused (.missingCallable kind.rootType field)
  | some signature =>
    .after (delegatedOperation kind field signature arguments selection) fun op =>
      (b.link.prepare op drawn).map fun data => (data.get? field).getD .null

theorem Binding.delegate_follows (b : Binding) (kind : OperationKind) (field : String)
    (arguments : Json.Object) (selection : Option String) (w : World) :
    (b.delegate kind field arguments selection).Follows w
      (b.prepare kind field arguments selection w.drawn) := by
  unfold delegate prepare
  cases b.signatures.find? kind field with
  | none => exact RequestM.follows_throw _ w
  | some signature =>
    exact RequestM.follows_after _ fun op => RequestM.follows_map _ (b.link.request_follows op w)

theorem Binding.prepare_reports (b : Binding) (kind : OperationKind) (field : String)
    (arguments : Json.Object) (selection : Option String) (drawn : Nat) :
    (b.prepare kind field arguments selection drawn).Reports .error := by
  unfold prepare
  cases b.signatures.find? kind field with
  | none => trivial
  | some signature =>
    exact Preparation.reports_after fun op => (b.link.prepare_reports op drawn).map _

/-! ### Services -/

/-- A schema is put on one line each and registered; the first value of the records is the
answer. -/
def prepareRegister (text : String) : Preparation Json :=
  match Schema.Document.oneLineText text with
  | .error e => .refused (.core (.schema e))
  | .ok schema =>
    .runs (.shaping (registrationStatement schema) fun records =>
      match Plan.firstValue? records with
      | some v => .ok v
      | none => .error (.core .notRegistered))

theorem register_follows (text : String) (w : World) :
    (register text).Follows w (prepareRegister text) := by
  unfold register prepareRegister
  cases Schema.Document.oneLineText text with
  | error e => exact RequestM.follows_throw _ w
  | ok schema =>
    refine RequestM.follows_execute_shaping _ _ fun records w₁ => ?_
    cases Plan.firstValue? records with
    | none => exact RequestM.follows_throw _ w₁
    | some v => exact RequestM.follows_pure v w₁

theorem prepareRegister_reports (text : String) : (prepareRegister text).Reports .error := by
  unfold prepareRegister
  cases Schema.Document.oneLineText text with
  | error e => trivial
  | ok schema =>
    refine Preparation.reports_shaping _ fun records f h => ?_
    cases hv : Plan.firstValue? records with
    | none =>
      rw [hv] at h
      cases h
      rfl
    | some v =>
      rw [hv] at h
      cases h

namespace Service

variable (s : Service)

/-- Goes on with the binding under a key. -/
def withBinding {α : Type} (key : String) (k : Binding → Preparation α) : Preparation α :=
  .after (if s.keys.contains key then .ok s.binding else .error (.missingBinding key)) k

def prepareResolve (key : String) (call : FieldCall) (drawn : Nat) : Preparation Json :=
  s.withBinding key fun binding =>
    if call.parent = Schema.Names.query then
      binding.prepare .query call.field call.arguments call.selection drawn
    else if call.parent = Schema.Names.mutation then
      binding.prepare .mutation call.field call.arguments call.selection drawn
    else .refused (.missingCallable call.parent call.field)

def prepareExecute (call : FieldCall) (drawn : Nat) : Preparation Json :=
  if call.parent = Schema.Names.mutation ∨ call.parent = Schema.Names.query then
    s.withBinding defaultBindingKey fun binding =>
      let kind := if call.parent = Schema.Names.mutation then OperationKind.mutation else .query
      binding.prepare kind call.field call.arguments call.selection drawn
  else if call.parent = Schema.Names.subscription then .refused .subscriptionResolved
  else .refused (.notRoot call.parent)

theorem bindingAt_eq (key : String) :
    s.bindingAt key = RequestM.ofExcept
      (if s.keys.contains key then .ok s.binding else .error (.missingBinding key)) := by
  unfold bindingAt
  split <;> rfl

theorem resolve_follows (key : String) (call : FieldCall) (w : World) :
    (s.resolve key call).Follows w (s.prepareResolve key call w.drawn) := by
  unfold resolve prepareResolve withBinding
  rw [bindingAt_eq]
  refine RequestM.follows_after _ fun binding => ?_
  split
  · exact binding.delegate_follows _ _ _ _ w
  · split
    · exact binding.delegate_follows _ _ _ _ w
    · exact RequestM.follows_throw _ w

theorem execute_follows (call : FieldCall) (w : World) :
    (s.execute call).Follows w (s.prepareExecute call w.drawn) := by
  unfold execute prepareExecute withBinding
  rw [bindingAt_eq]
  split
  · have idle : w.Idle { w with operationName := some call.field } := ⟨rfl, rfl, rfl, rfl⟩
    refine RequestM.follows_bind_of_idle rfl idle ?_
    exact RequestM.follows_after _ fun binding => binding.delegate_follows _ _ _ _ _
  · split
    · exact RequestM.follows_throw _ w
    · exact RequestM.follows_throw _ w

/-- What is known of a step before the database is asked. It depends on what is asked and
on the number of ids drawn so far, and on no reply. -/
def prepare (drawn : Nat) : Call → Preparation Answer
  | .delegate kind field arguments selection =>
    (s.binding.prepare kind field arguments selection drawn).map .data
  | .request query values =>
    .after (Operation.parse query values) fun op => (s.binding.link.prepare op drawn).map .data
  | .handle query values =>
    .after (Operation.parse query values) fun op =>
      ((s.binding.link.prepare op drawn).caught Response.ofResult).map .response
  | .plan query values =>
    .after (Operation.parse query values) fun op =>
      (Preparation.after (s.binding.link.planFrom op drawn).1 .answered).map .plan
  | .hasField kind field => .answered (.holds (s.binding.hasField kind field))
  | .isGenerated field => .answered (.holds (s.binding.link.catalog.isGenerated field))
  | .execute call => (s.prepareExecute call drawn).map .data
  | .resolve key call => (s.prepareResolve key call drawn).map .data
  | .resolveBuilt options call =>
    .after (s.buildsResolver options call.parent call.field) fun built =>
      if built then (s.prepareResolve options.bindingKey call drawn).map .data
      else .answered .noResolver
  | .register text => (prepareRegister (text.getD s.text)).map .data

/-- **A step does what its preparation says.** -/
theorem answer_follows (call : Call) (w : World) :
    (s.answer call).Follows w (s.prepare w.drawn call) := by
  cases call with
  | delegate kind field arguments selection =>
    exact RequestM.follows_map _ (s.binding.delegate_follows kind field arguments selection w)
  | request query values =>
    exact RequestM.follows_after _ fun op =>
      RequestM.follows_map _ (s.binding.link.request_follows op w)
  | handle query values =>
    exact RequestM.follows_after _ fun op =>
      RequestM.follows_map _ (s.binding.link.handle_follows op w)
  | plan query values =>
    exact RequestM.follows_after _ fun op =>
      RequestM.follows_map _ (s.binding.link.plan_follows op w)
  | hasField kind field => exact RequestM.follows_pure _ w
  | isGenerated field => exact RequestM.follows_pure _ w
  | execute call => exact RequestM.follows_map _ (s.execute_follows call w)
  | resolve key call => exact RequestM.follows_map _ (s.resolve_follows key call w)
  | resolveBuilt options call =>
    refine RequestM.follows_after _ fun built => ?_
    cases built with
    | true => exact RequestM.follows_map _ (s.resolve_follows options.bindingKey call w)
    | false => exact RequestM.follows_pure _ w
  | register text => exact RequestM.follows_map _ (register_follows _ w)

theorem prepareResolve_reports (key : String) (call : FieldCall) (drawn : Nat) :
    (s.prepareResolve key call drawn).Reports .error := by
  refine Preparation.reports_after fun binding => ?_
  split
  · exact binding.prepare_reports _ _ _ _ _
  · split
    · exact binding.prepare_reports _ _ _ _ _
    · trivial

theorem prepareExecute_reports (call : FieldCall) (drawn : Nat) :
    (s.prepareExecute call drawn).Reports .error := by
  unfold prepareExecute
  split
  · exact Preparation.reports_after fun binding => binding.prepare_reports _ _ _ _ _
  · split <;> trivial

/-- How a step that fails is answered: handling puts the failure into the response. -/
def Call.failed (f : RequestFailure) : Call → Except RequestFailure Answer
  | .handle _ _ => .ok (.response (.ofFailure f))
  | _ => .error f

theorem prepare_reports (drawn : Nat) (call : Call) :
    (s.prepare drawn call).Reports fun f => call.failed f := by
  cases call with
  | delegate kind field arguments selection =>
    exact (s.binding.prepare_reports kind field arguments selection drawn).map _
  | request query values =>
    exact Preparation.reports_after fun op => (s.binding.link.prepare_reports op drawn).map _
  | handle query values =>
    exact Preparation.reports_after fun op =>
      ((s.binding.link.prepare_reports op drawn).caught _).map _
  | plan query values =>
    refine Preparation.reports_after fun op => ?_
    cases (s.binding.link.planFrom op drawn).1 <;> trivial
  | hasField kind field => trivial
  | isGenerated field => trivial
  | execute call => exact (s.prepareExecute_reports call drawn).map _
  | resolve key call => exact (s.prepareResolve_reports key call drawn).map _
  | resolveBuilt options call =>
    refine Preparation.reports_after fun built => ?_
    cases built with
    | true => exact (s.prepareResolve_reports options.bindingKey call drawn).map _
    | false => trivial
  | register text => exact (prepareRegister_reports _).map _

/-! ### Sequences of steps -/

/-- What a step keeps to. -/
structure Keeps (w : World) (call : Call) (outcome : Except RequestFailure Answer)
    (w' : World) : Prop where
  /-- As many sessions are closed as were opened. -/
  balanced : w'.opened = w'.closed
  /-- At most one session is asked for, and at most one statement run. -/
  atMostOne : w.AtMostOneSession w'
  /-- The step does what its preparation says. -/
  conducts : w.Conducts (s.prepare w.drawn call) outcome w'
  /-- What is refused before it is executed asks for no session. -/
  refused : ∀ f, s.prepare w.drawn call = .refused f → outcome = .error f ∧ w.Idle w'
  /-- Nor does what fails in a way that only what is refused can fail in. -/
  early : ∀ f, outcome = .error f → f.precedesSession → w.Idle w'
  /-- Nor does an operation that is handled and cannot be planned. -/
  unplanned : ∀ query values op f, call = .handle query values →
    Operation.parse query values = .ok op → (s.binding.link.planFrom op w.drawn).1 = .error f →
    outcome = .ok (.response (.ofFailure f)) ∧ w.Idle w'
  /-- The open error, else the run error, else the close error is reported, before anything
  is made of records. -/
  driver : ∀ errand f, s.prepare w.drawn call = .runs errand → w.reply.outcome = .error f →
    outcome = call.failed (.core f)

theorem keeps (call : Call) {w : World} (h : w.opened = w.closed) :
    s.Keeps w call ((s.answer call).run.run w).1 ((s.answer call).run.run w).2 := by
  have conducts := s.answer_follows call w
  have reports := s.prepare_reports w.drawn call
  unfold RequestM.Follows at conducts
  generalize (s.answer call).run.run w = r at conducts
  obtain ⟨outcome, w'⟩ := r
  refine ⟨conducts.balanced h, conducts.atMostOne, conducts, ?_, ?_, ?_, ?_⟩
  · intro f hf
    rw [hf] at conducts
    exact conducts
  · intro f failing precedes
    refine conducts.idle_of_precedesSession reports (fun f f' hf => ?_) failing precedes
    cases call <;> cases hf <;> rfl
  · rintro query values op f rfl parsed unplanned
    have answered : s.prepare w.drawn (.handle query values) =
        .answered (.response (.ofFailure f)) := by
      change Preparation.after (Operation.parse query values) _ = _
      rw [parsed]
      change ((Preparation.after (s.binding.link.planFrom op w.drawn).1 _).caught _).map _ = _
      rw [unplanned]
      rfl
    rw [answered] at conducts
    exact conducts
  · intro errand f herrand failing
    rw [herrand] at conducts reports
    rw [conducts.1, failing]
    exact reports.driver f

end Service

end GraphqlCypher
