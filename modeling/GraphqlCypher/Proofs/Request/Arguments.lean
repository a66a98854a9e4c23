import GraphqlCypher.Proofs.Statement.Forwarded
import GraphqlCypher.Request.Binding

/-! The variable that a create mutation is made from.

An operation says which variable it passes to which argument. Planning does not look at that:
it takes the variable that is called `data` once its tag is off, for so the pipelines call it
that put operations together; of several such variables the last counts. An operation whose own
variable is called so is compiled for that variable (`plansNamed_of_passes`); one that calls it
otherwise is compiled for another variable, or refused (`not_plansPassed_input`). -/
namespace GraphqlCypher

open Executable

/-! ### Operations that pass a variable -/

namespace Operation

/-- The root field and its arguments, if a document starts with a mutation that has no other. -/
def soleField? (document : Document) : Option (String × List (String × Value)) :=
  match document.findSome? Definition.operation? with
  | some (.mutation, [.field _ name arguments _ _]) => some (name, arguments)
  | _ => none

/-- A text is a mutation with one root field, to whose argument `data` it passes a variable. -/
def Passes (text field variableName : String) : Prop :=
  ∃ document arguments, Document.parse text = .ok document ∧
    soleField? document = some (field, arguments) ∧ ("data", Value.var variableName) ∈ arguments

/-- The root field of a text and the variable that it passes as `data`. -/
def passed? (text : String) : Option (String × String) :=
  match Document.parse text with
  | .error _ => none
  | .ok document => (soleField? document).bind fun (field, arguments) =>
    arguments.findSome? fun
      | ("data", .var x) => some (field, x)
      | _ => none

theorem passes_of_passed? {text field x : String} (h : passed? text = some (field, x)) :
    Passes text field x := by
  unfold passed? at h
  split at h
  · cases h
  · next document hdocument =>
    obtain ⟨⟨name, arguments⟩, hsole, hfound⟩ := Option.bind_eq_some_iff.1 h
    obtain ⟨argument, hargument, hx⟩ := List.exists_of_findSome?_eq_some hfound
    split at hx
    · cases hx
      exact ⟨document, arguments, hdocument, hsole, hargument⟩
    · cases hx

variable {text field x : String}

/-- Such a text is read as a mutation of its field. -/
theorem parse_of_passes (h : Passes text field x) (values : Json.Object) :
    ∃ op, Operation.parse text values = .ok op ∧ op.kind = .mutation ∧ op.rootField = field ∧
      op.values = values := by
  obtain ⟨document, arguments, hdocument, hsole, -⟩ := h
  unfold soleField? at hsole
  split at hsole
  · next label name arguments' directives selections hfirst =>
    cases hsole
    unfold Operation.parse
    rw [hdocument]
    simp only [hfirst]
    exact ⟨_, rfl, rfl, rfl, rfl⟩
  · cases hsole

end Operation

/-! ### Variables that are called `data` -/

/-- A variable is called `data` once its tag is off, and none after it is. -/
def NamesData (values : Json.Object) (variableName : String) (v : Json) : Prop :=
  logicalName variableName = "data" ∧
    ∃ before after, values = before ++ (variableName, v) :: after ∧
      ∀ k ∈ Entries.keys after, logicalName k ≠ "data"

theorem logicalArguments_data {values : Json.Object} {x : String} {w : Json}
    (names : NamesData values x w) : Entries.get? (logicalArguments values) "data" = some w := by
  obtain ⟨hx, before, after, hvalues, last⟩ := names
  have entries : (values.map fun e => (logicalName e.1, e.2)) =
      (before.map fun e => (logicalName e.1, e.2)) ++
        ("data", w) :: after.map fun e => (logicalName e.1, e.2) := by
    rw [hvalues, List.map_append, List.map_cons, hx]
  refine Entries.get?_ofList_last entries fun hmem => ?_
  rw [List.map_map] at hmem
  obtain ⟨e, he, hname⟩ := List.mem_map.1 hmem
  exact last e.1 (List.mem_map_of_mem he) hname

/-- What a create mutation takes from all variables, it takes from the last one called
`data`. -/
theorem dataArguments_eq {values : Json.Object} {x : String} {w : Json}
    (names : NamesData values x w) : dataArguments values = dataArguments [("data", w)] := by
  have single : Entries.get? (logicalArguments [("data", w)]) "data" = some w := rfl
  unfold dataArguments
  rw [logicalArguments_data names, single]

theorem dataArguments_missing {values : Json.Object}
    (missing : ∀ k ∈ Entries.keys values, logicalName k ≠ "data") :
    dataArguments values = .error .dataNotObject := by
  have none : Entries.get? (logicalArguments values) "data" = none := by
    refine Entries.get?_eq_none fun hmem => ?_
    obtain ⟨k, hk, hname⟩ := Statement.mem_keys_logicalArguments.1 hmem
    exact missing k hk hname
  unfold dataArguments
  rw [none]

/-- A field is a generated create mutation. -/
def Catalog.IsCreate (c : Catalog) (field : String) : Prop :=
  c.isGenerated field = true ∧ ∃ info, c.mutation field = .ok info ∧ info.action = .create

namespace Catalog

variable {c : Catalog} {field : String} {values values' : Json.Object}

/-- A create mutation is made from what stands under `data`, and from nothing else. -/
theorem compile_congr (create : c.IsCreate field)
    (same : dataArguments values = dataArguments values') (ids : Option IdGenerator)
    (drawn : Nat) : c.compile field values ids drawn = c.compile field values' ids drawn := by
  obtain ⟨hgenerated, info, hinfo, haction⟩ := create
  simp only [compile, hgenerated, hinfo, haction, same]

theorem compile_of_missing (create : c.IsCreate field)
    (missing : dataArguments values = .error .dataNotObject) (ids : Option IdGenerator)
    (drawn : Nat) : c.compile field values ids drawn = (.error .dataNotObject, drawn) := by
  obtain ⟨hgenerated, info, hinfo, haction⟩ := create
  simp only [compile, hgenerated, hinfo, haction, missing]
  rfl

end Catalog

/-! ### Plans -/

namespace Link

variable {l : Link} {text field x : String} {values : Json.Object}

/-- The plan of a mutation that is compiled for given variables. -/
def compiled (l : Link) (field : String) (values : Json.Object) (drawn : Nat) :
    Except RequestFailure Plan × Nat :=
  let (outcome, drawn) := l.catalog.compile field values l.ids drawn
  ((outcome.map Plan.mutation).mapError RequestFailure.core, drawn)

/-- An operation is read, and planned like its root field compiled for given variables. -/
def PlansAs (l : Link) (text : String) (values : Json.Object) (field : String)
    (taken : Json.Object) : Prop :=
  ∃ op, Operation.parse text values = .ok op ∧
    ∀ drawn, l.planFrom op drawn = l.compiled field taken drawn

/-- An operation is read, and refused when it is planned. -/
def Refuses (l : Link) (text : String) (values : Json.Object) (f : Failure) : Prop :=
  ∃ op, Operation.parse text values = .ok op ∧
    ∀ drawn, l.planFrom op drawn = (.error (.core f), drawn)

/-- A create mutation is compiled for the object that its operation passes as `data`. -/
def PlansPassed (l : Link) : Prop :=
  ∀ text field x values v, l.catalog.IsCreate field → Operation.Passes text field x →
    (Entries.keys values).Nodup → Entries.get? values x = some (.object v) →
    l.PlansAs text values field [("data", .object v)]

/-- Planning compiles a generated mutation for all its variables. -/
theorem plansAs_of_passes (create : l.catalog.IsCreate field)
    (passes : Operation.Passes text field x) (values : Json.Object) :
    l.PlansAs text values field values := by
  obtain ⟨op, hparse, hkind, hfield, hvalues⟩ := Operation.parse_of_passes passes values
  refine ⟨op, hparse, fun drawn => ?_⟩
  simp only [planFrom, hkind, hfield, hvalues, Plan.ofMutation, create.1, compiled, if_true]
  rcases l.catalog.compile field values l.ids drawn with ⟨e | m, drawn⟩ <;> rfl

theorem plansAs_of_named (create : l.catalog.IsCreate field)
    (passes : Operation.Passes text field x) {y : String} {w : Json}
    (names : NamesData values y w) : l.PlansAs text values field [("data", w)] := by
  obtain ⟨op, hparse, hplan⟩ := plansAs_of_passes create passes values
  refine ⟨op, hparse, fun drawn => ?_⟩
  have same := Catalog.compile_congr create (dataArguments_eq names) l.ids drawn
  rw [hplan, compiled, same, compiled]

theorem refuses_of_missing (create : l.catalog.IsCreate field)
    (passes : Operation.Passes text field x)
    (missing : ∀ k ∈ Entries.keys values, logicalName k ≠ "data") :
    l.Refuses text values .dataNotObject := by
  obtain ⟨op, hparse, hplan⟩ := plansAs_of_passes create passes values
  refine ⟨op, hparse, fun drawn => ?_⟩
  have none := Catalog.compile_of_missing create (dataArguments_missing missing) l.ids drawn
  rw [hplan, compiled, none]
  rfl

/-- **Which variable is compiled for**: the one called `data`, the last if there are several,
be it the one that is passed or another, and whatever other variables there are. Without one the
operation is refused. -/
theorem plansNamed_of_passes (create : l.catalog.IsCreate field)
    (passes : Operation.Passes text field x) :
    (∀ y w, NamesData values y w → l.PlansAs text values field [("data", w)]) ∧
      ((∀ k ∈ Entries.keys values, logicalName k ≠ "data") →
        l.Refuses text values .dataNotObject) :=
  ⟨fun _ _ => plansAs_of_named create passes, refuses_of_missing create passes⟩

/-- Plans for `friends`, without ids. -/
def friendly : Link := ⟨friendsCatalog, false, none⟩

/-- Creates a person whose properties are passed under a name. -/
def createText (variableName : String) : String :=
  "mutation ($" ++ variableName ++ ": PersonCreateInput!) \x7b createPerson(data: $" ++
    variableName ++ ") \x7b id \x7d \x7d"

theorem isCreate_friendly : friendly.catalog.IsCreate "createPerson" := ⟨rfl, _, rfl, rfl⟩

def properties : Json.Object := [("name", .string "Ada")]

/-- A tagged variable that is passed counts, though another one is called `data` as well. -/
theorem plansNamed_of_passes_friendly :
    friendly.catalog.IsCreate "createPerson" ∧
      Operation.Passes (createText "_v0_data") "createPerson" "_v0_data" ∧
      friendly.PlansAs (createText "_v0_data")
        [("data", .null), ("_v0_data", .object properties), ("_v1_where", .null)] "createPerson"
        [("data", .object properties)] := by
  have passes : Operation.Passes (createText "_v0_data") "createPerson" "_v0_data" :=
    Operation.passes_of_passed? (by decide +kernel)
  have names : NamesData [("data", .null), ("_v0_data", .object properties), ("_v1_where", .null)]
      "_v0_data" (.object properties) :=
    ⟨by decide, [("data", .null)], [("_v1_where", .null)], rfl, by decide⟩
  obtain ⟨named, -⟩ := plansNamed_of_passes isCreate_friendly passes
  exact ⟨isCreate_friendly, passes, named "_v0_data" (.object properties) names⟩

/-- A variable of another name is passed to `data` in vain. -/
theorem not_plansPassed_input :
    Catalog.ofDocument friends = .ok friendly.catalog ∧ ¬ friendly.PlansPassed := by
  refine ⟨rfl, fun h => ?_⟩
  let values : Json.Object := [("input", .object properties)]
  have passes : Operation.Passes (createText "input") "createPerson" "input" :=
    Operation.passes_of_passed? (by decide +kernel)
  -- No variable is called `data`, so the plan is refused, though the object would compile.
  have missing : ∀ k ∈ Entries.keys values, logicalName k ≠ "data" := by decide
  obtain ⟨op, hparse, hplan⟩ := h _ _ "input" values properties isCreate_friendly passes
    (by decide) rfl
  obtain ⟨op', hparse', hrefuse⟩ := refuses_of_missing isCreate_friendly passes missing
  cases hparse.symm.trans hparse'
  have compiles :
      (friendly.compiled "createPerson" [("data", .object properties)] 0).1.isOk = true := rfl
  rw [← hplan, hrefuse] at compiles
  cases compiles

end Link

end GraphqlCypher
