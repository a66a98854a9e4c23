import GraphqlCypher.Proofs.Request.Planning

/-! Which failures to compile a mutation tell that it was compiling that failed.

A caller who sees such a failure knows that nothing has reached the database, and
`Failure.isCompileError` is there to see it by. It holds of what the checks of the arguments
report. It does not hold of what a mutation fails for when its arguments are in order: an id that
is not given out, and a look-up of something that the schema lacks. `Document.Lacks` lists these.
A supply of ids fails as it likes, and its failure is passed on, so it may even look like one of
the checks of the arguments; then it is recognised with them.

**Main result.** `isCompileError_of_compile`: the failures to compile a generated mutation that go
unrecognised are just those. A supply of ids that is used up is the shortest of the ways to one
(`not_failsRecognisably_friends`). -/
namespace GraphqlCypher

open Schema

/-- What is at fault when it is not the arguments and so many ids are drawn: the supply of ids, or
the schema. -/
inductive Schema.Document.Lacks (d : Document) (ids : Option IdGenerator) (drawn : Nat)
    (field : String) : Failure → Prop where
  /-- The next id was asked for and refused, in a way that no check of arguments fails in. -/
  | id {g : IdGenerator} {e : Failure} (supply : g ∈ ids) (refused : g.next drawn = .error e)
    (other : e.isCompileError = false) : Lacks d ids drawn field e
  /-- The mutation is marked, and there is nothing to compile for it. -/
  | mutation (other : ¬ d.Offers field) : Lacks d ids drawn field (.unknownMutation field)
  /-- An edge leads to a type that is no model. -/
  | model {e : Edge} (edge : e ∈ d.edges) (missing : e.related ∉ d.models.map ObjectType.name) :
    Lacks d ids drawn field (.unknownModel e.related)
  /-- An edge leads to a model whose create mutation has no mark. -/
  | creation {e : Edge} (edge : e ∈ d.edges) (known : e.related ∈ d.models.map ObjectType.name)
    (unmarked : ¬ d.Marks (Names.createMutation e.related)) :
    Lacks d ids drawn field (.unknownMutation (Names.createMutation e.related))

theorem Schema.Document.Lacks.isCompileError {d : Document} {ids : Option IdGenerator}
    {drawn : Nat} {field : String} {e : Failure} (h : d.Lacks ids drawn field e) :
    e.isCompileError = false := by
  cases h with
  | id _ _ other => exact other
  | mutation | model | creation => rfl

namespace Catalog

variable {d : Document} {c : Catalog} {field : String} {ids : Option IdGenerator} {e : Failure}

/-! ### What a catalog has of its document -/

section

variable (h : ofDocument d = .ok c)
include h

theorem exists_model_iff {name : String} :
    (∃ info, c.model name = .ok info) ↔ name ∈ d.models.map ObjectType.name := by
  rw [List.mem_map]
  constructor
  · intro known
    obtain ⟨info, hinfo⟩ := known
    have hmodels := congrArg Catalog.models (eq_of_ofDocument h)
    obtain ⟨m, hm, hname, -⟩ := mem_of_model hmodels hinfo
    exact ⟨m, hm, hname⟩
  · intro declared
    obtain ⟨m, hm, rfl⟩ := declared
    exact ⟨_, model_ofDocument h hm⟩

theorem missing_model_iff {name : String} :
    Entries.get? c.models name = none ↔ name ∉ d.models.map ObjectType.name := by
  rw [← exists_model_iff h]
  simp only [model_ok_iff, ← Option.ne_none_iff_exists', not_not]

/-- A mutation is there for a model of the document. -/
theorem mem_models_of_mutation {info : MutationInfo} (hinfo : c.mutation field = .ok info) :
    info.model ∈ d.models.map ObjectType.name := by
  rw [mutation_ok_iff, eq_of_ofDocument h] at hinfo
  obtain ⟨m, hm, entry⟩ := List.mem_flatMap.1 (Entries.mem_ofList (Entries.mem_of_get? hinfo))
  refine List.mem_map.2 ⟨m, hm, ?_⟩
  rcases List.mem_append.1 entry with entry | entry
  · split at entry
    · cases List.mem_singleton.1 entry
      rfl
    · cases entry
  · obtain ⟨f, -, made⟩ := List.mem_map.1 entry
    cases made
    rfl

/-- A relation of a known model is an edge of the document. -/
theorem exists_edge_of_related {owner relation related : String} {info : ModelInfo}
    (known : c.model owner = .ok info) (hrelated : info.related? relation = some related) :
    ∃ e ∈ d.edges, e.related = related := by
  have hmodels := congrArg Catalog.models (eq_of_ofDocument h)
  obtain ⟨m, hm, -, rfl⟩ := mem_of_model hmodels known
  obtain ⟨f, hf, -, rfl⟩ := mem_of_related hrelated
  exact ⟨m.edge f, List.mem_flatMap.2 ⟨m, hm, List.mem_map_of_mem hf⟩, rfl⟩

/-- What a walk fails for is recognised, or else it is an id or the schema that is at fault. -/
theorem recognised_or_lacks {info : MutationInfo} {n : Nat}
    (hinfo : c.mutation field = .ok info) (cause : Tour.Cause ⟨c, info.model, ids⟩ n e) :
    e.isCompileError = true ∨ d.Lacks ids n field e := by
  cases cause with
  | nestedTooDeep | bothOnToOne | nestedNotObject => exact .inl rfl
  | id supply refused =>
    cases other : e.isCompileError with
    | true => exact .inl rfl
    | false => exact .inr (.id supply refused other)
  | unknownModel target missing =>
    have missing := (missing_model_iff h).1 missing
    cases target with
    | root => exact absurd (mem_models_of_mutation h hinfo) missing
    | related known relation =>
      obtain ⟨e, he, rfl⟩ := exists_edge_of_related h known relation
      exact .inr (.model he missing)
  | unknownRelation known relation missing =>
    -- every relation of a catalog has the mutation that puts its edges
    obtain ⟨m, hm⟩ := hasRelations_ofDocument h _ _ _ _ known relation
    rw [mutation_ok_iff, missing] at hm
    cases hm
  | unknownCreation known relation found missing =>
    obtain ⟨e, he, rfl⟩ := exists_edge_of_related h known relation
    have declared := (exists_model_iff h).1 ⟨_, found⟩
    refine .inr (.creation he declared fun marked => ?_)
    obtain ⟨m, hm, hname⟩ := List.mem_map.1 declared
    obtain ⟨info, hcreate⟩ :=
      (exists_mutation_iff_offers h marked).2 (.inl ⟨m, hm, congrArg Names.createMutation hname⟩)
    rw [mutation_ok_iff, missing] at hcreate
    cases hcreate

end

/-- **Which failures go unrecognised.** A generated mutation fails to compile in a way that
`Failure.isCompileError` does not tell just when the id asked for last is refused in such a way, or
the schema lacks something. -/
theorem isCompileError_of_compile (h : ofDocument d = .ok c) (hname : c.isGenerated field = true)
    {values : Json.Object} {drawn n : Nat}
    (failed : c.compile field values ids drawn = (.error e, n)) :
    e.isCompileError = false ↔ d.Lacks ids n field e := by
  refine ⟨fun unrecognised => ?_, fun lacks => lacks.isCompileError⟩
  rcases cause_of_compile failed with ⟨rfl, hother⟩ | ⟨-, info, hinfo, cause⟩
  · have marked := (isGenerated_iff_marks h).1 hname
    refine .mutation fun offers => ?_
    obtain ⟨info, hinfo⟩ := (exists_mutation_iff_offers h marked).2 offers
    rcases hother with hother | hother
    · rw [hname] at hother
      cases hother
    · rw [hinfo] at hother
      cases hother
  · have known : e.isCompileError = true ∨ d.Lacks ids n field e := by
      rcases cause with rfl | cause
      · exact .inl rfl
      · exact recognised_or_lacks h hinfo cause
    refine known.resolve_left fun recognised => ?_
    rw [unrecognised] at recognised
    cases recognised

/-- Owners, whom a mutation creates, and their pets, whom none does. -/
def owners : Document :=
  [.type (.object {
    name := "Owner"
    directives := [Directive.bare Names.model]
    fields := [
      { name := "id", type := .nonNull (.named "ID"), directives := [Directive.bare Names.unique] },
      { name := "pets", type := .list (.named "Pet")
        directives :=
          [⟨Names.relation, [("name", .string "KEEPS"), ("direction", .enum "OUT")]⟩] }] }),
   .type (.object {
    name := "Pet"
    directives := [Directive.bare Names.model]
    fields := [{ name := "id", type := .nonNull (.named "ID")
                 directives := [Directive.bare Names.unique] }] }),
   .type (.object {
    name := Names.mutation
    fields := [
      { name := "createOwner", type := .named "Owner"
        directives := [Directive.bare Names.binding] }] })]

/-- A pet that comes with its owner. -/
def ownerValues : Json.Object :=
  [("data", .object [("pets", .object [("create", .object [])])])]

/-- A pet that comes with its owner asks for a mutation that has no mark. -/
theorem isCompileError_of_compile_owners : ∃ c e, ofDocument owners = .ok c ∧
    c.compile "createOwner" ownerValues none 0 = (.error e, 0) ∧
    owners.Lacks none 0 "createOwner" e := by
  obtain ⟨c, hc⟩ : ∃ c, ofDocument owners = .ok c := ⟨_, rfl⟩
  have hname : c.isGenerated "createOwner" = true := by
    cases hc
    rfl
  have failed : c.compile "createOwner" ownerValues none 0 =
      (.error (.unknownMutation "createPet"), 0) := by
    cases hc
    rfl
  exact ⟨c, _, hc, failed, (isCompileError_of_compile hc hname failed).1 rfl⟩

/-- Whatever the making of a mutation fails with tells that it was compiling that failed. -/
def FailsRecognisably (c : Catalog) (field : String) (values : Json.Object)
    (ids : Option IdGenerator) (drawn : Nat) : Prop :=
  ∀ e, (c.compile field values ids drawn).1 = .error e → e.isCompileError = true

/-- **A supply of ids that is used up goes unrecognised**, even where the mutation has no arguments
that could be at fault. -/
theorem not_failsRecognisably_friends : ∃ c, ofDocument friends = .ok c ∧
    c.isGenerated "createPerson" = true ∧
    ¬ c.FailsRecognisably "createPerson" [("data", .object [])]
      (some (.counting "p" (some 0))) 0 := by
  refine ⟨_, rfl, rfl, fun recognised => ?_⟩
  cases recognised _ rfl

end Catalog

end GraphqlCypher
