import GraphqlCypher.Mutation.Compiled
import GraphqlCypher.Proofs.Mutation.Branches

/-! What a compiled create mutation is made of.

It is the record of one walk: over the arguments under `data`, with an id for the root,
and from a state in which nothing is noted. -/
namespace GraphqlCypher

open WalkM

theorem dataArguments_ok_iff (values data : Json.Object) :
    dataArguments values = .ok data ↔
      Entries.get? (logicalArguments values) "data" = some (.object data) := by
  unfold dataArguments
  split
  · next data' h =>
    rw [h]
    simp
  · next hother =>
    exact iff_of_false (by simp) (hother data)

namespace Catalog

variable {c : Catalog}

theorem compile_of_data {name : String} {values data : Json.Object} {info : MutationInfo}
    {ids : Option IdGenerator} {drawn : Nat} (hname : c.isGenerated name = true)
    (hinfo : c.mutation name = .ok info) (haction : info.action = .create)
    (hdata : dataArguments values = .ok data) :
    (c.compile name values ids drawn).1 =
      ((c.compileRoot name info data ids).run.run { drawn }).1.map CompiledMutation.create := by
  simp only [compile, hname, hinfo, haction, hdata]
  rfl

theorem compileRoot_ends {name : String} {info : MutationInfo} {data : Json.Object}
    {ids : Option IdGenerator} {s u : WalkState} {m : CompiledCreate}
    (h : Ends (c.compileRoot name info data ids) s m u) :
    m.model = info.model ∧ ∃ new t, Ends (Tour.identify ⟨c, m.model, ids⟩ data) s new t ∧
      Ends (Tour.walk ⟨c, m.model, ids⟩ (maxNesting + 1) [] m.model new) t m.arguments u ∧
      m.groups = u.groups ∧ m.visits = u.visits ∧ m.staged = stagedRecords c u.visits := by
  simp only [compileRoot, ends_bind, ends_lift, ends_get, ends_pure] at h
  obtain ⟨new, t, hnew, _, _, ⟨-, rfl⟩, out, _, hwalk, h⟩ := h
  obtain ⟨_, _, ⟨rfl, rfl⟩, _, _, ⟨-, rfl⟩, rfl, rfl⟩ := h
  exact ⟨rfl, new, _, hnew, hwalk, rfl, rfl, rfl⟩

/-- What the root call is made of: the name, the template, and the properties of the model. -/
theorem rootCall_of_compileRoot {name : String} {info : MutationInfo} {data : Json.Object}
    {ids : Option IdGenerator} {s u : WalkState} {m : CompiledCreate}
    (h : Ends (c.compileRoot name info data ids) s m u) :
    m.mutation = name ∧ m.template = info.template ∧
      ∃ root supplied, c.model m.model = .ok root ∧
        m.properties = rootBindings (Entries.keys root.properties) supplied := by
  simp only [compileRoot, ends_bind, ends_lift, ends_get, ends_pure] at h
  obtain ⟨_, _, _, root, _, ⟨known, -⟩, _, _, _, _, _, _, _, _, _, rfl, -⟩ := h
  exact ⟨rfl, rfl, root, _, known, rfl⟩

/-- What compiles puts edges, or is what the walk from the root ends with. -/
theorem cases_of_compile {name : String} {values : Json.Object} {ids : Option IdGenerator}
    {drawn : Nat} {m : CompiledMutation} (h : (c.compile name values ids drawn).1 = .ok m) :
    ∃ info, c.mutation name = .ok info ∧
      (info.action = .add ∧ m = .add ⟨name, info.template, info.model, logicalArguments values⟩ ∨
        info.action = .create ∧ ∃ data root t, dataArguments values = .ok data ∧
          Ends (c.compileRoot name info data ids) { drawn } root t ∧ m = .create root) := by
  have outcome := h
  unfold compile at h
  split at h
  · cases h
  · next hname =>
    split at h
    · cases h
    · next info hinfo =>
      refine ⟨info, hinfo, ?_⟩
      split at h
      · next haction =>
        cases h
        exact .inl ⟨haction, rfl⟩
      · next haction =>
        split at h
        · cases h
        · next data hdata =>
          rw [compile_of_data (by simpa using hname) hinfo haction hdata] at outcome
          rcases hrun : (c.compileRoot name info data ids).run.run { drawn } with ⟨e | root, t⟩
          · rw [hrun] at outcome
            cases outcome
          · rw [hrun] at outcome
            cases outcome
            exact .inr ⟨haction, data, root, t, hdata, hrun, rfl⟩

/-- A compiled create mutation is what the walk from the root ends with. -/
theorem root_of_compile {name : String} {values : Json.Object} {ids : Option IdGenerator}
    {drawn : Nat} {m : CompiledCreate} (h : (c.compile name values ids drawn).1 = .ok (.create m)) :
    ∃ info data t, c.mutation name = .ok info ∧ info.action = .create ∧
      dataArguments values = .ok data ∧ Ends (c.compileRoot name info data ids) { drawn } m t := by
  obtain ⟨info, hinfo, ⟨-, hadd⟩ | ⟨haction, data, root, t, hdata, ends, hroot⟩⟩ :=
    cases_of_compile h
  · cases hadd
  · cases hroot
    exact ⟨info, data, t, hinfo, haction, hdata, ends⟩

/-- A mutation that puts edges takes the variables as they are meant. -/
theorem add_of_compile {name : String} {values : Json.Object} {ids : Option IdGenerator}
    {drawn : Nat} {m : CompiledAdd} (h : (c.compile name values ids drawn).1 = .ok (.add m)) :
    ∃ info, c.mutation name = .ok info ∧ info.action = .add ∧
      m = ⟨name, info.template, info.model, logicalArguments values⟩ := by
  obtain ⟨info, hinfo, ⟨haction, hadd⟩ | ⟨-, data, root, t, -, -, hroot⟩⟩ := cases_of_compile h
  · cases hadd
    exact ⟨info, hinfo, haction, rfl⟩
  · cases hroot

/-- A compiled create mutation is the record of a run over the arguments under `data`. -/
theorem run_of_compile {name : String} {values : Json.Object} {ids : Option IdGenerator}
    {drawn : Nat} {m : CompiledCreate} (h : (c.compile name values ids drawn).1 = .ok (.create m)) :
    ∃ info data new s t, c.mutation name = .ok info ∧ info.action = .create ∧
      dataArguments values = .ok data ∧ m.model = info.model ∧
      Ends (Tour.identify ⟨c, m.model, ids⟩ data) { drawn } new s ∧
      Ends (Tour.walk ⟨c, m.model, ids⟩ (maxNesting + 1) [] m.model new) s m.arguments t ∧
      m.groups = t.groups ∧ m.visits = t.visits ∧ m.staged = stagedRecords c t.visits := by
  obtain ⟨info, data, t, hinfo, haction, hdata, ends⟩ := root_of_compile h
  obtain ⟨hmodel, new, s, run⟩ := compileRoot_ends ends
  exact ⟨info, data, new, s, t, hinfo, haction, hdata, hmodel, run⟩

/-- A compiled create mutation is the record of a walk that left its arguments. -/
theorem walk_of_compile {name : String} {values : Json.Object} {ids : Option IdGenerator}
    {drawn : Nat} {m : CompiledCreate} (h : (c.compile name values ids drawn).1 = .ok (.create m)) :
    ∃ data new s t, dataArguments values = .ok data ∧ Identified data new ∧
      s.groups = [] ∧ s.visits = [] ∧
      Ends (Tour.walk ⟨c, m.model, ids⟩ (maxNesting + 1) [] m.model new) s m.arguments t ∧
      m.groups = t.groups ∧ m.visits = t.visits := by
  obtain ⟨info, data, new, s, t, -, -, hdata, -, hnew, hwalk, hgroups, hvisits, -⟩ :=
    run_of_compile h
  obtain ⟨identified, groups, visits⟩ := Tour.identify_ends hnew
  exact ⟨data, new, s, t, hdata, identified, groups, visits, hwalk, hgroups, hvisits⟩

end Catalog

/-! ### Friends -/

open Schema

/-- People who know each other, and the mutation that creates them. -/
def friends : Document :=
  [.type (.object {
    name := "Person"
    directives := [Directive.bare Names.model]
    fields := [
      { name := "id", type := .nonNull (.named "ID"), directives := [Directive.bare Names.unique] },
      { name := "name", type := .named "String" },
      { name := "friends", type := .list (.named "Person")
        directives :=
          [⟨Names.relation, [("name", .string "KNOWS"), ("direction", .enum "OUT")]⟩] }] }),
   .type (.object {
    name := Names.mutation
    fields := [
      { name := "createPerson", type := .named "Person"
        directives := [Directive.bare Names.binding] }] })]

/-- The catalog of `friends`. -/
def friendsCatalog : Catalog where
  generated := ["createPerson"]
  models := [("Person", {
    relations := [("friends", "Person")]
    toMany := ["friends"]
    properties := [("id", "ID"), ("name", "String")]
    unique := ["id"] })]
  mutations := [
    ("createPerson", ⟨"Person", .create "createPerson"
      [("id", .nonNull (.named "ID")), ("name", .named "String")] ["id", "name"]⟩),
    ("addPersonFriends", ⟨"Person", .relate "addPersonFriends" "Person" "friends" "Person"⟩)]

/-- Somebody with two new friends, one of whom has a friend that is known already. -/
def friendsValues : Json.Object :=
  [("_v0_data", .object [("name", .string "Ada"), ("friends", .object [("create", .array [
    .object [("name", .string "Bob")],
    .object [("name", .string "Cy"),
      ("friends", .object [("connect", .object [("id", .string "1")])])]])])])]

end GraphqlCypher
