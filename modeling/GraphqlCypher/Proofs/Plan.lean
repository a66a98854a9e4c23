import GraphqlCypher.Plan
import GraphqlCypher.Proofs.Mutation.InStep
import GraphqlCypher.Proofs.Mutation.Staged

/-! What the text of a plan is made of.

Values go to the database as parameters, never in the text of a statement. Two requests whose
variables are alike lead to the same text, or fail for the same reason: no string, number or
boolean of a client is written into a statement, and none decides what is written
(`Plan.text_of_alike`). -/
namespace GraphqlCypher

open Json WalkM

/-! ### Arguments -/

theorem logicalArguments_alike {values values' : Json.Object} (h : AlikeObjects values values') :
    AlikeObjects (logicalArguments values) (logicalArguments values') := by
  refine AlikeObjects.ofList (List.forall₂_map_left_iff.2 (List.forall₂_map_right_iff.2 ?_))
  exact h.imp fun e e' he => ⟨congrArg logicalName he.1, he.2⟩

/-- Both requests have arguments, or neither has. -/
theorem dataArguments_alike {values values' : Json.Object} (h : AlikeObjects values values') :
    (∃ data data', dataArguments values = .ok data ∧ dataArguments values' = .ok data' ∧
        AlikeObjects data data') ∨
      dataArguments values = .error .dataNotObject ∧
        dataArguments values' = .error .dataNotObject := by
  have hdata := (logicalArguments_alike h).rel_get? "data"
  unfold dataArguments
  generalize Entries.get? (logicalArguments values) "data" = v at hdata
  generalize Entries.get? (logicalArguments values') "data" = v' at hdata
  cases hdata with
  | none => exact .inr ⟨rfl, rfl⟩
  | @some v v' hv =>
    cases hv with
    | object keys each => exact .inl ⟨_, _, rfl, rfl, alikeObjects_iff.2 ⟨keys, each⟩⟩
    | null | array _ => exact .inr ⟨rfl, rfl⟩
    | leaf first second =>
      refine .inr ⟨?_, ?_⟩
      · cases v with
        | null | array _ | object _ => cases first
        | bool _ | number _ | string _ => rfl
      · cases v' with
        | null | array _ | object _ => cases second
        | bool _ | number _ | string _ => rfl

/-! ### Compiling -/

/-- What the text of a create mutation is made of. -/
theorem CompiledCreate.text_congr {m m' : CompiledCreate} (mutation : m.mutation = m'.mutation)
    (template : m.template = m'.template) (properties : m.properties = m'.properties)
    (groups : m.groups = m'.groups) (readBack : m.readBack = m'.readBack) : m.text = m'.text := by
  unfold CompiledCreate.text CompiledCreate.rootCall
  rw [mutation, template, properties, groups, readBack]

theorem CompiledAdd.text_congr {m m' : CompiledAdd} (mutation : m.mutation = m'.mutation)
    (template : m.template = m'.template)
    (keys : Entries.keys m.arguments = Entries.keys m'.arguments) : m.text = m'.text := by
  unfold CompiledAdd.text
  rw [mutation, template, keys]

/-- What the text of a forwarded operation is made of. -/
theorem Statement.forward_congr (procedure operation : String) {values values' : Json.Object}
    (h : Entries.keys values = Entries.keys values') :
    (forward procedure operation values).text = (forward procedure operation values').text := by
  unfold forward
  rw [h]

namespace Catalog

variable (c : Catalog)

/-- The fields that the records of each model are looked up by. -/
theorem readBack_congr {staged staged' : Entries (List Json)}
    (h : Entries.keys staged = Entries.keys staged') :
    (staged.mapM fun e => (c.model e.1).map fun m => (e.1, m.unique)) =
      staged'.mapM fun e => (c.model e.1).map fun m => (e.1, m.unique) := by
  have byKeys : ∀ staged : Entries (List Json),
      (staged.mapM fun e => (c.model e.1).map fun m => (e.1, m.unique)) =
        (Entries.keys staged).mapM fun k => (c.model k).map fun m => (k, m.unique) := by
    intro staged
    rw [Entries.keys, List.mapM_map]
    rfl
  rw [byKeys, byKeys, h]

theorem compileRoot_inStep {ids ids' : Option IdGenerator} (hids : SameChoice ids ids')
    (name : String) (info : MutationInfo) {data data' : Json.Object}
    (h : AlikeObjects data data') :
    InStep (fun m m' : CompiledCreate => m.text = m'.text) (c.compileRoot name info data ids)
      (c.compileRoot name info data' ids') := by
  have twins : Tour.Twins ⟨c, info.model, ids⟩ ⟨c, info.model, ids'⟩ := ⟨rfl, rfl, hids⟩
  unfold compileRoot
  -- the number of levels is no part of the argument, and is not to be computed with
  generalize maxNesting + 1 = levels
  refine (Tour.identify_inStep twins h).bind fun new new' hnew => ?_
  refine (inStep_lift _).bind fun root root' hroot => ?_
  refine (Tour.walk_inStep twins levels [] info.model new new' hnew).bind fun _ _ _ => ?_
  refine inStep_get.bind fun s s' notes => ?_
  have hkeys : Entries.keys (stagedRecords c s.visits) =
      Entries.keys (stagedRecords c s'.visits) := by
    rw [keys_stagedRecords, keys_stagedRecords, notes.models]
  dsimp only
  rw [c.readBack_congr hkeys]
  refine (inStep_lift _).map fun readBack readBack' hread => ?_
  exact CompiledCreate.text_congr rfl rfl (by rw [hroot, hnew.keys]) notes.groups hread

theorem compile_text_of_alike {ids ids' : Option IdGenerator} (hids : SameChoice ids ids')
    (name : String) {values values' : Json.Object} (h : AlikeObjects values values')
    (drawn drawn' : Nat) :
    (c.compile name values ids drawn).1.map (·.statement.text) =
      (c.compile name values' ids' drawn').1.map (·.statement.text) := by
  by_cases hname : c.isGenerated name = true
  · cases hinfo : c.mutation name with
    | error e => simp only [compile, hname, hinfo]; rfl
    | ok info =>
      cases haction : info.action with
      | add =>
        simp only [compile, hname, hinfo, haction]
        exact congrArg Except.ok
          (CompiledAdd.text_congr rfl rfl (logicalArguments_alike h).keys)
      | create =>
        rcases dataArguments_alike h with ⟨data, data', hdata, hdata', halike⟩ | ⟨hdata, hdata'⟩
        · rw [compile_of_data hname hinfo haction hdata, compile_of_data hname hinfo haction hdata']
          have together := c.compileRoot_inStep hids name info halike { drawn } { drawn := drawn' }
            ⟨rfl, rfl⟩
          generalize (c.compileRoot name info data ids).run.run { drawn } = r at together ⊢
          generalize (c.compileRoot name info data' ids').run.run { drawn := drawn' } = r'
            at together ⊢
          cases together with
          | ok same _ => exact congrArg Except.ok same
          | error e => rfl
        · simp only [compile, hname, hinfo, haction, hdata, hdata']
          rfl
  · simp only [compile, hname]
    rfl

end Catalog

/-! ### Planning -/

namespace Plan

theorem text_ofMutation (c : Catalog) {field : String} (h : c.isGenerated field = true)
    (operation : String) (values : Json.Object) (ids : Option IdGenerator) (drawn : Nat) :
    (ofMutation c operation field values ids drawn).1.map (·.statement.text) =
      (c.compile field values ids drawn).1.map (·.statement.text) := by
  rw [ofMutation, if_pos h]
  show ((c.compile field values ids drawn).1.map Plan.mutation).map (·.statement.text) = _
  generalize (c.compile field values ids drawn).1 = outcome
  cases outcome <;> rfl

theorem ofMutation_of_not_isGenerated (c : Catalog) {field : String}
    (h : c.isGenerated field = false) (operation : String) (values : Json.Object)
    (ids : Option IdGenerator) (drawn : Nat) : ofMutation c operation field values ids drawn =
      (.ok (.passthrough field (Statement.execute operation values)), drawn) := by
  rw [ofMutation, h]
  rfl

/-- **Values never reach the text of a statement.** Variables that are alike lead to one text,
or to one failure, whichever endless ids are drawn. -/
theorem text_of_alike {values values' : Json.Object}
    (halike : Alike (.object values) (.object values')) {ids ids' : Option IdGenerator}
    (hids : SameChoice ids ids') (c : Catalog) (operation field : String) (drawn drawn' : Nat) :
    (ofQuery operation values).statement.text = (ofQuery operation values').statement.text ∧
      (ofMutation c operation field values ids drawn).1.map (·.statement.text) =
        (ofMutation c operation field values' ids' drawn').1.map (·.statement.text) := by
  have h := alike_object_iff.1 halike
  refine ⟨Statement.forward_congr "query" operation h.keys, ?_⟩
  cases hfield : c.isGenerated field with
  | true =>
    rw [text_ofMutation c hfield, text_ofMutation c hfield]
    exact c.compile_text_of_alike hids field h drawn drawn'
  | false =>
    rw [ofMutation_of_not_isGenerated c hfield, ofMutation_of_not_isGenerated c hfield]
    exact congrArg Except.ok (Statement.forward_congr "execute" operation h.keys)

/-- `friendsValues` with other leaves, one of which is meant to break out of its literal. -/
def strangersValues : Json.Object :=
  [("_v0_data", .object [("name", .string "'\x7d) DETACH DELETE n //"),
    ("friends", .object [("create", .array [
      .object [("name", .bool true)],
      .object [("name", .string ""),
        ("friends", .object [("connect", .object [("id", .bool false)])])]])])])]

theorem alike_strangersValues : Alike (.object friendsValues) (.object strangersValues) := by
  have leaf {k : String} {v v' : Json} (h : v.isLeaf = true) (h' : v'.isLeaf = true) :
      AlikeEntries (k, v) (k, v') := ⟨rfl, .leaf h h'⟩
  have under {k : String} {o o' : Json.Object} (h : AlikeObjects o o') :
      AlikeEntries (k, .object o) (k, .object o') := ⟨rfl, alike_object_iff.2 h⟩
  have known : AlikeEntries ("friends", .object [("connect", .object [("id", .string "1")])])
      ("friends", .object [("connect", .object [("id", .bool false)])]) :=
    under (.cons (under (.cons (leaf rfl rfl) .nil)) .nil)
  have bob : AlikeObjects [("name", .string "Bob")] [("name", .bool true)] :=
    .cons (leaf rfl rfl) .nil
  have cy : AlikeObjects [("name", .string "Cy"), ("friends", _)]
      [("name", .string ""), ("friends", _)] := .cons (leaf rfl rfl) (.cons known .nil)
  have created := Alike.array
    (.cons (alike_object_iff.2 bob) (.cons (alike_object_iff.2 cy) .nil))
  exact alike_object_iff.2 (.cons (under (.cons (leaf rfl rfl)
    (.cons (under (.cons ⟨rfl, created⟩ .nil)) .nil))) .nil)

theorem text_of_alike_friends : ∃ text,
    (ofMutation friendsCatalog "" "createPerson" friendsValues
        (some (.counting "n" none)) 0).1.map (·.statement.text) = .ok text ∧
      (ofMutation friendsCatalog "" "createPerson" strangersValues
        (some (.counting "m" none)) 5).1.map (·.statement.text) = .ok text := by
  have hids : SameChoice (some (.counting "n" none)) (some (.counting "m" none)) :=
    .endless (IdGenerator.endless_counting "n") (IdGenerator.endless_counting "m")
  have same := (text_of_alike alike_strangersValues hids friendsCatalog "" "createPerson" 0 5).2
  exact ⟨_, rfl, same.symm⟩

end Plan

end GraphqlCypher
