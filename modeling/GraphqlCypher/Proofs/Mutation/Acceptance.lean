import GraphqlCypher.Proofs.Catalog.Relations
import GraphqlCypher.Proofs.Mutation.Compiled
import GraphqlCypher.Proofs.Traversal

/-! What the compiler accepts.

`Catalog.Valid` says which arguments of a model may stand at a depth, without a word
about walks: no state, no ids, no groups. The walk over an object is exact with that
condition. The invariant that carries the proof is that the targets of every noted
group were found, so a path that was noted before needs no second look.

**Main result.** `compile_ok_iff`: a mutation compiles just when its name is marked and
known and, if it creates, its arguments are valid. -/
namespace GraphqlCypher

open Schema WalkM

namespace Catalog

variable (c : Catalog)

/-- Arguments that may stand at a depth below the root, for a model. -/
inductive Valid : Nat → String → Json.Object → Prop where
  | intro {depth : Nat} {model : String} {arguments : Json.Object} {info : ModelInfo}
      (shallow : depth ≤ maxNesting)
      (known : c.model model = .ok info)
      (arity : ∀ field related nested, (field, .object nested) ∈ arguments →
        info.related? field = some related → (NestedAction.create.given? nested).isSome →
        (NestedAction.connect.given? nested).isSome → info.isToMany field)
      (targets : ∀ field related nested (a : NestedAction) v,
        (field, .object nested) ∈ arguments → info.related? field = some related →
        a.given? nested = some v → c.Targets related a ∧ ∀ e ∈ v.elements, ∃ o, e = .object o)
      (elements : ∀ field related nested (a : NestedAction) v o,
        (field, .object nested) ∈ arguments → info.related? field = some related →
        a.given? nested = some v → .object o ∈ v.elements → Valid (depth + 1) related o) :
      Valid depth model arguments

/-- What a relation of a valid object holds, one condition for each of the two actions. -/
def ValidRelation (valid : String → Json.Object → Prop) (info : ModelInfo)
    (field related : String) (nested : Json.Object) : Prop :=
  ((NestedAction.create.given? nested).isSome → (NestedAction.connect.given? nested).isSome →
    info.isToMany field) ∧
  ∀ (a : NestedAction) v, a.given? nested = some v →
    c.Targets related a ∧ ∀ e ∈ v.elements, ∃ o, e = .object o ∧ valid related o

theorem valid_iff (depth : Nat) (model : String) (arguments : Json.Object) :
    c.Valid depth model arguments ↔ depth ≤ maxNesting ∧ ∃ info, c.model model = .ok info ∧
      ∀ field related nested, (field, .object nested) ∈ arguments →
        info.related? field = some related →
        c.ValidRelation (c.Valid (depth + 1)) info field related nested := by
  constructor
  · intro h
    obtain ⟨shallow, known, arity, targets, elements⟩ := h
    refine ⟨shallow, _, known, fun field related nested hmem hrel => ⟨?_, ?_⟩⟩
    · exact arity field related nested hmem hrel
    · intro a v hv
      obtain ⟨htargets, hobjects⟩ := targets field related nested a v hmem hrel hv
      refine ⟨htargets, fun e he => ?_⟩
      obtain ⟨o, rfl⟩ := hobjects e he
      exact ⟨o, rfl, elements field related nested a v o hmem hrel hv he⟩
  · intro h
    obtain ⟨shallow, info, known, relations⟩ := h
    refine .intro shallow known ?_ ?_ ?_
    · intro field related nested hmem hrel
      exact (relations field related nested hmem hrel).1
    · intro field related nested a v hmem hrel hv
      obtain ⟨htargets, helements⟩ := (relations field related nested hmem hrel).2 a v hv
      refine ⟨htargets, fun e he => ?_⟩
      obtain ⟨o, rfl, _⟩ := helements e he
      exact ⟨o, rfl⟩
    · intro field related nested a v o hmem hrel hv ho
      obtain ⟨o', heq, hvalid⟩ := ((relations field related nested hmem hrel).2 a v hv).2 _ ho
      cases heq
      exact hvalid

/-- Validity depends on the objects among the arguments alone. -/
theorem valid_congr {depth : Nat} {model : String} {a b : Json.Object}
    (h : ∀ field nested, (field, Json.object nested) ∈ a ↔ (field, Json.object nested) ∈ b) :
    c.Valid depth model a ↔ c.Valid depth model b := by
  simp only [valid_iff, h]

end Catalog

/-! ### Groups and ids -/

section

variable {T : Tour} {inv : WalkState → Prop}

/-- Every group was found, and so was the model of every visit. -/
def Tour.Found (T : Tour) (s : WalkState) : Prop :=
  (∀ g ∈ s.groups, T.catalog.Targets g.step.related g.step.action) ∧
    ∀ v ∈ s.visits, ∃ info, T.catalog.model v.model = .ok info

theorem exists_withId_ok (hids : ∀ g ∈ T.ids, g.Endless) (n : Nat) (arguments : Json.Object) :
    ∃ r, withId T.ids n arguments = .ok r := by
  unfold withId
  split
  · exact ⟨_, rfl⟩
  · next generator hgenerator =>
    split
    · exact ⟨_, rfl⟩
    · obtain ⟨id, hid⟩ := hids generator hgenerator n
      rw [hid]
      exact ⟨_, rfl⟩

theorem Tour.identify_exact (hids : ∀ g ∈ T.ids, g.Endless) (arguments : Json.Object) :
    Exact T.Found (T.identify arguments) True (Identified arguments) := by
  unfold Tour.identify
  refine exact_get.andThen fun s hs => ?_
  have lifted : Exact T.Found (ExceptT.mk (pure (withId T.ids s.drawn arguments))) True
      fun r => Identified arguments r.1 :=
    (exact_lift _ fun r hr => withId_ok hr).congr
      (iff_of_true (exists_withId_ok hids s.drawn arguments) trivial)
  refine lifted.andThen fun r hr => ?_
  have kept : T.Found { s with drawn := r.2 } := hs
  exact (exact_set kept).map _ fun _ _ => hr

/-- Noting a group looks up its target, and a path that was noted before had its target
looked up then. -/
theorem Tour.noteGroup_exact {above : List Step} {owner : String} {supplied : List String}
    {step : Step} {ownerInfo : ModelInfo} (howner : T.catalog.model owner = .ok ownerInfo)
    (hrelation : ∃ m, T.catalog.mutation (Names.relationMutation owner step.field) = .ok m) :
    Exact T.Found (T.noteGroup above owner supplied step)
      (T.catalog.Targets step.related step.action) fun _ => True := by
  unfold Tour.noteGroup
  refine exact_get.andThen fun s hs => ?_
  split
  · next hold =>
    refine (exact_pure () trivial).congr (iff_of_true trivial ?_)
    obtain ⟨g, hg, hpath⟩ := List.any_eq_true.1 hold
    have hlast : [g.step] = [step] := (List.append_inj' (beq_iff_eq.1 hpath) rfl).2
    exact List.singleton_inj.1 hlast ▸ hs.1 g hg
  · next hnew =>
    have lifted : Exact T.Found (ExceptT.mk (pure (T.group above owner supplied step)))
        (T.catalog.Targets step.related step.action)
        fun g => T.catalog.Targets g.step.related g.step.action := by
      refine (exact_lift _ ?_).congr ⟨?_, Tour.exists_group_ok howner hrelation⟩
      · intro g hg
        obtain ⟨-, hstep, htargets⟩ := Tour.group_ok hg
        exact hstep ▸ htargets
      · intro h
        obtain ⟨g, hg⟩ := h
        exact (Tour.group_ok hg).2.2
    refine (lifted.bind fun g hg => exact_modify ?_).congr (iff_of_eq (and_true _))
    intro t h
    obtain ⟨hgroups, hvisits⟩ := h
    refine ⟨fun g' hg' => ?_, hvisits⟩
    rcases List.mem_append.1 hg' with hg' | hg'
    · exact hgroups g' hg'
    · exact List.mem_singleton.1 hg' ▸ hg

/-! ### The walk -/

variable {onward : Tour.Onward} {valid : String → Json.Object → Prop}

/-- Whether a value is an object that is valid for a model. -/
def ValidElement (valid : String → Json.Object → Prop) (related : String) (e : Json) : Prop :=
  ∃ o, e = .object o ∧ valid related o

theorem Tour.element_exact (hids : ∀ g ∈ T.ids, g.Endless)
    (hvalid : ∀ model a out, Identified a out → (valid model out ↔ valid model a))
    (honward : ∀ address model a, Exact T.Found (onward address model a) (valid model a)
      fun _ => True) (above : List Pick) (step : Step) (e : Json × Nat) :
    Exact T.Found (T.element onward above step e) (ValidElement valid step.related e.1)
      fun _ => True := by
  obtain ⟨e, i⟩ := e
  cases e with
  | object arguments =>
    have onwards : ∀ out, Identified arguments out → Exact T.Found
        (onward (above ++ [⟨step, i⟩]) step.related out >>= fun o => pure (Json.object o))
        (ValidElement valid step.related (.object arguments)) fun _ => True := by
      intro out hout
      refine ((honward _ step.related out).map Json.object fun _ _ => trivial).congr ?_
      rw [hvalid step.related arguments out hout]
      constructor
      · exact fun h => ⟨arguments, rfl, h⟩
      · intro h
        obtain ⟨o, ho, h⟩ := h
        cases ho
        exact h
    simp only [Tour.element]
    cases step.action with
    | create => exact (T.identify_exact hids arguments).andThen onwards
    | connect => exact (exact_pure arguments (.inl rfl)).andThen onwards
  | null | bool _ | number _ | string _ | array _ =>
    refine (exact_throw _).congr (iff_of_false id ?_)
    intro h
    obtain ⟨o, ho, -⟩ := h
    cases ho

/-- What an action of a relation must supply. -/
def Tour.ValidSupply (T : Tour) (valid : String → Json.Object → Prop) (step : Step) (v : Json) :
    Prop :=
  T.catalog.Targets step.related step.action ∧ ∀ e ∈ v.elements, ValidElement valid step.related e

variable {owner : String} {info : ModelInfo}

theorem Tour.elements_exact (howner : T.catalog.model owner = .ok info) {step : Step}
    (hrelation : ∃ m, T.catalog.mutation (Names.relationMutation owner step.field) = .ok m)
    (above : List Pick)
    (helement : ∀ e, Exact T.Found (T.element onward above step e)
      (ValidElement valid step.related e.1) fun _ => True) (supplied : List String) (v : Json) :
    Exact T.Found (T.elements onward above owner supplied step v) (T.ValidSupply valid step v)
      fun _ => True := by
  unfold Tour.elements
  refine (Tour.noteGroup_exact howner hrelation).bind fun _ _ => ?_
  cases v with
  | array items =>
    have each := exact_mapM items.zipIdx fun e _ => helement e
    refine (each.map Json.array fun _ _ => trivial).congr ?_
    rw [← List.forall_mem_map (P := ValidElement valid step.related), List.zipIdx_map_fst]
    rfl
  | null | bool _ | number _ | string _ | object _ =>
    exact (helement (_, 0)).congr List.forall_mem_singleton.symm

theorem Tour.action_exact {step : Step} {above : List Pick} {supplied : List String}
    (helements : ∀ v, Exact T.Found (T.elements onward above owner supplied step v)
      (T.ValidSupply valid step v) fun _ => True) (nested : Json.Object) :
    Exact T.Found (T.action onward above owner supplied step nested)
      (∀ v, step.action.given? nested = some v → T.ValidSupply valid step v)
      fun out => ∀ a, a ≠ step.action → a.given? out = a.given? nested := by
  unfold Tour.action
  split
  · next hnone =>
    refine (exact_pure nested fun _ _ => rfl).congr (iff_of_true trivial fun v hv => ?_)
    exact absurd (hnone.symm.trans hv) (by simp)
  · next v hv =>
    refine ((helements v).map _ fun w _ a ha => NestedAction.given?_insert nested w ha).congr ?_
    constructor
    · intro h v' hv'
      exact Option.some.inj (hv.symm.trans hv') ▸ h
    · intro h
      exact h v hv

theorem Tour.relation_exact {field related : String} {above : List Pick} {supplied : List String}
    (haction : ∀ a nested, Exact T.Found
      (T.action onward above owner supplied ⟨field, a, related⟩ nested)
      (∀ v, a.given? nested = some v → T.ValidSupply valid ⟨field, a, related⟩ v)
      fun out => ∀ b, b ≠ a → b.given? out = b.given? nested)
    (nested : Json.Object) :
    Exact T.Found (T.relation onward above owner info supplied field related nested)
      (T.catalog.ValidRelation valid info field related nested) fun _ => True := by
  have connects : ∀ out, (∀ b, b ≠ NestedAction.create → b.given? out = b.given? nested) →
      Exact T.Found (T.action onward above owner supplied ⟨field, .connect, related⟩ out)
        (∀ v, NestedAction.connect.given? nested = some v →
          T.ValidSupply valid ⟨field, .connect, related⟩ v) fun _ => True := by
    intro out hout
    rw [← hout .connect (by decide)]
    exact (haction .connect out).weaken fun _ _ => trivial
  unfold Tour.relation
  simp only
  split
  · next hboth =>
    refine (exact_throw _).congr (iff_of_false id fun h => ?_)
    simp only [Bool.and_eq_true, Bool.not_eq_true'] at hboth
    obtain ⟨⟨hcreate, hconnect⟩, hone⟩ := hboth
    exact Bool.false_ne_true (hone.symm.trans (h.1 hcreate hconnect))
  · next hboth =>
    refine ((haction .create nested).bind connects).congr ?_
    constructor
    · intro h
      obtain ⟨hcreate, hconnect⟩ := h
      refine ⟨fun h h' => ?_, fun a => ?_⟩
      · by_contra hone
        refine hboth ?_
        rw [Bool.and_eq_true, Bool.and_eq_true, Bool.not_eq_true']
        exact ⟨⟨h, h'⟩, Bool.eq_false_iff.2 hone⟩
      · cases a with
        | create => exact hcreate
        | connect => exact hconnect
    · intro h
      exact ⟨h.2 .create, h.2 .connect⟩

theorem Tour.argument_exact {address : List Pick} {supplied : List String}
    (hrelation : ∀ field related nested, info.related? field = some related →
      Exact T.Found (T.relation onward address owner info supplied field related nested)
        (T.catalog.ValidRelation valid info field related nested) fun _ => True)
    (entry : String × Json) :
    Exact T.Found (T.argument onward address owner info supplied entry)
      (∀ related nested, info.related? entry.1 = some related → entry.2 = .object nested →
        T.catalog.ValidRelation valid info entry.1 related nested) fun _ => True := by
  unfold Tour.argument
  split
  · next related nested hrelated hobject =>
    refine ((hrelation _ related nested hrelated).map _ fun _ _ => trivial).congr ?_
    constructor
    · intro h related' nested' hrelated' hobject'
      cases hrelated.symm.trans hrelated'
      cases hobject.symm.trans hobject'
      exact h
    · intro h
      exact h related nested hrelated hobject
  · next hother =>
    refine (exact_pure entry trivial).congr (iff_of_true trivial ?_)
    intro related nested hrelated hobject
    exact absurd hobject (hother related nested hrelated)

/-- A visit of a known model may be noted. -/
theorem Tour.note_exact {model : String} (hmodel : T.catalog.model model = .ok info)
    (address : List Pick) (arguments : Json.Object) :
    Exact T.Found (Tour.note address model arguments) True fun _ => True := by
  refine exact_modify fun s hs => ⟨hs.1, fun v hv => ?_⟩
  rcases List.mem_append.1 hv with hv | hv
  · exact hs.2 v hv
  · exact ⟨info, List.mem_singleton.1 hv ▸ hmodel⟩

/-- All the arguments of an object are walked over just when its relations are valid. -/
theorem Tour.arguments_exact {address : List Pick} {supplied : List String}
    (hargument : ∀ entry, Exact T.Found (T.argument onward address owner info supplied entry)
      (∀ related nested, info.related? entry.1 = some related → entry.2 = .object nested →
        T.catalog.ValidRelation valid info entry.1 related nested) fun _ => True)
    (arguments : Json.Object) :
    Exact T.Found (arguments.mapM (T.argument onward address owner info supplied))
      (∀ field related nested, (field, .object nested) ∈ arguments →
        info.related? field = some related →
        T.catalog.ValidRelation valid info field related nested) fun _ => True := by
  refine ((exact_mapM arguments fun entry _ => hargument entry).weaken fun _ _ => trivial).congr ?_
  constructor
  · intro h field related nested hmem hrelated
    exact h (field, .object nested) hmem related nested hrelated rfl
  · intro h entry hmem related nested hrelated hv
    obtain ⟨field, v⟩ := entry
    cases hv
    exact h field related nested hmem hrelated

/-- An object is walked over just when its model is known and its relations are valid. -/
theorem Tour.visit_exact (hrelations : T.catalog.HasRelations) (hids : ∀ g ∈ T.ids, g.Endless)
    (hvalid : ∀ model a out, Identified a out → (valid model out ↔ valid model a))
    (honward : ∀ address model a, Exact T.Found (onward address model a) (valid model a)
      fun _ => True) (address : List Pick) (model : String) (arguments : Json.Object) :
    Exact T.Found (T.visit onward address model arguments)
      (∃ info, T.catalog.model model = .ok info ∧
        ∀ field related nested, (field, .object nested) ∈ arguments →
          info.related? field = some related →
          T.catalog.ValidRelation valid info field related nested) fun _ => True := by
  have relations : ∀ info, T.catalog.model model = .ok info →
      Exact T.Found (do
          Tour.note address model arguments
          arguments.mapM (T.argument onward address model info (Entries.keys arguments)))
        (∀ info, T.catalog.model model = .ok info →
          ∀ field related nested, (field, .object nested) ∈ arguments →
            info.related? field = some related →
            T.catalog.ValidRelation valid info field related nested) fun _ => True := by
    intro info hmodel
    have each := Tour.arguments_exact (fun entry =>
      Tour.argument_exact (fun field related nested hrelated =>
        Tour.relation_exact (fun a =>
          Tour.action_exact (Tour.elements_exact hmodel
            (hrelations _ _ _ _ hmodel hrelated) address
            (Tour.element_exact hids hvalid honward address ⟨field, a, related⟩)
            (Entries.keys arguments))) nested) entry) arguments
    refine ((Tour.note_exact hmodel address arguments).andThen fun _ _ => each).congr ?_
    constructor
    · intro h info' hmodel'
      cases hmodel.symm.trans hmodel'
      exact h
    · intro h
      exact h info hmodel
  refine ((exact_lift (T.catalog.model model) fun _ => id).bind relations).congr ?_
  constructor
  · intro h
    obtain ⟨⟨info, hmodel⟩, h⟩ := h
    exact ⟨info, hmodel, h info hmodel⟩
  · intro h
    obtain ⟨info, hmodel, h⟩ := h
    refine ⟨⟨info, hmodel⟩, fun info' hmodel' => ?_⟩
    cases hmodel.symm.trans hmodel'
    exact h

theorem Catalog.valid_identified {c : Catalog} {depth : Nat} {model : String}
    {a out : Json.Object} (h : Identified a out) :
    c.Valid depth model out ↔ c.Valid depth model a := by
  rcases h with rfl | ⟨-, id, rfl⟩
  · rfl
  · refine c.valid_congr fun field nested => ?_
    simp

/-- **The walk is exact.** With `levels` left at a depth, it ends just on what is valid
at that depth. -/
theorem Tour.walk_exact (hrelations : T.catalog.HasRelations)
    (hids : ∀ g ∈ T.ids, g.Endless) (levels : Nat) :
    ∀ depth, levels + depth = maxNesting + 1 → ∀ address model arguments,
      Exact T.Found (T.walk levels address model arguments) (T.catalog.Valid depth model arguments)
        fun _ => True := by
  induction levels with
  | zero =>
    intro depth hdepth address model arguments
    refine (exact_throw _).congr (iff_of_false id fun h => ?_)
    have := (T.catalog.valid_iff depth model arguments).1 h
    omega
  | succ levels ih =>
    intro depth hdepth address model arguments
    have onwards := ih (depth + 1) (by omega)
    have identified : ∀ model a out, Identified a out →
        (T.catalog.Valid (depth + 1) model out ↔ T.catalog.Valid (depth + 1) model a) :=
      fun _ _ _ h => Catalog.valid_identified h
    refine (T.visit_exact hrelations hids identified onwards address model arguments).congr ?_
    rw [T.catalog.valid_iff depth, and_iff_right (by omega : depth ≤ maxNesting)]

end

/-! ### Compiling -/

theorem mem_stagedRecords {c : Catalog} {visits : List Visit} {e : String × List Json}
    (h : e ∈ stagedRecords c visits) : ∃ v ∈ visits, v.model = e.1 := by
  have staged : ∀ (visits : List Visit) (staged : Entries (List Json)),
      e ∈ visits.foldl (fun staged v =>
        let keys := ((Entries.get? c.models v.model).map ModelInfo.unique).getD []
        stage staged v.model (stagedRecord keys v.arguments)) staged →
      e ∈ staged ∨ ∃ v ∈ visits, v.model = e.1 := by
    intro visits
    induction visits with
    | nil => exact fun staged h => .inl h
    | cons v rest ih =>
      intro staged h
      rcases ih _ h with h | ⟨w, hw, he⟩
      · rcases Entries.mem_insert h with h | h
        · exact .inl h
        · exact .inr ⟨v, List.mem_cons_self, by rw [h]⟩
      · exact .inr ⟨w, List.mem_cons_of_mem _ hw, he⟩
  exact (staged visits [] h).resolve_left List.not_mem_nil

namespace Catalog

variable {c : Catalog}

/-- Records of known models can be read back. -/
theorem exists_readBack {visits : List Visit} (h : ∀ v ∈ visits, ∃ m, c.model v.model = .ok m) :
    ∃ r, (stagedRecords c visits).mapM (fun e => (c.model e.1).map fun m => (e.1, m.unique)) =
      .ok r := by
  refine exists_mapM_ok fun e he => ?_
  obtain ⟨v, hv, hmodel⟩ := mem_stagedRecords he
  obtain ⟨m, hm⟩ := h v hv
  rw [hmodel] at hm
  rw [hm]
  exact ⟨_, rfl⟩

theorem compileRoot_exact (hrelations : c.HasRelations) {ids : Option IdGenerator}
    (hids : ∀ g ∈ ids, g.Endless)
    (name : String) (info : MutationInfo) (data : Json.Object) :
    Exact (Tour.Found ⟨c, info.model, ids⟩) (c.compileRoot name info data ids)
      (c.Valid 0 info.model data) fun _ => True := by
  unfold compileRoot
  refine (Tour.identify_exact (T := ⟨c, info.model, ids⟩) hids data).andThen fun out hout => ?_
  have walked := (Tour.walk_exact (T := ⟨c, info.model, ids⟩) hrelations hids (maxNesting + 1) 0
    rfl [] info.model out).congr (valid_identified hout)
  have lookup : Exact (Tour.Found ⟨c, info.model, ids⟩) (ExceptT.mk (pure (c.model info.model)))
      (∃ m, c.model info.model = .ok m) fun _ => True := exact_lift _ fun _ _ => trivial
  have known : c.Valid 0 info.model data → ∃ m, c.model info.model = .ok m := by
    intro h
    obtain ⟨-, m, hm, -⟩ := (c.valid_iff 0 info.model data).1 h
    exact ⟨m, hm⟩
  refine (lookup.bind fun root _ => ?_).congr (and_iff_right_of_imp known)
  refine (walked.bind fun arguments _ => ?_).congr (iff_of_eq (and_true _))
  refine exact_get.andThen fun s hs => ?_
  refine ((exact_lift _ fun _ _ => trivial).map _ fun _ _ => trivial).congr
    (iff_of_true (exists_readBack hs.2) trivial)

theorem exists_compileRoot_iff (hrelations : c.HasRelations) {ids : Option IdGenerator}
    (hids : ∀ g ∈ ids, g.Endless)
    (name : String) (info : MutationInfo) (data : Json.Object) (drawn : Nat) :
    (∃ m, ((c.compileRoot name info data ids).run.run { drawn }).1.map CompiledMutation.create =
      .ok m) ↔ c.Valid 0 info.model data := by
  have compiled := compileRoot_exact hrelations hids name info data
  have start : Tour.Found ⟨c, info.model, ids⟩ { drawn } :=
    ⟨fun _ hg => absurd hg List.not_mem_nil, fun _ hv => absurd hv List.not_mem_nil⟩
  constructor
  · intro h
    obtain ⟨m, hm⟩ := h
    rcases hrun : (c.compileRoot name info data ids).run.run { drawn } with ⟨e | root, t⟩
    · rw [hrun] at hm
      cases hm
    · exact (compiled.sound _ root t start hrun).1
  · intro hvalid
    obtain ⟨root, t, hrun⟩ := compiled.ends hvalid _ start
    exact ⟨.create root, by rw [hrun]; rfl⟩

/-- What a request must satisfy: its mutation is marked and known and, if that creates,
its variables hold arguments that are valid at the root. -/
def Accepts (c : Catalog) (name : String) (values : Json.Object) : Prop :=
  c.isGenerated name = true ∧ ∃ info, c.mutation name = .ok info ∧
    (info.action = .create → ∃ data,
      Entries.get? (logicalArguments values) "data" = some (.object data) ∧
        c.Valid 0 info.model data)

/-- **What the compiler accepts.** For the catalog of any document, with no ids or ids
that never run out, a mutation compiles just on what `Accepts` says. -/
theorem compile_ok_iff {d : Document} (hc : ofDocument d = .ok c) {ids : Option IdGenerator}
    (hids : ∀ g ∈ ids, g.Endless)
    (name : String) (values : Json.Object) (drawn : Nat) :
    (∃ m, (c.compile name values ids drawn).1 = .ok m) ↔ c.Accepts name values := by
  unfold Accepts
  by_cases hname : c.isGenerated name = true
  · cases hinfo : c.mutation name with
    | error e => simp [compile, hname, hinfo]
    | ok info =>
      cases haction : info.action with
      | add => simp [compile, hname, hinfo, haction]
      | create =>
        cases hdata : dataArguments values with
        | error e =>
          have none : ∀ data, Entries.get? (logicalArguments values) "data" ≠ some (.object data) :=
            fun data h => by simpa [hdata] using (dataArguments_ok_iff values data).2 h
          simp [compile, hname, hinfo, haction, hdata, none]
        | ok data =>
          have hget := (dataArguments_ok_iff values data).1 hdata
          rw [compile_of_data hname hinfo haction hdata]
          rw [exists_compileRoot_iff (hasRelations_ofDocument hc) hids name info data drawn]
          simp [hname, haction, hget]
  · simp [compile, hname]

theorem compile_ok_iff_friends : friendsCatalog.Accepts "createPerson" friendsValues := by
  have hids : ∀ g ∈ some (IdGenerator.counting "n" none), g.Endless := by
    intro g hg
    exact Option.some.inj hg ▸ IdGenerator.endless_counting "n"
  have hc : ofDocument friends = .ok friendsCatalog := rfl
  exact (compile_ok_iff hc hids "createPerson" friendsValues 0).1 ⟨_, rfl⟩

end Catalog

end GraphqlCypher
