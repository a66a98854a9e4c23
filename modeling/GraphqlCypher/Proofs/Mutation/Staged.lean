import GraphqlCypher.Proofs.Catalog.Creates
import GraphqlCypher.Proofs.Mutation.Endow
import GraphqlCypher.Proofs.Mutation.Groups

/-! What a compiled create mutation carries to the database.

Its arguments are the caller's with an id for each newcomer, the first drawn for the
first newcomer of the walk and so on. Its staged records are, model by model and in the
order of the walk, the unique properties of the objects in those arguments.

The records are made while the walk goes on, so they hold an object's properties as they
were when it was reached. That makes a difference for one property: a model may declare
its `id` as a relation, and what is nested under it gets its ids after the record is
made (`not_stagesFinal_selfNamed`).

**Main result.** `completes_of_compile`: what the arguments and the records are, and that
nothing is compiled if an id that is needed cannot be drawn. -/
namespace GraphqlCypher

open Schema WalkM

/-! ### Staging -/

section

variable (c : Catalog)

/-- The record of a visit. -/
def Visit.record (v : Visit) : Json :=
  stagedRecord (((Entries.get? c.models v.model).map ModelInfo.unique).getD []) v.arguments

theorem stagedRecords_concat (visits : List Visit) (v : Visit) :
    stagedRecords c (visits ++ [v]) = stage (stagedRecords c visits) v.model (v.record c) := by
  rw [stagedRecords, List.foldl_append]
  rfl

/-- The models of staged records, in the order of their first visits. -/
theorem keys_stagedRecords (visits : List Visit) :
    Entries.keys (stagedRecords c visits) = (visits.map Visit.model).eraseDups := by
  induction visits using List.reverseRecOn with
  | nil => rfl
  | append_singleton visits v ih =>
    rw [stagedRecords_concat, stage, Entries.keys_insert, ih, List.map_append, List.map_singleton,
      eraseDups_concat]
    simp only [List.mem_eraseDups]

/-- The records of a model, in the order of its visits. -/
theorem get?_stagedRecords (visits : List Visit) (model : String) :
    (Entries.get? (stagedRecords c visits) model).getD [] =
      (visits.filter (·.model == model)).map (Visit.record c) := by
  induction visits using List.reverseRecOn with
  | nil => rfl
  | append_singleton visits v ih =>
    rw [stagedRecords_concat, stage, Entries.lookup_insert, List.filter_append, List.map_append,
      ← ih]
    by_cases hv : v.model = model
    · subst hv
      rw [if_pos rfl, List.filter_cons_of_pos (by simp)]
      rfl
    · rw [if_neg hv, List.filter_cons_of_neg (by simpa using hv)]
      exact (List.append_nil _).symm

end

/-! ### Unique properties -/

theorem ModelInfo.nodup_withId {names : List String} (h : names.Nodup) : (withId names).Nodup := by
  unfold withId
  split
  · exact h
  · next hid => exact List.nodup_cons.2 ⟨by simpa using hid, h⟩

section

variable {m : ObjectType} (hdistinct : (m.fields.map Field.name).Nodup)
include hdistinct

theorem ModelInfo.nodup_unique : (ofModel m).unique.Nodup := by
  apply nodup_withId
  exact hdistinct.sublist ((List.filter_sublist.trans List.filter_sublist).map _)

/-- Of the unique properties of a model, `id` alone may be a relation. -/
theorem ModelInfo.eq_id_of_related {k : String} (hk : k ∈ (ofModel m).unique)
    (hrelated : (ofModel m).related? k ≠ none) : k = Names.id := by
  by_contra hne
  obtain ⟨related, hrelated⟩ := Option.ne_none_iff_exists'.1 hrelated
  obtain ⟨f, hf, hname, -⟩ := Catalog.mem_of_related hrelated
  have hstored : k ∈ ((m.fields.filter Field.isStored).filter Field.isUnique).map Field.name := by
    have hk : k ∈ withId (((m.fields.filter Field.isStored).filter Field.isUnique).map
        Field.name) := hk
    unfold withId at hk
    split at hk
    · exact hk
    · exact (List.mem_cons.1 hk).resolve_left hne
  obtain ⟨g, hg, rfl⟩ := List.mem_map.1 hstored
  obtain ⟨hf, hrelation⟩ := List.mem_filter.1 hf
  obtain ⟨hg, hstored⟩ := List.mem_filter.1 (List.mem_filter.1 hg).1
  have same : f = g := List.inj_on_of_nodup_map hdistinct hf hg hname
  rw [same] at hrelation
  simp [Field.isStored, hrelation] at hstored

end

/-- The record of an object holds its unique properties, `null` standing for those that it
lacks. -/
theorem stagedRecord_eq {keys : List String} (h : keys.Nodup) (arguments : Json.Object) :
    stagedRecord keys arguments =
      .object (keys.map fun k => (k, (Entries.get? arguments k).getD .null)) := by
  have hkeys : Entries.keys (keys.map fun k => (k, (Entries.get? arguments k).getD Json.null)) =
      keys := by
    rw [Entries.keys, List.map_map]
    exact List.map_id keys
  rw [stagedRecord, Entries.ofList_eq_self (by rw [hkeys]; exact h)]

/-! ### What a visit leaves of a property -/

/-- The value of a key, unless it is an object under a relation: nothing else changes when
a walk goes on. -/
def ModelInfo.plain? (info : ModelInfo) (arguments : Json.Object) (k : String) : Option Json :=
  match Entries.get? arguments k with
  | some (.object o) => if (info.related? k).isSome then none else some (.object o)
  | other => other

theorem Kept.plain? {info : ModelInfo} {arguments out : Json.Object} (h : Kept info arguments out)
    (k : String) : info.plain? out k = info.plain? arguments k := by
  unfold ModelInfo.plain?
  induction h with
  | nil => rfl
  | @cons x y _ _ head _ ih =>
    cases head with
    | same =>
      obtain ⟨k', v⟩ := x
      rw [Entries.get?_cons, Entries.get?_cons]
      by_cases hk : k' = k
      · rw [if_pos hk, if_pos hk]
      · rw [if_neg hk, if_neg hk]
        exact ih
    | @relation field related nested written known =>
      rw [Entries.get?_cons, Entries.get?_cons]
      by_cases hk : field = k
      · subst hk
        simp [known]
      · rw [if_neg hk, if_neg hk]
        exact ih

/-- A property that is no relation is the same once the walk has gone on. -/
theorem ModelInfo.get?_of_plain? {info : ModelInfo} {a b : Json.Object} {k : String}
    (h : info.plain? a k = info.plain? b k) (hk : info.related? k = none) :
    Entries.get? a k = Entries.get? b k := by
  have all : ∀ o : Json.Object, info.plain? o k = Entries.get? o k := by
    intro o
    unfold plain?
    split
    · next h => simp [hk, h]
    · rfl
  rw [← all a, ← all b, h]

/-- A string is the same once the walk has gone on. -/
theorem ModelInfo.get?_string_of_plain? {info : ModelInfo} {a b : Json.Object} {k s : String}
    (h : info.plain? a k = info.plain? b k) (hs : Entries.get? a k = some (.string s)) :
    Entries.get? b k = some (.string s) := by
  have plain : info.plain? a k = some (.string s) := by rw [plain?, hs]
  rw [h] at plain
  unfold plain? at plain
  split at plain
  · split at plain <;> cases plain
  · exact plain

/-! ### What is compiled -/

/-- The id that an address has among the newcomers: they draw in turn. -/
def idFor (ids : Option IdGenerator) (drawn : Nat) (newcomers : List (List Pick))
    (address : List Pick) : Option String :=
  ids.bind fun g => (newcomers.idxOf? address).bind fun i => (g.next (drawn + i)).toOption

/-- The record that is staged for an object of the final arguments has its unique
properties in order, with their final values. A property that is a relation has the value
that the caller gave it; that can be `id` alone. -/
structure Stages (c : Catalog) (given : List Visit) (info : ModelInfo) (v : Visit) (record : Json) :
    Prop where
  keys : record.asObject?.map Entries.keys = some info.unique
  plain : ∀ k ∈ info.unique, info.related? k = none →
    record.get? k = some ((Entries.get? v.arguments k).getD .null)
  relation : ∀ k ∈ info.unique, info.related? k ≠ none → k = Names.id ∧
    ∃ w ∈ given, w.address = v.address ∧
      record.get? k = some (((Entries.get? w.arguments k).or (Entries.get? v.arguments k)).getD .null)

namespace CompiledCreate

/-- The objects that a walk reaches in the final arguments. -/
def reached (c : Catalog) (m : CompiledCreate) : List Visit :=
  visitsOf (c.events (maxNesting + 1) [] m.model m.arguments)

/-- What a compiled create mutation makes of the caller's arguments. -/
structure Completes (c : Catalog) (ids : Option IdGenerator) (drawn : Nat) (data : Json.Object)
    (m : CompiledCreate) : Prop where
  /-- There is an id for every newcomer. -/
  supplied : ∀ g ∈ ids, ∀ i < (c.newcomers m.model data).length, ∃ id, g.next (drawn + i) = .ok id
  /-- Each newcomer has its id at its end, and nothing else has changed. -/
  arguments : m.arguments = c.endow (idFor ids drawn (c.newcomers m.model data)) (maxNesting + 1) []
    m.model data
  /-- Without ids nothing has changed. -/
  unchanged : ids = none → m.arguments = data
  /-- The models of the records stand in the order of their first visits. -/
  models : Entries.keys m.staged = ((m.reached c).map Visit.model).eraseDups
  /-- The records of a model are those of its objects, in the order of the walk. -/
  records : ∀ model info, c.model model = .ok info →
    List.Forall₂ (Stages c (visitsOf (c.events (maxNesting + 1) [] m.model data)) info)
      ((m.reached c).filter (·.model == model)) ((Entries.get? m.staged model).getD [])

end CompiledCreate

namespace Tour

variable {T : Tour} {events : List WalkEvent} {s t : WalkState}
  {P : (List Pick → Option String) → Prop}

/-- Where no address is met twice, the newcomers among the events have the ids that were
drawn, the first the first and so on. -/
theorem Serves.exact (h : T.Serves events s t P)
    (hnodup : ((visitsOf events).map Visit.address).Nodup) :
    (∀ g ∈ T.ids, ∀ i < (newcomersOf events).length, ∃ id, g.next (s.drawn + i) = .ok id) ∧
      P (idFor T.ids s.drawn (newcomersOf events)) := by
  obtain ⟨draws, haddresses, hnext, -, hP⟩ := h.draws
  have hnew : (newcomersOf events).Nodup := hnodup.sublist (List.filter_sublist.map _)
  cases hids : T.ids with
  | none =>
    have nobody : draws = [] := by
      rw [← List.map_eq_nil_iff (f := Prod.fst), haddresses]
      simp [receives, hids]
    refine ⟨fun g hg => absurd hg (by simp), ?_⟩
    rw [← hids]
    refine hP _ ⟨fun p hp => ?_, fun v _ _ => by rw [hids]; rfl⟩
    rw [nobody] at hp
    cases hp
  | some g =>
    have hreceives : T.receives = Visit.isNewcomer := by
      funext v
      simp [receives, hids]
    rw [hreceives, ← newcomersOf] at haddresses
    have hlength : draws.length = (newcomersOf events).length := by
      rw [← List.length_map (f := Prod.fst), haddresses]
    refine ⟨fun g' hg' i hi => ?_, hP _ ⟨fun p hp => ?_, fun v hv hnone => ?_⟩⟩
    · cases hg'
      have hi' : i < draws.length := by omega
      exact ⟨_, hnext g hids i _ (List.getElem?_eq_getElem hi')⟩
    · obtain ⟨i, hi⟩ := List.mem_iff_getElem?.1 hp
      have haddress : (newcomersOf events)[i]? = some p.1 := by
        rw [← haddresses, List.getElem?_map, hi]
        rfl
      obtain ⟨hlt, hget⟩ := List.getElem?_eq_some_iff.1 haddress
      have hindex : (newcomersOf events).idxOf? p.1 = some i := by
        refine List.idxOf?_eq_some_iff.2 ⟨hlt, hget, fun j hj e => ?_⟩
        have same := hnew.getElem_inj_iff.1 (e.trans hget.symm)
        omega
      rw [idFor, Option.bind_some, hindex, Option.bind_some, hnext g hids i p hi]
      rfl
    · have hmissing : v.address ∉ newcomersOf events := by
        intro hmem
        obtain ⟨w, hw, hwv⟩ := List.mem_map.1 hmem
        obtain ⟨hw, hnewcomer⟩ := List.mem_filter.1 hw
        have same := List.inj_on_of_nodup_map hnodup hw hv hwv
        rw [← same, hreceives, hnewcomer] at hnone
        cases hnone
      rw [idFor, Option.bind_some, List.idxOf?_eq_none_iff.2 hmissing]
      rfl

end Tour

/-- Every visit was met among the events. -/
theorem exists_met {given visits : List Visit} (h : List.Forall₂ Tour.Met given visits) :
    ∀ v ∈ visits, ∃ w ∈ given, Tour.Met w v := by
  induction h with
  | nil => exact fun v hv => absurd hv List.not_mem_nil
  | cons head _ ih =>
    intro v hv
    rcases List.mem_cons.1 hv with rfl | hv
    · exact ⟨_, List.mem_cons_self, head⟩
    · obtain ⟨w, hw, met⟩ := ih v hv
      exact ⟨w, List.mem_cons_of_mem _ hw, met⟩

/-! ### Compiling -/

namespace Catalog

variable {d : Document} {c : Catalog} {name : String} {values : Json.Object}
  {ids : Option IdGenerator} {drawn : Nat} {m : CompiledCreate}

/-- What compiling has done: it served the events of the caller's arguments. -/
theorem serves_of_compile (keyed : (Json.object values).WellKeyed)
    (h : (c.compile name values ids drawn).1 = .ok (.create m)) :
    ∃ info data t, c.mutation name = .ok info ∧ dataArguments values = .ok data ∧
      m.model = info.model ∧ m.visits = t.visits ∧ m.staged = stagedRecords c t.visits ∧
      Tour.Serves ⟨c, m.model, ids⟩ (c.events (maxNesting + 1) [] m.model data) { drawn } t
        fun give => m.arguments = c.endow give (maxNesting + 1) [] m.model data := by
  obtain ⟨info, data, new, s, t, hinfo, -, hdata, hmodel, hnew, hwalk, -, hvisits, hstaged⟩ :=
    run_of_compile h
  have entered := Tour.enters_of_identify (v := ⟨[], m.model, data⟩) rfl hnew
  exact ⟨info, data, t, hinfo, hdata, hmodel, hvisits, hstaged,
    Tour.walk_serves (maxNesting + 1) _ _ _ _ _ _ entered hwalk
      (wellKeyed_of_dataArguments keyed hdata)⟩

/-- A visit and the object that the final arguments hold there. -/
structure Settles (c : Catalog) (v final : Visit) : Prop where
  address : v.address = final.address
  model : v.model = final.model
  keys : Entries.keys v.arguments = Entries.keys final.arguments
  plain : ∀ info, c.model v.model = .ok info →
    info.plain? v.arguments = info.plain? final.arguments

theorem settles_of_compile (h : (c.compile name values ids drawn).1 = .ok (.create m)) :
    List.Forall₂ c.Settles m.visits (m.reached c) := by
  let key (v : Visit) := (v.address, v.model, Entries.keys v.arguments,
    (c.model v.model).toOption.map fun info => info.plain? v.arguments)
  have visits : m.visits.map key = (m.reached c).map key := by
    refine visits_of_compile (fun info address model arguments out hinfo kept => ?_) h
    have plain : info.plain? arguments = info.plain? out := (funext kept.plain?).symm
    simp only [key, hinfo, kept.keys, Except.toOption, Option.map_some, plain]
  rw [← List.forall₂_eq_eq_eq, List.forall₂_map_left_iff, List.forall₂_map_right_iff] at visits
  refine visits.imp fun v w e => ?_
  simp only [key, Prod.mk.injEq] at e
  obtain ⟨address, model, keys, plain⟩ := e
  refine ⟨address, model, keys, fun info hinfo => ?_⟩
  rw [← model, hinfo] at plain
  exact Option.some.inj plain

/-- An `id` that the caller gave is the one at the visit, and one that was drawn is there
at the end as well. -/
theorem Settles.get?_id {w v final : Visit} {info : ModelInfo} (settles : c.Settles v final)
    (hinfo : c.model v.model = .ok info) (identified : Identified w.arguments v.arguments) :
    Entries.get? v.arguments Names.id =
      (Entries.get? w.arguments Names.id).or (Entries.get? final.arguments Names.id) := by
  rcases identified with hsame | ⟨hnew, id, hid⟩
  · rw [← hsame]
    cases hget : Entries.get? v.arguments Names.id with
    | some x => rfl
    | none =>
      have missing : Names.id ∉ Entries.keys final.arguments := by
        rw [← settles.keys]
        intro hmem
        obtain ⟨x, hx⟩ := Entries.exists_get?_of_mem_keys hmem
        cases hget.symm.trans hx
      rw [Entries.get?_eq_none missing]
      rfl
  · have drawn : Entries.get? v.arguments Names.id = some (.string id) := by
      rw [hid, Entries.get?, List.lookup_append, ← Entries.get?, Entries.get?_eq_none hnew]
      rfl
    rw [Entries.get?_eq_none hnew,
      ModelInfo.get?_string_of_plain? (congrFun (settles.plain info hinfo) _) drawn, drawn]
    rfl

/-- What a visit records is what the final arguments hold there, but for `id` if that is
a relation. -/
theorem Settles.stages {t : ObjectType} {given : List Visit} {w v final : Visit}
    (hdistinct : (t.fields.map Field.name).Nodup) (hw : w ∈ given) (met : Tour.Met w v)
    (settles : c.Settles v final) (hinfo : c.model v.model = .ok (.ofModel t)) :
    Stages c given (.ofModel t) final (v.record c) := by
  have unique := ModelInfo.nodup_unique hdistinct
  have record : v.record c = .object ((ModelInfo.ofModel t).unique.map fun k =>
      (k, (Entries.get? v.arguments k).getD .null)) := by
    rw [Visit.record, (model_ok_iff _ _ _).1 hinfo]
    exact stagedRecord_eq unique _
  have keys : Entries.keys ((ModelInfo.ofModel t).unique.map fun k =>
      (k, (Entries.get? v.arguments k).getD Json.null)) = (ModelInfo.ofModel t).unique := by
    rw [Entries.keys, List.map_map]
    exact List.map_id _
  have value : ∀ k ∈ (ModelInfo.ofModel t).unique,
      (v.record c).get? k = some ((Entries.get? v.arguments k).getD .null) := by
    intro k hk
    rw [record]
    exact Entries.get?_of_mem (by rw [keys]; exact unique) (List.mem_map.2 ⟨k, hk, rfl⟩)
  refine ⟨?_, fun k hk hplain => ?_, fun k hk hrelated => ?_⟩
  · rw [record]
    exact congrArg some keys
  · rw [value k hk, ModelInfo.get?_of_plain? (congrFun (settles.plain _ hinfo) k) hplain]
  · have hid := ModelInfo.eq_id_of_related hdistinct hk hrelated
    refine ⟨hid, w, hw, met.address.symm.trans settles.address, ?_⟩
    rw [value k hk, hid, settles.get?_id hinfo met.arguments]

theorem nodup_addresses_of_compile (keyed : (Json.object values).WellKeyed)
    (h : (c.compile name values ids drawn).1 = .ok (.create m)) :
    (m.visits.map Visit.address).Nodup := by
  have addresses : m.visits.map Visit.address = (m.reached c).map Visit.address :=
    visits_of_compile (fun _ _ _ _ _ _ _ => rfl) h
  have places : (m.reached c).map Visit.place =
      ((m.reached c).map Visit.address).map (List.map Pick.place) := by
    rw [List.map_map]
    rfl
  rw [addresses]
  exact (places ▸ nodup_places (tidy_of_compile keyed h)).of_map _

section

variable (hc : ofDocument d = .ok c)
  (hdistinct : ∀ t ∈ d.models, (t.fields.map Field.name).Nodup)
include hc hdistinct

/-- The records of a model are those of its objects. -/
theorem stages_of_compile (h : (c.compile name values ids drawn).1 = .ok (.create m))
    {given : List Visit} (met : List.Forall₂ Tour.Met given m.visits)
    (staged : m.staged = stagedRecords c m.visits) (model : String) (info : ModelInfo)
    (hinfo : c.model model = .ok info) :
    List.Forall₂ (Stages c given info) ((m.reached c).filter (·.model == model))
      ((Entries.get? m.staged model).getD []) := by
  obtain ⟨t, ht, -, rfl⟩ := mem_of_model (congrArg Catalog.models (eq_of_ofDocument hc)) hinfo
  have visited : ∀ v ∈ m.visits.filter (·.model == model),
      v.model = model ∧ ∃ w ∈ given, Tour.Met w v := by
    intro v hv
    obtain ⟨hv, hmodel⟩ := List.mem_filter.1 hv
    exact ⟨beq_iff_eq.1 hmodel, exists_met met v hv⟩
  have settles : List.Forall₂ c.Settles (m.visits.filter (·.model == model))
      ((m.reached c).filter (·.model == model)) := by
    refine List.rel_filter (fun v final settles => ?_) (settles_of_compile h)
    show (v.model == model) = true ↔ (final.model == model) = true
    rw [settles.model]
  rw [staged, get?_stagedRecords, List.forall₂_map_right_iff]
  refine (((List.forall₂_and_left _ _).2 ⟨visited, settles⟩).imp ?_).flip
  intro v final hfinal
  obtain ⟨⟨rfl, w, hw, met⟩, settle⟩ := hfinal
  exact settle.stages (hdistinct t ht) hw met hinfo

variable (keyed : (Json.object values).WellKeyed)
include keyed

/-- What compiles is complete. -/
theorem completes (h : (c.compile name values ids drawn).1 = .ok (.create m)) :
    ∃ info data, c.mutation name = .ok info ∧ dataArguments values = .ok data ∧
      m.model = info.model ∧ m.Completes c ids drawn data := by
  obtain ⟨info, data, t, hinfo, hdata, hmodel, hvisits, hstaged, serves⟩ := serves_of_compile keyed h
  obtain ⟨noted, hnoted, met⟩ := serves.visits
  rw [← hvisits, List.nil_append] at hnoted
  subst hnoted
  have addresses : (visitsOf (c.events (maxNesting + 1) [] m.model data)).map Visit.address =
      m.visits.map Visit.address := by
    rw [← List.forall₂_eq_eq_eq, List.forall₂_map_left_iff, List.forall₂_map_right_iff]
    exact met.imp fun _ _ met => met.address.symm
  obtain ⟨supplied, arguments⟩ :=
    serves.exact (by rw [addresses]; exact nodup_addresses_of_compile keyed h)
  rw [← hvisits] at hstaged
  refine ⟨info, data, hinfo, hdata, hmodel, supplied, arguments, ?_, ?_,
    stages_of_compile hc hdistinct h met hstaged⟩
  · rintro rfl
    rw [arguments]
    exact c.endow_none (maxNesting + 1) [] m.model data
  · rw [hstaged, keys_stagedRecords]
    exact congrArg List.eraseDups (visits_of_compile (fun _ _ _ _ _ _ _ => rfl) h)

/-- **What a create mutation carries.** What compiles is complete, and nothing compiles if
a newcomer cannot have its id. -/
theorem completes_of_compile :
    (∀ m, (c.compile name values ids drawn).1 = .ok (.create m) →
      ∃ info data, c.mutation name = .ok info ∧ dataArguments values = .ok data ∧
        m.model = info.model ∧ m.Completes c ids drawn data) ∧
    ∀ info data g i e, c.isGenerated name → c.mutation name = .ok info → info.action = .create →
      dataArguments values = .ok data → ids = some g →
      i < (c.newcomers info.model data).length → g.next (drawn + i) = .error e →
      ∃ f, (c.compile name values ids drawn).1 = .error f := by
  refine ⟨fun m h => completes hc hdistinct keyed h, ?_⟩
  intro info data g i e hname hinfo haction hdata hids hi hnext
  have outcome : (c.compile name values ids drawn).1 =
      ((c.compileRoot name info data ids).run.run { drawn }).1.map CompiledMutation.create :=
    compile_of_data hname hinfo haction hdata
  cases hrun : ((c.compileRoot name info data ids).run.run { drawn }).1 with
  | error f => exact ⟨f, by rw [outcome, hrun]; rfl⟩
  | ok m =>
    have h : (c.compile name values ids drawn).1 = .ok (.create m) := by
      rw [outcome, hrun]
      rfl
    obtain ⟨info', data', hinfo', hdata', hmodel, complete⟩ := completes hc hdistinct keyed h
    cases hinfo.symm.trans hinfo'
    cases hdata.symm.trans hdata'
    rw [← hmodel] at hi
    obtain ⟨id, hid⟩ := complete.supplied g hids i hi
    cases hnext.symm.trans hid

end

theorem completes_of_compile_friends :
    (∃ m : CompiledCreate, (friendsCatalog.compile "createPerson" friendsValues
        (some (.counting "n" none)) 0).1 = .ok (.create m) ∧ m.visits.length = 4 ∧
      ∃ data, dataArguments friendsValues = .ok data ∧
        m.Completes friendsCatalog (some (.counting "n" none)) 0 data) ∧
    ∃ f, (friendsCatalog.compile "createPerson" friendsValues
      (some (.counting "n" (some 2))) 0).1 = .error f := by
  have hc : ofDocument friends = .ok friendsCatalog := rfl
  have distinct : ∀ t ∈ friends.models, (t.fields.map Field.name).Nodup := by decide
  have keyed : (Json.object friendsValues).WellKeyed := by decide
  refine ⟨?_, ?_⟩
  · have compiled : ∃ m : CompiledCreate, (friendsCatalog.compile "createPerson" friendsValues
        (some (.counting "n" none)) 0).1 = .ok (.create m) ∧ m.visits.length = 4 := ⟨_, rfl, rfl⟩
    obtain ⟨m, h, visits⟩ := compiled
    obtain ⟨-, data, -, hdata, -, complete⟩ := (completes_of_compile hc distinct keyed).1 m h
    exact ⟨m, h, visits, data, hdata, complete⟩
  · -- Of three newcomers the last finds no id.
    exact (completes_of_compile hc distinct keyed).2 _ _ _ 2 _ rfl rfl rfl rfl rfl (by decide) rfl

end Catalog

/-! ### A model with `id` for a relation -/

/-- The records are the unique properties of the objects in the final arguments, all of
them. -/
def CompiledCreate.StagesFinal (c : Catalog) (m : CompiledCreate) : Prop :=
  Entries.keys m.staged = ((m.reached c).map Visit.model).eraseDups ∧
    ∀ model info, c.model model = .ok info → (Entries.get? m.staged model).getD [] =
      ((m.reached c).filter (·.model == model)).map fun v => stagedRecord info.unique v.arguments

/-- A model whose `id` leads to another object of that model. -/
def selfNamed : Document :=
  [.type (.object {
    name := "A"
    directives := [Directive.bare Names.model]
    fields := [
      { name := "id", type := .named "A"
        directives := [⟨Names.relation, [("name", .string "R"), ("direction", .enum "OUT")]⟩] }] }),
   .type (.object {
    name := Names.mutation
    fields := [
      { name := "createA", type := .named "A", directives := [Directive.bare Names.binding] }] })]

/-- An object with a new object for its `id`. -/
def selfNamedValues : Json.Object :=
  [("data", .object [("id", .object [("create", .object [])])])]

theorem not_stagesFinal_selfNamed : ∃ c m, Catalog.ofDocument selfNamed = .ok c ∧
    (∀ t ∈ selfNamed.models, (t.fields.map Field.name).Nodup) ∧
    (Json.object selfNamedValues).WellKeyed ∧
    (c.compile "createA" selfNamedValues (some (.counting "n" none)) 0).1 = .ok (.create m) ∧
    ¬ m.StagesFinal c := by
  refine ⟨_, _, rfl, by decide, by decide, rfl, fun h => ?_⟩
  -- The record of the root was made before the object under its `id` had an id of its own.
  let inner (records : List Json) : Bool :=
    ((records.head?.bind (Json.get? · "id")).bind (Json.get? · "create")).any
      fun created => (created.get? "id").isSome
  have same := congrArg inner (h.2 "A" _ rfl)
  exact absurd same (by decide)

end GraphqlCypher
