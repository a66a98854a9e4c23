import GraphqlCypher.Proofs.Mutation.Gathered
import GraphqlCypher.Proofs.Mutation.Shaped
import GraphqlCypher.Proofs.Mutation.Staged

/-! Where the objects of a mutation are in its result.

An object keeps its field and its number, but what was connected stands behind what was
created (`Json.counterpart?`). Two things leave no place for what is nested in an object: it
was connected and its first key finds a record, which has no relations; or it blends a single
new element with others. What is nested in no such object stays (`Persisted.Stays`), and
then what stands at its place is what it is reconciled to.

**Main result.** `counterparts_of_compile`: a compiled mutation has a result for flat records,
and in it all that stays. -/
namespace GraphqlCypher

open Schema Catalog

/-! ### Places in a result -/

/-- The value of a result that stands for the one at a place in the arguments. -/
def Json.counterpart? : Json → Json → List ElementPlace → Option Json
  | _, result, [] => some result
  | arguments, result, p :: rest => do
    let nested ← (arguments.get? p.field).bind asObject?
    let supply ← p.action.given? nested
    let element ← supply.elements[p.index]?
    let gathered ← result.get? p.field
    let counterpart ← gathered.elements[Persisted.numberBefore nested p.action + p.index]?
    counterpart? element counterpart rest

/-- What is done with the object at an address: the root is created. -/
def actionAt (address : List Pick) : NestedAction :=
  (address.getLast?.map fun p => p.step.action).getD .create

theorem actionAt_append (address : List Pick) (p : Pick) :
    actionAt (address ++ [p]) = p.step.action := by
  simp [actionAt]

namespace Persisted

variable {P : Persisted}

/-! ### What is replaced -/

/-- The first key of a connected object is a unique field, and finds a record by its value. -/
def FirstKeyFinds (P : Persisted) (model : String) (arguments record : Json.Object) : Prop :=
  ∃ info k v rest, P.catalog.model model = .ok info ∧ arguments = (k, v) :: rest ∧
    k ∈ info.unique ∧ P.IsLast model k v record

/-- A record stands in the place of a visited object. -/
def Replaced (P : Persisted) (v : Visit) : Prop :=
  actionAt v.address = .connect ∧ ∃ record, P.FirstKeyFinds v.model v.arguments record

theorem mem_unique_of_find? {model field : String} {info : ModelInfo} {v : Json}
    {record : Json.Object} (hinfo : P.catalog.model model = .ok info)
    (h : P.find? model field v = some record) : field ∈ info.unique := by
  unfold find? at h
  rw [(Catalog.model_ok_iff _ _ _).1 hinfo] at h
  split at h
  · next hinfo =>
    cases hinfo
    split at h
    · next hunique => exact List.contains_iff_mem.1 hunique
    · cases h
  · cases h

theorem connected_of_firstKeyFinds {model : String} {arguments record : Json.Object}
    (h : P.FirstKeyFinds model arguments record) :
    P.connected model arguments = record ∧ record ∈ P.records model := by
  obtain ⟨info, k, v, rest, hinfo, rfl, unique, last⟩ := h
  have found := (find?_eq_some_iff hinfo unique).2 last
  refine ⟨?_, mem_records_of_find? found⟩
  unfold connected
  simp only [List.head?_cons, Option.bind_some, found]

theorem connected_of_not_firstKeyFinds {model : String} {info : ModelInfo}
    {arguments : Json.Object} (hinfo : P.catalog.model model = .ok info)
    (h : ∀ record, ¬ P.FirstKeyFinds model arguments record) :
    P.connected model arguments = arguments := by
  unfold connected
  split
  · next record hrecord =>
    obtain ⟨⟨k, v⟩, hhead, found⟩ := Option.bind_eq_some_iff.1 hrecord
    obtain ⟨rest, rfl⟩ := List.head?_eq_some_iff.1 hhead
    have unique := mem_unique_of_find? hinfo found
    exact absurd ⟨info, k, v, rest, hinfo, rfl, unique, (find?_eq_some_iff hinfo unique).1 found⟩
      (h record)
  · rfl

/-- A flat record is reconciled to itself. -/
theorem eq_of_firstKeyFinds (flat : P.Flat) {model : String}
    {arguments record out : Json.Object} (found : P.FirstKeyFinds model arguments record)
    (h : P.Reconciles model .connect arguments out) : out = record := by
  obtain ⟨info, _, _, _, hinfo, -⟩ := id found
  obtain ⟨hconnected, hrecord⟩ := connected_of_firstKeyFinds found
  have itself : P.resolve 1 model (P.found model .connect arguments) = .ok record := by
    change P.relations (P.resolve 0) model (P.connected model arguments) = .ok record
    unfold relations
    rw [hinfo, hconnected]
    show info.relations.foldlM (P.relation (P.resolve 0)) record = .ok record
    have absent : ∀ entry ∈ info.relations, P.relation (P.resolve 0) record entry = .ok record := by
      intro entry hentry
      obtain ⟨field, related⟩ := entry
      rw [relation_eq, get?_record_relation flat hinfo (List.mem_map_of_mem hentry) hrecord]
      rfl
    generalize info.relations = relations at absent
    induction relations with
    | nil => rfl
    | cons entry rest ih =>
      rw [List.foldlM_cons, absent entry List.mem_cons_self]
      exact ih fun e he => absent e (List.mem_cons_of_mem _ he)
  exact h.unique ⟨1, itself⟩

/-! ### What stays -/

/-- An object lets an element of its through to the result. -/
structure Passes (P : Persisted) (owner : Visit) (p : Pick) : Prop where
  kept : ¬ P.Replaced owner
  apart : ∀ nested, Entries.get? owner.arguments p.step.field = some (.object nested) →
    ¬ Blends nested

/-- A visited object is in the result: all objects that it is nested in let it through. -/
def Stays (P : Persisted) (visits : List Visit) (v : Visit) : Prop :=
  ∀ owner ∈ visits, ∀ p rest, v.address = owner.address ++ p :: rest → P.Passes owner p

section

variable (regular : P.catalog.Regular) (flat : P.Flat)
  (persisted : (Json.object P.byModel).WellKeyed)
include regular flat persisted

/-- A relation of an object that was not replaced gathers what it supplies. -/
theorem exists_gathers {v : Visit} {info : ModelInfo} {out nested : Json.Object}
    {field related : String} (hinfo : P.catalog.model v.model = .ok info)
    (h : P.Reconciles v.model (actionAt v.address) v.arguments out) (kept : ¬ P.Replaced v)
    (hrelation : (field, related) ∈ info.relations)
    (hnested : Entries.get? v.arguments field = some (.object nested))
    (supplied : ∃ a : NestedAction, a.given? nested ≠ none) (apart : ¬ Blends nested) :
    ∃ x, Entries.get? out field = some x ∧ P.Gathers related nested x := by
  obtain ⟨depth, settles⟩ := h.settles regular hinfo
  have found : Entries.get? (P.found v.model (actionAt v.address) v.arguments) field =
      some (.object nested) := by
    rw [← hnested]
    cases haction : actionAt v.address with
    | create => exact get?_created_relation flat hinfo (List.mem_map_of_mem hrelation) persisted _
    | connect =>
      have none : ∀ record, ¬ P.FirstKeyFinds v.model v.arguments record :=
        fun record h => kept ⟨haction, record, h⟩
      exact congrArg (Entries.get? · field) (connected_of_not_firstKeyFinds hinfo none)
  have settled := settles.settled field related hrelation
  rw [found] at settled
  obtain ⟨x, hx, gathers⟩ := gathers_of_settled settled supplied apart
  exact ⟨x, hx, gathers⟩

/-- What an object lets through is reconciled, and stands at its place. -/
theorem exists_passed {v : Visit} {info : ModelInfo} {out o : Json.Object} {step : Step}
    {supply : Json} {i : Nat} (hinfo : P.catalog.model v.model = .ok info)
    (distinct : (Entries.keys v.arguments).Nodup)
    (h : P.Reconciles v.model (actionAt v.address) v.arguments out)
    (hbranch : (step, supply) ∈ info.branches v.arguments)
    (hi : supply.elements[i]? = some (.object o)) (passes : P.Passes v ⟨step, i⟩) :
    ∃ r, P.Reconciles step.related step.action o r ∧ ∀ rest,
      (Json.object v.arguments).counterpart? (.object out) (Pick.place ⟨step, i⟩ :: rest) =
        (Json.object o).counterpart? (.object r) rest := by
  obtain ⟨hrelated, nested, hmem, hgiven⟩ := ModelInfo.mem_branches_iff.1 hbranch
  have hnested := Entries.get?_of_mem distinct hmem
  obtain ⟨x, hx, gathers⟩ := exists_gathers regular flat persisted hinfo h passes.kept
    (Entries.mem_of_get? hrelated) hnested ⟨step.action, by simp [hgiven]⟩
    (passes.apart nested hnested)
  obtain ⟨r, hr, reconciles⟩ := gathers.element hgiven hi
  refine ⟨r, reconciles, fun rest => ?_⟩
  rw [Json.counterpart?]
  simp only [Pick.place, Json.get?, hnested, Json.asObject?, hgiven, hi, hx, hr,
    Option.bind_eq_bind, Option.bind_some]

/-- **What stays stands at its place**, reconciled. -/
theorem exists_counterpart {levels : Nat} :
    ∀ {address : List Pick} {model : String} {arguments out : Json.Object},
      P.catalog.Tidy levels model arguments →
      P.Reconciles model (actionAt address) arguments out →
      ∀ v ∈ visitsOf (P.catalog.events levels address model arguments),
        P.Stays (visitsOf (P.catalog.events levels address model arguments)) v →
        ∃ rest r, v.address = address ++ rest ∧
          (Json.object arguments).counterpart? (.object out) (rest.map Pick.place) =
            some (.object r) ∧
          P.Reconciles v.model (actionAt v.address) v.arguments r := by
  induction levels with
  | zero => exact fun tidy => tidy.elim
  | succ levels ih =>
    intro address model arguments out tidy h v hv stays
    obtain ⟨distinct, info, hinfo, branches⟩ := tidy
    have root : ⟨address, model, arguments⟩ ∈
        visitsOf (P.catalog.events (levels + 1) address model arguments) :=
      mem_visitsOf.2 (mem_events_iff.2 ⟨info, hinfo, .inl rfl⟩)
    obtain ⟨info', hinfo', heq | ⟨step, supply, hbranch, heq | ⟨o, i, ho, he⟩⟩⟩ :=
      mem_events_iff.1 (mem_visitsOf.1 hv)
    · cases heq
      exact ⟨[], out, (List.append_nil _).symm, rfl, h⟩
    · cases heq
    · cases hinfo.symm.trans hinfo'
      have hi := List.mk_mem_zipIdx_iff_getElem?.1 ho
      obtain ⟨o', heq, tidy⟩ := branches step supply hbranch _ (List.mem_of_getElem? hi)
      cases heq
      have below : ∀ w ∈ visitsOf (P.catalog.events levels (address ++ [⟨step, i⟩]) step.related o),
          w ∈ visitsOf (P.catalog.events (levels + 1) address model arguments) := fun w hw =>
        mem_visitsOf.2 (mem_events_iff.2
          ⟨info, hinfo, .inr ⟨step, supply, hbranch, .inr ⟨o, i, ho, mem_visitsOf.1 hw⟩⟩⟩)
      have hv' := mem_visitsOf.2 he
      obtain ⟨deeper, hdeeper⟩ := address_of_mem_visitsOf hv'
      have passes : P.Passes ⟨address, model, arguments⟩ ⟨step, i⟩ :=
        stays _ root ⟨step, i⟩ deeper (by rw [← hdeeper, List.append_assoc]; rfl)
      obtain ⟨r, reconciles, hplace⟩ := exists_passed regular flat persisted
        (v := ⟨address, model, arguments⟩) hinfo distinct h hbranch hi passes
      rw [← actionAt_append address ⟨step, i⟩] at reconciles
      obtain ⟨rest, r', hrest, hr', final⟩ := ih tidy reconciles v hv'
        fun owner howner => stays owner (below owner howner)
      refine ⟨⟨step, i⟩ :: rest, r', by rw [hrest, List.append_assoc]; rfl, ?_, final⟩
      rw [List.map_cons, hplace, hr']

end

/-! ### What is compiled -/

/-- **A compiled mutation has a result, and in it all that stays.** -/
theorem counterparts_of_compile {d : Document} {name : String} {values : Json.Object}
    {ids : Option IdGenerator} {drawn : Nat} {m : CompiledCreate}
    (hc : ofDocument d = .ok P.catalog) (keyed : (Json.object values).WellKeyed)
    (h : (P.catalog.compile name values ids drawn).1 = .ok (.create m))
    (persisted : (Json.object P.byModel).WellKeyed) (flat : P.Flat) :
    ∃ result, P.catalog.reconcile m.model m.arguments (.object P.byModel) = .ok (.object result) ∧
      ∀ v ∈ m.reached P.catalog, P.Stays (m.reached P.catalog) v →
        ∃ r, (Json.object m.arguments).counterpart? (.object result) v.place = some (.object r) ∧
          P.Reconciles v.model (actionAt v.address) v.arguments r := by
  have regular := regular_ofDocument hc
  have tidy := tidy_of_compile keyed h
  obtain ⟨result, hresult⟩ := exists_reconcile_of_tidy regular tidy persisted flat
  refine ⟨result, hresult, fun v hv stays => ?_⟩
  obtain ⟨_, hresolve, heq⟩ := ok_of_map hresult
  cases heq
  obtain ⟨rest, r, hrest, hr, reconciles⟩ := exists_counterpart regular flat persisted
    tidy ⟨_, hresolve⟩ v hv stays
  rw [List.nil_append] at hrest
  exact ⟨r, by rw [Visit.place, hrest]; exact hr, reconciles⟩

end Persisted

end GraphqlCypher
