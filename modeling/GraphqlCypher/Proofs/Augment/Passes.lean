import GraphqlCypher.Proofs.Augment.Edits
import GraphqlCypher.Proofs.Traversal

/-! The passes of an augmentation, one by one.

Scaffolding is settled by what it leaves (`Scaffolded`), and edits of object types
and added types keep it so. Normalizing and extending are edits in place
(`eq_editObjects_of_normalize`, `extend_eq`), so none of the passes changes the
index of types. -/
namespace GraphqlCypher.Schema

namespace Document

theorem hasObject_iff {d : Document} {name : String} :
    d.hasObject name = true ↔ ∃ i t, d.objectAt? i = some t ∧ t.name = name := by
  simp only [hasObject, List.any_eq_true, objects, List.mem_filterMap, beq_iff_eq]
  constructor
  · intro h
    obtain ⟨t, ⟨x, hx, ht⟩, hname⟩ := h
    obtain ⟨i, hi⟩ := List.mem_iff_getElem?.1 hx
    exact ⟨i, t, by rw [objectAt?, hi]; exact ht, hname⟩
  · intro h
    obtain ⟨i, t, ht, hname⟩ := h
    obtain ⟨x, hx, hxt⟩ := Option.bind_eq_some_iff.1 ht
    exact ⟨t, ⟨x, List.mem_of_getElem? hx, hxt⟩, hname⟩

theorem editObjects_cons (f : Nat → ObjectType → ObjectType) (x : Definition) (d : Document) :
    editObjects f (x :: d) = x.mapObject (f 0) :: editObjects (fun i => f (i + 1)) d := by
  simp only [editObjects, List.mapIdx_cons]

/-! ### Scaffolding -/

variable {o : AugmentOptions}

/-- Nothing is missing that the options ask for. -/
structure Scaffolded (o : AugmentOptions) (d : Document) : Prop where
  complete : completeRoots o d = d
  roots : (o.query || o.mutation) = true → d.hasRoots = true
  query : o.query = true → d.hasObject Names.query = true
  mutation : o.mutation = true → d.hasObject Names.mutation = true

theorem hasRoots_completeRoots (d : Document) : (completeRoots o d).hasRoots = d.hasRoots := by
  fun_induction completeRoots o d with
  | case1 => rfl
  | case2 r rest => rfl
  | case3 other rest h ih =>
    simp only [hasRoots, List.any_cons] at ih ⊢
    rw [ih]

theorem object?_completeRoots (d : Document) :
    (completeRoots o d).map Definition.object? = d.map Definition.object? := by
  fun_induction completeRoots o d with
  | case1 => rfl
  | case2 r rest => rfl
  | case3 other rest h ih => rw [List.map_cons, List.map_cons, ih]

theorem completeRoots_completeRoots (d : Document) :
    completeRoots o (completeRoots o d) = completeRoots o d := by
  fun_induction completeRoots o d with
  | case1 => rfl
  | case2 r rest => rw [completeRoots, r.complete_idem]
  | case3 other rest h ih => rw [completeRoots, ih]; exact h

theorem completeRoots_append (d e : Document) (he : e.hasRoots = false) :
    completeRoots o (d ++ e) = completeRoots o d ++ e := by
  fun_induction completeRoots o d with
  | case1 =>
    fun_induction completeRoots o e with
    | case1 => rfl
    | case2 r rest => cases he
    | case3 other rest h ih =>
      simp only [hasRoots, List.any_cons, Bool.or_eq_false_iff] at he
      exact congrArg _ (ih he.2)
  | case2 r rest => rfl
  | case3 other rest h ih =>
    rw [List.cons_append, completeRoots, ih, List.cons_append]
    exact h

theorem completeRoots_editObjects (f : Nat → ObjectType → ObjectType) (d : Document) :
    completeRoots o (d.editObjects f) = (completeRoots o d).editObjects f := by
  induction d generalizing f with
  | nil => rfl
  | cons x rest ih =>
    cases x with
    | roots r => simp only [editObjects_cons, completeRoots, Definition.mapObject]
    | type t => cases t <;> simp only [editObjects_cons, completeRoots, Definition.mapObject, ih]
    | extension t => simp only [editObjects_cons, completeRoots, Definition.mapObject, ih]
    | directive r => simp only [editObjects_cons, completeRoots, Definition.mapObject, ih]

theorem hasRoots_editObjects (f : Nat → ObjectType → ObjectType) (d : Document) :
    (d.editObjects f).hasRoots = d.hasRoots := by
  induction d generalizing f with
  | nil => rfl
  | cons x rest ih =>
    have hrest := ih fun i => f (i + 1)
    simp only [hasRoots] at hrest
    simp only [editObjects_cons, hasRoots, List.any_cons, hrest]
    congr 1
    rcases x.object_cases with h | ⟨t, rfl⟩
    · rw [Definition.mapObject_of_none _ h]
    · rfl

theorem hasObject_editObjects {f : Nat → ObjectType → ObjectType}
    (hname : ∀ i t, (f i t).name = t.name) {d : Document} {name : String}
    (h : d.hasObject name = true) : (d.editObjects f).hasObject name = true := by
  obtain ⟨i, t, ht, rfl⟩ := hasObject_iff.1 h
  exact hasObject_iff.2 ⟨i, f i t, by rw [objectAt?_editObjects, ht]; rfl, hname i t⟩

theorem hasObject_append {d : Document} (e : Document) {name : String}
    (h : d.hasObject name = true) : (d ++ e).hasObject name = true := by
  obtain ⟨i, t, ht, hname⟩ := hasObject_iff.1 h
  exact hasObject_iff.2 ⟨i, t, objectAt?_append_left e ht, hname⟩

theorem hasRoots_append {d : Document} (e : Document) (h : d.hasRoots = true) :
    (d ++ e).hasRoots = true := by
  simp only [hasRoots, List.any_append, Bool.or_eq_true] at h ⊢
  exact .inl h

theorem Scaffolded.editObjects {f : Nat → ObjectType → ObjectType}
    (hname : ∀ i t, (f i t).name = t.name) {d : Document} (h : Scaffolded o d) :
    Scaffolded o (d.editObjects f) where
  complete := by rw [completeRoots_editObjects, h.complete]
  roots ho := by rw [hasRoots_editObjects]; exact h.roots ho
  query ho := hasObject_editObjects hname (h.query ho)
  mutation ho := hasObject_editObjects hname (h.mutation ho)

theorem Scaffolded.append {d e : Document} (he : e.hasRoots = false) (h : Scaffolded o d) :
    Scaffolded o (d ++ e) where
  complete := by rw [completeRoots_append d e he, h.complete]
  roots ho := hasRoots_append e (h.roots ho)
  query ho := hasObject_append e (h.query ho)
  mutation ho := hasObject_append e (h.mutation ho)

/-- Scaffolding what is scaffolded adds nothing. -/
theorem scaffold_eq_self {d : Document} (h : Scaffolded o d) : d.scaffold o = d := by
  have hroots : d.withRoots o = d := by
    unfold withRoots
    by_cases hd : d.hasRoots = true
    · rw [if_pos hd, h.complete]
    · rw [if_neg hd, if_neg fun ho => hd (h.roots ho)]
  have hobject : ∀ (enabled : Bool) (name : String),
      (enabled = true → d.hasObject name = true) → d.withObject enabled name = d := by
    intro enabled name hn
    unfold withObject
    cases enabled with
    | false => rfl
    | true => simp only [hn rfl, Bool.not_true, Bool.and_false, Bool.false_eq_true, if_false]
  rw [scaffold, hroots, hobject _ _ h.query, hobject _ _ h.mutation]

theorem completeRoots_append_of_none (d e : Document) (hd : d.hasRoots = false) :
    completeRoots o (d ++ e) = d ++ completeRoots o e := by
  fun_induction completeRoots o d with
  | case1 => rfl
  | case2 r rest => cases hd
  | case3 other rest h ih =>
    simp only [hasRoots, List.any_cons, Bool.or_eq_false_iff] at hd
    rw [List.cons_append, completeRoots, ih hd.2, List.cons_append]
    exact h

theorem completeRoots_withRoots (d : Document) :
    completeRoots o (d.withRoots o) = d.withRoots o := by
  unfold withRoots
  split
  · exact completeRoots_completeRoots d
  · next hd =>
    have hnone : d.hasRoots = false := by simpa using hd
    split
    · rw [completeRoots_append_of_none d _ hnone, completeRoots, Roots.complete_idem]
    · simpa only [completeRoots, List.append_nil] using
        completeRoots_append_of_none (o := o) d [] hnone

theorem hasRoots_withRoots (d : Document) (ho : (o.query || o.mutation) = true) :
    (d.withRoots o).hasRoots = true := by
  unfold withRoots
  rw [if_pos ho]
  split
  · next hd => rw [hasRoots_completeRoots, hd]
  · simp [hasRoots]

theorem withObject_eq_append (enabled : Bool) (name : String) (d : Document) :
    ∃ e : Document, d.withObject enabled name = d ++ e ∧ e.hasRoots = false ∧
      ∀ t ∈ e.objects, t = { name } := by
  unfold withObject
  split
  · refine ⟨[.type (.object { name })], rfl, rfl, fun t ht => ?_⟩
    simpa [objects, Definition.object?] using ht
  · exact ⟨[], (List.append_nil d).symm, rfl, fun t ht => absurd ht (List.not_mem_nil)⟩

theorem hasObject_withObject (enabled : Bool) (name : String) (d : Document)
    (h : enabled = true) : (d.withObject enabled name).hasObject name = true := by
  unfold withObject
  split
  · simp [hasObject, objects, Definition.object?]
  · next hd => simpa [h] using hd

theorem scaffolded_scaffold (o : AugmentOptions) (d : Document) : Scaffolded o (d.scaffold o) := by
  unfold scaffold
  generalize hq : (d.withRoots o).withObject o.query Names.query = q
  obtain ⟨e, he, hroots, -⟩ := withObject_eq_append o.query Names.query (d.withRoots o)
  obtain ⟨e', he', hroots', -⟩ := withObject_eq_append o.mutation Names.mutation q
  have hqe : q = d.withRoots o ++ e := hq.symm.trans he
  constructor
  · rw [he', completeRoots_append _ _ hroots', hqe, completeRoots_append _ _ hroots,
      completeRoots_withRoots]
  · intro ho
    rw [he', hqe]
    exact hasRoots_append e' (hasRoots_append e (hasRoots_withRoots d ho))
  · intro ho
    rw [he', ← hq]
    exact hasObject_append e' (hasObject_withObject o.query Names.query _ ho)
  · exact hasObject_withObject o.mutation Names.mutation q

end Document

namespace TypeIndex

theorem ofDocument_congr {d e : Document}
    (h : d.map Definition.object? = e.map Definition.object?) : ofDocument d = ofDocument e := by
  have hplaced : ∀ d : Document, d.placedObjects =
      (d.map Definition.object?).zipIdx.filterMap fun p => p.1.map (p.2, ·) := by
    intro d
    rw [List.zipIdx_map, List.filterMap_map]
    rfl
  unfold ofDocument
  rw [hplaced, h, ← hplaced]

theorem ofDocument_withObject (enabled : Bool) {name : String} (hroot : isRoot name = true)
    (d : Document) : ofDocument (d.withObject enabled name) = ofDocument d := by
  obtain ⟨e, he, -, hobjects⟩ := Document.withObject_eq_append enabled name d
  rw [he]
  refine ofDocument_append d fun t ht => ?_
  rw [hobjects t ht]
  exact ⟨rfl, hroot⟩

theorem ofDocument_withRoots (o : AugmentOptions) (d : Document) :
    ofDocument (d.withRoots o) = ofDocument d := by
  unfold Document.withRoots
  split
  · exact ofDocument_congr (Document.object?_completeRoots d)
  · split
    · exact ofDocument_append d fun t ht => absurd ht List.not_mem_nil
    · rfl

/-- Scaffolding adds neither models nor plain types. -/
theorem ofDocument_scaffold (o : AugmentOptions) (d : Document) :
    ofDocument (d.scaffold o) = ofDocument d := by
  unfold Document.scaffold
  rw [ofDocument_withObject o.mutation (by decide), ofDocument_withObject o.query (by decide),
    ofDocument_withRoots]

end TypeIndex

/-! ### Normalizing -/

namespace ObjectType

/-- The normal form of a model that has one. -/
def normalized (o : AugmentOptions) (t : ObjectType) : ObjectType :=
  match t.normalize o with
  | .ok t' => t'
  | .error _ => t

/-- What normalizing leaves: no lists of lists, and an accepted `id` in front where
it is asked for. -/
structure Normal (o : AugmentOptions) (t : ObjectType) : Prop where
  reduced : ∀ f ∈ t.fields, f.type.reduceNestedList = f.type
  identified : (o.remote || o.idFields) = true → ∃ f rest, t.fields = f :: rest ∧
    f.name = Names.id ∧ (acceptedIdFields o.remote).contains (Inline.field f) = true

theorem accepts_generatedIdField (remote : Bool) :
    (acceptedIdFields remote).contains (Inline.field (generatedIdField remote)) = true := by
  cases remote <;> rfl

/-- Only the fields change: an accepted `id` stands in front of fields that were
there. -/
theorem withIdInFront_ok {remote : Bool} {t t' : ObjectType} (h : t.withIdInFront remote = .ok t') :
    ∃ f rest, t' = { t with fields := f :: rest } ∧ f.name = Names.id ∧
      (acceptedIdFields remote).contains (Inline.field f) = true ∧
      (f ∈ t.fields ∨ f = generatedIdField remote) ∧ rest.Sublist t.fields := by
  unfold withIdInFront at h
  split at h
  · cases h
    exact ⟨_, _, rfl, rfl, accepts_generatedIdField remote, .inr rfl, List.Sublist.refl _⟩
  · next f hf =>
    split at h
    · next haccept =>
      cases h
      have hname : f.name = Names.id := by simpa using List.find?_some hf
      exact ⟨f, _, rfl, hname, haccept, .inl (List.mem_of_find?_eq_some hf),
        List.eraseP_sublist⟩
    · cases h

theorem withIdInFront_eq_self {remote : Bool} {t : ObjectType} {f : Field} {rest : List Field}
    (hfields : t.fields = f :: rest) (hname : f.name = Names.id)
    (haccept : (acceptedIdFields remote).contains (Inline.field f) = true) :
    t.withIdInFront remote = .ok t := by
  have hf : (f.name == Names.id) = true := beq_iff_eq.2 hname
  have hfind : t.fields.find? (·.name == Names.id) = some f := by
    rw [hfields]
    exact List.find?_cons_of_pos hf
  have herase : t.fields.eraseP (·.name == Names.id) = rest := by
    rw [hfields]
    exact List.eraseP_cons_of_pos hf
  simp only [withIdInFront, hfind, haccept, if_true, herase, ← hfields]

theorem normalize_eq_self {o : AugmentOptions} {t : ObjectType} (h : t.Normal o) :
    t.normalize o = .ok t := by
  have hreduce : t.reduceNestedLists = t := by
    have hfields : t.fields.map (fun f => { f with type := f.type.reduceNestedList }) = t.fields :=
      (List.map_congr_left fun f hf => by rw [h.reduced f hf]; rfl).trans (List.map_id _)
    simp only [reduceNestedLists, hfields]
  rw [normalize, hreduce]
  split
  · next ho =>
    obtain ⟨f, rest, hfields, hname, haccept⟩ := h.identified ho
    exact withIdInFront_eq_self hfields hname haccept
  · rfl

theorem reduced_reduceNestedLists (t : ObjectType) :
    ∀ f ∈ t.reduceNestedLists.fields, f.type.reduceNestedList = f.type := by
  intro f hf
  obtain ⟨g, -, rfl⟩ := List.mem_map.1 hf
  exact g.type.reduceNestedList_idem

/-- Normalizing changes the fields only, and leaves a model in normal form. -/
theorem normalize_ok {o : AugmentOptions} {t t' : ObjectType} (h : t.normalize o = .ok t') :
    (∃ fields, t' = { t with fields }) ∧ t'.Normal o := by
  rw [normalize] at h
  split at h
  · obtain ⟨f, rest, rfl, hname, haccept, hf, hrest⟩ := withIdInFront_ok h
    refine ⟨⟨_, rfl⟩, fun g hg => ?_, fun _ => ⟨f, rest, rfl, hname, haccept⟩⟩
    rcases List.mem_cons.1 hg with rfl | hg
    · rcases hf with hf | rfl
      · exact t.reduced_reduceNestedLists g hf
      · rfl
    · exact t.reduced_reduceNestedLists g (hrest.mem hg)
  · next ho =>
    cases h
    exact ⟨⟨_, rfl⟩, t.reduced_reduceNestedLists, fun ho' => absurd ho' ho⟩

end ObjectType

/-- What normalizing makes of an object type. -/
def ObjectType.settled (o : AugmentOptions) (t : ObjectType) : ObjectType :=
  if t.isModel then t.normalized o else t

/-- Normalizing changes nothing but fields. -/
theorem ObjectType.settled_eq (o : AugmentOptions) (t : ObjectType) :
    ∃ fields, t.settled o = { t with fields } := by
  unfold settled normalized
  split
  · split
    · next t' h => exact (normalize_ok h).1
    · exact ⟨t.fields, rfl⟩
  · exact ⟨t.fields, rfl⟩

theorem Definition.normalize_eq {o : AugmentOptions} {x y : Definition}
    (h : x.normalize o = .ok y) : y = x.mapObject (ObjectType.settled o) := by
  rcases x.object_cases with hx | ⟨t, rfl⟩
  · rw [mapObject_of_none _ hx]
    unfold normalize at h
    split at h
    · cases hx
    · cases h; rfl
  · simp only [normalize] at h
    simp only [mapObject, ObjectType.settled]
    split at h
    · next hm =>
      rw [if_pos hm, ObjectType.normalized]
      cases ht : t.normalize o with
      | error e => rw [ht] at h; cases h
      | ok t' => rw [ht] at h; cases h; rfl
    · next hm => cases h; rw [if_neg hm]

namespace Document

/-- Normalizing is an edit in place. -/
theorem eq_editObjects_of_normalize {o : AugmentOptions} {d d' : Document}
    (h : d.normalize o = .ok d') : d' = d.editObjects fun _ => ObjectType.settled o := by
  rw [mapM_eq_map_of_ok (fun _ _ => Definition.normalize_eq) h]
  apply List.ext_getElem?
  intro i
  rw [List.getElem?_map, getElem?_editObjects]

end Document

end GraphqlCypher.Schema
