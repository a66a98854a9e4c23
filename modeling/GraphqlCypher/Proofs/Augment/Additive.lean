import GraphqlCypher.Proofs.Augment.Inputs
import GraphqlCypher.Proofs.Augment.Places

/-! An augmentation only adds.

`Growth` lists what an augmentation has to add, and `Document.GrowsBy` says where it goes.
Every definition stays in its place. The first schema definition may gain entries for
the roots, a model keeps its fields and takes new arguments on those that lead to models,
and the last object types with the names of the roots gain fields at their ends; nothing
else is changed. Behind what was declared stand the roots that were missing, and behind
those the generated types. **Main result:** `augment_additive`. -/
namespace GraphqlCypher.Schema

/-! ### What is added -/

/-- What an augmentation adds to a document. -/
structure Growth where
  /-- The arguments of a field that leads to a model, by the model and for a list or not. -/
  arguments : String → Bool → List InputValue
  queries : List Field
  mutations : List Field
  types : List TypeDefinition

/-- An entry for a root stays as it is; one that is missing is made for an enabled root. -/
def EntryCompletes (enabled : Bool) (root : String) : Option String → Option String → Prop
  | some name, entry => entry = some name
  | none, entry => entry = if enabled then some root else none

/-- A schema definition gains the missing entries for the enabled roots. -/
structure Roots.Completes (o : AugmentOptions) (r r' : Roots) : Prop where
  directives : r'.directives = r.directives
  query : EntryCompletes o.query Names.query r.query r'.query
  mutation : EntryCompletes o.mutation Names.mutation r.mutation r'.mutation
  subscription : r'.subscription = r.subscription

/-- A field whose list of lists is reduced. -/
def Field.reduced (f : Field) : Field := { f with type := f.type.reduceNestedList }

/-- The first `id` field is moved in front of the others, or a new one is put there. -/
inductive IdInFront (remote : Bool) : List Field → List Field → Prop where
  | moved {before after : List Field} {f : Field} (first : ∀ g ∈ before, g.name ≠ Names.id)
      (hid : f.name = Names.id) : IdInFront remote (before ++ f :: after) (f :: (before ++ after))
  | put {fields : List Field} (missing : ∀ g ∈ fields, g.name ≠ Names.id) :
      IdInFront remote fields (generatedIdField remote :: fields)

namespace Document

/-- A field that leads to a model takes fresh arguments. -/
def withArguments (d : Document) (arguments : String → Bool → List InputValue) (f : Field) : Field :=
  if d.models.any (·.name == f.typeName) then
    { f with arguments := arguments f.typeName f.type.isList }
  else f

/-- The fields of a model after an augmentation. -/
structure ModelFields (o : AugmentOptions) (d : Document)
    (arguments : String → Bool → List InputValue) (fields grown : List Field) : Prop where
  arranged : ∃ ordered,
    (if o.remote || o.idFields then IdInFront o.remote (fields.map Field.reduced) ordered
      else ordered = fields.map Field.reduced) ∧
    grown = if o.remote then ordered else ordered.map (d.withArguments arguments) ++
      if fields.any Field.isInternalId then []
      else [{ name := Names.internalId, type := .named "Int" }]
  /-- None is lost, and none is there again. -/
  names : (grown.map Field.name).Perm (fields.map Field.name ++
    ((if (o.remote || o.idFields) && !fields.any (·.name == Names.id) then [Names.id] else []) ++
      if !o.remote && !fields.any Field.isInternalId then [Names.internalId] else []))

/-- No schema definition stands before a place. -/
def NoRootsBefore (d : Document) (i : Nat) : Prop := ∀ j r, j < i → d[j]? ≠ some (.roots r)

/-- The fields that the object type at a place gains: those of the root that it is. -/
structure Gains (d : Document) (G : Growth) (i : Nat) (gained : List Field) : Prop where
  query : d.IsLast i Names.query → gained = G.queries
  mutation : d.IsLast i Names.mutation → gained = G.mutations
  other : ¬ d.IsLast i Names.query → ¬ d.IsLast i Names.mutation → gained = []

/-- What becomes of the definition at a place. -/
inductive Keeps (o : AugmentOptions) (d : Document) (G : Growth) (i : Nat) :
    Definition → Definition → Prop where
  | roots {r r' : Roots} (first : d.NoRootsBefore i) (completes : r.Completes o r') :
      Keeps o d G i (.roots r) (.roots r')
  | model {t : ObjectType} {fields gained : List Field} (model : t.isModel = true)
      (kept : d.ModelFields o G.arguments t.fields fields) (gains : d.Gains G i gained) :
      Keeps o d G i (.type (.object t)) (.type (.object { t with fields := fields ++ gained }))
  | object {t : ObjectType} {gained : List Field} (plain : t.isModel = false)
      (gains : d.Gains G i gained) :
      Keeps o d G i (.type (.object t)) (.type (.object { t with fields := t.fields ++ gained }))
  | other {x : Definition} (noObject : x.object? = none)
      (later : ∀ r, x = .roots r → ¬ d.NoRootsBefore i) : Keeps o d G i x x

/-- A root type, if it is enabled and the document has no object type of its name. -/
def missingObject (enabled : Bool) (name : String) (fields : List Field) (d : Document) : Document :=
  if enabled && !d.hasObject name then [.type (.object { name, fields })] else []

/-- The roots that the options ask for and the document lacks. -/
def scaffolding (o : AugmentOptions) (queries mutations : List Field) (d : Document) : Document :=
  (if !d.hasRoots && (o.query || o.mutation) then
    [.roots {
      query := if o.query then some Names.query else none
      mutation := if o.mutation then some Names.mutation else none }]
    else []) ++
  (d.missingObject o.query Names.query queries ++
    d.missingObject o.mutation Names.mutation mutations)

/-- New fields for a root: no name is there twice, and none is one that the last object type
of the root's name declares. -/
structure FreshFor (d : Document) (root : String) (fields : List Field) : Prop where
  distinct : (fields.map Field.name).Nodup
  undeclared : ∀ i t, d.IsLast i root → d.objectAt? i = some t →
    ∀ f ∈ fields, f.name ∉ t.fields.map Field.name

/-- A document that is another one with additions. -/
structure GrowsBy (o : AugmentOptions) (d d' : Document) (G : Growth) : Prop where
  layout : ∃ kept : Document,
    d' = kept ++ d.scaffolding o G.queries G.mutations ++ G.types.map Definition.type ∧
      kept.length = d.length ∧
      ∀ i x, d[i]? = some x → ∃ y, kept[i]? = some y ∧ d.Keeps o G i x y
  queries : d.FreshFor Names.query G.queries
  mutations : d.FreshFor Names.mutation G.mutations
  inputsOrEnums : ∀ t ∈ G.types, (∃ i, t = .input i) ∨ ∃ e, t = .enum e
  distinct : (G.types.map TypeDefinition.name).Nodup
  undeclared : ∀ t ∈ G.types, t.name ∉ d.typeNames

end Document

/-! ### The fields of a model -/

theorem IdInFront.names_perm {remote : Bool} {fields ordered : List Field}
    (h : IdInFront remote fields ordered) :
    (ordered.map Field.name).Perm (fields.map Field.name ++
      if fields.any (·.name == Names.id) then [] else [Names.id]) := by
  cases h with
  | @moved before after f _ hid =>
    have hany : (before ++ f :: after).any (·.name == Names.id) = true :=
      List.any_eq_true.2 ⟨f, by simp, beq_iff_eq.2 hid⟩
    rw [hany, if_pos rfl, List.append_nil]
    exact (List.perm_middle.map Field.name).symm
  | put missing =>
    have hany : fields.any (·.name == Names.id) = false :=
      List.any_eq_false.2 fun g hg => by simpa using missing g hg
    rw [hany, if_neg (by decide)]
    exact (List.perm_append_singleton _ _).symm

namespace ObjectType

variable {o : AugmentOptions}

theorem idInFront_of_withIdInFront {remote : Bool} {t t' : ObjectType}
    (h : t.withIdInFront remote = .ok t') : IdInFront remote t.fields t'.fields := by
  unfold withIdInFront at h
  split at h
  · next hnone =>
    cases h
    exact .put fun g hg => by simpa using List.find?_eq_none.1 hnone g hg
  · next f hf =>
    split at h
    · cases h
      have hid : f.name = Names.id := by simpa using List.find?_some hf
      obtain ⟨before, after, hfields, herase, hbefore⟩ := exists_around_id hf
      rw [herase, hfields]
      exact .moved hbefore hid
    · cases h

/-- The fields of a model in normal form. -/
theorem arranged_of_normalize {t t' : ObjectType} (h : t.normalize o = .ok t') :
    if o.remote || o.idFields then IdInFront o.remote (t.fields.map Field.reduced) t'.fields
    else t'.fields = t.fields.map Field.reduced := by
  unfold normalize at h
  split at h
  · next ho =>
    rw [if_pos ho]
    exact idInFront_of_withIdInFront h
  · next ho =>
    rw [if_neg ho]
    cases h
    rfl

/-- Normalizing loses no field, and adds an `id` at most. -/
theorem names_perm_normalize {t t' : ObjectType} (h : t.normalize o = .ok t') :
    (t'.fields.map Field.name).Perm (t.fields.map Field.name ++
      if (o.remote || o.idFields) && !t.fields.any (·.name == Names.id) then [Names.id]
      else []) := by
  have harranged := arranged_of_normalize h
  have hnames : (t.fields.map Field.reduced).map Field.name = t.fields.map Field.name := by
    rw [List.map_map]
    rfl
  have hany : (t.fields.map Field.reduced).any (·.name == Names.id) =
      t.fields.any (·.name == Names.id) := by
    rw [List.any_map]
    rfl
  split at harranged
  · next ho =>
    have hperm := harranged.names_perm
    rw [hnames, hany] at hperm
    rw [ho, Bool.true_and]
    refine hperm.trans (List.Perm.of_eq (congrArg _ ?_))
    cases t.fields.any (·.name == Names.id) <;> rfl
  · next ho => simp [ho, harranged, hnames]

theorem any_isInternalId_normalize {t t' : ObjectType} (h : t.normalize o = .ok t') :
    t'.fields.any Field.isInternalId = t.fields.any Field.isInternalId := by
  have hany : ∀ fields : List Field,
      fields.any Field.isInternalId = (fields.map Field.name).any (· == Names.internalId) := by
    intro fields
    rw [List.any_map]
    rfl
  have hid : (if (o.remote || o.idFields) && !t.fields.any (·.name == Names.id) then [Names.id]
      else []).any (· == Names.internalId) = false := by
    split <;> decide
  rw [hany, (names_perm_normalize h).any_eq, List.any_append, hid, Bool.or_false, ← hany]

end ObjectType

namespace Scope

/-- The arguments of a field that leads to a model, whatever they were. -/
def freshArguments (S : Scope) (model : String) (isList : Bool) : List InputValue :=
  match S.model? model with
  | none => []
  | some related =>
    let filter := filterArgument (.list (.named (Names.filterType related.name)))
    let order := orderArgument related.name
    S.valueArguments related ++ if isList then [filter, order] ++ pageArguments else [order, filter]

end Scope

namespace Document.Prepares

variable {o : AugmentOptions} {d : Document} {S : Scope} (h : d.Prepares o S)
include h

theorem isSome_model? (name : String) : (S.model? name).isSome = d.models.any (·.name == name) := by
  rw [h.indexed.model?_eq, h.models_eq, List.isSome_find?, List.any_map]
  congr 1
  funext m
  rw [Function.comp_apply, m.normalized_name]

theorem rebuildField_eq (f : Field) : S.rebuildField f = d.withArguments S.freshArguments f := by
  have hmodel := h.isSome_model? f.typeName
  unfold Scope.rebuildField Scope.relationArguments? withArguments Scope.freshArguments
  cases hm : S.model? f.typeName with
  | none =>
    rw [hm] at hmodel
    rw [← hmodel]
    rfl
  | some related =>
    rw [hm] at hmodel
    rw [← hmodel]
    rfl

theorem names_remade (t : ObjectType) : (S.remade t).fields.map Field.name =
    t.fields.map Field.name ++
      if !o.remote && !t.fields.any Field.isInternalId then [Names.internalId] else [] := by
  have hrebuilt : ∀ f, (S.rebuildField f).name = f.name := by
    intro f
    obtain ⟨arguments, hf⟩ := S.rebuildField_eq f
    rw [hf]
  rw [Scope.remade, h.options]
  cases o.remote with
  | true => simp
  | false =>
    simp only [Bool.false_eq_true, if_false, Scope.rebuild, List.map_append, List.map_map,
      Function.comp_def, hrebuilt]
    cases t.fields.any Field.isInternalId <;> rfl

/-- Extending a model in normal form keeps its fields. -/
theorem modelFields {t : ObjectType} (ht : t ∈ d.models) :
    d.ModelFields o S.freshArguments t.fields (S.remade (t.normalized o)).fields := by
  have hnormal := h.normalize_ok ht
  have hinternal := ObjectType.any_isInternalId_normalize hnormal
  have hnames := ObjectType.names_perm_normalize hnormal
  have hrebuilt : (t.normalized o).fields.map S.rebuildField =
      (t.normalized o).fields.map (d.withArguments S.freshArguments) :=
    List.map_congr_left fun f _ => h.rebuildField_eq f
  constructor
  · refine ⟨(t.normalized o).fields, ObjectType.arranged_of_normalize hnormal, ?_⟩
    rw [Scope.remade, h.options]
    split
    · rfl
    · rw [Scope.rebuild, hrebuilt, hinternal]
  · rw [h.names_remade, hinternal, ← List.append_assoc]
    exact hnames.append_right _

end Document.Prepares

/-! ### The roots -/

theorem Roots.completes_complete (o : AugmentOptions) (r : Roots) :
    r.Completes o (r.complete o) where
  directives := rfl
  query := by cases hq : r.query <;> simp [Roots.complete, EntryCompletes, hq]
  mutation := by cases hm : r.mutation <;> simp [Roots.complete, EntryCompletes, hm]
  subscription := rfl

namespace Document

variable {o : AugmentOptions} {d : Document}

theorem editObjects_append (f : Nat → ObjectType → ObjectType) (d e : Document) :
    (d ++ e).editObjects f = d.editObjects f ++ e.editObjects fun i => f (d.length + i) := by
  rw [editObjects, List.mapIdx_append]
  simp only [Nat.add_comm _ d.length]
  rfl

theorem editObjects_congr {f g : Nat → ObjectType → ObjectType}
    (h : ∀ i t, d.objectAt? i = some t → f i t = g i t) : d.editObjects f = d.editObjects g := by
  apply List.ext_getElem?
  intro i
  rw [getElem?_editObjects, getElem?_editObjects]
  cases hx : d[i]? with
  | none => rfl
  | some x =>
    rcases x.object_cases with hnone | ⟨t, rfl⟩
    · rw [Option.map_some, Option.map_some, Definition.mapObject_of_none _ hnone,
        Definition.mapObject_of_none _ hnone]
    · have ht : f i t = g i t := h i t (by rw [objectAt?, hx]; rfl)
      rw [Option.map_some, Option.map_some, Definition.mapObject, Definition.mapObject, ht]

/-- The first schema definition is completed, and no other definition changes. -/
theorem rooted_cases {i : Nat} {x : Definition} (hx : d[i]? = some x) :
    (∃ r, x = .roots r ∧ d.NoRootsBefore i ∧ (d.rooted o)[i]? = some (.roots (r.complete o))) ∨
      (∀ r, x = .roots r → ¬ d.NoRootsBefore i) ∧ (d.rooted o)[i]? = some x := by
  have hrooted : d.rooted o = completeRoots o d := by
    unfold rooted
    split
    · rfl
    · next hd =>
      have hnone := completeRoots_append_of_none (o := o) d [] (by simpa using hd)
      simpa only [completeRoots, List.append_nil] using hnone.symm
  rw [hrooted]
  clear hrooted
  fun_induction completeRoots o d generalizing i with
  | case1 => cases hx
  | case2 r rest =>
    cases i with
    | zero =>
      cases hx
      exact .inl ⟨r, rfl, fun j _ hj => absurd hj (Nat.not_lt_zero j), rfl⟩
    | succ i => exact .inr ⟨fun _ _ hfirst => hfirst 0 r (Nat.succ_pos i) rfl, hx⟩
  | case3 other rest hother ih =>
    cases i with
    | zero =>
      cases hx
      exact .inr ⟨fun r hr => absurd hr (hother r), rfl⟩
    | succ i =>
      have hbefore : NoRootsBefore (other :: rest) (i + 1) ↔ NoRootsBefore rest i := by
        constructor
        · exact fun hfirst j r hj => hfirst (j + 1) r (Nat.succ_lt_succ hj)
        · intro hfirst j r hj
          cases j with
          | zero => exact fun hr => hother r (Option.some.inj hr)
          | succ j => exact hfirst j r (Nat.lt_of_succ_lt_succ hj)
      rw [hbefore]
      exact ih hx

/-! ### What scaffolding adds -/

theorem withObject_eq_missingObject (enabled : Bool) (name : String) (d : Document) :
    d.withObject enabled name = d ++ d.missingObject enabled name [] := by
  unfold withObject missingObject
  split
  · rfl
  · exact (List.append_nil d).symm

theorem objects_missingObject (enabled : Bool) (name : String) (fields : List Field)
    (d : Document) : (d.missingObject enabled name fields).objects =
      if enabled && !d.hasObject name then [{ name, fields }] else [] := by
  unfold missingObject
  split <;> rfl

theorem missingObject_congr {d e : Document} {name : String} (h : e.hasObject name = d.hasObject name)
    (enabled : Bool) (fields : List Field) :
    e.missingObject enabled name fields = d.missingObject enabled name fields := by
  unfold missingObject
  rw [h]

theorem scaffold_eq_scaffolding (o : AugmentOptions) (d : Document) :
    d.scaffold o = d.rooted o ++ d.scaffolding o [] [] := by
  have hquery : (d.withRoots o).hasObject Names.query = d.hasObject Names.query := by
    rw [hasObject, objects_withRoots, hasObject]
  have hmutation : (d.withRoots o ++ d.missingObject o.query Names.query []).hasObject
      Names.mutation = d.hasObject Names.mutation := by
    rw [hasObject, objects_append, objects_withRoots, objects_missingObject, List.any_append]
    split
    · exact Bool.or_false _
    · exact Bool.or_false _
  rw [scaffold, withObject_eq_missingObject, withObject_eq_missingObject,
    missingObject_congr hquery, missingObject_congr hmutation, scaffolding, List.append_assoc,
    ← List.append_assoc (d.rooted o)]
  congr 1
  unfold withRoots rooted
  by_cases hd : d.hasRoots = true
  · simp [hd]
  · by_cases ho : (o.query || o.mutation) = true
    · simp [hd, ho, Roots.complete]
    · simp [hd, ho]

theorem objects_scaffolding (o : AugmentOptions) (queries mutations : List Field) (d : Document) :
    (d.scaffolding o queries mutations).objects =
      (d.missingObject o.query Names.query queries).objects ++
        (d.missingObject o.mutation Names.mutation mutations).objects := by
  rw [scaffolding, objects_append, objects_append]
  split <;> rfl

/-- What scaffolding adds are the two roots at most, if they are missing. -/
theorem mem_objects_scaffolding {t : ObjectType} (ht : t ∈ (d.scaffolding o [] []).objects) :
    d.hasObject t.name = false ∧ (t = { name := Names.query } ∨ t = { name := Names.mutation }) := by
  rw [objects_scaffolding, objects_missingObject, objects_missingObject] at ht
  rcases List.mem_append.1 ht with ht | ht
  all_goals
    split at ht
    · next hmissing =>
      rw [Bool.and_eq_true, Bool.not_eq_true'] at hmissing
      obtain rfl := List.mem_singleton.1 ht
      exact ⟨hmissing.2, by simp⟩
    · cases ht

theorem nodup_objects_scaffolding (o : AugmentOptions) (d : Document) :
    ((d.scaffolding o [] []).objects.map ObjectType.name).Nodup := by
  rw [objects_scaffolding, objects_missingObject, objects_missingObject]
  split <;> split <;> simp [Names.query, Names.mutation]

theorem mem_objects_of_objectAt? {i : Nat} {t : ObjectType} (h : d.objectAt? i = some t) :
    t ∈ d.objects := by
  rw [objects_eq]
  exact List.mem_map.2 ⟨_, mem_placedObjects.2 h, rfl⟩

/-- Where no two object types have one name, each is the last of its name. -/
theorem isLast_of_nodup (hnodup : (d.objects.map ObjectType.name).Nodup) {i : Nat} {t : ObjectType}
    (ht : d.objectAt? i = some t) : d.IsLast i t.name := by
  refine ⟨⟨t, ht, rfl⟩, fun j u hj hu hname => ?_⟩
  rw [objects_eq, List.map_map] at hnodup
  have hsame := List.inj_on_of_nodup_map hnodup (mem_placedObjects.2 ht) (mem_placedObjects.2 hu)
    hname.symm
  exact Nat.ne_of_lt hj (congrArg Prod.fst hsame)

/-- The missing roots, with the fields that each gains. -/
theorem editObjects_scaffolding {f : Nat → ObjectType → ObjectType} {G : Growth}
    (h : ∀ i t gained, (d.scaffolding o [] []).objectAt? i = some t →
      (d.scaffolding o [] []).Gains G i gained → f i t = { t with fields := t.fields ++ gained }) :
    (d.scaffolding o [] []).editObjects f = d.scaffolding o G.queries G.mutations := by
  have hfields : ∀ i t, (d.scaffolding o [] []).objectAt? i = some t → f i t =
      { t with fields := if t.name = Names.query then G.queries else G.mutations } := by
    intro i t ht
    have hlast := isLast_of_nodup (nodup_objects_scaffolding o d) ht
    rcases (mem_objects_scaffolding (mem_objects_of_objectAt? ht)).2 with rfl | rfl
    · refine h i _ G.queries ht ⟨fun _ => rfl, fun hm => ?_, fun hq => absurd hlast hq⟩
      exact absurd (hlast.eq_of_name hm) (by decide)
    · refine h i _ G.mutations ht ⟨fun hq => ?_, fun _ => rfl, fun _ hm => absurd hlast hm⟩
      exact absurd (hlast.eq_of_name hq) (by decide)
  rw [editObjects_congr hfields, scaffolding, scaffolding, editObjects_append, editObjects_append]
  congr 1
  · split <;> rfl
  · congr 1
    all_goals
      unfold missingObject
      split <;> rfl

namespace Prepares

variable {S : Scope} (h : d.Prepares o S)
include h

theorem objectAt?_name (i : Nat) : (S.document.objectAt? i).map ObjectType.name =
    ((d.rooted o ++ d.scaffolding o [] []).objectAt? i).map ObjectType.name := by
  rw [h.objectAt?_eq, scaffold_eq_scaffolding, Option.map_map]
  congr 1
  funext t
  obtain ⟨fields, ht⟩ := t.settled_eq o
  rw [Function.comp_apply, ht]

/-- Preparing leaves the last object type of a root's name in its place. -/
theorem isLast_iff {i : Nat} (hi : i < d.length) (root : String) :
    S.document.IsLast i root ↔ d.IsLast i root := by
  have hrooted : (d.rooted o).IsLast i root ↔ d.IsLast i root :=
    isLast_congr fun j => by rw [objectAt?_rooted]
  rw [isLast_congr h.objectAt?_name, isLast_append_left (by rw [length_rooted]; exact hi), hrooted]
  refine and_iff_left_of_imp fun hlast => ?_
  -- a root is added only where the document has none
  rw [hasObject, List.any_eq_false]
  intro t ht hname
  obtain ⟨⟨u, hu, hun⟩, -⟩ := hlast
  have hmissing := (mem_objects_scaffolding ht).1
  rw [beq_iff_eq.1 hname, ← hun, hasObject_iff.2 ⟨i, u, hu, rfl⟩] at hmissing
  cases hmissing

theorem isLast_scaffolding_iff (i : Nat) (root : String) :
    S.document.IsLast (d.length + i) root ↔ (d.scaffolding o [] []).IsLast i root := by
  rw [isLast_congr h.objectAt?_name, ← length_rooted (o := o), isLast_append_right]

end Prepares

end Document

namespace Scope

/-- What extending the document of a scope adds. -/
def growth (S : Scope) : Growth :=
  ⟨S.freshArguments, S.additions.queries, S.additions.mutations, S.additions.types⟩

theorem Indexed.gains {S : Scope} (h : S.Indexed) (i : Nat) :
    S.document.Gains S.growth i (S.addedFields i) := by
  have hquery : S.roots.queries.map RootFields.place = some i ↔
      S.document.IsLast i Names.query := by
    rw [h.roots, RootIndex.ofDocument, RootFields.place_eq_some_iff]
  have hmutation : S.roots.mutations.map RootFields.place = some i ↔
      S.document.IsLast i Names.mutation := by
    rw [h.roots, RootIndex.ofDocument, RootFields.place_eq_some_iff]
  have hapart : S.document.IsLast i Names.query → ¬ S.document.IsLast i Names.mutation :=
    fun hq hm => absurd (hq.eq_of_name hm) (by decide)
  unfold addedFields
  constructor
  · intro hq
    rw [if_pos (hquery.2 hq), if_neg fun hm => hapart hq (hmutation.1 hm), List.append_nil]
    rfl
  · intro hm
    rw [if_neg fun hq => hapart (hquery.1 hq) hm, if_pos (hmutation.2 hm)]
    rfl
  · intro hq hm
    rw [if_neg fun hq' => hq (hquery.1 hq'), if_neg fun hm' => hm (hmutation.1 hm'),
      List.append_nil]

end Scope

namespace Document

namespace Prepares

variable {o : AugmentOptions} {d : Document} {S : Scope} (h : d.Prepares o S)
include h

theorem gains {i : Nat} (hi : i < d.length) : d.Gains S.growth i (S.addedFields i) := by
  have hgains := h.indexed.gains i
  exact ⟨fun hq => hgains.query ((h.isLast_iff hi _).2 hq),
    fun hm => hgains.mutation ((h.isLast_iff hi _).2 hm),
    fun hq hm => hgains.other (fun hq' => hq ((h.isLast_iff hi _).1 hq'))
      fun hm' => hm ((h.isLast_iff hi _).1 hm')⟩

/-- The definitions of the document, as the extended one has them. -/
def kept (o : AugmentOptions) (d : Document) (S : Scope) : Document :=
  (d.rooted o).editObjects fun i t => S.extended i (t.settled o)

theorem extend_eq_append : S.document.extend S = kept o d S ++
    d.scaffolding o S.additions.queries S.additions.mutations ++
      S.additions.types.map Definition.type := by
  rw [extend_eq, h.document_eq, editObjects_editObjects, scaffold_eq_scaffolding,
    editObjects_append]
  congr 2
  refine editObjects_scaffolding (G := S.growth) fun i t gained ht hgains => ?_
  have hsettled : t.settled o = t ∧ t.isModel = false := by
    rcases (mem_objects_scaffolding (mem_objects_of_objectAt? ht)).2 with rfl | rfl
    · exact ⟨rfl, rfl⟩
    · exact ⟨rfl, rfl⟩
  have hplace := h.indexed.gains (d.length + i)
  have hgained : S.addedFields (d.length + i) = gained := by
    by_cases hq : (d.scaffolding o [] []).IsLast i Names.query
    · rw [hgains.query hq, hplace.query ((h.isLast_scaffolding_iff i _).2 hq)]
    · by_cases hm : (d.scaffolding o [] []).IsLast i Names.mutation
      · rw [hgains.mutation hm, hplace.mutation ((h.isLast_scaffolding_iff i _).2 hm)]
      · rw [hgains.other hq hm]
        exact hplace.other (fun hq' => hq ((h.isLast_scaffolding_iff i _).1 hq'))
          fun hm' => hm ((h.isLast_scaffolding_iff i _).1 hm')
  rw [length_rooted, hsettled.1]
  simp only [Scope.extended, hgained, hsettled.2, Bool.false_eq_true, if_false]

theorem keeps {i : Nat} {x : Definition} (hx : d[i]? = some x) :
    ∃ y, (kept o d S)[i]? = some y ∧ d.Keeps o S.growth i x y := by
  have hi : i < d.length := (List.getElem?_eq_some_iff.1 hx).1
  have hgains := h.gains hi
  unfold kept
  rw [getElem?_editObjects]
  rcases rooted_cases (o := o) hx with ⟨r, rfl, hfirst, hy⟩ | ⟨hlater, hy⟩
  · rw [hy]
    exact ⟨_, rfl, .roots hfirst (r.completes_complete o)⟩
  · rw [hy]
    refine ⟨_, rfl, ?_⟩
    rcases x.object_cases with hnone | ⟨t, rfl⟩
    · rw [Definition.mapObject_of_none _ hnone]
      exact .other hnone hlater
    · have ht : d.objectAt? i = some t := by
        rw [objectAt?, hx]
        rfl
      cases hm : t.isModel with
      | false =>
        have hextended : S.extended i (t.settled o) =
            { t with fields := t.fields ++ S.addedFields i } := by
          simp only [ObjectType.settled, Scope.extended, hm, Bool.false_eq_true, if_false]
        rw [Definition.mapObject, hextended]
        exact .object hm hgains
      | true =>
        have hfields := h.modelFields (mem_models.2 ⟨i, ht, hm⟩)
        have hextended : S.extended i (t.settled o) =
            { t with fields := (S.remade (t.normalized o)).fields ++ S.addedFields i } := by
          obtain ⟨fields, hnormalized⟩ := t.normalized_eq o
          obtain ⟨fields', hremade⟩ := S.remade_eq (t.normalized o)
          have hmodel : (t.normalized o).isModel = true := by
            rw [hnormalized]
            exact hm
          rw [ObjectType.settled, if_pos hm, Scope.extended, hmodel, if_pos rfl, hremade,
            hnormalized]
        rw [Definition.mapObject, hextended]
        exact .model hm hfields hgains

/-! ### What is new -/

theorem mem_names_settled {i : Nat} {t : ObjectType} (ht : d.objectAt? i = some t) {n : String}
    (hn : n ∈ t.fields.map Field.name) : n ∈ (t.settled o).fields.map Field.name := by
  cases hm : t.isModel with
  | false => simpa only [ObjectType.settled, hm, Bool.false_eq_true, if_false] using hn
  | true =>
    have hnormal := h.normalize_ok (mem_models.2 ⟨i, ht, hm⟩)
    rw [ObjectType.settled, if_pos hm, (ObjectType.names_perm_normalize hnormal).mem_iff]
    exact List.mem_append_left _ hn

theorem freshFor (root : String) (fields : List Field) :
    d.FreshFor root (Scope.newFields (RootFields.find? S.document root) fields) := by
  cases hr : RootFields.find? S.document root with
  | none => exact ⟨List.nodup_nil, fun _ _ _ _ _ hf => absurd hf List.not_mem_nil⟩
  | some r =>
    refine ⟨nodup_freshBy Field.name r.fields.keys fields, fun i t hlast ht f hf hn => ?_⟩
    have hi := objectAt?_lt ht
    have hplace := RootFields.place_eq_some_iff.2 ((h.isLast_iff hi root).2 hlast)
    rw [hr, Option.map_some, Option.some.injEq] at hplace
    obtain ⟨u, hu, -, hfields, -⟩ := RootFields.find?_some hr
    have hsettled : u = t.settled o := by
      rw [hplace, h.objectAt?_eq, objectAt?_of_lt hi, ht] at hu
      exact (Option.some.inj hu).symm
    refine not_mem_of_mem_freshBy Field.name r.fields.keys fields f hf ?_
    rw [hfields, RootFields.mem_keys_fields, hsettled]
    exact h.mem_names_settled ht hn

theorem mem_typeNames {n : String} (hn : n ∈ d.typeNames) : n ∈ S.document.typeNames := by
  obtain ⟨x, hx, hname⟩ := List.mem_filterMap.1 hn
  obtain ⟨i, hi⟩ := List.mem_iff_getElem?.1 hx
  have hrooted : (d.rooted o)[i]? = some x := by
    rcases rooted_cases (o := o) hi with ⟨r, rfl, -, -⟩ | ⟨-, hy⟩
    · cases hname
    · exact hy
  have hsettled : ∀ (_ : Nat) (t : ObjectType), (t.settled o).name = t.name := by
    intro _ t
    obtain ⟨fields, ht⟩ := t.settled_eq o
    rw [ht]
  rw [h.document_eq, typeNames_editObjects hsettled, scaffold_eq_scaffolding]
  exact List.mem_filterMap.2 ⟨x, List.mem_append_left _ (List.mem_of_getElem? hrooted), hname⟩

theorem growsBy : d.GrowsBy o (S.document.extend S) S.growth where
  layout := ⟨kept o d S, h.extend_eq_append, by rw [kept, editObjects, List.length_mapIdx,
    length_rooted], fun _ _ => h.keeps⟩
  queries := by
    have hroot : S.roots.queries = RootFields.find? S.document Names.query := by
      rw [h.roots]
      rfl
    rw [Scope.growth, Scope.additions, hroot]
    exact h.freshFor _ _
  mutations := by
    have hroot : S.roots.mutations = RootFields.find? S.document Names.mutation := by
      rw [h.roots]
      rfl
    rw [Scope.growth, Scope.additions, hroot]
    exact h.freshFor _ _
  inputsOrEnums := by
    intro t ht
    obtain ⟨m, -, hm⟩ := List.mem_flatMap.1 (mem_of_mem_freshBy ht)
    obtain ⟨k, rfl⟩ := Scope.exists_generated hm
    cases k with
    | ordering => exact .inr ⟨_, rfl⟩
    | filter | createInput | whereUniqueInput | createNested _ | connectNested _ =>
      exact .inl ⟨_, rfl⟩
  distinct := nodup_freshBy TypeDefinition.name _ _
  undeclared := fun t ht hn =>
    not_mem_of_mem_freshBy TypeDefinition.name _ _ t ht (h.mem_typeNames hn)

end Prepares

/-- **An augmentation only adds.** Where there are models, the augmented document is the
document with additions. -/
theorem augment_additive {o : AugmentOptions} {d d' : Document} (hmodels : d.models ≠ [])
    (h : d.augment o = .ok d') : ∃ G, d.GrowsBy o d' G := by
  rcases prepares_of_augment h with ⟨hnone, -⟩ | ⟨S, hS, rfl⟩
  · exact absurd hnone hmodels
  · exact ⟨S.growth, hS.growsBy⟩

theorem augment_additive_claimed :
    claimed.models ≠ [] ∧ ∃ d G, claimed.augment {} = .ok d ∧ claimed.GrowsBy {} d G := by
  have hmodels : claimed.models ≠ [] := by decide
  have h : ∃ d, claimed.augment {} = .ok d := ⟨_, rfl⟩
  obtain ⟨d, h⟩ := h
  obtain ⟨G, grows⟩ := augment_additive hmodels h
  exact ⟨hmodels, d, G, h, grows⟩

end Document

end GraphqlCypher.Schema
