import GraphqlCypher.Proofs.Augment.Members

/-! Object types among the types of generated members.

Arguments and the fields of inputs are to be of input types, so each generator has to keep
object types out. A source takes the types of some of the model's fields over, besides the types
that are generated (`Scope.ownTypes`). Filters and create inputs take a field over only if its
type is indexed neither as a model nor as a plain type, which leaves the roots. The other
generators do not look that far: the arguments of queries and of fields that lead to models rule
out models only, and the arguments of a remote create and the keys of a model rule out nothing
(`Scope.LetsIn`). An object type stands among the types of a generated part just if it comes in
by one of these ways (`Document.object_mem_types_iff`). -/
namespace GraphqlCypher.Schema

/-! ### Plain types -/

theorem Document.models_eq_filter (d : Document) :
    d.models = d.objects.filter ObjectType.isModel := by
  rw [models, placedModels, objects_eq, List.filter_map]
  rfl

namespace TypeIndex

theorem mem_plain_add {x y : TypeIndex} {p : Nat × ObjectType} (h : add x p = .ok y) (n : String) :
    n ∈ y.plain.keys ↔
      n ∈ x.plain.keys ∨ isRoot n = false ∧ p.2.isModel = false ∧ p.2.name = n := by
  unfold add at h
  simp only at h
  split at h
  · next hmodel =>
    split at h
    · cases h
    · cases h
      simp [hmodel]
  · next hmodel =>
    rw [Bool.not_eq_true] at hmodel
    split at h
    · next hskip =>
      cases h
      rw [Bool.or_eq_true, isPlain, Entries.contains_iff_mem_keys] at hskip
      refine ⟨.inl, ?_⟩
      rintro (hx | ⟨hroot, -, rfl⟩)
      · exact hx
      · exact hskip.resolve_left (by rw [hroot]; decide)
    · next hnew =>
      cases h
      rw [Bool.or_eq_true, not_or, Bool.not_eq_true] at hnew
      simp only [Entries.keys, List.map_append, List.map_cons, List.map_nil, List.mem_append,
        List.mem_singleton, hmodel, true_and]
      refine or_congr_right ⟨?_, fun hn => hn.2.symm⟩
      rintro rfl
      exact ⟨hnew.1, rfl⟩

/-- The plain types are the object types that are neither models nor roots. -/
theorem isPlain_iff {d : Document} {x : TypeIndex} (h : ofDocument d = .ok x) {n : String} :
    x.isPlain n = true ↔ isRoot n = false ∧ ∃ t ∈ d.objects, t.isModel = false ∧ t.name = n := by
  have hplaced : ∀ (placed : List (Nat × ObjectType)) {x y : TypeIndex},
      placed.foldlM add x = .ok y → (n ∈ y.plain.keys ↔
        n ∈ x.plain.keys ∨
          isRoot n = false ∧ ∃ p ∈ placed, p.2.isModel = false ∧ p.2.name = n) := by
    intro placed
    induction placed with
    | nil =>
      intro x y h
      cases h
      simp
    | cons p rest ih =>
      intro x y h
      rw [List.foldlM_cons] at h
      cases hp : add x p with
      | error e =>
        rw [hp] at h
        cases h
      | ok x' =>
        rw [hp] at h
        rw [ih h, mem_plain_add hp, List.exists_mem_cons_iff, and_or_left, or_assoc]
  have hnil : n ∉ ({} : TypeIndex).plain.keys := List.not_mem_nil
  rw [isPlain, Entries.contains_iff_mem_keys, hplaced d.placedObjects h, or_iff_right hnil,
    Document.objects_eq]
  simp only [List.mem_map, exists_exists_and_eq_and]

end TypeIndex

/-! ### The types of members -/

/-- The names of the types of the members; the values of an enum have none. -/
def Part.types : Part → List String
  | .inputs values => values.map fun v => v.type.name
  | .options _ => []

namespace Scope

/-- Whether a create input asks for a field, where its type is fit. -/
def createAsks (S : Scope) (f : Field) : Bool :=
  !f.isComputed && !f.isInternalId && !(f.name == Names.id && !S.options.remote)

/-- The types that the members of a source are of by themselves: generated ones and a scalar. -/
def ownTypes (S : Scope) : Source → List String
  | .bare => []
  | .query m | .related m true => [Names.filterType m.name, Names.orderingType m.name, "Int"]
  | .related m false => [Names.filterType m.name, Names.orderingType m.name]
  | .create m => if S.options.remote then [] else [Names.createInput m.name]
  | .relate m f => [Names.whereUniqueInput m.name, Names.whereUniqueInput f.typeName]
  | .type .filter m => Names.filterType m.name ::
    (m.fields.filter fun f => !f.isInternalId && f.isRelation && S.leadsToModel f).map fun f =>
      Names.filterType f.typeName
  | .type .createInput m =>
    (m.fields.filter fun f => S.createAsks f && f.isRelation && S.leadsToModel f).map fun f =>
      Names.createNestedInput f.typeName (.of f.type.isList)
  | .type (.createNested _) m => [Names.createInput m.name, Names.whereUniqueInput m.name]
  | .type (.connectNested _) m => [Names.whereUniqueInput m.name, Names.createInput m.name]
  | .type .ordering _ | .type .whereUniqueInput _ => []

/-- A field that is no relation and is typed by a root, which the index leaves out. -/
def IsRootValue (S : Scope) (f : Field) : Prop :=
  f.isRelation = false ∧ S.leadsToModel f = false ∧ TypeIndex.isRoot f.typeName = true

/-- The fields whose types a source takes over though they may be object types. -/
def LetsIn (S : Scope) : Source → Field → Prop
  | .query m, f | .related m _, f => f ∈ S.valueFields m
  | .create m, f => S.options.remote = true ∧ f ∈ m.fields ∧ f.isStored = true
  | .type .whereUniqueInput m, f => f ∈ m.fields ∧ f.isUnique = true ∧ f.isComputed = false
  | .type .filter m, f => f ∈ m.fields ∧ f.isInternalId = false ∧ S.IsRootValue f
  | .type .createInput m, f => f ∈ m.fields ∧ S.createAsks f = true ∧ S.IsRootValue f
  | .bare, _ | .relate _ _, _ | .type .ordering _, _ | .type (.createNested _) _, _
  | .type (.connectNested _) _, _ => False

/-- A source brings a type in: as one of its own, or with a field that it lets in. -/
def Brings (S : Scope) (s : Source) (n : String) : Prop :=
  n ∈ S.ownTypes s ∨ ∃ f, S.LetsIn s f ∧ f.typeName = n

variable {S : Scope} {m : ObjectType}

/-! ### Arguments -/

theorem mem_types_valueArguments (S : Scope) (m : ObjectType) (n : String) :
    n ∈ (S.valueArguments m).map (fun v => v.type.name) ↔
      ∃ f ∈ S.valueFields m, f.typeName = n := by
  have hstrip : ∀ f : Field, f.type.stripNonNull.name = f.typeName := fun f =>
    TypeRef.stripNonNull_name f.type
  simp only [valueArguments, List.map_flatMap, List.mem_flatMap, List.map_cons, List.map_nil,
    List.mem_cons, List.not_mem_nil, or_false, InputValue.of, TypeRef.name, hstrip, or_self,
    eq_comm]

/-- Arguments for values beside others. -/
theorem mem_types_beside (S : Scope) (m : ObjectType) {values : List InputValue}
    {own : List String} (hown : ∀ n, n ∈ values.map (fun v => v.type.name) ↔ n ∈ own) (n : String) :
    n ∈ (Part.inputs (S.valueArguments m ++ values)).types ↔
      n ∈ own ∨ ∃ f ∈ S.valueFields m, f.typeName = n := by
  rw [Part.types, List.map_append, List.mem_append, mem_types_valueArguments, hown, or_comm]

theorem mem_types_query (S : Scope) (m : ObjectType) (n : String) :
    n ∈ (S.part (.query m)).types ↔ S.Brings (.query m) n := by
  rw [part, queryArguments, List.append_assoc]
  refine S.mem_types_beside m (fun n => ?_) n
  simp [ownTypes, pageArguments, filterArgument, orderArgument, InputValue.of, TypeRef.name]

theorem mem_types_related (hm : S.model? m.name = some m) (isList : Bool) (n : String) :
    n ∈ (S.part (.related m isList)).types ↔ S.Brings (.related m isList) n := by
  rw [part, freshArguments, hm]
  cases isList with
  | true =>
    refine S.mem_types_beside m (fun n => ?_) n
    simp [ownTypes, pageArguments, filterArgument, orderArgument, InputValue.of, TypeRef.name]
  | false =>
    refine S.mem_types_beside m (fun n => ?_) n
    simp [ownTypes, filterArgument, orderArgument, InputValue.of, TypeRef.name, or_comm]

theorem mem_types_create (S : Scope) (m : ObjectType) (n : String) :
    n ∈ (S.part (.create m)).types ↔ S.Brings (.create m) n := by
  change n ∈ (S.create m).arguments.map (fun v => v.type.name) ↔
    n ∈ (if S.options.remote then [] else [Names.createInput m.name]) ∨
      ∃ f, (S.options.remote = true ∧ f ∈ m.fields ∧ f.isStored = true) ∧ f.typeName = n
  unfold create
  split
  · next hremote =>
    have htypes : (remoteCreate m).arguments.map (fun v => v.type.name) =
        (m.fields.filter Field.isStored).map Field.typeName := by
      rw [remoteCreate, nativeField, List.map_map]
      rfl
    rw [htypes]
    simp only [hremote, List.mem_map, List.mem_filter, List.not_mem_nil, false_or, true_and]
  · next hlocal =>
    simp [localCreate, InputValue.of, TypeRef.name, hlocal]

/-! ### Types -/

theorem mem_types_scalarFilters {field type n : String} :
    n ∈ (scalarFilters field type).map (fun v => v.type.name) ↔ type = n := by
  simp [scalarFilters, comparisons, InputValue.of, TypeRef.name, TypeRef.listOfNonNull, eq_comm]

theorem not_isRootValue {f : Field} (h : f.isRelation = true) : ¬ S.IsRootValue f := by
  intro hvalue
  rw [hvalue.1] at h
  cases h

section Guarded

variable {d : Document} (hindex : TypeIndex.ofDocument d = .ok S.index) {n : String}
  (object : n ∈ d.objects.map ObjectType.name)
include hindex object

/-- Of the object types, the guard against models and plain types lets the roots through. -/
theorem isRootValue_iff {f : Field} (hrelation : f.isRelation = false) :
    S.IsRootValue f ∧ f.typeName = n ↔
      (S.leadsToModel f || S.isPlain f.typeName) = false ∧ f.typeName = n := by
  refine and_congr_left ?_
  rintro rfl
  rw [IsRootValue, Bool.or_eq_false_iff, and_iff_right hrelation]
  refine and_congr_right fun hmodel => ?_
  obtain ⟨t, ht, hname⟩ := List.mem_map.1 object
  have hunmarked : t.isModel = false := by
    by_contra hmarked
    rw [Bool.not_eq_false] at hmarked
    have hfound : S.leadsToModel f = true := (TypeIndex.isModel_iff hindex).2
      ⟨t, by simpa [Document.models_eq_filter] using ⟨ht, hmarked⟩, hname⟩
    rw [hmodel] at hfound
    cases hfound
  have hplain := TypeIndex.isPlain_iff hindex (n := f.typeName)
  rw [and_iff_left ⟨t, ht, hunmarked, hname⟩] at hplain
  rw [isPlain, ← Bool.not_eq_true, hplain, Bool.not_eq_false]

theorem mem_types_fieldFilters (f : Field) :
    n ∈ (S.fieldFilters f).map (fun v => v.type.name) ↔
      (!f.isInternalId && f.isRelation && S.leadsToModel f) = true ∧
          Names.filterType f.typeName = n ∨
        f.isInternalId = false ∧ S.IsRootValue f ∧ f.typeName = n := by
  unfold fieldFilters
  split
  · next hinternal => simp [hinternal]
  · next hinternal =>
    split
    · next hrelation =>
      split
      · next hleads =>
        have htypes : (relationFilters.map fun suffix => InputValue.of (f.name ++ suffix)
            (.named (Names.filterType f.typeName))).map (fun v => v.type.name) =
            List.replicate 8 (Names.filterType f.typeName) := rfl
        rw [htypes]
        simp [hinternal, hrelation, hleads, not_isRootValue hrelation, eq_comm]
      · next hleads => simp [hleads, not_isRootValue hrelation]
    · next hrelation =>
      rw [Bool.not_eq_true] at hrelation
      rw [isRootValue_iff hindex object hrelation]
      split
      · next hguard => simp [hrelation, hguard]
      · next hguard =>
        rw [mem_types_scalarFilters]
        simp [hinternal, hrelation, hguard]

theorem mem_types_createField? (f : Field) :
    (∃ v, S.createField? f = some v ∧ v.type.name = n) ↔
      (S.createAsks f && f.isRelation && S.leadsToModel f) = true ∧
          Names.createNestedInput f.typeName (.of f.type.isList) = n ∨
        S.createAsks f = true ∧ S.IsRootValue f ∧ f.typeName = n := by
  have hasks : S.createAsks f = !(f.isComputed || f.isInternalId ||
      (f.name == Names.id && !S.options.remote)) := by
    rw [createAsks, Bool.not_or, Bool.not_or]
  unfold createField?
  split
  · next hleft => simp [hasks, hleft]
  · next hleft =>
    rw [Bool.not_eq_true] at hleft
    rw [hleft] at hasks
    split
    · next hrelation =>
      split
      · next hleads =>
        simp [hasks, hrelation, hleads, not_isRootValue hrelation, InputValue.of, TypeRef.name]
      · next hleads => simp [hleads, not_isRootValue hrelation]
    · next hrelation =>
      rw [Bool.not_eq_true] at hrelation
      rw [isRootValue_iff hindex object hrelation]
      split
      · next hguard => simp [hrelation, hguard]
      · next hguard =>
        have htype : (InputValue.of f.name f.type).type.name = f.typeName := rfl
        simp [hasks, hrelation, hguard, htype]

theorem mem_types_filter (m : ObjectType) :
    n ∈ (S.part (.type .filter m)).types ↔ S.Brings (.type .filter m) n := by
  have htypes : n ∈ (S.part (.type .filter m)).types ↔ n = Names.filterType m.name ∨
      ∃ f ∈ m.fields, n ∈ (S.fieldFilters f).map (fun v => v.type.name) := by
    simp [part, generated, TypeDefinition.part, Part.types, filter, InputValue.of,
      TypeRef.listOfNonNull, TypeRef.name, List.map_flatMap]
  rw [htypes, Brings]
  simp only [mem_types_fieldFilters hindex object, ownTypes, LetsIn, List.mem_cons, List.mem_map,
    List.mem_filter, and_or_left, exists_or, and_assoc, or_assoc]

theorem mem_types_createInput (m : ObjectType) :
    n ∈ (S.part (.type .createInput m)).types ↔ S.Brings (.type .createInput m) n := by
  have htypes : n ∈ (S.part (.type .createInput m)).types ↔
      ∃ f ∈ m.fields, ∃ v, S.createField? f = some v ∧ v.type.name = n := by
    change n ∈ (m.fields.filterMap S.createField?).map (fun v => v.type.name) ↔ _
    simp only [List.map_filterMap, List.mem_filterMap, Option.map_eq_some_iff]
  rw [htypes, Brings]
  simp only [mem_types_createField? hindex object, ownTypes, LetsIn, List.mem_map,
    List.mem_filter, and_or_left, exists_or, and_assoc]

end Guarded

theorem mem_types_whereUniqueInput (m : ObjectType) (n : String) :
    n ∈ (S.part (.type .whereUniqueInput m)).types ↔ S.Brings (.type .whereUniqueInput m) n := by
  have hname : ∀ f : Field, (if f.type.isList then TypeRef.list (.named f.typeName)
      else .named f.typeName).name = f.typeName := by
    intro f
    split <;> rfl
  have htypes : (S.part (.type .whereUniqueInput m)).types =
      (m.fields.filter fun f => f.isUnique && !f.isComputed).map Field.typeName := by
    simp [part, generated, TypeDefinition.part, Part.types, whereUniqueInput, InputValue.of, hname]
  rw [htypes, Brings]
  simp [ownTypes, LetsIn, and_assoc]

/-- **An object type is among the types of a source's members just if the source brings it in.** -/
theorem Indexed.mem_types_iff (h : S.Indexed) {d : Document}
    (hindex : TypeIndex.ofDocument d = .ok S.index) {n : String}
    (object : n ∈ d.objects.map ObjectType.name) {s : Source} (hs : S.Has s) :
    n ∈ (S.part s).types ↔ S.Brings s n := by
  have hnothing : ∀ {A : Prop}, A ↔ A ∨ ∃ f : Field, False ∧ f.typeName = n := by simp
  cases hs with
  | bare => exact hnothing
  | query => exact S.mem_types_query _ n
  | related model => exact mem_types_related (h.model?_of_mem model) _ n
  | create => exact S.mem_types_create _ n
  | relate => exact hnothing
  | @type k m model =>
    cases k with
    | ordering => exact hnothing
    | filter => exact mem_types_filter hindex object m
    | createInput => exact mem_types_createInput hindex object m
    | whereUniqueInput => exact mem_types_whereUniqueInput m n
    | createNested arity | connectNested arity => cases arity <;> exact hnothing

end Scope

namespace Document

/-- **An object type is among the types of a generated part just if the part's source brings it
in.** -/
theorem object_mem_types_iff {o : AugmentOptions} {d d' : Document} (h : d.augment o = .ok d')
    {p : Part} (hp : d.Generated o d' p) :
    ∃ S s, d.Prepares o S ∧ S.Has s ∧ p = S.part s ∧
      ∀ n ∈ d.objects.map ObjectType.name, n ∈ p.types ↔ S.Brings s n := by
  rcases prepares_of_augment h with ⟨hmodels, rfl⟩ | ⟨S, hS, rfl⟩
  · exact absurd hp (not_generated_self hmodels p)
  · obtain ⟨s, hs, rfl⟩ := hS.source_of_generated hp
    exact ⟨S, s, hS, hs, rfl, fun n object => hS.indexed.mem_types_iff hS.index object hs⟩

/-- Persons with a name and a badge, which is no model. -/
def badged : Document :=
  [.type (.object { name := "Badge", fields := [{ name := "label", type := .named "String" }] }),
    .type (.object {
      name := "Person"
      directives := [Directive.bare Names.model]
      fields := [{ name := "name", type := .named "String" },
        { name := "badge", type := .named "Badge" }] })]

/-- The types of the arguments of their query. -/
def badgedTypes : List String :=
  ["ID", "ID", "String", "String", "Badge", "Badge", "_PersonFilter", "_PersonOrdering", "Int",
    "Int", "Int", "Int"]

/-- **Object types can be among the types of arguments.** The query takes badges, and lists of
them. -/
theorem exists_object_argument_badged :
    ∃ d' p n, badged.augment {} = .ok d' ∧ badged.Generated {} d' p ∧
      n ∈ badged.objects.map ObjectType.name ∧ n ∈ p.types := by
  obtain ⟨d', values, h, hp, htypes⟩ := exists_first_query (o := {}) (d := badged)
    (g := fun values => (Part.inputs values).types) (a := badgedTypes) rfl rfl
  refine ⟨d', _, "Badge", h, hp, by decide, ?_⟩
  rw [htypes]
  decide

theorem object_mem_types_iff_badged :
    ∃ d' p S s, badged.augment {} = .ok d' ∧ badged.Generated {} d' p ∧
      badged.Prepares {} S ∧ S.Has s ∧ p = S.part s ∧
        S.Brings s "Badge" ∧ ¬ S.Brings s "Person" := by
  obtain ⟨d', values, h, hp, htypes⟩ := exists_first_query (o := {}) (d := badged)
    (g := fun values => (Part.inputs values).types) (a := badgedTypes) rfl rfl
  obtain ⟨S, s, hS, hs, hpart, hiff⟩ := object_mem_types_iff h hp
  rw [htypes] at hiff
  refine ⟨d', _, S, s, h, hp, hS, hs, hpart, (hiff "Badge" (by decide)).1 (by decide), ?_⟩
  rw [← hiff "Person" (by decide)]
  decide

end Document

end GraphqlCypher.Schema
