import GraphqlCypher.Proofs.Augment.Additive
import GraphqlCypher.Proofs.Augment.Roots

/-! What a local augmentation provides for each model.

Of the definitions of one name the first stays, and nothing is said of the others. A model loses
nothing by that, whatever the other models are called: the name of a generated type says which
kind it is of and for which model, and a root has at most one new field of a name.

**Main result.** `provides_of_augment`: what stands under the names that a model asks for is what
was declared there, or else what was built from this model. -/
namespace GraphqlCypher.Schema

/-! ### The first of a name -/

section

variable {α : Type} {key : α → String} {taken : List String} {items : List α}

theorem filter_freshBy_taken {k : String} (hk : k ∈ taken) :
    (freshBy key taken items).filter (key · == k) = [] :=
  List.filter_eq_nil_iff.2 fun a ha hak =>
    not_mem_of_mem_freshBy key taken items a ha (beq_iff_eq.1 hak ▸ hk)

/-- An item that is the only one of its key is left, if that key is not taken. -/
theorem filter_freshBy_eq {a : α} (hk : key a ∉ taken) (ha : a ∈ items)
    (only : ∀ b ∈ items, key b = key a → b = a) :
    (freshBy key taken items).filter (key · == key a) = [a] := by
  rw [filter_freshBy key hk]
  have all : ∀ b ∈ items.filter (key · == key a), b = a := fun b hb =>
    only b (List.mem_filter.1 hb).1 (beq_iff_eq.1 (List.mem_filter.1 hb).2)
  have some : a ∈ items.filter (key · == key a) := List.mem_filter.2 ⟨ha, BEq.rfl⟩
  cases found : items.filter (key · == key a) with
  | nil => rw [found] at some; cases some
  | cons b rest =>
    rw [all b (by rw [found]; exact List.mem_cons_self)]
    rfl

end

/-- The fields of a name: those that were declared, or else the one that was built. -/
def ownOrBuilt (declared : List Field) (built : Field) : List Field :=
  if built.name ∈ declared.map Field.name then declared.filter (·.name == built.name) else [built]

theorem filter_append_freshBy {declared items : List Field} {taken : List String} {built : Field}
    (htaken : ∀ n, n ∈ taken ↔ n ∈ declared.map Field.name) (hbuilt : built ∈ items)
    (only : ∀ f ∈ items, f.name = built.name → f = built) :
    (declared ++ freshBy Field.name taken items).filter (·.name == built.name) =
      ownOrBuilt declared built := by
  rw [List.filter_append, ownOrBuilt]
  split
  · next h => rw [filter_freshBy_taken ((htaken _).2 h), List.append_nil]
  · next h =>
    have none : declared.filter (·.name == built.name) = [] :=
      List.filter_eq_nil_iff.2 fun f hf hname =>
        h (List.mem_map.2 ⟨f, hf, beq_iff_eq.1 hname⟩)
    rw [none, filter_freshBy_eq (fun hk => h ((htaken _).1 hk)) hbuilt only, List.nil_append]

/-- The definitions of a name in an edited list are the edited definitions of the name. -/
theorem filter_mapIdx {α β : Type} {g : Nat → α → β} {f : α → β} {p : β → Bool} {q : α → Bool}
    {l : List α} (h : ∀ i x, l[i]? = some x → p (g i x) = q x ∧ (q x = true → g i x = f x)) :
    (l.mapIdx g).filter p = (l.filter q).map f := by
  induction l generalizing g with
  | nil => rfl
  | cons x rest ih =>
    obtain ⟨hp, hf⟩ := h 0 x rfl
    have later := ih (g := fun i => g (i + 1)) fun i => h (i + 1)
    rw [List.mapIdx_cons, List.filter_cons, List.filter_cons, hp, later]
    split
    · next hq => rw [List.map_cons, hf hq]
    · rfl

/-! ### What is provided -/

/-- What an augmentation makes of a declaration of a name that is no root: it stays as it is
unless it is a model, which is normalized and rebuilt. -/
def Scope.keeping (S : Scope) (o : AugmentOptions) : Definition → Definition :=
  Definition.mapObject fun t => if t.isModel then S.remade (t.normalized o) else t

namespace Document

/-- The definitions of types of a name. -/
def declarations (d : Document) (name : String) : List Definition :=
  d.filter (·.typeName? == some name)

/-- The fields of the last object type of a name; none if there is no such type. -/
def rootFields (d : Document) (root : String) : List Field :=
  ((d.lastObject? root).map ObjectType.fields).getD []

/-- The last mutation type of the document has a field of the name. -/
def Claims (d : Document) (name : String) : Prop :=
  name ∈ (d.rootFields Names.mutation).map Field.name

/-- The types that a model asks for: its ordering and its filter, and its inputs if it gets its
mutations. -/
def Asks (o : AugmentOptions) (d : Document) (model : String) : TypeKind → Prop
  | .ordering | .filter => True
  | _ => o.mutation = true ∧ ¬ d.Claims model

/-- What a model finds in an augmented document. -/
structure Provides (o : AugmentOptions) (d : Document) (S : Scope) (d' : Document)
    (m : ObjectType) : Prop where
  /-- Under the name of a type that it asks for: what was declared, or else the type built from
  it. -/
  types : ∀ k, d.Asks o m.name k → d'.declarations (k.name m.name) =
    if k.name m.name ∈ d.typeNames then (d.declarations (k.name m.name)).map (S.keeping o)
    else [.type (S.generated k (m.normalized o))]
  /-- Under its name in the root of the queries. -/
  query : o.query = true → ∃ t, d'.lastObject? Names.query = some t ∧
    t.fields.filter (·.name == m.name) =
      ownOrBuilt (d.rootFields Names.query) (S.listQuery (m.normalized o))
  /-- Under the name of the mutation that creates it. -/
  create : o.mutation = true → ¬ d.Claims m.name → ∃ t, d'.lastObject? Names.mutation = some t ∧
    t.fields.filter (·.name == Names.createMutation m.name) =
      ownOrBuilt (d.rootFields Names.mutation) (Scope.localCreate (m.normalized o))

/-! ### Roots -/

theorem rootFields_eq (d : Document) (root : String) :
    ((d.lastObject? root).getD { name := root }).fields = d.rootFields root := by
  rw [rootFields]
  cases d.lastObject? root <;> rfl

end Document

/-- The index of a root knows the names of its fields. -/
theorem RootFields.exists_of_lastObject? {d : Document} {root : String} {t : ObjectType}
    (h : d.lastObject? root = some t) : ∃ r, find? d root = some r ∧
      ∀ n, n ∈ r.fields.keys ↔ n ∈ t.fields.map Field.name := by
  obtain ⟨r, hr, -, hkeys⟩ := find?_of_lastObject? h
  exact ⟨r, hr, fun n => by rw [hkeys, mem_keys_fields]⟩

/-- Extending adds its new fields to a root that is no model. -/
theorem Scope.Indexed.lastObject?_grown {S : Scope} (h : S.Indexed) (hroots : S.document.RootsApart)
    {root : String} (hroot : TypeIndex.isRoot root = true) {t : ObjectType}
    (ht : S.document.lastObject? root = some t) :
    (S.document.extend S).lastObject? root = some { t with
      fields := t.fields ++
        if root = Names.query then S.additions.queries else S.additions.mutations } := by
  have plain := hroots.isModel_root hroot ht
  rw [Document.lastObject?_eq] at ht
  obtain ⟨⟨i, t⟩, hlast, rfl⟩ := Option.map_eq_some_iff.1 ht
  have last : S.document.IsLast i root := by
    rw [← RootFields.place_eq_some_iff, RootFields.find?_eq, hlast]
    rfl
  have gained : S.addedFields i =
      if root = Names.query then S.additions.queries else S.additions.mutations := by
    have gains := h.gains i
    split
    · next hquery => exact gains.query (hquery ▸ last)
    · next hquery =>
      have hmutation : root = Names.mutation := by
        simp only [TypeIndex.isRoot, Bool.or_eq_true, beq_iff_eq] at hroot
        exact hroot.resolve_left hquery
      exact gains.mutation (hmutation ▸ last)
  have extended : S.extended i t = { t with fields := t.fields ++ S.addedFields i } := by
    simp only [Scope.extended, plain, Bool.false_eq_true, if_false]
  have filtered : (S.document.placedObjects.map fun p => (p.1, S.extended p.1 p.2)).filter
      (·.2.name == root) =
      (S.document.placedObjects.filter (·.2.name == root)).map fun p =>
        (p.1, S.extended p.1 p.2) := by
    rw [List.filter_map]
    congr 1
    exact List.filter_congr fun p _ => by simp only [Function.comp_apply, S.extended_name]
  rw [Document.lastObject?_eq, Document.placedObjects_extend, filtered, List.getLast?_map, hlast,
    ← gained, ← extended]
  rfl

namespace Document.Prepares

variable {o : AugmentOptions} {d : Document} {S : Scope} (h : d.Prepares o S)
  (hroots : d.RootsApart)
include h hroots

/-- A root of the augmented document has the fields that it was declared with and new ones. -/
theorem lastObject?_augmented {root : String} (enabled : RootEnabled o root) :
    ∃ t, (S.document.extend S).lastObject? root = some t ∧ t.fields = d.rootFields root ++
      if root = Names.query then S.additions.queries else S.additions.mutations := by
  have prepared := h.lastObject?_scaffolded hroots enabled
  exact ⟨_, h.indexed.lastObject?_grown (h.rootsApart hroots) enabled.isRoot prepared,
    by rw [rootFields_eq]⟩

/-- The fields that are new in a root are the first of their names that are not taken. -/
theorem newFields_eq {root : String} (enabled : RootEnabled o root) (fields : List Field) :
    ∃ taken, Scope.newFields (RootFields.find? S.document root) fields =
        freshBy Field.name taken fields ∧
      ∀ n, n ∈ taken ↔ n ∈ (d.rootFields root).map Field.name := by
  obtain ⟨r, hr, hkeys⟩ :=
    RootFields.exists_of_lastObject? (h.lastObject?_scaffolded hroots enabled)
  rw [rootFields_eq] at hkeys
  exact ⟨r.fields.keys, by rw [hr]; rfl, hkeys⟩

theorem claims_iff (ho : o.mutation = true) (m : ObjectType) :
    S.generatesMutations m = true ↔ ¬ d.Claims m.name := by
  rw [h.indexed.generatesMutations_iff (h.lastObject?_mutation hroots ho), rootFields_eq, h.options,
    ho, Claims]
  exact and_iff_right rfl

omit hroots in
theorem normalized_mem {m : ObjectType} (hm : m ∈ d.models) : m.normalized o ∈ S.models := by
  rw [h.indexed.models_eq, h.models_eq]
  exact List.mem_map_of_mem hm

end Document.Prepares

/-! ### Declarations -/

namespace Document

variable {o : AugmentOptions} {d : Document} {n : String}

theorem declarations_eq_nil (h : n ∉ d.typeNames) : d.declarations n = [] :=
  List.filter_eq_nil_iff.2 fun x hx hname =>
    h (List.mem_filterMap.2 ⟨x, hx, beq_iff_eq.1 hname⟩)

theorem declarations_types (types : List TypeDefinition) (n : String) :
    declarations (types.map Definition.type) n =
      (types.filter (·.name == n)).map Definition.type := by
  rw [declarations, List.filter_map]
  congr 1

/-- Roots alone are added where the document lacks them. -/
theorem declarations_scaffolding (hn : TypeIndex.isRoot n = false)
    (queries mutations : List Field) :
    declarations (d.scaffolding o queries mutations) n = [] := by
  have apart : ∀ root ∈ [Names.query, Names.mutation], root ≠ n := by
    rintro root hroot rfl
    have roots : ∀ root ∈ [Names.query, Names.mutation], TypeIndex.isRoot root = true := by decide
    rw [roots _ hroot] at hn
    cases hn
  refine List.filter_eq_nil_iff.2 fun x hx hname => ?_
  rw [beq_iff_eq] at hname
  rw [scaffolding, List.mem_append, List.mem_append] at hx
  rcases hx with hx | hx | hx
  · split at hx
    · rw [List.mem_singleton.1 hx] at hname
      cases hname
    · cases hx
  all_goals
    unfold missingObject at hx
    split at hx
    · rw [List.mem_singleton.1 hx] at hname
      exact apart _ (by simp [TypeDefinition.name]) (Option.some.inj hname)
    · cases hx

/-- Completing the schema definition declares nothing. -/
theorem declarations_rooted (d : Document) (n : String) :
    (d.rooted o).declarations n = d.declarations n := by
  have complete : (completeRoots o d).declarations n = d.declarations n := by
    unfold declarations
    fun_induction completeRoots o d with
    | case1 => rfl
    | case2 r rest => rfl
    | case3 other rest _ ih => rw [List.filter_cons, List.filter_cons, ih]
  unfold rooted
  split
  · exact complete
  · rfl

namespace Prepares

variable {S : Scope} (h : d.Prepares o S)
include h

/-- A declaration of a name that is no root gains nothing. -/
theorem declarations_kept (hn : TypeIndex.isRoot n = false) :
    (kept o d S).declarations n = (d.declarations n).map (S.keeping o) := by
  have names : ∀ (i : Nat) (t : ObjectType), (S.extended i (t.settled o)).name = t.name := by
    intro i t
    obtain ⟨fields, ht⟩ := t.settled_eq o
    rw [S.extended_name, ht]
  rw [← declarations_rooted (o := o) d n]
  refine filter_mapIdx fun i x hx => ⟨?_, fun named => ?_⟩
  · rw [Definition.typeName?_mapObject (names i)]
  · rcases x.object_cases with none | ⟨t, rfl⟩
    · rw [Definition.mapObject_of_none _ none, Scope.keeping, Definition.mapObject_of_none _ none]
    · have tname : t.name = n := Option.some.inj (beq_iff_eq.1 named)
      have noRoot : ∀ root, TypeIndex.isRoot root = true → ¬ S.document.IsLast i root := by
        rintro root hroot ⟨⟨u, hu, rfl⟩, -⟩
        have same := h.objectAt?_name i
        have at? : (d.rooted o ++ d.scaffolding o [] []).objectAt? i = some t := by
          rw [objectAt?, List.getElem?_append_left (List.getElem?_eq_some_iff.1 hx).1, hx]
          rfl
        rw [hu, at?, Option.map_some, Option.map_some, tname] at same
        rw [Option.some.inj same, hn] at hroot
        cases hroot
      have gained : S.addedFields i = [] :=
        (h.indexed.gains i).other (noRoot _ (by decide)) (noRoot _ (by decide))
      rw [Scope.keeping, Definition.mapObject, Definition.mapObject]
      congr 2
      have model : (t.settled o).isModel = t.isModel := by
        obtain ⟨fields, ht⟩ := t.settled_eq o
        rw [ht]
        rfl
      simp only [Scope.extended, model, gained, List.append_nil]
      by_cases hm : t.isModel = true
      · simp only [hm, if_true, ObjectType.settled]
      · simp only [hm, ObjectType.settled]
        rfl

/-! ### Models -/

section

variable (hlocal : o.remote = false) (hroots : d.RootsApart) {m : ObjectType} (hm : m ∈ d.models)
include hlocal hroots hm

/-- What a model asks for is among what is generated. -/
theorem generated_mem_of_asks {k : TypeKind} (asked : d.Asks o m.name k) :
    S.generated k (m.normalized o) ∈ S.models.flatMap S.types := by
  have here : S.options.remote = false := by rw [h.options, hlocal]
  have claims : o.mutation = true → (S.generatesMutations (m.normalized o) = true ↔
      ¬ d.Claims m.name) := fun ho => by
    rw [h.claims_iff hroots ho, m.normalized_name]
  refine List.mem_flatMap.2 ⟨_, h.normalized_mem hm, ?_⟩
  cases k with
  | ordering => simp [Scope.types, here, Scope.generated]
  | filter => simp [Scope.types, here, Scope.generated]
  | createInput | whereUniqueInput | createNested _ | connectNested _ =>
    exact Scope.generated_mem_types here ((claims asked.1).2 asked.2) _

theorem provides_types {k : TypeKind} (asked : d.Asks o m.name k) :
    (S.document.extend S).declarations (k.name m.name) =
      if k.name m.name ∈ d.typeNames then
        (d.declarations (k.name m.name)).map (S.keeping o)
      else [.type (S.generated k (m.normalized o))] := by
  have noRoot := k.isRoot_name m.name
  have named : (S.generated k (m.normalized o)).name = k.name m.name := by
    rw [Scope.generated_name, m.normalized_name]
  have generated := h.generated_mem_of_asks hlocal hroots hm asked
  rw [h.extend_eq_append, declarations, List.filter_append, List.filter_append, ← declarations,
    ← declarations, ← declarations, h.declarations_kept noRoot, declarations_scaffolding noRoot,
    List.append_nil, declarations_types, Scope.additions]
  by_cases taken : k.name m.name ∈ d.typeNames
  · rw [if_pos taken, filter_freshBy_taken (h.mem_typeNames taken), List.map_nil, List.append_nil]
  · have inScope : m.normalized o ∈ S.document.models := h.indexed.models_eq ▸ h.normalized_mem hm
    have only : ∀ t ∈ S.models.flatMap S.types,
        t.name = (S.generated k (m.normalized o)).name → t = S.generated k (m.normalized o) :=
      fun t ht hname => h.eq_generated inScope ht (hname.trans (Scope.generated_name k))
    have fresh := filter_freshBy_eq (named ▸ h.not_mem_typeNames taken) generated only
    rw [named] at fresh
    rw [if_neg taken, declarations_eq_nil taken, fresh]
    rfl

omit hlocal hroots in
theorem eq_of_mem_models {t : ObjectType} (ht : t ∈ S.models) (hname : t.name = m.name) :
    t = m.normalized o := by
  have inScope := h.normalized_mem hm
  rw [h.indexed.models_eq] at ht inScope
  exact TypeIndex.eq_of_name_eq h.indexed.index ht inScope (by rw [hname, m.normalized_name])

theorem provides_query (ho : o.query = true) :
    ∃ t, (S.document.extend S).lastObject? Names.query = some t ∧
      t.fields.filter (·.name == m.name) =
        ownOrBuilt (d.rootFields Names.query) (S.listQuery (m.normalized o)) := by
  obtain ⟨t, ht, fields⟩ := h.lastObject?_augmented hroots (.inl ⟨rfl, ho⟩)
  refine ⟨t, ht, ?_⟩
  obtain ⟨taken, added, htaken⟩ := h.newFields_eq hroots (.inl ⟨rfl, ho⟩) (S.models.map S.listQuery)
  have queries : S.additions.queries = freshBy Field.name taken (S.models.map S.listQuery) := by
    rw [Scope.additions, h.roots, ← added, h.options, hlocal, ho]
    rfl
  have named : (S.listQuery (m.normalized o)).name = m.name := m.normalized_name o
  rw [fields, if_pos rfl, queries, ← named]
  refine filter_append_freshBy htaken (List.mem_map_of_mem (h.normalized_mem hm)) fun f hf hname => ?_
  obtain ⟨t, ht, rfl⟩ := List.mem_map.1 hf
  rw [h.eq_of_mem_models hm ht (hname.trans named)]

theorem provides_create (ho : o.mutation = true) (free : ¬ d.Claims m.name) :
    ∃ t, (S.document.extend S).lastObject? Names.mutation = some t ∧
      t.fields.filter (·.name == Names.createMutation m.name) =
        ownOrBuilt (d.rootFields Names.mutation) (Scope.localCreate (m.normalized o)) := by
  obtain ⟨t, ht, fields⟩ := h.lastObject?_augmented hroots (.inr ⟨rfl, ho⟩)
  refine ⟨t, ht, ?_⟩
  obtain ⟨taken, added, htaken⟩ := h.newFields_eq hroots (.inr ⟨rfl, ho⟩)
    ((S.models.filter S.generatesMutations).flatMap S.mutations)
  have mutations : S.additions.mutations =
      freshBy Field.name taken ((S.models.filter S.generatesMutations).flatMap S.mutations) := by
    rw [← added, Scope.additions, h.roots]
    rfl
  have single : ∀ t, S.mutations t = [Scope.localCreate t] := by
    intro t
    rw [Scope.mutations, h.options, hlocal]
    rfl
  have named : (Scope.localCreate (m.normalized o)).name = Names.createMutation m.name :=
    congrArg Names.createMutation (m.normalized_name o)
  have mutating : S.generatesMutations (m.normalized o) = true := by
    rw [h.claims_iff hroots ho, m.normalized_name]
    exact free
  rw [fields, if_neg (by decide), mutations, ← named]
  refine filter_append_freshBy htaken (List.mem_flatMap.2 ⟨m.normalized o,
    List.mem_filter.2 ⟨h.normalized_mem hm, mutating⟩, by rw [single]; exact List.mem_cons_self⟩)
    fun f hf hname => ?_
  obtain ⟨t, ht, hf⟩ := List.mem_flatMap.1 hf
  rw [single, List.mem_singleton] at hf
  subst hf
  rw [h.eq_of_mem_models hm (List.mem_filter.1 ht).1
    (Names.createMutation_injective (hname.trans named))]

theorem provides : d.Provides o S (S.document.extend S) m where
  types _ := h.provides_types hlocal hroots hm
  query := h.provides_query hlocal hroots hm
  create := h.provides_create hlocal hroots hm

end

end Prepares

/-- **No model loses a definition to another.** -/
theorem provides_of_augment {d' : Document} (hlocal : o.remote = false) (hroots : d.RootsApart)
    (h : d.augment o = .ok d') :
    ∀ m ∈ d.models, ∃ S, d.Prepares o S ∧ d' = S.document.extend S ∧ d.Provides o S d' m := by
  intro m hm
  rcases prepares_of_augment h with ⟨none, -⟩ | ⟨S, prepares, rfl⟩
  · rw [none] at hm
    cases hm
  · exact ⟨S, prepares, rfl, prepares.provides hlocal hroots hm⟩

/-! ### Names that could be mistaken -/

/-- Two models, the name of one of which goes on like the names of the other's inputs. One of its
own inputs is declared. -/
def overlapping : Document :=
  [.type (.object { name := "Person", directives := [Directive.bare Names.model] }),
   .type (.object { name := "PersonCreate", directives := [Directive.bare Names.model] }),
   .type (.input { name := "PersonCreateCreateInput" })]

theorem provides_of_augment_overlapping : overlapping.RootsApart ∧
    ∃ d', overlapping.augment {} = .ok d' ∧ overlapping.models.length = 2 ∧
      ∀ m ∈ overlapping.models, ∃ S, overlapping.Prepares {} S ∧
        d' = S.document.extend S ∧ overlapping.Provides {} S d' m := by
  have hroots : overlapping.RootsApart := by
    unfold RootsApart
    decide
  have h : ∃ d', overlapping.augment {} = .ok d' := ⟨_, rfl⟩
  obtain ⟨d', h⟩ := h
  exact ⟨hroots, d', h, by decide, provides_of_augment rfl hroots h⟩

end Document

end GraphqlCypher.Schema
