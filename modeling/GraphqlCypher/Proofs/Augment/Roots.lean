import GraphqlCypher.Proofs.Augment.Prepared
import GraphqlCypher.Proofs.Schema.Names

/-! The root of the mutations through an augmentation.

The root of a kind of operations is the last object type of its name
(`Document.lastObject?`). Preparing a document puts one without fields where there is
none, and extending it adds what is generated behind the fields it has
(`lastObject?_extend`). Of the new fields of one name the first stays, so the mutation
that creates a model is there just once (`filter_mutations`). -/
namespace GraphqlCypher.Schema

namespace Document

variable {o : AugmentOptions} {d : Document}

/-- The last object type of a name. -/
def lastObject? (d : Document) (name : String) : Option ObjectType :=
  (d.objects.filter (·.name == name)).getLast?

theorem objects_eq (d : Document) : d.objects = d.placedObjects.map Prod.snd := by
  have hunplaced : d.objects = (d.zipIdx.map Prod.fst).filterMap Definition.object? := by
    rw [List.zipIdx_map_fst]
    rfl
  rw [hunplaced, List.filterMap_map, placedObjects, List.map_filterMap]
  congr 1
  funext p
  obtain ⟨x, i⟩ := p
  simp only [Function.comp_apply, Option.map_map]
  exact Option.map_id'.symm

theorem lastObject?_eq (d : Document) (name : String) :
    d.lastObject? name = ((d.placedObjects.filter (·.2.name == name)).getLast?).map Prod.snd := by
  rw [lastObject?, objects_eq, List.filter_map, List.getLast?_map]
  rfl

theorem lastObject?_of_objects {d e : Document} {f : ObjectType → ObjectType}
    (hname : ∀ t, (f t).name = t.name) (h : e.objects = d.objects.map f) (name : String) :
    e.lastObject? name = (d.lastObject? name).map f := by
  rw [lastObject?, h, List.filter_map, List.getLast?_map, lastObject?]
  congr 2
  exact List.filter_congr fun t _ => by rw [Function.comp_apply, hname]

theorem name_of_lastObject? {name : String} {t : ObjectType} (h : d.lastObject? name = some t) :
    t.name = name := by
  simpa using (List.mem_filter.1 (List.mem_of_getLast? h)).2

theorem exists_place_of_lastObject? {name : String} {t : ObjectType}
    (h : d.lastObject? name = some t) : ∃ i, d.objectAt? i = some t := by
  rw [lastObject?_eq] at h
  obtain ⟨⟨i, t⟩, hlast, rfl⟩ := Option.map_eq_some_iff.1 h
  exact ⟨i, mem_placedObjects.1 (List.mem_of_mem_filter (List.mem_of_getLast? hlast))⟩

/-- Where the models have names of their own, a root is none of them. -/
theorem RootsApart.isModel_root (h : d.RootsApart) {name : String}
    (hname : TypeIndex.isRoot name = true) {t : ObjectType} (ht : d.lastObject? name = some t) :
    t.isModel = false := by
  rw [Bool.eq_false_iff]
  intro hm
  obtain ⟨i, hi⟩ := exists_place_of_lastObject? ht
  exact h.name_ne hname t (mem_models.2 ⟨i, hi, hm⟩) (name_of_lastObject? ht)

/-! ### Scaffolding -/

theorem objects_append (d e : Document) : (d ++ e).objects = d.objects ++ e.objects :=
  List.filterMap_append

theorem objects_withRoots (d : Document) : (d.withRoots o).objects = d.objects := by
  have hobjects : ∀ d : Document, d.objects = (d.map Definition.object?).filterMap id := by
    intro d
    rw [List.filterMap_map]
    rfl
  unfold withRoots
  split
  · rw [hobjects, object?_completeRoots, ← hobjects]
  · split
    · exact (objects_append d _).trans (List.append_nil _)
    · rfl

theorem hasObject_iff_lastObject? {name : String} :
    d.hasObject name = true ↔ d.lastObject? name ≠ none := by
  rw [lastObject?, ne_eq, List.getLast?_eq_none_iff, List.filter_eq_nil_iff, hasObject,
    List.any_eq_true]
  simp

theorem lastObject?_withObject_self (d : Document) (name : String) :
    (d.withObject true name).lastObject? name = some ((d.lastObject? name).getD { name }) := by
  cases ht : d.lastObject? name with
  | some t =>
    have hobject : d.hasObject name = true := hasObject_iff_lastObject?.2 (by simp [ht])
    simp [withObject, hobject, ht]
  | none =>
    have hobject : d.hasObject name = false := by
      rw [Bool.eq_false_iff]
      exact fun h => hasObject_iff_lastObject?.1 h ht
    have hnew : d.withObject true name = d ++ [.type (.object { name })] := by
      simp [withObject, hobject]
    rw [hnew, lastObject?, objects_append, List.filter_append, List.getLast?_append]
    simp [objects, Definition.object?]

theorem lastObject?_withObject_ne (d : Document) (enabled : Bool) {other name : String}
    (hne : other ≠ name) : (d.withObject enabled other).lastObject? name = d.lastObject? name := by
  unfold withObject
  split
  · rw [lastObject?, objects_append, List.filter_append]
    simp [objects, Definition.object?, hne, lastObject?]
  · rfl

/-- A root that is enabled. -/
def RootEnabled (o : AugmentOptions) (root : String) : Prop :=
  root = Names.query ∧ o.query = true ∨ root = Names.mutation ∧ o.mutation = true

theorem RootEnabled.isRoot {root : String} (h : RootEnabled o root) :
    TypeIndex.isRoot root = true := by
  rcases h with ⟨rfl, -⟩ | ⟨rfl, -⟩ <;> decide

theorem lastObject?_scaffold {root : String} (h : RootEnabled o root) :
    (d.scaffold o).lastObject? root = some ((d.lastObject? root).getD { name := root }) := by
  have rooted : (d.withRoots o).lastObject? root = d.lastObject? root := by
    rw [lastObject?, objects_withRoots, lastObject?]
  rcases h with ⟨rfl, ho⟩ | ⟨rfl, ho⟩
  · rw [scaffold, lastObject?_withObject_ne _ _ (by decide), ho, lastObject?_withObject_self, rooted]
  · rw [scaffold, ho, lastObject?_withObject_self, lastObject?_withObject_ne _ _ (by decide), rooted]

end Document

/-! ### The index of the root -/

namespace RootFields

variable {d : Document} {root : String}

theorem find?_of_lastObject? {t : ObjectType} (h : d.lastObject? root = some t) :
    ∃ r, find? d root = some r ∧ d.objectAt? r.place = some t ∧
      r.fields.keys = (Entries.ofList (t.fields.zipIdx.map fun f => (f.1.name, f.2))).keys := by
  rw [Document.lastObject?_eq] at h
  obtain ⟨⟨i, t⟩, hlast, rfl⟩ := Option.map_eq_some_iff.1 h
  refine ⟨_, by rw [find?_eq, hlast]; rfl, ?_, rfl⟩
  exact Document.mem_placedObjects.1 (List.mem_of_mem_filter (List.mem_of_getLast? hlast))

end RootFields

/-! ### Extending -/

/-- Of the items with one key that is not taken, the first is left. -/
theorem filter_freshBy {α : Type} (key : α → String) {taken : List String} {k : String}
    (hk : k ∉ taken) (items : List α) :
    (freshBy key taken items).filter (key · == k) =
      (items.filter (key · == k)).head?.toList := by
  induction items generalizing taken with
  | nil => rfl
  | cons b rest ih =>
    rw [freshBy]
    by_cases hb : key b = k
    · have hnone : (freshBy key (key b :: taken) rest).filter (key · == k) = [] := by
        refine List.filter_eq_nil_iff.2 fun a ha hak => ?_
        have hfresh := not_mem_of_mem_freshBy key _ rest a ha
        rw [beq_iff_eq.1 hak, ← hb] at hfresh
        exact hfresh List.mem_cons_self
      have htaken : taken.contains (key b) = false := by simpa [hb] using hk
      rw [htaken, if_neg (by decide), List.filter_cons_of_pos (by simpa using hb),
        List.filter_cons_of_pos (by simpa using hb), hnone]
      rfl
    · rw [List.filter_cons_of_neg (by simpa using hb)]
      split
      · exact ih hk
      · rw [List.filter_cons_of_neg (by simpa using hb)]
        exact ih (by simpa using ⟨Ne.symm hb, hk⟩)

theorem filter_flatMap_eq_singleton {α β : Type} {items : List α} {g : α → List β} {p : β → Bool}
    {key : α → String} (hnodup : (items.map key).Nodup) {a : α} (ha : a ∈ items) {b : β}
    (hself : (g a).filter p = [b]) (hother : ∀ c, key c ≠ key a → (g c).filter p = []) :
    (items.flatMap g).filter p = [b] := by
  induction items with
  | nil => cases ha
  | cons c rest ih =>
    obtain ⟨hc, hrest⟩ := List.nodup_cons.1 hnodup
    rw [List.flatMap_cons, List.filter_append]
    rcases List.mem_cons.1 ha with rfl | ha
    · have hnone : (rest.flatMap g).filter p = [] := by
        rw [List.filter_flatMap, List.flatMap_eq_nil_iff]
        exact fun x hx => hother x fun e => hc (e ▸ List.mem_map_of_mem hx)
      rw [hself, hnone, List.append_nil]
    · rw [hother c fun e => hc (e ▸ List.mem_map_of_mem ha), ih hrest ha, List.nil_append]

namespace Scope

/-- The mutation that creates a model. -/
def create (S : Scope) (m : ObjectType) : Field :=
  if S.options.remote then remoteCreate m else localCreate m

theorem create_name (S : Scope) (m : ObjectType) :
    (S.create m).name = Names.createMutation m.name := by
  unfold create
  split <;> rfl

namespace Indexed

variable {S : Scope} (h : S.Indexed)
include h

theorem mutations_eq {t : ObjectType} (ht : S.document.lastObject? Names.mutation = some t) :
    ∃ r, S.roots.mutations = some r ∧ S.document.objectAt? r.place = some t ∧
      ∀ n, n ∈ r.fields.keys ↔ n ∈ t.fields.map Field.name := by
  obtain ⟨r, hr, hplace, hkeys⟩ := RootFields.find?_of_lastObject? ht
  refine ⟨r, by rw [h.roots, RootIndex.ofDocument, hr], hplace, fun n => ?_⟩
  rw [hkeys, RootFields.mem_keys_fields]

/-- A model gets its mutations unless the root of the mutations has its name. -/
theorem generatesMutations_iff {t : ObjectType}
    (ht : S.document.lastObject? Names.mutation = some t) (m : ObjectType) :
    S.generatesMutations m = true ↔
      S.options.mutation = true ∧ m.name ∉ t.fields.map Field.name := by
  obtain ⟨r, hr, -, hkeys⟩ := h.mutations_eq ht
  rw [generatesMutations, hr, ← hkeys, ← Entries.contains_iff_mem_keys]
  simp [declares, RootFields.has]

/-- Extending adds the new mutations behind the fields of their root, which is rebuilt before
that if it is a model. -/
theorem lastObject?_extended {t : ObjectType}
    (ht : S.document.lastObject? Names.mutation = some t) :
    (S.document.extend S).lastObject? Names.mutation =
      let kept := if t.isModel then S.remade t else t
      some { kept with fields := kept.fields ++ S.additions.mutations } := by
  obtain ⟨r, hr, hplace, -⟩ := h.mutations_eq ht
  have hname := Document.name_of_lastObject? ht
  have hadded : S.addedFields r.place = S.additions.mutations := by
    have hqueries : S.roots.queries.map RootFields.place ≠ some r.place := by
      intro hq
      obtain ⟨q, hq, hqr⟩ := Option.map_eq_some_iff.1 hq
      rw [h.roots] at hq
      obtain ⟨u, hu, huname, -⟩ := RootFields.find?_some hq
      rw [hqr, hplace] at hu
      cases hu
      rw [hname] at huname
      exact absurd huname (by decide)
    rw [addedFields, if_neg hqueries, hr, Option.map_some, if_pos rfl, List.nil_append]
  have hlast : (S.document.placedObjects.filter (·.2.name == Names.mutation)).getLast? =
      some (r.place, t) := by
    rw [h.roots] at hr
    obtain ⟨u, hu, -, -, hlast⟩ := RootFields.find?_some hr
    rw [hplace] at hu
    cases hu
    exact hlast
  rw [Document.lastObject?_eq, Document.placedObjects_extend, List.filter_map]
  have hfilter : S.document.placedObjects.filter
      ((fun p : Nat × ObjectType => p.2.name == Names.mutation) ∘
        fun p => (p.1, S.extended p.1 p.2)) =
      S.document.placedObjects.filter (·.2.name == Names.mutation) :=
    List.filter_congr fun p _ => by simp only [Function.comp_apply, S.extended_name]
  rw [hfilter, List.getLast?_map, hlast, ← hadded]
  rfl

/-- A root that is no model only takes the new mutations. -/
theorem lastObject?_extend (hroots : S.document.RootsApart) {t : ObjectType}
    (ht : S.document.lastObject? Names.mutation = some t) :
    (S.document.extend S).lastObject? Names.mutation =
      some { t with fields := t.fields ++ S.additions.mutations } := by
  have hmodel := hroots.isModel_root (by decide) ht
  simpa only [hmodel, Bool.false_eq_true, if_false] using h.lastObject?_extended ht

omit h in
/-- Of the mutations of a model, the one that creates it has such a name, and only it. -/
theorem filter_mutations (m : ObjectType) (name : String) :
    (S.mutations m).filter (·.name == Names.createMutation name) =
      if m.name = name then [S.create m] else [] := by
  have hmutations : ∃ rest, S.mutations m = S.create m :: rest ∧
      rest.filter (·.name == Names.createMutation name) = [] := by
    unfold mutations create
    split
    · refine ⟨_, rfl, List.filter_eq_nil_iff.2 fun f hf hname => ?_⟩
      obtain ⟨g, -, hg⟩ := List.mem_filterMap.1 hf
      obtain ⟨related, -, hg⟩ := Option.bind_eq_some_iff.1 hg
      obtain ⟨statement, -, rfl⟩ := Option.map_eq_some_iff.1 hg
      exact Names.relationMutation_ne_createMutation _ _ _ (beq_iff_eq.1 hname)
    · exact ⟨[], rfl, rfl⟩
  obtain ⟨rest, hmutations, hrest⟩ := hmutations
  rw [hmutations, List.filter_cons, hrest, S.create_name]
  by_cases hname : m.name = name
  · rw [if_pos hname, if_pos (by rw [hname]; exact BEq.rfl)]
  · rw [if_neg hname, if_neg fun e => hname (Names.createMutation_injective (beq_iff_eq.1 e))]

/-- In the root of the mutations there is one field that creates a model, if neither that
name nor the model's was taken. -/
theorem filter_create (hroots : S.document.RootsApart) (ho : S.options.mutation = true)
    {t : ObjectType} (ht : S.document.lastObject? Names.mutation = some t) {m : ObjectType}
    (hm : m ∈ S.document.models) (hfree : m.name ∉ t.fields.map Field.name)
    (hcreate : Names.createMutation m.name ∉ t.fields.map Field.name) :
    ∃ t', (S.document.extend S).lastObject? Names.mutation = some t' ∧
      t'.fields.filter (·.name == Names.createMutation m.name) = [S.create m] := by
  obtain ⟨r, hr, -, hkeys⟩ := h.mutations_eq ht
  refine ⟨_, h.lastObject?_extend hroots ht, ?_⟩
  have hold : t.fields.filter (·.name == Names.createMutation m.name) = [] :=
    List.filter_eq_nil_iff.2 fun f hf hname =>
      hcreate (List.mem_map.2 ⟨f, hf, beq_iff_eq.1 hname⟩)
  have hmutating : m ∈ S.models.filter S.generatesMutations := by
    rw [List.mem_filter, h.models_eq]
    exact ⟨hm, (h.generatesMutations_iff ht m).2 ⟨ho, hfree⟩⟩
  have hnodup : ((S.models.filter S.generatesMutations).map ObjectType.name).Nodup := by
    rw [h.models_eq]
    exact (TypeIndex.nodup_models h.index).sublist (List.filter_sublist.map _)
  have hall : ((S.models.filter S.generatesMutations).flatMap S.mutations).filter
      (·.name == Names.createMutation m.name) = [S.create m] := by
    refine filter_flatMap_eq_singleton hnodup hmutating ?_ fun c hc => ?_
    · rw [filter_mutations, if_pos rfl]
    · rw [filter_mutations, if_neg hc]
  have hadded : S.additions.mutations =
      freshBy Field.name r.fields.keys
        ((S.models.filter S.generatesMutations).flatMap S.mutations) := by
    rw [additions, hr]
    rfl
  rw [List.filter_append, hold, List.nil_append, hadded,
    filter_freshBy Field.name fun hk => hcreate ((hkeys _).1 hk), hall]
  rfl

end Indexed

end Scope

/-! ### From the document itself -/

namespace Document.Prepares

variable {o : AugmentOptions} {d : Document} {S : Scope} (h : d.Prepares o S)
include h

theorem rootsApart (hroots : d.RootsApart) : S.document.RootsApart := by
  intro t ht
  rw [h.models_eq] at ht
  obtain ⟨m, hm, rfl⟩ := List.mem_map.1 ht
  rw [m.normalized_name]
  exact hroots m hm

/-- A root is normalized if it is a model. -/
theorem lastObject?_normalized {root : String} (enabled : RootEnabled o root) :
    S.document.lastObject? root =
      some (((d.lastObject? root).getD { name := root }).settled o) := by
  have hname : ∀ t : ObjectType, (t.settled o).name = t.name := by
    intro t
    obtain ⟨fields, ht⟩ := t.settled_eq o
    rw [ht]
  have hobjects : S.document.objects = (d.scaffold o).objects.map (ObjectType.settled o) := by
    rw [h.document_eq, objects_eq, placedObjects_editObjects, objects_eq, List.map_map,
      List.map_map]
    rfl
  have hlast := lastObject?_of_objects hname hobjects root
  rwa [lastObject?_scaffold enabled, Option.map_some] at hlast

theorem lastObject?_settled (ho : o.mutation = true) :
    S.document.lastObject? Names.mutation =
      some (((d.lastObject? Names.mutation).getD { name := Names.mutation }).settled o) :=
  h.lastObject?_normalized (.inr ⟨rfl, ho⟩)

/-- A root keeps its fields while the document is prepared, if no model has its name. -/
theorem lastObject?_scaffolded (hroots : d.RootsApart) {root : String}
    (enabled : RootEnabled o root) :
    S.document.lastObject? root = some ((d.lastObject? root).getD { name := root }) := by
  have hsettled : ((d.lastObject? root).getD { name := root }).settled o =
      (d.lastObject? root).getD { name := root } := by
    unfold ObjectType.settled
    refine if_neg (Bool.eq_false_iff.1 ?_)
    cases ht : d.lastObject? root with
    | none => rfl
    | some t => exact hroots.isModel_root enabled.isRoot ht
  rw [h.lastObject?_normalized enabled, hsettled]

theorem lastObject?_mutation (hroots : d.RootsApart) (ho : o.mutation = true) :
    S.document.lastObject? Names.mutation =
      some ((d.lastObject? Names.mutation).getD { name := Names.mutation }) :=
  h.lastObject?_scaffolded hroots (.inr ⟨rfl, ho⟩)

/-- The extended document creates a model of the document in one field, if neither that
name nor the model's was taken. -/
theorem filter_create (hroots : d.RootsApart) (ho : o.mutation = true) {m : ObjectType}
    (hm : m ∈ d.models)
    (hfree : ∀ t, d.lastObject? Names.mutation = some t → m.name ∉ t.fields.map Field.name ∧
      Names.createMutation m.name ∉ t.fields.map Field.name) :
    ∃ t, (S.document.extend S).lastObject? Names.mutation = some t ∧
      t.fields.filter (·.name == Names.createMutation m.name) = [S.create (m.normalized o)] := by
  have hroot := h.lastObject?_mutation hroots ho
  have hmem : m.normalized o ∈ S.document.models := by
    rw [h.models_eq]
    exact List.mem_map_of_mem hm
  have hname := m.normalized_name o
  have hfields : m.name ∉
        ((d.lastObject? Names.mutation).getD { name := Names.mutation }).fields.map Field.name ∧
      Names.createMutation m.name ∉
        ((d.lastObject? Names.mutation).getD { name := Names.mutation }).fields.map Field.name := by
    cases ht : d.lastObject? Names.mutation with
    | none => exact ⟨List.not_mem_nil, List.not_mem_nil⟩
    | some t => exact hfree t ht
  have hoptions : S.options.mutation = true := by rw [h.options, ho]
  rw [← hname] at hfields ⊢
  exact h.indexed.filter_create (h.rootsApart hroots) hoptions hroot hmem hfields.1 hfields.2

end Document.Prepares

end GraphqlCypher.Schema
