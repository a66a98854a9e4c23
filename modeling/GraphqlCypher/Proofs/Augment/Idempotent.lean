import GraphqlCypher.Proofs.Augment.Extension
import GraphqlCypher.Proofs.Language.Reader
import GraphqlCypher.Proofs.Schema.IdField

/-! Augmenting twice.

An augmented document is its own augmentation (`augment_augment`). Every pass finds
its own work done: the roots stand, the models are in normal form, rebuilding gives
each field the arguments it has, and all that would be added is declared.

The names of the models matter. A model that is a root would be extended and rebuilt
at once, and one named `ID` or `Int` would give arguments to `id` or to the internal
id. The text of an `id` field tells its type only if names are names of the grammar,
which those of a document that was read are (`Document.WellNamed.of_parse`). -/
namespace GraphqlCypher.Schema

/-- Types that generated fields refer to, and the roots. -/
def reservedNames : List String := [Names.query, Names.mutation, "ID", "Int"]

/-- The models have names of the grammar, and none that is reserved. -/
def Document.WellNamed (d : Document) : Prop :=
  ∀ t ∈ d.models, Token.isName t.name = true ∧ t.name ∉ reservedNames

/-- In a document that was read, only the reserved names can be wrong. -/
theorem Document.WellNamed.of_parse {text : String} {d : Document}
    (h : Document.parse text = .ok d) (hfree : ∀ t ∈ d.models, t.name ∉ reservedNames) :
    d.WellNamed := by
  intro t ht
  exact ⟨isName_of_parse h t (mem_objects_of_mem_models ht), hfree t ht⟩

theorem Document.WellNamed.rootsApart {d : Document} (h : d.WellNamed) : d.RootsApart := by
  intro t ht
  have hname := (h t ht).2
  simp only [reservedNames, List.mem_cons, not_or] at hname
  simp [TypeIndex.isRoot, hname.1, hname.2.1]

namespace Scope

/-- The scope of the extended document. -/
def after (S : Scope) : Scope :=
  { S with
    document := S.document.extend S
    roots := RootIndex.ofDocument (S.document.extend S) }

variable {S : Scope}

theorem Indexed.after (h : S.Indexed) : S.after.Indexed :=
  ⟨(TypeIndex.ofDocument_extend S S.document).trans h.index, rfl⟩

theorem Indexed.after_model? (h : S.Indexed) (hroots : S.document.RootsApart) (name : String) :
    S.after.model? name = (S.model? name).map S.remade := by
  rw [h.after.model?_eq, h.model?_eq]
  show ((S.document.extend S).models.find? _) = _
  rw [h.models_extend hroots, List.find?_map]
  congr 2
  funext t
  simp only [Function.comp_apply, S.remade_name]

/-! ### Rebuilding twice -/

theorem rebuildField_eq (S : Scope) (f : Field) :
    ∃ arguments, S.rebuildField f = { f with arguments } := by
  unfold rebuildField
  split
  · exact ⟨_, rfl⟩
  · exact ⟨_, rfl⟩

/-- The value arguments of a model do not depend on the arguments of its fields, nor
on the internal id. -/
theorem valueArguments_rebuild (S : Scope) (m : ObjectType) :
    S.valueArguments (S.rebuild m) = S.valueArguments m := by
  have htail : ∀ p : Bool, List.filter (fun f => !f.isInternalId && !S.leadsToModel f)
      (if p = true then [] else [({ name := Names.internalId, type := .named "Int" } : Field)]) =
        [] := by
    intro p
    cases p <;> rfl
  have hfields : S.valueFields (S.rebuild m) = (S.valueFields m).map S.rebuildField := by
    simp only [valueFields, rebuild, List.filter_append, htail, List.append_nil, List.filter_map]
    congr 1
    refine List.filter_congr fun f _ => ?_
    obtain ⟨arguments, hf⟩ := S.rebuildField_eq f
    rw [Function.comp_apply, hf]
    rfl
  rw [valueArguments, hfields, valueArguments, List.flatMap_map]
  congr 1
  funext f
  obtain ⟨arguments, hf⟩ := S.rebuildField_eq f
  rw [hf]

section Local
variable (h : S.Indexed) (hroots : S.document.RootsApart) (hlocal : S.options.remote = false)
include h hroots hlocal

/-- A field leads to the same arguments before and after. -/
theorem after_relationArguments? {f g : Field} (htype : g.type = f.type) :
    S.after.relationArguments? g = S.relationArguments? f := by
  have hmodel := h.after_model? hroots f.typeName
  unfold relationArguments?
  rw [Field.typeName, htype, ← Field.typeName, hmodel, Option.map_map]
  congr 1
  funext related
  have hremade : S.remade related = S.rebuild related := by simp [remade, hlocal]
  have hvalues : S.after.valueArguments (S.rebuild related) = S.valueArguments related :=
    S.valueArguments_rebuild related
  rw [Function.comp_apply, hremade, hvalues]
  rfl

theorem after_rebuildField (f : Field) :
    S.after.rebuildField (S.rebuildField f) = S.rebuildField f := by
  obtain ⟨arguments, hf⟩ := S.rebuildField_eq f
  have hafter : S.after.relationArguments? (S.rebuildField f) = S.relationArguments? f :=
    after_relationArguments? h hroots hlocal (by rw [hf])
  rw [rebuildField, hafter, rebuildField]
  cases S.relationArguments? f <;> rfl

/-- Rebuilding a rebuilt model changes nothing, if no model is an `Int`. -/
theorem after_rebuild (hint : S.model? "Int" = none) (m : ObjectType) :
    S.after.rebuild (S.rebuild m) = S.rebuild m := by
  have hinternal : (S.rebuild m).fields.any Field.isInternalId = true := by
    cases hm : m.fields.any Field.isInternalId with
    | true =>
      obtain ⟨f, hf, hid⟩ := List.any_eq_true.1 hm
      obtain ⟨arguments, hfe⟩ := S.rebuildField_eq f
      refine List.any_eq_true.2 ⟨S.rebuildField f, ?_, by rw [hfe]; exact hid⟩
      exact List.mem_append_left _ (List.mem_map_of_mem hf)
    | false => simp [rebuild, hm, Field.isInternalId]
  have hadded : S.after.rebuildField { name := Names.internalId, type := .named "Int" } =
      { name := Names.internalId, type := .named "Int" } := by
    have hnone : S.after.model? "Int" = none := by rw [h.after_model? hroots, hint]; rfl
    simp only [rebuildField, relationArguments?, Field.typeName, TypeRef.name, hnone,
      Option.map_none]
  have hfields : (S.rebuild m).fields.map S.after.rebuildField = (S.rebuild m).fields := by
    simp only [rebuild, List.map_append, List.map_map]
    congr 1
    · exact List.map_congr_left fun f _ => after_rebuildField h hroots hlocal f
    · split
      · rfl
      · rw [List.map_singleton, hadded]
  rw [rebuild, hfields, hinternal, if_pos rfl, List.append_nil]

end Local

/-! ### Normal forms -/

theorem Indexed.name_of_model? (h : S.Indexed) {name : String} {t : ObjectType}
    (ht : S.model? name = some t) : t ∈ S.document.models ∧ t.name = name := by
  rw [h.model?_eq] at ht
  exact ⟨List.mem_of_find?_eq_some ht, by simpa using List.find?_some ht⟩

/-- An accepted `id` field leads to no model. -/
theorem Indexed.model?_of_accepted (h : S.Indexed) (hnamed : S.document.WellNamed) {f : Field}
    (hid : f.name = Names.id)
    (haccept : (acceptedIdFields S.options.remote).contains (Inline.field f) = true) :
    S.model? f.typeName = none := by
  cases ht : S.model? f.typeName with
  | none => rfl
  | some t =>
    exfalso
    obtain ⟨hmem, hname⟩ := h.name_of_model? ht
    obtain ⟨hisName, hreserved⟩ := hnamed t hmem
    rw [hname] at hisName hreserved
    rw [Field.typeName_of_accepted hid haccept hisName] at hreserved
    exact hreserved (by decide)

theorem Indexed.model?_int (h : S.Indexed) (hnamed : S.document.WellNamed) :
    S.model? "Int" = none := by
  cases ht : S.model? "Int" with
  | none => rfl
  | some t =>
    exfalso
    obtain ⟨hmem, hname⟩ := h.name_of_model? ht
    exact (hnamed t hmem).2 (by rw [hname]; decide)

theorem Indexed.normal_rebuild (h : S.Indexed) (hnamed : S.document.WellNamed) {m : ObjectType}
    (hm : m.Normal S.options) : (S.rebuild m).Normal S.options := by
  constructor
  · intro f hf
    rcases List.mem_append.1 hf with hf | hf
    · obtain ⟨g, hg, rfl⟩ := List.mem_map.1 hf
      obtain ⟨arguments, he⟩ := S.rebuildField_eq g
      rw [he]
      exact hm.reduced g hg
    · split at hf
      · cases hf
      · rw [List.mem_singleton.1 hf]
        rfl
  · intro ho
    obtain ⟨f, rest, hfields, hid, haccept⟩ := hm.identified ho
    have hf : S.rebuildField f = f := by
      simp only [rebuildField, relationArguments?, h.model?_of_accepted hnamed hid haccept,
        Option.map_none]
    have hrebuilt : ∃ more, (S.rebuild m).fields = f :: more := by
      simp only [rebuild, hfields, List.map_cons, hf, List.cons_append]
      exact ⟨_, rfl⟩
    obtain ⟨more, hmore⟩ := hrebuilt
    exact ⟨f, more, hmore, hid, haccept⟩

theorem Indexed.normal_remade (h : S.Indexed) (hnamed : S.document.WellNamed) {m : ObjectType}
    (hm : m.Normal S.options) : (S.remade m).Normal S.options := by
  unfold remade
  split
  · exact hm
  · exact h.normal_rebuild hnamed hm

theorem Indexed.after_remade (h : S.Indexed) (hnamed : S.document.WellNamed) (m : ObjectType) :
    S.after.remade (S.remade m) = S.remade m := by
  cases hremote : S.options.remote with
  | true =>
    have hafter : S.after.options.remote = true := hremote
    simp only [remade, hremote, hafter, if_true]
  | false =>
    have hafter : S.after.options.remote = false := hremote
    simp only [remade, hremote, hafter, Bool.false_eq_true, if_false]
    exact after_rebuild h hnamed.rootsApart hremote (h.model?_int hnamed) m

/-! ### Nothing more to add -/

theorem freshBy_eq_nil {α : Type} {key : α → String} {taken : List String} {items : List α}
    (h : ∀ a ∈ items, key a ∈ taken) : freshBy key taken items = [] := by
  induction items with
  | nil => rfl
  | cons a rest ih =>
    rw [freshBy, if_pos (List.contains_iff_mem.2 (h a (List.mem_cons_self ..)))]
    exact ih fun b hb => h b (List.mem_cons_of_mem _ hb)

/-- Every key is taken or left. -/
theorem mem_keys_freshBy {α : Type} (key : α → String) (taken : List String) {items : List α}
    {a : α} (h : a ∈ items) : key a ∈ taken ∨ key a ∈ (freshBy key taken items).map key := by
  induction items generalizing taken with
  | nil => cases h
  | cons b rest ih =>
    rw [freshBy]
    rcases List.mem_cons.1 h with rfl | h
    · split
      · next hb => exact .inl (List.contains_iff_mem.1 hb)
      · exact .inr (by rw [List.map_cons]; exact List.mem_cons_self ..)
    · split
      · exact ih taken h
      · rcases ih (key b :: taken) h with h | h
        · rcases List.mem_cons.1 h with h | h
          · exact .inr (by rw [List.map_cons, h]; exact List.mem_cons_self ..)
          · exact .inl h
        · exact .inr (by rw [List.map_cons]; exact List.mem_cons_of_mem _ h)

/-- Once a root has its new fields, none are new. -/
theorem newFields_extended {root : String} (fields : List Field) {again : List Field}
    (hroot : ∀ t ∈ S.document.models, t.name ≠ root)
    (hadded : ∀ r, RootFields.find? S.document root = some r →
      ∀ f ∈ newFields (some r) fields, f ∈ S.addedFields r.place)
    (hagain : ∀ f ∈ again, f.name ∈ fields.map Field.name) :
    newFields (RootFields.find? (S.document.extend S) root) again = [] := by
  cases hr : RootFields.find? S.document root with
  | none => rw [RootFields.find?_extend_none hr]; rfl
  | some r =>
    obtain ⟨r', hr', -, hkeys⟩ := RootFields.find?_extend_some hroot hr
    rw [hr', newFields]
    refine freshBy_eq_nil fun f hf => (hkeys f.name).2 ?_
    obtain ⟨g, hg, hname⟩ := List.mem_map.1 (hagain f hf)
    rw [← hname]
    rcases mem_keys_freshBy Field.name r.fields.keys hg with h | h
    · exact .inl h
    · obtain ⟨g', hg', hname'⟩ := List.mem_map.1 h
      exact .inr (List.mem_map.2 ⟨g', hadded r hr g' hg', hname'⟩)

theorem Indexed.generatesMutations_of_after (h : S.Indexed) (hroots : S.document.RootsApart)
    {m : ObjectType} (hm : S.after.generatesMutations (S.remade m) = true) :
    S.generatesMutations m = true := by
  have hname : S.after.generatesMutations (S.remade m) = S.after.generatesMutations m := by
    simp only [generatesMutations, S.remade_name]
  rw [hname] at hm
  simp only [generatesMutations, h.roots, h.after.roots, RootIndex.ofDocument, Bool.and_eq_true,
    Bool.not_eq_true'] at hm ⊢
  obtain ⟨⟨hoption, hsome⟩, hfree⟩ := hm
  have hmutation : ∀ t ∈ S.document.models, t.name ≠ Names.mutation := hroots.name_ne (by decide)
  cases hr : RootFields.find? S.document Names.mutation with
  | none =>
    rw [show S.after.document = S.document.extend S from rfl, RootFields.find?_extend_none hr]
      at hsome
    cases hsome
  | some r =>
    obtain ⟨r', hr', -, hkeys⟩ := RootFields.find?_extend_some (S := S) hmutation hr
    rw [show S.after.document = S.document.extend S from rfl, hr'] at hfree
    refine ⟨⟨hoption, rfl⟩, ?_⟩
    simp only [declares, RootFields.has, Option.map_some, Option.getD_some] at hfree ⊢
    cases hc : r.fields.contains m.name with
    | false => rfl
    | true =>
      have hmem := (hkeys m.name).2 (.inl ((Entries.contains_iff_mem_keys ..).1 hc))
      rw [(Entries.contains_iff_mem_keys ..).2 hmem] at hfree
      cases hfree

/-- The mutations of a model keep their names. -/
theorem Indexed.after_mutations_names (h : S.Indexed) (hroots : S.document.RootsApart)
    (m : ObjectType) :
    (S.after.mutations (S.remade m)).map Field.name = (S.mutations m).map Field.name := by
  cases hremote : S.options.remote with
  | false =>
    have hafter : S.after.options.remote = false := hremote
    simp only [mutations, hremote, hafter, Bool.false_eq_true, if_false, List.map_singleton,
      localCreate, S.remade_name]
  | true =>
    have hafter : S.after.options.remote = true := hremote
    have hremade : S.remade = id := by
      funext t
      simp [remade, hremote]
    have hmodel : S.after.model? = S.model? := by
      funext name
      rw [h.after_model? hroots, hremade, Option.map_id]
      rfl
    have hrelation : S.after.relationMutation? m = S.relationMutation? m := by
      funext f
      rw [relationMutation?, hmodel, relationMutation?]
    simp only [mutations, hremote, hafter, if_true, hremade, id_eq, hrelation]

/-- The types of a model keep their names, and there are no new ones. -/
theorem Indexed.after_types_names (h : S.Indexed) (hroots : S.document.RootsApart)
    {m : ObjectType} {t : TypeDefinition} (ht : t ∈ S.after.types (S.remade m)) :
    t.name ∈ (S.types m).map TypeDefinition.name := by
  have hname := S.remade_name m
  have hoptions : S.after.options = S.options := rfl
  unfold types at ht ⊢
  rw [List.map_append, List.mem_append]
  rcases List.mem_append.1 ht with ht | ht
  · left
    rw [hoptions] at ht
    split at ht
    · cases ht
    · next hlocal =>
      rw [if_neg hlocal]
      simp only [List.mem_cons, List.not_mem_nil, or_false] at ht
      rcases ht with rfl | rfl
      · simp [TypeDefinition.name, ordering, hname]
      · simp [TypeDefinition.name, filter, hname]
  · right
    split at ht
    · next hgenerates =>
      rw [if_pos (h.generatesMutations_of_after hroots hgenerates)]
      rw [hname] at ht
      rw [List.map_append, List.mem_append]
      rcases List.mem_append.1 ht with ht | ht
      · exact .inl (List.mem_map_of_mem ht)
      · simp only [List.mem_cons, List.not_mem_nil, or_false] at ht
        rcases ht with rfl | rfl
        · simp [TypeDefinition.name, createInput, hname]
        · simp [TypeDefinition.name, whereUniqueInput, hname]
    · cases ht

section Additions
variable (h : S.Indexed) (hroots : S.document.RootsApart)
include h hroots

theorem after_models : S.after.models = S.models.map S.remade := by
  rw [h.after.models_eq, h.models_eq]
  exact h.models_extend hroots

theorem after_additions_queries : S.after.additions.queries = [] := by
  refine newFields_extended (if S.options.remote || !S.options.query then []
    else S.models.map S.listQuery) (hroots.name_ne (by decide))
    (fun r hr f hf => ?_) fun f hf => ?_
  · refine List.mem_append_left _ ?_
    rw [h.roots, RootIndex.ofDocument, hr, Option.map_some, if_pos rfl, additions, h.roots,
      RootIndex.ofDocument, hr]
    exact hf
  · have hoptions : S.after.options = S.options := rfl
    rw [hoptions, after_models h hroots] at hf
    split at hf
    · cases hf
    · next hquery =>
      rw [if_neg hquery, List.map_map]
      obtain ⟨m', hm', rfl⟩ := List.mem_map.1 hf
      obtain ⟨m, hm, rfl⟩ := List.mem_map.1 hm'
      exact List.mem_map.2 ⟨m, hm, (S.remade_name m).symm⟩

theorem after_additions_mutations : S.after.additions.mutations = [] := by
  refine newFields_extended ((S.models.filter S.generatesMutations).flatMap S.mutations)
    (hroots.name_ne (by decide)) (fun r hr f hf => ?_) fun f hf => ?_
  · refine List.mem_append_right _ ?_
    rw [h.roots, RootIndex.ofDocument, hr, Option.map_some, if_pos rfl, additions, h.roots,
      RootIndex.ofDocument, hr]
    exact hf
  · obtain ⟨m', hm', hf⟩ := List.mem_flatMap.1 hf
    obtain ⟨hmem, hgenerates⟩ := List.mem_filter.1 hm'
    rw [after_models h hroots] at hmem
    obtain ⟨m, hm, rfl⟩ := List.mem_map.1 hmem
    have hname := List.mem_map_of_mem (f := Field.name) hf
    rw [h.after_mutations_names hroots] at hname
    obtain ⟨g, hg, hgf⟩ := List.mem_map.1 hname
    have hbefore := h.generatesMutations_of_after hroots hgenerates
    exact List.mem_map.2
      ⟨g, List.mem_flatMap.2 ⟨m, List.mem_filter.2 ⟨hm, hbefore⟩, hg⟩, hgf⟩

theorem after_additions_types : S.after.additions.types = [] := by
  refine freshBy_eq_nil fun t ht => ?_
  obtain ⟨m', hm', ht⟩ := List.mem_flatMap.1 ht
  rw [after_models h hroots] at hm'
  obtain ⟨m, hm, rfl⟩ := List.mem_map.1 hm'
  obtain ⟨u, hu, hname⟩ := List.mem_map.1 (h.after_types_names hroots ht)
  show t.name ∈ (S.document.extend S).typeNames
  rw [Document.typeNames_extend, ← hname, List.mem_append]
  exact mem_keys_freshBy _ _ (List.mem_flatMap.2 ⟨m, hm, hu⟩)

/-- An extended document has all that is generated for it. -/
theorem after_additions : S.after.additions = ⟨[], [], []⟩ := by
  have hqueries := after_additions_queries h hroots
  have hmutations := after_additions_mutations h hroots
  have htypes := after_additions_types h hroots
  cases hadditions : S.after.additions with
  | mk queries mutations types =>
    rw [hadditions] at hqueries hmutations htypes
    simp only at hqueries hmutations htypes
    rw [hqueries, hmutations, htypes]

end Additions

/-- Extending an extended document changes nothing. -/
theorem Indexed.extend_after (h : S.Indexed) (hnamed : S.document.WellNamed) :
    S.after.document.extend S.after = S.after.document := by
  have hroots := hnamed.rootsApart
  have hadded : ∀ i, S.after.addedFields i = [] := by
    intro i
    rw [addedFields, after_additions h hroots]
    simp
  rw [Document.extend_eq, after_additions h hroots, List.map_nil, List.append_nil]
  refine Document.editObjects_eq_self fun i t ht => ?_
  rw [extended, hadded i]
  cases hm : t.isModel with
  | false => simp
  | true =>
    have hmem : t ∈ (S.document.extend S).models := Document.mem_models.2 ⟨i, ht, hm⟩
    rw [h.models_extend hroots] at hmem
    obtain ⟨m, -, rfl⟩ := List.mem_map.1 hmem
    simp only [if_true, h.after_remade hnamed, List.append_nil]

end Scope

namespace Document

variable {o : AugmentOptions} {d d' : Document}

/-- Every model of a normalized document is in normal form. -/
theorem normal_of_normalize (h : d.normalize o = .ok d') : ∀ t ∈ d'.models, t.Normal o := by
  intro t ht
  obtain ⟨i, hi, hm⟩ := mem_models.1 ht
  obtain ⟨y, hy, hyt⟩ := Option.bind_eq_some_iff.1 hi
  obtain ⟨x, -, hx⟩ := mem_of_mapM_ok h y (List.mem_of_getElem? hy)
  rcases x.object_cases with hnone | ⟨u, rfl⟩
  · rw [Definition.normalize_eq hx, Definition.mapObject_of_none _ hnone, hnone] at hyt
    cases hyt
  · simp only [Definition.normalize] at hx
    split at hx
    · cases hu : u.normalize o with
      | error e => rw [hu] at hx; cases hx
      | ok u' =>
        rw [hu] at hx
        cases hx
        cases hyt
        exact (ObjectType.normalize_ok hu).2
    · next hu =>
      cases hx
      cases hyt
      exact absurd hm hu

/-- Normalizing a document of normal models changes nothing. -/
theorem normalize_eq_self (h : ∀ t ∈ d.models, t.Normal o) : d.normalize o = .ok d := by
  refine mapM_eq_self fun x hx => ?_
  rcases x.object_cases with hnone | ⟨t, rfl⟩
  · unfold Definition.normalize
    split
    · cases hnone
    · rfl
  · simp only [Definition.normalize]
    split
    · next hm =>
      obtain ⟨i, hi⟩ := List.mem_iff_getElem?.1 hx
      have ht : t ∈ d.models := mem_models.2 ⟨i, by rw [objectAt?, hi]; rfl, hm⟩
      rw [ObjectType.normalize_eq_self (h t ht)]
      rfl
    · rfl

/-- What a successful augmentation went through: the document had no models, or it was
scaffolded, normalized and extended. -/
theorem augment_ok (h : d.augment o = .ok d') :
    ∃ x, TypeIndex.ofDocument d = .ok x ∧
      ((x.models = [] ∧ d' = d) ∨
        x.models ≠ [] ∧ ∃ prepared, (d.scaffold o).normalize o = .ok prepared ∧
          d' = prepared.extend ⟨prepared, x, RootIndex.ofDocument prepared, o⟩) := by
  unfold augment at h
  cases hx : TypeIndex.ofDocument d with
  | error e => rw [hx] at h; cases h
  | ok x =>
    rw [hx] at h
    refine ⟨x, rfl, ?_⟩
    simp only [bind, Except.bind, pure, Except.pure] at h
    split at h
    · next hempty => cases h; exact .inl ⟨List.isEmpty_iff.1 hempty, rfl⟩
    · next hempty =>
      cases hp : (d.scaffold o).normalize o with
      | error e => rw [hp] at h; cases h
      | ok prepared =>
        rw [hp] at h
        cases h
        exact .inr ⟨fun he => hempty (List.isEmpty_iff.2 he), prepared, rfl, rfl⟩

/-- Preparing a document leaves the index of its types. -/
theorem ofDocument_prepared {prepared : Document}
    (h : (d.scaffold o).normalize o = .ok prepared) :
    TypeIndex.ofDocument prepared = TypeIndex.ofDocument d := by
  rw [eq_editObjects_of_normalize h, TypeIndex.ofDocument_editObjects,
    TypeIndex.ofDocument_scaffold]
  · intro i t
    obtain ⟨fields, ht⟩ := t.settled_eq o
    rw [ht]
  · intro i t
    obtain ⟨fields, ht⟩ := t.settled_eq o
    rw [ht]

/-- Documents with one index have models of the same names. -/
theorem models_names_eq {e : Document} {x : TypeIndex} (hd : TypeIndex.ofDocument d = .ok x)
    (he : TypeIndex.ofDocument e = .ok x) :
    d.models.map ObjectType.name = e.models.map ObjectType.name := by
  have hkeys : ∀ c : Document, TypeIndex.ofDocument c = .ok x →
      c.models.map ObjectType.name = x.models.keys := by
    intro c hc
    rw [TypeIndex.models_eq hc, models, List.map_map, Entries.keys, List.map_map]
    rfl
  rw [hkeys d hd, hkeys e he]

theorem WellNamed.of_names {e : Document} (h : d.WellNamed)
    (hnames : e.models.map ObjectType.name = d.models.map ObjectType.name) : e.WellNamed := by
  intro t ht
  have hmem := List.mem_map_of_mem (f := ObjectType.name) ht
  rw [hnames] at hmem
  obtain ⟨u, hu, hname⟩ := List.mem_map.1 hmem
  rw [← hname]
  exact h u hu

/-- **Augmenting twice is augmenting once**: an augmented document can be augmented
again with the same options, and nothing changes. -/
theorem augment_augment (hnamed : d.WellNamed) (h : d.augment o = .ok d') :
    d'.augment o = .ok d' := by
  obtain ⟨x, hx, ⟨hempty, rfl⟩ | ⟨hmodels, prepared, hp, rfl⟩⟩ := augment_ok h
  · rw [augment, hx]
    simp [bind, Except.bind, pure, Except.pure, hempty]
  · have hxp : TypeIndex.ofDocument prepared = .ok x := (ofDocument_prepared hp).trans hx
    generalize hS : (⟨prepared, x, RootIndex.ofDocument prepared, o⟩ : Scope) = S
    have hdocument : S.document = prepared := by rw [← hS]
    have hoptions : S.options = o := by rw [← hS]
    have hS' : S.Indexed := by
      rw [← hS]
      exact ⟨hxp, rfl⟩
    have hwell : S.document.WellNamed := by
      rw [hdocument]
      exact hnamed.of_names (models_names_eq hxp hx)
    have hx' : TypeIndex.ofDocument (prepared.extend S) = .ok x :=
      (TypeIndex.ofDocument_extend S prepared).trans hxp
    have hscaffold : (prepared.extend S).scaffold o = prepared.extend S := by
      have hprepared : Scaffolded o prepared := by
        rw [eq_editObjects_of_normalize hp]
        refine (scaffolded_scaffold o d).editObjects fun i t => ?_
        obtain ⟨fields, ht⟩ := t.settled_eq o
        rw [ht]
      rw [extend_eq]
      refine scaffold_eq_self ((hprepared.editObjects S.extended_name).append ?_)
      simp [hasRoots]
    have hnormal : (prepared.extend S).normalize o = .ok (prepared.extend S) := by
      refine normalize_eq_self fun t ht => ?_
      rw [← hdocument, hS'.models_extend hwell.rootsApart] at ht
      obtain ⟨m, hm, rfl⟩ := List.mem_map.1 ht
      rw [hdocument] at hm
      rw [← hoptions]
      exact hS'.normal_remade hwell (hoptions ▸ normal_of_normalize hp m hm)
    have hafter : (⟨prepared.extend S, x, RootIndex.ofDocument (prepared.extend S), o⟩ : Scope) =
        S.after := by
      rw [← hS]
      rfl
    rw [augment, hx']
    simp only [bind, Except.bind, pure, Except.pure, List.isEmpty_iff, hmodels, if_false,
      hscaffold, hnormal, hafter]
    have hextend := hS'.extend_after hwell
    rw [show S.after.document = prepared.extend S by rw [← hdocument]; rfl] at hextend
    rw [hextend]

/-- People who know each other: `id` is not in front, and nothing is generated yet. -/
def people : Document :=
  [.type (.object {
    name := "Person"
    directives := [Directive.bare Names.model]
    fields := [
      { name := "name", type := .named "String" },
      { name := "id", type := .nonNull (.named "ID"), directives := [Directive.bare Names.unique] },
      { name := "friends", type := .list (.named "Person")
        directives :=
          [⟨Names.relation, [("name", .string "KNOWS"), ("direction", .enum "OUT")]⟩] }] })]

theorem augment_augment_people :
    people.WellNamed ∧ ∃ d, people.augment {} = .ok d ∧ d.augment {} = .ok d := by
  have hnamed : people.WellNamed := by
    unfold WellNamed
    decide
  have h : people.augment {} = .ok _ := rfl
  exact ⟨hnamed, _, h, augment_augment hnamed h⟩

end Document

end GraphqlCypher.Schema
