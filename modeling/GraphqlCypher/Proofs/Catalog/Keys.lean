import GraphqlCypher.Proofs.Catalog.Edges

/-! The fields by which a node can be found, on all sides.

Three readers of a model look for such fields: the catalog, among what is stored; the input
that finds one node, among what is not computed; and the statement that puts an edge, among
what is marked. They read models whose `id` was put in front in different ways. On a model
in that form (`ObjectType.Keyed`) all of them find `ObjectType.keys`, and every form that a
model takes in an augmented document has the keys of the declared one (`keys_agree`). -/
namespace GraphqlCypher

open Schema

namespace Schema

namespace ObjectType

/-- An `id` that is stored stands in front, no other field has its name, and what is marked
unique is stored. -/
structure Keyed (t : ObjectType) : Prop where
  fields : ∃ id rest, t.IdFirst id rest ∧ id.isStored = true ∧
    ∀ g ∈ rest, g.hasUniqueMark = true → g.isStored = true

namespace Keyed

variable {t : ObjectType} (h : t.Keyed)
include h

/-- What the catalog knows as unique. -/
theorem unique_ofModel : (ModelInfo.ofModel t).unique = t.keys := by
  obtain ⟨f, rest, hfirst, hstored, hmarked⟩ := h.fields
  have hrest : (rest.filter Field.isStored).filter Field.isUnique =
      rest.filter Field.hasUniqueMark := by
    rw [List.filter_filter]
    refine List.filter_congr fun g hg => ?_
    have hid' : (g.name == Names.id) = false := by simpa using hfirst.others g hg
    rw [Field.isUnique, hid', Bool.false_or, Bool.eq_iff_iff, Bool.and_eq_true]
    exact ⟨And.left, fun hg' => ⟨hg', hmarked g hg hg'⟩⟩
  have hunique : ((t.fields.filter Field.isStored).filter Field.isUnique).map Field.name =
      t.keys := by
    rw [hfirst.keys_eq, hfirst.fields, List.filter_cons_of_pos hstored,
      List.filter_cons_of_pos (by simp [Field.isUnique, hfirst.named]), hrest, List.map_cons,
      hfirst.named]
  show ModelInfo.withId _ = _
  rw [hunique, ModelInfo.withId, if_pos (by simp [keys])]

/-- The fields of the input that finds one node. -/
theorem names_whereUniqueInput :
    (Scope.whereUniqueInput t).fields.map InputValue.name = t.keys := by
  obtain ⟨f, rest, hfirst, hstored, hmarked⟩ := h.fields
  have hcomputed : ∀ g : Field, g.isStored = true → g.isComputed = false := by
    intro g hg
    simp only [Field.isStored, Bool.and_eq_true, Bool.not_eq_true'] at hg
    exact hg.1.2
  have hrest : rest.filter (fun g => g.isUnique && !g.isComputed) =
      rest.filter Field.hasUniqueMark := by
    refine List.filter_congr fun g hg => ?_
    have hid' : (g.name == Names.id) = false := by simpa using hfirst.others g hg
    rw [Field.isUnique, hid', Bool.false_or, Bool.eq_iff_iff, Bool.and_eq_true]
    exact ⟨And.left, fun hg' => ⟨hg', by rw [hcomputed g (hmarked g hg hg')]; rfl⟩⟩
  rw [Scope.whereUniqueInput, List.map_map, hfirst.keys_eq, hfirst.fields,
    List.filter_cons_of_pos (by simp [Field.isUnique, hfirst.named, hcomputed f hstored]), hrest,
    List.map_cons]
  exact congrArg (· :: _) hfirst.named

end Keyed

/-- Normalizing makes a keyed model, and keeps the keys. -/
theorem keyed_of_normalize {o : AugmentOptions} (ho : (o.remote || o.idFields) = true)
    {t t' : ObjectType} (hdistinct : (t.fields.map Field.name).Nodup)
    (hmarked : ∀ f ∈ t.fields, f.hasUniqueMark = true → f.isStored = true)
    (h : t.normalize o = .ok t') : t'.Keyed ∧ t'.keys = t.keys := by
  obtain ⟨id, hfirst, hstored, hkeys⟩ := exists_idFirst_of_normalize ho hdistinct h
  refine ⟨⟨id, _, hfirst, hstored, fun g hg hg' => ?_⟩, hkeys⟩
  obtain ⟨g', hmem, rfl⟩ := List.mem_map.1 (List.mem_filter.1 hg).1
  exact hmarked g' hmem hg'

end ObjectType

/-! ### Extending -/

namespace Scope

variable {S : Scope}

/-- No field that a root takes is marked unique. -/
theorem hasUniqueMark_of_mem_addedFields {i : Nat} {f : Field} (h : f ∈ S.addedFields i) :
    f.hasUniqueMark = false := by
  rw [Field.hasUniqueMark]
  rcases directives_of_mem_addedFields h with hf | ⟨statement, hf⟩ <;> rw [hf] <;> rfl

/-- Extending a keyed model keeps it keyed, and keeps the keys. A root that is a model has an
`id` of its own, so that it takes none. -/
theorem Indexed.keyed_extended (h : S.Indexed) {i : Nat} {t : ObjectType}
    (ht : S.document.objectAt? i = some t) (hmodel : t.isModel = true)
    (hremote : S.options.remote = false) (hkeyed : t.Keyed) :
    (S.extended i t).Keyed ∧ (S.extended i t).keys = t.keys := by
  obtain ⟨f, rest, hfirst, hstored, hmarked⟩ := hkeyed.fields
  have hsame : ∀ g, (S.rebuildField g).name = g.name ∧
      (S.rebuildField g).hasUniqueMark = g.hasUniqueMark ∧
        (S.rebuildField g).isStored = g.isStored := by
    intro g
    obtain ⟨arguments, hg⟩ := S.rebuildField_eq g
    rw [hg]
    exact ⟨rfl, rfl, rfl⟩
  -- the fields behind those of the model: the internal id, and those that a root takes
  obtain ⟨new, hnew, hextended⟩ : ∃ new : List Field,
      (∀ g ∈ new, g.name ≠ Names.id ∧ g.hasUniqueMark = false) ∧
        (S.extended i t).fields = S.rebuildField f :: (rest.map S.rebuildField ++ new) := by
    refine ⟨(if t.fields.any Field.isInternalId then [] else [internalIdField]) ++ S.addedFields i,
      fun g hg => ?_, ?_⟩
    · rcases List.mem_append.1 hg with hg | hg
      · split at hg
        · cases hg
        · obtain rfl := List.mem_singleton.1 hg
          exact ⟨by decide, rfl⟩
      · refine ⟨fun hname => ?_, hasUniqueMark_of_mem_addedFields hg⟩
        refine name_not_mem_of_mem_addedFields h ht hg ?_
        rw [hname, ← hfirst.named, hfirst.fields]
        exact List.mem_cons_self
    · rw [extended, if_pos hmodel, remade, hremote, if_neg Bool.false_ne_true, rebuild,
        hfirst.fields, List.map_cons, List.append_assoc]
      rfl
  have hother' : ∀ g ∈ rest.map S.rebuildField ++ new, g.name ≠ Names.id := by
    intro g hg
    rcases List.mem_append.1 hg with hg | hg
    · obtain ⟨g', hmem, rfl⟩ := List.mem_map.1 hg
      rw [(hsame g').1]
      exact hfirst.others g' hmem
    · exact (hnew g hg).1
  have hfirst' : (S.extended i t).IdFirst (S.rebuildField f) (rest.map S.rebuildField ++ new) :=
    ⟨hextended, (hsame f).1.trans hfirst.named, hother'⟩
  refine ⟨⟨_, _, hfirst', (hsame f).2.2.trans hstored, fun g hg hg' => ?_⟩, ?_⟩
  · rcases List.mem_append.1 hg with hg | hg
    · obtain ⟨g', hmem, rfl⟩ := List.mem_map.1 hg
      rw [(hsame g').2.1] at hg'
      rw [(hsame g').2.2]
      exact hmarked g' hmem hg'
    · rw [(hnew g hg).2] at hg'
      cases hg'
  · have hnone : new.filter Field.hasUniqueMark = [] :=
      List.filter_eq_nil_iff.2 fun g hg => by simp [(hnew g hg).2]
    have hrest : (rest.map S.rebuildField).filter Field.hasUniqueMark =
        (rest.filter Field.hasUniqueMark).map S.rebuildField := by
      rw [List.filter_map]
      exact congrArg _ (List.filter_congr fun g _ => (hsame g).2.1)
    rw [hfirst'.keys_eq, hfirst.keys_eq, List.filter_append, hnone, List.append_nil, hrest,
      List.map_map]
    exact congrArg _ (List.map_congr_left fun g _ => (hsame g).1)

end Scope

/-! ### In augmented documents -/

namespace Document

variable {o : AugmentOptions} {d : Document} {S : Scope}

/-- The fields of each model have names of their own, and only what is stored is marked
unique. -/
structure WellMarked (d : Document) : Prop where
  distinct : ∀ m ∈ d.models, (m.fields.map Field.name).Nodup
  unmarked : ∀ m ∈ d.models, ∀ f ∈ m.fields,
    f.isRelation = true ∨ f.isComputed = true ∨ f.isInternalId = true → f.hasUniqueMark = false

namespace Prepares

variable (h : d.Prepares o S) (ho : (o.remote || o.idFields) = true) (hkeyed : d.WellMarked)
include h ho hkeyed

theorem keyed_normalized {m : ObjectType} (hm : m ∈ d.models) :
    (m.normalized o).Keyed ∧ (m.normalized o).keys = m.keys := by
  refine ObjectType.keyed_of_normalize ho (hkeyed.distinct m hm) (fun f hf hunique => ?_)
    (h.normalize_ok hm)
  have hunmarked := hkeyed.unmarked m hm f hf
  rw [hunique] at hunmarked
  simp only [reduceCtorEq, imp_false, not_or, Bool.not_eq_true] at hunmarked
  obtain ⟨hrelation, hcomputed, hinternal⟩ := hunmarked
  rw [Field.isStored, hrelation, hcomputed, hinternal]
  rfl

/-- The input that finds one node takes the keys of the model. -/
theorem names_of_whereUniqueInput {m : ObjectType} (hm : m ∈ d.models)
    (hfree : Names.whereUniqueInput m.name ∉ d.typeNames) {i : InputType}
    (hi : i ∈ (S.document.extend S).inputs) (hname : i.name = Names.whereUniqueInput m.name) :
    i.fields.map InputValue.name = m.keys := by
  obtain ⟨hnormalized, hkeys⟩ := h.keyed_normalized ho hkeyed hm
  have hmem : m.normalized o ∈ S.document.models := h.models_eq ▸ List.mem_map_of_mem hm
  rw [← m.normalized_name o] at hfree hname
  have hsame := h.eq_of_input hi hmem (k := .whereUniqueInput) hfree hname
  rw [TypeDefinition.input.inj hsame, ← hkeys]
  exact hnormalized.names_whereUniqueInput

omit ho hkeyed in
theorem exists_whereUniqueInput (hmutation : o.mutation = true) {m : ObjectType}
    (hm : m ∈ d.models) (hfree : Names.whereUniqueInput m.name ∉ d.typeNames)
    (hclaimed : ¬ d.declaresMutation m.name) :
    ∃ i ∈ (S.document.extend S).inputs, i.name = Names.whereUniqueInput m.name := by
  have hmem : m.normalized o ∈ S.document.models := h.models_eq ▸ List.mem_map_of_mem hm
  have hgenerates : S.generatesMutations (m.normalized o) = true := by
    rw [h.indexed.generatesMutations_iff (h.lastObject?_settled hmutation), h.options,
      m.normalized_name]
    exact ⟨hmutation, fun hmem => hclaimed (declaresMutation_of_mem hmem)⟩
  have htype : S.generated .whereUniqueInput (m.normalized o) ∈ S.types (m.normalized o) := by
    simp [Scope.types, hgenerates, Scope.generated]
  rw [← m.normalized_name o] at hfree ⊢
  exact ⟨_, h.mem_inputs hmem htype hfree rfl, rfl⟩

/-- The catalog of a local schema knows the keys of the model. -/
theorem unique_of_catalog (hlocal : o.remote = false) {c : Catalog}
    (hc : Catalog.ofDocument (S.document.extend S) = .ok c) {m : ObjectType} (hm : m ∈ d.models) :
    ∃ info, c.model m.name = .ok info ∧ info.unique = m.keys := by
  obtain ⟨hnormalized, hkeys⟩ := h.keyed_normalized ho hkeyed hm
  have hmem : m.normalized o ∈ S.document.models := h.models_eq ▸ List.mem_map_of_mem hm
  obtain ⟨i, hplace, hmodel⟩ := mem_models.1 hmem
  obtain ⟨hextended, hsame⟩ :=
    h.indexed.keyed_extended hplace hmodel (h.options ▸ hlocal) hnormalized
  have hmodels : S.extended i (m.normalized o) ∈ (S.document.extend S).models := by
    rw [models_extend_eq]
    exact List.mem_map.2 ⟨_, mem_placedModels.2 ⟨hplace, hmodel⟩, rfl⟩
  have hinfo := Catalog.model_ofDocument hc hmodels
  rw [S.extended_name, m.normalized_name] at hinfo
  exact ⟨_, hinfo, by rw [hextended.unique_ofModel, hsame, hkeys]⟩

end Prepares

/-- A mutation that puts the edges of a relation between two models. The nodes at both ends are
found by the keys of their models. -/
def FindsByKeys (d : Document) (g : Field) : Prop :=
  ∃ owner ∈ d.models, ∃ f ∈ owner.fields, ∃ related ∈ d.models, ∃ edge direction,
    f.typeName = related.name ∧ f.relationInfo? = some ⟨some edge, some direction⟩ ∧
    g.name = Names.relationMutation owner.name f.name ∧
    g.PutsEdges owner.name f.name related.name edge direction owner.keys related.keys

theorem Prepares.findsByKeys (h : d.Prepares o S) (ho : (o.remote || o.idFields) = true)
    (hdistinct : ∀ m ∈ d.models, (m.fields.map Field.name).Nodup) {m : ObjectType} {f g : Field}
    (hm : m ∈ S.document.models) (hf : f ∈ m.fields) (hrelation : f.isRelation = true)
    (hg : S.relationMutation? m f = some g) : d.FindsByKeys g := by
  obtain ⟨target, htarget, edge, direction, htype, hinfo, -, hputs⟩ :=
    Scope.putsEdges_of_relationMutation? h.indexed hg
  have hname : g.name = Names.relationMutation m.name f.name := Scope.name_of_relationMutation? hg
  rw [h.models_eq] at hm htarget
  obtain ⟨owner, howner, rfl⟩ := List.mem_map.1 hm
  obtain ⟨related, hrelated, rfl⟩ := List.mem_map.1 htarget
  rw [owner.normalized_name, related.normalized_name,
    h.uniqueMarked_normalized ho howner (hdistinct owner howner),
    h.uniqueMarked_normalized ho hrelated (hdistinct related hrelated)] at hputs
  rw [owner.normalized_name] at hname
  rw [related.normalized_name] at htype
  -- normal form keeps the edge, so the field that was declared says the same of it
  obtain ⟨f', hf', -, hsame⟩ := ObjectType.mem_edges.1
    ((ObjectType.mem_edges_normalize (h.normalize_ok howner) _).1
      (ObjectType.mem_edges.2 ⟨f, hf, hrelation, rfl⟩))
  obtain ⟨-, hfield, htype', hinfo'⟩ := Edge.mk.injEq .. ▸ hsame
  rw [← hfield] at hname hputs
  exact ⟨owner, howner, f', hf', related, hrelated, edge, direction, htype'.trans htype,
    hinfo'.trans hinfo, hname, hputs⟩

/-- A mutation of a remote schema that was not declared creates a node or puts edges. -/
theorem Prepares.findsByKeys_of_root (h : d.Prepares .forRemote S)
    (hdistinct : ∀ m ∈ d.models, (m.fields.map Field.name).Nodup)
    {root : ObjectType} {g : Field}
    (hroot : (S.document.extend S).lastObject? Names.mutation = some root) (hg : g ∈ root.fields)
    (hnew : ¬ d.declaresMutation g.name) :
    (∃ m ∈ d.models, g.name = Names.createMutation m.name) ∨ d.FindsByKeys g := by
  have hremote : S.options.remote = true := by rw [h.options]; rfl
  rw [h.indexed.lastObject?_extended (h.lastObject?_settled rfl)] at hroot
  cases hroot
  have hkept : ∀ t : ObjectType, (if t.isModel then S.remade t else t) = t := by
    intro t
    rw [Scope.remade, if_pos hremote]
    exact ite_self t
  simp only [hkept] at hg
  rcases List.mem_append.1 hg with hg | hg
  · exact absurd (declaresMutation_of_mem (List.mem_map_of_mem hg)) hnew
  · obtain ⟨m, hm, hg⟩ := List.mem_flatMap.1 (Scope.Indexed.mem_of_mem_newFields hg)
    have hm : m ∈ S.document.models := h.indexed.models_eq ▸ List.mem_of_mem_filter hm
    rcases Scope.mem_mutations hg with rfl | ⟨f, hf, hrelation, hg⟩
    · left
      rw [h.models_eq] at hm
      obtain ⟨u, hu, rfl⟩ := List.mem_map.1 hm
      exact ⟨u, hu, by rw [S.create_name, u.normalized_name]⟩
    · exact .inr (h.findsByKeys rfl hdistinct hm hf hrelation hg)

end Document

end Schema

/-! ### All sides -/

/-- The keys of a model on the sides that read them: what the catalog of the local schema
knows as unique, and what the input takes that finds one node, in the local and in the
remote schema. -/
structure KeysAgree (d l r : Document) (c : Catalog) (m : ObjectType) : Prop where
  catalog : ∃ info, c.model m.name = .ok info ∧ info.unique = m.keys
  inputs : ∀ d' ∈ [l, r], Names.whereUniqueInput m.name ∉ d.typeNames →
    ∀ i ∈ d'.inputs, i.name = Names.whereUniqueInput m.name →
      i.fields.map InputValue.name = m.keys
  /-- The input is there unless the root of the mutations claims the model's name. -/
  generated : ∀ d' ∈ [l, r], Names.whereUniqueInput m.name ∉ d.typeNames →
    ¬ d.declaresMutation m.name → ∃ i ∈ d'.inputs, i.name = Names.whereUniqueInput m.name

/-- **All sides find a node by the same fields**, the `id` first and the others in the order
in which they are declared. -/
theorem keys_agree {d l : Document} (hlocal : d.augment {} = .ok l) (hkeyed : d.WellMarked) :
    ∃ r c, d.augment .forRemote = .ok r ∧ Catalog.ofDocument l = .ok c ∧
      (∀ m ∈ d.models, KeysAgree d l r c m) ∧
      ∀ root, r.lastObject? Names.mutation = some root → ∀ g ∈ root.fields,
        ¬ d.declaresMutation g.name →
          (∃ m ∈ d.models, g.name = Names.createMutation m.name) ∨ d.FindsByKeys g := by
  obtain ⟨r, hremote⟩ := Document.exists_augment_forRemote hlocal
  obtain ⟨x, hx⟩ := Document.index_of_augment hlocal
  have hc := Catalog.ofDocument_eq hx
  refine ⟨r, _, hremote, hc, fun m hm => ?_, fun root hroot g hg hnew => ?_⟩
  · have hsome : d.models ≠ [] := List.ne_nil_of_mem hm
    obtain ⟨S, hS, rfl⟩ := (Document.prepares_of_augment hlocal).resolve_left fun h => hsome h.1
    obtain ⟨R, hR, rfl⟩ := (Document.prepares_of_augment hremote).resolve_left fun h => hsome h.1
    obtain ⟨info, hinfo, hunique⟩ := hS.unique_of_catalog rfl hkeyed rfl hc hm
    refine ⟨⟨info, hinfo, hunique⟩, fun d' hd' hfree i hi hname => ?_,
      fun d' hd' hfree hclaimed => ?_⟩
    · simp only [List.mem_cons, List.not_mem_nil, or_false] at hd'
      rcases hd' with rfl | rfl
      · exact hS.names_of_whereUniqueInput rfl hkeyed hm hfree hi hname
      · exact hR.names_of_whereUniqueInput rfl hkeyed hm hfree hi hname
    · simp only [List.mem_cons, List.not_mem_nil, or_false] at hd'
      rcases hd' with rfl | rfl
      · exact hS.exists_whereUniqueInput rfl hm hfree hclaimed
      · exact hR.exists_whereUniqueInput rfl hm hfree hclaimed
  · rcases Document.prepares_of_augment hremote with ⟨-, rfl⟩ | ⟨R, hR, rfl⟩
    · exact absurd ⟨root, hroot, .inl (List.mem_map_of_mem hg)⟩ hnew
    · exact hR.findsByKeys_of_root hkeyed.distinct hroot hg hnew

/-- Subscribers who know each other, and are also known by a unique address. -/
def subscribers : Document :=
  [.type (.object {
    name := "Subscriber"
    directives := [Directive.bare Names.model]
    fields := [
      { name := "email", type := .nonNull (.named "String")
        directives := [Directive.bare Names.isUnique] },
      { name := "id", type := .nonNull (.named "ID"), directives := [Directive.bare Names.unique] },
      { name := "friends", type := .list (.named "Subscriber")
        directives :=
          [⟨Names.relation, [("name", .string "KNOWS"), ("direction", .enum "OUT")]⟩] }] })]

theorem keys_agree_subscribers :
    subscribers.WellMarked ∧ ∃ l r c m, subscribers.augment {} = .ok l ∧
      subscribers.augment .forRemote = .ok r ∧ Catalog.ofDocument l = .ok c ∧
      m ∈ subscribers.models ∧ m.keys = ["id", "email"] ∧ KeysAgree subscribers l r c m ∧
      ∃ root, r.lastObject? Names.mutation = some root ∧
        ∃ g ∈ root.fields, g.name = Names.relationMutation "Subscriber" "friends" ∧
          subscribers.FindsByKeys g := by
  have hkeyed : subscribers.WellMarked := ⟨by decide, by decide⟩
  have hlocal : subscribers.augment {} = .ok _ := rfl
  obtain ⟨r, c, hremote, hc, hagree, hfinds⟩ := keys_agree hlocal hkeyed
  obtain ⟨m, hm, hkeys⟩ : ∃ m ∈ subscribers.models, m.keys = ["id", "email"] :=
    ⟨_, List.mem_cons_self, by decide⟩
  have hnone : ∀ name, ¬ subscribers.declaresMutation name := fun name h => by
    obtain ⟨t, ht, -⟩ := h
    cases ht
  have hnames : (subscribers.augment .forRemote).toOption.bind
      (fun r => (r.lastObject? Names.mutation).map fun root => root.fields.map Field.name) =
      some [Names.createMutation "Subscriber", Names.relationMutation "Subscriber" "friends"] := rfl
  rw [hremote] at hnames
  obtain ⟨root, hroot, hnames⟩ := Option.map_eq_some_iff.1 hnames
  obtain ⟨g, hg, hname⟩ := List.mem_map.1 (hnames ▸ List.mem_cons_of_mem _ List.mem_cons_self)
  refine ⟨hkeyed, _, _, c, m, hlocal, hremote, hc, hm, hkeys, hagree m hm, root, hroot, g, hg,
    hname, ?_⟩
  refine (hfinds root hroot g hg (hnone _)).resolve_left fun hcreate => ?_
  obtain ⟨m', -, hname'⟩ := hcreate
  exact Names.relationMutation_ne_createMutation _ _ m'.name (hname.symm.trans hname')

end GraphqlCypher
