import GraphqlCypher.Proofs.Catalog.Creates

/-! The two sides of a create mutation.

The catalog is made from a document that was augmented locally; the statements it leads to
call mutations of the same document augmented for the database's side. The two
augmentations differ in the `id` they put in front, in the arguments and the internal id
that only one of them adds, and in the mutations themselves. What is stored of a model is
the same in both (`signature_rebuild`, `normalize_forRemote`), so a create template
declares and passes just what the field on the other side takes and stores
(`create_agrees`). -/
namespace GraphqlCypher

open Schema

namespace Schema

/-! ### What is stored -/

namespace ObjectType

/-- The stored properties of a type, in order and with their types. -/
def signature (t : ObjectType) : List (String × TypeRef) :=
  (t.fields.filter Field.isStored).map fun f => (f.name, f.type)

end ObjectType

/-- Rebuilding a model leaves what it stores. -/
theorem Scope.signature_rebuild (S : Scope) (m : ObjectType) :
    (S.rebuild m).signature = m.signature := by
  have hinternal : (if m.fields.any Field.isInternalId = true then []
      else [({ name := Names.internalId, type := .named "Int" } : Field)]).filter
        Field.isStored = [] := by
    split <;> rfl
  have hstored : ∀ f, (S.rebuildField f).isStored = f.isStored := by
    intro f
    obtain ⟨arguments, hf⟩ := S.rebuildField_eq f
    rw [hf]
    rfl
  have hfields : (S.rebuild m).fields.filter Field.isStored =
      (m.fields.filter Field.isStored).map S.rebuildField := by
    rw [rebuild, List.filter_append, hinternal, List.append_nil, List.filter_map]
    exact congrArg _ (List.filter_congr fun f _ => hstored f)
  rw [ObjectType.signature, hfields, List.map_map, ObjectType.signature]
  refine List.map_congr_left fun f _ => ?_
  obtain ⟨arguments, hf⟩ := S.rebuildField_eq f
  rw [Function.comp_apply, hf]

/-- An `id` that is accepted locally is accepted on the database's side. -/
theorem accepted_forRemote {s : String} (h : (acceptedIdFields false).contains s = true) :
    (acceptedIdFields true).contains s = true := by
  rw [List.contains_iff_mem] at h ⊢
  exact List.mem_append_left _ (by simpa [acceptedIdFields] using h)

/-- A model with a local normal form has one on the database's side, and stores the
same. -/
theorem ObjectType.normalize_forRemote {t t' : ObjectType} (h : t.normalize {} = .ok t') :
    ∃ t'', t.normalize .forRemote = .ok t'' ∧ t''.signature = t'.signature := by
  have hlocal : t.reduceNestedLists.withIdInFront false = .ok t' := h
  show ∃ t'', t.reduceNestedLists.withIdInFront true = .ok t'' ∧ _
  unfold withIdInFront at hlocal ⊢
  split at hlocal
  · next hnone =>
    cases hlocal
    exact ⟨_, rfl, rfl⟩
  · next f hf =>
    split at hlocal
    · next haccept =>
      cases hlocal
      exact ⟨_, if_pos (accepted_forRemote haccept), rfl⟩
    · cases hlocal

/-- A document with an index whose models all have a normal form can be augmented. -/
theorem Document.exists_augment {o : AugmentOptions} {d : Document} {x : TypeIndex}
    (hx : TypeIndex.ofDocument d = .ok x)
    (hmodels : ∀ m ∈ d.models, ∃ m', m.normalize o = .ok m') : ∃ d', d.augment o = .ok d' := by
  have hnormalize : ∃ prepared, (d.scaffold o).normalize o = .ok prepared := by
    refine exists_mapM_ok fun y hy => ?_
    rcases y.object_cases with hnone | ⟨t, rfl⟩
    · unfold Definition.normalize
      split
      · cases hnone
      · exact ⟨_, rfl⟩
    · rw [Definition.normalize]
      split
      · next hm =>
        obtain ⟨i, hi⟩ := List.mem_iff_getElem?.1 hy
        have ht : (i, t) ∈ (d.scaffold o).placedModels :=
          mem_placedModels.2 ⟨by rw [objectAt?, hi]; rfl, hm⟩
        rw [placedModels_scaffold] at ht
        obtain ⟨t', ht'⟩ := hmodels t (List.mem_map_of_mem ht)
        rw [ht']
        exact ⟨_, rfl⟩
      · exact ⟨_, rfl⟩
  obtain ⟨prepared, hprepared⟩ := hnormalize
  simp only [augment, hx, hprepared, bind, Except.bind, pure, Except.pure]
  split
  · exact ⟨_, rfl⟩
  · exact ⟨_, rfl⟩

/-- What can be augmented locally can be augmented for the database's side. -/
theorem Document.exists_augment_forRemote {d l : Document} (h : d.augment {} = .ok l) :
    ∃ r, d.augment .forRemote = .ok r := by
  obtain ⟨x, hx, -⟩ := augment_ok h
  refine exists_augment hx fun m hm => ?_
  rcases prepares_of_augment h with ⟨hnone, -⟩ | ⟨S, hS, -⟩
  · rw [hnone] at hm
    cases hm
  · obtain ⟨m', hm', -⟩ := ObjectType.normalize_forRemote (hS.normalize_ok hm)
    exact ⟨m', hm'⟩

/-- An augmented document has an index. -/
theorem Document.index_of_augment {o : AugmentOptions} {d d' : Document}
    (h : d.augment o = .ok d') : ∃ x, TypeIndex.ofDocument d' = .ok x := by
  rcases prepares_of_augment h with ⟨-, rfl⟩ | ⟨S, hS, rfl⟩
  · obtain ⟨x, hx, -⟩ := augment_ok h
    exact ⟨x, hx⟩
  · exact ⟨S.index, (TypeIndex.ofDocument_extend S S.document).trans hS.indexed.index⟩

end Schema

/-! ### Templates and the fields that they call -/

/-- A template fits a field that creates a node of a model: it declares a variable for
each argument, of the argument's type and in order, and passes each under its own name,
and the statement of the field stores each of them from the parameter of its name. -/
structure Template.Fits (t : Template) (model : String) (f : Field) : Prop where
  declared : t.declared = f.arguments.map fun a => (a.name, a.type.text)
  text : ∃ selection, t.text =
    "mutation " ++ f.name ++
      "(" ++ ", ".intercalate (f.arguments.map fun a => "$" ++ a.name ++ ": " ++ a.type.text) ++
      ") \x7b " ++ f.name ++
      "(" ++ ", ".intercalate (f.arguments.map fun a => a.name ++ ": $" ++ a.name) ++ ")" ++
      selection
  statement : f.directives = [Directive.withString "cypher" "statement"
    ("CREATE (n: " ++ model ++ " \x7b " ++
      ", ".intercalate (f.arguments.map fun a => a.name ++ ": \x7b" ++ a.name ++ "\x7d") ++
      " \x7d) RETURN n")]

/-- What a template declares, it passes. -/
theorem Template.exists_text (t : Template) : ∃ selection, t.text =
    "mutation " ++ t.mutation ++
      "(" ++ ", ".intercalate (t.declared.map fun p => "$" ++ p.1 ++ ": " ++ p.2) ++
      ") \x7b " ++ t.mutation ++
      "(" ++ ", ".intercalate (t.declared.map fun p => p.1 ++ ": $" ++ p.1) ++ ")" ++ selection := by
  cases t with
  | create mutation declared selection =>
    exact ⟨" \x7b " ++ " ".intercalate selection ++ " \x7d" ++ " \x7d",
      String.append_assoc ..⟩
  | relate mutation owner field related =>
    exact ⟨"" ++ " \x7d", String.append_assoc ..⟩

/-- Models that store the same agree on how they are created. -/
theorem Template.fits_remoteCreate {m n : ObjectType} (hname : m.name = n.name)
    (hsignature : m.signature = n.signature) :
    (createOf m).Fits n.name (Scope.remoteCreate n) := by
  have harguments : (Scope.remoteCreate n).arguments =
      m.signature.map fun p => InputValue.of p.1 p.2 := by
    rw [hsignature, ObjectType.signature, List.map_map]
    rfl
  have hdeclared : (createOf m).declared =
      (Scope.remoteCreate n).arguments.map fun a => (a.name, a.type.text) := by
    rw [harguments, List.map_map]
    rfl
  have hmutation : (createOf m).mutation = (Scope.remoteCreate n).name :=
    congrArg Names.createMutation hname
  constructor
  · exact hdeclared
  · obtain ⟨selection, htext⟩ := (createOf m).exists_text
    rw [hdeclared, hmutation, List.map_map, List.map_map] at htext
    exact ⟨selection, htext⟩
  · have hproperties : (CreateNode.ofModel n).properties =
        (Scope.remoteCreate n).arguments.map InputValue.name := by
      rw [harguments, hsignature, List.map_map, ObjectType.signature, List.map_map]
      rfl
    show [Directive.withString Names.cypher Names.statement (CreateNode.ofModel n).text] = _
    rw [CreateNode.text, hproperties, List.map_map]
    rfl

/-- **The two sides of a create mutation agree.** A document that can be augmented locally
can be augmented for the database's side; and where neither a model's name nor that of its
create mutation is taken, the catalog of the one calls the mutation of the other with
just the arguments that it takes and stores. -/
theorem create_agrees {d l : Document} (hroots : d.RootsApart) (hlocal : d.augment {} = .ok l) :
    ∃ r c, d.augment .forRemote = .ok r ∧ Catalog.ofDocument l = .ok c ∧
      ∀ m ∈ d.models,
        (∀ t, d.lastObject? Names.mutation = some t → m.name ∉ t.fields.map Field.name ∧
          Names.createMutation m.name ∉ t.fields.map Field.name) →
        ∃ info root f, c.mutation (Names.createMutation m.name) = .ok info ∧
          info.action = .create ∧ info.model = m.name ∧
          r.lastObject? Names.mutation = some root ∧
          root.fields.filter (·.name == Names.createMutation m.name) = [f] ∧
          info.template.Fits m.name f := by
  obtain ⟨r, hremote⟩ := Document.exists_augment_forRemote hlocal
  obtain ⟨x, hx⟩ := Document.index_of_augment hlocal
  have hc := Catalog.ofDocument_eq hx
  refine ⟨r, _, hremote, hc, fun m hm hfree => ?_⟩
  have hsome : d.models ≠ [] := List.ne_nil_of_mem hm
  obtain ⟨S, hS, rfl⟩ := (Document.prepares_of_augment hlocal).resolve_left fun h => hsome h.1
  obtain ⟨R, hR, rfl⟩ := (Document.prepares_of_augment hremote).resolve_left fun h => hsome h.1
  obtain ⟨root, hroot, hfield⟩ := hR.filter_create hroots rfl hm hfree
  have hname : (S.remade (m.normalized {})).name = m.name := by
    rw [S.remade_name, m.normalized_name]
  have hmodel : S.remade (m.normalized {}) ∈ (S.document.extend S).models := by
    rw [hS.indexed.models_extend (hS.rootsApart hroots), hS.models_eq]
    exact List.mem_map_of_mem (List.mem_map_of_mem hm)
  have hgenerated := hS.mem_generatedNames hroots rfl rfl hm hfree
  rw [← hname] at hgenerated
  have hinfo := Catalog.mutation_create hc hmodel hgenerated
  rw [hname] at hinfo
  refine ⟨_, root, _, hinfo, rfl, rfl, hroot, hfield, ?_⟩
  have hsignature :
      (S.remade (m.normalized {})).signature = (m.normalized .forRemote).signature := by
    obtain ⟨m', hm', hsame⟩ := ObjectType.normalize_forRemote (hS.normalize_ok hm)
    have hm'' : m.normalized .forRemote = m' := by rw [ObjectType.normalized, hm']
    rw [Scope.remade, hS.options, hm'', hsame]
    exact S.signature_rebuild _
  have hremoteCreate : R.create (m.normalized .forRemote) =
      Scope.remoteCreate (m.normalized .forRemote) := by
    rw [Scope.create, hR.options]
    rfl
  rw [hremoteCreate, ← m.normalized_name .forRemote]
  exact Template.fits_remoteCreate (by rw [hname, m.normalized_name]) hsignature

theorem create_agrees_people :
    Document.people.RootsApart ∧ ∃ l r c info root f,
      Document.people.augment {} = .ok l ∧ Document.people.augment .forRemote = .ok r ∧
      Catalog.ofDocument l = .ok c ∧ c.mutation "createPerson" = .ok info ∧
      info.action = .create ∧ info.model = "Person" ∧
      r.lastObject? Names.mutation = some root ∧
      root.fields.filter (·.name == "createPerson") = [f] ∧ info.template.Fits "Person" f := by
  have hroots : Document.people.RootsApart := by
    unfold Document.RootsApart
    decide
  have hlocal : Document.people.augment {} = .ok _ := rfl
  obtain ⟨r, c, hremote, hc, hagree⟩ := create_agrees hroots hlocal
  have hmodel : ∃ m ∈ Document.people.models, m.name = "Person" := ⟨_, List.mem_cons_self, rfl⟩
  obtain ⟨m, hm, hname⟩ := hmodel
  have hnone : Document.people.lastObject? Names.mutation = none := rfl
  obtain ⟨info, root, f, hinfo, haction, hinfoModel, hroot, hfield, hfits⟩ :=
    hagree m hm fun t ht => by
      rw [hnone] at ht
      cases ht
  rw [hname] at hinfo hinfoModel hfield hfits
  exact ⟨hroots, _, r, c, info, root, f, hlocal, hremote, hc, hinfo, haction, hinfoModel, hroot,
    hfield, hfits⟩

end GraphqlCypher
