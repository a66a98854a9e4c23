import GraphqlCypher.Proofs.Augment.Edges
import GraphqlCypher.Proofs.Augment.Keys
import GraphqlCypher.Proofs.Catalog.Agreement

/-! The mutations that put edges, on both sides.

The catalog of a local schema has such a mutation for every edge, and so has the root of a remote
schema for every edge that can be put. Both find it by a name made of the model's and the
field's. Where no two edges share it, the one calls the other (`relation_agrees`). Where two do,
the remote schema keeps the first and the catalog the last of them, and nothing tells them apart
(`not_agreesOn_groups`). -/
namespace GraphqlCypher

open Schema

/-! ### In a catalog -/

/-- The mutation that puts an edge, as a catalog has it. -/
def Schema.Edge.mutationInfo (e : Edge) : MutationInfo :=
  ⟨e.model, .relate e.mutation e.model e.field e.related⟩

namespace Catalog

theorem mem_modelMutations_edge {generated : List String} {m : ObjectType} {e : Edge}
    {info : MutationInfo} : (e.mutation, info) ∈ modelMutations generated m ↔
      ∃ e' ∈ m.edges, e'.mutation = e.mutation ∧ info = e'.mutationInfo := by
  have hcreate : (e.mutation, info) ∉ if generated.contains (Names.createMutation m.name) then
      [(Names.createMutation m.name, (⟨m.name, Template.createOf m⟩ : MutationInfo))] else [] := by
    intro hmem
    split at hmem
    · have hname := congrArg Prod.fst (List.mem_singleton.1 hmem)
      exact Names.relationMutation_ne_createMutation _ _ _ hname
    · cases hmem
  simp only [modelMutations, List.mem_append, hcreate, false_or, ObjectType.edges, List.mem_map,
    exists_exists_and_eq_and]
  constructor
  · intro h
    obtain ⟨f, hf, hentry⟩ := h
    obtain ⟨hname, hinfo⟩ := Prod.mk.injEq .. ▸ hentry
    exact ⟨f, hf, hname, hinfo.symm⟩
  · intro h
    obtain ⟨f, hf, hname, rfl⟩ := h
    exact ⟨f, hf, Prod.ext hname rfl⟩

/-- An edge that shares its name with no other is in the catalog. -/
theorem mutation_edge {d : Document} {c : Catalog} (h : ofDocument d = .ok c) {e : Edge}
    (he : e ∈ d.edges) (halone : ∀ e' ∈ d.edges, e'.mutation = e.mutation → e' = e) :
    c.mutation e.mutation = .ok e.mutationInfo := by
  obtain ⟨m, hm, hmem⟩ := List.mem_flatMap.1 he
  rw [mutation_ok_iff, eq_of_ofDocument h]
  refine Entries.get?_ofList (List.mem_flatMap.2
    ⟨m, hm, mem_modelMutations_edge.2 ⟨e, hmem, rfl, rfl⟩⟩) fun info hinfo => ?_
  obtain ⟨m', hm', hentry⟩ := List.mem_flatMap.1 hinfo
  obtain ⟨e', he', hname, rfl⟩ := mem_modelMutations_edge.1 hentry
  rw [halone e' (List.mem_flatMap.2 ⟨m', hm', he'⟩) hname]

end Catalog

namespace Schema

/-! ### In a remote schema -/

theorem Field.isRelation_of_relationInfo? {f : Field} {info : RelationInfo}
    (h : f.relationInfo? = some info) : f.isRelation = true := by
  obtain ⟨directive, hdirective, -⟩ := Option.map_eq_some_iff.1 h
  have hname := List.find?_some hdirective
  exact List.any_eq_true.2 ⟨directive, List.mem_of_find?_eq_some hdirective, hname⟩

/-- The ends of an arrow. -/
def Direction.arrow : Direction → String × String
  | .inward => ("<-", "-")
  | .outward => ("-", "->")
  | .both => ("-", "-")

/-- A mutation that puts edges: it takes what finds a node of a model and what finds nodes of
the related model, matches both, each by any of its keys, and puts the edge in its direction. -/
structure Field.PutsEdges (g : Field) (model field related edge : String) (direction : Direction)
    (ownerKeys targetKeys : List String) : Prop where
  arguments : g.arguments =
    [.of "where" (.nonNull (.named (model ++ "WhereUniqueInput"))),
      .of field (.nonNull (.list (.nonNull (.named (related ++ "WhereUniqueInput")))))]
  statement : g.directives = [Directive.withString "cypher" "statement"
    ("MATCH (root: " ++ model ++ ") WHERE " ++
      " OR ".intercalate (ownerKeys.map fun k => "root." ++ k ++ " = \x7bwhere\x7d." ++ k) ++
      " UNWIND \x7b" ++ field ++ "\x7d AS _" ++ field ++
      " MATCH (_" ++ model ++ "Node: " ++ related ++ ") WHERE " ++
      " OR ".intercalate (targetKeys.map fun k =>
        "_" ++ model ++ "Node." ++ k ++ " = _" ++ field ++ "." ++ k) ++
      " CREATE UNIQUE (root)" ++ direction.arrow.1 ++ "[relation: " ++ edge ++ "]" ++
      direction.arrow.2 ++ "(_" ++ model ++ "Node) RETURN true")]

/-- The tests of the fields may be put together in another way. -/
theorem RelateNodes.anyEqual_eq {node source : String} {keys : List String}
    {test : String → String} (h : ∀ k, test k = node ++ "." ++ k ++ " = " ++ source ++ "." ++ k) :
    anyEqual node keys source = " OR ".intercalate (keys.map test) :=
  congrArg _ (List.map_congr_left fun k _ => (h k).symm)

/-- The statement of a relation with a name and one of the two directions. -/
theorem RelateNodes.exists_text (m related : ObjectType) (f : Field) (edge : String)
    {direction : Direction} (hdirection : direction ≠ .both) :
    ∃ s, ofRelation? m f related ⟨some edge, some direction⟩ = some s ∧
      s.text = "MATCH (root: " ++ m.name ++ ") WHERE " ++
        " OR ".intercalate ((uniqueMarked m).map fun k =>
          "root." ++ k ++ " = \x7bwhere\x7d." ++ k) ++
        " UNWIND \x7b" ++ f.name ++ "\x7d AS _" ++ f.name ++
        " MATCH (_" ++ m.name ++ "Node: " ++ related.name ++ ") WHERE " ++
        " OR ".intercalate ((uniqueMarked related).map fun k =>
          "_" ++ m.name ++ "Node." ++ k ++ " = _" ++ f.name ++ "." ++ k) ++
        " CREATE UNIQUE (root)" ++ direction.arrow.1 ++ "[relation: " ++ edge ++ "]" ++
        direction.arrow.2 ++ "(_" ++ m.name ++ "Node) RETURN true" := by
  have hroot : anyEqual "root" (uniqueMarked m) "\x7bwhere\x7d" =
      " OR ".intercalate ((uniqueMarked m).map fun k =>
        "root." ++ k ++ " = \x7bwhere\x7d." ++ k) :=
    anyEqual_eq fun k => String.toList_inj.1 (by simp)
  have htarget : anyEqual ("_" ++ m.name ++ "Node") (uniqueMarked related) ("_" ++ f.name) =
      " OR ".intercalate ((uniqueMarked related).map fun k =>
        "_" ++ m.name ++ "Node." ++ k ++ " = _" ++ f.name ++ "." ++ k) :=
    anyEqual_eq fun k => String.toList_inj.1 (by simp)
  rw [← hroot, ← htarget]
  cases direction with
  | both => exact absurd rfl hdirection
  | inward | outward =>
    refine ⟨_, rfl, ?_⟩
    unfold text Direction.arrow
    apply String.toList_inj.1
    simp

/-- Only such a relation has a statement. -/
theorem RelateNodes.exists_info {m related : ObjectType} {f : Field} {info : Option RelationInfo}
    {s : RelateNodes} (h : ofRelation? m f related (info.getD {}) = some s) :
    ∃ edge direction, info = some ⟨some edge, some direction⟩ ∧ direction ≠ .both := by
  rcases info with - | ⟨- | edge, - | direction⟩
  · cases h
  · cases h
  · cases h
  · cases h
  · cases direction with
    | both => cases h
    | inward | outward => exact ⟨edge, _, rfl, by simp⟩

namespace Scope

variable {S : Scope}

/-- What is generated for an edge puts it, and matches by the unique marks of the two models. -/
theorem putsEdges_of_relationMutation? {m : ObjectType} {f g : Field} (h : S.Indexed)
    (hg : S.relationMutation? m f = some g) :
    ∃ related ∈ S.document.models, ∃ edge direction, f.typeName = related.name ∧
      f.relationInfo? = some ⟨some edge, some direction⟩ ∧ direction ≠ .both ∧
      g.PutsEdges m.name f.name related.name edge direction (uniqueMarked m)
        (uniqueMarked related) := by
  obtain ⟨related, hrelated, hg⟩ := Option.bind_eq_some_iff.1 hg
  obtain ⟨statement, hstatement, rfl⟩ := Option.map_eq_some_iff.1 hg
  rw [h.model?_eq] at hrelated
  have hname : related.name = f.typeName := by simpa using List.find?_some hrelated
  obtain ⟨edge, direction, hinfo, hdirection⟩ := RelateNodes.exists_info hstatement
  obtain ⟨s, hs, htext⟩ := RelateNodes.exists_text m related f edge hdirection
  rw [hinfo, Option.getD_some, hs] at hstatement
  cases hstatement
  refine ⟨related, List.mem_of_find?_eq_some hrelated, edge, direction, hname.symm, hinfo,
    hdirection, ⟨rfl, ?_⟩⟩
  rw [← htext]
  rfl

/-- An edge that leads to a model and can be put is generated for. -/
theorem exists_relationMutation? {m related : ObjectType} {f : Field} {edge : String}
    {direction : Direction} (h : S.Indexed) (hrelated : related ∈ S.document.models)
    (htype : f.typeName = related.name)
    (hinfo : f.relationInfo? = some ⟨some edge, some direction⟩) (hdirection : direction ≠ .both) :
    ∃ g, S.relationMutation? m f = some g := by
  have hmodel : ∃ found, S.model? f.typeName = some found := by
    rw [← Option.isSome_iff_exists, h.model?_eq, List.find?_isSome]
    exact ⟨related, hrelated, by simp [htype]⟩
  obtain ⟨found, hfound⟩ := hmodel
  obtain ⟨s, hs, -⟩ := RelateNodes.exists_text m found f edge hdirection
  rw [relationMutation?, hfound, Option.bind_some, hinfo, Option.getD_some, hs]
  exact ⟨_, rfl⟩

theorem name_of_relationMutation? {m : ObjectType} {f g : Field}
    (hg : S.relationMutation? m f = some g) : g.name = (m.edge f).mutation := by
  obtain ⟨related, -, hg⟩ := Option.bind_eq_some_iff.1 hg
  obtain ⟨statement, -, rfl⟩ := Option.map_eq_some_iff.1 hg
  rfl

/-- A generated mutation with the name of an edge's is generated for an edge. -/
theorem relationMutation?_of_mem {m : ObjectType} {e : Edge} {g : Field} (hg : g ∈ S.mutations m)
    (hname : g.name = e.mutation) :
    ∃ f ∈ m.fields, f.isRelation = true ∧ S.relationMutation? m f = some g := by
  have hcreate : ∀ name, e.mutation ≠ Names.createMutation name :=
    fun name => Names.relationMutation_ne_createMutation _ _ name
  unfold mutations at hg
  split at hg
  · rcases List.mem_cons.1 hg with rfl | hg
    · exact absurd hname.symm (hcreate m.name)
    · obtain ⟨f, hf, hg⟩ := List.mem_filterMap.1 hg
      obtain ⟨hf, hrelation⟩ := List.mem_filter.1 hf
      exact ⟨f, hf, hrelation, hg⟩
  · obtain rfl := List.mem_singleton.1 hg
    exact absurd hname.symm (hcreate m.name)

/-- In the root of the mutations of a remote schema there is one field for an edge between models
that can be put, if neither its name nor the model's was taken and no other edge shares it. -/
theorem Indexed.filter_edge (h : S.Indexed) (hremote : S.options.remote = true)
    (ho : S.options.mutation = true) {t : ObjectType}
    (ht : S.document.lastObject? Names.mutation = some t) {e : Edge} {edge : String}
    {direction : Direction} (he : e ∈ S.document.edges)
    (halone : ∀ e' ∈ S.document.edges, e'.mutation = e.mutation → e' = e)
    {owner related : ObjectType} (howner : owner ∈ S.document.models)
    (hrelated : related ∈ S.document.models) (hfrom : e.model = owner.name)
    (hto : e.related = related.name) (hinfo : e.info = some ⟨some edge, some direction⟩)
    (hdirection : direction ≠ .both)
    (hmodel : e.model ∉ t.fields.map Field.name) (hfree : e.mutation ∉ t.fields.map Field.name) :
    ∃ g, (t.fields ++ S.additions.mutations).filter (·.name == e.mutation) = [g] ∧
      g.PutsEdges owner.name e.field related.name edge direction (uniqueMarked owner)
        (uniqueMarked related) := by
  obtain ⟨r, hr, -, hkeys⟩ := h.mutations_eq ht
  have hold : t.fields.filter (·.name == e.mutation) = [] :=
    List.filter_eq_nil_iff.2 fun f hf hname => hfree (List.mem_map.2 ⟨f, hf, beq_iff_eq.1 hname⟩)
  have hadded : S.additions.mutations = freshBy Field.name r.fields.keys
      ((S.models.filter S.generatesMutations).flatMap S.mutations) := by
    rw [additions, hr]
    rfl
  rw [List.filter_append, hold, List.nil_append, hadded,
    filter_freshBy Field.name fun hk => hfree ((hkeys _).1 hk)]
  -- whatever is generated under the name puts this edge
  have hputs : ∀ g ∈ ((S.models.filter S.generatesMutations).flatMap S.mutations).filter
      (·.name == e.mutation), g.PutsEdges owner.name e.field related.name edge direction
        (uniqueMarked owner) (uniqueMarked related) := by
    intro g hg
    obtain ⟨hg, hname⟩ := List.mem_filter.1 hg
    obtain ⟨m, hm, hg⟩ := List.mem_flatMap.1 hg
    have hm : m ∈ S.document.models := h.models_eq ▸ List.mem_of_mem_filter hm
    obtain ⟨f, hf, hrelation, hmutation⟩ := relationMutation?_of_mem hg (beq_iff_eq.1 hname)
    have hsame := halone (m.edge f) (Document.mem_edges.2 ⟨m, hm, f, hf, hrelation, rfl⟩)
      ((name_of_relationMutation? hmutation).symm.trans (beq_iff_eq.1 hname))
    obtain ⟨target, htarget, edge', direction', htype, hinfo', -, hputs⟩ :=
      putsEdges_of_relationMutation? h hmutation
    subst hsame
    obtain rfl := TypeIndex.eq_of_name_eq h.index hm howner hfrom
    obtain rfl := TypeIndex.eq_of_name_eq h.index htarget hrelated (htype.symm.trans hto)
    cases hinfo'.symm.trans hinfo
    exact hputs
  -- and something is
  obtain ⟨m, hm, f, hf, hrelation, rfl⟩ := Document.mem_edges.1 he
  obtain ⟨g, hg⟩ := exists_relationMutation? (m := m) h hrelated hto hinfo hdirection
  have hgenerates : m ∈ S.models.filter S.generatesMutations := by
    rw [List.mem_filter, h.models_eq]
    exact ⟨hm, (h.generatesMutations_iff ht m).2 ⟨ho, hmodel⟩⟩
  have hmem : g ∈ ((S.models.filter S.generatesMutations).flatMap S.mutations).filter
      (·.name == (m.edge f).mutation) := by
    refine List.mem_filter.2 ⟨List.mem_flatMap.2 ⟨m, hgenerates, ?_⟩,
      beq_iff_eq.2 (name_of_relationMutation? hg)⟩
    rw [mutations, if_pos hremote]
    exact .tail _ (List.mem_filterMap.2 ⟨f, List.mem_filter.2 ⟨hf, hrelation⟩, hg⟩)
  generalize ((S.models.filter S.generatesMutations).flatMap S.mutations).filter
    (·.name == (m.edge f).mutation) = generated at hmem hputs
  cases generated with
  | nil => cases hmem
  | cons first rest => exact ⟨first, rfl, hputs first (.head rest)⟩

end Scope

namespace Document

/-- The mutations that the last mutation type declares. A type that is a model has an `id`
besides. -/
def declaresMutation (d : Document) (name : String) : Prop :=
  ∃ t, d.lastObject? Names.mutation = some t ∧
    (name ∈ t.fields.map Field.name ∨ t.isModel = true ∧ name = Names.id)

variable {o : AugmentOptions} {d : Document} {S : Scope}

theorem declaresMutation_of_mem {name : String}
    (h : name ∈ (((d.lastObject? Names.mutation).getD { name := Names.mutation }).settled
      o).fields.map Field.name) : d.declaresMutation name := by
  cases ht : d.lastObject? Names.mutation with
  | none =>
    rw [ht] at h
    cases h
  | some t =>
    rw [ht, Option.getD_some] at h
    exact ⟨t, ht, ObjectType.mem_names_of_settled h⟩

/-- The root of the mutations of a remote schema puts an edge of the document in one field. -/
theorem Prepares.filter_edge (h : d.Prepares .forRemote S) {e : Edge} {edge : String}
    {direction : Direction} (he : e ∈ d.edges)
    (halone : ∀ e' ∈ d.edges, e'.mutation = e.mutation → e' = e)
    (hdistinct : ∀ m ∈ d.models, (m.fields.map Field.name).Nodup) {owner related : ObjectType}
    (howner : owner ∈ d.models) (hrelated : related ∈ d.models) (hfrom : e.model = owner.name)
    (hto : e.related = related.name) (hinfo : e.info = some ⟨some edge, some direction⟩)
    (hdirection : direction ≠ .both)
    (hmodel : ¬ d.declaresMutation e.model) (hfree : ¬ d.declaresMutation e.mutation) :
    ∃ root g, (S.document.extend S).lastObject? Names.mutation = some root ∧
      root.fields.filter (·.name == e.mutation) = [g] ∧
      g.PutsEdges owner.name e.field related.name edge direction owner.keys related.keys := by
  have hremote : S.options.remote = true := by rw [h.options]; rfl
  have hmutation : S.options.mutation = true := by rw [h.options]; rfl
  have hroot := h.lastObject?_settled rfl
  have hprepared : ∀ {m : ObjectType}, m ∈ d.models →
      m.normalized .forRemote ∈ S.document.models :=
    fun hm => h.models_eq ▸ List.mem_map_of_mem hm
  obtain ⟨g, hg, hputs⟩ := h.indexed.filter_edge hremote hmutation hroot ((h.mem_edges e).2 he)
    (fun e' he' => halone e' ((h.mem_edges e').1 he')) (hprepared howner) (hprepared hrelated)
    (hfrom.trans (owner.normalized_name _).symm) (hto.trans (related.normalized_name _).symm)
    hinfo hdirection (fun hmem => hmodel (declaresMutation_of_mem hmem))
    fun hmem => hfree (declaresMutation_of_mem hmem)
  rw [owner.normalized_name, related.normalized_name,
    h.uniqueMarked_normalized rfl howner (hdistinct owner howner),
    h.uniqueMarked_normalized rfl hrelated (hdistinct related hrelated)] at hputs
  have hkept : ∀ t : ObjectType, (if t.isModel then S.remade t else t) = t := by
    intro t
    rw [Scope.remade, if_pos hremote]
    exact ite_self t
  have hextended := h.indexed.lastObject?_extended hroot
  simp only [hkept] at hextended
  exact ⟨_, g, hextended, hg, hputs⟩

end Document

end Schema

/-! ### Both sides -/

/-- The two sides of the mutation that puts an edge: the one field of its name in the root of the
remote schema takes and matches nodes of the two models, each by any of its keys, and the catalog
of the local one knows the name as that of the model, with a template that declares the two
variables. -/
structure AgreesOn (l r : Document) (model field related edge : String) (direction : Direction)
    (ownerKeys targetKeys : List String) : Prop where
  remote : ∃ root g, r.lastObject? Names.mutation = some root ∧
    root.fields.filter (·.name == Names.relationMutation model field) = [g] ∧
    g.PutsEdges model field related edge direction ownerKeys targetKeys
  compiled : ∃ c info, Catalog.ofDocument l = .ok c ∧
    c.mutation (Names.relationMutation model field) = .ok info ∧
    info.model = model ∧ info.action = .add ∧ info.template.declared =
      [("where", model ++ "WhereUniqueInput" ++ "!"),
        (field, "[" ++ (related ++ "WhereUniqueInput") ++ "!]!")]

/-- **The two sides of a mutation that puts edges agree**, where no other relation has a mutation
of that name and neither that name nor the model's is declared. Nodes are matched by the `id` and
by what else their models mark as unique. -/
theorem relation_agrees {d l r : Document} (hlocal : d.augment {} = .ok l)
    (hremote : d.augment .forRemote = .ok r)
    (hdistinct : ∀ m ∈ d.models, (m.fields.map Field.name).Nodup) {m related : ObjectType}
    (hm : m ∈ d.models) (hrelated : related ∈ d.models) {f : Field} (hf : f ∈ m.fields)
    (htype : f.typeName = related.name) {edge : String} {direction : Direction}
    (hinfo : f.relationInfo? = some ⟨some edge, some direction⟩) (hdirection : direction ≠ .both)
    (hmodel : ¬ d.declaresMutation m.name)
    (hfree : ¬ d.declaresMutation (Names.relationMutation m.name f.name))
    (halone : ∀ m' ∈ d.models, ∀ f' ∈ m'.fields, f'.isRelation = true →
      Names.relationMutation m'.name f'.name = Names.relationMutation m.name f.name →
        m'.name = m.name ∧ f'.name = f.name) :
    AgreesOn l r m.name f.name related.name edge direction m.keys related.keys := by
  obtain ⟨x, hx, -⟩ := Document.augment_ok hremote
  obtain ⟨R, hR, rfl⟩ := (Document.prepares_of_augment hremote).resolve_left fun h =>
    List.ne_nil_of_mem hm h.1
  have he : m.edge f ∈ d.edges :=
    Document.mem_edges.2 ⟨m, hm, f, hf, Field.isRelation_of_relationInfo? hinfo, rfl⟩
  have hunique : ∀ e ∈ d.edges, e.mutation = (m.edge f).mutation → e = m.edge f := by
    intro e he' hname
    obtain ⟨m', hm', f', hf', hrelation, rfl⟩ := Document.mem_edges.1 he'
    obtain ⟨hsame, hfield⟩ := halone m' hm' f' hf' hrelation hname
    exact Document.edge_unique hx hdistinct he' he hsame hfield
  constructor
  · exact hR.filter_edge he hunique hdistinct hm hrelated rfl htype hinfo hdirection hmodel hfree
  · obtain ⟨y, hy⟩ := Document.index_of_augment hlocal
    have hc := Catalog.ofDocument_eq hy
    have hmutation := Catalog.mutation_edge hc ((Document.mem_edges_augment hlocal _).2 he)
      fun e he' => hunique e ((Document.mem_edges_augment hlocal e).1 he')
    refine ⟨_, _, hc, hmutation, rfl, rfl, ?_⟩
    rw [← htype]
    rfl

theorem relation_agrees_people : ∃ l r, Document.people.augment {} = .ok l ∧
    Document.people.augment .forRemote = .ok r ∧
    AgreesOn l r "Person" "friends" "Person" "KNOWS" .outward ["id"] ["id"] := by
  obtain ⟨m, hm, f, hf, hname, hfield, htype, hkeys, hinfo⟩ : ∃ m ∈ Document.people.models,
      ∃ f ∈ m.fields, m.name = "Person" ∧ f.name = "friends" ∧ f.typeName = "Person" ∧
        m.keys = ["id"] ∧ f.relationInfo? = some ⟨some "KNOWS", some .outward⟩ :=
    ⟨_, List.mem_cons_self, _, .tail _ (.tail _ (.head _)), rfl, rfl, rfl, rfl, rfl⟩
  have hlocal : Document.people.augment {} = .ok _ := rfl
  have hremote : Document.people.augment .forRemote = .ok _ := rfl
  have hnone : ∀ name, ¬ Document.people.declaresMutation name := fun name h => by
    obtain ⟨t, ht, -⟩ := h
    cases ht
  have halone : ∀ m' ∈ Document.people.models, ∀ f' ∈ m'.fields, f'.isRelation = true →
      Names.relationMutation m'.name f'.name = Names.relationMutation m.name f.name →
        m'.name = m.name ∧ f'.name = f.name := by
    rw [hname, hfield]
    decide
  have hagrees := relation_agrees hlocal hremote (by decide) hm hm hf (htype.trans hname.symm) hinfo
    (by decide) (hnone _) (hnone _) halone
  rw [hname, hfield, hkeys] at hagrees
  exact ⟨_, _, hlocal, hremote, hagrees⟩

/-! ### Two relations with one name -/

/-- Users who own a group, and groups that know their owner without an edge of their own. -/
def groups : Document :=
  [.type (.object {
    name := "User"
    directives := [Directive.bare Names.model]
    fields := [
      { name := "groupOwner", type := .named "UserGroup"
        directives :=
          [⟨Names.relation, [("name", .string "OWNS"), ("direction", .enum "OUT")]⟩] }] }),
   .type (.object {
    name := "UserGroup"
    directives := [Directive.bare Names.model]
    fields := [
      { name := "owner", type := .named "User"
        directives :=
          [⟨Names.relation, [("name", .string "OWNS"), ("direction", .enum "BOTH")]⟩] }] })]

/-- **A name can stand for two relations.** Only that of the users can be put, but the catalog has
that of the groups under its name. -/
theorem not_agreesOn_groups : ∃ l r, groups.augment {} = .ok l ∧ groups.augment .forRemote = .ok r ∧
    (∀ m ∈ groups.models, (m.fields.map Field.name).Nodup) ∧
    (∃ m ∈ groups.models, ∃ f ∈ m.fields, m.name = "User" ∧ f.name = "groupOwner" ∧
      f.typeName = "UserGroup" ∧ f.relationInfo? = some ⟨some "OWNS", some .outward⟩) ∧
    (∀ name, ¬ groups.declaresMutation name) ∧
    ∀ ownerKeys targetKeys,
      ¬ AgreesOn l r "User" "groupOwner" "UserGroup" "OWNS" .outward ownerKeys targetKeys := by
  obtain ⟨l, c, hlocal, hc, hother⟩ : ∃ l c, groups.augment {} = .ok l ∧
      Catalog.ofDocument l = .ok c ∧
      (c.mutation (Names.relationMutation "User" "groupOwner")).map (·.model) = .ok "UserGroup" :=
    ⟨_, _, rfl, rfl, rfl⟩
  have hremote : groups.augment .forRemote = .ok _ := rfl
  refine ⟨_, _, hlocal, hremote, by decide, ?_, ?_, ?_⟩
  · exact ⟨_, List.mem_cons_self, _, .head _, rfl, rfl, rfl, rfl⟩
  · intro name h
    obtain ⟨t, ht, -⟩ := h
    cases ht
  · intro ownerKeys targetKeys h
    obtain ⟨c', info, hc', hinfo, hmodel, -⟩ := h.compiled
    obtain rfl : c = c' := Except.ok.inj (hc.symm.trans hc')
    rw [hinfo] at hother
    exact absurd (hmodel.symm.trans (Except.ok.inj hother)) (by decide)

end GraphqlCypher
