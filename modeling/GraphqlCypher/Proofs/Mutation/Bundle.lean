import GraphqlCypher.Proofs.Mutation.Lookup
import GraphqlCypher.Proofs.Mutation.Variables
import GraphqlCypher.Proofs.Statement.Placeholders

/-! The parameters of a compiled create mutation, and what its text finds in them.

The arguments are passed under one fixed name and the staged records under the names of their
models. The text is made without regard to that, by the calls and by the read-back. It is read here
piece by piece: names, templates and fixed words are put together to lines, lines to calls and
lookups, and those to the text, so that all the references of a text are known
(`Catalog.uses_calls`, `Catalog.reads_readBack`).

The names are of one space, though: a model can have the name that the arguments are passed under.
Then its records stand in their place (`Catalog.bundles_of_compile`), and the calls find records
where they were written for the arguments (`Catalog.not_bundled_variables`). -/
namespace GraphqlCypher

open Schema Statement

/-! ### Names of a document -/

theorem Schema.Names.worded_relationMutation {model field : String}
    (hmodel : Token.isName model = true) (hfield : Token.isName field = true) :
    Token.Worded (relationMutation model field) := by
  have lead : Token.Worded "add" := by decide
  exact (lead.append (Token.worded_of_isName hmodel)).append (worded_capitalize hfield)

namespace Catalog

variable {d : Document} {c : Catalog} (hnamed : d.Named) (hc : ofDocument d = .ok c)
include hnamed hc

/-- Models have proper names, and so have their properties. -/
theorem named_of_model {model : String} {info : ModelInfo} (hinfo : c.model model = .ok info) :
    Token.isName model = true ∧ (∀ k ∈ info.unique, Token.Worded k) ∧
      ∀ k ∈ Entries.keys info.properties, Token.Worded k := by
  have models : c.models =
      Entries.ofList (d.models.map fun m => (m.name, ModelInfo.ofModel m)) := by
    rw [eq_of_ofDocument hc]
  obtain ⟨m, hm, rfl, rfl⟩ := mem_of_model models hinfo
  obtain ⟨hname, hfields⟩ := hnamed m (Document.mem_objects_of_mem_models hm)
  have field : ∀ f ∈ m.fields, Token.Worded f.name :=
    fun f hf => Token.worded_of_isName (hfields f hf).1
  refine ⟨hname, fun k hk => ?_, fun k hk => ?_⟩
  · have hcases : k = Names.id ∨
        k ∈ ((m.fields.filter Field.isStored).filter Field.isUnique).map Field.name := by
      simp only [ModelInfo.ofModel, ModelInfo.withId] at hk
      split at hk
      · exact .inr hk
      · exact List.mem_cons.1 hk
    rcases hcases with rfl | hk
    · decide
    · obtain ⟨f, hf, rfl⟩ := List.mem_map.1 hk
      exact field f (List.mem_of_mem_filter (List.mem_of_mem_filter hf))
  · simp only [ModelInfo.ofModel, Entries.mem_keys_ofList, List.map_map, List.mem_map] at hk
    obtain ⟨f, hf, rfl⟩ := hk
    exact field f (List.mem_of_mem_filter hf)

/-- So have the steps to other models. -/
theorem named_of_step {model : String} {s : Step} (h : c.HasStep model s) :
    Token.isName s.field = true ∧ Token.isName s.related = true := by
  obtain ⟨e, he, -, hfield, hrelated⟩ := edge_of_step hc h
  obtain ⟨m, hm, f, hf, -, rfl⟩ := Document.mem_edges.1 he
  rw [← hfield, ← hrelated]
  exact (hnamed m (Document.mem_objects_of_mem_models hm)).2 f hf

/-- Mutations are called by texts of the same characters. -/
theorem worded_of_mutation {name : String} {info : MutationInfo}
    (hinfo : c.mutation name = .ok info) : Token.Worded name := by
  rw [mutation_ok_iff, eq_of_ofDocument hc] at hinfo
  obtain ⟨m, hm, hentry⟩ := List.mem_flatMap.1 (Entries.mem_ofList (Entries.mem_of_get? hinfo))
  obtain ⟨hname, hfields⟩ := hnamed m (Document.mem_objects_of_mem_models hm)
  rcases List.mem_append.1 hentry with hentry | hentry
  · split at hentry
    · cases List.mem_singleton.1 hentry
      have lead : Token.Worded "create" := by decide
      exact lead.append (Token.worded_of_isName hname)
    · cases hentry
  · obtain ⟨f, hf, hentry⟩ := List.mem_map.1 hentry
    cases hentry
    exact Names.worded_relationMutation hname (hfields f (List.mem_of_mem_filter hf)).1

end Catalog

/-! ### References of the calls -/

open Place

/-- A text is read from one place to another, and refers to nothing but the arguments. -/
abbrev Statement.Place.Uses (p : Place) (text : String) (q : Place) : Prop :=
  p.Cites (· = argumentsParameter) text q

theorem uses_argument : code.Uses "\x7bvariables\x7d" .code :=
  ⟨[argumentsParameter], ⟨rfl, rfl⟩, fun _ hn => List.mem_singleton.1 hn⟩

/-- A call begins with its template. -/
theorem uses_call {template : Template} (hplain : IsPlain template.text) :
    code.Uses ("CALL graphql.execute('" ++ template.text) .literal :=
  Cites.append (q := .literal) (cites_of_eq _ rfl rfl) (cites_of_isPlain hplain)

/-- A value of a key is a property of what holds it. -/
theorem uses_property {holder key : String} (hholder : code.Uses holder .code)
    (hkey : Token.Worded key) : code.Uses (holder ++ "." ++ key) .code :=
  (hholder.append (cites_of_eq "." rfl rfl)).append (cites_of_worded hkey)

namespace Group

/-- Variables are made of names. -/
theorem worded_elementAt {path : List Step} (hpath : ∀ s ∈ path, Token.isName s.field = true ∧
    Token.isName s.related = true) {root : String} (hroot : Token.Worded root) :
    Token.Worded (elementAt root path) := by
  induction path generalizing root with
  | nil => exact hroot
  | cons s rest ih =>
    obtain ⟨hfield, hrelated⟩ := hpath s (.head _)
    refine ih (fun s' hs' => hpath s' (.tail _ hs')) ?_
    exact (hroot.append (worded_capitalize hfield)).append (Token.worded_of_isName hrelated)

section

variable {g : Group} (hroot : Token.Worded g.root)
  (hpath : ∀ s ∈ g.path, Token.isName s.field = true ∧ Token.isName s.related = true)
include hroot hpath

theorem uses_variableAt (i : Nat) : code.Uses (g.variableAt i) .code :=
  cites_of_worded (worded_elementAt (fun s hs => hpath s (List.mem_of_mem_take hs)) hroot)

theorem uses_holder (i : Nat) : code.Uses (g.holder i) .code := by
  cases i with
  | zero => exact uses_argument
  | succ i => exact uses_variableAt hroot hpath (i + 1)

theorem uses_unwindLine (i : Nat) {s : Step} (hs : s ∈ g.path) :
    code.Uses (g.unwindLine i s) .code := by
  have action : Token.Worded s.action.text := by cases s.action <;> decide
  have held : code.Uses ("UNWIND " ++ g.holder i) .code :=
    Cites.append (q := .code) (cites_of_eq _ rfl rfl) (uses_holder hroot hpath i)
  have source := uses_property (uses_property held (Token.worded_of_isName (hpath s hs).1)) action
  exact (source.append (cites_of_eq " AS " rfl rfl)).append (uses_variableAt hroot hpath (i + 1))

theorem uses_ownerKey (supplied : List String) {k : String} (hk : Token.Worded k) :
    code.Uses (g.ownerKey supplied k) .code := by
  have key : code.Uses (k ++ ": ") .code :=
    (cites_of_worded hk).append (cites_of_eq ": " rfl rfl)
  unfold ownerKey
  split
  · exact key.append (cites_of_eq "NULL" rfl rfl)
  · exact key.append (uses_property (uses_holder hroot hpath _) hk)

theorem uses_targetKey {p q : Statement.Place} {k : String} (hk : Token.Worded k)
    (hkey : p.Uses k q) (hcolon : q.Uses ": " .code) : p.Uses (g.targetKey k) .code := by
  have text : g.targetKey k = k ++ ": " ++ (g.variableAt g.path.length ++ "." ++ k) := by
    unfold targetKey
    simp only [String.append_assoc]
  exact text ▸ (hkey.append hcolon).append (uses_property (uses_variableAt hroot hpath _) hk)

/-- The keys of a target stand right behind a brace: the first may be taken for a parameter until
its colon. -/
theorem uses_targetKeys {keys : List String} (hkeys : ∀ k ∈ keys, Token.Worded k)
    (nonempty : keys ≠ []) :
    (name []).Uses (", ".intercalate (keys.map g.targetKey)) .code := by
  obtain ⟨first, rest, rfl⟩ := List.exists_cons_of_ne_nil nonempty
  have hfirst := hkeys first (.head _)
  refine .intercalate (cites_of_eq _ rfl rfl) (uses_targetKey hroot hpath hfirst
    (reads_name hfirst []).cites (cites_of_eq _ rfl rfl)) fun t ht => ?_
  obtain ⟨k, hk, rfl⟩ := List.mem_map.1 ht
  have hk := hkeys k (.tail _ hk)
  exact uses_targetKey hroot hpath hk (cites_of_worded hk) (cites_of_eq _ rfl rfl)

theorem uses_createLine {creation : MutationInfo} (hplain : IsPlain creation.template.text) :
    code.Uses (g.createLine creation) .code := by
  have element := uses_variableAt hroot hpath g.path.length
  have passed := ((uses_call hplain).append (cites_of_eq "', " rfl rfl)).append element
  exact ((passed.append (cites_of_eq ") YIELD result AS create" rfl rfl)).append element).append
    (cites_of_eq "Result" rfl rfl)

theorem uses_attachLine (supplied : List String) {owner target : ModelInfo}
    {relation : MutationInfo} (hplain : IsPlain relation.template.text)
    (howner : ∀ k ∈ owner.unique, Token.Worded k) (htarget : ∀ k ∈ target.unique, Token.Worded k)
    (nonempty : target.unique ≠ []) (hmodel : Token.isName g.ownerModel = true)
    (hfield : Token.isName g.step.field = true) :
    code.Uses (g.attachLine supplied owner target relation) .code := by
  have owners : code.Uses (", ".intercalate (owner.unique.map (g.ownerKey supplied))) .code := by
    refine .intercalate_of_forall (cites_of_eq _ rfl rfl) fun t ht => ?_
    obtain ⟨k, hk, rfl⟩ := List.mem_map.1 ht
    exact uses_ownerKey hroot hpath supplied (howner k hk)
  have found := ((uses_call hplain).append (cites_of_eq "', \x7b where: \x7b " rfl rfl)).append
    owners
  have named := (found.append (cites_of_eq " \x7d, " rfl rfl)).append
    (cites_of_worded (Token.worded_of_isName hfield))
  have joined := (named.append (cites_of_eq ": [\x7b" rfl rfl)).append
    (uses_targetKeys hroot hpath htarget nonempty)
  have yielded := (joined.append (cites_of_eq "\x7d] \x7d) YIELD result AS " rfl rfl)).append
    (cites_of_worded (Names.worded_relationMutation hmodel hfield))
  exact (yielded.append (uses_variableAt hroot hpath g.path.length)).append
    (cites_of_eq "Result" rfl rfl)

end

/-- **A group refers to nothing but the arguments.** -/
theorem Correlated.uses {d : Document} {c : Catalog} (hnamed : d.Named)
    (hc : Catalog.ofDocument d = .ok c) {g : Group} {model : String} {supplied : List String}
    (h : g.Correlated d c model supplied) : code.Uses g.text .code := by
  obtain ⟨owner, target, relation, creation, howner, htarget, hrelation, hcreated, hlines⟩ :=
    h.lines
  have hpath : ∀ s ∈ g.path, Token.isName s.field = true ∧ Token.isName s.related = true := by
    intro s hs
    obtain ⟨model, hstep⟩ := h.leads.hasStep s hs
    exact Catalog.named_of_step hnamed hc hstep
  have hlast : g.step ∈ g.path := List.mem_append_right _ (List.mem_singleton_self _)
  have hroot : Token.Worded g.root := by
    have leads := h.leads
    rw [h.root]
    cases hpath : g.path with
    | nil =>
      rw [hpath] at hlast
      cases hlast
    | cons s rest =>
      rw [hpath] at leads
      obtain ⟨⟨info, hinfo, -⟩, -⟩ := leads
      exact Token.worded_of_isName (Catalog.named_of_model hnamed hc hinfo).1
  obtain ⟨hmodel, hownerKeys, -⟩ := Catalog.named_of_model hnamed hc howner
  have htargetKeys := (Catalog.named_of_model hnamed hc htarget).2.1
  have nonempty : target.unique ≠ [] :=
    List.ne_nil_of_mem ((Catalog.regular_ofDocument hc) _ _ htarget).2
  have lines : ∀ line ∈ g.lines, code.Uses line .code := by
    intro line hline
    rw [hlines] at hline
    rcases List.mem_append.1 hline with hline | hline
    · rcases List.mem_append.1 hline with hline | hline
      · rcases List.mem_append.1 hline with hline | hline
        · obtain rfl := List.mem_singleton.1 hline
          exact cites_of_eq _ rfl rfl
        · obtain ⟨i, hi, rfl⟩ := List.mem_mapIdx.1 hline
          exact uses_unwindLine hroot hpath i (List.getElem_mem hi)
      · obtain ⟨info, hinfo, rfl⟩ := Option.map_eq_some_iff.1 (Option.mem_toList.1 hline)
        rw [hinfo] at hcreated
        exact uses_createLine hroot hpath (Catalog.isPlain_of_mutation hnamed hc hcreated.2)
    · obtain rfl := List.mem_singleton.1 hline
      exact uses_attachLine hroot hpath supplied (Catalog.isPlain_of_mutation hnamed hc hrelation)
        hownerKeys htargetKeys nonempty hmodel (hpath g.step hlast).1
  exact Cites.append (q := .code) (cites_of_eq "\n" rfl rfl)
    (.intercalate_of_forall (cites_of_eq _ rfl rfl) lines)

end Group

theorem uses_rootBindings {keys : List String} (hkeys : ∀ k ∈ keys, Token.Worded k)
    (supplied : List String) : code.Uses (bindingsText (rootBindings keys supplied)) .code := by
  refine .intercalate_of_forall (cites_of_eq _ rfl rfl) fun t ht => ?_
  obtain ⟨b, hb, rfl⟩ := List.mem_map.1 ht
  obtain ⟨k, hk, rfl⟩ := List.mem_map.1 hb
  have hk := hkeys k hk
  have key : code.Uses (k ++ ": ") .code := (cites_of_worded hk).append (cites_of_eq ": " rfl rfl)
  unfold KeyBinding.text
  dsimp only
  split
  · exact key.append (uses_property uses_argument hk)
  · exact key.append (cites_of_eq "NULL" rfl rfl)
  · next name hname =>
    split at hname
    · cases hname
    · cases hname

namespace CompiledCreate

/-- The calls of a statement, which its read-back follows. -/
def calls (m : CompiledCreate) : String :=
  "\n".intercalate (m.rootCall :: m.groups.map Group.text)

theorem text_eq_calls (m : CompiledCreate) : m.text = m.calls ++ m.readBack.text := rfl

theorem uses_rootCall {m : CompiledCreate} (hplain : IsPlain m.template.text)
    (hname : Token.Worded m.mutation) (hproperties : code.Uses (bindingsText m.properties) .code) :
    code.Uses m.rootCall .code := by
  have result : code.Uses (m.mutation ++ "Result") .code :=
    (cites_of_worded hname).append (cites_of_eq "Result" rfl rfl)
  have passed := ((uses_call hplain).append (cites_of_eq "', \x7b " rfl rfl)).append hproperties
  have yielded := (passed.append (cites_of_eq " \x7d) YIELD result AS " rfl rfl)).append result
  exact (((yielded.append (cites_of_eq " WITH " rfl rfl)).append result).append
    (cites_of_eq " AS " rfl rfl)).append result

end CompiledCreate

/-! ### References of the read-back -/

namespace ReadBack

theorem cites_condition {model : String} (hmodel : Token.Worded model) {keys : List String}
    (hkeys : ∀ k ∈ keys, Token.Worded k) :
    code.Cites (fun _ => False) (condition model keys) .code := by
  refine .intercalate_of_forall (cites_of_eq _ rfl rfl) fun t ht => ?_
  obtain ⟨k, hk, rfl⟩ := List.mem_map.1 ht
  have key : code.Cites (fun _ => False) k .code := cites_of_worded (hkeys k hk)
  have name : code.Cites (fun _ => False) model .code := cites_of_worded hmodel
  have opening : code.Cites (fun _ => False) ("(" ++ model) .code :=
    Cites.append (q := .code) (cites_of_eq "(" rfl rfl) name
  have node := (opening.append (cites_of_eq "Node." rfl rfl)).append key
  have equal := (((node.append (cites_of_eq " = _" rfl rfl)).append name).append
    (cites_of_eq "." rfl rfl)).append key
  have null := (((equal.append (cites_of_eq " OR _" rfl rfl)).append name).append
    (cites_of_eq "." rfl rfl)).append key
  exact null.append (cites_of_eq " IS NULL)" rfl rfl)

/-- A lookup refers to the records of its model, once. -/
theorem reads_lookup {model : String} (hmodel : Token.isName model = true)
    {earlier keys : List String} (hearlier : ∀ m ∈ earlier, Token.Worded m)
    (hkeys : ∀ k ∈ keys, Token.Worded k) :
    code.Reads (lookup earlier model keys) [model] .code := by
  have worded := Token.worded_of_isName hmodel
  have name : code.Cites (fun _ => False) model .code := cites_of_worded worded
  have listed : code.Cites (fun _ => False) (collected model) .code :=
    Cites.append (q := .code) (cites_of_eq "ALL_" rfl rfl) name
  have carried : code.Cites (fun _ => False)
      (String.join (earlier.map fun m => ", " ++ collected m)) .code := by
    refine .join fun t ht => ?_
    obtain ⟨m, hm, rfl⟩ := List.mem_map.1 ht
    have list : code.Cites (fun _ => False) (collected m) .code :=
      Cites.append (q := .code) (cites_of_eq "ALL_" rfl rfl) (cites_of_worded (hearlier m hm))
    exact Cites.append (q := .code) (cites_of_eq ", " rfl rfl) list
  have searched : code.Cites (fun _ => False) (model ++ "\nMATCH (" ++ model ++ "Node: " ++ model ++
      ") WHERE " ++ condition model keys) .code :=
    (((((name.append (cites_of_eq "\nMATCH (" rfl rfl)).append name).append
      (cites_of_eq "Node: " rfl rfl)).append name).append (cites_of_eq ") WHERE " rfl rfl)).append
      (cites_condition worded hkeys)
  have gathered := ((((searched.append (cites_of_eq "\nWITH COLLECT(DISTINCT properties(" rfl
    rfl)).append name).append (cites_of_eq "Node)) AS " rfl rfl)).append listed).append carried
  have unwound : code.Reads ("\nUNWIND \x7b" ++ model) [] (.name model.toList) :=
    Reads.append (q := .name []) ⟨rfl, rfl⟩ (reads_name worded [])
  have binding : code.Reads " AS _" [] .code := ⟨rfl, rfl⟩
  have bound := (unwound.append (reads_closing hmodel)).append binding
  have whole := bound.append (gathered.append (cites_of_eq "\n" rfl rfl)).reads
  have text : lookup earlier model keys = "\nUNWIND \x7b" ++ model ++ "\x7d" ++ " AS _" ++
      (model ++ "\nMATCH (" ++ model ++ "Node: " ++ model ++ ") WHERE " ++ condition model keys ++
        "\nWITH COLLECT(DISTINCT properties(" ++ model ++ "Node)) AS " ++ collected model ++
        String.join (earlier.map fun m => ", " ++ collected m) ++ "\n") := by
    unfold lookup
    apply String.toList_inj.1
    simp
  exact text ▸ whole

theorem reads_answer {models : List String} (h : ∀ m ∈ models, Token.Worded m) :
    code.Reads (answer models) [] .code := by
  have entries : code.Cites (fun _ => False)
      (",\n".intercalate (models.map fun m => "  " ++ m ++ ": " ++ collected m)) .code := by
    refine .intercalate_of_forall (cites_of_eq _ rfl rfl) fun t ht => ?_
    obtain ⟨m, hm, rfl⟩ := List.mem_map.1 ht
    have key : code.Cites (fun _ => False) ("  " ++ m) .code :=
      Cites.append (q := .code) (cites_of_eq "  " rfl rfl) (cites_of_worded (h m hm))
    have list : code.Cites (fun _ => False) (collected m) .code :=
      Cites.append (q := .code) (cites_of_eq "ALL_" rfl rfl) (cites_of_worded (h m hm))
    exact (key.append (cites_of_eq ": " rfl rfl)).append list
  exact ((Cites.append (q := .code) (cites_of_eq "RETURN \x7b\n" rfl rfl) entries).append
    (cites_of_eq "\n\x7d\n" rfl rfl)).reads

/-- The lookups refer to the records of their models, in order. Those that come later name the
models before them as well, so the induction is over any models that come earlier. -/
theorem reads_lookups {last : String} (hlast : code.Reads last [] .code) {r : ReadBack}
    {earlier : List String} (hearlier : ∀ m ∈ earlier, Token.Worded m)
    (h : ∀ e ∈ r, Token.isName e.1 = true ∧ ∀ k ∈ e.2, Token.Worded k) :
    code.Reads ("\n".intercalate (lookups earlier r ++ [last])) (r.map Prod.fst) .code := by
  induction r generalizing earlier with
  | nil =>
    rw [lookups, List.nil_append, String.intercalate_singleton]
    exact hlast
  | cons e rest ih =>
    obtain ⟨model, keys⟩ := e
    obtain ⟨hmodel, hkeys⟩ := h _ (.head _)
    have named : ∀ m ∈ earlier ++ [model], Token.Worded m := by
      intro m hm
      rcases List.mem_append.1 hm with hm | hm
      · exact hearlier m hm
      · obtain rfl := List.mem_singleton.1 hm
        exact Token.worded_of_isName hmodel
    have later := ih named fun e he => h e (.tail _ he)
    obtain ⟨next, more, hmore⟩ := List.exists_cons_of_ne_nil
      (List.append_ne_nil_of_right_ne_nil (lookups (earlier ++ [model]) rest)
        (List.cons_ne_nil last []))
    rw [hmore] at later
    rw [lookups, List.cons_append, hmore, String.intercalate_cons_cons]
    have newline : code.Reads "\n" [] .code := ⟨rfl, rfl⟩
    exact ((reads_lookup hmodel hearlier hkeys).append newline).append later

/-- **A read-back refers to the records of each of its models, in order.** -/
theorem reads_text {r : ReadBack}
    (h : ∀ e ∈ r, Token.isName e.1 = true ∧ ∀ k ∈ e.2, Token.Worded k) :
    code.Reads r.text (r.map Prod.fst) .code := by
  have returned : code.Reads (answer (r.map Prod.fst)) [] .code := by
    refine reads_answer fun m hm => ?_
    obtain ⟨e, he, rfl⟩ := List.mem_map.1 hm
    exact Token.worded_of_isName (h e he).1
  exact reads_lookups returned (fun _ hm => absurd hm List.not_mem_nil) h

end ReadBack

/-! ### Parameters -/

namespace CompiledCreate

/-- The parameters are the arguments, and then the staged records under the names of their
models. -/
def Bundled (m : CompiledCreate) : Prop :=
  m.parameters =
    (argumentsParameter, .object m.arguments) :: m.staged.map fun e => (e.1, .array e.2)

/-- What the read-back refers to is what was staged, model by model. -/
def FindsStaged (m : CompiledCreate) : Prop :=
  (placeholders m.readBack.text).map (Entries.get? m.parameters) =
    m.staged.map fun e => some (.array e.2)

/-- Every reference finds the value that it was written for: those of the calls find the
arguments, and those of the read-back what was staged. -/
structure Resolves (m : CompiledCreate) : Prop where
  calls : ∀ n ∈ placeholders m.calls, Entries.get? m.parameters n = some (.object m.arguments)
  readBack : m.FindsStaged

end CompiledCreate

section

variable {arguments : Json.Object} {staged : Entries (List Json)}

theorem keys_staged (staged : Entries (List Json)) :
    Entries.keys (staged.map fun (model, records) => (model, Json.array records)) =
      Entries.keys staged := by
  rw [Entries.keys, List.map_map]
  rfl

variable (distinct : (Entries.keys staged).Nodup)
include distinct

/-- Without a model of that name, nothing takes the place of the arguments. -/
theorem stagedParameters_eq (free : argumentsParameter ∉ Entries.keys staged) :
    stagedParameters arguments staged =
      (argumentsParameter, .object arguments) :: staged.map fun e => (e.1, .array e.2) := by
  refine Entries.insertAll_of_not_mem (keys_staged staged ▸ distinct) fun k hk hmem => ?_
  rw [keys_staged] at hk
  have hname : k = argumentsParameter := List.mem_singleton.1 hmem
  exact free (hname ▸ hk)

theorem get?_stagedParameters {e : String × List Json} (he : e ∈ staged) :
    Entries.get? (stagedParameters arguments staged) e.1 = some (.array e.2) := by
  have found : Entries.get? (staged.map fun (model, records) => (model, Json.array records)) e.1 =
      some (.array e.2) :=
    Entries.get?_of_mem (keys_staged staged ▸ distinct) (List.mem_map.2 ⟨e, he, rfl⟩)
  rw [stagedParameters, Entries.get?_insertAll (keys_staged staged ▸ distinct), found]
  rfl

/-- A model of that name leaves nothing of the arguments. -/
theorem exists_array_of_mem_stagedParameters (taken : argumentsParameter ∈ Entries.keys staged) :
    ∀ e ∈ stagedParameters arguments staged, ∃ records, e.2 = .array records := by
  intro e he
  rcases Entries.mem_insertAll he with hargs | hstaged
  · obtain rfl := List.mem_singleton.1 hargs
    obtain ⟨s, hs, hname⟩ := List.mem_map.1 taken
    have keys : (Entries.keys (stagedParameters arguments staged)).Nodup :=
      Entries.nodup_keys_insertAll _ _ (List.nodup_singleton _)
    have object := Entries.get?_of_mem keys he
    have array : Entries.get? (stagedParameters arguments staged) s.1 = some (.array s.2) :=
      get?_stagedParameters distinct hs
    rw [hname, object] at array
    cases array
  · obtain ⟨s, -, rfl⟩ := List.mem_map.1 hstaged
    exact ⟨s.2, rfl⟩

end

namespace Catalog

variable {d : Document} {c : Catalog} {name : String} {values : Json.Object}
  {ids : Option IdGenerator} {drawn : Nat} {m : CompiledCreate}

/-- **The calls refer to nothing but the arguments.** -/
theorem uses_calls (hnamed : d.Named) (hc : ofDocument d = .ok c)
    (h : (c.compile name values ids drawn).1 = .ok (.create m)) : code.Uses m.calls .code := by
  obtain ⟨info, _, _, hinfo, -, -, ends⟩ := root_of_compile h
  obtain ⟨hname, htemplate, root, supplied, hroot, hproperties⟩ := rootCall_of_compileRoot ends
  have properties : code.Uses (bindingsText m.properties) .code := by
    rw [hproperties]
    exact uses_rootBindings (named_of_model hnamed hc hroot).2.2 supplied
  refine .intercalate (cites_of_eq _ rfl rfl) (CompiledCreate.uses_rootCall ?_ ?_ properties)
    fun t ht => ?_
  · rw [htemplate]
    exact isPlain_of_mutation hnamed hc hinfo
  · rw [hname]
    exact worded_of_mutation hnamed hc hinfo
  · obtain ⟨g, hg, rfl⟩ := List.mem_map.1 ht
    exact (correlated_of_mem_groups hnamed hc h g hg).uses hnamed hc

/-- The read-back refers to the records of each model that was staged. -/
theorem reads_readBack (hnamed : d.Named) (hc : ofDocument d = .ok c)
    (h : (c.compile name values ids drawn).1 = .ok (.create m)) :
    code.Reads m.readBack.text (Entries.keys m.staged) .code := by
  obtain ⟨hread, -⟩ := readBack_of_compile h
  obtain ⟨hlookups, hknown⟩ := readBackOf_ok hread
  have keys : m.readBack.map Prod.fst = Entries.keys m.staged := by
    rw [hlookups, List.map_map]
    rfl
  rw [← keys]
  refine ReadBack.reads_text fun e he => ?_
  rw [hlookups] at he
  obtain ⟨s, hs, rfl⟩ := List.mem_map.1 he
  obtain ⟨info, hinfo, hlookup⟩ := hknown s hs
  rw [hlookup]
  exact ⟨(named_of_model hnamed hc hinfo).1, (named_of_model hnamed hc hinfo).2.1⟩

/-- **What the parameters are, and what the text finds in them.** The text refers to the arguments
in its calls and to the staged records in its read-back, and to nothing else. The read-back finds
what was staged. The parameters are the arguments and the staged records, so that the calls find
the arguments, unless a model has the name of the parameter with the arguments; then the
arguments are not among the parameters at all. -/
theorem bundles_of_compile (hnamed : d.Named) (hc : ofDocument d = .ok c)
    (h : (c.compile name values ids drawn).1 = .ok (.create m)) :
    m.staged = stagedRecords c m.visits ∧
      Entries.keys m.staged = (m.visits.map Visit.model).eraseDups ∧
      placeholders m.text = placeholders m.calls ++ Entries.keys m.staged ∧
      (∀ n ∈ placeholders m.calls, n = argumentsParameter) ∧
      m.FindsStaged ∧
      (m.Bundled ↔ argumentsParameter ∉ Entries.keys m.staged) ∧
      (argumentsParameter ∉ Entries.keys m.staged → m.Resolves) ∧
      (argumentsParameter ∈ Entries.keys m.staged →
        ∀ e ∈ m.parameters, ∃ records, e.2 = .array records) := by
  obtain ⟨-, distinct, -, hparameters⟩ := readBack_of_compile h
  obtain ⟨-, -, -, -, t, -, -, -, -, -, -, -, hvisits, hstaged⟩ := run_of_compile h
  obtain ⟨names, hcalls, honly⟩ := uses_calls hnamed hc h
  have hreadBack := reads_readBack hnamed hc h
  have calls : placeholders m.calls = names := placeholders_of_reads hcalls
  have finds : m.FindsStaged := by
    rw [CompiledCreate.FindsStaged, placeholders_of_reads hreadBack, hparameters, Entries.keys,
      List.map_map]
    exact List.map_congr_left fun e he => get?_stagedParameters distinct he
  refine ⟨hvisits ▸ hstaged, (collects_of_compile h).2, ?_, calls ▸ honly, finds, ⟨?_, ?_⟩,
    fun free => ⟨fun n hn => ?_, finds⟩, fun taken => ?_⟩
  · rw [CompiledCreate.text_eq_calls, placeholders_append hcalls, calls,
      placeholders_of_reads hreadBack]
  · intro bundled taken
    have among : (argumentsParameter, Json.object m.arguments) ∈
        stagedParameters m.arguments m.staged := by
      rw [← hparameters, bundled]
      exact .head _
    obtain ⟨records, hrecords⟩ := exists_array_of_mem_stagedParameters distinct taken _ among
    cases hrecords
  · intro free
    rw [CompiledCreate.Bundled, hparameters]
    exact stagedParameters_eq distinct free
  · rw [calls] at hn
    rw [honly n hn, hparameters, stagedParameters_eq distinct free]
    exact Entries.get?_cons _ _ _ _ ▸ if_pos rfl
  · rw [hparameters]
    exact exists_array_of_mem_stagedParameters distinct taken

/-- Friends are passed under a name of their own. -/
theorem bundles_of_compile_friends : friends.Named ∧ ofDocument friends = .ok friendsCatalog ∧
    ∃ m : CompiledCreate,
      (friendsCatalog.compile "createPerson" friendsValues none 0).1 = .ok (.create m) ∧
        Entries.keys m.staged = ["Person"] ∧ m.Bundled ∧ m.Resolves := by
  have hnamed : friends.Named := by
    unfold Document.Named
    decide
  have hc : ofDocument friends = .ok friendsCatalog := rfl
  have compiled : ∃ m : CompiledCreate,
      (friendsCatalog.compile "createPerson" friendsValues none 0).1 = .ok (.create m) ∧
        Entries.keys m.staged = ["Person"] := ⟨_, rfl, rfl⟩
  obtain ⟨m, h, models⟩ := compiled
  obtain ⟨-, -, -, -, -, bundled, resolves, -⟩ := bundles_of_compile hnamed hc h
  have free : argumentsParameter ∉ Entries.keys m.staged := by
    rw [models]
    decide
  exact ⟨hnamed, hc, m, h, models, bundled.2 free, resolves free⟩

/-! ### A model by the name of the arguments -/

/-- A model that is called as the parameter with the arguments. -/
def namesake : Document :=
  [.type (.object {
    name := argumentsParameter
    directives := [Directive.bare Names.model]
    fields := [
      { name := Names.id, type := .nonNull (.named "ID")
        directives := [Directive.bare Names.unique] }] }),
   .type (.object {
    name := Names.mutation
    fields := [
      { name := "createvariables", type := .named argumentsParameter
        directives := [Directive.bare Names.binding] }] })]

/-- **A model can take the place of the arguments.** The root call is written to pass on the
arguments and finds the records of the model instead. -/
theorem not_bundled_variables : namesake.Named ∧ ∃ c m, ofDocument namesake = .ok c ∧
    (c.compile "createvariables" [("data", .object [(Names.id, .string "a")])] none 0).1 =
      .ok (.create m) ∧ ¬ m.Bundled ∧ ¬ m.Resolves := by
  have hnamed : namesake.Named := by
    unfold Document.Named
    decide
  obtain ⟨c, m, hc, h, hparameters, harguments, hcalls⟩ : ∃ c m, ofDocument namesake = .ok c ∧
      (c.compile "createvariables" [("data", .object [(Names.id, .string "a")])] none 0).1 =
        .ok (.create m) ∧
      m.parameters = [(argumentsParameter, .array [.object [(Names.id, .string "a")]])] ∧
      m.arguments = [(Names.id, .string "a")] ∧
      placeholders m.calls = [argumentsParameter] := ⟨_, _, rfl, rfl, rfl, rfl, by decide +kernel⟩
  refine ⟨hnamed, c, m, hc, h, fun bundled => ?_, fun resolves => ?_⟩
  · rw [CompiledCreate.Bundled, hparameters] at bundled
    cases bundled
  · have found := resolves.calls argumentsParameter (hcalls ▸ .head _)
    rw [hparameters] at found
    cases found

end Catalog

end GraphqlCypher
