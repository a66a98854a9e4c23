import GraphqlCypher.Proofs.Catalog.Creates
import GraphqlCypher.Proofs.Language.Names
import GraphqlCypher.Proofs.Mutation.Origins

/-! The literals of a statement.

An operation goes to the database as one string literal. `firstLiteral` reads a text as the
database does: from the first quote up to the next that no backslash stands before. A text of a
client is escaped, a template is not, and neither ends its literal early: what is escaped is a
`LiteralBody` whatever it was, and a template is one because it is made of names
(`Statement.literals_close`). -/
namespace GraphqlCypher

open Schema

namespace Statement

/-! ### Reading a literal -/

/-- What stands before the first quote that is not escaped, and what stands after it. -/
def scan : List Char → Option (List Char × List Char)
  | [] => none
  | '\'' :: rest => some ([], rest)
  | '\\' :: c :: rest => (scan rest).map fun (body, more) => ('\\' :: c :: body, more)
  | c :: rest => (scan rest).map fun (body, more) => (c :: body, more)

/-- Takes the backslashes away that stand before a quote or a backslash. -/
def unescape : List Char → List Char
  | '\\' :: '\\' :: rest => '\\' :: unescape rest
  | '\\' :: '\'' :: rest => '\'' :: unescape rest
  | c :: rest => c :: unescape rest
  | [] => []

/-- The first literal of a text as it is written, and what follows its closing quote. -/
def firstLiteral (text : String) : Option (String × String) :=
  match text.toList.dropWhile (· != '\'') with
  | [] => none
  | _ :: rest => (scan rest).map fun (body, more) => (String.ofList body, String.ofList more)

/-- What may stand between two quotes: a backslash takes the next character with it. -/
inductive LiteralBody : List Char → Prop where
  | nil : LiteralBody []
  | plain {c : Char} {rest : List Char} (quote : c ≠ '\'') (backslash : c ≠ '\\')
      (h : LiteralBody rest) : LiteralBody (c :: rest)
  | escaped (c : Char) {rest : List Char} (h : LiteralBody rest) : LiteralBody ('\\' :: c :: rest)

theorem scan_of_literalBody {body : List Char} (h : LiteralBody body) (rest : List Char) :
    scan (body ++ '\'' :: rest) = some (body, rest) := by
  induction h with
  | nil => rfl
  | plain hquote hbackslash _ ih =>
    rw [List.cons_append, scan]
    · rw [ih]
      rfl
    · exact hquote
    · exact fun _ _ e => absurd e hbackslash
  | escaped c _ ih =>
    rw [List.cons_append, List.cons_append, scan, ih]
    rfl

theorem firstLiteral_of_literalBody {lead body : String} (hlead : '\'' ∉ lead.toList)
    (hbody : LiteralBody body.toList) (rest : String) :
    firstLiteral (lead ++ "'" ++ body ++ "'" ++ rest) = some (body, rest) := by
  have htext : (lead ++ "'" ++ body ++ "'" ++ rest).toList =
      lead.toList ++ '\'' :: (body.toList ++ '\'' :: rest.toList) := by simp
  have hopen : (lead ++ "'" ++ body ++ "'" ++ rest).toList.dropWhile (· != '\'') =
      '\'' :: (body.toList ++ '\'' :: rest.toList) := by
    rw [htext, List.dropWhile_append_of_pos, List.dropWhile_cons_of_neg (by simp)]
    intro c hc
    simpa using fun e : c = '\'' => hlead (e ▸ hc)
  rw [firstLiteral, hopen]
  simp only [scan_of_literalBody hbody, Option.map_some, String.ofList_toList]

/-! ### Escaping -/

/-- Escaping in two passes: backslashes first, and then quotes. -/
theorem quote_eq_passes (s : List Char) :
    quote s = (s.flatMap fun c => if c = '\\' then ['\\', '\\'] else [c]).flatMap
      fun c => if c = '\'' then ['\\', '\''] else [c] := by
  induction s with
  | nil => rfl
  | cons c s ih =>
    rw [List.flatMap_cons, List.flatMap_append, ← ih]
    by_cases hb : c = '\\'
    · simp [quote, hb]
    · by_cases hq : c = '\''
      · simp [quote, hq]
      · simp [quote, hb, hq]

theorem literalBody_quote (s : List Char) : LiteralBody (quote s) := by
  induction s with
  | nil => exact .nil
  | cons c s ih =>
    by_cases h : c = '\\' ∨ c = '\''
    · rw [quote, if_pos h]
      exact .escaped c ih
    · rw [quote, if_neg h]
      exact .plain (fun e => h (.inr e)) (fun e => h (.inl e)) ih

theorem unescape_quote (s : List Char) : unescape (quote s) = s := by
  induction s with
  | nil => rfl
  | cons c s ih =>
    by_cases h : c = '\\' ∨ c = '\''
    · rw [quote, if_pos h]
      rcases h with rfl | rfl
      · rw [unescape, ih]
      · rw [unescape, ih]
    · rw [quote, if_neg h, unescape, ih]
      · exact fun _ e _ => h (.inl e)
      · exact fun _ e _ => h (.inl e)

/-! ### Texts without quotes -/

/-- Neither a quote nor a backslash. -/
def IsPlain (s : String) : Prop := ∀ c ∈ s.toList, c ≠ '\'' ∧ c ≠ '\\'

-- the characters of the text are gone through, and not all that there are
instance (s : String) : Decidable (IsPlain s) :=
  List.decidableBAll (fun c => c ≠ '\'' ∧ c ≠ '\\') s.toList

theorem IsPlain.literalBody {s : String} (h : IsPlain s) : LiteralBody s.toList := by
  unfold IsPlain at h
  generalize s.toList = cs at h
  induction cs with
  | nil => exact .nil
  | cons c rest ih =>
    obtain ⟨hquote, hbackslash⟩ := h c (.head rest)
    exact .plain hquote hbackslash (ih fun x hx => h x (.tail c hx))

theorem IsPlain.append {s t : String} (hs : IsPlain s) (ht : IsPlain t) : IsPlain (s ++ t) := by
  intro c hc
  rw [String.toList_append] at hc
  rcases List.mem_append.1 hc with hc | hc
  · exact hs c hc
  · exact ht c hc

theorem IsPlain.intercalate {sep : String} (hsep : IsPlain sep) {parts : List String}
    (h : ∀ s ∈ parts, IsPlain s) : IsPlain (sep.intercalate parts) := by
  induction parts with
  | nil => exact fun c hc => by cases hc
  | cons s rest ih =>
    cases rest with
    | nil => rw [String.intercalate_singleton]; exact h s (.head _)
    | cons next rest =>
      rw [String.intercalate_cons_cons]
      exact ((h s (.head _)).append hsep).append (ih fun t ht => h t (.tail s ht))

theorem ne_of_isNameChar {c : Char} (h : Token.isNameChar c = true) : c ≠ '\'' ∧ c ≠ '\\' := by
  constructor
  · rintro rfl
    exact absurd h (by decide)
  · rintro rfl
    exact absurd h (by decide)

theorem isPlain_of_isName {s : String} (h : Token.isName s = true) : IsPlain s :=
  fun c hc => ne_of_isNameChar (Token.isNameChar_of_mem h c hc)

theorem toNat_lt_of_isNameStart {c : Char} (h : Token.isNameStart c = true) : c.toNat < 128 := by
  have hcases : (c == '_' || (c.isUpper || c.isLower)) = true := h
  rw [Bool.or_eq_true, Bool.or_eq_true, beq_iff_eq] at hcases
  rcases hcases with rfl | hupper | hlower
  · decide
  · have hlast : c.val ≤ 'Z'.val := (of_decide_eq_true hupper).2
    exact Nat.lt_of_le_of_lt (UInt32.le_iff_toNat_le.1 hlast) (by decide)
  · have hlast : c.val ≤ 'z'.val := of_decide_eq_true (Bool.and_eq_true_iff.1 hlower).2
    exact Nat.lt_of_le_of_lt (UInt32.le_iff_toNat_le.1 hlast) (by decide)

/-- The first character of a name has an upper case that may stand in a name. -/
theorem isNameChar_upperCase {c : Char} (h : Token.isNameStart c = true) :
    ∀ x ∈ Text.upperCase c, Token.isNameChar x = true := by
  have each : ∀ n ∈ List.range 128, Token.isNameStart (Char.ofNat n) = true →
      (Text.upperCase (Char.ofNat n)).all Token.isNameChar = true := by decide +kernel
  have hofNat := each c.toNat (List.mem_range.2 (toNat_lt_of_isNameStart h))
  rw [Char.ofNat_toNat] at hofNat
  exact List.all_eq_true.1 (hofNat h)

theorem worded_capitalize {s : String} (h : Token.isName s = true) :
    Token.Worded (Text.capitalize s) := by
  unfold Token.isName at h
  unfold Text.capitalize Token.Worded
  cases hs : s.toList with
  | nil =>
    rw [hs] at h
    cases h
  | cons c rest =>
    simp only [hs, Bool.and_eq_true, List.all_eq_true] at h
    obtain ⟨hstart, hrest⟩ := h
    intro x hx
    simp only [String.toList_ofList] at hx
    rcases List.mem_append.1 hx with hx | hx
    · exact isNameChar_upperCase hstart x hx
    · exact hrest x hx

theorem isPlain_capitalize {s : String} (h : Token.isName s = true) :
    IsPlain (Text.capitalize s) :=
  fun c hc => ne_of_isNameChar (worded_capitalize h c hc)

theorem isPlain_typeText {t : TypeRef} (h : Token.isName t.name = true) : IsPlain t.text := by
  induction t with
  | named n => exact isPlain_of_isName h
  | list item ih =>
    have opening : IsPlain "[" := by decide
    exact (opening.append (ih h)).append (by decide)
  | nonNull inner ih => exact (ih h).append (by decide)

end Statement

/-! ### Templates -/

open Statement

/-- All names of its object types are names of the grammar. -/
def Schema.Document.Named (d : Document) : Prop :=
  ∀ t ∈ d.objects, Token.isName t.name = true ∧
    ∀ f ∈ t.fields, Token.isName f.name = true ∧ Token.isName f.typeName = true

namespace Template

/-- What the new node is selected by. -/
def selection : Template → List String
  | .create _ _ selection => selection
  | .relate _ _ _ _ => []

/-- A template is plain if its parts are. -/
theorem isPlain_text {t : Template} (hmutation : IsPlain t.mutation)
    (hdeclared : ∀ p ∈ t.declared, IsPlain p.1 ∧ IsPlain p.2)
    (hselection : ∀ s ∈ t.selection, IsPlain s) : IsPlain t.text := by
  have comma : IsPlain ", " := by decide
  have taken : IsPlain (", ".intercalate (t.declared.map fun p => "$" ++ p.1 ++ ": " ++ p.2)) := by
    refine comma.intercalate fun s hs => ?_
    obtain ⟨p, hp, rfl⟩ := List.mem_map.1 hs
    have dollar : IsPlain "$" := by decide
    exact ((dollar.append (hdeclared p hp).1).append (by decide)).append (hdeclared p hp).2
  have passed : IsPlain (", ".intercalate (t.declared.map fun p => p.1 ++ ": $" ++ p.1)) := by
    refine comma.intercalate fun s hs => ?_
    obtain ⟨p, hp, rfl⟩ := List.mem_map.1 hs
    exact ((hdeclared p hp).1.append (by decide)).append (hdeclared p hp).1
  have call : IsPlain ("mutation " ++ t.mutation ++ "(" ++
      ", ".intercalate (t.declared.map fun p => "$" ++ p.1 ++ ": " ++ p.2) ++ ") \x7b " ++
      t.mutation ++ "(" ++ ", ".intercalate (t.declared.map fun p => p.1 ++ ": $" ++ p.1) ++
      ")") := by
    have keyword : IsPlain "mutation " := by decide
    have opened := ((keyword.append hmutation).append (t := "(") (by decide)).append taken
    have body := ((opened.append (t := ") \x7b ") (by decide)).append hmutation).append (t := "(")
      (by decide)
    exact (body.append passed).append (by decide)
  cases t with
  | relate mutation owner field related =>
    exact (call.append (t := "") (by decide)).append (by decide)
  | create mutation declared names =>
    have blank : IsPlain " " := by decide
    have opening : IsPlain " \x7b " := by decide
    have selected := (opening.append (blank.intercalate hselection)).append (t := " \x7d")
      (by decide)
    exact (call.append selected).append (by decide)

variable {m : ObjectType} (hname : Token.isName m.name = true)
  (hfields : ∀ f ∈ m.fields, Token.isName f.name = true ∧ Token.isName f.typeName = true)
include hname hfields

theorem isPlain_createOf : IsPlain (createOf m).text := by
  have lead : IsPlain "create" := by decide
  refine isPlain_text (lead.append (isPlain_of_isName hname)) ?_ ?_
  · intro p hp
    simp only [createOf, declared, List.map_map, List.mem_map, List.mem_filter] at hp
    obtain ⟨f, ⟨hf, -⟩, rfl⟩ := hp
    exact ⟨isPlain_of_isName (hfields f hf).1, isPlain_typeText (hfields f hf).2⟩
  · intro s hs
    simp only [createOf, selection, List.mem_map, List.mem_filter] at hs
    obtain ⟨f, ⟨hf, -⟩, rfl⟩ := hs
    exact isPlain_of_isName (hfields f hf).1

theorem isPlain_relateOf {f : Field} (hf : f ∈ m.fields) : IsPlain (relateOf m f).text := by
  obtain ⟨hfield, hrelated⟩ := hfields f hf
  have lead : IsPlain "add" := by decide
  have input : ∀ {model : String}, Token.isName model = true →
      IsPlain (Names.whereUniqueInput model) := fun h => (isPlain_of_isName h).append (by decide)
  refine isPlain_text
    ((lead.append (isPlain_of_isName hname)).append (isPlain_capitalize hfield)) ?_ ?_
  · intro p hp
    rcases List.mem_cons.1 hp with rfl | hp
    · exact ⟨(by decide : IsPlain "where"), (input hname).append (by decide)⟩
    · obtain rfl := List.mem_singleton.1 hp
      have opening : IsPlain "[" := by decide
      exact ⟨isPlain_of_isName hfield, (opening.append (input hrelated)).append (by decide)⟩
  · intro s hs
    cases hs

end Template

/-- The templates of a catalog are plain. -/
theorem Catalog.isPlain_template {d : Document} {c : Catalog} (hnamed : d.Named)
    (h : ofDocument d = .ok c) : ∀ e ∈ c.mutations, IsPlain e.2.template.text := by
  intro e he
  rw [eq_of_ofDocument h] at he
  obtain ⟨m, hm, he⟩ := List.mem_flatMap.1 (Entries.mem_ofList he)
  obtain ⟨hname, hfields⟩ := hnamed m (Document.mem_objects_of_mem_models hm)
  rcases List.mem_append.1 he with he | he
  · split at he
    · obtain rfl := List.mem_singleton.1 he
      exact Template.isPlain_createOf hname hfields
    · cases he
  · obtain ⟨f, hf, rfl⟩ := List.mem_map.1 he
    exact Template.isPlain_relateOf hname hfields (List.mem_of_mem_filter hf)

theorem Catalog.isPlain_of_mutation {d : Document} {c : Catalog} (hnamed : d.Named)
    (h : ofDocument d = .ok c) {name : String} {info : MutationInfo}
    (hinfo : c.mutation name = .ok info) : IsPlain info.template.text := by
  have entry := Entries.mem_of_get? ((mutation_ok_iff c name info).1 hinfo)
  have plain := isPlain_template hnamed h (name, info) entry
  exact plain

/-! ### The literals of a statement -/

namespace Statement

/-- A text that goes on after `lead` with a literal and then with `rest`: its first literal is
that one, and ends where it was closed. -/
def Closes (lead literal rest text : String) : Prop :=
  text = lead ++ "'" ++ literal ++ "'" ++ rest ∧ firstLiteral text = some (literal, rest)

theorem closes_of_literalBody {lead body rest text : String}
    (htext : text = lead ++ "'" ++ body ++ "'" ++ rest) (hlead : '\'' ∉ lead.toList)
    (hbody : LiteralBody body.toList) : Closes lead body rest text :=
  ⟨htext, htext ▸ firstLiteral_of_literalBody hlead hbody rest⟩

/-- A call of the database with a template as its first argument. -/
def Executes (template : Template) (text : String) : Prop :=
  ∃ rest, Closes "CALL graphql.execute(" template.text rest text

theorem executes_of_isPlain {template : Template} (h : IsPlain template.text) (rest : String) :
    Executes template ("CALL graphql.execute('" ++ template.text ++ "'" ++ rest) :=
  ⟨rest, closes_of_literalBody rfl (by decide) h.literalBody⟩

theorem executes_rootCall (m : CompiledCreate) (h : IsPlain m.template.text) :
    Executes m.template m.rootCall := by
  have htext : m.rootCall = "CALL graphql.execute('" ++ m.template.text ++ "'" ++ (", \x7b " ++
      bindingsText m.properties ++ " \x7d) YIELD result AS " ++ m.mutation ++ "Result WITH " ++
      m.mutation ++ "Result AS " ++ m.mutation ++ "Result") := by
    unfold CompiledCreate.rootCall
    apply String.toList_inj.1
    simp
  exact htext ▸ executes_of_isPlain h _

theorem executes_add (m : CompiledAdd) (h : IsPlain m.template.text) :
    Executes m.template m.text := by
  have htext : m.text = "CALL graphql.execute('" ++ m.template.text ++ "'" ++ (", \x7b " ++
      parameterMap (Entries.keys m.arguments) ++ " \x7d) YIELD result AS " ++ m.mutation ++
      "Result\nRETURN \x7b " ++ m.mutation ++ ": " ++ m.mutation ++ "Result \x7d") := by
    unfold CompiledAdd.text
    apply String.toList_inj.1
    simp
  exact htext ▸ executes_of_isPlain h _

theorem executes_relationCall (g : Group) (h : IsPlain g.relation.text) :
    Executes g.relation g.relationCall := by
  have htext : g.relationCall = "CALL graphql.execute('" ++ g.relation.text ++ "'" ++
      (", \x7b where: \x7b " ++ bindingsText g.owner ++ " \x7d, " ++ g.step.field ++ ": [\x7b" ++
        bindingsText g.target ++ "\x7d] \x7d) YIELD result AS " ++ g.relation.mutation ++
        g.element ++ "Result") := by
    unfold Group.relationCall
    apply String.toList_inj.1
    simp
  exact htext ▸ executes_of_isPlain h _

theorem executes_creationCall (g : Group) {template : Template} (h : IsPlain template.text) :
    Executes template (g.creationCall template) := by
  have htext : g.creationCall template = "CALL graphql.execute('" ++ template.text ++ "'" ++
      (", " ++ g.element ++ ") YIELD result AS create" ++ g.element ++ "Result") := by
    unfold Group.creationCall
    apply String.toList_inj.1
    simp
  exact htext ▸ executes_of_isPlain h _

theorem closes_forward {procedure lead : String}
    (hlead : lead = "CALL graphql." ++ procedure ++ "(") (hquote : '\'' ∉ lead.toList)
    (operation : String) (values : Json.Object) :
    Closes lead (String.ofList (quote operation.toList))
      (", \x7b" ++ parameterMap (Entries.keys values) ++ "\x7d)")
      (forward procedure operation values).text := by
  refine closes_of_literalBody ?_ hquote ?_
  · unfold forward literal
    apply String.toList_inj.1
    simp [hlead]
  · rw [String.toList_ofList]
    exact literalBody_quote _

/-- Every call of a compiled create mutation executes the template that it was made with. -/
theorem executes_create {d : Document} {c : Catalog} (hnamed : d.Named)
    (hc : Catalog.ofDocument d = .ok c) {name : String} {values : Json.Object}
    {ids : Option IdGenerator} {drawn : Nat} {m : CompiledCreate}
    (h : (c.compile name values ids drawn).1 = .ok (.create m)) :
    Executes m.template m.rootCall ∧ ∀ g ∈ m.groups, Executes g.relation g.relationCall ∧
      ∀ template ∈ g.creation, Executes template (g.creationCall template) := by
  have plain : ∀ template ∈
      m.template :: m.groups.flatMap (fun g => g.relation :: g.creation.toList),
      IsPlain template.text := by
    intro template htemplate
    obtain ⟨name, info, hinfo, rfl⟩ := Catalog.templates_of_compile h template htemplate
    exact Catalog.isPlain_of_mutation hnamed hc hinfo
  refine ⟨executes_rootCall m (plain m.template (.head _)), fun g hg => ?_⟩
  have ofGroup : ∀ template ∈ g.relation :: g.creation.toList, IsPlain template.text :=
    fun template ht => plain template (.tail _ (List.mem_flatMap.2 ⟨g, hg, ht⟩))
  refine ⟨executes_relationCall g (ofGroup g.relation (.head _)), fun template ht => ?_⟩
  exact executes_creationCall g (ofGroup template (.tail _ (Option.mem_toList.2 ht)))

/-- **Literals end where they are closed.** An operation that is forwarded is one literal, and
unescaping it gives the operation back; the templates of a document with proper names have
nothing to escape, so the calls that are made with them as they are end their literals too. -/
theorem literals_close :
    (∀ operation values,
      Closes "CALL graphql.query(" (String.ofList (quote operation.toList))
          (", \x7b" ++ parameterMap (Entries.keys values) ++ "\x7d)")
          (query operation values).text ∧
        Closes "CALL graphql.execute(" (String.ofList (quote operation.toList))
          (", \x7b" ++ parameterMap (Entries.keys values) ++ "\x7d)")
          (execute operation values).text ∧
        unescape (quote operation.toList) = operation.toList) ∧
      ∀ d c, d.Named → Catalog.ofDocument d = .ok c →
        (∀ e ∈ c.mutations, IsPlain e.2.template.text) ∧
        (∀ name values ids drawn m, (c.compile name values ids drawn).1 = .ok (.create m) →
          Executes m.template m.rootCall ∧ ∀ g ∈ m.groups, Executes g.relation g.relationCall ∧
            ∀ template ∈ g.creation, Executes template (g.creationCall template)) ∧
        ∀ name values ids drawn m, (c.compile name values ids drawn).1 = .ok (.add m) →
          Executes m.template m.text := by
  refine ⟨fun operation values => ⟨closes_forward rfl (by decide) operation values,
    closes_forward rfl (by decide) operation values, unescape_quote _⟩, ?_⟩
  intro d c hnamed hc
  refine ⟨Catalog.isPlain_template hnamed hc, fun _ _ _ _ _ h => executes_create hnamed hc h, ?_⟩
  intro name values ids drawn m h
  obtain ⟨info, hinfo, -, rfl⟩ := Catalog.add_of_compile h
  exact executes_add _ (Catalog.isPlain_of_mutation hnamed hc hinfo)

theorem literals_close_friends : ∃ m,
    (friendsCatalog.compile "createPerson" friendsValues (some (.counting "n" none)) 0).1 =
      .ok (.create m) ∧ m.groups.length = 2 ∧ Executes m.template m.rootCall ∧
        ∀ g ∈ m.groups, Executes g.relation g.relationCall := by
  have hnamed : friends.Named := by
    unfold Document.Named
    decide
  have hc : Catalog.ofDocument friends = .ok friendsCatalog := rfl
  obtain ⟨m, hm, hlength⟩ : ∃ m, (friendsCatalog.compile "createPerson" friendsValues
      (some (.counting "n" none)) 0).1 = .ok (.create m) ∧ m.groups.length = 2 := ⟨_, rfl, rfl⟩
  obtain ⟨-, created, -⟩ := literals_close.2 friends friendsCatalog hnamed hc
  obtain ⟨hroot, hgroups⟩ := created _ _ _ _ m hm
  exact ⟨m, hm, hlength, hroot, fun g hg => (hgroups g hg).1⟩

end Statement

end GraphqlCypher
