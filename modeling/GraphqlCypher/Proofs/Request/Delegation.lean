import GraphqlCypher.Proofs.Language.Reading
import GraphqlCypher.Proofs.Mutation.Compiled
import GraphqlCypher.Proofs.Traversal
import GraphqlCypher.Request.Binding
import Mathlib.Data.List.Nodup

/-! Arguments that are passed on and taken back.

A call becomes the text of an operation, and the text is read again. Names and types come from
type definitions, so each piece of the text has tokens of its own, and they leave the reader
no choice until the arguments of the field are closed: what it declares and what it passes are
the variables of the call. Compiling takes the tag off every variable. A tag ends at the first
underscore after it, and the name behind it may begin with what looks like a tag itself.

**Main result.** `delegatedOperation_restores`: an argument that the signature does not have is
refused; otherwise every argument has one variable, and the arguments come back as they were. -/
namespace GraphqlCypher

open Token

namespace PassedArgument

/-! ### Tags -/

theorem toList_taggedName (place : Nat) (n : String) :
    (taggedName place n).toList = '_' :: ('v' :: (toString place).toList ++ '_' :: n.toList) := by
  simp [taggedName]

theorem isDigit_of_mem_place (place : Nat) : ∀ c ∈ (toString place).toList, c.isDigit = true := by
  intro c hc
  rw [Nat.toString_eq_repr, Nat.toList_repr] at hc
  exact Nat.isDigit_of_mem_toDigits (b := 10) (by decide) (by decide) hc

theorem isAlphanum_of_mem_tag (place : Nat) :
    ∀ c ∈ 'v' :: (toString place).toList, c.isAlphanum = true := by
  intro c hc
  rcases List.mem_cons.1 hc with rfl | hc
  · decide
  · rw [Char.isAlphanum, isDigit_of_mem_place place c hc, Bool.or_true]

/-- A tag comes off again, whatever the name begins with. -/
theorem logicalName_taggedName (place : Nat) {n : String} (h : n ≠ "") :
    logicalName (taggedName place n) = n := by
  have alphanum := isAlphanum_of_mem_tag place
  have stops : ∀ c ∈ 'v' :: (toString place).toList, (c != '_') = true := by
    intro c hc
    rw [bne_iff_ne]
    rintro rfl
    exact absurd (alphanum _ hc) (by decide)
  have nonempty : n.toList ≠ [] := fun hn => h (String.toList_inj.1 hn)
  have tag : ('v' :: (toString place).toList ++ '_' :: n.toList).takeWhile (· != '_') =
      'v' :: (toString place).toList := by
    rw [List.takeWhile_append_of_pos stops, List.takeWhile_cons_of_neg (by decide),
      List.append_nil]
  have name : ('v' :: (toString place).toList ++ '_' :: n.toList).dropWhile (· != '_') =
      '_' :: n.toList := by
    rw [List.dropWhile_append_of_pos stops, List.dropWhile_cons_of_neg (by decide)]
  have off : logicalChars (taggedName place n).toList = n.toList := by
    rw [toList_taggedName]
    simp only [logicalChars, tag, name]
    rw [if_pos]
    simpa [nonempty] using alphanum
  rw [logicalName, off, String.ofList_toList]

theorem isName_taggedName (place : Nat) {n : String} (h : isName n = true) :
    isName (taggedName place n) = true := by
  have word : ∀ c ∈ 'v' :: (toString place).toList ++ '_' :: n.toList, isNameChar c = true := by
    intro c hc
    rcases List.mem_append.1 hc with hc | hc
    · rw [isNameChar, isAlphanum_of_mem_tag place c hc, Bool.or_true]
    · rcases List.mem_cons.1 hc with rfl | hc
      · decide
      · exact isNameChar_of_mem h c hc
  rw [isName, toList_taggedName]
  exact Bool.and_eq_true_iff.2 ⟨by decide, List.all_eq_true.2 word⟩

/-- The values of a call by the names of its variables. -/
def taggedValues (arguments : Json.Object) : Json.Object :=
  arguments.zipIdx.map fun (argument, place) => (taggedName place argument.1, argument.2)

theorem map_logicalName_taggedValues {arguments : Json.Object}
    (named : ∀ n ∈ Entries.keys arguments, n ≠ "") :
    (taggedValues arguments).map (fun e => (logicalName e.1, e.2)) = arguments := by
  have each : ∀ x ∈ arguments.zipIdx,
      (logicalName (taggedName x.2 x.1.1), x.1.2) = x.1 := by
    intro x hx
    have hmem : x.1 ∈ arguments := List.fst_mem_of_mem_zipIdx hx
    rw [logicalName_taggedName x.2 (named _ (List.mem_map_of_mem hmem))]
  rw [taggedValues, List.map_map]
  exact (List.map_congr_left each).trans (List.zipIdx_map_fst 0 arguments)

theorem nodup_keys_taggedValues {arguments : Json.Object}
    (named : ∀ n ∈ Entries.keys arguments, n ≠ "") (keyed : (Entries.keys arguments).Nodup) :
    (Entries.keys (taggedValues arguments)).Nodup := by
  have off : (Entries.keys (taggedValues arguments)).map logicalName = Entries.keys arguments := by
    have := congrArg Entries.keys (map_logicalName_taggedValues named)
    rw [← this, Entries.keys, Entries.keys, List.map_map, List.map_map]
    rfl
  exact List.Nodup.of_map logicalName (off ▸ keyed)

/-- **Tags come off**: the variables of a call stand for its arguments, in the same order. -/
theorem logicalArguments_taggedValues {arguments : Json.Object}
    (named : ∀ n ∈ Entries.keys arguments, n ≠ "") (keyed : (Entries.keys arguments).Nodup) :
    logicalArguments (taggedValues arguments) = arguments := by
  rw [logicalArguments, map_logicalName_taggedValues named, Entries.ofList_eq_self keyed]

/-! ### The arguments of a call -/

variable {signature : Signature} {field : String} {arguments : Json.Object}

/-- An argument at its place, with the type that a signature gives it. -/
def ofPlaced (signature : Signature) (x : (String × Json) × Nat) : PassedArgument :=
  ⟨x.1.1, taggedName x.2 x.1.1, (Entries.get? signature x.1.1).getD "", x.1.2⟩

/-- The arguments of a call are passed if the signature knows them all. -/
theorem ofArguments_ok (known : ∀ n ∈ Entries.keys arguments, n ∈ Entries.keys signature) :
    ofArguments signature field arguments =
      .ok (arguments.zipIdx.map (ofPlaced signature)) := by
  refine mapM_ok_iff.2 (List.forall₂_map_right_iff.2 (List.forall₂_same.2 fun x hx => ?_))
  have hmem : x.1.1 ∈ Entries.keys arguments :=
    List.mem_map_of_mem (List.fst_mem_of_mem_zipIdx hx)
  obtain ⟨type, htype⟩ := Entries.exists_get?_of_mem_keys (known _ hmem)
  simp only [htype, ofPlaced, Option.getD_some]

/-- The first argument that the signature does not know is named by the failure. -/
theorem ofArguments_error {n : String}
    (unknown : (Entries.keys arguments).find? (· ∉ Entries.keys signature) = some n) :
    ofArguments signature field arguments = .error (.unknownArgument n field) := by
  obtain ⟨hn, names, others, hkeys, known⟩ := List.find?_eq_some_iff_append.1 unknown
  obtain ⟨before, later, rfl, rfl, hlater⟩ := List.map_eq_append_iff.1 hkeys
  obtain ⟨⟨n', v⟩, after, rfl, rfl, -⟩ := List.map_eq_cons_iff.1 hlater
  have missing : Entries.get? signature n' = none := Entries.get?_eq_none (by simpa using hn)
  rw [ofArguments, List.zipIdx_append, List.zipIdx_cons]
  refine mapM_error_of_append (fun x hx => ?_) (by simp only [missing])
  have hmem : x.1.1 ∈ Entries.keys before :=
    List.mem_map_of_mem (List.fst_mem_of_mem_zipIdx hx)
  obtain ⟨type, htype⟩ := Entries.exists_get?_of_mem_keys (by simpa using known _ hmem)
  simp only [htype]
  exact ⟨_, rfl⟩

/-! ### The text of a call -/

theorem kinds_inParentheses {ι : Type} {items : List ι} {text : ι → String}
    {tokens : ι → List Token} (before : String)
    (hbefore : ∀ rest, kinds (before.toList ++ rest) = kinds rest)
    (h : ∀ x ∈ items, Cuts (text x) (tokens x)) (rest : List Char) :
    kinds ((inParentheses before (items.map text)).toList ++ rest) =
      Grammar.between '(' ')' (items.map tokens) ++ kinds rest := by
  cases items with
  | nil => rfl
  | cons x later =>
    rw [inParentheses, if_neg (by simp)]
    simp only [String.toList_append, List.append_assoc]
    rw [hbefore, show "(".toList = ['('] from rfl, show ")".toList = [')'] from rfl,
      List.singleton_append, List.singleton_append, kinds_mark rfl, kinds_intercalate h]
    simp [Grammar.between, List.flatMap]

/-- What is declared for an argument. -/
def declaration (types : PassedArgument → TypeRef) (a : PassedArgument) :
    Executable.VariableDefinition := ⟨a.variableName, types a, none⟩

theorem cuts_declared {types : PassedArgument → TypeRef} {a : PassedArgument}
    (hname : isName a.variableName = true) (htype : isName (types a).name = true)
    (htext : a.type = (types a).text) :
    Cuts ("$" ++ a.variableName ++ ": " ++ a.type) (declaration types a).tokens := by
  intro c rest hc
  have chars : ("$" ++ a.variableName ++ ": " ++ a.type).toList ++ c :: rest =
      '$' :: (a.variableName.toList ++ ':' :: ' ' :: ((types a).text.toList ++ c :: rest)) := by
    simp [htext]
  rw [chars, kinds_mark rfl, kinds_name hname rfl, kinds_mark rfl, kinds_blank,
    TypeRef.kinds_text htype hc]
  rfl

theorem cuts_bound {a : PassedArgument} (hname : isName a.name = true)
    (hvariable : isName a.variableName = true) :
    Cuts (a.name ++ ": $" ++ a.variableName) (Grammar.bindingTokens (a.name, a.variableName)) := by
  intro c rest hc
  have chars : (a.name ++ ": $" ++ a.variableName).toList ++ c :: rest =
      a.name.toList ++ ':' :: ' ' :: '$' :: (a.variableName.toList ++ c :: rest) := by simp
  rw [chars, kinds_name hname rfl, kinds_mark rfl, kinds_blank, kinds_mark rfl,
    kinds_name hvariable hc]
  rfl

theorem isName_keyword (kind : OperationKind) : isName kind.keyword = true := by
  cases kind <;> decide

/-- A name ends where parentheses open or, if there are none, at the blank behind them. -/
theorem kinds_name_inParentheses {s : String} (h : isName s = true) {before : String}
    (hbefore : before = "" ∨ before = " ") (parts : List String) (rest : List Char) :
    kinds (s.toList ++ ((inParentheses before parts).toList ++ ' ' :: rest)) =
      .name s :: kinds ((inParentheses before parts).toList ++ ' ' :: rest) := by
  obtain ⟨c, more, hc, stop⟩ : ∃ c more,
      (inParentheses before parts).toList ++ ' ' :: rest = c :: more ∧ isNameChar c = false := by
    cases parts with
    | nil => exact ⟨' ', rest, rfl, rfl⟩
    | cons part parts =>
      have chars : (inParentheses before (part :: parts)).toList ++ ' ' :: rest =
          before.toList ++ '(' :: ((", ".intercalate (part :: parts)).toList ++
            ')' :: ' ' :: rest) := by
        rw [inParentheses, if_neg (by simp)]
        simp
      rw [chars]
      rcases hbefore with rfl | rfl
      · exact ⟨'(', _, rfl, rfl⟩
      · exact ⟨' ', _, rfl, rfl⟩
  rw [hc, kinds_name h stop]

/-- The variables of the call, by the arguments that they are passed to. -/
def bindings (passed : List PassedArgument) : List (String × String) :=
  passed.map fun a => (a.name, a.variableName)

/-- What stands before the selection, which may be any text, and behind it. -/
theorem toList_callText (kind : OperationKind) (field : String) (selection : Option String)
    (passed : List PassedArgument) :
    ∃ rest, (callText kind field selection passed).toList = kind.keyword.toList ++
      ((inParentheses " " (passed.map fun a => "$" ++ a.variableName ++ ": " ++ a.type)).toList ++
        ' ' :: '\x7b' :: ' ' :: (field.toList ++
          ((inParentheses "" (passed.map fun a => a.name ++ ": $" ++ a.variableName)).toList ++
            ' ' :: rest))) := by
  cases selection with
  | none => exact ⟨['\x7d'], by simp [callText]⟩
  | some s => exact ⟨s.toList ++ [' ', '\x7d'], by simp [callText]⟩

/-- The text of a call opens an operation with the variables of the call. -/
theorem kinds_callText {field : String} {passed : List PassedArgument}
    {types : PassedArgument → TypeRef} (hfield : isName field = true)
    (named : ∀ a ∈ passed, isName a.name = true ∧ isName a.variableName = true)
    (typed : ∀ a ∈ passed, isName (types a).name = true ∧ a.type = (types a).text)
    (kind : OperationKind) (selection : Option String) :
    ∃ rest, kinds (callText kind field selection passed).toList =
      Executable.openingTokens kind (passed.map (declaration types)) field (bindings passed) ++
        kinds rest := by
  obtain ⟨rest, hrest⟩ := toList_callText kind field selection passed
  refine ⟨rest, ?_⟩
  have heading := kinds_inParentheses " " kinds_blank fun a ha =>
    cuts_declared (named a ha).2 (typed a ha).1 (typed a ha).2
  have arguments := kinds_inParentheses "" (fun _ => rfl) fun a ha =>
    cuts_bound (named a ha).1 (named a ha).2
  rw [hrest, kinds_name_inParentheses (isName_keyword kind) (.inr rfl), heading, kinds_blank,
    kinds_mark rfl, kinds_blank, kinds_name_inParentheses hfield (.inl rfl), arguments, kinds_blank]
  simp [Executable.openingTokens, bindings, List.map_map, Function.comp_def]

end PassedArgument

/-! ### Delegation -/

open PassedArgument

/-- A field and its arguments as type definitions have them. -/
structure Signature.Grammatical (field : String) (s : Signature) : Prop where
  field : isName field = true
  names : ∀ n ∈ Entries.keys s, isName n = true
  types : ∀ e ∈ s, ∃ t : TypeRef, t.Grammatical ∧ e.2 = t.text

/-- The arguments of a field make a signature. -/
theorem Schema.Field.Grammatical.signature {f : Schema.Field} (h : f.Grammatical) :
    (Signature.ofField f).Grammatical f.name where
  field := h.1
  names n hn := by
    obtain ⟨e, he, rfl⟩ := List.mem_map.1 (Entries.mem_keys_ofList.1 hn)
    obtain ⟨a, ha, rfl⟩ := List.mem_map.1 he
    exact (h.2 a ha).1
  types e he := by
    obtain ⟨a, ha, rfl⟩ := List.mem_map.1 (Entries.mem_ofList he)
    exact ⟨a.type, (h.2 a ha).2, rfl⟩

namespace RootSignatures

open Schema

theorem mem_ofRoot {d : Document} {root : Option RootFields} {field : String}
    {signature : Signature} (h : (field, signature) ∈ ofRoot d root) :
    ∃ t ∈ d.objects, ∃ f ∈ t.fields, field = f.name ∧ signature = Signature.ofField f := by
  unfold ofRoot at h
  split at h
  · cases h
  · next t ht =>
    obtain ⟨fields, -, ht⟩ := Option.bind_eq_some_iff.1 ht
    obtain ⟨definition, hdefinition, hobject⟩ := Option.bind_eq_some_iff.1 ht
    have hmem : t ∈ d.objects :=
      List.mem_filterMap.2 ⟨definition, List.mem_of_getElem? hdefinition, hobject⟩
    obtain ⟨f, hf, he⟩ := List.mem_map.1 (Entries.mem_ofList h)
    cases he
    exact ⟨t, hmem, f, hf, rfl, rfl⟩

/-- Every signature of type definitions that were read is as the grammar has it. -/
theorem grammatical_of_find? {text : String} {d : Document} (h : Document.parse text = .ok d)
    {kind : OperationKind} {field : String} {signature : Signature}
    (hfind : (ofDocument d).find? kind field = some signature) :
    signature.Grammatical field := by
  have each {root : Option RootFields}
      (hget : Entries.get? (ofRoot d root) field = some signature) :
      signature.Grammatical field := by
    obtain ⟨t, ht, f, hf, rfl, rfl⟩ := mem_ofRoot (Entries.mem_of_get? hget)
    exact ((Document.grammatical_of_parse h t ht).2 f hf).signature
  cases kind with
  | query => exact each hfind
  | mutation => exact each hfind
  | subscription => cases hfind

end RootSignatures

/-- A document begins with an operation that declares one variable for each argument, of the
type that the signature has, and whose field is passed each variable as that argument. -/
def PassesOn (kind : OperationKind) (field : String) (signature : Signature)
    (arguments : Json.Object) (document : Executable.Document) : Prop :=
  ∃ first later declared, document = first :: later ∧
    first.Opens kind declared field
      (arguments.zipIdx.map fun (argument, place) => (argument.1, taggedName place argument.1)) ∧
    (declared.map fun v => (v.name, some v.type.text)) = (arguments.zipIdx.map
      fun (argument, place) => (taggedName place argument.1, Entries.get? signature argument.1)) ∧
    ∀ v ∈ declared, v.initial = none

/-- What becomes of a call whose text is read as a document: an operation in which every
argument has a variable of its own, and from which the arguments are taken back. -/
structure Delegates (kind : OperationKind) (field : String) (signature : Signature)
    (arguments : Json.Object) (document : Executable.Document) (op : Operation) : Prop where
  ofKind : op.kind = kind
  rootField : arguments ≠ [] → op.rootField = field
  text : op.text = String.ofList (Text.trimEnd document.text.toList)
  passesOn : PassesOn kind field signature arguments document
  values : op.values =
    arguments.zipIdx.map fun (argument, place) => (taggedName place argument.1, argument.2)
  distinct : (Entries.keys op.values).Nodup
  restored : logicalArguments op.values = arguments
  data : ∀ o, Entries.get? arguments "data" = some (.object o) → dataArguments op.values = .ok o

section Delegation

variable {field : String} {signature : Signature} {arguments : Json.Object}

theorem Signature.Grammatical.nonempty (h : signature.Grammatical field)
    (known : ∀ n ∈ Entries.keys arguments, n ∈ Entries.keys signature) :
    ∀ n ∈ Entries.keys arguments, n ≠ "" := by
  rintro n hn rfl
  exact absurd (h.names _ (known _ hn)) (by decide)

/-- What is passed has names and a type of the grammar. -/
theorem Signature.Grammatical.placed (h : signature.Grammatical field)
    (known : ∀ n ∈ Entries.keys arguments, n ∈ Entries.keys signature) :
    ∀ x ∈ arguments.zipIdx, isName x.1.1 = true ∧
      ∃ t : TypeRef, t.Grammatical ∧ Entries.get? signature x.1.1 = some t.text := by
  intro x hx
  have hmem := known _ (List.mem_map_of_mem (List.fst_mem_of_mem_zipIdx hx))
  obtain ⟨type, htype⟩ := Entries.exists_get?_of_mem_keys hmem
  obtain ⟨t, ht, rfl⟩ := h.types _ (Entries.mem_of_get? htype)
  exact ⟨h.names _ hmem, t, ht, htype⟩

theorem values_placed (nonempty : ∀ n ∈ Entries.keys arguments, n ≠ "")
    (keyed : (Entries.keys arguments).Nodup) :
    PassedArgument.values (arguments.zipIdx.map (ofPlaced signature)) = taggedValues arguments := by
  rw [PassedArgument.values, List.map_map]
  exact Entries.ofList_eq_self (nodup_keys_taggedValues nonempty keyed)

/-- The document that the text of a call is read as. -/
theorem passesOn_of_parse (h : signature.Grammatical field)
    (known : ∀ n ∈ Entries.keys arguments, n ∈ Entries.keys signature) {kind : OperationKind}
    {selection : Option String} {document : Executable.Document}
    (hparse : Executable.Document.parse (callText kind field selection
      (arguments.zipIdx.map (ofPlaced signature))) = .ok document) :
    PassesOn kind field signature arguments document := by
  have placed := h.placed known
  have typed : ∀ a ∈ arguments.zipIdx.map (ofPlaced signature),
      ∃ t : TypeRef, t.Grammatical ∧ a.type = t.text := by
    intro a ha
    obtain ⟨x, hx, rfl⟩ := List.mem_map.1 ha
    obtain ⟨-, t, ht, htype⟩ := placed x hx
    exact ⟨t, ht, by rw [ofPlaced, htype, Option.getD_some]⟩
  choose! types htypes using typed
  have named : ∀ a ∈ arguments.zipIdx.map (ofPlaced signature),
      isName a.name = true ∧ isName a.variableName = true := by
    intro a ha
    obtain ⟨x, hx, rfl⟩ := List.mem_map.1 ha
    exact ⟨(placed x hx).1, isName_taggedName x.2 (placed x hx).1⟩
  have plain : ∀ v ∈ (arguments.zipIdx.map (ofPlaced signature)).map (declaration types),
      v.type.Grammatical ∧ v.initial = none := by
    intro v hv
    obtain ⟨a, ha, rfl⟩ := List.mem_map.1 hv
    exact ⟨(htypes a ha).1, rfl⟩
  obtain ⟨rest, hkinds⟩ := kinds_callText h.field named
    (fun a ha => ⟨(htypes a ha).1.isName, (htypes a ha).2⟩) kind selection
  obtain ⟨first, later, -, hdocument, hfirst⟩ :=
    Grammar.first_of_whole (hkinds ▸ Executable.returns_definition plain) hparse
  refine ⟨first, later, _, hdocument, ?_, ?_, fun v hv => (plain v hv).2⟩
  · have bound : bindings (arguments.zipIdx.map (ofPlaced signature)) = arguments.zipIdx.map
        fun (argument, place) => (argument.1, taggedName place argument.1) := List.map_map
    exact bound ▸ hfirst
  · rw [List.map_map, List.map_map]
    refine List.map_congr_left fun x hx => ?_
    have ha := List.mem_map_of_mem (f := ofPlaced signature) hx
    obtain ⟨-, t, -, htype⟩ := placed x hx
    refine Prod.ext rfl ?_
    show some (types (ofPlaced signature x)).text = Entries.get? signature x.1.1
    rw [← (htypes _ ha).2, ofPlaced, htype, Option.getD_some]

/-- The operation that such a document is read as. -/
theorem parse_of_passesOn {kind : OperationKind} {document : Executable.Document} {text : String}
    (hparse : Executable.Document.parse text = .ok document)
    (h : PassesOn kind field signature arguments document) (values : Json.Object) :
    ∃ op, Operation.parse text values = .ok op ∧ op.kind = kind ∧
      (arguments ≠ [] → op.rootField = field) ∧
      op.text = String.ofList (Text.trimEnd document.text.toList) ∧ op.values = values := by
  obtain ⟨first, later, declared, rfl, ⟨selection, rest, rfl, hselection⟩, -, -⟩ := h
  obtain ⟨label, name, bound, directives, inner, rfl, hbound⟩ := hselection
  unfold Operation.parse
  rw [hparse]
  refine ⟨_, rfl, rfl, fun hne => ?_, rfl, rfl⟩
  exact (hbound (by simpa using hne)).2.1

/-- **A call is passed on and taken back**, for the signatures of type definitions, which are
all as the grammar has them (`RootSignatures.grammatical_of_find?`). What the selection holds
decides whether the text can be read; it has no part in what is declared and passed. -/
theorem delegatedOperation_restores (kind : OperationKind) (selection : Option String)
    (h : signature.Grammatical field) (keyed : (Entries.keys arguments).Nodup) :
    (∀ k ∈ Entries.keys arguments, k ∉ Entries.keys signature →
      ∃ n, (Entries.keys arguments).find? (· ∉ Entries.keys signature) = some n ∧
        delegatedOperation kind field signature arguments selection =
          .error (.unknownArgument n field)) ∧
    ((∀ k ∈ Entries.keys arguments, k ∈ Entries.keys signature) →
      ∃ passed, ofArguments signature field arguments = .ok passed ∧
        (∀ place, Executable.Document.parse (callText kind field selection passed) = .error place →
          delegatedOperation kind field signature arguments selection =
            .error (.unreadable place)) ∧
        ∀ document,
          Executable.Document.parse (callText kind field selection passed) = .ok document →
            ∃ op, delegatedOperation kind field signature arguments selection = .ok op ∧
              Delegates kind field signature arguments document op) := by
  refine ⟨fun k hk hunknown => ?_, fun known => ?_⟩
  · cases hfind : (Entries.keys arguments).find? (· ∉ Entries.keys signature) with
    | none => exact absurd (List.find?_eq_none.1 hfind k hk) (by simpa using hunknown)
    | some n =>
      refine ⟨n, rfl, ?_⟩
      rw [delegatedOperation, ofArguments_error hfind]
      rfl
  · have nonempty := h.nonempty known
    have becomes : delegatedOperation kind field signature arguments selection =
        Operation.parse (callText kind field selection (arguments.zipIdx.map (ofPlaced signature)))
          (taggedValues arguments) := by
      rw [delegatedOperation, ofArguments_ok known, ← values_placed nonempty keyed]
      rfl
    refine ⟨_, ofArguments_ok known, fun place hplace => ?_, fun document hparse => ?_⟩
    · rw [becomes, Operation.parse, hplace]
    have passesOn := passesOn_of_parse h known hparse
    obtain ⟨op, hop, hkind, hrootField, htext, hvalues⟩ :=
      parse_of_passesOn hparse passesOn (taggedValues arguments)
    have restored := logicalArguments_taggedValues nonempty keyed
    refine ⟨op, becomes.trans hop, hkind, hrootField, htext, passesOn, hvalues, ?_, ?_,
      fun o ho => ?_⟩
    · rw [hvalues]
      exact nodup_keys_taggedValues nonempty keyed
    · rw [hvalues, restored]
    · rw [hvalues, dataArguments, restored, ho]

/-- Type definitions with arguments whose names look like tags. -/
def taglikeTypes : String :=
  "type Mutation \x7b addTags(_v0_id: [ID!]!, _id: ID, where: PersonWhereUniqueInput!): ID \x7d"

def taglike : Signature :=
  [("_v0_id", "[ID!]!"), ("_id", "ID"), ("where", "PersonWhereUniqueInput!")]

def taglikeArguments : Json.Object :=
  [("where", .null), ("_v0_id", .array [.string "p1"]), ("_id", .string "p2")]

theorem grammatical_taglike : taglike.Grammatical "addTags" := by
  have read : ((Schema.Document.parse taglikeTypes).toOption.bind fun d =>
      (RootSignatures.ofDocument d).find? .mutation "addTags") = some taglike := by
    decide +kernel
  cases parsed : Schema.Document.parse taglikeTypes with
  | error e =>
    rw [parsed] at read
    cases read
  | ok d =>
    rw [parsed] at read
    have found : (RootSignatures.ofDocument d).find? .mutation "addTags" = some taglike := read
    exact RootSignatures.grammatical_of_find? parsed found

/-- The arguments come back under their names, and none loses what looks like its tag. -/
theorem delegatedOperation_restores_taglike :
    taglike.Grammatical "addTags" ∧ (Entries.keys taglikeArguments).Nodup ∧ ∃ op,
      delegatedOperation .mutation "addTags" taglike taglikeArguments none = .ok op ∧
      Entries.keys op.values = ["_v0_where", "_v1__v0_id", "_v2__id"] ∧
      logicalArguments op.values = taglikeArguments := by
  have keyed : (Entries.keys taglikeArguments).Nodup := by decide
  refine ⟨grammatical_taglike, keyed, ?_⟩
  obtain ⟨-, passes⟩ := delegatedOperation_restores .mutation none grammatical_taglike keyed
  obtain ⟨passed, hpassed, -, reads⟩ := passes (by decide)
  cases hpassed
  have readable : ∃ document, Executable.Document.parse (callText .mutation "addTags" none
      (taglikeArguments.zipIdx.map (ofPlaced taglike))) = .ok document :=
    ok_of_isOk (by decide +kernel)
  obtain ⟨document, hdocument⟩ := readable
  obtain ⟨op, hop, delegates⟩ := reads document hdocument
  exact ⟨op, hop, by rw [delegates.values]; rfl, delegates.restored⟩

end Delegation

end GraphqlCypher
