import GraphqlCypher.Language.SchemaReader
import GraphqlCypher.Proofs.Language.Names
import GraphqlCypher.Proofs.Reader

/-! What is read has names of the grammar.

The scan makes a name only of a letter or an underscore and the name characters
after it, so every name that a rule of the grammar accepts is one. With the names of
object types go those of their fields and arguments, and the types of arguments. -/
namespace GraphqlCypher

namespace Token

/-- If the token is a name, it is one of the grammar. -/
def Named (t : Token) : Prop := ∀ s, t = .name s → isName s = true

theorem named_floatOf {body : List Char} {power : Int} {t : Token}
    (h : floatOf? body power = some t) : t.Named := by
  intro s h
  subst h
  unfold floatOf? at h
  dsimp only at h
  split at h <;> split at h <;> cases h

theorem named_intOf {cs : List Char} {t : Token} (h : intOf? cs = some t) : t.Named := by
  intro s h
  subst h
  unfold intOf? at h
  dsimp only at h
  split at h
  · split at h <;> split at h <;> cases h
  · cases h

theorem named_numberOf {cs : List Char} {t : Token} (h : numberOf? cs = some t) : t.Named := by
  unfold numberOf? at h
  dsimp only at h
  split at h
  · obtain ⟨power, -, hfloat⟩ := Option.bind_eq_some_iff.1 h
    exact named_floatOf hfloat
  · split at h
    · exact named_floatOf h
    · exact named_intOf h

theorem isName_ofList {c : Char} {cs : List Char} (hc : isNameStart c = true)
    (hcs : ∀ x ∈ cs, isNameChar x = true) : isName (String.ofList (c :: cs)) = true := by
  unfold isName
  rw [String.toList_ofList]
  simpa [hc] using hcs

/-- What a reader of one token yields: a name, if it yields one, is of the grammar. -/
abbrev YieldsNamed (p : CharReader Lexeme) : Prop := p.Yields (fun _ => True) fun l => l.1.Named

theorem yields_nameLexeme : YieldsNamed nameLexeme := by
  have hfirst : (Reader.take (fun c => if isNameStart c then some c else none)
      fun _ => () : CharReader Char).Yields (fun _ => True) fun c => isNameStart c = true := by
    refine Reader.yields_take fun x c _ hx => ?_
    split at hx
    · next hstart =>
      obtain rfl := Option.some.inj hx
      exact hstart
    · cases hx
  refine hfirst.andThen fun c hc => Reader.yields_takeWhile.map fun cs hcs s h => ?_
  cases h
  exact isName_ofList hc hcs

theorem yields_numberLexeme : YieldsNamed numberLexeme := by
  unfold numberLexeme
  refine (Reader.yields_any _).check fun cs l _ hl => ?_
  obtain ⟨t, ht, rfl⟩ := Option.map_eq_some_iff.1 hl
  exact named_numberOf ht

theorem yields_quotedLexeme : YieldsNamed quotedLexeme := by
  refine (Reader.yields_any _).andThen fun _ _ =>
    ((Reader.yields_any _).check fun raw l _ hl => ?_).relax
  obtain ⟨text, -, rfl⟩ := Option.map_eq_some_iff.1 hl
  exact fun s h => by cases h

theorem yields_lexeme : YieldsNamed lexeme := by
  refine Reader.yields_look fun input => ?_
  split
  · exact (Reader.yields_any _).andThen fun _ _ =>
      ((Reader.yields_any _).map fun raw _ s h => by cases h).relax
  · exact yields_quotedLexeme
  · exact (Reader.yields_any _).andThen fun _ _ => (Reader.yields_any _).andThen fun _ _ =>
      (Reader.yields_any _).map fun _ _ s h => by cases h
  · split
    · exact yields_nameLexeme
    split
    · exact yields_numberLexeme
    · refine Reader.yields_take fun x l _ hl => ?_
      split at hl
      · obtain rfl := Option.some.inj hl
        exact fun s h => by cases h
      · cases hl
  · exact Reader.yields_refuse _

theorem named_of_mem_scanFrom {p : Position} {text : List Char} :
    ∀ t ∈ scanFrom p text, t.token.Named := by
  fun_induction scanFrom p text with
  | case1 p => simp [Named]
  | case2 p c rest _ ih => exact ih
  | case3 p rest _ ih => exact ih
  | case4 p rest _ _ ih => exact ih
  | case5 p c rest _ _ _ _ ih => exact ih
  | case6 p rest _ _ _ _ hd => simp [Named]
  | case7 p rest _ _ _ _ _ more hd ih => exact ih
  | case8 p c rest _ _ _ _ _ => simp [Named]
  | case9 p c rest _ _ _ _ _ r hr ih =>
    intro t ht
    rcases List.mem_cons.1 ht with rfl | ht
    · exact yields_lexeme _ r (fun _ _ => trivial) hr
    · exact ih t ht

end Token

namespace Grammar

/-- Reads tokens of a text: what is promised holds if names are of the grammar. -/
abbrev Promises {s : Bool} {α : Type} (p : TokenReader s α) (P : α → Prop) : Prop :=
  p.Yields (fun t => t.token.Named) P

theorem yields_name : Promises name fun s => Token.isName s = true := by
  refine Reader.yields_take fun t s ht hs => ?_
  dsimp only at hs
  split at hs
  · next n hn =>
    obtain rfl := Option.some.inj hs
    exact ht n hn
  · cases hs

theorem yields_optionalBracketed {α : Type} {p : TokenReader true α} {P : α → Prop}
    (hp : Promises p P) (first last : Char) (more : List Located → Bool) :
    Promises (optionalBracketed first last more p) fun as => ∀ a ∈ as, P a := by
  refine Reader.yields_look fun input => ?_
  split
  · exact ((Reader.yields_any _).andThen fun _ _ => hp.oneOrMore.andThen fun as has =>
      (Reader.yields_any _).map fun _ _ => has).relax
  · exact Reader.yields_done (by simp)

/-- A type before its mark for not null. -/
def bareTypeRef (item : Option (TokenReader true TypeRef)) : TokenReader true TypeRef :=
  Reader.look fun tokens =>
    match item with
    | none => name.map TypeRef.named
    | some p =>
      if nextIsMark '[' tokens then
        (mark '[').andThen fun _ => p.andThen fun t => (mark ']').map fun _ => .list t
      else name.map TypeRef.named

theorem typeRefWith_eq (item : Option (TokenReader true TypeRef)) :
    typeRefWith item = (bareTypeRef item).andThen fun t =>
      (Reader.optional (nextIsMark '!') (mark '!')).map fun bang =>
        if bang.isSome then .nonNull t else t := rfl

/-- A type is read without a mark for not null, and then it gets one or stays as it is. -/
theorem yields_typeRefWith {item : Option (TokenReader true TypeRef)}
    (hitem : ∀ p ∈ item, Promises p TypeRef.Grammatical) :
    Promises (typeRefWith item) TypeRef.Grammatical := by
  have named : Promises (name.map TypeRef.named) fun t => t.nonNull.Grammatical :=
    yields_name.map fun n hn => hn
  have bare : Promises (bareTypeRef item) fun t => t.nonNull.Grammatical := by
    refine Reader.yields_look fun input => ?_
    cases item with
    | none => exact named
    | some p =>
      dsimp only
      split
      · exact (Reader.yields_any _).andThen fun _ _ => (hitem p rfl).andThen fun t ht =>
          (Reader.yields_any _).map fun _ _ => ht
      · exact named
  rw [typeRefWith_eq]
  refine bare.andThen fun t ht => (Reader.yields_any _).map fun bang _ => ?_
  split
  · exact ht
  · exact ht.nullable

theorem yields_typeRef (brackets : Nat) : Promises (typeRef brackets) TypeRef.Grammatical := by
  induction brackets with
  | zero => exact yields_typeRefWith nofun
  | succ n ih =>
    refine yields_typeRefWith fun p hp => ?_
    cases hp
    exact ih

theorem whole_ok {α : Type} {p : TokenReader true α} {P : α → Prop} (hp : Promises p P)
    {text : String} {as : List α} (h : whole p text = .ok as) : ∀ a ∈ as, P a := by
  unfold whole at h
  dsimp only at h
  split at h
  · next r hr =>
    obtain rfl := Except.ok.inj h
    exact (hp.oneOrMore.andThen fun as has => (Reader.yields_any _).map fun _ _ => has)
      _ r Token.named_of_mem_scanFrom hr
  · cases h

end Grammar

namespace Schema

open Grammar

/-- An argument as the grammar has it. -/
def InputValue.Grammatical (v : InputValue) : Prop :=
  Token.isName v.name = true ∧ v.type.Grammatical

/-- A field as the grammar has it, with its arguments. -/
def Field.Grammatical (f : Field) : Prop :=
  Token.isName f.name = true ∧ ∀ a ∈ f.arguments, a.Grammatical

/-- An object type as the grammar has it, with its fields. -/
def ObjectType.Grammatical (t : ObjectType) : Prop :=
  Token.isName t.name = true ∧ ∀ f ∈ t.fields, f.Grammatical

theorem yields_inputValue (brackets : Nat) :
    Promises (inputValue brackets) InputValue.Grammatical :=
  (Reader.yields_any _).andThen fun _ _ => yields_name.andThen fun _ hname =>
    (Reader.yields_any _).andThen fun _ _ => (yields_typeRef brackets).andThen fun _ htype =>
      (Reader.yields_any _).andThen fun _ _ => (Reader.yields_any _).map fun _ _ =>
        ⟨hname, htype⟩

theorem yields_field (brackets : Nat) : Promises (field brackets) Field.Grammatical :=
  (Reader.yields_any _).andThen fun _ _ => yields_name.andThen fun _ hname =>
    (yields_optionalBracketed (yields_inputValue _) '(' ')' nextIsNamed).andThen
      fun _ harguments => (Reader.yields_any _).andThen fun _ _ =>
        (Reader.yields_any _).andThen fun _ _ => (Reader.yields_any _).map fun _ _ =>
          ⟨hname, harguments⟩

theorem yields_objectType (description : Option String) :
    Promises (objectType description) ObjectType.Grammatical :=
  (Reader.yields_any _).andThen fun _ _ => yields_name.andThen fun _ hname =>
    (Reader.yields_any _).andThen fun _ _ => (Reader.yields_any _).andThen fun _ _ =>
      (yields_optionalBracketed (yields_field _) '\x7b' '\x7d' nextIsNamed).map fun _ hfields =>
        ⟨hname, hfields⟩

/-- A definition of any kind: an object type, if it is one, is as the grammar has it. -/
theorem yields_typeDefinition (description : Option String) :
    Promises (typeDefinition description) fun d => ∀ t, d = .object t → t.Grammatical := by
  have hother : ∀ {α : Type} {p : TokenReader true α} {f : α → TypeDefinition},
      (∀ a t, f a ≠ .object t) → Promises (p.map f) fun d => ∀ t, d = .object t → t.Grammatical :=
    fun hf => (Reader.yields_any _).map fun a _ t h => absurd h (hf a t)
  refine Reader.yields_look fun tokens => ?_
  split
  · exact hother nofun
  split
  · refine (yields_objectType description).map fun u hu t h => ?_
    obtain rfl := TypeDefinition.object.inj h
    exact hu
  split
  · exact hother nofun
  split
  · exact hother nofun
  split
  · exact hother nofun
  split
  · exact hother nofun
  · exact Reader.yields_refuse _

theorem yields_definition :
    Promises definition fun d => ∀ t ∈ d.object?, t.Grammatical := by
  have hother : ∀ d : Definition, d.object? = none → ∀ t ∈ d.object?, t.Grammatical :=
    fun d h t ht => by simp [h] at ht
  refine Reader.yields_look fun tokens => ?_
  split
  · exact (Reader.yields_any _).map fun r _ => hother _ rfl
  split
  · refine (Reader.yields_any _).andThen fun _ _ =>
      ((Reader.yields_any _).check fun u d _ hd => ?_).relax
    split at hd
    · obtain rfl := Option.some.inj hd
      exact hother _ rfl
    · cases hd
  refine (Reader.yields_any _).andThen fun description _ => Reader.yields_look fun tokens => ?_
  split
  · exact (Reader.yields_any _).map fun d _ => hother _ rfl
  · refine (yields_typeDefinition description).map fun u hu t ht => ?_
    cases u with
    | object t' => exact hu t (congrArg _ (Option.some.inj ht))
    | scalar _ | interface _ | union _ | enum _ | input _ => cases ht

/-- Every object type of a document that was read is as the grammar has it. -/
theorem Document.grammatical_of_parse {text : String} {d : Document}
    (h : Document.parse text = .ok d) : ∀ t ∈ d.objects, t.Grammatical := by
  intro t ht
  obtain ⟨x, hx, hobject⟩ := List.mem_filterMap.1 ht
  exact whole_ok yields_definition h x hx t hobject

theorem Document.isName_of_parse {text : String} {d : Document} (h : Document.parse text = .ok d) :
    ∀ t ∈ d.objects, Token.isName t.name = true := fun t ht => (d.grammatical_of_parse h t ht).1

end Schema

end GraphqlCypher
