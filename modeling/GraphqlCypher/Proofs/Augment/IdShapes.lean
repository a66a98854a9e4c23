import GraphqlCypher.Proofs.Augment.Additive
import GraphqlCypher.Proofs.Schema.IdField

/-! Which `id` fields are accepted.

A declared `id` field is accepted by its text. No other field has that text: without arguments
it is the text of a type, which has no blank, and that of the directives, which begins with one;
each of the two says what it is the text of.

**Main result.** `withIdInFront_exact`: a model is refused just when its first `id` field is of
another shape, and what becomes of it otherwise. -/
namespace GraphqlCypher.Schema

/-- An `id` field without arguments, of type `ID!`, that is marked as unique and as nothing
else; on the database's side it may be unmarked. -/
structure Field.IsIdField (remote : Bool) (f : Field) : Prop where
  arguments : f.arguments = []
  type : f.type = .nonNull (.named "ID")
  directives : f.directives = [Directive.bare Names.unique] ∨
    f.directives = [Directive.bare Names.isUnique] ∨ remote = true ∧ f.directives = []

/-! ### Directives by their text -/

namespace Inline

theorem toList_directives_cons (d : Directive) (ds : List Directive) :
    (directives (d :: ds)).toList = ' ' :: '@' :: (d.name.toList ++
      ((Value.argumentsText string d.arguments).toList ++ (directives ds).toList)) := by
  simp [directives, Directive.suffix, Directive.textWith, String.join_cons]

/-- Directives without a text are none. -/
theorem eq_nil_of_directives {ds : List Directive} (h : directives ds = "") : ds = [] := by
  cases ds with
  | nil => rfl
  | cons d ds =>
    have text := congrArg String.toList h
    rw [toList_directives_cons] at text
    cases text

/-- Arguments without a text are none. -/
theorem eq_nil_of_argumentsText {arguments : List (String × Value)}
    (h : '(' ∉ (Value.argumentsText string arguments).toList) : arguments = [] := by
  cases arguments with
  | nil => rfl
  | cons a rest =>
    refine absurd ?_ h
    simp [Value.argumentsText]

/-- The text of one bare directive is that of no other directives: what would follow its name
begins with a character that no name has. -/
theorem eq_bare_of_directives {ds : List Directive} {name : String} (hname : Token.Worded name)
    (h : (directives ds).toList = ' ' :: '@' :: name.toList) : ds = [Directive.bare name] := by
  cases ds with
  | nil => cases h
  | cons d ds =>
    rw [toList_directives_cons] at h
    have text := (List.cons.inj (List.cons.inj h).2).2
    have worded : ∀ c ∈ (Value.argumentsText string d.arguments).toList ++ (directives ds).toList,
        Token.isNameChar c = true := fun c hc =>
      hname c (by rw [← text]; exact List.mem_append_right _ hc)
    have arguments : d.arguments = [] := eq_nil_of_argumentsText fun hopen =>
      absurd (worded _ (List.mem_append_left _ hopen)) (by decide)
    have rest : ds = [] := by
      cases ds with
      | nil => rfl
      | cons d' ds =>
        have hblank : ' ' ∈ (directives (d' :: ds)).toList := by
          rw [toList_directives_cons]
          exact List.mem_cons_self
        exact absurd (worded _ (List.mem_append_right _ hblank)) (by decide)
    subst rest
    obtain ⟨dname, darguments⟩ := d
    subst arguments
    have names : dname.toList = name.toList := by simpa [directives, Directive.suffix,
      Value.argumentsText] using text
    rw [String.toList_inj.1 names, Directive.bare]

end Inline

/-! ### Fields by their text -/

/-- A text is cut in one way only before the first character that fails a test. -/
theorem eq_of_cut {p : Char → Bool} {a b a' b' : List Char} (ha : ∀ c ∈ a, p c = true)
    (ha' : ∀ c ∈ a', p c = true) (hb : ∀ c ∈ b.head?, p c = false)
    (hb' : ∀ c ∈ b'.head?, p c = false) (h : a ++ b = a' ++ b') : a = a' ∧ b = b' := by
  have cut : ∀ {a b : List Char}, (∀ c ∈ a, p c = true) → (∀ c ∈ b.head?, p c = false) →
      (a ++ b).takeWhile p = a := by
    intro a b ha hb
    rw [List.takeWhile_append_of_pos ha]
    cases b with
    | nil => exact List.append_nil a
    | cons c b =>
      rw [List.takeWhile_cons_of_neg (by simp [hb c rfl])]
      exact List.append_nil a
  have first : a = a' := by rw [← cut ha hb, h, cut ha' hb']
  exact ⟨first, List.append_cancel_left (first ▸ h)⟩

/-- What follows the type in an accepted `id` field. -/
def acceptedMarks (remote : Bool) : List String :=
  [" @unique", " @isUnique"] ++ if remote then [""] else []

theorem mem_acceptedIdFields {remote : Bool} {s : String} :
    s ∈ acceptedIdFields remote ↔ ∃ marks ∈ acceptedMarks remote, s = "id: ID!" ++ marks := by
  have shapes : acceptedIdFields remote = (acceptedMarks remote).map ("id: ID!" ++ ·) := by
    cases remote <;> rfl
  rw [shapes, List.mem_map]
  exact exists_congr fun marks => and_congr_right fun _ => eq_comm

/-- Marks begin with a blank. -/
theorem head?_acceptedMarks {remote : Bool} {marks : String} (h : marks ∈ acceptedMarks remote) :
    ∀ c ∈ marks.toList.head?, c = ' ' := by
  have all : ∀ marks ∈ acceptedMarks true,
      marks.toList.head? = none ∨ marks.toList.head? = some ' ' := by decide
  have mem : marks ∈ acceptedMarks true := by
    cases remote with
    | true => exact h
    | false => exact List.mem_append_left _ (by simpa [acceptedMarks] using h)
  intro c hc
  rcases all marks mem with first | first
  · rw [first] at hc
    cases hc
  · rw [first] at hc
    exact (Option.some.inj hc).symm

theorem directives_of_acceptedMarks {remote : Bool} {ds : List Directive}
    (h : Inline.directives ds ∈ acceptedMarks remote) :
    ds = [Directive.bare Names.unique] ∨ ds = [Directive.bare Names.isUnique] ∨
      remote = true ∧ ds = [] := by
  have unique : Token.Worded Names.unique := by decide
  have isUnique : Token.Worded Names.isUnique := by decide
  rcases List.mem_append.1 h with h | h
  · rcases List.mem_cons.1 h with h | h
    · exact .inl (Inline.eq_bare_of_directives unique (congrArg String.toList h))
    · exact .inr (.inl (Inline.eq_bare_of_directives isUnique
        (congrArg String.toList (List.mem_singleton.1 h))))
  · split at h
    · next hremote => exact .inr (.inr ⟨hremote, Inline.eq_nil_of_directives (List.mem_singleton.1 h)⟩)
    · cases h

namespace Field

variable {remote : Bool} {f : Field}

/-- The text of an `id` field without arguments, after its name. -/
theorem text_of_accepted (hid : f.name = Names.id) {marks : String}
    (h : Inline.field f = "id: ID!" ++ marks) : f.arguments = [] ∧
      f.type.text.toList ++ (Inline.directives f.directives).toList =
        "ID!".toList ++ marks.toList := by
  have text := congrArg String.toList h
  simp only [Inline.field, hid, String.toList_append] at text
  cases arguments : f.arguments with
  | nil => exact ⟨rfl, by simpa [arguments, Names.id] using text⟩
  | cons a rest =>
    exfalso
    simp [arguments, Names.id] at text

/-- **An `id` field is accepted just if it is of an accepted shape.** -/
theorem accepted_iff (hid : f.name = Names.id) (hname : Token.isName f.typeName = true) :
    (acceptedIdFields remote).contains (Inline.field f) = true ↔ f.IsIdField remote := by
  rw [List.contains_iff_mem, mem_acceptedIdFields]
  constructor
  · intro h
    obtain ⟨marks, hmarks, h⟩ := h
    obtain ⟨arguments, text⟩ := text_of_accepted hid h
    have noBlank : ∀ {t : TypeRef}, Token.isName t.name = true → ∀ c ∈ t.text.toList,
        (c != ' ') = true := by
      intro t ht c hc
      rw [bne_iff_ne]
      rintro rfl
      exact absurd (TypeRef.mem_text ht _ hc) (by decide)
    have blank : ∀ {cs : List Char}, (∀ c ∈ cs.head?, c = ' ') →
        ∀ c ∈ cs.head?, (c != ' ') = false := fun h c hc => by rw [h c hc]; rfl
    obtain ⟨type, directives⟩ := eq_of_cut (p := (· != ' ')) (noBlank hname)
      (noBlank (t := .nonNull (.named "ID")) (by decide)) (blank (Inline.head?_directives _))
      (blank (head?_acceptedMarks hmarks)) text
    refine ⟨arguments, TypeRef.text_injective hname (by decide) (String.toList_inj.1 type), ?_⟩
    exact directives_of_acceptedMarks (String.toList_inj.1 directives ▸ hmarks)
  · rintro ⟨arguments, type, marked⟩
    have text : Inline.field f = "id: ID!" ++ Inline.directives f.directives := by
      rw [Inline.field, hid, arguments, type]
      rfl
    refine ⟨_, ?_, text⟩
    rcases marked with marked | marked | ⟨rfl, marked⟩
    · rw [marked]
      exact List.mem_append_left _ List.mem_cons_self
    · rw [marked]
      exact List.mem_append_left _ (List.mem_cons_of_mem _ List.mem_cons_self)
    · rw [marked]
      exact List.mem_append_right _ List.mem_cons_self

end Field

namespace ObjectType

variable {remote : Bool} {t : ObjectType}

theorem withIdInFront_eq_error {e : SchemaError} : t.withIdInFront remote = .error e ↔
    ∃ f, t.fields.find? (·.name == Names.id) = some f ∧
      ¬ (acceptedIdFields remote).contains (Inline.field f) = true ∧
      e = .invalidIdField t.name (Inline.field f) := by
  unfold withIdInFront
  cases first : t.fields.find? (·.name == Names.id) with
  | none => simp
  | some f =>
    by_cases accepted : (acceptedIdFields remote).contains (Inline.field f) = true
    · simp only [if_pos accepted, reduceCtorEq, false_iff]
      rintro ⟨g, hg, refused, -⟩
      exact refused (Option.some.inj hg ▸ accepted)
    · simp only [if_neg accepted, Except.error.injEq]
      constructor
      · rintro rfl
        exact ⟨f, rfl, accepted, rfl⟩
      · rintro ⟨g, hg, -, rfl⟩
        rw [Option.some.inj hg]

/-- **What becomes of the `id` of a model.** It is refused just if the first `id` field is of
another shape, and the error tells the text of that field. Otherwise it stands in front of the
other fields, and stays there. -/
theorem withIdInFront_exact (named : ∀ f ∈ t.fields, Token.isName f.typeName = true) :
    ((∃ e, t.withIdInFront remote = .error e) ↔
      ∃ f, t.fields.find? (·.name == Names.id) = some f ∧ ¬ f.IsIdField remote) ∧
    (∀ e, t.withIdInFront remote = .error e →
      ∃ f, t.fields.find? (·.name == Names.id) = some f ∧
        e = .invalidIdField t.name (Inline.field f)) ∧
    ∀ t', t.withIdInFront remote = .ok t' →
      (∃ f rest, t' = { t with fields := f :: rest } ∧ f.IsIdField remote ∧
        IdInFront remote t.fields (f :: rest)) ∧ t'.withIdInFront remote = .ok t' := by
  have accepted : ∀ f, t.fields.find? (·.name == Names.id) = some f →
      ((acceptedIdFields remote).contains (Inline.field f) = true ↔ f.IsIdField remote) :=
    fun f hf => Field.accepted_iff (by simpa using List.find?_some hf)
      (named f (List.mem_of_find?_eq_some hf))
  refine ⟨⟨?_, ?_⟩, ?_, ?_⟩
  · rintro ⟨e, h⟩
    obtain ⟨f, hf, refused, -⟩ := withIdInFront_eq_error.1 h
    exact ⟨f, hf, fun shaped => refused ((accepted f hf).2 shaped)⟩
  · rintro ⟨f, hf, misshaped⟩
    exact ⟨_, withIdInFront_eq_error.2 ⟨f, hf, fun h => misshaped ((accepted f hf).1 h), rfl⟩⟩
  · intro e h
    obtain ⟨f, hf, -, he⟩ := withIdInFront_eq_error.1 h
    exact ⟨f, hf, he⟩
  · intro t' h
    obtain ⟨f, rest, rfl, hname, haccept, origin, -⟩ := withIdInFront_ok h
    have typed : Token.isName f.typeName = true := by
      rcases origin with hf | rfl
      · exact named f hf
      · exact (by decide : Token.isName "ID" = true)
    exact ⟨⟨f, rest, rfl, (Field.accepted_iff hname typed).1 haccept,
      idInFront_of_withIdInFront h⟩, withIdInFront_eq_self rfl hname haccept⟩

end ObjectType

/-! ### Badges -/

/-- A badge whose `id` stands behind another field, and has some directives. -/
def badgeWith (marks : List Directive) : ObjectType where
  name := "Badge"
  directives := [Directive.bare Names.model]
  fields := [
    { name := "label", type := .list (.nonNull (.named "String")) },
    { name := "id", type := .nonNull (.named "ID"), directives := marks }]

theorem ObjectType.withIdInFront_exact_badge :
    (∃ t', (badgeWith [Directive.bare Names.isUnique]).withIdInFront false = .ok t' ∧
      t'.fields.map Field.name = ["id", "label"] ∧ t'.withIdInFront false = .ok t') ∧
    (∃ e, (badgeWith []).withIdInFront false = .error e) ∧
    ∃ f, (badgeWith [Directive.bare Names.unique, Directive.bare Names.isUnique]).fields.find?
      (·.name == Names.id) = some f ∧ ¬ f.IsIdField true := by
  have named : ∀ marks, ∀ f ∈ (badgeWith marks).fields, Token.isName f.typeName = true := by
    intro marks f hf
    simp only [badgeWith, List.mem_cons, List.not_mem_nil, or_false] at hf
    rcases hf with rfl | rfl
    · exact (by decide : Token.isName "String" = true)
    · exact (by decide : Token.isName "ID" = true)
  refine ⟨?_, ?_, ?_⟩
  · have accepted : ∃ t', (badgeWith [Directive.bare Names.isUnique]).withIdInFront false = .ok t' ∧
        t'.fields.map Field.name = ["id", "label"] := ⟨_, rfl, rfl⟩
    obtain ⟨t', h, names⟩ := accepted
    exact ⟨t', h, names, ((withIdInFront_exact (named _)).2.2 t' h).2⟩
  · refine (withIdInFront_exact (named [])).1.2 ⟨_, rfl, fun shaped => ?_⟩
    obtain ⟨-, -, marked⟩ := shaped
    simp at marked
  · have refused : ∃ e, (badgeWith [Directive.bare Names.unique,
        Directive.bare Names.isUnique]).withIdInFront true = .error e := ⟨_, rfl⟩
    exact (withIdInFront_exact (named _)).1.1 refused

end GraphqlCypher.Schema
