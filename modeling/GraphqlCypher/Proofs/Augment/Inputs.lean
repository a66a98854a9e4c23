import GraphqlCypher.Proofs.Augment.Closed

/-! The inputs of an augmented document, and what they admit.

If no declared type has the name of a generated one, an augmented document has each
generated type just once, as it was generated (`Prepares.mem_inputs`, `Prepares.eq_of_input`).
`Document.Admits` says which values a document admits for a type. It asks nothing about
scalars and enums, and it does not ask for what is required: what is said of all admitted
values then holds of those as well that a stricter reading would refuse. -/
namespace GraphqlCypher.Schema

/-! ### Input types -/

/-- The input type that a definition declares. -/
def Definition.input? : Definition → Option InputType
  | .type (.input i) => some i
  | _ => none

/-- The input types, in order. -/
def Document.inputs (d : Document) : List InputType := d.filterMap Definition.input?

theorem Document.mem_inputs_iff {d : Document} {i : InputType} :
    i ∈ d.inputs ↔ Definition.type (.input i) ∈ d := by
  rw [inputs, List.mem_filterMap]
  constructor
  · intro h
    obtain ⟨x, hx, hi⟩ := h
    unfold Definition.input? at hi
    split at hi
    · cases hi
      exact hx
    · cases hi
  · exact fun h => ⟨_, h, rfl⟩

/-- The type of what a relation takes: several objects, or one. -/
def Arity.link : Arity → String → TypeRef
  | .many => .listOfNonNull
  | .one => .named

namespace Scope

/-- The type of a kind that is generated for a model. -/
def generated (S : Scope) : TypeKind → ObjectType → TypeDefinition
  | .ordering, m => .enum (S.ordering m)
  | .filter, m => .input (S.filter m)
  | .createInput, m => .input (S.createInput m)
  | .whereUniqueInput, m => .input (whereUniqueInput m)
  | .createNested arity, m => .input
    { name := Names.createNestedInput m.name arity
      fields := [.of "create" (arity.link (Names.createInput m.name)),
        .of "connect" (arity.link (Names.whereUniqueInput m.name))] }
  | .connectNested arity, m => .input
    { name := Names.connectNestedInput m.name arity
      fields := [.of "connect" (arity.link (Names.whereUniqueInput m.name)),
        .of "create" (arity.link (Names.createInput m.name))] }

variable {S : Scope} {m : ObjectType}

theorem generated_name (k : TypeKind) : (S.generated k m).name = k.name m.name := by
  cases k <;> rfl

/-- Nothing but these types is generated. -/
theorem exists_generated {t : TypeDefinition} (ht : t ∈ S.types m) : ∃ k, t = S.generated k m := by
  unfold types at ht
  simp only [List.mem_append] at ht
  rcases ht with ht | ht
  · split at ht
    · cases ht
    · simp only [List.mem_cons, List.not_mem_nil, or_false] at ht
      rcases ht with rfl | rfl
      · exact ⟨.ordering, rfl⟩
      · exact ⟨.filter, rfl⟩
  · split at ht
    · simp only [nestedInputs, List.map_cons, List.map_nil, List.mem_append, List.mem_cons,
        List.not_mem_nil, or_false] at ht
      rcases ht with (rfl | rfl | rfl | rfl) | rfl | rfl
      · exact ⟨.createNested .many, rfl⟩
      · exact ⟨.createNested .one, rfl⟩
      · exact ⟨.connectNested .many, rfl⟩
      · exact ⟨.connectNested .one, rfl⟩
      · exact ⟨.createInput, rfl⟩
      · exact ⟨.whereUniqueInput, rfl⟩
    · cases ht

/-- A model that gets its mutations gets all of them in a local schema. -/
theorem generated_mem_types (hlocal : S.options.remote = false)
    (hgenerates : S.generatesMutations m = true) (k : TypeKind) : S.generated k m ∈ S.types m := by
  rcases k with _ | _ | _ | _ | ⟨_ | _⟩ | ⟨_ | _⟩ <;>
    simp [types, hlocal, hgenerates, generated, nestedInputs, Arity.link]

end Scope

/-! ### Generated inputs -/

namespace Document

/-- No declared type has the name of a type that is generated for a model. -/
def NamesFree (d : Document) : Prop := ∀ m ∈ d.models, ∀ k : TypeKind, k.name m.name ∉ d.typeNames

theorem mem_typeNames_of_mem {d : Document} {t : TypeDefinition} (h : Definition.type t ∈ d) :
    t.name ∈ d.typeNames := List.mem_filterMap.2 ⟨_, h, rfl⟩

namespace Prepares

variable {o : AugmentOptions} {d : Document} {S : Scope} (h : d.Prepares o S)
include h

theorem typeNames_prepared {n : String} (hn : n ∈ S.document.typeNames) :
    n ∈ d.typeNames ∨ TypeIndex.isRoot n = true := by
  have hname : ∀ (_ : Nat) (t : ObjectType), (t.settled o).name = t.name := by
    intro _ t
    obtain ⟨fields, ht⟩ := t.settled_eq o
    rw [ht]
  rw [h.document_eq, typeNames_editObjects hname] at hn
  obtain ⟨x, hx, hn⟩ := List.mem_filterMap.1 hn
  obtain ⟨e, he, hscaffold⟩ := scaffold_eq o d
  rw [he] at hx
  rcases List.mem_append.1 hx with hx | hx
  · obtain ⟨i, hi⟩ := List.mem_iff_getElem?.1 hx
    rcases getElem?_rooted hi with hi | ⟨r, -, rfl⟩
    · exact .inl (List.mem_filterMap.2 ⟨x, List.mem_of_getElem? hi, hn⟩)
    · cases hn
  · rcases hscaffold x hx with rfl | ⟨name, hroot, rfl⟩
    · cases hn
    · cases hn
      exact .inr hroot

/-- A new type of a generated name is the generated one. -/
theorem eq_generated {t : TypeDefinition} {m : ObjectType} (hm : m ∈ S.document.models)
    {k : TypeKind} (ht : t ∈ S.models.flatMap S.types) (hname : t.name = k.name m.name) :
    t = S.generated k m := by
  obtain ⟨m', hm', ht⟩ := List.mem_flatMap.1 ht
  obtain ⟨k', rfl⟩ := Scope.exists_generated ht
  rw [Scope.generated_name] at hname
  obtain ⟨rfl, hsame⟩ := TypeKind.name_injective hname
  rw [h.indexed.models_eq] at hm'
  rw [TypeIndex.eq_of_name_eq h.indexed.index hm' hm hsame]

theorem free_of_namesFree (hfree : d.NamesFree) {m : ObjectType} (hm : m ∈ S.document.models)
    (k : TypeKind) : k.name m.name ∉ d.typeNames := by
  rw [h.models_eq] at hm
  obtain ⟨u, hu, rfl⟩ := List.mem_map.1 hm
  rw [u.normalized_name]
  exact hfree u hu k

/-- Preparing declares no type of a generated name. -/
theorem not_mem_typeNames {model : String} {k : TypeKind} (hfree : k.name model ∉ d.typeNames) :
    k.name model ∉ S.document.typeNames := by
  intro hn
  rcases h.typeNames_prepared hn with hn | hroot
  · exact hfree hn
  · rw [k.isRoot_name] at hroot
    cases hroot

/-- An input type of a generated name is the generated one, if that name was not taken. -/
theorem eq_of_input {i : InputType} (hi : i ∈ (S.document.extend S).inputs) {m : ObjectType}
    (hm : m ∈ S.document.models) {k : TypeKind} (hfree : k.name m.name ∉ d.typeNames)
    (hname : i.name = k.name m.name) : TypeDefinition.input i = S.generated k m := by
  rw [mem_inputs_iff, extend_eq] at hi
  rcases List.mem_append.1 hi with hi | hi
  · -- The document itself declares no such name.
    have hdeclared := mem_typeNames_of_mem hi
    rw [typeNames_editObjects S.extended_name] at hdeclared
    exact absurd (hname ▸ hdeclared) (h.not_mem_typeNames hfree)
  · obtain ⟨t, ht, he⟩ := List.mem_map.1 hi
    cases he
    exact h.eq_generated hm (mem_of_mem_freshBy ht) hname

/-- What is generated for a model is there, if its name was not taken. -/
theorem mem_inputs {m : ObjectType} (hm : m ∈ S.document.models) {k : TypeKind}
    (ht : S.generated k m ∈ S.types m) (hfree : k.name m.name ∉ d.typeNames) {i : InputType}
    (hi : S.generated k m = .input i) : i ∈ (S.document.extend S).inputs := by
  have hmem : S.generated k m ∈ S.models.flatMap S.types := by
    rw [h.indexed.models_eq]
    exact List.mem_flatMap.2 ⟨m, hm, ht⟩
  have hfresh := (Scope.mem_keys_freshBy TypeDefinition.name S.document.typeNames hmem).resolve_left
    (by rw [Scope.generated_name]; exact h.not_mem_typeNames hfree)
  obtain ⟨t, ht, hname⟩ := List.mem_map.1 hfresh
  rw [Scope.generated_name] at hname
  have ht' := h.eq_generated hm (mem_of_mem_freshBy ht) hname
  rw [mem_inputs_iff, extend_eq, ← hi, ← ht']
  exact List.mem_append_right _ (List.mem_map_of_mem ht)

end Prepares

/-! ### What is admitted -/

/-- A document admits a value for a type: no field of an input type is given that it does
not declare, and what is given is admitted in turn. -/
inductive Admits (d : Document) : TypeRef → Json → Prop where
  | null {t : TypeRef} (nullable : ∀ u, t ≠ .nonNull u) : Admits d t .null
  | nonNull {t : TypeRef} {v : Json} (given : v ≠ .null) (h : Admits d t v) :
      Admits d (.nonNull t) v
  | list {t : TypeRef} {items : List Json} (h : ∀ v ∈ items, Admits d t v) :
      Admits d (.list t) (.array items)
  /-- One value stands for the list of it. -/
  | single {t : TypeRef} {v : Json} (given : v ≠ .null) (one : ∀ items, v ≠ .array items)
      (h : Admits d t v) : Admits d (.list t) v
  | input {i : InputType} {n : String} {o : Json.Object} (declared : i ∈ d.inputs)
      (name : i.name = n) (keys : ∀ e ∈ o, ∃ f ∈ i.fields, f.name = e.1)
      (values : ∀ e ∈ o, ∀ f ∈ i.fields, f.name = e.1 → Admits d f.type e.2) :
      Admits d (.named n) (.object o)
  | other {n : String} {v : Json} (other : ∀ i ∈ d.inputs, i.name ≠ n) : Admits d (.named n) v

namespace Admits

variable {d : Document} {i : InputType} (declared : i ∈ d.inputs)
  (only : ∀ j ∈ d.inputs, j.name = i.name → j = i)
include declared only

/-- Of an input type that is declared once, objects of its fields are admitted. -/
theorem fields {o : Json.Object} (h : d.Admits (.named i.name) (.object o)) :
    ∀ e ∈ o, ∃ f ∈ i.fields, f.name = e.1 ∧ d.Admits f.type e.2 := by
  cases h with
  | input hj name keys values =>
    cases only _ hj name
    intro e he
    obtain ⟨f, hf, hname⟩ := keys e he
    exact ⟨f, hf, hname, values e he f hf hname⟩
  | other other => exact absurd rfl (other i declared)

omit only in
theorem exists_object {v : Json} (h : d.Admits (.named i.name) v) (given : v ≠ .null) :
    ∃ o, v = .object o := by
  cases h with
  | null => exact absurd rfl given
  | input => exact ⟨_, rfl⟩
  | other other => exact absurd rfl (other i declared)

omit only in
/-- Whatever a relation takes is made of admitted objects. -/
theorem elements {arity : Arity} {v : Json} (h : d.Admits (arity.link i.name) v)
    (given : v ≠ .null) :
    ∀ w ∈ v.elements, ∃ o, w = .object o ∧ d.Admits (.named i.name) (.object o) := by
  have nonNull : ∀ {w}, d.Admits (.nonNull (.named i.name)) w →
      ∃ o, w = .object o ∧ d.Admits (.named i.name) (.object o) := by
    intro w h
    cases h with
    | null nullable => exact absurd rfl (nullable _)
    | nonNull given h =>
      obtain ⟨o, rfl⟩ := exists_object declared h given
      exact ⟨o, rfl, h⟩
  have object : (∃ o, v = .object o ∧ d.Admits (.named i.name) (.object o)) →
      ∀ w ∈ v.elements, ∃ o, w = .object o ∧ d.Admits (.named i.name) (.object o) := by
    intro hv w hw
    obtain ⟨o, rfl, ho⟩ := hv
    exact ⟨o, List.mem_singleton.1 hw, ho⟩
  cases arity with
  | one =>
    obtain ⟨o, rfl⟩ := exists_object declared h given
    exact object ⟨o, rfl, h⟩
  | many =>
    cases h with
    | null => exact absurd rfl given
    | list h => exact fun w hw => nonNull (h w hw)
    | single _ _ h => exact object (nonNull h)

end Admits

/-- Whether a value is seen to be admitted within so many levels. -/
def admitsWithin (d : Document) : Nat → TypeRef → Json → Bool
  | 0, _, _ => false
  | levels + 1, .nonNull t, v => !v.isNull && d.admitsWithin levels t v
  | levels + 1, .list t, v =>
    match v with
    | .null => true
    | .array items => items.all (d.admitsWithin levels t)
    | v => d.admitsWithin levels t v
  | levels + 1, .named n, v =>
    match v with
    | .null => true
    | .object o =>
      !d.inputs.any (·.name == n) || d.inputs.any fun i => i.name == n && o.all fun e =>
        i.fields.any (·.name == e.1) &&
          i.fields.all fun f => f.name != e.1 || d.admitsWithin levels f.type e.2
    | _ => !d.inputs.any (·.name == n)

theorem admits_of_admitsWithin {d : Document} {levels : Nat} :
    ∀ {t : TypeRef} {v : Json}, d.admitsWithin levels t v = true → d.Admits t v := by
  have other : ∀ {n : String} {v : Json}, d.inputs.any (·.name == n) = false →
      d.Admits (.named n) v := by
    intro n v h
    refine .other fun i hi hname => ?_
    exact List.any_eq_false.1 h i hi (beq_iff_eq.2 hname)
  induction levels with
  | zero => exact fun h => by cases h
  | succ levels ih =>
    intro t v h
    cases t with
    | nonNull t =>
      simp only [admitsWithin, Bool.and_eq_true, Bool.not_eq_true'] at h
      obtain ⟨hnull, h⟩ := h
      refine .nonNull ?_ (ih h)
      rintro rfl
      cases hnull
    | list t =>
      cases v with
      | null => exact .null (by simp)
      | array items => exact .list fun v hv => ih (List.all_eq_true.1 h v hv)
      | bool _ | number _ | string _ | object _ => exact .single (by simp) (by simp) (ih h)
    | named n =>
      cases v with
      | null => exact .null (by simp)
      | object o =>
        simp only [admitsWithin, Bool.or_eq_true, Bool.not_eq_true'] at h
        rcases h with h | h
        · exact other h
        · obtain ⟨i, hi, h⟩ := List.any_eq_true.1 h
          simp only [Bool.and_eq_true, beq_iff_eq, List.all_eq_true, List.any_eq_true,
            Bool.or_eq_true, bne_iff_ne, ne_eq] at h
          obtain ⟨hname, h⟩ := h
          refine .input hi hname (fun e he => (h e he).1) fun e he f hf hfield => ?_
          exact ih (((h e he).2 f hf).resolve_left (not_not_intro hfield))
      | bool _ | number _ | string _ | array _ =>
        simp only [admitsWithin, Bool.not_eq_true'] at h
        exact other h

end Document

end GraphqlCypher.Schema
