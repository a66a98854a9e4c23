import GraphqlCypher.Augment.Normalize
import GraphqlCypher.Proofs.Language.Names

/-! Declared `id` fields.

An `id` field is accepted by its text, on one line. What that text says of the type
of the field is what its type is. -/
namespace GraphqlCypher.Schema

/-- Directives stand behind a blank. -/
theorem Inline.head?_directives (ds : List Directive) :
    ∀ c ∈ (directives ds).toList.head?, c = ' ' := by
  cases ds with
  | nil => intro c hc; cases hc
  | cons d ds =>
    have hcons : (directives (d :: ds)).toList =
        ' ' :: (d.textWith string ++ directives ds).toList := by
      simp [directives, Directive.suffix, String.join_cons]
    rw [hcons]
    intro c hc
    exact (Option.some.inj hc).symm

/-- A directive shows in the text of what it marks. -/
theorem Inline.infix_directives {ds : List Directive} {name : String}
    (h : hasDirective ds name = true) : ("@" ++ name).toList <:+: (directives ds).toList := by
  induction ds with
  | nil => cases h
  | cons d ds ih =>
    have hcons : (directives (d :: ds)).toList =
        [' '] ++ ("@" ++ d.name).toList ++
          ((Value.argumentsText string d.arguments).toList ++ (directives ds).toList) := by
      simp [directives, Directive.suffix, Directive.textWith, String.join_cons]
    rw [hcons]
    rcases Bool.or_eq_true _ _ ▸ h with h | h
    · rw [← beq_iff_eq.1 h]
      exact List.infix_append ..
    · exact List.infix_append_of_infix_right (List.infix_append_of_infix_right (ih h))

/-- An accepted `id` field has no directive but those of its shapes. -/
theorem Field.hasDirective_of_accepted {remote : Bool} {f : Field} {name : String}
    (haccept : (acceptedIdFields remote).contains (Inline.field f) = true)
    (hname : ∀ s ∈ acceptedIdFields true, ¬ ("@" ++ name).toList <:+: s.toList) :
    hasDirective f.directives name = false := by
  refine Bool.eq_false_iff.2 fun h => hname (Inline.field f) ?_ ?_
  · have hmem := List.contains_iff_mem.1 haccept
    cases remote with
    | true => exact hmem
    | false => exact List.mem_append_left _ (by simpa [acceptedIdFields] using hmem)
  · have htext : ∃ before : String,
        (Inline.field f).toList = before.toList ++ (Inline.directives f.directives).toList :=
      ⟨_, String.toList_append⟩
    obtain ⟨before, htext⟩ := htext
    rw [htext]
    exact List.infix_append_of_infix_right (Inline.infix_directives h)

/-- So it is stored. -/
theorem Field.isStored_of_accepted {remote : Bool} {f : Field} (hid : f.name = Names.id)
    (haccept : (acceptedIdFields remote).contains (Inline.field f) = true) :
    f.isStored = true := by
  have hrelation : f.isRelation = false := hasDirective_of_accepted haccept (by decide +kernel)
  have hcomputed : f.isComputed = false := hasDirective_of_accepted haccept (by decide +kernel)
  have hinternal : f.isInternalId = false := by
    rw [isInternalId, hid]
    decide
  rw [isStored, hrelation, hcomputed, hinternal]
  rfl

/-- The shapes of an `id` field begin alike. -/
theorem accepted_shape {remote : Bool} {s : String}
    (h : (acceptedIdFields remote).contains s = true) :
    ∃ marks, s.toList = "id: ID!".toList ++ marks := by
  cases remote <;> simp only [acceptedIdFields, List.contains_iff_mem] at h <;>
    simp only [Bool.false_eq_true, if_false, if_true, List.append_nil, List.cons_append,
      List.nil_append, List.mem_cons, List.not_mem_nil, or_false] at h
  · rcases h with rfl | rfl
    · exact ⟨" @unique".toList, rfl⟩
    · exact ⟨" @isUnique".toList, rfl⟩
  · rcases h with rfl | rfl | rfl
    · exact ⟨" @unique".toList, rfl⟩
    · exact ⟨" @isUnique".toList, rfl⟩
    · exact ⟨[], rfl⟩

/-- The named type of an accepted `id` field is `ID`. -/
theorem Field.typeName_of_accepted {remote : Bool} {f : Field} (hid : f.name = Names.id)
    (haccept : (acceptedIdFields remote).contains (Inline.field f) = true)
    (hname : Token.isName f.typeName = true) : f.typeName = "ID" := by
  obtain ⟨marks, hmarks⟩ := accepted_shape haccept
  have htext : f.type.text.toList ++ (Inline.directives f.directives).toList =
      'I' :: 'D' :: '!' :: marks := by
    simp only [Inline.field, hid, String.toList_append] at hmarks
    cases ha : f.arguments with
    | nil => simpa [ha, Names.id] using hmarks
    | cons a rest =>
      exfalso
      simp [ha, Names.id] at hmarks
  have hspace : ∀ c ∈ (Inline.directives f.directives).toList.head?,
      Token.isNameChar c = false := by
    intro c hc
    rw [Inline.head?_directives _ c hc]
    decide
  have htake := TypeRef.takeWhile_text hname hspace (by rw [htext]; simp)
  rw [htext] at htake
  exact String.toList_inj.1 (htake.symm.trans (by simp [Token.isNameChar]))

end GraphqlCypher.Schema
