import GraphqlCypher.Language.Token

/-! Names of the grammar.

A name is a letter or an underscore, followed by letters, digits and underscores.
No type reference can be mistaken for another because of what its name holds. -/
namespace GraphqlCypher

namespace Token

/-- Whether a text is a name of the grammar. -/
def isName (s : String) : Bool :=
  match s.toList with
  | [] => false
  | c :: cs => isNameStart c && cs.all isNameChar

theorem isNameChar_of_isNameStart {c : Char} (h : isNameStart c = true) : isNameChar c = true := by
  simp only [isNameStart, isNameChar, Char.isAlphanum, Bool.or_eq_true] at h ⊢
  rcases h with h | h
  · exact .inl h
  · exact .inr (.inl h)

theorem isNameChar_of_mem {s : String} (h : isName s = true) :
    ∀ c ∈ s.toList, isNameChar c = true := by
  unfold isName at h
  split at h
  · cases h
  · next c cs hs =>
    simp only [Bool.and_eq_true, List.all_eq_true] at h
    rw [hs]
    intro x hx
    rcases List.mem_cons.1 hx with rfl | hx
    · exact isNameChar_of_isNameStart h.1
    · exact h.2 x hx

/-- A text of the characters that names are made of. -/
def Worded (s : String) : Prop := ∀ c ∈ s.toList, isNameChar c = true

-- the characters of the text are gone through, and not all that there are
instance (s : String) : Decidable (Worded s) :=
  List.decidableBAll (fun c => isNameChar c = true) s.toList

theorem worded_of_isName {s : String} (h : isName s = true) : Worded s := isNameChar_of_mem h

theorem Worded.append {s t : String} (hs : Worded s) (ht : Worded t) : Worded (s ++ t) := by
  intro c hc
  rw [String.toList_append] at hc
  exact (List.mem_append.1 hc).elim (hs c) (ht c)

end Token

namespace TypeRef

/-- A type as the grammar has it: its name is a name, and one mark for not null is enough. -/
def Grammatical : TypeRef → Prop
  | .named n => Token.isName n = true
  | .list item => item.Grammatical
  | .nonNull (.nonNull _) => False
  | .nonNull inner => inner.Grammatical

theorem Grammatical.isName {t : TypeRef} (h : t.Grammatical) : Token.isName t.name = true := by
  fun_induction Grammatical t with
  | case1 n => exact h
  | case2 item ih => exact ih h
  | case3 inner => exact h.elim
  | case4 inner _ ih => exact ih h

theorem Grammatical.nullable {t : TypeRef} (h : t.nonNull.Grammatical) : t.Grammatical := by
  cases t with
  | named n => exact h
  | list item => exact h
  | nonNull inner => exact h.elim

/-- The name of a type that is not a list is where its text begins. -/
theorem takeWhile_text {t : TypeRef} (hname : Token.isName t.name = true) {rest : List Char}
    (hrest : ∀ c ∈ rest.head?, Token.isNameChar c = false)
    (hlist : (t.text.toList ++ rest).head? ≠ some '[') :
    (t.text.toList ++ rest).takeWhile Token.isNameChar = t.name.toList := by
  induction t generalizing rest with
  | named n =>
    have hchars : ∀ c ∈ n.toList, Token.isNameChar c = true := Token.isNameChar_of_mem hname
    rw [text, List.takeWhile_append_of_pos hchars]
    cases rest with
    | nil => exact List.append_nil _
    | cons c cs =>
      rw [List.takeWhile_cons_of_neg (by simp [hrest c rfl])]
      exact List.append_nil _
  | list item ih =>
    exfalso
    apply hlist
    simp [text]
  | nonNull inner ih =>
    have hbang : (inner.nonNull.text.toList ++ rest) = inner.text.toList ++ ('!' :: rest) := by
      simp [text]
    rw [hbang] at hlist ⊢
    exact ih hname (by simp; decide) hlist

theorem toList_text_list (item : TypeRef) :
    item.list.text.toList = '[' :: item.text.toList ++ [']'] := by
  simp [text]

theorem toList_text_nonNull (inner : TypeRef) :
    inner.nonNull.text.toList = inner.text.toList ++ ['!'] := by
  simp [text]

/-- Besides the characters of a name, the text of a type has three marks. -/
theorem mem_text {t : TypeRef} (hname : Token.isName t.name = true) :
    ∀ c ∈ t.text.toList, Token.isNameChar c = true ∨ c ∈ ['[', ']', '!'] := by
  induction t with
  | named n => exact fun c hc => .inl (Token.isNameChar_of_mem hname c hc)
  | list item ih =>
    intro c hc
    rw [toList_text_list, List.mem_append, List.mem_cons, List.mem_singleton] at hc
    rcases hc with (rfl | hc) | rfl
    · exact .inr (by decide)
    · exact ih hname c hc
    · exact .inr (by decide)
  | nonNull inner ih =>
    intro c hc
    rw [toList_text_nonNull, List.mem_append, List.mem_singleton] at hc
    rcases hc with hc | rfl
    · exact ih hname c hc
    · exact .inr (by decide)

/-- **Types by their texts.** What the text of a type ends with says how the type is made. -/
theorem text_injective {t u : TypeRef} (ht : Token.isName t.name = true)
    (hu : Token.isName u.name = true) (h : t.text = u.text) : t = u := by
  have ends {n : String} (hn : Token.isName n = true) {before : List Char} {c : Char}
      (e : n.toList = before ++ [c]) : Token.isNameChar c = true :=
    Token.isNameChar_of_mem hn c (by rw [e]; exact List.mem_append_right _ List.mem_cons_self)
  have same := String.toList_inj.2 h
  induction t generalizing u with
  | named n =>
    cases u with
    | named m => exact congrArg named h
    | list item =>
      rw [toList_text_list] at same
      exact absurd (ends ht same) (by decide)
    | nonNull inner =>
      rw [toList_text_nonNull] at same
      exact absurd (ends ht same) (by decide)
  | list item ih =>
    rw [toList_text_list] at same
    cases u with
    | named m => exact absurd (ends hu same.symm) (by decide)
    | list item' =>
      rw [toList_text_list] at same
      have items := List.append_cancel_right (List.cons.inj same).2
      exact congrArg list (ih ht hu (String.toList_inj.1 items) items)
    | nonNull inner =>
      rw [toList_text_nonNull] at same
      exact absurd (List.append_inj_right' same rfl) (by decide)
  | nonNull inner ih =>
    rw [toList_text_nonNull] at same
    cases u with
    | named m => exact absurd (ends hu same.symm) (by decide)
    | list item =>
      rw [toList_text_list] at same
      exact absurd (List.append_inj_right' same rfl) (by decide)
    | nonNull inner' =>
      rw [toList_text_nonNull] at same
      have inners := List.append_cancel_right same
      exact congrArg nonNull (ih ht hu (String.toList_inj.1 inners) inners)

end TypeRef

end GraphqlCypher
