import GraphqlCypher.Language.Executable
import GraphqlCypher.Proofs.Language.Names

/-! What a text is cut into.

`kinds text` are the tokens of a text without their places. A piece of text has tokens of
its own if what follows it cannot go on with its last name: so the equations below name the
character that comes next, and a longer text is cut by taking its pieces from the left. -/
namespace GraphqlCypher

namespace Token

/-- The tokens of a text, without their places. -/
def kinds (text : List Char) : List Token := (scanFrom .start text).map Located.token

/-- Where a text stands does not matter for its tokens. -/
theorem map_token_scanFrom (p q : Position) (text : List Char) :
    (scanFrom p text).map Located.token = (scanFrom q text).map Located.token := by
  fun_induction scanFrom p text generalizing q with
  | case1 p => simp [scanFrom]
  | case2 p c rest hc ih =>
    rw [scanFrom, if_pos hc]
    exact ih _
  | case3 p rest h₁ ih =>
    rw [scanFrom, if_neg h₁, if_pos rfl]
    exact ih _
  | case4 p rest h₁ h₂ ih =>
    rw [scanFrom, if_neg h₁, if_neg h₂, if_pos rfl]
    exact ih _
  | case5 p c rest h₁ h₂ h₃ h₄ ih =>
    rw [scanFrom, if_neg h₁, if_neg h₂, if_neg h₃, if_pos h₄]
    exact ih _
  | case6 p rest hd h₁ h₂ h₃ h₄ =>
    rw [scanFrom, if_neg h₁, if_neg h₂, if_neg h₃, if_neg h₄, if_pos rfl]
    split
    · rfl
    · next hd' => cases hd.symm.trans hd'
  | case7 p rest x more hd h₁ h₂ h₃ h₄ ih =>
    rw [scanFrom, if_neg h₁, if_neg h₂, if_neg h₃, if_neg h₄, if_pos rfl]
    split
    · next hd' => cases hd.symm.trans hd'
    · next hd' =>
      obtain ⟨-, rfl⟩ := List.cons.inj (hd.symm.trans hd')
      exact ih _
  | case8 p c rest h₁ h₂ h₃ h₄ h₅ e hl =>
    rw [scanFrom, if_neg h₁, if_neg h₂, if_neg h₃, if_neg h₄, if_neg h₅, hl]
    rfl
  | case9 p c rest h₁ h₂ h₃ h₄ h₅ r hl ih =>
    rw [scanFrom, if_neg h₁, if_neg h₂, if_neg h₃, if_neg h₄, if_neg h₅, hl]
    exact congrArg (r.value.1 :: ·) (ih _)

theorem kinds_blank (rest : List Char) : kinds (' ' :: rest) = kinds rest := by
  rw [kinds, scanFrom, if_pos (.inl rfl)]
  exact map_token_scanFrom _ _ rest

theorem kinds_comma (rest : List Char) : kinds (',' :: rest) = kinds rest := by
  rw [kinds, scanFrom, if_pos (.inr rfl)]
  exact map_token_scanFrom _ _ rest

/-- The characters at which the scan goes on, or looks for a string or for dots. -/
def specials : List Char := [' ', ',', '\t', '\n', '\r', '\ufeff', '#', '"', '.']

/-- Any other character begins a name, a number or a mark. -/
theorem lexeme_cons {c : Char} (hc : c ∉ specials) (rest : List Char) :
    lexeme (c :: rest) = (if isNameStart c then nameLexeme
      else if c = '-' || c.isDigit then numberLexeme
      else Reader.take (fun c => if isMark c then some (.mark c, [c]) else none) fun _ => ())
        (c :: rest) := by
  have hquote : c ≠ '"' := fun h => hc (by rw [h]; decide)
  have hdot : c ≠ '.' := fun h => hc (by rw [h]; decide)
  unfold lexeme Reader.look
  simp [hquote]

theorem kinds_cons {c : Char} {rest : List Char} (hc : c ∉ specials)
    {r : Reading Char true (c :: rest) Lexeme} (h : lexeme (c :: rest) = .ok r) :
    kinds (c :: rest) = r.value.1 :: kinds r.rest := by
  simp only [specials, List.mem_cons, List.not_mem_nil, or_false, not_or] at hc
  obtain ⟨hblank, hcomma, htab, hline, hreturn, hmark, hcomment, -, -⟩ := hc
  rw [kinds, scanFrom, if_neg (not_or.2 ⟨hblank, hcomma⟩), if_neg htab, if_neg hline,
    if_neg (not_or.2 ⟨hreturn, hmark⟩), if_neg hcomment, h]
  exact congrArg (r.value.1 :: ·) (map_token_scanFrom _ _ r.rest)

theorem kinds_mark {c : Char} (hc : isMark c = true) (rest : List Char) :
    kinds (c :: rest) = .mark c :: kinds rest := by
  -- the marks are gone through, and not all characters that there are
  have each : "()[]\x7b\x7d!$:=@|&".toList.all fun c => !specials.contains c &&
      !isNameStart c && !(c = '-' || c.isDigit) := by decide
  have apart := List.all_eq_true.1 each c (by simpa [isMark] using hc)
  simp only [Bool.and_eq_true, Bool.not_eq_true', List.contains_eq_mem, decide_eq_false_iff_not]
    at apart
  obtain ⟨⟨hplain, hname⟩, hnumber⟩ := apart
  have single : lexeme (c :: rest) =
      .ok ⟨(.mark c, [c]), rest, List.suffix_cons c rest, by simp⟩ := by
    rw [lexeme_cons hplain, if_neg (by simp [hname]), if_neg (by simp [hnumber])]
    simp only [Reader.take, if_pos hc]
  exact kinds_cons hplain single

theorem kinds_name {s : String} (h : isName s = true) {c : Char} (hc : isNameChar c = false)
    (rest : List Char) : kinds (s.toList ++ c :: rest) = .name s :: kinds (c :: rest) := by
  have each : specials.all fun c => !isNameStart c := by decide
  have chars := isNameChar_of_mem h
  unfold isName at h
  split at h
  · cases h
  · next first later hs =>
    obtain ⟨hfirst, -⟩ := Bool.and_eq_true_iff.1 h
    rw [hs] at chars ⊢
    have hplain : first ∉ specials := fun hmem => by
      simpa [hfirst] using List.all_eq_true.1 each first hmem
    have hlater : ∀ c ∈ later, isNameChar c = true := fun c hc => chars c (.tail first hc)
    have hstop : ¬ isNameChar c = true := by simp [hc]
    have taken : (later ++ c :: rest).takeWhile isNameChar = later := by
      rw [List.takeWhile_append_of_pos hlater, List.takeWhile_cons_of_neg hstop, List.append_nil]
    have left : (later ++ c :: rest).dropWhile isNameChar = c :: rest := by
      rw [List.dropWhile_append_of_pos hlater, List.dropWhile_cons_of_neg hstop]
    have hread : ∃ r, lexeme (first :: (later ++ c :: rest)) = .ok r ∧
        r.value.1 = .name (String.ofList (first :: later)) ∧ r.rest = c :: rest := by
      rw [lexeme_cons hplain, if_pos hfirst]
      simp [nameLexeme, Reader.andThen, Reader.take, Reader.map, Reader.takeWhile, hfirst,
        taken, left]
    obtain ⟨r, hr, hvalue, hrest⟩ := hread
    rw [List.cons_append, kinds_cons hplain hr, hvalue, hrest, ← hs, String.ofList_toList]

/-! ### Lists -/

/-- A text is cut into these tokens in front of what cannot go on with a name. -/
def Cuts (text : String) (tokens : List Token) : Prop :=
  ∀ c rest, isNameChar c = false →
    kinds (text.toList ++ c :: rest) = tokens ++ kinds (c :: rest)

/-- A list with commas between its items, up to what closes it. -/
theorem kinds_intercalate {ι : Type} {x : ι} {items : List ι} {text : ι → String}
    {tokens : ι → List Token} (h : ∀ y ∈ x :: items, Cuts (text y) (tokens y))
    (rest : List Char) :
    kinds ((", ".intercalate ((x :: items).map text)).toList ++ ')' :: rest) =
      (x :: items).flatMap tokens ++ .mark ')' :: kinds rest := by
  induction items generalizing x with
  | nil =>
    rw [List.map_singleton, String.intercalate_singleton, h x (.head _) ')' rest rfl,
      kinds_mark rfl, List.flatMap_singleton]
  | cons y later ih =>
    have here := h x (.head _) ','
    have there := ih fun z hz => h z (.tail x hz)
    rw [List.map_cons, List.map_cons, String.intercalate_cons_cons, ← List.map_cons]
    simp only [String.toList_append, List.append_assoc]
    rw [show ", ".toList = [',', ' '] from rfl, List.cons_append, List.cons_append,
      List.nil_append, here _ rfl, kinds_comma, kinds_blank, there, @List.flatMap_cons _ _ x,
      List.append_assoc]

end Token

/-! ### Types -/

namespace TypeRef

/-- What the text of a type is cut into. -/
def tokens : TypeRef → List Token
  | .named n => [.name n]
  | .list item => .mark '[' :: item.tokens ++ [.mark ']']
  | .nonNull inner => inner.tokens ++ [.mark '!']

theorem kinds_text {t : TypeRef} (h : Token.isName t.name = true) {c : Char}
    (hc : Token.isNameChar c = false) (rest : List Char) :
    Token.kinds (t.text.toList ++ c :: rest) = t.tokens ++ Token.kinds (c :: rest) := by
  induction t generalizing c rest with
  | named n => exact Token.kinds_name h hc rest
  | list item ih =>
    rw [toList_text_list, List.append_assoc, List.cons_append, List.singleton_append,
      Token.kinds_mark rfl, ih h rfl, Token.kinds_mark rfl]
    simp [tokens]
  | nonNull inner ih =>
    rw [toList_text_nonNull, List.append_assoc, List.singleton_append, ih h rfl,
      Token.kinds_mark rfl]
    simp [tokens]

end TypeRef

end GraphqlCypher
