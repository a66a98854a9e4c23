import GraphqlCypher.Language.Printer
import GraphqlCypher.Proofs.Language.Scanning

/-! Strings that are written on one line and read back.

A printer puts a backslash before the characters that would end a literal or its line, and a
reader takes it away again, one character after the other. So the text comes back as it was
(`Token.kinds_quoted`), if there is nothing in it that has to be written by its code: the printer
writes codes in decimal, and the reader takes them for hexadecimal. -/
namespace GraphqlCypher

/-- How a character is written that needs no code: behind a backslash, or as it is. -/
inductive Printer.Escapes (c : Char) : List Char → Prop where
  | letter {x : Char} (line : x ≠ '\n') (code : x ≠ 'u')
    (stands : Token.escapes.lookup x = some c) : Escapes c ['\\', x]
  | plain (quote : c ≠ '"') (backslash : c ≠ '\\') (line : c ≠ '\n') : Escapes c [c]

theorem Printer.escapes_escape {c : Char}
    (h : (c == '\n' || c == '\r' || c == '\t' || isPlain c) = true) : Escapes c (escape c) := by
  unfold escape
  split
  · next hc =>
    subst hc
    exact .letter (by decide) (by decide) rfl
  split
  · next hc =>
    subst hc
    exact .letter (by decide) (by decide) rfl
  split
  · next hc =>
    subst hc
    exact .letter (by decide) (by decide) rfl
  split
  · next hc =>
    subst hc
    exact .letter (by decide) (by decide) rfl
  split
  · next hc =>
    subst hc
    exact .letter (by decide) (by decide) rfl
  next hreturn hline htab hquote hbackslash =>
    have hplain : isPlain c = true := by simpa [hreturn, hline, htab] using h
    rw [if_pos hplain]
    exact .plain hquote hbackslash hline

namespace Printer

theorem not_mem_escape (c : Char) : '\n' ∉ escape c := by
  unfold escape
  split
  · decide
  split
  · decide
  split
  · decide
  split
  · decide
  split
  · decide
  next hline _ _ _ =>
    split
    · exact fun h => hline (List.mem_singleton.1 h).symm
    · intro h
      have digits : ∀ x ∈ Nat.toDigits 10 c.toNat, x.isDigit = true := fun x hx =>
        Nat.isDigit_of_mem_toDigits (b := 10) (by decide) (by decide) hx
      simp only [codeEscape, List.mem_append, List.mem_replicate] at h
      rcases h with (h | h) | h
      · exact absurd h (by decide)
      · exact absurd h.2 (by decide)
      · exact absurd (digits _ h) (by decide)

/-- No line feed stands between the quotes. -/
theorem not_mem_quoted (s : String) : '\n' ∉ (quoted s).toList := by
  rw [quoted, String.toList_ofList]
  simp only [List.cons_append, List.mem_cons, List.mem_append, List.mem_flatMap, List.not_mem_nil,
    or_false, not_or, not_exists, not_and]
  exact ⟨by decide, fun c _ => not_mem_escape c, by decide⟩

/-- A text of one line is written between quotes. -/
theorem string_eq_quoted {s : String} (h : '\n' ∉ s.toList) (indent : Nat) :
    string indent s = quoted s := by
  rw [string, if_neg]
  simp [h]

end Printer

namespace Token

open Printer

theorem closeQuote_escape {c : Char} {written : List Char} (h : Escapes c written)
    (more : List Char) : closeQuote false (written ++ more) =
      (closeQuote false more).map fun (text, rest) => (written ++ text, rest) := by
  cases h with
  | letter hline hcode hstands =>
    have hbackslash : ('\\' : Char) ≠ '\n' := by decide
    simp [closeQuote, hline, Option.map_map, Function.comp_def]
  | plain hquote hbackslash hline =>
    simp [closeQuote, hquote, hbackslash, hline]

theorem unescape_escape {c : Char} {written : List Char} (h : Escapes c written)
    (more : List Char) : unescape (written ++ more) = (unescape more).map (c :: ·) := by
  cases h with
  | letter hline hcode hstands =>
    rw [List.cons_append, List.singleton_append, unescape]
    · rw [hstands]
      rfl
    · exact fun _ _ _ _ _ e => absurd e hcode
  | plain hquote hbackslash hline =>
    rw [List.singleton_append, unescape, if_neg hbackslash]
    · exact fun _ _ _ _ _ e _ => absurd e hbackslash
    · exact fun _ _ e _ => absurd e hbackslash

variable {s : String}

theorem closeQuote_quoted {cs : List Char} (h : ∀ c ∈ cs, Escapes c (escape c))
    (rest : List Char) :
    closeQuote false (cs.flatMap escape ++ '"' :: rest) = some (cs.flatMap escape, rest) := by
  induction cs with
  | nil => rfl
  | cons c later ih =>
    rw [List.flatMap_cons, List.append_assoc, closeQuote_escape (h c (.head _)),
      ih fun x hx => h x (.tail _ hx)]
    rfl

theorem unescape_quoted {cs : List Char} (h : ∀ c ∈ cs, Escapes c (escape c)) :
    unescape (cs.flatMap escape) = some cs := by
  induction cs with
  | nil => rfl
  | cons c later ih =>
    rw [List.flatMap_cons, unescape_escape (h c (.head _)), ih fun x hx => h x (.tail _ hx)]
    rfl

/-- What a piece is split off as, when there is one. -/
theorem exists_split {f : List Char → Option (List Char × List Char)} {input text rest : List Char}
    (ends : ∀ input text rest, f input = some (text, rest) →
      rest <:+ input ∧ rest.length < input.length) (e : List Char → Unit)
    (h : f input = some (text, rest)) :
    ∃ r, Reader.split f ends e input = .ok r ∧ r.value = text ∧ r.rest = rest := by
  unfold Reader.split
  split
  · next hnone => cases hnone.symm.trans h
  · next hsome =>
    cases hsome.symm.trans h
    exact ⟨_, rfl, rfl, rfl⟩

theorem exists_quotedLexeme {raw text rest : List Char}
    (closed : closeQuote false (raw ++ '"' :: rest) = some (raw, rest))
    (read : unescape raw = some text) :
    ∃ r, quotedLexeme ('"' :: (raw ++ '"' :: rest)) = .ok r ∧
      r.value.1 = .string (String.ofList text) ∧ r.rest = rest := by
  obtain ⟨r, hr, hvalue, hrest⟩ := exists_split (closeQuote_suffix false) (fun _ => ()) closed
  simp [quotedLexeme, Reader.andThen, Reader.take, Reader.check, Reader.relax, hr, hvalue, hrest,
    read]

/-- A quote that two more do not follow begins a string that is no block. -/
theorem kinds_quote {input : List Char} (hblock : ¬ ['"', '"'] <+: input)
    {r : Reading Char true ('"' :: input) Lexeme} (h : quotedLexeme ('"' :: input) = .ok r) :
    kinds ('"' :: input) = r.value.1 :: kinds r.rest := by
  have single : lexeme ('"' :: input) = .ok r := by
    rw [← h]
    unfold lexeme Reader.look
    refine congrFun ?_ _
    split
    · next more e => exact absurd ⟨more, (List.cons.inj e).2.symm⟩ hblock
    · rfl
    · next e => cases (List.cons.inj e).1
    · next hquote _ e => exact absurd (List.cons.inj e).1.symm hquote
    · next e => cases e
  rw [kinds, scanFrom, if_neg (by decide), if_neg (by decide), if_neg (by decide),
    if_neg (by decide), if_neg (by decide), single]
  exact congrArg (r.value.1 :: ·) (map_token_scanFrom _ _ r.rest)

/-- What stands between quotes does not make three of them out of the first. -/
theorem not_begins_quotes {cs rest : List Char} (h : ∀ c ∈ cs, Escapes c (escape c))
    (hrest : rest.head? ≠ some '"') : ¬ ['"', '"'] <+: cs.flatMap escape ++ '"' :: rest := by
  intro begins
  obtain ⟨more, e⟩ := begins
  cases cs with
  | nil => exact hrest (by rw [← (List.cons.inj e).2]; rfl)
  | cons c later =>
    rw [List.flatMap_cons] at e
    have first := h c (.head _)
    generalize escape c = w at e first
    cases first with
    | letter => cases (List.cons.inj e).1
    | plain hquote => exact hquote (List.cons.inj e).1.symm

/-- **A text between quotes is one string**, unless another quote follows the last one. -/
theorem kinds_quoted (h : fitsBlock s = true) {rest : List Char}
    (hrest : rest.head? ≠ some '"') :
    kinds ((quoted s).toList ++ rest) = .string s :: kinds rest := by
  have written : ∀ c ∈ s.toList, Escapes c (escape c) := fun c hc =>
    escapes_escape (List.all_eq_true.1 h c hc)
  obtain ⟨r, hr, hvalue, hleft⟩ :=
    exists_quotedLexeme (closeQuote_quoted written rest) (unescape_quoted written)
  have whole : (quoted s).toList ++ rest = '"' :: (s.toList.flatMap escape ++ '"' :: rest) := by
    simp [quoted]
  rw [whole, kinds_quote (not_begins_quotes written hrest) hr, hvalue, hleft, String.ofList_toList]

end Token

end GraphqlCypher
