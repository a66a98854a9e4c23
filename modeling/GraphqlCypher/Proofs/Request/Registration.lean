import GraphqlCypher.Proofs.Cypher.Tokens
import GraphqlCypher.Proofs.Language.Strings
import GraphqlCypher.Proofs.Traversal
import GraphqlCypher.Request.Registration

/-! What becomes of native statements that are put on one line.

Every line feed of a statement becomes a blank, wherever it stands. Between words that makes no
difference. In a string it is another string, and behind two strokes the comment does not end
where its line did, so whatever follows is a part of it.

**Main result.** `Document.restates_oneLineText`: nothing of a schema is changed but the statements
of its first mutation root. Each is written on one line and can be read back, and it has the tokens
that it had just when every line of it can be joined to the one before (`Cypher.Joins`). A note at
the end of a line is enough to lose the rest of a statement (`Document.not_keepsTokens_noted`). -/
namespace GraphqlCypher

open Schema

/-! ### Joining lines -/

namespace Cypher

namespace Place

/-- A blank does behind this place what a line feed does: always in the code, and never in a
string. In a comment it does so if nothing is left to be read. -/
def Joins : Place → List Char → Prop
  | code _, _ | stroke _, _ => True
  | comment, rest => tokens rest = []
  | string _ _, _ | escaped _ _, _ => False

/-- So it does at every line feed of a text. -/
def JoinsAll (p : Place) (text : List Char) : Prop :=
  ∀ before rest, text = before ++ '\n' :: rest → (p.after before).Joins rest

theorem joinsAll_cons {c : Char} (hc : c ≠ '\n') (p : Place) (text : List Char) :
    p.JoinsAll (c :: text) ↔ (p.next c).JoinsAll text := by
  constructor
  · exact fun h before rest e => h (c :: before) rest (congrArg (c :: ·) e)
  · intro h before rest e
    cases before with
    | nil => exact absurd (List.cons.inj e).1 hc
    | cons c' before =>
      obtain ⟨rfl, htext⟩ := List.cons.inj e
      exact h before rest htext

theorem joinsAll_feed (p : Place) (text : List Char) :
    p.JoinsAll ('\n' :: text) ↔ p.Joins text ∧ (p.next '\n').JoinsAll text := by
  constructor
  · intro h
    exact ⟨h [] text rfl, fun before rest e => h ('\n' :: before) rest (congrArg ('\n' :: ·) e)⟩
  · intro h before rest e
    obtain ⟨hjoins, hlater⟩ := h
    cases before with
    | nil =>
      obtain ⟨-, rfl⟩ := List.cons.inj e
      exact hjoins
    | cons c' before =>
      obtain ⟨rfl, htext⟩ := List.cons.inj e
      exact hlater before rest htext

/-- Where nothing is read, there is no line that could not be joined. -/
theorem joinsAll_of_read_eq_nil {p : Place} {text : List Char} (h : p.read text = []) :
    p.JoinsAll text := by
  rintro before rest rfl
  have later : (p.after before).read ('\n' :: rest) = [] :=
    List.suffix_nil.1 (h ▸ read_after_suffix p before ('\n' :: rest))
  have within : ∀ {quote content}, ¬ Within quote content (p.after before) := fun h => by
    obtain ⟨more, closed, rest, hread⟩ := exists_read_of_within h ('\n' :: rest)
    cases later.symm.trans hread
  generalize p.after before = q at later within
  cases q with
  | code | stroke => trivial
  | comment => exact later
  | string => exact within .string
  | escaped => exact within .escaped

/-- **When lines can be joined**, from a place on: the reading does not see the difference. -/
theorem read_oneLine_iff (p : Place) (text : List Char) :
    p.read (oneLine text) = p.read text ↔ p.JoinsAll text := by
  induction text generalizing p with
  | nil =>
    refine iff_of_true rfl fun before rest e => ?_
    cases before <;> cases e
  | cons c later ih =>
    by_cases hc : c = '\n'
    · subst hc
      rw [joinsAll_feed]
      change p.ended ' ' ++ (p.next ' ').read (oneLine later) =
        p.ended '\n' ++ (p.next '\n').read later ↔ _
      cases p with
      | code | stroke =>
        -- both are blanks
        rw [Joins, true_and, ← ih]
        exact List.append_right_inj _
      | comment =>
        have swallowed : comment.read (oneLine later) = [] := read_comment (not_mem_oneLine later)
        change comment.read (oneLine later) = tokens later ↔ tokens later = [] ∧ _
        rw [swallowed, eq_comm]
        exact (and_iff_left_of_imp joinsAll_of_read_eq_nil).symm
      | string quote content =>
        refine iff_of_false ?_ fun h => h.1
        cases quote <;> exact read_ne_of_within (by decide) .string .string _ _
      | escaped quote content =>
        refine iff_of_false ?_ fun h => h.1
        exact read_ne_of_within (by decide) .string .string _ _
    · rw [joinsAll_cons hc, ← ih]
      have kept : oneLine (c :: later) = c :: oneLine later := by
        rw [oneLine, List.map_cons, if_neg hc]
        rfl
      rw [kept]
      exact List.append_right_inj _

end Place

/-- Every line of a statement can be joined to the one before. -/
def Joins (statement : List Char) : Prop := (Place.code []).JoinsAll statement

theorem tokens_oneLine_iff (statement : List Char) :
    tokens (oneLine statement) = tokens statement ↔ Joins statement :=
  Place.read_oneLine_iff _ statement

example : ¬ Joins "RETURN 'a\nb'".toList := by
  rw [← tokens_oneLine_iff]
  decide

end Cypher

/-! ### What is changed of a schema -/

namespace Schema

section

variable (R : String → String → Prop)

/-- Of an argument nothing but a statement is changed. -/
inductive RestatesArgument : String × Value → String × Value → Prop where
  | statement {s t : String} (restated : R s t) :
    RestatesArgument (Names.statement, .string s) (Names.statement, .string t)
  | other {a : String × Value} (h : ∀ s, a ≠ (Names.statement, .string s)) : RestatesArgument a a

/-- Of a directive nothing is changed but the statements of a native one. -/
inductive RestatesDirective : Directive → Directive → Prop where
  | native {d : Directive} {arguments : List (String × Value)} (h : d.name = Names.cypher)
    (restated : List.Forall₂ (RestatesArgument R) d.arguments arguments) :
    RestatesDirective d { d with arguments }
  | other {d : Directive} (h : d.name ≠ Names.cypher) : RestatesDirective d d

/-- Of a field nothing is changed but its directives. -/
inductive RestatesField (f : Field) : Field → Prop where
  | directives {directives : List Directive}
    (restated : List.Forall₂ (RestatesDirective R) f.directives directives) :
    RestatesField f { f with directives }

/-- The statements of a schema's first mutation root become others, and all else stays as it
is. -/
inductive Document.Restates : Document → Document → Prop where
  | nil : Restates [] []
  | root {t : ObjectType} {fields : List Field} {rest : Document} (h : t.name = Names.mutation)
    (restated : List.Forall₂ (RestatesField R) t.fields fields) :
    Restates (.type (.object t) :: rest) (.type (.object { t with fields }) :: rest)
  | other {x : Definition} {rest rest' : Document}
    (h : ∀ t, x = .type (.object t) → t.name ≠ Names.mutation) (later : Restates rest rest') :
    Restates (x :: rest) (x :: rest')

end

variable {R : String → String → Prop}

section

variable (h : ∀ s, R s (String.ofList (oneLine s.toList)))
include h

theorem restates_oneLineArgument (a : String × Value) :
    RestatesArgument R a (oneLineArgument a) := by
  unfold oneLineArgument
  split
  · next name s =>
    split
    · next hname =>
      subst hname
      exact .statement (h s)
    · next hname => exact .other fun t e => hname (Prod.mk.inj e).1
  · next hother => exact .other fun t e => hother _ t e

theorem restates_oneLineDirective (d : Directive) :
    RestatesDirective R d (oneLineDirective d) := by
  unfold oneLineDirective
  split
  · next hname =>
    refine .native hname (List.forall₂_map_right_iff.2 (List.forall₂_same.2 fun a _ => ?_))
    exact restates_oneLineArgument h a
  · next hname => exact .other hname

theorem restates_oneLineField (f : Field) : RestatesField R f (oneLineField f) := by
  refine .directives (List.forall₂_map_right_iff.2 (List.forall₂_same.2 fun d _ => ?_))
  exact restates_oneLineDirective h d

theorem Document.restates_oneLineStatements (d : Document) : d.Restates R d.oneLineStatements := by
  fun_induction oneLineStatements d with
  | case1 => exact .nil
  | case2 t rest hname =>
    refine .root hname (List.forall₂_map_right_iff.2 (List.forall₂_same.2 fun f _ => ?_))
    exact restates_oneLineField h f
  | case3 t rest hname ih =>
    refine .other (fun t' e => ?_) ih
    cases e
    exact hname
  | case4 x rest hx ih => exact .other (fun t e => absurd e (hx t)) ih

end

/-! ### The statements of a schema -/

/-- The statement that an argument is, if it is one. -/
def statementOf : String × Value → List String
  | (name, .string s) => if name = Names.statement then [s] else []
  | _ => []

def statementsOf (d : Directive) : List String :=
  if d.name = Names.cypher then d.arguments.flatMap statementOf else []

def Field.statements (f : Field) : List String := f.directives.flatMap statementsOf

/-- The native statements of the first mutation root. -/
def Document.statements : Document → List String
  | [] => []
  | .type (.object t) :: rest =>
    if t.name = Names.mutation then t.fields.flatMap Field.statements else statements rest
  | _ :: rest => statements rest

theorem RestatesArgument.statements {a b : String × Value} (h : RestatesArgument R a b) :
    List.Forall₂ R (statementOf a) (statementOf b) := by
  cases h with
  | statement restated => exact .cons restated .nil
  | other h =>
    have none : statementOf a = [] := by
      unfold statementOf
      split
      · exact if_neg fun hname => h _ (Prod.ext hname rfl)
      · rfl
    rw [none]
    exact .nil

theorem RestatesDirective.statements {d d' : Directive} (h : RestatesDirective R d d') :
    List.Forall₂ R (statementsOf d) (statementsOf d') := by
  unfold statementsOf
  cases h with
  | native h restated =>
    rw [if_pos h, if_pos h]
    exact List.rel_flatMap restated fun _ _ h => h.statements
  | other h =>
    rw [if_neg h]
    exact .nil

theorem RestatesField.statements {f f' : Field} (h : RestatesField R f f') :
    List.Forall₂ R f.statements f'.statements := by
  cases h with
  | directives restated => exact List.rel_flatMap restated fun _ _ h => h.statements

/-- What holds of a schema that is restated holds of its statements, one by one. -/
theorem Document.Restates.statements {d d' : Document} (h : d.Restates R d') :
    List.Forall₂ R d.statements d'.statements := by
  induction h with
  | nil => exact .nil
  | root h restated =>
    rw [Document.statements, Document.statements, if_pos h, if_pos h]
    exact List.rel_flatMap restated fun _ _ h => h.statements
  | @other x rest rest' h later ih =>
    have passed : ∀ rest, Document.statements (x :: rest) = Document.statements rest := by
      intro rest
      rw [Document.statements.eq_def]
      split
      · next e => cases e
      · next t _ e =>
        cases e
        exact if_neg (h t rfl)
      · next e =>
        cases e
        rfl
    rw [passed, passed]
    exact ih

/-! ### One line -/

/-- A statement `s` is put on one line as `t`. -/
structure OnOneLine (s t : String) : Prop where
  flat : '\n' ∉ t.toList
  written (indent : Nat) : '\n' ∉ (Printer.string indent t).toList
  /-- What is written is read back, unless it holds a character that is written by its code. -/
  readBack (plain : Printer.fitsBlock s = true) (indent : Nat) {rest : List Char}
    (hrest : rest.head? ≠ some '"') :
    Token.kinds ((Printer.string indent t).toList ++ rest) = .string t :: Token.kinds rest
  tokens : Cypher.tokens t.toList = Cypher.tokens s.toList ↔ Cypher.Joins s.toList

theorem fitsBlock_oneLine {s : String} (h : Printer.fitsBlock s = true) :
    Printer.fitsBlock (String.ofList (oneLine s.toList)) = true := by
  rw [Printer.fitsBlock, List.all_eq_true] at h ⊢
  intro c hc
  rw [String.toList_ofList, oneLine, List.mem_map] at hc
  obtain ⟨x, hx, rfl⟩ := hc
  split
  · decide
  · exact h x hx

theorem onOneLine (s : String) : OnOneLine s (String.ofList (oneLine s.toList)) := by
  have flat : '\n' ∉ (String.ofList (oneLine s.toList)).toList := by
    rw [String.toList_ofList]
    exact not_mem_oneLine s.toList
  refine ⟨flat, fun indent => ?_, fun plain indent rest hrest => ?_, ?_⟩
  · rw [Printer.string_eq_quoted flat]
    exact Printer.not_mem_quoted _
  · rw [Printer.string_eq_quoted flat]
    exact Token.kinds_quoted (fitsBlock_oneLine plain) hrest
  · rw [String.toList_ofList]
    exact Cypher.tokens_oneLine_iff s.toList

namespace Document

/-- **What is registered of a schema.** It is written as it was read, but for the statements of
its first mutation root. Each is on one line, and it has the tokens that it had just when all its
lines can be joined. -/
theorem restates_oneLineText {text : String} {d : Document} (h : read text = .ok d) :
    oneLineText text = .ok d.oneLineStatements.text ∧ d.Restates OnOneLine d.oneLineStatements := by
  refine ⟨?_, restates_oneLineStatements onOneLine d⟩
  rw [oneLineText, h]
  rfl

/-- A statement of two lines. -/
def linedTypes : String :=
  "type Mutation \x7b tidy: Int @cypher(statement: \"MATCH (n)\\nRETURN 1\") \x7d"

theorem restates_oneLineText_lined : ∃ d, read linedTypes = .ok d ∧
    oneLineText linedTypes = .ok d.oneLineStatements.text ∧
    d.Restates OnOneLine d.oneLineStatements := by
  obtain ⟨d, hd⟩ : ∃ d, read linedTypes = .ok d := ok_of_isOk (by decide +kernel)
  exact ⟨d, hd, restates_oneLineText hd⟩

/-- The statements of the first mutation root are on one line each, with the tokens they had, and
nothing else is changed. -/
def KeepsTokens (d d' : Document) : Prop :=
  d.Restates (fun s t => '\n' ∉ t.toList ∧ Cypher.tokens t.toList = Cypher.tokens s.toList) d'

/-- A statement of two lines, of which the first ends with a comment. -/
def notedTypes : String :=
  "type Mutation \x7b tidy: Int @cypher(statement: \"MATCH (n) // all\\nRETURN 1\") \x7d"

/-- **What stands behind a comment is lost.** -/
theorem not_keepsTokens_noted : ∃ d, read notedTypes = .ok d ∧
    oneLineText notedTypes = .ok d.oneLineStatements.text ∧
    ¬ d.KeepsTokens d.oneLineStatements := by
  have statements : (read notedTypes).toOption.map (fun d =>
      (d.statements, d.oneLineStatements.statements)) =
      some (["MATCH (n) // all\nRETURN 1"], ["MATCH (n) // all RETURN 1"]) := by
    decide +kernel
  cases hread : read notedTypes with
  | error e =>
    rw [hread] at statements
    cases statements
  | ok d =>
    rw [hread] at statements
    obtain ⟨declared, made⟩ := Prod.mk.inj (Option.some.inj statements)
    refine ⟨d, rfl, by rw [oneLineText, hread]; rfl, fun kept => ?_⟩
    have each := Restates.statements kept
    rw [declared, made] at each
    obtain ⟨-, same⟩ := (List.forall₂_cons.1 each).1
    revert same
    decide

end Document

end Schema

end GraphqlCypher
