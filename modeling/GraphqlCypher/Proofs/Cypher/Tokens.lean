import GraphqlCypher.Text.Characters

/-! The tokens of a text of Cypher.

What stands between quotes is content, and a line feed there is a part of it. Anywhere else two
strokes begin a comment, which goes on to the end of the line, and white space only keeps words
apart. A word may be cut further, but the word alone says how, so words stand here for the tokens
in them.

`Place` says where the reading of a text is, and `Place.read` what is read from there on. A string
that has begun stays the first thing read, whatever follows (`Place.exists_read_of_within`), and a
comment without a line feed comes to nothing (`Place.read_comment`). -/
namespace GraphqlCypher.Cypher

open Text

/-- What a string stands between. -/
inductive Quote where
  | single
  | double
deriving DecidableEq, Repr

def Quote.char : Quote → Char
  | .single => '\''
  | .double => '"'

def quote? (c : Char) : Option Quote :=
  if c = '\'' then some .single else if c = '"' then some .double else none

inductive Token where
  | word (chars : List Char)
  /-- A string as it is written. The last string of a text may lack its closing quote. -/
  | string (quote : Quote) (content : List Char) (closed : Bool)
deriving DecidableEq, Repr

/-- A word, unless nothing of it was read. -/
def Token.words (chars : List Char) : List Token := if chars = [] then [] else [.word chars]

/-- Where the reading of a text is. -/
inductive Place where
  /-- Behind what was read of a word. -/
  | code (word : List Char)
  /-- Behind a stroke, which belongs to the word or begins a comment. -/
  | stroke (word : List Char)
  | comment
  | string (quote : Quote) (content : List Char)
  /-- In a string, behind a backslash. -/
  | escaped (quote : Quote) (content : List Char)
deriving DecidableEq, Repr

namespace Place

/-- Where the reading is after a character of the code. -/
def afterCode (word : List Char) (c : Char) : Place :=
  match quote? c with
  | some quote => string quote []
  | none =>
    if c = '/' then stroke word
    else if isBlank c then code []
    else code (word ++ [c])

/-- What a character of the code ends. -/
def endedByCode (word : List Char) (c : Char) : List Token :=
  if (quote? c).isSome || isBlank c then Token.words word else []

def next : Place → Char → Place
  | code word, c => afterCode word c
  | stroke word, c => if c = '/' then comment else afterCode (word ++ ['/']) c
  | comment, c => if c = '\n' then code [] else comment
  | string quote content, c =>
    if c = quote.char then code []
    else if c = '\\' then escaped quote (content ++ [c])
    else string quote (content ++ [c])
  | escaped quote content, c => string quote (content ++ [c])

/-- What a character ends. -/
def ended : Place → Char → List Token
  | code word, c => endedByCode word c
  | stroke word, c => if c = '/' then Token.words word else endedByCode (word ++ ['/']) c
  | string quote content, c => if c = quote.char then [.string quote content true] else []
  | comment, _ | escaped _ _, _ => []

/-- What the end of the text ends. -/
def atEnd : Place → List Token
  | code word => Token.words word
  | stroke word => Token.words (word ++ ['/'])
  | comment => []
  | string quote content | escaped quote content => [.string quote content false]

/-- Where the reading is after a text. -/
def after (p : Place) (cs : List Char) : Place := cs.foldl next p

/-- The tokens that are read from a place on, the one that was begun among them. -/
def read (p : Place) : List Char → List Token
  | [] => p.atEnd
  | c :: rest => p.ended c ++ (p.next c).read rest

end Place

/-- The tokens of a text. -/
def tokens (text : List Char) : List Token := (Place.code []).read text

namespace Place

/-- The rest of a text is read last. -/
theorem read_after_suffix (p : Place) (a b : List Char) :
    (p.after a).read b <:+ p.read (a ++ b) := by
  induction a generalizing p with
  | nil => exact List.suffix_refl _
  | cons c rest ih => exact (ih (p.next c)).trans (List.suffix_append _ _)

/-! ### Comments -/

theorem read_comment {text : List Char} (h : '\n' ∉ text) : comment.read text = [] := by
  induction text with
  | nil => rfl
  | cons c rest ih =>
    rw [List.mem_cons, not_or] at h
    obtain ⟨hc, hrest⟩ := h
    rw [read, next, if_neg (Ne.symm hc), ih hrest]
    rfl

/-! ### Strings -/

/-- The reading is within a string of which this much was read. -/
inductive Within (quote : Quote) (content : List Char) : Place → Prop where
  | string : Within quote content (string quote content)
  | escaped : Within quote content (escaped quote content)

/-- Nothing but its quote ends a string. -/
theorem Within.next {quote : Quote} {content : List Char} {p : Place} (h : Within quote content p)
    (c : Char) : p.ended c = [.string quote content true] ∨
      p.ended c = [] ∧ Within quote (content ++ [c]) (p.next c) := by
  cases h with
  | escaped => exact .inr ⟨rfl, .string⟩
  | string =>
    by_cases hquote : c = quote.char
    · exact .inl (if_pos hquote)
    · refine .inr ⟨if_neg hquote, ?_⟩
      rw [Place.next, if_neg hquote]
      split
      · exact .escaped
      · exact .string

/-- Within a string the first thing read is the string, with what was read of it in front. -/
theorem exists_read_of_within {quote : Quote} {content : List Char} {p : Place}
    (h : Within quote content p) (text : List Char) :
    ∃ more closed rest, p.read text = .string quote (content ++ more) closed :: rest := by
  induction text generalizing content p with
  | nil =>
    refine ⟨[], false, [], ?_⟩
    rw [List.append_nil]
    cases h <;> rfl
  | cons c later ih =>
    rcases h.next c with hclosed | ⟨hnone, hwithin⟩
    · refine ⟨[], true, (p.next c).read later, ?_⟩
      rw [read, hclosed, List.append_nil]
      rfl
    · obtain ⟨more, closed, rest, hread⟩ := ih hwithin
      refine ⟨c :: more, closed, rest, ?_⟩
      rw [read, hnone, List.nil_append, hread, List.append_assoc]
      rfl

/-- What a string goes on with makes a difference. -/
theorem read_ne_of_within {quote : Quote} {content : List Char} {c c' : Char} {p p' : Place}
    (hc : c ≠ c') (h : Within quote (content ++ [c]) p) (h' : Within quote (content ++ [c']) p')
    (text text' : List Char) : p.read text ≠ p'.read text' := by
  obtain ⟨more, closed, rest, hread⟩ := exists_read_of_within h text
  obtain ⟨more', closed', rest', hread'⟩ := exists_read_of_within h' text'
  intro e
  rw [hread, hread'] at e
  have contents := (Token.string.inj (List.cons.inj e).1).2.1
  rw [List.append_assoc, List.append_assoc] at contents
  exact hc (List.cons.inj (List.append_cancel_left contents)).1

end Place

end GraphqlCypher.Cypher
