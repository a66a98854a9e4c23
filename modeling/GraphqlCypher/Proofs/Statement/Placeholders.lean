import GraphqlCypher.Proofs.Statement.Literals

/-! The parameters that a statement refers to.

A statement refers to a parameter by its name between braces. Braces stand around maps as well,
and within literals they are text, so `placeholders` reads a text from its beginning and knows at
each character where it is: in the code, in a literal, or in what may become the name of a
parameter (`Place`).

What a text refers to is put together from its pieces. `Place.Reads` says of a piece where the
reading of it begins and ends and what is found on the way; there is one rule for each kind of
piece and one for two pieces in a row (`Place.Reads.append`). -/
namespace GraphqlCypher

namespace Statement

/-! ### Reading a text -/

/-- Where the reading of a text is. -/
inductive Place where
  | code
  | literal
  /-- In a literal, behind a backslash. -/
  | escaped
  /-- Behind an opening brace and the characters of a name. -/
  | name (chars : List Char)
deriving DecidableEq, Repr

namespace Place

/-- Where the reading is after a character of the code. -/
def opened (c : Char) : Place :=
  if c = '\'' then .literal else if c = '\x7b' then .name [] else .code

def next : Place → Char → Place
  | .code, c => opened c
  | .literal, c => if c = '\'' then .code else if c = '\\' then .escaped else .literal
  | .escaped, _ => .literal
  | .name chars, c => if Token.isNameChar c then .name (chars ++ [c]) else opened c

/-- The parameter whose reference a character ends. -/
def ended? : Place → Char → Option String
  | .name chars, c => if c = '\x7d' ∧ chars ≠ [] then some (String.ofList chars) else none
  | .code, _ | .literal, _ | .escaped, _ => none

/-- Where the reading is after a text. -/
def after (p : Place) (cs : List Char) : Place := cs.foldl next p

/-- The parameters that a text refers to, in order. -/
def found (p : Place) : List Char → List String
  | [] => []
  | c :: rest => (p.ended? c).toList ++ (p.next c).found rest

theorem after_append (p : Place) (a b : List Char) : p.after (a ++ b) = (p.after a).after b :=
  List.foldl_append

theorem found_append (p : Place) (a b : List Char) :
    p.found (a ++ b) = p.found a ++ (p.after a).found b := by
  induction a generalizing p with
  | nil => rfl
  | cons c rest ih =>
    rw [List.cons_append, found, ih, found, List.append_assoc]
    rfl

/-- A text is read from one place to another, and refers to some parameters. -/
structure Reads (p : Place) (text : String) (names : List String) (q : Place) : Prop where
  after : p.after text.toList = q
  found : p.found text.toList = names

variable {p q r : Place} {s t : String} {names names' : List String}

/-- Two texts in a row. -/
theorem Reads.append (h : p.Reads s names q) (h' : q.Reads t names' r) :
    p.Reads (s ++ t) (names ++ names') r := by
  obtain ⟨rfl, rfl⟩ := h
  obtain ⟨rfl, rfl⟩ := h'
  exact ⟨by rw [String.toList_append, after_append],
    by rw [String.toList_append, found_append]⟩

/-- A text whose characters each leave a place as it is. -/
theorem reads_of_forall (h : ∀ c ∈ s.toList, p.next c = p ∧ p.ended? c = none) :
    p.Reads s [] p := by
  generalize hcs : s.toList = cs at h
  have stays : p.after cs = p ∧ p.found cs = [] := by
    clear hcs
    induction cs with
    | nil => exact ⟨rfl, rfl⟩
    | cons c rest ih =>
      obtain ⟨hnext, hended⟩ := h c (.head _)
      obtain ⟨hafter, hfound⟩ := ih fun x hx => h x (.tail _ hx)
      refine ⟨?_, ?_⟩
      · rw [after, List.foldl_cons, hnext]
        exact hafter
      · rw [found, hnext, hended, hfound]
        rfl
  exact ⟨hcs ▸ stays.1, hcs ▸ stays.2⟩

/-- A literal goes on over a plain text. -/
theorem reads_of_isPlain (h : IsPlain s) : literal.Reads s [] .literal :=
  reads_of_forall fun c hc => by
    obtain ⟨hquote, hbackslash⟩ := h c hc
    exact ⟨by rw [next, if_neg hquote, if_neg hbackslash], rfl⟩

/-- Code goes on over the characters of a name. -/
theorem reads_of_worded (h : Token.Worded s) : code.Reads s [] .code :=
  reads_of_forall fun c hc => by
    have hchar := h c hc
    have hquote : c ≠ '\'' := (ne_of_isNameChar hchar).1
    have hbrace : c ≠ '\x7b' := fun e => by
      rw [e] at hchar
      exact absurd hchar (by decide)
    exact ⟨by rw [next, opened, if_neg hquote, if_neg hbrace], rfl⟩

/-- Behind a brace the characters of a name are kept. -/
theorem reads_name (h : Token.Worded s) (chars : List Char) :
    (name chars).Reads s [] (.name (chars ++ s.toList)) := by
  unfold Token.Worded at h
  generalize hcs : s.toList = cs at h ⊢
  have kept : (name chars).after cs = .name (chars ++ cs) ∧ (name chars).found cs = [] := by
    clear hcs
    induction cs generalizing chars with
    | nil => exact ⟨congrArg name (List.append_nil chars).symm, rfl⟩
    | cons c rest ih =>
      have hchar := h c (.head _)
      have hnext : (name chars).next c = .name (chars ++ [c]) := if_pos hchar
      have hended : (name chars).ended? c = none := by
        have hbrace : c ≠ '\x7d' := fun e => by
          rw [e] at hchar
          exact absurd hchar (by decide)
        rw [ended?, if_neg fun e => hbrace e.1]
      obtain ⟨hafter, hfound⟩ := ih (chars ++ [c]) fun x hx => h x (.tail _ hx)
      refine ⟨?_, ?_⟩
      · rw [after, List.foldl_cons, hnext]
        exact hafter.trans (by rw [List.append_assoc, List.singleton_append])
      · rw [found, hnext, hended, hfound]
        rfl
  exact ⟨hcs ▸ kept.1, hcs ▸ kept.2⟩

/-- A name that a brace was opened before and that one is closed behind is a reference. -/
theorem reads_closing (h : Token.isName s = true) : (name s.toList).Reads "\x7d" [s] .code := by
  have nonempty : s.toList ≠ [] := fun e => by
    rw [Token.isName, e] at h
    cases h
  refine ⟨rfl, ?_⟩
  show ((name s.toList).ended? '\x7d').toList ++ [] = [s]
  rw [ended?, if_pos ⟨rfl, nonempty⟩, String.ofList_toList]
  rfl

end Place

/-- The parameters that a text refers to, in order. -/
def placeholders (text : String) : List String := Place.code.found text.toList

theorem placeholders_append {s t : String} {names : List String}
    (h : Place.code.Reads s names .code) : placeholders (s ++ t) = names ++ placeholders t := by
  rw [placeholders, String.toList_append, Place.found_append, h.after, h.found]
  rfl

theorem placeholders_of_reads {s : String} {names : List String} {p : Place}
    (h : Place.code.Reads s names p) : placeholders s = names := h.found

/-! ### Texts that refer to some parameters only -/

/-- A text is read from one place to another, and whatever it refers to is of one kind. -/
def Place.Cites (p : Place) (kind : String → Prop) (text : String) (q : Place) : Prop :=
  ∃ names, p.Reads text names q ∧ ∀ n ∈ names, kind n

namespace Place

variable {kind : String → Prop} {p q r : Place} {s t : String}

theorem Reads.cites (h : p.Reads s [] q) : p.Cites kind s q := ⟨[], h, nofun⟩

/-- A text that refers to nothing that there is refers to nothing. -/
theorem Cites.reads (h : p.Cites (fun _ => False) s q) : p.Reads s [] q := by
  obtain ⟨names, hreads, hnone⟩ := h
  obtain rfl := List.eq_nil_iff_forall_not_mem.2 hnone
  exact hreads

/-- A fixed text is read by computation. -/
theorem cites_of_eq (text : String) (hafter : p.after text.toList = q)
    (hfound : p.found text.toList = []) : p.Cites kind text q := Reads.cites ⟨hafter, hfound⟩

theorem cites_of_worded (h : Token.Worded s) : code.Cites kind s .code := (reads_of_worded h).cites

theorem cites_of_isPlain (h : IsPlain s) : literal.Cites kind s .literal :=
  (reads_of_isPlain h).cites

theorem Cites.append (h : p.Cites kind s q) (h' : q.Cites kind t r) : p.Cites kind (s ++ t) r := by
  obtain ⟨names, hreads, honly⟩ := h
  obtain ⟨names', hreads', honly'⟩ := h'
  refine ⟨names ++ names', hreads.append hreads', fun n hn => ?_⟩
  exact (List.mem_append.1 hn).elim (honly n) (honly' n)

/-- A list of texts of which the first is read from any place. -/
theorem Cites.intercalate {sep : String} (hsep : code.Cites kind sep .code)
    (hfirst : p.Cites kind s .code) {rest : List String}
    (hrest : ∀ t ∈ rest, code.Cites kind t .code) :
    p.Cites kind (sep.intercalate (s :: rest)) .code := by
  induction rest generalizing p s with
  | nil =>
    rw [String.intercalate_singleton]
    exact hfirst
  | cons t rest ih =>
    rw [String.intercalate_cons_cons]
    exact (hfirst.append hsep).append
      (ih (hrest t (.head _)) fun t' ht' => hrest t' (.tail _ ht'))

theorem Cites.intercalate_of_forall {sep : String} (hsep : code.Cites kind sep .code)
    {parts : List String} (h : ∀ t ∈ parts, code.Cites kind t .code) :
    code.Cites kind (sep.intercalate parts) .code := by
  cases parts with
  | nil => exact cites_of_eq _ rfl rfl
  | cons s rest => exact .intercalate hsep (h s (.head _)) fun t ht => h t (.tail _ ht)

theorem Cites.join {parts : List String} (h : ∀ t ∈ parts, code.Cites kind t .code) :
    code.Cites kind (String.join parts) .code := by
  induction parts with
  | nil => exact cites_of_eq _ rfl rfl
  | cons s rest ih =>
    rw [String.join_cons]
    exact (h s (.head _)).append (ih fun t ht => h t (.tail _ ht))

end Place

end Statement

end GraphqlCypher
