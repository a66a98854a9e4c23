import GraphqlCypher.Proofs.Language.Reader
import GraphqlCypher.Proofs.Language.Scanning

/-! What readers return on tokens that are known.

`p.Returns ts Q` says that whatever `p` returns on the tokens `ts`, and the tokens it leaves,
satisfy `Q`; of a reader that refuses it says nothing. Places are not mentioned: no reader
looks at them but for its errors. There is one rule for each way to build a reader, and where
the tokens leave no choice the rule says what is returned (`p.Gives ts a us`). -/
namespace GraphqlCypher

open Grammar

/-! ### Tokens ahead -/

namespace Grammar

theorem next?_eq (input : List Located) :
    next? input = (input.map Located.token).head? := by
  rw [next?, List.head?_map]

/-- What a test says of certain tokens, wherever they stand. -/
def Sees (test : List Located → Bool) (ts : List Token) (answer : Bool) : Prop :=
  ∀ input : List Located, input.map Located.token = ts → test input = answer

theorem sees_mark (c : Char) (ts : List Token) :
    Sees (nextIsMark c) ts (ts.head? == some (.mark c)) := by
  rintro input rfl
  rw [nextIsMark, next?_eq]

theorem sees_mark_cons (c : Char) (ts : List Token) : Sees (nextIsMark c) (.mark c :: ts) true := by
  intro input hin
  rw [sees_mark c _ input hin, List.head?_cons, beq_self_eq_true]

theorem sees_no_mark {c : Char} {ts : List Token} (h : ts.head? ≠ some (.mark c)) :
    Sees (nextIsMark c) ts false := by
  intro input hin
  rw [sees_mark c _ input hin]
  exact beq_eq_false_iff_ne.2 h

theorem sees_keyword (word : String) (ts : List Token) :
    Sees (nextIsKeyword word) ts (ts.head? == some (.name word)) := by
  rintro input rfl
  rw [nextIsKeyword, next?_eq]

end Grammar

/-! ### Rules -/

namespace Reader

variable {α β ι : Type} {s t : Bool} {ts us : List Token} {P : α → List Token → Prop}
  {Q : β → List Token → Prop}

/-- What is returned on certain tokens, and what is left, if they are not refused. -/
def Returns (p : TokenReader s α) (ts : List Token) (P : α → List Token → Prop) : Prop :=
  ∀ (input : List Located) (r : Reading Located s input α), input.map Located.token = ts →
    p input = .ok r → P r.value (r.rest.map Located.token)

/-- There is one value that can be returned, and one rest. -/
def Gives (p : TokenReader s α) (ts : List Token) (a : α) (us : List Token) : Prop :=
  p.Returns ts fun a' us' => a' = a ∧ us' = us

theorem returns_any (p : TokenReader s α) (ts : List Token) : p.Returns ts fun _ _ => True :=
  fun _ _ _ _ => trivial

theorem gives_done (a : α) (ts : List Token) : (done a : TokenReader false α).Gives ts a ts := by
  intro input r hin hr
  cases hr
  exact ⟨rfl, hin⟩

theorem returns_refuse (e : List Located → Position) :
    (refuse e : TokenReader s α).Returns ts P := by
  intro input r _ hr
  cases hr

theorem Returns.andThen {p : TokenReader s α} {f : α → TokenReader t β} (hp : p.Returns ts P)
    (hf : ∀ a us, P a us → (f a).Returns us Q) : (p.andThen f).Returns ts Q := by
  intro input r hin hr
  obtain ⟨first, later, hfirst, hlater, hvalue, hrest⟩ := andThen_ok hr
  rw [hvalue, hrest]
  exact hf _ _ (hp input first hin hfirst) _ later rfl hlater

theorem Gives.andThen {p : TokenReader s α} {f : α → TokenReader t β} {a : α}
    (hp : p.Gives ts a us) (hf : (f a).Returns us Q) : (p.andThen f).Returns ts Q := by
  refine Returns.andThen hp fun a' us' h => ?_
  obtain ⟨rfl, rfl⟩ := h
  exact hf

theorem Returns.map {p : TokenReader s α} {f : α → β} (hp : p.Returns ts fun a => Q (f a)) :
    (p.map f).Returns ts Q := by
  intro input r hin hr
  obtain ⟨read, hread, hvalue, hrest⟩ := map_ok hr
  rw [hvalue, hrest]
  exact hp input read hin hread

theorem Gives.map {p : TokenReader s α} {a : α} (hp : p.Gives ts a us) (f : α → β) :
    (p.map f).Gives ts (f a) us := by
  refine Returns.map fun input r hin hr => ?_
  obtain ⟨hvalue, hrest⟩ := hp input r hin hr
  exact ⟨congrArg f hvalue, hrest⟩

theorem Returns.relax {p : TokenReader s α} (hp : p.Returns ts P) : p.relax.Returns ts P := by
  intro input r hin hr
  obtain ⟨read, hread, hvalue, hrest⟩ := relax_ok hr
  rw [hvalue, hrest]
  exact hp input read hin hread

theorem returns_look {f : List Located → TokenReader s α}
    (hf : ∀ input, input.map Located.token = ts → (f input).Returns ts P) :
    (look f).Returns ts P := fun input r hin hr => hf input hin input r hin hr

theorem gives_optional {wanted : List Located → Bool} {p : TokenReader true α} {a : α}
    (hwanted : Sees wanted ts true) (hp : p.Gives ts a us) :
    (optional wanted p).Gives ts (some a) us := by
  refine returns_look fun input hin => ?_
  rw [if_pos (hwanted input hin)]
  exact Returns.relax (hp.map some)

theorem gives_optional_none {wanted : List Located → Bool} (p : TokenReader true α)
    (hwanted : Sees wanted ts false) : (optional wanted p).Gives ts none ts := by
  refine returns_look fun input hin => ?_
  rw [if_neg (by simp [hwanted input hin])]
  exact gives_done none ts

/-- Items that can be read one after another. The tokens of each are known, and what must not
follow an item neither follows nor begins one. -/
structure Items (p : TokenReader true α) (more : List Located → Bool) (items : List ι)
    (tokens : ι → List Token) (value : ι → α) (Next : List Token → Prop) : Prop where
  begins : ∀ x ∈ items, ∀ ts, Sees more (tokens x ++ ts) true ∧ Next (tokens x ++ ts)
  gives : ∀ x ∈ items, ∀ ts, Next ts → p.Gives (tokens x ++ ts) (value x) ts

variable {p : TokenReader true α} {more : List Located → Bool} {items : List ι}
  {tokens : ι → List Token} {value : ι → α} {Next : List Token → Prop}

theorem Items.tail {x : ι} {rest : List ι} (h : Items p more (x :: rest) tokens value Next) :
    Items p more rest tokens value Next :=
  ⟨fun y hy => h.begins y (.tail x hy), fun y hy => h.gives y (.tail x hy)⟩

theorem Items.next (h : Items p more items tokens value Next) (hnext : Next us) :
    Next (items.flatMap tokens ++ us) := by
  cases items with
  | nil => exact hnext
  | cons x rest =>
    rw [List.flatMap_cons, List.append_assoc]
    exact (h.begins x (.head rest) _).2

/-- As many values as there are items. The induction is on the items; what was read before
them is kept in reverse. -/
theorem Items.foldWhile (h : Items p more items tokens value Next) (hnext : Next us)
    (hstop : Sees more us false) (before : List α) :
    (Reader.foldWhile more (fun acc => p.map (· :: acc)) before).Gives
      (items.flatMap tokens ++ us) ((items.map value).reverse ++ before) us := by
  induction items generalizing before with
  | nil =>
    intro input r hin hr
    rcases foldWhile_ok hr with ⟨-, hvalue, hrest⟩ | ⟨hmore, -⟩
    · exact ⟨hvalue, (congrArg _ hrest).trans hin⟩
    · cases hmore.symm.trans (hstop input hin)
  | cons x rest ih =>
    intro input r hin hr
    rw [List.flatMap_cons, List.append_assoc] at hin
    rcases foldWhile_ok hr with ⟨hmore, -⟩ | ⟨-, first, others, hfirst, hothers, hvalue, hrest⟩
    · cases hmore.symm.trans ((h.begins x (.head rest) _).1 input hin)
    · have one := (h.gives x (.head rest) _ (h.tail.next hnext)).map (· :: before)
      obtain ⟨hvalue', hrest'⟩ := one input first hin hfirst
      rw [hvalue'] at hothers
      obtain ⟨hvalue'', hrest''⟩ := ih h.tail (value x :: before) _ others hrest' hothers
      rw [hvalue, hrest, hvalue'', hrest'', List.map_cons, List.reverse_cons, List.append_assoc]
      exact ⟨rfl, rfl⟩

theorem Items.many (h : Items p more items tokens value Next) (hnext : Next us)
    (hstop : Sees more us false) :
    (Reader.many more p).Gives (items.flatMap tokens ++ us) (items.map value) us := by
  have read := (h.foldWhile hnext hstop []).map List.reverse
  rwa [List.append_nil, List.reverse_reverse] at read

/-- The first of the values is that of the reader that is repeated. -/
theorem Returns.oneOrMore {p : TokenReader true α} (hp : p.Returns ts P)
    (more : List Located → Bool) : (Reader.oneOrMore more p).Returns ts
      fun as _ => ∃ first rest us, as = first :: rest ∧ P first us :=
  hp.andThen fun a us ha => Returns.map fun _ read _ _ => ⟨a, read.value, us, rfl, ha⟩

theorem Items.oneOrMore {x : ι} {rest : List ι} (h : Items p more (x :: rest) tokens value Next)
    (hnext : Next us) (hstop : Sees more us false) :
    (Reader.oneOrMore more p).Gives ((x :: rest).flatMap tokens ++ us) ((x :: rest).map value)
      us := by
  rw [List.flatMap_cons, List.append_assoc]
  exact (h.gives x (.head rest) _ (h.tail.next hnext)).andThen
    ((h.tail.many hnext hstop).map (value x :: ·))

end Reader

/-! ### The grammar -/

namespace Grammar

open Reader

variable {α ι : Type} {ts us : List Token}

theorem gives_accept {f : Token → Option α} {t : Token} {a : α} (h : f t = some a) :
    (accept f).Gives (t :: ts) a ts := by
  intro input r hin hr
  cases input with
  | nil => cases hin
  | cons x rest =>
    obtain ⟨rfl, rfl⟩ := List.cons.inj hin
    simp only [accept, take, h] at hr
    cases hr
    exact ⟨rfl, rfl⟩

theorem returns_accept_none {f : Token → Option α} {t : Token} {P : α → List Token → Prop}
    (h : f t = none) : (accept f).Returns (t :: ts) P := by
  intro input r hin hr
  cases input with
  | nil => cases hin
  | cons x rest =>
    obtain ⟨rfl, rfl⟩ := List.cons.inj hin
    simp only [accept, take, h] at hr
    cases hr

theorem gives_mark (c : Char) : (mark c).Gives (.mark c :: ts) () ts :=
  gives_accept (if_pos rfl)

theorem gives_name (s : String) : name.Gives (.name s :: ts) s ts := gives_accept rfl

theorem gives_keyword (word : String) : (keyword word).Gives (.name word :: ts) () ts := by
  refine Gives.map (a := word) (gives_accept ?_) fun _ => ()
  exact if_pos (by simp)

/-- Parts between brackets, or nothing if there are none. -/
def between (first last : Char) (parts : List (List Token)) : List Token :=
  if parts.isEmpty then [] else .mark first :: (parts.flatten ++ [.mark last])

theorem gives_optionalBracketed {first last : Char} {more : List Located → Bool}
    {p : TokenReader true α} {items : List ι} {tokens : ι → List Token} {value : ι → α}
    {Next : List Token → Prop} (h : Items p more items tokens value Next)
    (hnext : ∀ ts, Next (.mark last :: ts)) (hstop : ∀ ts, Sees more (.mark last :: ts) false)
    (hfirst : items = [] → us.head? ≠ some (.mark first)) :
    (optionalBracketed first last more p).Gives
      (between first last (items.map tokens) ++ us) (items.map value) us := by
  refine returns_look fun input hin => ?_
  have bracket := sees_mark first _ input hin
  cases items with
  | nil =>
    rw [if_neg (by simp [bracket, between, hfirst rfl])]
    exact gives_done [] us
  | cons x rest =>
    have tokens_eq : between first last ((x :: rest).map tokens) ++ us =
        .mark first :: ((x :: rest).flatMap tokens ++ .mark last :: us) := by
      simp [between, List.flatMap]
    rw [tokens_eq] at bracket ⊢
    rw [if_pos (by simp [bracket])]
    refine Returns.relax ((gives_mark first).andThen ?_)
    exact (h.oneOrMore (hnext us) (hstop us)).andThen ((gives_mark last).map fun _ => _)

/-! ### Types -/

section Types

variable {item : Option (TokenReader true TypeRef)} {t : TypeRef}

theorem gives_nullable (h : (bareTypeRef item).Gives ts t us)
    (hbang : us.head? ≠ some (.mark '!')) : (typeRefWith item).Gives ts t us := by
  rw [typeRefWith_eq]
  exact h.andThen ((gives_optional_none (mark '!') (sees_no_mark hbang)).map _)

theorem gives_nonNull (h : (bareTypeRef item).Gives ts t (.mark '!' :: us)) :
    (typeRefWith item).Gives ts t.nonNull us := by
  rw [typeRefWith_eq]
  exact h.andThen ((gives_optional (sees_mark_cons '!' us) (gives_mark '!')).map _)

theorem gives_bare_named (n : String) :
    (bareTypeRef item).Gives (.name n :: us) (.named n) us := by
  refine returns_look fun input hin => ?_
  cases item with
  | none => exact (gives_name n).map _
  | some p =>
    dsimp only
    rw [if_neg (by simp [sees_mark '[' _ input hin])]
    exact (gives_name n).map _

theorem gives_bare_list (h : ∀ p ∈ item, p.Gives ts t (.mark ']' :: us)) :
    (bareTypeRef item).Gives (.mark '[' :: ts) (.list t) us := by
  refine returns_look fun input hin => ?_
  cases item with
  | none => exact Returns.map (returns_accept_none rfl)
  | some p =>
    dsimp only
    rw [if_pos (sees_mark_cons '[' ts input hin)]
    exact (gives_mark '[').andThen ((h p rfl).andThen ((gives_mark ']').map fun _ => _))

end Types

/-- What a list may hold, if there may be a list. -/
def listItem : Nat → Option (TokenReader true TypeRef)
  | 0 => none
  | brackets + 1 => some (typeRef brackets)

theorem typeRef_eq (brackets : Nat) : typeRef brackets = typeRefWith (listItem brackets) := by
  cases brackets <;> rfl

/-- A list is read if what it holds is read with one bracket less. -/
theorem gives_list {item : TypeRef} (brackets : Nat) (us : List Token)
    (h : ∀ n, (typeRef n).Gives (item.tokens ++ .mark ']' :: us) item (.mark ']' :: us)) :
    (bareTypeRef (listItem brackets)).Gives (item.list.tokens ++ us) item.list us := by
  have tokens_eq : item.list.tokens ++ us = .mark '[' :: (item.tokens ++ .mark ']' :: us) := by
    simp [TypeRef.tokens]
  rw [tokens_eq]
  refine gives_bare_list fun p hp => ?_
  cases brackets with
  | zero => cases hp
  | succ n =>
    cases hp
    exact h n

/-- A type is read as it was written, up to what is not a mark for not null; one that may get
such a mark is read before it. The induction is on the type and proves both. -/
theorem gives_types (t : TypeRef) :
    (t.Grammatical → ∀ brackets us, us.head? ≠ some (.mark '!') →
      (typeRef brackets).Gives (t.tokens ++ us) t us) ∧
    (t.nonNull.Grammatical → ∀ brackets us,
      (bareTypeRef (listItem brackets)).Gives (t.tokens ++ us) t us) := by
  induction t with
  | named n =>
    refine ⟨fun _ brackets us hbang => ?_, fun _ brackets us => gives_bare_named n⟩
    rw [typeRef_eq]
    exact gives_nullable (gives_bare_named n) hbang
  | list item ih =>
    have bare (h : item.Grammatical) (brackets : Nat) (us : List Token) :
        (bareTypeRef (listItem brackets)).Gives (item.list.tokens ++ us) item.list us :=
      gives_list brackets us fun n => ih.1 h n _ (by simp)
    refine ⟨fun h brackets us hbang => ?_, bare⟩
    rw [typeRef_eq]
    exact gives_nullable (bare h brackets us) hbang
  | nonNull inner ih =>
    refine ⟨fun h brackets us _ => ?_, fun h => h.elim⟩
    rw [typeRef_eq, TypeRef.tokens, List.append_assoc]
    exact gives_nonNull (ih.2 h brackets _)

theorem gives_typeRef (brackets : Nat) {t : TypeRef} (h : t.Grammatical)
    (hbang : us.head? ≠ some (.mark '!')) : (typeRef brackets).Gives (t.tokens ++ us) t us :=
  (gives_types t).1 h brackets us hbang

/-! ### Values and arguments -/

theorem gives_var (x : String) (brackets : Nat) :
    (value false brackets).Gives (.mark '$' :: .name x :: us) (.var x) us := by
  have read (part : Option (TokenReader true Value)) :
      (valueWith false part).Gives (.mark '$' :: .name x :: us) (.var x) us := by
    refine returns_look fun input hin => ?_
    rw [if_pos (by rw [sees_mark_cons '$' _ input hin]; rfl)]
    exact (gives_mark '$').andThen ((gives_name x).map Value.var)
  cases brackets with
  | zero => exact read none
  | succ n => exact read (some (value false n))

/-- `a: $x` -/
def bindingTokens (b : String × String) : List Token :=
  [.name b.1, .mark ':', .mark '$', .name b.2]

theorem items_bindings (bound : List (String × String)) (brackets : Nat) :
    Items (entry (value false brackets)) nextIsName bound bindingTokens
      (fun b => (b.1, Value.var b.2)) fun _ => True where
  begins b _ ts := ⟨fun input hin => by rw [nextIsName, next?_eq, hin]; rfl, trivial⟩
  gives b _ ts _ := (gives_name b.1).andThen ((gives_mark ':').andThen
    ((gives_var b.2 brackets).map fun v => (b.1, v)))

/-- Arguments that are all variables. -/
theorem gives_arguments (bound : List (String × String)) (brackets : Nat)
    (hus : bound = [] → us.head? ≠ some (.mark '(')) :
    (Grammar.arguments brackets).Gives (between '(' ')' (bound.map bindingTokens) ++ us)
      (bound.map fun b => (b.1, Value.var b.2)) us := by
  refine returns_look fun input hin => ?_
  cases brackets with
  | zero =>
    have bracket := sees_mark '(' _ input hin
    cases bound with
    | nil =>
      rw [if_neg (by simp [bracket, between, hus rfl])]
      exact gives_done [] us
    | cons b rest =>
      rw [if_pos (by simp [bracket, between])]
      exact returns_refuse here
  | succ n =>
    exact gives_optionalBracketed (items_bindings bound n) (fun _ => trivial)
      (fun _ input hin => by rw [nextIsName, next?_eq, hin]; rfl) hus

theorem gives_no_directives (brackets : Nat) (hus : us.head? ≠ some (.mark '@')) :
    (Grammar.directives brackets).Gives us [] us := by
  have none : Items ((mark '@').andThen fun _ => name.andThen fun n =>
      (Grammar.arguments brackets).map fun as => (⟨n, as⟩ : Directive)) (nextIsMark '@')
      ([] : List Unit) (fun _ => []) (fun _ => default) fun _ => True := ⟨nofun, nofun⟩
  exact none.many trivial (sees_no_mark hus)

end Grammar

namespace Executable

open Reader Grammar

variable {us : List Token}

/-- `$x: T` -/
def VariableDefinition.tokens (v : VariableDefinition) : List Token :=
  .mark '$' :: .name v.name :: .mark ':' :: v.type.tokens

theorem items_declared (declared : List VariableDefinition)
    (plain : ∀ v ∈ declared, v.type.Grammatical ∧ v.initial = none) :
    Items variableDefinition (nextIsMark '$') declared VariableDefinition.tokens id
      fun ts => ts.head? ≠ some (.mark '!') ∧ ts.head? ≠ some (.mark '=') where
  begins v _ ts := by
    exact ⟨sees_mark_cons '$' _, by simp [VariableDefinition.tokens]⟩
  gives v hv ts hts := by
    obtain ⟨grammatical, initial⟩ := plain v hv
    refine (gives_mark '$').andThen ((gives_name v.name).andThen ((gives_mark ':').andThen
      ((gives_typeRef _ grammatical hts.1).andThen ?_)))
    have read : (initialValue (maxBrackets - 1)).Gives ts none ts :=
      gives_optional_none _ (sees_no_mark hts.2)
    rw [← initial] at read
    exact read.map _

theorem gives_declared {declared : List VariableDefinition}
    (plain : ∀ v ∈ declared, v.type.Grammatical ∧ v.initial = none)
    (hus : us.head? ≠ some (.mark '(')) :
    (optionalBracketed '(' ')' (nextIsMark '$') variableDefinition).Gives
      (between '(' ')' (declared.map VariableDefinition.tokens) ++ us) declared us := by
  have read : (optionalBracketed '(' ')' (nextIsMark '$') variableDefinition).Gives
      (between '(' ')' (declared.map VariableDefinition.tokens) ++ us) (declared.map id) us :=
    gives_optionalBracketed (items_declared declared plain) (fun _ => ⟨by simp, by simp⟩)
      (fun _ => sees_no_mark (by simp)) fun _ => hus
  rwa [List.map_id] at read

/-- The field of a name with such arguments and no other. What a label or arguments may be
that follow the name of a field without any is left open. -/
def Selection.Binds (s : Selection) (name : String) (bound : List (String × String)) : Prop :=
  ∃ label name' arguments directives inner, s = .field label name' arguments directives inner ∧
    (bound ≠ [] → label = none ∧ name' = name ∧
      arguments = bound.map fun b => (b.1, Value.var b.2))

theorem returns_field (name : String) (bound : List (String × String)) (brackets : Nat)
    (inner : TokenReader true (List Selection)) :
    (field brackets inner).Returns
      (.name name :: (between '(' ')' (bound.map bindingTokens) ++ us))
      fun s _ => s.Binds name bound := by
  refine (gives_name name).andThen ?_
  cases bound with
  | nil =>
    refine (returns_any _ _).andThen fun second _ _ => (returns_any _ _).andThen
      fun arguments _ _ => (returns_any _ _).andThen fun directives _ _ => Returns.map ?_
    intro input r hin hr
    cases second with
    | none => exact ⟨_, _, _, _, _, rfl, fun h => absurd rfl h⟩
    | some s => exact ⟨_, _, _, _, _, rfl, fun h => absurd rfl h⟩
  | cons b rest =>
    have unlabelled : Sees (nextIsMark ':')
        (between '(' ')' ((b :: rest).map bindingTokens) ++ us) false :=
      sees_no_mark (by simp [between])
    refine (gives_optional_none _ unlabelled).andThen
      ((gives_arguments (b :: rest) brackets nofun).andThen
        ((returns_any _ _).andThen fun directives _ _ => Returns.map ?_))
    exact fun input r hin hr => ⟨_, _, _, _, _, rfl, fun _ => ⟨rfl, rfl, rfl⟩⟩

theorem returns_selections (name : String) (bound : List (String × String)) (brackets : Nat) :
    (selections brackets).Returns
      (.mark '\x7b' :: .name name :: (between '(' ')' (bound.map bindingTokens) ++ us))
      fun ss _ => ∃ first rest, ss = first :: rest ∧ first.Binds name bound := by
  cases brackets with
  | zero => exact returns_refuse here
  | succ n =>
    have first : (selection n (selections n)).Returns
        (.name name :: (between '(' ')' (bound.map bindingTokens) ++ us))
        fun s _ => s.Binds name bound := by
      refine returns_look fun input hin => ?_
      rw [if_neg (by rw [next?_eq, hin]; simp)]
      exact returns_field name bound n _
    rw [selections, bracketed]
    refine (gives_mark '\x7b').andThen ((first.oneOrMore _).andThen fun ss _ h => Returns.map ?_)
    obtain ⟨s, rest, _, hss, hs⟩ := h
    exact fun _ _ _ _ => ⟨s, rest, hss, hs⟩

/-- An operation that declares such variables and no other, and whose first field has such
arguments and no other. -/
def Definition.Opens (d : Definition) (kind : OperationKind)
    (declared : List VariableDefinition) (name : String) (bound : List (String × String)) :
    Prop :=
  ∃ first rest, d = .operation kind ⟨none, declared, []⟩ (first :: rest) ∧ first.Binds name bound

/-- The tokens of an operation up to the arguments of its first field. -/
def openingTokens (kind : OperationKind) (declared : List VariableDefinition) (name : String)
    (bound : List (String × String)) : List Token :=
  .name kind.keyword :: (between '(' ')' (declared.map VariableDefinition.tokens) ++
    .mark '\x7b' :: .name name :: between '(' ')' (bound.map bindingTokens))

variable {kind : OperationKind} {declared : List VariableDefinition} {name : String}
  {bound : List (String × String)}

theorem returns_operation (plain : ∀ v ∈ declared, v.type.Grammatical ∧ v.initial = none) :
    (operation kind).Returns (openingTokens kind declared name bound ++ us)
      fun d _ => d.Opens kind declared name bound := by
  let body := Token.mark '\x7b' :: .name name :: (between '(' ')' (bound.map bindingTokens) ++ us)
  have unnamed : Sees nextIsName
      (between '(' ')' (declared.map VariableDefinition.tokens) ++ body) false := by
    intro input hin
    rw [nextIsName, next?_eq, hin]
    cases declared <;> rfl
  rw [openingTokens, List.cons_append, List.append_assoc, List.cons_append, List.cons_append]
  refine (gives_keyword kind.keyword).andThen ((gives_optional_none _ unnamed).andThen
    ((gives_declared plain (by simp [body])).andThen
      ((gives_no_directives _ (by simp [body])).andThen (Returns.map ?_))))
  intro input r hin hr
  obtain ⟨first, rest, hss, hfirst⟩ := returns_selections name bound maxBrackets input r hin hr
  exact ⟨first, rest, by rw [hss], hfirst⟩

theorem returns_definition (plain : ∀ v ∈ declared, v.type.Grammatical ∧ v.initial = none) :
    definition.Returns (openingTokens kind declared name bound ++ us)
      fun d _ => d.Opens kind declared name bound := by
  refine returns_look fun input hin => ?_
  have keyword (word : String) :
      nextIsKeyword word input = (Token.name kind.keyword == .name word) := by
    rw [sees_keyword word _ input hin]
    rfl
  have named : nextIsMark '\x7b' input = false :=
    sees_no_mark (by simp [openingTokens]) input hin
  rw [if_neg (by simp [named])]
  cases kind with
  | query =>
    rw [if_pos (by rw [keyword]; rfl)]
    exact returns_operation plain
  | mutation =>
    rw [if_neg (by rw [keyword]; decide), if_pos (by rw [keyword]; rfl)]
    exact returns_operation plain
  | subscription =>
    rw [if_neg (by rw [keyword]; decide), if_neg (by rw [keyword]; decide),
      if_pos (by rw [keyword]; rfl)]
    exact returns_operation plain

end Executable

/-- What is read first off the tokens of a text. -/
theorem Grammar.first_of_whole {α : Type} {p : TokenReader true α} {text : String}
    {P : α → List Token → Prop} (hp : p.Returns (Token.kinds text.toList) P) {as : List α}
    (h : whole p text = .ok as) : ∃ first rest us, as = first :: rest ∧ P first us := by
  unfold whole at h
  dsimp only at h
  split at h
  · next r hr =>
    cases h
    refine Reader.Returns.andThen (Q := fun as _ => ∃ first rest us, as = first :: rest ∧
      P first us) (hp.oneOrMore _) (fun as _ has => ?_) _ r rfl hr
    exact Reader.Returns.map fun _ _ _ _ => has
  · cases h

end GraphqlCypher
