import GraphqlCypher.Proofs.Entries
import GraphqlCypher.Proofs.Language.Names
import GraphqlCypher.Proofs.Mutation.Compiled
import GraphqlCypher.Request.Operation

/-! What a statement forwards.

A call passes every parameter on under its own name, and writes the name as it came. A name
of the grammar holds no punctuation; a key of a client may hold any, close the call and go on.
So the text is the one call that was meant just when all keys are names
(`Statement.forwards_iff`), and nothing sees to it on the way from a request. -/
namespace GraphqlCypher

open Token

namespace Statement

/-- `a: {a}, b: {b}`, every name being one of the grammar. -/
def IsParameterMap (body : String) : Prop :=
  ∃ names : List String, (∀ n ∈ names, isName n = true) ∧
    body = ", ".intercalate (names.map fun n => n ++ ": \x7b" ++ n ++ "\x7d")

/-- One call: between what opens and what closes it there is nothing but a parameter map. -/
def IsCall (opening closing text : String) : Prop :=
  ∃ body, text = opening ++ body ++ closing ∧ IsParameterMap body

theorem isCall_iff (opening body closing : String) :
    IsCall opening closing (opening ++ body ++ closing) ↔ IsParameterMap body := by
  constructor
  · intro h
    obtain ⟨body', hbody, hmap⟩ := h
    rw [String.append_left_inj, String.append_right_inj] at hbody
    exact hbody ▸ hmap
  · exact fun h => ⟨body, rfl, h⟩

/-! ### The characters of a parameter map -/

/-- `k: {k}` -/
def entryChars (k : List Char) : List Char := k ++ ':' :: ' ' :: '{' :: (k ++ ['}'])

/-- Entries, each after a comma. -/
def entriesChars (names : List (List Char)) : List Char :=
  names.flatMap fun n => ',' :: ' ' :: entryChars n

theorem entriesChars_cons (n : List Char) (rest : List (List Char)) :
    entriesChars (n :: rest) = ',' :: ' ' :: (entryChars n ++ entriesChars rest) := rfl

theorem toList_parameterMap (n : String) (rest : List String) :
    ',' :: ' ' :: (parameterMap (n :: rest)).toList =
      entriesChars ((n :: rest).map String.toList) := by
  induction rest generalizing n with
  | nil => simp [parameterMap, entriesChars, entryChars]
  | cons next rest ih =>
    rw [List.map_cons, entriesChars_cons, ← ih]
    simp [parameterMap, String.intercalate_cons_cons, entryChars]

/-- Whatever an opening brace is followed by is a name up to a closing brace. -/
def BracesNames (text : List Char) : Prop :=
  ∀ rest, '{' :: rest <:+ text → (rest.dropWhile isNameChar).head? = some '}'

theorem bracesNames_cons {c : Char} {text : List Char} : BracesNames (c :: text) ↔
    (c = '{' → (text.dropWhile isNameChar).head? = some '}') ∧ BracesNames text := by
  constructor
  · intro h
    refine ⟨fun hc => h text ?_, fun rest hrest => h rest (hrest.trans (List.suffix_cons c text))⟩
    exact hc ▸ List.suffix_rfl
  · intro h rest hrest
    obtain ⟨here, later⟩ := h
    rcases List.suffix_cons_iff.1 hrest with heq | hrest
    · obtain ⟨rfl, rfl⟩ := List.cons.inj heq
      exact here rfl
    · exact later rest hrest

theorem BracesNames.cons {c : Char} {text : List Char} (hc : c ≠ '{') (h : BracesNames text) :
    BracesNames (c :: text) := bracesNames_cons.2 ⟨fun he => absurd he hc, h⟩

theorem BracesNames.append {name text : List Char} (hname : ∀ c ∈ name, isNameChar c = true)
    (h : BracesNames text) : BracesNames (name ++ text) := by
  induction name with
  | nil => exact h
  | cons c name ih =>
    have hc : c ≠ '{' := fun hc => absurd (hname c (.head name)) (by rw [hc]; decide)
    exact (ih fun x hx => hname x (.tail c hx)).cons hc

theorem BracesNames.entry {k text : List Char} (hk : ∀ c ∈ k, isNameChar c = true)
    (h : BracesNames text) : BracesNames (entryChars k ++ text) := by
  have closed : BracesNames ('}' :: text) := h.cons (by decide)
  have opened : BracesNames ('{' :: (k ++ '}' :: text)) := by
    refine bracesNames_cons.2 ⟨fun _ => ?_, closed.append hk⟩
    rw [List.dropWhile_append_of_pos hk, List.dropWhile_cons_of_neg (by decide)]
    rfl
  have whole := ((opened.cons (c := ' ') (by decide)).cons (c := ':') (by decide)).append hk
  simpa [entryChars] using whole

theorem bracesNames_entriesChars {names : List (List Char)}
    (h : ∀ n ∈ names, ∀ c ∈ n, isNameChar c = true) : BracesNames (entriesChars names) := by
  induction names with
  | nil => exact fun rest hrest => by cases List.suffix_nil.1 hrest
  | cons n rest ih =>
    have later := ih fun m hm => h m (.tail n hm)
    exact ((later.entry (h n (.head rest))).cons (by decide)).cons (by decide)

/-- The first entry of a text: what stands before the colon, if what stands in the braces is
a name. -/
theorem eq_of_entry {k n text text' : List Char} (hn : ∀ c ∈ n, isNameChar c = true)
    (heq : entryChars k ++ text = entryChars n ++ text')
    (hbraces : BracesNames (entryChars k ++ text)) : k = n := by
  have hinner : ((k ++ '}' :: text).dropWhile isNameChar).head? = some '}' := by
    have hsuffix : '{' :: (k ++ '}' :: text) <:+ entryChars k ++ text :=
      ⟨k ++ [':', ' '], by simp [entryChars]⟩
    exact hbraces _ hsuffix
  have hsplit : k ++ ':' :: ' ' :: '{' :: (k ++ '}' :: text) =
      n ++ ':' :: ' ' :: '{' :: (n ++ '}' :: text') := by simpa [entryChars] using heq
  rcases List.append_eq_append_iff.1 hsplit with ⟨x, hx, htail⟩ | ⟨x, hx, htail⟩
  · -- the key ends before the name: then the name goes on with the colon
    cases x with
    | nil => rw [hx, List.append_nil]
    | cons c x =>
      obtain ⟨rfl, -⟩ := List.cons.inj htail
      exact absurd (hn ':' (by simp [hx])) (by decide)
  · -- the key goes on with the colon: then what stands in its braces is the name and a colon
    cases x with
    | nil => rw [hx, List.append_nil]
    | cons c x =>
      obtain ⟨rfl, -⟩ := List.cons.inj htail
      rw [hx, List.append_assoc, List.dropWhile_append_of_pos hn, List.cons_append,
        List.dropWhile_cons_of_neg (by decide)] at hinner
      cases hinner

theorem entriesChars_injective {keys names : List (List Char)}
    (hnames : ∀ n ∈ names, ∀ c ∈ n, isNameChar c = true)
    (h : entriesChars keys = entriesChars names) : keys = names := by
  induction names generalizing keys with
  | nil =>
    cases keys with
    | nil => rfl
    | cons k rest => cases h
  | cons n rest ih =>
    cases keys with
    | nil => cases h
    | cons k rest' =>
      have hbraces : BracesNames (entryChars k ++ entriesChars rest') := by
        have hall := bracesNames_entriesChars hnames
        rw [← h] at hall
        exact (bracesNames_cons.1 (bracesNames_cons.1 hall).2).2
      have hentries : entryChars k ++ entriesChars rest' = entryChars n ++ entriesChars rest :=
        (List.cons.inj (List.cons.inj h).2).2
      obtain rfl := eq_of_entry (hnames n (.head rest)) hentries hbraces
      rw [ih (fun m hm => hnames m (.tail k hm)) (List.append_cancel_left hentries)]

/-- Names of the grammar can be told from a parameter map. -/
theorem parameterMap_injective {keys names : List String} (hnames : ∀ n ∈ names, isName n = true)
    (h : parameterMap keys = parameterMap names) : keys = names := by
  have hchars : ∀ n ∈ names.map String.toList, ∀ c ∈ n, isNameChar c = true := by
    intro n hn
    obtain ⟨s, hs, rfl⟩ := List.mem_map.1 hn
    exact isNameChar_of_mem (hnames s hs)
  have nonempty : ∀ n rest, parameterMap (n :: rest) ≠ "" := by
    intro n rest hempty
    have htext := toList_parameterMap n rest
    rw [hempty] at htext
    simp [entriesChars, entryChars] at htext
  cases keys with
  | nil =>
    cases names with
    | nil => rfl
    | cons n rest => exact absurd h.symm (nonempty n rest)
  | cons k rest' =>
    cases names with
    | nil => exact absurd h (nonempty k rest')
    | cons n rest =>
      have htexts := toList_parameterMap k rest'
      rw [h, toList_parameterMap] at htexts
      exact List.map_injective_iff.2 (fun _ _ => String.toList_inj.1)
        (entriesChars_injective hchars htexts.symm)

theorem isParameterMap_iff (keys : List String) :
    IsParameterMap (parameterMap keys) ↔ ∀ k ∈ keys, isName k = true := by
  constructor
  · intro h
    obtain ⟨names, hnames, hbody⟩ := h
    rwa [parameterMap_injective hnames hbody]
  · exact fun h => ⟨keys, h, rfl⟩

/-! ### Calls that forward -/

theorem isCall_query_iff (operation : String) (values : Json.Object) :
    IsCall ("CALL graphql.query(" ++ literal operation ++ ", \x7b") "\x7d)"
        (query operation values).text ↔ ∀ k ∈ Entries.keys values, isName k = true :=
  (isCall_iff _ _ _).trans (isParameterMap_iff _)

theorem isCall_execute_iff (operation : String) (values : Json.Object) :
    IsCall ("CALL graphql.execute(" ++ literal operation ++ ", \x7b") "\x7d)"
        (execute operation values).text ↔ ∀ k ∈ Entries.keys values, isName k = true :=
  (isCall_iff _ _ _).trans (isParameterMap_iff _)

/-- What follows the parameters of a mutation that puts edges. -/
def addClosing (mutation : String) : String :=
  " \x7d) YIELD result AS " ++ mutation ++ "Result\nRETURN \x7b " ++ mutation ++ ": " ++ mutation ++
    "Result \x7d"

theorem isCall_add_iff (m : CompiledAdd) :
    IsCall ("CALL graphql.execute('" ++ m.template.text ++ "', \x7b ") (addClosing m.mutation)
        m.text ↔ ∀ k ∈ Entries.keys m.arguments, isName k = true := by
  have htext : m.text = "CALL graphql.execute('" ++ m.template.text ++ "', \x7b " ++
      parameterMap (Entries.keys m.arguments) ++ addClosing m.mutation := by
    unfold CompiledAdd.text addClosing
    simp only [String.append_assoc]
  rw [htext]
  exact (isCall_iff _ _ _).trans (isParameterMap_iff _)

theorem mem_keys_logicalArguments {values : Json.Object} {k : String} :
    k ∈ Entries.keys (logicalArguments values) ↔
      ∃ key ∈ Entries.keys values, logicalName key = k := by
  rw [logicalArguments, Entries.mem_keys_ofList, List.map_map]
  simp only [Entries.keys, List.mem_map, Function.comp_apply, exists_exists_and_eq_and]

/-- A request reaches its statement with every key that the client chose. -/
theorem values_of_parse {text : String} {values : Json.Object} {op : Operation}
    (h : Operation.parse text values = .ok op) : op.values = values := by
  unfold Operation.parse at h
  split at h
  · cases h
  · split at h
    · cases h
    · split at h
      · cases h
      · cases h
        rfl

/-- **When a statement is the one call that was meant.** The names that are forwarded are the
keys of the client as they come, or what is behind their tags, so this is so just when all of
them are names of the grammar. -/
theorem forwards_iff (values : Json.Object) :
    (∀ text op, Operation.parse text values = .ok op → op.values = values) ∧
      (∀ operation, IsCall ("CALL graphql.query(" ++ literal operation ++ ", \x7b") "\x7d)"
        (query operation values).text ↔ ∀ k ∈ Entries.keys values, isName k = true) ∧
      (∀ operation, IsCall ("CALL graphql.execute(" ++ literal operation ++ ", \x7b") "\x7d)"
        (execute operation values).text ↔ ∀ k ∈ Entries.keys values, isName k = true) ∧
      ∀ c name ids drawn m, (Catalog.compile c name values ids drawn).1 = .ok (.add m) →
        (IsCall ("CALL graphql.execute('" ++ m.template.text ++ "', \x7b ") (addClosing name)
          m.text ↔ ∀ k ∈ Entries.keys values, isName (logicalName k) = true) := by
  refine ⟨fun _ _ => values_of_parse, (isCall_query_iff · values), (isCall_execute_iff · values),
    fun c name ids drawn m h => ?_⟩
  obtain ⟨info, -, -, rfl⟩ := Catalog.add_of_compile h
  refine (isCall_add_iff _).trans ⟨fun hall k hk => ?_, fun hall k hk => ?_⟩
  · exact hall _ (mem_keys_logicalArguments.2 ⟨k, hk, rfl⟩)
  · obtain ⟨key, hkey, rfl⟩ := mem_keys_logicalArguments.1 hk
    exact hall key hkey

/-- A person and the friends to be added, under tagged names. -/
def addedFriends : Json.Object :=
  [("_v0_where", .object [("id", .string "1")]),
   ("_v0_friends", .array [.object [("id", .string "2")]])]

theorem forwards_iff_friends : ∃ m,
    (Catalog.compile { friendsCatalog with generated := ["addPersonFriends"] } "addPersonFriends"
      addedFriends none 0).1 = .ok (.add m) ∧
    IsCall ("CALL graphql.execute('" ++ m.template.text ++ "', \x7b ")
      (addClosing "addPersonFriends") m.text := by
  obtain ⟨m, hm⟩ : ∃ m, (Catalog.compile { friendsCatalog with generated := ["addPersonFriends"] }
      "addPersonFriends" addedFriends none 0).1 = .ok (.add m) := ⟨_, rfl⟩
  have names : ∀ k ∈ Entries.keys addedFriends, isName (logicalName k) = true := by decide
  exact ⟨m, hm, ((forwards_iff addedFriends).2.2.2 _ _ _ _ m hm).2 names⟩

/-- A key that closes the call, puts a statement of its own and makes the rest a comment. -/
def hostileValues : Json.Object := [("a: 1\x7d) MATCH (n) DETACH DELETE n //", .bool true)]

/-- **A key can change the statement.** -/
theorem not_isCall_hostile :
    (query "\x7b name \x7d" hostileValues).text =
        "CALL graphql.query('\x7b name \x7d', \x7ba: 1\x7d) MATCH (n) DETACH DELETE n //" ++
          ": \x7ba: 1\x7d) MATCH (n) DETACH DELETE n //\x7d\x7d)" ∧
      ¬ IsCall ("CALL graphql.query(" ++ literal "\x7b name \x7d" ++ ", \x7b") "\x7d)"
        (query "\x7b name \x7d" hostileValues).text := by
  refine ⟨by decide, fun h => ?_⟩
  have hname := (isCall_query_iff _ _).1 h _ (List.mem_singleton.2 rfl)
  exact absurd hname (by decide)

end Statement

end GraphqlCypher
