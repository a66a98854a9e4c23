/-! Maps that keep the order of insertion.

A map is the list of its entries. A key that is inserted again keeps its place and
takes the new value; a key that is taken out leaves its place to the last entry.
`keys_insert` and `lookup_insert` say what inserting does to the two views of a
map, its keys in order and the value of each key. -/
namespace GraphqlCypher

/-- The entries of a map, in the order of insertion. -/
abbrev Entries (α : Type) := List (String × α)

namespace Entries

variable {α β : Type}

/-- The value of a key. -/
def get? (m : Entries α) (k : String) : Option α := List.lookup k m

def keys (m : Entries α) : List String := m.map Prod.fst

def values (m : Entries α) : List α := m.map Prod.snd

def contains (m : Entries α) (k : String) : Bool := m.keys.contains k

/-- Gives a key its value: in its place if it has one, at the end otherwise. -/
def insert (m : Entries α) (k : String) (v : α) : Entries α :=
  match m with
  | [] => [(k, v)]
  | (k', v') :: rest => if k' = k then (k', v) :: rest else (k', v') :: insert rest k v

/-- Inserts entry after entry. -/
def insertAll (m : Entries α) (entries : List (String × α)) : Entries α :=
  entries.foldl (fun m e => m.insert e.1 e.2) m

/-- The map of a list of entries: the first place and the last value of each key. -/
def ofList (entries : List (String × α)) : Entries α := insertAll [] entries

/-- Takes a key out; the last entry moves into its place. -/
def swapRemove (m : Entries α) (k : String) : Entries α :=
  match m.findIdx? (·.1 == k), m.getLast? with
  | some i, some last => m.dropLast.set i last
  | _, _ => m

/-- Changes every value, knowing its key. -/
def mapValues (f : String → α → β) (m : Entries α) : Entries β :=
  m.map fun (k, v) => (k, f k v)

/-! ### Lemmas -/

theorem get?_nil (k : String) : get? ([] : Entries α) k = none := rfl

theorem get?_cons (k k' : String) (v : α) (m : Entries α) :
    get? ((k', v) :: m) k = if k' = k then some v else get? m k := by
  unfold get?
  by_cases h : k = k'
  · subst h; simp
  · have h' : ¬ k' = k := fun e => h e.symm
    have hb : (k == k') = false := beq_eq_false_iff_ne.2 h
    simp [List.lookup_cons, hb, h']

theorem get?_insert_self (m : Entries α) (k : String) (v : α) :
    (insert m k v).get? k = some v := by
  induction m with
  | nil => simp [insert, get?_cons]
  | cons e rest ih =>
    obtain ⟨k', v'⟩ := e
    by_cases h : k' = k
    · simp [insert, h, get?_cons]
    · simp [insert, h, get?_cons, ih]

theorem get?_insert_ne (m : Entries α) {k k' : String} (v : α) (h : k ≠ k') :
    (insert m k v).get? k' = m.get? k' := by
  induction m with
  | nil => simp [insert, get?_cons, get?_nil, h]
  | cons e rest ih =>
    obtain ⟨k'', v'⟩ := e
    by_cases hk : k'' = k
    · subst hk
      simp [insert, get?_cons, h]
    · simp [insert, hk, get?_cons, ih]

/-- Inserting changes one value. -/
theorem lookup_insert (m : Entries α) (k k' : String) (v : α) :
    (insert m k v).get? k' = if k = k' then some v else m.get? k' := by
  by_cases h : k = k'
  · subst h; simp [get?_insert_self]
  · simp [h, get?_insert_ne m v h]

theorem contains_iff_mem_keys (m : Entries α) (k : String) :
    m.contains k = true ↔ k ∈ m.keys := by
  simp [contains]

/-- Inserting adds a new key at the end and leaves the others in place. -/
theorem keys_insert (m : Entries α) (k : String) (v : α) :
    (insert m k v).keys = if k ∈ m.keys then m.keys else m.keys ++ [k] := by
  induction m with
  | nil => simp [insert, keys]
  | cons e rest ih =>
    obtain ⟨k', v'⟩ := e
    by_cases h : k' = k
    · subst h; simp [insert, keys]
    · have h' : ¬ k = k' := fun e => h e.symm
      simp only [insert, if_neg h, keys, List.map_cons, List.mem_cons, h', false_or]
      simp only [keys] at ih
      rw [ih]
      by_cases hm : k ∈ List.map Prod.fst rest <;> simp [hm]

theorem nodup_keys_insert (m : Entries α) (k : String) (v : α) (h : m.keys.Nodup) :
    (insert m k v).keys.Nodup := by
  rw [keys_insert]
  split
  · exact h
  · next hk =>
    rw [List.nodup_append]
    exact ⟨h, by simp, by
      intro a ha b hb
      simp only [List.mem_singleton] at hb
      subst hb
      exact fun e => hk (e ▸ ha)⟩

theorem nodup_keys_insertAll (m : Entries α) (entries : List (String × α)) (h : m.keys.Nodup) :
    (insertAll m entries).keys.Nodup := by
  induction entries generalizing m with
  | nil => exact h
  | cons e rest ih => exact ih _ (nodup_keys_insert m e.1 e.2 h)

/-- A map has each key once. -/
theorem nodup_keys_ofList (entries : List (String × α)) : (ofList entries).keys.Nodup :=
  nodup_keys_insertAll [] entries List.nodup_nil

end Entries

end GraphqlCypher
