import GraphqlCypher.Catalog.Basic
import GraphqlCypher.Entries

/-! Catalogs that were made before, by the fingerprints of their type definitions.

A cache keeps the catalogs that were used last, and under one fingerprint one catalog
only. What it keeps them in is a map of bounded size, which is a parameter
(`RecencyMap`) with the laws that a cache relies on (`RecencyMap.Lawful`); the list of
what was used last is one such map. Every catalog that is made gets a number of its own,
so that two looks at one text can tell whether it was made again in between. -/
namespace GraphqlCypher

open Schema

/-- A map from texts that holds a bounded number of keys, and that knows which of them
were used last. -/
structure RecencyMap (σ α : Type) where
  empty (capacity : Nat) : σ
  get (m : σ) (key : String) : Option α × σ
  put (m : σ) (key : String) (value : α) : σ
  size (m : σ) : Nat
  capacity (m : σ) : Nat
  /-- What is held, the key that was used last in front. -/
  entries (m : σ) : Entries α

/-- What is kept of some entries when a key is used: it goes in front, and the rest
stays in order. -/
def Entries.promote {α : Type} (entries : Entries α) (key : String) (value : α) : Entries α :=
  (key, value) :: entries.filter (·.1 != key)

/-- A look at a key that is there puts it in front, and so does a new value; a new key
drops those used longest ago that no longer fit. -/
structure RecencyMap.Lawful {σ α : Type} (M : RecencyMap σ α) : Prop where
  capacity_empty (n : Nat) : M.capacity (M.empty n) = n
  entries_empty (n : Nat) : M.entries (M.empty n) = []
  get_eq (m : σ) (key : String) : (M.get m key).1 = Entries.get? (M.entries m) key
  entries_get (m : σ) (key : String) : M.entries (M.get m key).2 =
    match Entries.get? (M.entries m) key with
    | some value => (M.entries m).promote key value
    | none => M.entries m
  capacity_get (m : σ) (key : String) : M.capacity (M.get m key).2 = M.capacity m
  entries_put (m : σ) (key : String) (value : α) : M.entries (M.put m key value) =
    ((M.entries m).promote key value).take (M.capacity m)
  capacity_put (m : σ) (key : String) (value : α) : M.capacity (M.put m key value) = M.capacity m
  size_eq (m : σ) : M.size m = (M.entries m).length

/-- The keys that were used last, with their values. -/
structure RecentList (α : Type) where
  capacity : Nat
  entries : Entries α := []
deriving Repr

namespace RecentList

variable {α : Type}

def get (m : RecentList α) (key : String) : Option α × RecentList α :=
  match Entries.get? m.entries key with
  | some value => (some value, { m with entries := m.entries.promote key value })
  | none => (none, m)

def put (m : RecentList α) (key : String) (value : α) : RecentList α :=
  { m with entries := (m.entries.promote key value).take m.capacity }

def map : RecencyMap (RecentList α) α where
  empty n := { capacity := n }
  get := get
  put := put
  size m := m.entries.length
  capacity := capacity
  entries := entries

theorem lawful : RecencyMap.Lawful (map : RecencyMap (RecentList α) α) where
  capacity_empty _ := rfl
  entries_empty _ := rfl
  get_eq m key := by
    simp only [map, get]
    cases Entries.get? m.entries key <;> rfl
  entries_get m key := by
    simp only [map, get]
    cases Entries.get? m.entries key <;> rfl
  capacity_get m key := by
    simp only [map, get]
    cases Entries.get? m.entries key <;> rfl
  entries_put _ _ _ := rfl
  capacity_put _ _ _ := rfl
  size_eq _ := rfl

end RecentList

/-- A catalog and its number. -/
structure CachedCatalog where
  number : Nat
  catalog : Catalog
deriving Repr

/-- The catalogs that were used last, by fingerprint. -/
structure CatalogCache (σ : Type := RecentList CachedCatalog) where
  map : σ
  /-- How many catalogs were made. -/
  made : Nat := 0
deriving Repr

namespace CatalogCache

/-- The capacity unless another is asked for. -/
def defaultCapacity : Nat := 16

/-- A cache holds one catalog at least. -/
def bound (capacity : Option Nat) : Nat := max 1 (capacity.getD defaultCapacity)

section Map
variable {σ : Type} (M : RecencyMap σ CachedCatalog)

def start (capacity : Option Nat) : CatalogCache σ := { map := M.empty (bound capacity) }

/-- The catalog of a text, which is known by its fingerprint. It is made if the cache has
none; a text that has no catalog is not kept. -/
def request (fingerprint : String → String) (c : CatalogCache σ) (text : String) :
    Except SchemaError CachedCatalog × CatalogCache σ :=
  match M.get c.map (fingerprint text) with
  | (some found, map) => (.ok found, { c with map })
  | (none, map) =>
    match Catalog.ofText text with
    | .error e => (.error e, { c with map })
    | .ok catalog =>
      let new : CachedCatalog := ⟨c.made, catalog⟩
      (.ok new, { map := M.put map (fingerprint text) new, made := c.made + 1 })

end Map

def empty (capacity : Option Nat) : CatalogCache := start RecentList.map capacity

/-- A text that is its own fingerprint is mistaken for no other. -/
def getOrMake (c : CatalogCache) (text : String) :
    Except SchemaError CachedCatalog × CatalogCache :=
  c.request RecentList.map id text

def size (c : CatalogCache) : Nat := RecentList.map.size c.map

def isEmpty (c : CatalogCache) : Bool := c.size == 0

end CatalogCache

end GraphqlCypher
