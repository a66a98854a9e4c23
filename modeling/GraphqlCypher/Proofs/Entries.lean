import GraphqlCypher.Entries
import Mathlib.Data.List.Induction

/-! More on maps that keep the order of insertion: what a list of entries leaves. -/
namespace GraphqlCypher.Entries

variable {α : Type}

theorem mem_keys_insert {m : Entries α} {k k' : String} {v : α} :
    k' ∈ (m.insert k v).keys ↔ k' ∈ m.keys ∨ k' = k := by
  rw [keys_insert]
  split
  · next h => exact ⟨.inl, fun hk => hk.elim id fun e => e ▸ h⟩
  · simp

theorem mem_keys_insertAll {m : Entries α} {entries : List (String × α)} {k : String} :
    k ∈ (insertAll m entries).keys ↔ k ∈ m.keys ∨ k ∈ entries.map Prod.fst := by
  induction entries generalizing m with
  | nil => simp [insertAll]
  | cons e rest ih =>
    rw [show insertAll m (e :: rest) = insertAll (m.insert e.1 e.2) rest from rfl, ih,
      mem_keys_insert, List.map_cons, List.mem_cons, or_assoc]

/-- The keys of a map are those of the entries it is made of. -/
theorem mem_keys_ofList {entries : List (String × α)} {k : String} :
    k ∈ (ofList entries).keys ↔ k ∈ entries.map Prod.fst := by
  rw [ofList, mem_keys_insertAll]
  exact or_iff_right List.not_mem_nil

/-! ### Entries -/

theorem mem_of_get? {m : Entries α} {k : String} {v : α} (h : m.get? k = some v) :
    (k, v) ∈ m := by
  induction m with
  | nil => cases h
  | cons e rest ih =>
    obtain ⟨k', v'⟩ := e
    rw [get?_cons] at h
    split at h
    · next hk =>
      cases h
      exact hk ▸ List.mem_cons_self
    · exact List.mem_cons_of_mem _ (ih h)

/-- Where each key stands once, an entry is what its key is looked up as. -/
theorem get?_of_mem {m : Entries α} {k : String} {v : α} (hnodup : m.keys.Nodup)
    (h : (k, v) ∈ m) : m.get? k = some v := by
  induction m with
  | nil => cases h
  | cons e rest ih =>
    obtain ⟨k', v'⟩ := e
    obtain ⟨hk, hrest⟩ := List.nodup_cons.1 hnodup
    rw [get?_cons]
    rcases List.mem_cons.1 h with h | h
    · cases h
      exact if_pos rfl
    · have hne : k' ≠ k := fun e => hk (e ▸ List.mem_map.2 ⟨_, h, rfl⟩)
      rw [if_neg hne, ih hrest h]

theorem exists_get?_of_mem_keys {m : Entries α} {k : String} (h : k ∈ m.keys) :
    ∃ v, m.get? k = some v := by
  induction m with
  | nil => cases h
  | cons e rest ih =>
    obtain ⟨k', v'⟩ := e
    rw [get?_cons]
    by_cases hk : k' = k
    · exact ⟨v', if_pos hk⟩
    · obtain ⟨v, hv⟩ := ih (List.mem_of_ne_of_mem (Ne.symm hk) h)
      exact ⟨v, by rw [if_neg hk, hv]⟩

theorem mem_insert {m : Entries α} {k : String} {v : α} {e : String × α}
    (h : e ∈ m.insert k v) : e ∈ m ∨ e = (k, v) := by
  induction m with
  | nil => exact .inr (List.mem_singleton.1 h)
  | cons e' rest ih =>
    obtain ⟨k', v'⟩ := e'
    rw [insert] at h
    split at h
    · next hk =>
      subst hk
      rcases List.mem_cons.1 h with h | h
      · exact .inr h
      · exact .inl (List.mem_cons_of_mem _ h)
    · rcases List.mem_cons.1 h with h | h
      · exact .inl (h ▸ List.mem_cons_self)
      · exact (ih h).imp_left (List.mem_cons_of_mem _)

theorem mem_insertAll {m : Entries α} {entries : List (String × α)} {e : String × α}
    (h : e ∈ insertAll m entries) : e ∈ m ∨ e ∈ entries := by
  induction entries generalizing m with
  | nil => exact .inl h
  | cons e' rest ih =>
    rcases ih h with h | h
    · rcases mem_insert h with h | h
      · exact .inl h
      · exact .inr (h ▸ List.mem_cons_self)
    · exact .inr (List.mem_cons_of_mem _ h)

/-- A map has no entries but those it is made of. -/
theorem mem_ofList {entries : List (String × α)} {e : String × α} (h : e ∈ ofList entries) :
    e ∈ entries :=
  (mem_insertAll h).resolve_left List.not_mem_nil

/-- A key whose entries agree has their value. -/
theorem get?_ofList {entries : List (String × α)} {k : String} {v : α} (h : (k, v) ∈ entries)
    (hagree : ∀ v', (k, v') ∈ entries → v' = v) : (ofList entries).get? k = some v := by
  obtain ⟨v', hv'⟩ := exists_get?_of_mem_keys (mem_keys_ofList.2 (List.mem_map_of_mem h))
  rw [hv', hagree v' (mem_ofList (mem_of_get? hv'))]

theorem get?_insertAll_of_not_mem {m : Entries α} {entries : List (String × α)} {k : String}
    (h : k ∉ entries.map Prod.fst) : (insertAll m entries).get? k = m.get? k := by
  induction entries generalizing m with
  | nil => rfl
  | cons e rest ih =>
    obtain ⟨hne, hrest⟩ := not_or.1 (mt List.mem_cons.2 h)
    exact (ih hrest).trans (get?_insert_ne m e.2 (Ne.symm hne))

/-- Of several entries of one key the last one counts. -/
theorem get?_ofList_last {entries before after : List (String × α)} {k : String} {v : α}
    (h : entries = before ++ (k, v) :: after) (last : k ∉ after.map Prod.fst) :
    (ofList entries).get? k = some v := by
  have split : ofList entries = insertAll ((ofList before).insert k v) after := by
    rw [h, ofList, insertAll, List.foldl_append]
    rfl
  rw [split, get?_insertAll_of_not_mem last, get?_insert_self]

theorem get?_append (m m' : Entries α) (k : String) :
    get? (m ++ m') k = (get? m k).or (get? m' k) := List.lookup_append

theorem get?_eq_none {m : Entries α} {k : String} (h : k ∉ m.keys) : m.get? k = none := by
  cases hv : m.get? k with
  | none => rfl
  | some v => exact absurd (List.mem_map_of_mem (mem_of_get? hv)) h

theorem mapValues_cons {β : Type} (f : String → α → β) (k : String) (v : α) (m : Entries α) :
    mapValues f ((k, v) :: m) = (k, f k v) :: mapValues f m := rfl

theorem mapValues_congr {β : Type} {f g : String → α → β} {m : Entries α}
    (h : ∀ k v, (k, v) ∈ m → f k v = g k v) : mapValues f m = mapValues g m :=
  List.map_congr_left fun e he => congrArg (Prod.mk e.1) (h e.1 e.2 he)

theorem mapValues_mapValues {β γ : Type} (g : String → β → γ) (f : String → α → β)
    (m : Entries α) : mapValues g (mapValues f m) = mapValues (fun k v => g k (f k v)) m := by
  rw [mapValues, mapValues, List.map_map]
  rfl

theorem mapValues_eq_self {f : String → α → α} {m : Entries α}
    (h : ∀ k v, (k, v) ∈ m → f k v = v) : mapValues f m = m :=
  (mapValues_congr h).trans (List.map_id m)

/-- Giving a key that is there another value changes that value. -/
theorem insert_eq_mapValues {m : Entries α} {k : String} (v : α) (hk : k ∈ m.keys)
    (hnodup : m.keys.Nodup) :
    m.insert k v = mapValues (fun k' v' => if k' = k then v else v') m := by
  induction m with
  | nil => cases hk
  | cons e rest ih =>
    obtain ⟨k', v'⟩ := e
    obtain ⟨hnew, hrest⟩ := List.nodup_cons.1 hnodup
    rw [insert, mapValues_cons]
    by_cases h : k' = k
    · have hsame : mapValues (fun k' v' => if k' = k then v else v') rest = rest := by
        refine mapValues_eq_self fun k'' v'' he => if_neg fun e => hnew ?_
        rw [h, ← e]
        exact List.mem_map.2 ⟨_, he, rfl⟩
      rw [if_pos h, if_pos h, hsame]
    · rw [if_neg h, if_neg h, ih ((List.mem_cons.1 hk).resolve_left (Ne.symm h)) hrest]

/-- Giving a key the value that it has changes nothing. -/
theorem insert_eq_self {m : Entries α} {k : String} {v : α} (h : m.get? k = some v) :
    m.insert k v = m := by
  induction m with
  | nil => cases h
  | cons e rest ih =>
    obtain ⟨k', v'⟩ := e
    rw [get?_cons] at h
    rw [insert]
    by_cases hk : k' = k
    · rw [if_pos hk] at h ⊢
      cases h
      rfl
    · rw [if_neg hk] at h ⊢
      rw [ih h]

/-- Where each key stands once, the later of two maps goes first. -/
theorem get?_insertAll {m entries : Entries α} (distinct : entries.keys.Nodup) (k : String) :
    (insertAll m entries).get? k = (entries.get? k).or (m.get? k) := by
  induction entries generalizing m with
  | nil => rfl
  | cons e rest ih =>
    obtain ⟨k', v⟩ := e
    obtain ⟨hk, hrest⟩ := List.nodup_cons.1 distinct
    rw [show insertAll m ((k', v) :: rest) = insertAll (m.insert k' v) rest from rfl, ih hrest,
      lookup_insert, get?_cons]
    by_cases h : k' = k
    · subst h
      rw [get?_eq_none hk, if_pos rfl, if_pos rfl]
      rfl
    · rw [if_neg h, if_neg h]

/-- A new key is put at the end. -/
theorem insert_of_not_mem {m : Entries α} {k : String} (v : α) (h : k ∉ m.keys) :
    m.insert k v = m ++ [(k, v)] := by
  induction m with
  | nil => rfl
  | cons e rest ih =>
    obtain ⟨k', v'⟩ := e
    have hk : k' ≠ k := fun e => h (e ▸ List.mem_cons_self)
    rw [insert, if_neg hk, ih fun hr => h (List.mem_cons_of_mem _ hr)]
    rfl

/-- New keys, each once, are put at the end. -/
theorem insertAll_of_not_mem {m entries : Entries α} (distinct : entries.keys.Nodup)
    (new : ∀ k ∈ entries.keys, k ∉ m.keys) : insertAll m entries = m ++ entries := by
  induction entries generalizing m with
  | nil => exact (List.append_nil m).symm
  | cons e rest ih =>
    obtain ⟨k, v⟩ := e
    obtain ⟨hk, hrest⟩ := List.nodup_cons.1 distinct
    have first : insertAll m ((k, v) :: rest) = insertAll (m ++ [(k, v)]) rest :=
      congrArg (insertAll · rest) (insert_of_not_mem v (new k List.mem_cons_self))
    rw [first, ih hrest, List.append_assoc, List.singleton_append]
    intro k' hk' hmem
    rw [keys, List.map_append, List.mem_append] at hmem
    rcases hmem with hmem | hmem
    · exact new k' (List.mem_cons_of_mem _ hk') hmem
    · exact hk (List.mem_singleton.1 hmem ▸ hk')

/-- Entries with a key each are a map. -/
theorem ofList_eq_self {entries : Entries α} (h : entries.keys.Nodup) : ofList entries = entries :=
  insertAll_of_not_mem h fun _ _ => List.not_mem_nil

end GraphqlCypher.Entries
