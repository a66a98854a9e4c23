import GraphqlCypher.Proofs.Augment.Roots

/-! The places of the roots.

The place of a root is recorded before a document is edited. It is the place of the last
object type of its name (`RootFields.place_eq_some_iff`), which an edit does not move and
an addition only if it declares that name (`isLast_append_left`). -/
namespace GraphqlCypher.Schema

namespace Document

/-- At a place stands the last object type of a name. -/
def IsLast (d : Document) (i : Nat) (name : String) : Prop :=
  (∃ t, d.objectAt? i = some t ∧ t.name = name) ∧
    ∀ j t, i < j → d.objectAt? j = some t → t.name ≠ name

theorem IsLast.eq_of_name {d : Document} {i : Nat} {name name' : String} (h : d.IsLast i name)
    (h' : d.IsLast i name') : name = name' := by
  obtain ⟨⟨t, ht, rfl⟩, -⟩ := h
  obtain ⟨⟨u, hu, rfl⟩, -⟩ := h'
  rw [ht] at hu
  cases hu
  rfl

/-- The places of the object types ascend. -/
theorem pairwise_placedObjects (d : Document) :
    d.placedObjects.Pairwise fun p q => p.1 < q.1 := by
  have hzip : d.zipIdx.Pairwise fun p q => p.2 < q.2 := by
    rw [← List.pairwise_map (f := Prod.snd) (R := (· < ·)), List.zipIdx_map_snd]
    exact List.pairwise_lt_range'
  unfold placedObjects
  rw [List.pairwise_filterMap]
  refine hzip.imp fun {p q} hpq a ha b hb => ?_
  obtain ⟨_, -, rfl⟩ := Option.map_eq_some_iff.1 ha
  obtain ⟨_, -, rfl⟩ := Option.map_eq_some_iff.1 hb
  exact hpq

theorem isLast_congr {d e : Document} {i : Nat} {name : String}
    (h : ∀ j, (e.objectAt? j).map ObjectType.name = (d.objectAt? j).map ObjectType.name) :
    e.IsLast i name ↔ d.IsLast i name := by
  have hname : ∀ j n, (∃ t, e.objectAt? j = some t ∧ t.name = n) ↔
      ∃ t, d.objectAt? j = some t ∧ t.name = n := by
    intro j n
    rw [← Option.map_eq_some_iff, h j, Option.map_eq_some_iff]
  unfold IsLast
  rw [hname i name]
  refine and_congr_right fun _ => ⟨fun hlater j t hj ht htn => ?_, fun hlater j t hj ht htn => ?_⟩
  · obtain ⟨u, hu, hun⟩ := (hname j name).2 ⟨t, ht, htn⟩
    exact hlater j u hj hu hun
  · obtain ⟨u, hu, hun⟩ := (hname j name).1 ⟨t, ht, htn⟩
    exact hlater j u hj hu hun

theorem objectAt?_append_right (d e : Document) (i : Nat) :
    (d ++ e).objectAt? (d.length + i) = e.objectAt? i := by
  unfold objectAt?
  rw [List.getElem?_append_right (Nat.le_add_right _ _), Nat.add_sub_cancel_left]

/-- What is added leaves the last object type of a name where it was, unless it has one
of that name itself. -/
theorem isLast_append_left {d e : Document} {i : Nat} {name : String} (hi : i < d.length) :
    (d ++ e).IsLast i name ↔ d.IsLast i name ∧ e.hasObject name = false := by
  have hleft : ∀ j, j < d.length → (d ++ e).objectAt? j = d.objectAt? j := by
    intro j hj
    unfold objectAt?
    rw [List.getElem?_append_left hj]
  unfold IsLast
  rw [hleft i hi, Bool.eq_false_iff, ne_eq, hasObject_iff]
  constructor
  · intro h
    refine ⟨⟨h.1, fun j t hj ht => h.2 j t hj (objectAt?_append_left e ht)⟩, ?_⟩
    rintro ⟨j, t, ht, hname⟩
    refine h.2 (d.length + j) t (by omega) ?_ hname
    rw [objectAt?_append_right, ht]
  · intro h
    obtain ⟨⟨hobject, hlater⟩, hnone⟩ := h
    refine ⟨hobject, fun j t hj ht hname => ?_⟩
    by_cases hjd : j < d.length
    · rw [hleft j hjd] at ht
      exact hlater j t hj ht hname
    · obtain ⟨k, rfl⟩ := Nat.exists_eq_add_of_le (Nat.le_of_not_lt hjd)
      rw [objectAt?_append_right] at ht
      exact hnone ⟨k, t, ht, hname⟩

theorem isLast_append_right {d e : Document} {i : Nat} {name : String} :
    (d ++ e).IsLast (d.length + i) name ↔ e.IsLast i name := by
  unfold IsLast
  rw [objectAt?_append_right]
  refine and_congr_right fun _ => ⟨fun hlater j t hj ht => ?_, fun hlater j t hj ht => ?_⟩
  · exact hlater (d.length + j) t (by omega) (by rw [objectAt?_append_right, ht])
  · obtain ⟨k, rfl⟩ := Nat.exists_eq_add_of_le (show d.length ≤ j by omega)
    rw [objectAt?_append_right] at ht
    exact hlater k t (by omega) ht

end Document

/-- The recorded place of a root is that of the last object type of its name. -/
theorem RootFields.place_eq_some_iff {d : Document} {root : String} {i : Nat} :
    (find? d root).map RootFields.place = some i ↔ d.IsLast i root := by
  have hplace : (find? d root).map RootFields.place =
      ((d.placedObjects.filter (·.2.name == root)).getLast?).map Prod.fst := by
    rw [find?_eq, Option.map_map]
    rfl
  have hmem : ∀ j t, (j, t) ∈ d.placedObjects.filter (·.2.name == root) ↔
      d.objectAt? j = some t ∧ t.name = root := by
    intro j t
    rw [List.mem_filter, Document.mem_placedObjects, beq_iff_eq]
  -- in ascending order nothing stands behind the last
  have hgreatest : ∀ p, (d.placedObjects.filter (·.2.name == root)).getLast? = some p →
      ∀ q ∈ d.placedObjects.filter (·.2.name == root), q.1 ≤ p.1 := by
    intro p hp q hq
    obtain ⟨before, hsplit⟩ := List.getLast?_eq_some_iff.1 hp
    have hsorted := d.pairwise_placedObjects.filter (·.2.name == root)
    rw [hsplit, List.pairwise_append] at hsorted
    rw [hsplit] at hq
    rcases List.mem_append.1 hq with hq | hq
    · exact Nat.le_of_lt (hsorted.2.2 q hq p List.mem_cons_self)
    · exact Nat.le_of_eq (by rw [List.mem_singleton.1 hq])
  rw [hplace]
  constructor
  · intro h
    obtain ⟨⟨j, t⟩, hlast, rfl⟩ := Option.map_eq_some_iff.1 h
    obtain ⟨ht, hname⟩ := (hmem j t).1 (List.mem_of_getLast? hlast)
    refine ⟨⟨t, ht, hname⟩, fun k u hk hu hun => ?_⟩
    have hle := hgreatest _ hlast (k, u) ((hmem k u).2 ⟨hu, hun⟩)
    exact absurd hk (Nat.not_lt.2 hle)
  · intro h
    obtain ⟨⟨t, ht, hname⟩, hlater⟩ := h
    have hin := (hmem i t).2 ⟨ht, hname⟩
    cases hlast : (d.placedObjects.filter (·.2.name == root)).getLast? with
    | none =>
      rw [List.getLast?_eq_none_iff] at hlast
      rw [hlast] at hin
      cases hin
    | some p =>
      obtain ⟨hp, hpn⟩ := (hmem p.1 p.2).1 (List.mem_of_getLast? hlast)
      have hle := hgreatest p hlast (i, t) hin
      have hge : ¬ i < p.1 := fun hlt => hlater p.1 p.2 hlt hp hpn
      rw [Option.map_some, Nat.le_antisymm (Nat.le_of_not_lt hge) hle]

end GraphqlCypher.Schema
