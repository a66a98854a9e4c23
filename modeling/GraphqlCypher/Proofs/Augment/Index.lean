import GraphqlCypher.Proofs.Augment.Places
import GraphqlCypher.Proofs.Augment.Prepared

/-! The index of types through an augmentation.

An index is made once, before the document is edited, and it is used until the edits are done.
`TypeIndex.Fits` says which places it has to hold for a document. No step of an augmentation moves
an object type, renames one or marks one, and the object types that are put at the end are
unmarked roots, which the index leaves out. So one index fits the document, what is prepared of it
and what it becomes (`Document.index_augment`). -/
namespace GraphqlCypher.Schema

/-! ### The first of each key -/

section

variable {α : Type} {key : α → String}

/-- Which keys are taken matters, and not in what order. -/
theorem freshBy_congr {taken taken' : List String} (h : ∀ k, k ∈ taken ↔ k ∈ taken')
    (items : List α) : freshBy key taken items = freshBy key taken' items := by
  induction items generalizing taken taken' with
  | nil => rfl
  | cons a rest ih =>
    have hcontains : taken.contains (key a) = taken'.contains (key a) := by
      rw [Bool.eq_iff_iff, List.contains_iff_mem, List.contains_iff_mem, h]
    have hmore : ∀ k, k ∈ key a :: taken ↔ k ∈ key a :: taken' := fun k => by
      rw [List.mem_cons, List.mem_cons, h]
    rw [freshBy, freshBy, hcontains, ih h, ih hmore]

theorem freshBy_sublist (taken : List String) (items : List α) :
    (freshBy key taken items).Sublist items := by
  induction items generalizing taken with
  | nil => exact .slnil
  | cons a rest ih =>
    rw [freshBy]
    split
    · exact (ih _).cons a
    · exact (ih _).cons_cons a

/-- What is the first of its key stands at the head, or further on behind a head of another key. -/
theorem exists_before_cons_iff {a b : α} {rest : List α} :
    (∃ before after, b :: rest = before ++ a :: after ∧ ∀ x ∈ before, key x ≠ key a) ↔
      b = a ∨ key b ≠ key a ∧
        ∃ before after, rest = before ++ a :: after ∧ ∀ x ∈ before, key x ≠ key a := by
  constructor
  · rintro ⟨before, after, hsplit, hbefore⟩
    cases before with
    | nil => exact .inl (List.cons.inj hsplit).1
    | cons x before =>
      obtain ⟨rfl, hrest⟩ := List.cons.inj hsplit
      exact .inr ⟨hbefore b (.head _), before, after, hrest, fun y hy => hbefore y (.tail _ hy)⟩
  · rintro (rfl | ⟨hb, before, after, rfl, hbefore⟩)
    · exact ⟨[], rest, rfl, fun _ hx => absurd hx List.not_mem_nil⟩
    · refine ⟨b :: before, after, rfl, fun x hx => ?_⟩
      rcases List.mem_cons.1 hx with rfl | hx
      · exact hb
      · exact hbefore x hx

/-- An item stays if its key is free and no item before it has the same. -/
theorem mem_freshBy_iff {taken : List String} {items : List α} {a : α} :
    a ∈ freshBy key taken items ↔ key a ∉ taken ∧
      ∃ before after, items = before ++ a :: after ∧ ∀ b ∈ before, key b ≠ key a := by
  induction items generalizing taken with
  | nil => simp [freshBy]
  | cons b rest ih =>
    rw [freshBy, exists_before_cons_iff]
    split
    · next htaken =>
      rw [List.contains_iff_mem] at htaken
      rw [ih]
      refine and_congr_right fun hfree => ?_
      have hne : key b ≠ key a := fun e => hfree (e ▸ htaken)
      constructor
      · exact fun h => .inr ⟨hne, h⟩
      · rintro (rfl | h)
        · exact absurd rfl hne
        · exact h.2
    · next hfresh =>
      rw [List.contains_iff_mem] at hfresh
      rw [List.mem_cons, ih, List.mem_cons, not_or]
      constructor
      · rintro (rfl | ⟨⟨hne, hfree⟩, h⟩)
        · exact ⟨hfresh, .inl rfl⟩
        · exact ⟨hfree, .inr ⟨fun e => hne e.symm, h⟩⟩
      · rintro ⟨hfree, rfl | ⟨hne, h⟩⟩
        · exact .inl rfl
        · exact .inr ⟨⟨fun e => hne e.symm, hfree⟩, h⟩

/-- In a list that is in order, what stands before an item is what has a smaller place. -/
theorem mem_before_iff {l before after : List (Nat × α)} {a b : Nat × α}
    (hsorted : l.Pairwise fun p q => p.1 < q.1) (hsplit : l = before ++ a :: after) :
    b ∈ before ↔ b ∈ l ∧ b.1 < a.1 := by
  subst hsplit
  obtain ⟨-, hafter, hbefore⟩ := List.pairwise_append.1 hsorted
  rw [List.mem_append, List.mem_cons]
  constructor
  · exact fun h => ⟨.inl h, hbefore b h a (.head after)⟩
  · rintro ⟨h | rfl | h, hlt⟩
    · exact h
    · exact absurd hlt (Nat.lt_irrefl _)
    · exact absurd hlt (Nat.lt_asymm (List.rel_of_pairwise_cons hafter h))

end

/-! ### What an index holds -/

/-- Neither a model nor a root. -/
def ObjectType.isPlain (t : ObjectType) : Bool := !t.isModel && !TypeIndex.isRoot t.name

theorem ObjectType.isPlain_iff {t : ObjectType} :
    t.isPlain = true ↔ t.isModel = false ∧ TypeIndex.isRoot t.name = false := by
  rw [isPlain, Bool.and_eq_true, Bool.not_eq_true', Bool.not_eq_true']

/-- The object types that are neither models nor roots, in order and with their places. -/
def Document.placedPlain (d : Document) : List (Nat × ObjectType) :=
  d.placedObjects.filter (·.2.isPlain)

theorem Document.mem_placedPlain {d : Document} {i : Nat} {t : ObjectType} :
    (i, t) ∈ d.placedPlain ↔
      d.objectAt? i = some t ∧ t.isModel = false ∧ TypeIndex.isRoot t.name = false := by
  rw [placedPlain, List.mem_filter, mem_placedObjects, ObjectType.isPlain_iff]

namespace TypeIndex

/-- An index holds the places of a document's types: every marked object type is a model, and of
the others, the roots apart, the first of each name is plain. Both stand in the order of the
document. -/
structure Fits (x : TypeIndex) (d : Document) : Prop where
  models : ∀ n i, (n, i) ∈ x.models ↔
    ∃ t, d.objectAt? i = some t ∧ t.name = n ∧ t.isModel = true
  plain : ∀ n i, (n, i) ∈ x.plain ↔
    (∃ t, d.objectAt? i = some t ∧ t.name = n ∧ t.isModel = false) ∧
      n ≠ Names.query ∧ n ≠ Names.mutation ∧
      ∀ j t, j < i → d.objectAt? j = some t → t.isModel = false → t.name ≠ n
  modelsAscend : x.models.Pairwise fun p q => p.2 < q.2
  plainAscend : x.plain.Pairwise fun p q => p.2 < q.2

theorem isRoot_eq_false_iff {n : String} :
    isRoot n = false ↔ n ≠ Names.query ∧ n ≠ Names.mutation := by
  rw [isRoot, Bool.or_eq_false_iff, beq_eq_false_iff_ne, beq_eq_false_iff_ne]

/-- Adding an object type puts it behind the plain ones, if it is plain and its name is new. -/
theorem plain_add {x y : TypeIndex} {p : Nat × ObjectType} (h : add x p = .ok y) :
    (p.2.isPlain = true ∧ p.2.name ∉ x.plain.keys ∧ y.plain = x.plain ++ [(p.2.name, p.1)]) ∨
      (p.2.isPlain = true → p.2.name ∈ x.plain.keys) ∧ y.plain = x.plain := by
  unfold add at h
  simp only at h
  rw [ObjectType.isPlain_iff, ← Entries.contains_iff_mem_keys]
  split at h
  · next hmodel =>
    split at h
    · cases h
    · cases h
      exact .inr ⟨fun hplain => absurd hmodel (by rw [hplain.1]; decide), rfl⟩
  · next hmodel =>
    rw [Bool.not_eq_true] at hmodel
    split at h
    · next hskip =>
      cases h
      rw [Bool.or_eq_true] at hskip
      exact .inr ⟨fun hplain => hskip.resolve_left (by rw [hplain.2]; decide), rfl⟩
    · next hnew =>
      cases h
      rw [Bool.or_eq_true, not_or, Bool.not_eq_true] at hnew
      exact .inl ⟨⟨hmodel, hnew.1⟩, hnew.2, rfl⟩

/-- Indexing takes of the plain types the first of each new name. -/
theorem plain_foldlM_add {placed : List (Nat × ObjectType)} {x y : TypeIndex}
    (h : placed.foldlM add x = .ok y) :
    y.plain = x.plain ++ (freshBy (·.2.name) x.plain.keys (placed.filter (·.2.isPlain))).map
      fun p => (p.2.name, p.1) := by
  induction placed generalizing x with
  | nil =>
    cases h
    exact (List.append_nil _).symm
  | cons p rest ih =>
    rw [List.foldlM_cons] at h
    cases hp : add x p with
    | error e =>
      rw [hp] at h
      cases h
    | ok x' =>
      rw [hp] at h
      rw [ih h]
      rcases plain_add hp with ⟨hplain, hnew, hx'⟩ | ⟨htaken, hx'⟩
      · have hsame : ∀ k, k ∈ Entries.keys (x.plain ++ [(p.2.name, p.1)]) ↔
            k ∈ p.2.name :: x.plain.keys := fun k => by
          simp [Entries.keys, or_comm]
        rw [List.filter_cons_of_pos (by exact hplain), freshBy,
          if_neg (by rwa [List.contains_iff_mem]), hx', freshBy_congr hsame, List.map_cons,
          List.append_assoc, List.singleton_append]
      · rw [hx']
        by_cases hplain : p.2.isPlain = true
        · rw [List.filter_cons_of_pos (by exact hplain), freshBy,
            if_pos (List.contains_iff_mem.2 (htaken hplain))]
        · rw [List.filter_cons_of_neg (by exact hplain)]

variable {d : Document} {x : TypeIndex} (h : ofDocument d = .ok x)
include h

theorem plain_eq :
    x.plain = (freshBy (·.2.name) [] d.placedPlain).map fun p => (p.2.name, p.1) :=
  plain_foldlM_add h

theorem mem_plain_iff {n : String} {i : Nat} : (n, i) ∈ x.plain ↔
    (∃ t, d.objectAt? i = some t ∧ t.name = n ∧ t.isModel = false) ∧
      n ≠ Names.query ∧ n ≠ Names.mutation ∧
      ∀ j t, j < i → d.objectAt? j = some t → t.isModel = false → t.name ≠ n := by
  have hsorted : d.placedPlain.Pairwise fun p q => p.1 < q.1 := d.pairwise_placedObjects.filter _
  rw [plain_eq h, List.mem_map]
  constructor
  · rintro ⟨⟨i, t⟩, hmem, e⟩
    cases e
    obtain ⟨-, before, after, hsplit, hbefore⟩ := mem_freshBy_iff.1 hmem
    obtain ⟨ht, hplain, hroot⟩ :=
      Document.mem_placedPlain.1 (hsplit ▸ List.mem_append_right before (.head after))
    obtain ⟨hquery, hmutation⟩ := isRoot_eq_false_iff.1 hroot
    refine ⟨⟨t, ht, rfl, hplain⟩, hquery, hmutation, fun j u hj hu hplain' e => ?_⟩
    -- an earlier type of the name would stand in front of this one
    have hu' : (j, u) ∈ d.placedPlain := Document.mem_placedPlain.2 ⟨hu, hplain', e ▸ hroot⟩
    exact hbefore _ ((mem_before_iff hsorted hsplit).2 ⟨hu', hj⟩) e
  · rintro ⟨⟨t, ht, rfl, hplain⟩, hquery, hmutation, hfirst⟩
    have hmem := Document.mem_placedPlain.2
      ⟨ht, hplain, isRoot_eq_false_iff.2 ⟨hquery, hmutation⟩⟩
    obtain ⟨before, after, hsplit⟩ := List.append_of_mem hmem
    refine ⟨(i, t), mem_freshBy_iff.2 ⟨List.not_mem_nil, before, after, hsplit, ?_⟩, rfl⟩
    rintro ⟨j, u⟩ hu
    obtain ⟨hmem', hj⟩ := (mem_before_iff hsorted hsplit).1 hu
    obtain ⟨hu', hplain', -⟩ := Document.mem_placedPlain.1 hmem'
    exact hfirst j u hj hu' hplain'

/-- **An index fits the document that it is made from.** -/
theorem fits_of_ofDocument : x.Fits d where
  models n i := by
    simp only [models_eq h, List.mem_map, Prod.mk.injEq, Prod.exists, Document.mem_placedModels]
    constructor
    · rintro ⟨j, t, ⟨ht, hmodel⟩, rfl, rfl⟩
      exact ⟨t, ht, rfl, hmodel⟩
    · rintro ⟨t, ht, rfl, hmodel⟩
      exact ⟨i, t, ⟨ht, hmodel⟩, rfl, rfl⟩
  plain n i := mem_plain_iff h
  modelsAscend := by
    rw [models_eq h, List.pairwise_map]
    exact d.pairwise_placedObjects.filter _
  plainAscend := by
    rw [plain_eq h, List.pairwise_map]
    exact (d.pairwise_placedObjects.filter _).sublist (freshBy_sublist _ _)

end TypeIndex

/-! ### Through an augmentation -/

namespace Document

variable {o : AugmentOptions} {d d' : Document} {x : TypeIndex}

/-- A document without models is in normal form. -/
theorem normalize_of_models_nil (h : d.models = []) : d.normalize o = .ok d :=
  normalize_eq_self fun t ht => by
    rw [h] at ht
    cases ht

theorem ofDocument_augment (h : d.augment o = .ok d') :
    TypeIndex.ofDocument d' = TypeIndex.ofDocument d := by
  rcases prepares_of_augment h with ⟨-, rfl⟩ | ⟨S, hS, rfl⟩
  · rfl
  · rw [TypeIndex.ofDocument_extend, ofDocument_prepared hS.normalized]

/-- What can be augmented can be prepared. -/
theorem exists_prepared (h : d.augment o = .ok d') :
    ∃ prepared, (d.scaffold o).normalize o = .ok prepared := by
  rcases prepares_of_augment h with ⟨hnone, -⟩ | ⟨S, hS, -⟩
  · refine ⟨_, normalize_of_models_nil ?_⟩
    rw [models, placedModels_scaffold]
    exact hnone
  · exact ⟨S.document, hS.normalized⟩

/-- **The index stays good**: the index of a document is the index of what is prepared of it and
the index of the augmented document, and it fits all three. -/
theorem index_augment (hx : TypeIndex.ofDocument d = .ok x) (h : d.augment o = .ok d') :
    x.Fits d ∧
    (∃ prepared, (d.scaffold o).normalize o = .ok prepared ∧
      TypeIndex.ofDocument prepared = .ok x ∧ x.Fits prepared) ∧
    TypeIndex.ofDocument d' = .ok x ∧ x.Fits d' := by
  obtain ⟨prepared, hprepared⟩ := exists_prepared h
  have hxp : TypeIndex.ofDocument prepared = .ok x := (ofDocument_prepared hprepared).trans hx
  have hxd : TypeIndex.ofDocument d' = .ok x := (ofDocument_augment h).trans hx
  exact ⟨TypeIndex.fits_of_ofDocument hx,
    ⟨prepared, hprepared, hxp, TypeIndex.fits_of_ofDocument hxp⟩,
    hxd, TypeIndex.fits_of_ofDocument hxd⟩

/-- Badges of which there are two, a root between models, and an enum that is named like one. -/
def decorated : Document :=
  [.type (.object { name := "Badge", fields := [{ name := "label", type := .named "String" }] }),
   .type (.object {
     name := "Person"
     directives := [Directive.bare Names.model]
     fields := [
       { name := "name", type := .named "String" },
       { name := "badge", type := .named "Badge" }] }),
   .type (.object {
     name := Names.query, fields := [{ name := "version", type := .named "String" }] }),
   .type (.object { name := "Badge", fields := [{ name := "color", type := .named "String" }] }),
   .type (.enum { name := "Person", values := [{ name := "ADA" }] }),
   .type (.object {
     name := "Pet"
     directives := [Directive.bare Names.model]
     fields := [{ name := "owner", type := .named "Person" }] })]

theorem index_augment_decorated : ∃ x d',
    TypeIndex.ofDocument decorated = .ok x ∧ decorated.augment {} = .ok d' ∧
    x.models = [("Person", 1), ("Pet", 5)] ∧ x.plain = [("Badge", 0)] ∧
    TypeIndex.ofDocument d' = .ok x ∧ x.Fits d' := by
  have hx : TypeIndex.ofDocument decorated = .ok ⟨[("Person", 1), ("Pet", 5)], [("Badge", 0)]⟩ :=
    rfl
  have h : decorated.augment {} = .ok _ := rfl
  obtain ⟨-, -, hindex⟩ := index_augment hx h
  exact ⟨_, _, hx, h, rfl, rfl, hindex⟩

end Document

end GraphqlCypher.Schema
