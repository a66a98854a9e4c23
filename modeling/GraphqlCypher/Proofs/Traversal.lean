import Mathlib.Data.List.Forall2

/-! Lists worked through by what may fail: the whole succeeds just when every element
does, and its value holds the value of each. -/
namespace GraphqlCypher

variable {α β ε : Type} {f : α → Except ε β} {l : List α} {ys : List β}

theorem ok_of_isOk {e : Except ε α} (h : e.isOk = true) : ∃ a, e = .ok a := by
  cases e with
  | error f => cases h
  | ok a => exact ⟨a, rfl⟩

theorem ok_of_bind {e : Except ε α} {g : α → Except ε β} {b : β} (h : (e >>= g) = .ok b) :
    ∃ a, e = .ok a ∧ g a = .ok b := by
  cases e with
  | error f => cases h
  | ok a => exact ⟨a, rfl, h⟩

theorem ok_of_map {e : Except ε α} {g : α → β} {b : β} (h : e.map g = .ok b) :
    ∃ a, e = .ok a ∧ g a = b := by
  cases e with
  | error f => cases h
  | ok a =>
    cases h
    exact ⟨a, rfl, rfl⟩

theorem mapM_ok_iff : l.mapM f = .ok ys ↔ List.Forall₂ (fun x y => f x = .ok y) l ys := by
  induction l generalizing ys with
  | nil =>
    constructor
    · intro h
      cases h
      exact .nil
    · intro h
      cases h
      rfl
  | cons x xs ih =>
    rw [List.mapM_cons]
    constructor
    · intro h
      cases hx : f x with
      | error e =>
        rw [hx] at h
        cases h
      | ok y =>
        rw [hx] at h
        cases hxs : xs.mapM f with
        | error e =>
          rw [hxs] at h
          cases h
        | ok rest =>
          rw [hxs] at h
          cases h
          exact .cons hx (ih.1 hxs)
    · intro h
      cases h with
      | cons hx hxs =>
        rw [hx, ih.2 hxs]
        rfl

theorem exists_mapM_forall₂ {Q : α → β → Prop} (h : ∀ x ∈ l, ∃ y, f x = .ok y ∧ Q x y) :
    ∃ ys, l.mapM f = .ok ys ∧ List.Forall₂ Q l ys := by
  induction l with
  | nil => exact ⟨[], rfl, .nil⟩
  | cons x xs ih =>
    obtain ⟨y, hy, hxy⟩ := h x List.mem_cons_self
    obtain ⟨rest, hrest, each⟩ := ih fun x' hx => h x' (List.mem_cons_of_mem _ hx)
    exact ⟨y :: rest, mapM_ok_iff.2 (.cons hy (mapM_ok_iff.1 hrest)), .cons hxy each⟩

theorem exists_mapM_ok (h : ∀ x ∈ l, ∃ y, f x = .ok y) : ∃ ys, l.mapM f = .ok ys := by
  obtain ⟨ys, hys, -⟩ := exists_mapM_forall₂ fun x hx => (h x hx).imp fun y hy => ⟨hy, hy⟩
  exact ⟨ys, hys⟩

theorem mem_of_mapM_ok (h : l.mapM f = .ok ys) : ∀ y ∈ ys, ∃ x ∈ l, f x = .ok y := by
  have pointwise := mapM_ok_iff.1 h
  clear h
  induction pointwise with
  | nil => exact fun y hy => absurd hy List.not_mem_nil
  | cons head _ ih =>
    intro y hy
    rcases List.mem_cons.1 hy with rfl | hy
    · exact ⟨_, List.mem_cons_self, head⟩
    · obtain ⟨x, hx, hxy⟩ := ih y hy
      exact ⟨x, List.mem_cons_of_mem _ hx, hxy⟩

theorem exists_of_mapM_ok (h : l.mapM f = .ok ys) : ∀ x ∈ l, ∃ y ∈ ys, f x = .ok y := by
  have pointwise := mapM_ok_iff.1 h
  clear h
  induction pointwise with
  | nil => exact fun x hx => absurd hx List.not_mem_nil
  | cons head _ ih =>
    intro x hx
    rcases List.mem_cons.1 hx with rfl | hx
    · exact ⟨_, List.mem_cons_self, head⟩
    · obtain ⟨y, hy, hxy⟩ := ih x hx
      exact ⟨y, List.mem_cons_of_mem _ hy, hxy⟩

/-- Values that depend on their elements alone can be mapped instead. -/
theorem mapM_eq_map_of_ok {g : α → β} (hf : ∀ x y, f x = .ok y → y = g x)
    (h : l.mapM f = .ok ys) : ys = l.map g := by
  have pointwise := mapM_ok_iff.1 h
  clear h
  induction pointwise with
  | nil => rfl
  | cons head _ ih => rw [List.map_cons, ← hf _ _ head, ← ih]

theorem mapM_eq_self {f : α → Except ε α} (h : ∀ x ∈ l, f x = .ok x) : l.mapM f = .ok l :=
  mapM_ok_iff.2 (List.forall₂_same.2 h)

/-! ### Failures -/

theorem error_of_map {e : Except ε α} {g : α → β} {x : ε} (h : e.map g = .error x) :
    e = .error x := by
  cases e with
  | error x' =>
    cases h
    rfl
  | ok a => cases h

theorem error_of_bind {e : Except ε α} {g : α → Except ε β} {x : ε} (h : (e >>= g) = .error x) :
    e = .error x ∨ ∃ a, e = .ok a ∧ g a = .error x := by
  cases e with
  | error x' =>
    cases h
    exact .inl rfl
  | ok a => exact .inr ⟨a, rfl, h⟩

theorem exists_of_mapM_error {x : ε} (h : l.mapM f = .error x) : ∃ a ∈ l, f a = .error x := by
  induction l with
  | nil => cases h
  | cons a rest ih =>
    rw [List.mapM_cons] at h
    rcases error_of_bind h with h | ⟨b, -, h⟩
    · exact ⟨a, List.mem_cons_self, h⟩
    · rcases error_of_bind h with h | ⟨ys, -, h⟩
      · obtain ⟨a', ha', failed⟩ := ih h
        exact ⟨a', List.mem_cons_of_mem _ ha', failed⟩
      · cases h

/-- The first failure is that of the whole. -/
theorem mapM_error_of_append {before after : List α} {a : α} {x : ε}
    (hbefore : ∀ b ∈ before, ∃ y, f b = .ok y) (ha : f a = .error x) :
    (before ++ a :: after).mapM f = .error x := by
  induction before with
  | nil =>
    rw [List.nil_append, List.mapM_cons, ha]
    rfl
  | cons b rest ih =>
    obtain ⟨y, hy⟩ := hbefore b List.mem_cons_self
    rw [List.cons_append, List.mapM_cons, hy,
      show Except.ok y >>= _ = _ from rfl, ih fun b' hb => hbefore b' (List.mem_cons_of_mem _ hb)]
    rfl

theorem exists_of_foldlM_error {g : β → α → Except ε β} {b : β} {x : ε}
    (h : l.foldlM g b = .error x) : ∃ b', ∃ a ∈ l, g b' a = .error x := by
  induction l generalizing b with
  | nil => cases h
  | cons a rest ih =>
    rw [List.foldlM_cons] at h
    rcases error_of_bind h with h | ⟨b₁, -, h⟩
    · exact ⟨b, a, List.mem_cons_self, h⟩
    · obtain ⟨b', a', ha', failed⟩ := ih h
      exact ⟨b', a', List.mem_cons_of_mem _ ha', failed⟩

end GraphqlCypher
