import GraphqlCypher.Mutation.Walk
import Mathlib.Data.List.Forall2

/-! How walks run.

`Ends m s a t` says that a walk that starts in the state `s` gives `a` and stops in
the state `t`. For each way to put walks together there is one equation that says when
the whole ends, so that nothing else opens the monad.

A walk is `Exact` if it ends just when a condition holds. The condition of a
composition is the conjunction of the conditions of its parts, provided that what the
first part gives always leads to the same second condition. -/
namespace GraphqlCypher

namespace WalkM

variable {α β : Type}

/-- A walk that starts in a state gives a value and stops in another state. -/
def Ends (m : WalkM α) (s : WalkState) (a : α) (t : WalkState) : Prop :=
  m.run.run s = (.ok a, t)

theorem ends_pure (a b : α) (s t : WalkState) :
    Ends (pure a : WalkM α) s b t ↔ b = a ∧ t = s := by
  constructor
  · intro h
    cases h
    exact ⟨rfl, rfl⟩
  · intro h
    obtain ⟨rfl, rfl⟩ := h
    rfl

theorem run_bind (m : WalkM α) (f : α → WalkM β) (s : WalkState) :
    (m >>= f).run.run s =
      match m.run.run s with
      | (.ok a, t) => (f a).run.run t
      | (.error e, t) => (.error e, t) := by
  show (ExceptT.run m >>= ExceptT.bindCont f) s = _
  show (match ExceptT.run m s with | (r, t) => ExceptT.bindCont f r t) = _
  rcases h : m.run.run s with ⟨_ | a, t⟩
  · have h' : ExceptT.run m s = (.error _, t) := h
    rw [h']
    rfl
  · have h' : ExceptT.run m s = (.ok a, t) := h
    rw [h']
    rfl

theorem ends_bind (m : WalkM α) (f : α → WalkM β) (s u : WalkState) (b : β) :
    Ends (m >>= f) s b u ↔ ∃ a t, Ends m s a t ∧ Ends (f a) t b u := by
  unfold Ends
  rw [run_bind]
  constructor
  · rcases m.run.run s with ⟨_ | a, t⟩
    · intro h
      cases h
    · intro h
      exact ⟨a, t, rfl, h⟩
  · intro h
    obtain ⟨a, t, hm, hf⟩ := h
    rw [hm]
    exact hf

theorem not_ends_throw (e : Failure) (s t : WalkState) (a : α) :
    ¬ Ends (throw e : WalkM α) s a t := by
  intro h
  cases h

theorem ends_get (s t a : WalkState) : Ends (get : WalkM WalkState) s a t ↔ a = s ∧ t = s :=
  ends_pure s a s t

theorem ends_set (s t s' : WalkState) (a : PUnit) :
    Ends (set s' : WalkM PUnit) s a t ↔ t = s' := by
  constructor
  · intro h
    cases h
    rfl
  · intro h
    subst h
    rfl

theorem ends_modify (f : WalkState → WalkState) (s t : WalkState) (a : PUnit) :
    Ends (modify f : WalkM PUnit) s a t ↔ t = f s := by
  constructor
  · intro h
    cases h
    rfl
  · intro h
    subst h
    rfl

/-- What needs no state ends if it has a value. -/
theorem ends_lift (e : Except Failure α) (s t : WalkState) (a : α) :
    Ends (ExceptT.mk (pure e) : WalkM α) s a t ↔ e = .ok a ∧ t = s := by
  constructor
  · intro h
    cases h
    exact ⟨rfl, rfl⟩
  · intro h
    obtain ⟨rfl, rfl⟩ := h
    rfl

/-! ### Lists -/

/-- A list is worked through: each element starts where the one before it stopped. -/
inductive Threads (R : α → WalkState → β → WalkState → Prop) :
    List α → WalkState → List β → WalkState → Prop where
  | nil (s : WalkState) : Threads R [] s [] s
  | cons {x : α} {xs : List α} {y : β} {ys : List β} {s t u : WalkState}
      (head : R x s y t) (tail : Threads R xs t ys u) : Threads R (x :: xs) s (y :: ys) u

theorem ends_mapM (f : α → WalkM β) (l : List α) (s t : WalkState) (ys : List β) :
    Ends (l.mapM f) s ys t ↔ Threads (fun x s y t => Ends (f x) s y t) l s ys t := by
  induction l generalizing s ys with
  | nil =>
    rw [List.mapM_nil, ends_pure]
    constructor
    · intro h
      obtain ⟨rfl, rfl⟩ := h
      exact .nil t
    · intro h
      cases h
      exact ⟨rfl, rfl⟩
  | cons x xs ih =>
    simp only [List.mapM_cons, ends_bind, ends_pure]
    constructor
    · intro h
      obtain ⟨y, _, hy, ys', _, hys, rfl, rfl⟩ := h
      exact .cons hy ((ih _ _).1 hys)
    · intro h
      cases h with
      | cons hy hys => exact ⟨_, _, hy, _, _, (ih _ _).2 hys, rfl, rfl⟩

/-- What relates each element to its value relates the two lists. -/
theorem Threads.forall₂ {R : α → WalkState → β → WalkState → Prop} {Q : α → β → Prop}
    {l : List α} {s t : WalkState} {ys : List β} (h : Threads R l s ys t)
    (imp : ∀ x ∈ l, ∀ s y t, R x s y t → Q x y) : List.Forall₂ Q l ys := by
  induction h with
  | nil => exact .nil
  | cons head _ ih =>
    refine .cons (imp _ (by simp) _ _ _ head) (ih ?_)
    intro x hx
    exact imp x (List.mem_cons_of_mem _ hx)

/-- Every value is that of some element. -/
theorem Threads.exists_of_mem {R : α → WalkState → β → WalkState → Prop} {l : List α}
    {s t : WalkState} {ys : List β} (h : Threads R l s ys t) :
    ∀ y ∈ ys, ∃ x ∈ l, ∃ s t, R x s y t := by
  induction h with
  | nil => exact fun y hy => absurd hy List.not_mem_nil
  | cons head _ ih =>
    intro y hy
    rcases List.mem_cons.1 hy with rfl | hy
    · exact ⟨_, List.mem_cons_self, _, _, head⟩
    · obtain ⟨x, hx, run⟩ := ih y hy
      exact ⟨x, List.mem_cons_of_mem _ hx, run⟩

/-- Every element has a run. -/
theorem Threads.exists_run {R : α → WalkState → β → WalkState → Prop} {l : List α}
    {s t : WalkState} {ys : List β} (h : Threads R l s ys t) : ∀ x ∈ l, ∃ s y t, R x s y t := by
  induction h with
  | nil => exact fun x hx => absurd hx List.not_mem_nil
  | cons head _ ih =>
    intro x hx
    rcases List.mem_cons.1 hx with rfl | hx
    · exact ⟨_, _, _, head⟩
    · exact ih x hx

theorem Threads.imp {R R' : α → WalkState → β → WalkState → Prop} {l : List α} {s t : WalkState}
    {ys : List β} (h : Threads R l s ys t) (imp : ∀ x s y t, R x s y t → R' x s y t) :
    Threads R' l s ys t := by
  induction h with
  | nil => exact .nil _
  | cons head _ ih => exact .cons (imp _ _ _ _ head) ih

theorem Threads.append {R : α → WalkState → β → WalkState → Prop} {l l' : List α}
    {s t u : WalkState} {ys ys' : List β} (h : Threads R l s ys t) (h' : Threads R l' t ys' u) :
    Threads R (l ++ l') s (ys ++ ys') u := by
  induction h with
  | nil => exact h'
  | cons head _ ih => exact .cons head (ih h')

/-- Lists that are worked through for each element make up one list. -/
theorem Threads.flatMap {γ δ : Type} {R : α → WalkState → β → WalkState → Prop}
    {R' : γ → WalkState → δ → WalkState → Prop} {f : α → List γ} {g : β → List δ} {l : List α}
    {s t : WalkState} {ys : List β} (h : Threads R l s ys t)
    (each : ∀ x s y t, R x s y t → Threads R' (f x) s (g y) t) :
    Threads R' (l.flatMap f) s (ys.flatMap g) t := by
  induction h with
  | nil => exact .nil _
  | cons head _ ih => exact (each _ _ _ _ head).append ih

/-- Numbered elements give values of the same numbers. -/
theorem Threads.zipIdx {R : α × Nat → WalkState → β → WalkState → Prop}
    {l : List α} {n : Nat} {s t : WalkState} {ys : List β} (h : Threads R (l.zipIdx n) s ys t) :
    Threads (fun x s y t => R x s y.1 t ∧ y.2 = x.2) (l.zipIdx n) s (ys.zipIdx n) t := by
  induction l generalizing n s ys with
  | nil =>
    cases h
    exact .nil _
  | cons x xs ih =>
    cases h with
    | cons head tail => exact .cons ⟨head, rfl⟩ (ih tail)

/-! ### Exact walks -/

/-- A walk ends just when a condition holds, in every state with an invariant. It keeps
the invariant, and what it gives satisfies a postcondition. -/
structure Exact (inv : WalkState → Prop) (m : WalkM α) (cond : Prop) (post : α → Prop) :
    Prop where
  ends : cond → ∀ s, inv s → ∃ a t, Ends m s a t
  sound : ∀ s a t, inv s → Ends m s a t → cond ∧ inv t ∧ post a

variable {inv : WalkState → Prop} {m : WalkM α} {cond cond' : Prop} {post : α → Prop}

theorem exact_pure (a : α) (h : post a) : Exact inv (pure a) True post where
  ends := fun _ s _ => ⟨a, s, (ends_pure a a s s).2 ⟨rfl, rfl⟩⟩
  sound s b t hs hb := by
    obtain ⟨rfl, rfl⟩ := (ends_pure a b s t).1 hb
    exact ⟨trivial, hs, h⟩

theorem exact_throw (e : Failure) : Exact inv (throw e) False post where
  ends := False.elim
  sound s a t _ h := absurd h (not_ends_throw e s t a)

theorem exact_lift (e : Except Failure α) (h : ∀ a, e = .ok a → post a) :
    Exact inv (ExceptT.mk (pure e)) (∃ a, e = .ok a) post where
  ends := by
    intro h s _
    obtain ⟨a, ha⟩ := h
    exact ⟨a, s, (ends_lift e s s a).2 ⟨ha, rfl⟩⟩
  sound s a t hs ha := by
    obtain ⟨he, rfl⟩ := (ends_lift e s t a).1 ha
    exact ⟨⟨a, he⟩, hs, h a he⟩

theorem exact_get : Exact inv (get : WalkM WalkState) True inv where
  ends := fun _ s _ => ⟨s, s, (ends_get s s s).2 ⟨rfl, rfl⟩⟩
  sound s a t hs ha := by
    obtain ⟨rfl, rfl⟩ := (ends_get s t a).1 ha
    exact ⟨trivial, hs, hs⟩

theorem exact_set {s' : WalkState} (h : inv s') : Exact inv (set s') True fun _ => True where
  ends := fun _ s _ => ⟨⟨⟩, s', (ends_set s s' s' ⟨⟩).2 rfl⟩
  sound s a t hs ha := by
    obtain rfl := (ends_set s t s' a).1 ha
    exact ⟨trivial, h, trivial⟩

theorem exact_modify {f : WalkState → WalkState} (h : ∀ s, inv s → inv (f s)) :
    Exact inv (modify f) True fun _ => True where
  ends := fun _ s _ => ⟨⟨⟩, f s, (ends_modify f s (f s) ⟨⟩).2 rfl⟩
  sound s a t hs ha := by
    obtain rfl := (ends_modify f s t a).1 ha
    exact ⟨trivial, h s hs, trivial⟩

namespace Exact

theorem congr (h : Exact inv m cond post) (hcond : cond ↔ cond') : Exact inv m cond' post :=
  propext hcond ▸ h

theorem weaken {post' : α → Prop} (h : Exact inv m cond post) (imp : ∀ a, post a → post' a) :
    Exact inv m cond post' where
  ends := h.ends
  sound s a t hs ha := by
    obtain ⟨hc, ht, hp⟩ := h.sound s a t hs ha
    exact ⟨hc, ht, imp a hp⟩

theorem bind {f : α → WalkM β} {post' : β → Prop} (h : Exact inv m cond post)
    (hf : ∀ a, post a → Exact inv (f a) cond' post') :
    Exact inv (m >>= f) (cond ∧ cond') post' where
  ends := by
    intro h s hs
    obtain ⟨hc, hc'⟩ := h
    obtain ⟨a, t, ha⟩ := h.ends hc s hs
    obtain ⟨_, ht, hp⟩ := h.sound s a t hs ha
    obtain ⟨b, u, hb⟩ := (hf a hp).ends hc' t ht
    exact ⟨b, u, (ends_bind m f s u b).2 ⟨a, t, ha, hb⟩⟩
  sound s b u hs hb := by
    obtain ⟨a, t, ha, hb⟩ := (ends_bind m f s u b).1 hb
    obtain ⟨hc, ht, hp⟩ := h.sound s a t hs ha
    obtain ⟨hc', hu, hp'⟩ := (hf a hp).sound t b u ht hb
    exact ⟨⟨hc, hc'⟩, hu, hp'⟩

/-- What never fails leaves the condition to what follows it. -/
theorem andThen {f : α → WalkM β} {post' : β → Prop} (h : Exact inv m True post)
    (hf : ∀ a, post a → Exact inv (f a) cond post') : Exact inv (m >>= f) cond post' :=
  (h.bind hf).congr (iff_of_eq (true_and cond))

/-- What a walk gives may be changed afterwards. -/
theorem map {post' : β → Prop} (h : Exact inv m cond post) (f : α → β)
    (imp : ∀ a, post a → post' (f a)) : Exact inv (m >>= fun a => pure (f a)) cond post' :=
  (h.bind fun a ha => exact_pure (f a) (imp a ha)).congr (iff_of_eq (and_true cond))

end Exact

theorem exact_mapM {f : α → WalkM β} {each : α → Prop} {post' : α → β → Prop} (l : List α)
    (h : ∀ x ∈ l, Exact inv (f x) (each x) (post' x)) :
    Exact inv (l.mapM f) (∀ x ∈ l, each x) (List.Forall₂ post' l) := by
  induction l with
  | nil =>
    rw [List.mapM_nil]
    exact (exact_pure [] .nil).congr (by simp)
  | cons x xs ih =>
    rw [List.mapM_cons]
    have tail := ih fun y hy => h y (List.mem_cons_of_mem _ hy)
    refine ((h x List.mem_cons_self).bind fun y hy => tail.map (y :: ·) fun ys hys => ?_).congr ?_
    · exact .cons hy hys
    · exact List.forall_mem_cons.symm

/-! ### Walks that fail -/

/-- A walk that starts in a state fails, and leaves another state behind. -/
def Fails (m : WalkM α) (s : WalkState) (e : Failure) (t : WalkState) : Prop :=
  m.run.run s = (.error e, t)

theorem not_fails_pure (a : α) (s t : WalkState) (e : Failure) : ¬ Fails (pure a) s e t := by
  intro h
  cases h

theorem fails_throw (e e' : Failure) (s t : WalkState) :
    Fails (throw e : WalkM α) s e' t ↔ e' = e ∧ t = s := by
  constructor
  · intro h
    cases h
    exact ⟨rfl, rfl⟩
  · intro h
    obtain ⟨rfl, rfl⟩ := h
    rfl

theorem not_fails_get (s t : WalkState) (e : Failure) : ¬ Fails get s e t := by
  intro h
  cases h

theorem not_fails_set (s t s' : WalkState) (e : Failure) : ¬ Fails (set s') s e t := by
  intro h
  cases h

theorem not_fails_modify (f : WalkState → WalkState) (s t : WalkState) (e : Failure) :
    ¬ Fails (modify f) s e t := by
  intro h
  cases h

theorem fails_lift (r : Except Failure α) (s t : WalkState) (e : Failure) :
    Fails (ExceptT.mk (pure r) : WalkM α) s e t ↔ r = .error e ∧ t = s := by
  constructor
  · intro h
    cases h
    exact ⟨rfl, rfl⟩
  · intro h
    obtain ⟨rfl, rfl⟩ := h
    rfl

/-- A sequence fails in its first part, or once that has ended. -/
theorem fails_bind (m : WalkM α) (f : α → WalkM β) (s u : WalkState) (e : Failure) :
    Fails (m >>= f) s e u ↔ Fails m s e u ∨ ∃ a t, Ends m s a t ∧ Fails (f a) t e u := by
  unfold Fails Ends
  rw [run_bind]
  constructor
  · rcases m.run.run s with ⟨e' | a, t⟩
    · intro h
      cases h
      exact .inl rfl
    · intro h
      exact .inr ⟨a, t, rfl, h⟩
  · intro h
    rcases h with hm | ⟨a, t, hm, h⟩
    · rw [hm]
    · rw [hm]
      exact h

/-- A list fails at one of its elements. -/
theorem exists_fails_of_mapM {f : α → WalkM β} {l : List α} {s u : WalkState} {e : Failure}
    (h : Fails (l.mapM f) s e u) : ∃ x ∈ l, ∃ t, Fails (f x) t e u := by
  induction l generalizing s with
  | nil =>
    rw [List.mapM_nil] at h
    exact absurd h (not_fails_pure _ _ _ _)
  | cons x xs ih =>
    simp only [List.mapM_cons, fails_bind] at h
    rcases h with h | ⟨y, t, -, h | ⟨ys, t', -, h⟩⟩
    · exact ⟨x, List.mem_cons_self, s, h⟩
    · obtain ⟨x', hx', t', h⟩ := ih h
      exact ⟨x', List.mem_cons_of_mem _ hx', t', h⟩
    · exact absurd h (not_fails_pure _ _ _ _)

end WalkM

end GraphqlCypher
