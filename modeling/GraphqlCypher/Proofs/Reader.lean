import GraphqlCypher.Reader

/-! What a reader can yield.

`p.Yields G P` says that `p`, when it reads a list whose elements all satisfy `G`,
returns only values that satisfy `P`. What a reader leaves is the end of its input
and so keeps `G`: that carries the property from one reader to the next, with one
lemma for each way to build a reader. -/
namespace GraphqlCypher

variable {τ ε α β σ : Type} {s t : Bool} {G : τ → Prop} {P : α → Prop} {Q : β → Prop}

/-- What holds of every element of the input holds of every element that is left. -/
theorem Reading.kept {input : List τ} (r : Reading τ s input α)
    (h : ∀ x ∈ input, G x) : ∀ x ∈ r.rest, G x := fun x hx => h x (r.suffix.subset hx)

namespace Reader

/-! ### Taking readings apart -/

theorem andThen_ok {p : Reader τ ε s α} {f : α → Reader τ ε t β} {input : List τ}
    {r : Reading τ (s || t) input β} (h : p.andThen f input = .ok r) :
    ∃ first later, p input = .ok first ∧ f first.value first.rest = .ok later ∧
      r.value = later.value ∧ r.rest = later.rest := by
  unfold andThen at h
  split at h
  · cases h
  · next first hfirst =>
    split at h
    · cases h
    · next later hlater =>
      cases h
      exact ⟨first, later, hfirst, hlater, rfl, rfl⟩

theorem map_ok {p : Reader τ ε s α} {f : α → β} {input : List τ} {r : Reading τ s input β}
    (h : p.map f input = .ok r) : ∃ read, p input = .ok read ∧ r.value = f read.value ∧
      r.rest = read.rest := by
  unfold map at h
  split at h
  · cases h
  · next read hread =>
    cases h
    exact ⟨read, hread, rfl, rfl⟩

theorem relax_ok {p : Reader τ ε s α} {input : List τ} {r : Reading τ false input α}
    (h : p.relax input = .ok r) : ∃ read, p input = .ok read ∧ r.value = read.value ∧
      r.rest = read.rest := by
  unfold relax at h
  split at h
  · cases h
  · next read hread =>
    cases h
    exact ⟨read, hread, rfl, rfl⟩

theorem foldWhile_ok {more : List τ → Bool} {step : σ → Reader τ ε true σ} {a : σ}
    {input : List τ} {r : Reading τ false input σ} (h : foldWhile more step a input = .ok r) :
    (more input = false ∧ r.value = a ∧ r.rest = input) ∨
      (more input = true ∧ ∃ first later, step a input = .ok first ∧
        foldWhile more step first.value first.rest = .ok later ∧
        r.value = later.value ∧ r.rest = later.rest) := by
  rw [foldWhile] at h
  split at h
  · next hmore =>
    split at h
    · cases h
    · next first hfirst =>
      split at h
      · cases h
      · next later hlater =>
        cases h
        exact .inr ⟨hmore, first, later, hfirst, hlater, rfl, rfl⟩
  · next hmore =>
    cases h
    exact .inl ⟨Bool.eq_false_iff.2 hmore, rfl, rfl⟩

/-! ### What is yielded -/

/-- Values read off elements that satisfy `G` satisfy `P`. -/
def Yields (p : Reader τ ε s α) (G : τ → Prop) (P : α → Prop) : Prop :=
  ∀ input r, (∀ x ∈ input, G x) → p input = .ok r → P r.value

theorem yields_done {a : α} (h : P a) : (done a : Reader τ ε false α).Yields G P := by
  intro input r _ hr
  obtain rfl := Except.ok.inj hr
  exact h

theorem yields_refuse (e : List τ → ε) : (refuse e : Reader τ ε s α).Yields G P := by
  intro input r _ hr
  cases hr

namespace Yields

theorem andThen {p : Reader τ ε s α} {f : α → Reader τ ε t β} (hp : p.Yields G P)
    (hf : ∀ a, P a → (f a).Yields G Q) : (p.andThen f).Yields G Q := by
  intro input r hin hr
  obtain ⟨first, later, hfirst, hlater, hvalue, -⟩ := andThen_ok hr
  rw [hvalue]
  exact hf _ (hp _ _ hin hfirst) _ _ (first.kept hin) hlater

theorem map {p : Reader τ ε s α} {f : α → β} (hp : p.Yields G P) (hf : ∀ a, P a → Q (f a)) :
    (p.map f).Yields G Q := by
  intro input r hin hr
  obtain ⟨read, hread, hvalue, -⟩ := map_ok hr
  rw [hvalue]
  exact hf _ (hp _ _ hin hread)

theorem relax {p : Reader τ ε s α} (hp : p.Yields G P) : p.relax.Yields G P := by
  intro input r hin hr
  obtain ⟨read, hread, hvalue, -⟩ := relax_ok hr
  rw [hvalue]
  exact hp _ _ hin hread

end Yields

theorem yields_look {f : List τ → Reader τ ε s α} (hf : ∀ input, (f input).Yields G P) :
    (look f).Yields G P := fun input r hin hr => hf input input r hin hr

theorem yields_take {accept : τ → Option α} {e : List τ → ε}
    (h : ∀ x a, G x → accept x = some a → P a) : (take accept e).Yields G P := by
  intro input r hin hr
  cases input with
  | nil => cases hr
  | cons x rest =>
    simp only [take] at hr
    split at hr
    · next a ha =>
      obtain rfl := Except.ok.inj hr
      exact h x a (hin x List.mem_cons_self) ha
    · cases hr

theorem yields_takeWhile {test : τ → Bool} :
    (takeWhile test : Reader τ ε false (List τ)).Yields G fun xs => ∀ x ∈ xs, test x = true := by
  intro input r _ hr
  obtain rfl := Except.ok.inj hr
  exact fun x hx => List.all_eq_true.1 List.all_takeWhile x hx

/-- Nothing is promised of what was read. -/
theorem yields_any (p : Reader τ ε s α) : p.Yields G fun _ => True := fun _ _ _ _ => trivial

theorem Yields.check {p : Reader τ ε s α} {f : α → Option β} {e : List τ → ε} (hp : p.Yields G P)
    (hf : ∀ a b, P a → f a = some b → Q b) : (p.check f e).Yields G Q := by
  intro input r hin hr
  unfold Reader.check at hr
  split at hr
  · cases hr
  · next read hread =>
    split at hr
    · next b hb =>
      obtain rfl := Except.ok.inj hr
      exact hf _ b (hp _ _ hin hread) hb
    · cases hr

/-- What every step keeps, a repetition keeps. The induction is that of `foldWhile`,
by the length of the input. -/
theorem yields_foldWhile {more : List τ → Bool} {step : σ → Reader τ ε true σ} {I : σ → Prop}
    (hstep : ∀ a, I a → (step a).Yields G I) {a : σ} (ha : I a) :
    (foldWhile more step a).Yields G I := by
  intro input r hin hr
  induction hn : input.length using Nat.strongRecOn generalizing input a with
  | _ n ih =>
    rcases foldWhile_ok hr with ⟨-, hvalue, -⟩ | ⟨-, first, later, hfirst, hlater, hvalue, -⟩
    · rw [hvalue]
      exact ha
    · have hshort : first.rest.length < n := by
        have := first.length_le
        simp only [Bool.toNat_true] at this
        omega
      have hnext : I first.value := hstep a ha _ _ hin hfirst
      rw [hvalue]
      exact ih _ hshort hnext first.rest later (first.kept hin) hlater rfl

theorem Yields.many {p : Reader τ ε true α} {more : List τ → Bool} (hp : p.Yields G P) :
    (Reader.many more p).Yields G fun as => ∀ a ∈ as, P a := by
  have hfold : (foldWhile more (fun acc => p.map (· :: acc)) ([] : List α)).Yields G
      fun as => ∀ a ∈ as, P a := by
    refine yields_foldWhile (fun acc hacc => hp.map fun a ha => ?_) (by simp)
    simpa using ⟨ha, hacc⟩
  exact hfold.map fun as has a ha => has a (List.mem_reverse.1 ha)

theorem Yields.oneOrMore {p : Reader τ ε true α} {more : List τ → Bool} (hp : p.Yields G P) :
    (Reader.oneOrMore more p).Yields G fun as => ∀ a ∈ as, P a := by
  refine hp.andThen fun a ha => (hp.many).map fun as has => ?_
  simpa using ⟨ha, has⟩

end Reader

end GraphqlCypher
