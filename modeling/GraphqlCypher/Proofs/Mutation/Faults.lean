import GraphqlCypher.Proofs.Mutation.Acceptance
import GraphqlCypher.Proofs.Mutation.Origins
import GraphqlCypher.Proofs.Traversal

/-! What the making of a mutation can fail with, whatever its arguments are and wherever its ids
come from.

`Tour.Cause` lists the failures of a walk and says what each of them comes from. An id that is
refused is the one the walk asked for last, so a cause names the number of ids drawn by then. What
is reported as unknown is not in the catalog. **`Catalog.cause_of_compile`** says so of whatever
compiling fails with.

A walk fails as its parts do (`WalkM.FailsAs`): there is one rule for each way to put walks
together, and then one lemma for each part of the walk. -/
namespace GraphqlCypher

namespace Tour

variable (T : Tour)

/-- The models that a walk may come to: the root, and where relations of known models lead. -/
inductive Target : String → Prop where
  | root : Target T.root
  | related {owner field related : String} {info : ModelInfo}
    (known : T.catalog.model owner = .ok info) (relation : info.related? field = some related) :
    Target related

/-- What a walk fails for, with so many ids drawn: its arguments, the next id, which is not
given out, or a look-up. -/
inductive Cause (drawn : Nat) : Failure → Prop where
  | nestedTooDeep : Cause drawn (.nestedTooDeep maxNesting)
  | bothOnToOne (field model : String) : Cause drawn (.bothOnToOne field model)
  | nestedNotObject (action field : String) : Cause drawn (.nestedNotObject action field)
  | id {g : IdGenerator} {e : Failure} (supply : g ∈ T.ids) (refused : g.next drawn = .error e) :
    Cause drawn e
  | unknownModel {name : String} (target : T.Target name)
    (missing : Entries.get? T.catalog.models name = none) : Cause drawn (.unknownModel name)
  | unknownRelation {owner field related : String} {info : ModelInfo}
    (known : T.catalog.model owner = .ok info) (relation : info.related? field = some related)
    (missing : Entries.get? T.catalog.mutations (Schema.Names.relationMutation owner field) =
      none) :
    Cause drawn (.unknownMutation (Schema.Names.relationMutation owner field))
  | unknownCreation {owner field related : String} {info target : ModelInfo}
    (known : T.catalog.model owner = .ok info) (relation : info.related? field = some related)
    (found : T.catalog.model related = .ok target)
    (missing : Entries.get? T.catalog.mutations (Schema.Names.createMutation related) = none) :
    Cause drawn (.unknownMutation (Schema.Names.createMutation related))

end Tour

namespace WalkM

variable {α β : Type} {p : Nat → Failure → Prop}

/-- Whatever a walk fails with is of one kind, given how many ids are drawn by then. -/
def FailsAs (p : Nat → Failure → Prop) (m : WalkM α) : Prop :=
  ∀ s e t, Fails m s e t → p t.drawn e

theorem failsAs_pure (a : α) : FailsAs p (pure a : WalkM α) :=
  fun s e t h => absurd h (not_fails_pure a s t e)

theorem failsAs_throw {e : Failure} (h : ∀ n, p n e) : FailsAs p (throw e : WalkM α) := by
  intro s e' t failed
  obtain ⟨rfl, -⟩ := (fails_throw e e' s t).1 failed
  exact h t.drawn

theorem failsAs_lift {r : Except Failure α} (h : ∀ n e, r = .error e → p n e) :
    FailsAs p (ExceptT.mk (pure r) : WalkM α) :=
  fun s e t failed => h t.drawn e ((fails_lift r s t e).1 failed).1

theorem failsAs_get : FailsAs p (get : WalkM WalkState) :=
  fun s e t h => absurd h (not_fails_get s t e)

theorem failsAs_modify (f : WalkState → WalkState) : FailsAs p (modify f : WalkM PUnit) :=
  fun s e t h => absurd h (not_fails_modify f s t e)

theorem FailsAs.bind {m : WalkM α} {f : α → WalkM β} (h : FailsAs p m)
    (h' : ∀ a, FailsAs p (f a)) : FailsAs p (m >>= f) := by
  intro s e u failed
  rcases (fails_bind m f s u e).1 failed with failed | ⟨a, t, -, failed⟩
  · exact h s e u failed
  · exact h' a t e u failed

/-- A look-up fails, or what follows it does. -/
theorem failsAs_lift_bind {r : Except Failure α} {f : α → WalkM β}
    (h : ∀ n e, r = .error e → p n e) (h' : ∀ a, r = .ok a → FailsAs p (f a)) :
    FailsAs p (ExceptT.mk (pure r) >>= f) := by
  intro s e u failed
  rcases (fails_bind _ f s u e).1 failed with failed | ⟨a, t, ends, failed⟩
  · exact h u.drawn e ((fails_lift r s u e).1 failed).1
  · exact h' a ((ends_lift r s t a).1 ends).1 t e u failed

theorem failsAs_mapM {f : α → WalkM β} {l : List α} (h : ∀ x ∈ l, FailsAs p (f x)) :
    FailsAs p (l.mapM f) := by
  intro s e u failed
  obtain ⟨x, hx, t, failed⟩ := exists_fails_of_mapM failed
  exact h x hx t e u failed

end WalkM

open WalkM

namespace Catalog

variable {c : Catalog} {name : String} {e : Failure}

theorem missing_of_model (h : c.model name = .error e) :
    e = .unknownModel name ∧ Entries.get? c.models name = none := by
  unfold model at h
  split at h
  · cases h
  · next missing =>
    cases h
    exact ⟨rfl, missing⟩

theorem missing_of_mutation (h : c.mutation name = .error e) :
    e = .unknownMutation name ∧ Entries.get? c.mutations name = none := by
  unfold mutation at h
  split at h
  · cases h
  · next missing =>
    cases h
    exact ⟨rfl, missing⟩

end Catalog

/-! ### The parts of a walk -/

namespace Tour

variable {T : Tour}

/-- Only the next id can keep a new node from having one. -/
theorem refused_of_withId {ids : Option IdGenerator} {drawn : Nat} {arguments : Json.Object}
    {e : Failure} (h : withId ids drawn arguments = .error e) :
    ∃ g ∈ ids, g.next drawn = .error e := by
  unfold withId at h
  split at h
  · cases h
  · next g =>
    split at h
    · cases h
    · split at h
      · cases h
      · next refused =>
        cases h
        exact ⟨g, rfl, refused⟩

/-- An id is refused to a walk with the number of ids that are drawn. -/
theorem identify_failsAs (arguments : Json.Object) : FailsAs T.Cause (T.identify arguments) := by
  intro s e u failed
  simp only [identify, fails_bind, fails_lift, ends_get] at failed
  rcases failed with h | ⟨_, _, ⟨rfl, rfl⟩, ⟨h, rfl⟩ | ⟨_, _, -, h | ⟨_, _, -, h⟩⟩⟩
  · exact absurd h (not_fails_get _ _ _)
  · obtain ⟨g, supply, refused⟩ := refused_of_withId h
    exact .id supply refused
  · exact absurd h (not_fails_set _ _ _ _)
  · exact absurd h (not_fails_pure _ _ _ _)

section

variable {owner : String} {info : ModelInfo} {step : Step}
  (known : T.catalog.model owner = .ok info)
  (related : info.related? step.field = some step.related)
include known related

/-- A group fails at a model or a mutation that is not in the catalog. -/
theorem cause_of_group {above : List Step} {supplied : List String} {drawn : Nat} {e : Failure}
    (h : T.group above owner supplied step = .error e) : T.Cause drawn e := by
  rcases error_of_bind h with h | ⟨_, -, h⟩
  · rw [known] at h
    cases h
  rcases error_of_bind h with h | ⟨target, htarget, h⟩
  · obtain ⟨rfl, missing⟩ := Catalog.missing_of_model h
    exact .unknownModel (.related known related) missing
  rcases error_of_bind h with h | ⟨_, -, h⟩
  · obtain ⟨rfl, missing⟩ := Catalog.missing_of_mutation h
    exact .unknownRelation known related missing
  dsimp only at h
  split at h
  · rcases error_of_bind h with h | ⟨_, -, h⟩
    · obtain ⟨rfl, missing⟩ := Catalog.missing_of_mutation h
      exact .unknownCreation known related htarget missing
    · cases h
  · cases h

theorem noteGroup_failsAs (above : List Step) (supplied : List String) :
    FailsAs T.Cause (T.noteGroup above owner supplied step) := by
  refine failsAs_get.bind fun s => ?_
  split
  · exact failsAs_pure _
  · exact (failsAs_lift fun n e h => cause_of_group known related h).bind fun g => failsAs_modify _

end

section

variable {onward : Onward} (below : ∀ address model arguments, T.Target model →
  FailsAs T.Cause (onward address model arguments)) (above : List Pick)
include below

theorem element_failsAs {step : Step} (target : T.Target step.related) (x : Json × Nat) :
    FailsAs T.Cause (T.element onward above step x) := by
  obtain ⟨v, i⟩ := x
  cases v with
  | object arguments =>
    have onwards : ∀ new, FailsAs T.Cause (do
        return Json.object (← onward (above ++ [⟨step, i⟩]) step.related new)) :=
      fun new => (below _ _ _ target).bind fun _ => failsAs_pure _
    unfold element
    cases step.action with
    | create => exact (identify_failsAs _).bind onwards
    | connect => exact (failsAs_pure _).bind onwards
  | null | bool _ | number _ | string _ | array _ => exact failsAs_throw fun _ => .nestedNotObject _ _

section

variable {owner : String} {info : ModelInfo} (known : T.catalog.model owner = .ok info)
  (supplied : List String)
include known

theorem elements_failsAs {step : Step} (related : info.related? step.field = some step.related)
    (v : Json) : FailsAs T.Cause (T.elements onward above owner supplied step v) := by
  have target : T.Target step.related := .related known related
  refine (noteGroup_failsAs known related _ _).bind fun _ => ?_
  cases v with
  | array items =>
    exact (failsAs_mapM fun x _ => element_failsAs below above target x).bind
      fun _ => failsAs_pure _
  | null | bool _ | number _ | string _ | object _ => exact element_failsAs below above target _

theorem action_failsAs {step : Step} (related : info.related? step.field = some step.related)
    (nested : Json.Object) :
    FailsAs T.Cause (T.action onward above owner supplied step nested) := by
  unfold action
  split
  · exact failsAs_pure _
  · exact (elements_failsAs below above known supplied related _).bind fun _ => failsAs_pure _

theorem relation_failsAs {field related : String} (hrelated : info.related? field = some related)
    (nested : Json.Object) :
    FailsAs T.Cause (T.relation onward above owner info supplied field related nested) := by
  have actions : FailsAs T.Cause (do
      let nested ← T.action onward above owner supplied ⟨field, .create, related⟩ nested
      T.action onward above owner supplied ⟨field, .connect, related⟩ nested) :=
    (action_failsAs below above known supplied hrelated _).bind fun _ =>
      action_failsAs below above known supplied hrelated _
  unfold relation
  dsimp only
  split
  · exact (failsAs_throw fun _ => .bothOnToOne _ _).bind fun _ => actions
  · exact actions

end

theorem visit_failsAs (address : List Pick) (model : String) (arguments : Json.Object)
    (target : T.Target model) : FailsAs T.Cause (T.visit onward address model arguments) := by
  refine failsAs_lift_bind (fun n e h => ?_) fun info known =>
    (failsAs_modify _).bind fun _ => failsAs_mapM fun entry _ => ?_
  · obtain ⟨rfl, missing⟩ := Catalog.missing_of_model h
    exact .unknownModel target missing
  · unfold argument
    split
    · next related nested hrelated _ =>
      exact (relation_failsAs below address known _ hrelated nested).bind fun _ => failsAs_pure _
    · exact failsAs_pure _

end

/-- What a walk reaches is of a model that the catalog has. -/
theorem Reaches.known {first v : Visit} {levels : Nat} (h : T.Reaches first levels v) :
    ∃ info, T.catalog.model v.model = .ok info := by
  obtain ⟨left, s, out, t, -, ends⟩ := h.ends
  cases left with
  | zero => exact absurd ends (not_ends_throw _ s t out)
  | succ left =>
    obtain ⟨info, hinfo, -⟩ := visit_ends ends
    exact ⟨info, hinfo⟩

/-- **What a walk fails for**, over an object of a model that it may come to. -/
theorem walk_failsAs (levels : Nat) : ∀ address model arguments, T.Target model →
    FailsAs T.Cause (T.walk levels address model arguments) := by
  induction levels with
  | zero => exact fun _ _ _ _ => failsAs_throw fun _ => .nestedTooDeep
  | succ levels ih => exact visit_failsAs ih

end Tour

/-! ### Compiling -/

namespace Catalog

variable {c : Catalog} {name : String} {ids : Option IdGenerator} {drawn : Nat} {e : Failure}

/-- **What the making of a create mutation fails for.** What the walk over its data has reached can
be read back, so it is always the walk that fails. -/
theorem cause_of_compileRoot {info : MutationInfo} {data : Json.Object} {u : WalkState}
    (h : Fails (c.compileRoot name info data ids) { drawn } e u) :
    Tour.Cause ⟨c, info.model, ids⟩ u.drawn e := by
  let T : Tour := ⟨c, info.model, ids⟩
  simp only [compileRoot, fails_bind, fails_lift, ends_lift] at h
  rcases h with h | ⟨new, s, hnew, ⟨h, -⟩ | ⟨root, _, ⟨-, rfl⟩, h | ⟨out, t, hwalk, h⟩⟩⟩
  · exact Tour.identify_failsAs (T := T) data _ _ _ h
  · obtain ⟨rfl, missing⟩ := missing_of_model h
    exact .unknownModel .root missing
  · exact Tour.walk_failsAs (T := T) _ _ _ _ .root _ _ _ h
  · obtain ⟨-, -, hvisits⟩ := Tour.identify_ends hnew
    have found : ∀ v ∈ t.visits, ∃ info, c.model v.model = .ok info := fun v hv => by
      refine ((Tour.walk_adds _ _ _ _ _ _ _ hwalk).visits v hv).elim (fun hold => ?_) (·.known)
      rw [hvisits] at hold
      cases hold
    rcases h with h | ⟨_, _, hget, ⟨h, -⟩ | ⟨_, _, -, h⟩⟩
    · exact absurd h (not_fails_get _ _ _)
    · obtain ⟨rfl, rfl⟩ := (ends_get _ _ _).1 hget
      obtain ⟨r, hr⟩ := exists_readBack found
      cases hr.symm.trans h
    · exact absurd h (not_fails_pure _ _ _ _)

/-- **What compiling fails for**: the mutation is not known as a generated one, or its data is
no object, or the walk over its data fails, with as many ids drawn as compiling has drawn. -/
theorem cause_of_compile {values : Json.Object} {n : Nat}
    (h : c.compile name values ids drawn = (.error e, n)) :
    e = .unknownMutation name ∧ (c.isGenerated name = false ∨ c.mutation name = .error e) ∨
      c.isGenerated name = true ∧ ∃ info, c.mutation name = .ok info ∧
        (e = .dataNotObject ∨ Tour.Cause ⟨c, info.model, ids⟩ n e) := by
  unfold compile at h
  split at h
  · next hname =>
    cases h
    exact .inl ⟨rfl, .inl (by simpa using hname)⟩
  · next hname =>
    have hname : c.isGenerated name = true := by simpa using hname
    split at h
    · next failed =>
      cases h
      exact .inl ⟨(missing_of_mutation failed).1, .inr failed⟩
    · next info hinfo =>
      refine .inr ⟨hname, info, hinfo, ?_⟩
      split at h
      · cases h
      · split at h
        · next failed =>
          cases h
          unfold dataArguments at failed
          split at failed
          · cases failed
          · cases failed
            exact .inl rfl
        · next data _ =>
          rcases hrun : (c.compileRoot name info data ids).run.run { drawn } with ⟨e' | m, u⟩
          · rw [hrun] at h
            cases h
            exact .inr (cause_of_compileRoot hrun)
          · rw [hrun] at h
            cases h

end Catalog

end GraphqlCypher
