import GraphqlCypher.Proofs.Mutation.Compiled
import GraphqlCypher.Proofs.Mutation.Paths

/-! Where the visits and the groups of a walk come from.

Whatever a walk notes is noted at an object that it reaches, and the walk over that object
ended too, with one level less for each level that it stands deeper (`Tour.Reaches`). A walk
adds the visits of such objects, and groups that the catalog gave for the steps that they
supply (`walk_adds`). What holds of all that a compiled mutation has noted can thus be read
off one visit (`origins_of_compile`); its templates, for one, are templates of the catalog
(`templates_of_compile`). -/
namespace GraphqlCypher

open WalkM

namespace Tour

variable {T : Tour} {s t u : WalkState}

/-! ### Objects that are reached -/

/-- A walk over a first object, with so many levels left, reaches an object. -/
structure Reaches (T : Tour) (first : Visit) (levels : Nat) (v : Visit) : Prop where
  /-- The walk over the object ended. -/
  ends : ∃ left s out t, left + v.address.length = levels + first.address.length ∧
    Ends (T.walk left v.address v.model v.arguments) s out t
  /-- Relations lead to it. -/
  leads : ∀ root, T.catalog.Leads root first.path first.model →
    T.catalog.Leads root v.path v.model
  /-- It stands deeper unless it is the first. -/
  below : v = first ∨ first.address.length < v.address.length

variable {first : Visit} {levels : Nat}

theorem Reaches.self {out : Json.Object}
    (h : Ends (T.walk levels first.address first.model first.arguments) s out t) :
    T.Reaches first levels first :=
  ⟨⟨levels, s, out, t, rfl, h⟩, fun _ leads => leads, .inl rfl⟩

/-- What is reached from an element is reached from its owner. -/
theorem Reaches.of_element {p : Pick} {new : Json.Object} {v : Visit}
    (step : T.catalog.HasStep first.model p.step)
    (h : T.Reaches ⟨first.address ++ [p], p.step.related, new⟩ levels v) :
    T.Reaches first (levels + 1) v where
  ends := by
    obtain ⟨left, s, out, t, hlevels, ends⟩ := h.ends
    refine ⟨left, s, out, t, ?_, ends⟩
    rw [List.length_append, List.length_singleton] at hlevels
    omega
  leads root hroot := by
    refine h.leads root ?_
    rw [Visit.path, List.map_append]
    exact hroot.append ⟨step, rfl⟩
  below := by
    rcases h.below with rfl | hbelow
    · exact .inr (by simp)
    · rw [List.length_append, List.length_singleton] at hbelow
      exact .inr (by omega)

/-! ### What is noted -/

/-- A group was made for a step of a reached object. -/
def Makes (T : Tour) (first : Visit) (levels : Nat) (g : Group) : Prop :=
  ∃ v step, T.Reaches first levels v ∧ T.catalog.HasStep v.model step ∧
    T.group v.path v.model (Entries.keys v.arguments) step = .ok g

/-- Every visit and every group that is new is one of the walk over the first object. -/
structure Adds (T : Tour) (first : Visit) (levels : Nat) (s t : WalkState) : Prop where
  visits : ∀ v ∈ t.visits, v ∈ s.visits ∨ T.Reaches first levels v
  groups : ∀ g ∈ t.groups, g ∈ s.groups ∨ T.Makes first levels g

namespace Adds

theorem of_eq (visits : t.visits = s.visits) (groups : t.groups = s.groups) :
    T.Adds first levels s t :=
  ⟨fun _ hv => .inl (visits ▸ hv), fun _ hg => .inl (groups ▸ hg)⟩

theorem trans (h : T.Adds first levels s t) (h' : T.Adds first levels t u) :
    T.Adds first levels s u where
  visits v hv := (h'.visits v hv).elim (h.visits v) .inr
  groups g hg := (h'.groups g hg).elim (h.groups g) .inr

theorem of_element {p : Pick} {new : Json.Object} (step : T.catalog.HasStep first.model p.step)
    (h : T.Adds ⟨first.address ++ [p], p.step.related, new⟩ levels s t) :
    T.Adds first (levels + 1) s t where
  visits v hv := (h.visits v hv).imp_right (.of_element step)
  groups g hg := (h.groups g hg).imp_right fun ⟨v, last, reached, made⟩ =>
    ⟨v, last, reached.of_element step, made⟩

end Adds

theorem Threads.adds {α β : Type} {R : α → WalkState → β → WalkState → Prop} {l : List α}
    {ys : List β} (h : Threads R l s ys t)
    (each : ∀ x ∈ l, ∀ s y t, R x s y t → T.Adds first levels s t) : T.Adds first levels s t := by
  induction h with
  | nil => exact .of_eq rfl rfl
  | cons head _ ih =>
    have rest := ih fun x hx => each x (List.mem_cons_of_mem _ hx)
    exact (each _ List.mem_cons_self _ _ _ head).trans rest

theorem noteGroup_adds {step : Step} (reached : T.Reaches first levels first)
    (known : T.catalog.HasStep first.model step)
    (h : Ends (T.noteGroup first.path first.model (Entries.keys first.arguments) step) s ⟨⟩ t) :
    T.Adds first levels s t := by
  simp only [noteGroup, ends_bind, ends_get] at h
  obtain ⟨s', u, ⟨hs, hu⟩, h⟩ := h
  rw [hs, hu] at h
  split at h
  · obtain ⟨-, rfl⟩ := (ends_pure _ _ _ _).1 h
    exact .of_eq rfl rfl
  · simp only [ends_bind, ends_lift, ends_modify] at h
    obtain ⟨g, _, ⟨hg, rfl⟩, rfl⟩ := h
    refine ⟨fun v hv => .inl hv, fun g' hg' => ?_⟩
    rcases List.mem_append.1 hg' with hg' | hg'
    · exact .inl hg'
    · exact .inr ⟨first, step, reached, known, List.mem_singleton.1 hg' ▸ hg⟩

/-- An element is reached by way of its step. -/
theorem ElementRun.adds {step : Step} {x y : Json × Nat}
    (walks : ∀ address model a s out t, Ends (T.walk levels address model a) s out t →
      T.Adds ⟨address, model, a⟩ levels s t)
    (known : T.catalog.HasStep first.model step)
    (h : T.ElementRun (T.walk levels) first.address step x s y t) :
    T.Adds first (levels + 1) s t := by
  cases h with
  | create _ identified rest =>
    obtain ⟨-, groups, visits⟩ := identify_ends identified
    exact (Adds.of_eq visits groups).trans (.of_element known (walks _ _ _ _ _ _ rest))
  | connect _ rest => exact .of_element known (walks _ _ _ _ _ _ rest)

/-- **What a walk adds.** It adds the visits of what it reaches, and groups for their steps. -/
theorem walk_adds (levels : Nat) : ∀ address model arguments s out t,
    Ends (T.walk levels address model arguments) s out t →
      T.Adds ⟨address, model, arguments⟩ levels s t := by
  induction levels with
  | zero =>
    intro address model arguments s out t h
    exact absurd h (not_ends_throw _ s t out)
  | succ levels ih =>
    intro address model arguments s out t h
    have reached : T.Reaches ⟨address, model, arguments⟩ (levels + 1) _ := .self h
    obtain ⟨info, hinfo, -, runs⟩ := visit_ends h
    have noted : T.Adds ⟨address, model, arguments⟩ (levels + 1) s
        { s with visits := s.visits ++ [⟨address, model, arguments⟩] } := by
      refine ⟨fun v hv => ?_, fun g hg => .inl hg⟩
      refine (List.mem_append.1 hv).imp_right fun hv => ?_
      rw [List.mem_singleton.1 hv]
      exact reached
    refine noted.trans (Threads.adds runs fun branch hbranch s y t run => ?_)
    have known := Catalog.hasStep_of_mem_branches hinfo hbranch
    obtain ⟨group, elements⟩ := run
    exact (noteGroup_adds reached known group).trans
      (Threads.adds elements fun _ _ _ _ _ run => run.adds ih known)

/-- The templates of a group are those of mutations. -/
theorem templates_of_group {above : List Step} {owner : String} {supplied : List String}
    {step : Step} {g : Group} (h : T.group above owner supplied step = .ok g) :
    ∀ template ∈ g.relation :: g.creation.toList,
      ∃ name info, T.catalog.mutation name = .ok info ∧ info.template = template := by
  obtain ⟨-, -, relation, creation, -, -, hrelation, creates, rfl⟩ := eq_of_group h
  intro template htemplate
  rcases List.mem_cons.1 htemplate with rfl | htemplate
  · exact ⟨_, relation, hrelation, rfl⟩
  · cases creation with
    | none => cases htemplate
    | some info => exact ⟨_, info, creates.2, (List.mem_singleton.1 htemplate).symm⟩

end Tour

namespace Catalog

variable {c : Catalog} {name : String} {values : Json.Object} {ids : Option IdGenerator}
  {drawn : Nat} {m : CompiledCreate}

/-- **Where everything in a compiled mutation comes from**: the walk over the root object,
whose keys are those of the final arguments. -/
theorem origins_of_compile (h : (c.compile name values ids drawn).1 = .ok (.create m)) :
    ∃ root : Json.Object, Entries.keys root = Entries.keys m.arguments ∧
      (∀ v ∈ m.visits,
        Tour.Reaches ⟨c, m.model, ids⟩ ⟨[], m.model, root⟩ (maxNesting + 1) v) ∧
      ∀ g ∈ m.groups, Tour.Makes ⟨c, m.model, ids⟩ ⟨[], m.model, root⟩ (maxNesting + 1) g := by
  obtain ⟨data, root, s, t, -, -, hgroups, hvisits, hwalk, groups, visits⟩ := walk_of_compile h
  have added := Tour.walk_adds _ _ _ _ _ _ _ hwalk
  obtain ⟨info, -, kept, -⟩ := Tour.visit_ends hwalk
  refine ⟨root, kept.keys.symm, fun v hv => ?_, fun g hg => ?_⟩
  · refine (added.visits v (visits ▸ hv)).resolve_left fun hold => ?_
    rw [hvisits] at hold
    cases hold
  · refine (added.groups g (groups ▸ hg)).resolve_left fun hold => ?_
    rw [hgroups] at hold
    cases hold

/-- **The templates of a compiled create mutation** are those of mutations in the catalog. -/
theorem templates_of_compile (h : (c.compile name values ids drawn).1 = .ok (.create m)) :
    ∀ template ∈ m.template :: m.groups.flatMap (fun g => g.relation :: g.creation.toList),
      ∃ name info, c.mutation name = .ok info ∧ info.template = template := by
  intro template htemplate
  rcases List.mem_cons.1 htemplate with rfl | htemplate
  · obtain ⟨info, data, t, hinfo, -, -, ends⟩ := root_of_compile h
    exact ⟨name, info, hinfo, (rootCall_of_compileRoot ends).2.1.symm⟩
  · obtain ⟨g, hg, htemplate⟩ := List.mem_flatMap.1 htemplate
    obtain ⟨root, -, -, made⟩ := origins_of_compile h
    obtain ⟨v, step, -, -, hgroup⟩ := made g hg
    exact Tour.templates_of_group hgroup template htemplate

end Catalog

end GraphqlCypher
