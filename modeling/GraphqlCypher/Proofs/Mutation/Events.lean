import GraphqlCypher.Proofs.Mutation.Branches

/-! The events of a walk, read off the arguments that it leaves.

An event is an object that is reached or a path that is supplied with something.
`Catalog.events` lists them by recursion on the arguments alone. `walk_logged` says that
the state of a walk that ends is a record of them: a visit for every object, and a group
for every path that is new. -/
namespace GraphqlCypher

open WalkM

/-- What happens on a walk: an object is reached, or a path is supplied. -/
inductive WalkEvent where
  | visit (v : Visit)
  | supply (path : List Step)

namespace WalkEvent

def visit? : WalkEvent → Option Visit
  | .visit v => some v
  | .supply _ => none

def path? : WalkEvent → Option (List Step)
  | .visit _ => none
  | .supply path => some path

/-- The events at one element of a step, with those at its object given. -/
def ofElement (below : List Pick → String → Json.Object → List WalkEvent) (above : List Pick)
    (step : Step) : Json × Nat → List WalkEvent
  | (.object o, i) => below (above ++ [⟨step, i⟩]) step.related o
  | _ => []

/-- The events of a branch: its path, and then those at its elements. -/
def ofBranch (below : List Pick → String → Json.Object → List WalkEvent) (above : List Pick)
    (branch : Step × Json) : List WalkEvent :=
  .supply (above.map Pick.step ++ [branch.1]) ::
    branch.2.elements.zipIdx.flatMap (ofElement below above branch.1)

end WalkEvent

/-- The events of a walk over an object with so many levels left. -/
def Catalog.events (c : Catalog) : Nat → List Pick → String → Json.Object → List WalkEvent
  | 0, _, _, _ => []
  | levels + 1, address, model, arguments =>
    match c.model model with
    | .error _ => []
    | .ok info =>
      .visit ⟨address, model, arguments⟩ ::
        (info.branches arguments).flatMap (WalkEvent.ofBranch (c.events levels) address)

/-- The objects that are reached, in order. -/
def visitsOf (events : List WalkEvent) : List Visit := events.filterMap WalkEvent.visit?

/-- The paths that are supplied, in order, as often as they are. -/
def pathsOf (events : List WalkEvent) : List (List Step) := events.filterMap WalkEvent.path?

/-! ### The record of a walk -/

/-- Adds a path that is new. -/
def notePath (paths : List (List Step)) (path : List Step) : List (List Step) :=
  if path ∈ paths then paths else paths ++ [path]

variable {κ : Type} {key : Visit → κ}

/-- A state after events: each visit is noted, and each new path has a group. Visits are
compared by a key, because what is below an object changes after it was noted. -/
structure Logged (key : Visit → κ) (s : WalkState) (events : List WalkEvent) (t : WalkState) :
    Prop where
  visits : t.visits.map key = s.visits.map key ++ (visitsOf events).map key
  paths : t.groups.map Group.path = (pathsOf events).foldl notePath (s.groups.map Group.path)

theorem Logged.nil (s : WalkState) : Logged key s [] s := ⟨(List.append_nil _).symm, rfl⟩

theorem Logged.append {s t u : WalkState} {l l' : List WalkEvent} (h : Logged key s l t)
    (h' : Logged key t l' u) : Logged key s (l ++ l') u where
  visits := by
    rw [h'.visits, h.visits, visitsOf, visitsOf, visitsOf, List.filterMap_append, List.map_append,
      List.append_assoc]
  paths := by
    rw [h'.paths, h.paths, pathsOf, pathsOf, pathsOf, List.filterMap_append, List.foldl_append]

theorem WalkM.Threads.logged {α β : Type} {R : α → WalkState → β → WalkState → Prop}
    {l : List α} {ys : List β} {s t : WalkState} {f : β → List WalkEvent} (h : Threads R l s ys t)
    (each : ∀ x s y t, R x s y t → Logged key s (f y) t) : Logged key s (ys.flatMap f) t := by
  induction h with
  | nil => exact .nil _
  | cons head _ ih => exact (each _ _ _ _ head).append ih

namespace Tour

variable {T : Tour}

/-- A path is noted if it is new. -/
theorem noteGroup_logged {above : List Step} {owner : String} {supplied : List String}
    {step : Step} {s t : WalkState}
    (h : Ends (T.noteGroup above owner supplied step) s ⟨⟩ t) :
    Logged key s [.supply (above ++ [step])] t := by
  simp only [noteGroup, ends_bind, ends_get] at h
  obtain ⟨s', u, ⟨hs, hu⟩, h⟩ := h
  rw [hs, hu] at h
  have noted : (s.groups.any fun g => g.path == above ++ [step]) = true ↔
      above ++ [step] ∈ s.groups.map Group.path := by
    rw [List.any_eq_true, List.mem_map]
    simp only [beq_iff_eq]
  split at h
  · next hold =>
    obtain ⟨-, rfl⟩ := (ends_pure _ _ _ _).1 h
    exact ⟨(List.append_nil _).symm, (if_pos (noted.1 hold)).symm⟩
  · next hnew =>
    simp only [ends_bind, ends_lift, ends_modify] at h
    obtain ⟨g, _, ⟨hg, rfl⟩, rfl⟩ := h
    obtain ⟨rfl, rfl, -⟩ := group_ok hg
    refine ⟨(List.append_nil _).symm, ?_⟩
    rw [List.map_append]
    exact (if_neg fun hmem => hnew (noted.2 hmem)).symm

/-- Ids leave the record as it is. -/
theorem identify_logged {arguments out : Json.Object} {s t : WalkState}
    (h : Ends (T.identify arguments) s out t) : Logged key s [] t := by
  obtain ⟨-, groups, visits⟩ := identify_ends h
  refine ⟨?_, congrArg _ groups⟩
  rw [visits]
  exact (List.append_nil _).symm

variable {onward : Onward} {below : List Pick → String → Json.Object → List WalkEvent}

theorem ElementRun.logged {above : List Pick} {step : Step} {x y : Json × Nat} {s t : WalkState}
    (h : T.ElementRun onward above step x s y t)
    (honward : ∀ address model a s out t, Ends (onward address model a) s out t →
      Logged key s (below address model out) t) :
    Logged key s (WalkEvent.ofElement below above step y) t := by
  cases h with
  | create _ identified rest => exact (identify_logged identified).append (honward _ _ _ _ _ _ rest)
  | connect _ rest => exact honward _ _ _ _ _ _ rest

theorem BranchRun.logged {above : List Pick} {owner : String} {supplied : List String}
    {x y : Step × Json} {s t : WalkState}
    (h : T.BranchRun onward above owner supplied x s y t)
    (honward : ∀ address model a s out t, Ends (onward address model a) s out t →
      Logged key s (below address model out) t) :
    Logged key s (WalkEvent.ofBranch below above y) t := by
  obtain ⟨noted, elements⟩ := h
  exact (noteGroup_logged noted).append
    (elements.logged fun _ _ _ _ run => run.logged honward)

/-- **The record of a walk.** A walk that ends has noted the events of what it leaves, for
any key of a visit that does not change while the walk goes on below it. -/
theorem walk_logged (hkey : ∀ info address model arguments out,
      T.catalog.model model = .ok info → Kept info arguments out →
        key ⟨address, model, arguments⟩ = key ⟨address, model, out⟩) (levels : Nat) :
    ∀ address model arguments s out t, Ends (T.walk levels address model arguments) s out t →
      Logged key s (T.catalog.events levels address model out) t := by
  induction levels with
  | zero =>
    intro address model arguments s out t h
    exact absurd h (not_ends_throw _ s t out)
  | succ levels ih =>
    intro address model arguments s out t h
    obtain ⟨info, hinfo, kept, runs⟩ := visit_ends h
    have below := runs.logged fun _ _ _ _ run => run.logged ih
    have noted : Logged key s [.visit ⟨address, model, out⟩]
        { s with visits := s.visits ++ [⟨address, model, arguments⟩] } := by
      refine ⟨?_, rfl⟩
      rw [List.map_append, List.map_singleton, hkey info address model arguments out hinfo kept]
      rfl
    rw [Catalog.events, hinfo]
    exact noted.append below

end Tour

end GraphqlCypher
