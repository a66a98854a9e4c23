import GraphqlCypher.Proofs.Mutation.Rows

/-! Ids for new nodes.

A newcomer is an object that is created and has no id of its own. Read off the caller's
arguments alone, the newcomers stand in a list, in the order of the walk
(`Catalog.newcomers`), and `Catalog.endow` puts an id at the end of each object that is
given one and changes nothing else. `walk_serves` says that a walk that ends draws one id
for each newcomer that it meets, in order, and leaves the endowed arguments. -/
namespace GraphqlCypher

open Schema WalkM

/-! ### Newcomers -/

namespace Visit

/-- The root and all that an action `create` leads to. -/
def isCreated (v : Visit) : Bool := v.address.getLast?.all fun p => p.step.action == .create

/-- A created object without an id of its own. -/
def isNewcomer (v : Visit) : Bool := v.isCreated && !Entries.contains v.arguments Names.id

end Visit

/-- The addresses of the newcomers among events, in order. -/
def newcomersOf (events : List WalkEvent) : List (List Pick) :=
  ((visitsOf events).filter Visit.isNewcomer).map Visit.address

/-- The addresses of the newcomers among the arguments of a create mutation. -/
def Catalog.newcomers (c : Catalog) (model : String) (arguments : Json.Object) :
    List (List Pick) :=
  newcomersOf (c.events (maxNesting + 1) [] model arguments)

/-! ### Endowing arguments -/

/-- The action that a key of a relation stands for. -/
def NestedAction.ofText? : String → Option NestedAction
  | "create" => some .create
  | "connect" => some .connect
  | _ => none

theorem NestedAction.ofText?_eq_some {k : String} {a : NestedAction} :
    ofText? k = some a ↔ k = a.text := by
  unfold ofText?
  cases a <;> split <;> simp_all [text]

section
variable (below : List Pick → String → Json.Object → Json.Object)

/-- An element of a step, with what becomes of objects given. -/
def endowElement (above : List Pick) (step : Step) : Json × Nat → Json
  | (.object o, i) => .object (below (above ++ [⟨step, i⟩]) step.related o)
  | (v, _) => v

/-- All elements of a step. -/
def endowElements (above : List Pick) (step : Step) : Json → Json
  | .array items => .array (items.zipIdx.map (endowElement below above step))
  | v => endowElement below above step (v, 0)

/-- What a relation holds: the elements of both actions. -/
def endowNested (above : List Pick) (field related : String) (nested : Json.Object) :
    Json.Object :=
  Entries.mapValues (fun k v =>
    match NestedAction.ofText? k with
    | some a => endowElements below above ⟨field, a, related⟩ v
    | none => v) nested

/-- An argument of an object: what it holds if it is a relation. -/
def endowEntry (info : ModelInfo) (above : List Pick) (entry : String × Json) : String × Json :=
  match info.related? entry.1, entry.2 with
  | some related, .object nested =>
    (entry.1, .object (endowNested below above entry.1 related nested))
  | _, _ => entry

end

/-- The arguments of an object with ids: each object that is given one has it at its end. -/
def Catalog.endow (c : Catalog) (give : List Pick → Option String) :
    Nat → List Pick → String → Json.Object → Json.Object
  | 0, _, _, arguments => arguments
  | levels + 1, address, model, arguments =>
    (match c.model model with
      | .error _ => arguments
      | .ok info => arguments.map (endowEntry (c.endow give levels) info address)) ++
      (give address).toList.map fun id => (Names.id, .string id)

section

variable {below : List Pick → String → Json.Object → Json.Object}
  (unchanged : ∀ address model arguments, below address model arguments = arguments)
include unchanged

theorem endowElement_eq_self (above : List Pick) (step : Step) (x : Json × Nat) :
    endowElement below above step x = x.1 := by
  obtain ⟨v, i⟩ := x
  cases v with
  | object o => exact congrArg Json.object (unchanged _ _ _)
  | null | bool _ | number _ | string _ | array _ => rfl

theorem endowElements_eq_self (above : List Pick) (step : Step) (v : Json) :
    endowElements below above step v = v := by
  have single := endowElement_eq_self unchanged above step (v, 0)
  cases v with
  | array items =>
    have each : items.zipIdx.map (endowElement below above step) = items := by
      rw [List.map_congr_left fun x _ => endowElement_eq_self unchanged above step x,
        List.zipIdx_map_fst]
    exact congrArg Json.array each
  | null | bool _ | number _ | string _ | object _ => exact single

theorem endowNested_eq_self (above : List Pick) (field related : String) (nested : Json.Object) :
    endowNested below above field related nested = nested := by
  refine Entries.mapValues_eq_self fun k v _ => ?_
  cases NestedAction.ofText? k with
  | none => rfl
  | some a => exact endowElements_eq_self unchanged _ _ v

theorem endowEntry_eq_self (info : ModelInfo) (above : List Pick) (entry : String × Json) :
    endowEntry below info above entry = entry := by
  unfold endowEntry
  split
  · next related nested _ hobject =>
    rw [endowNested_eq_self unchanged, ← hobject]
  · rfl

end

/-- Where nobody is given an id, nothing changes. -/
theorem Catalog.endow_none (c : Catalog) (levels : Nat) :
    ∀ address model arguments, c.endow (fun _ => none) levels address model arguments = arguments := by
  induction levels with
  | zero => exact fun _ _ _ => rfl
  | succ levels ih =>
    intro address model arguments
    rw [endow]
    simp only [Option.toList_none, List.map_nil, List.append_nil]
    split
    · rfl
    · next info _ =>
      have each : ∀ entry ∈ arguments,
          endowEntry (c.endow (fun _ => none) levels) info address entry = id entry :=
        fun entry _ => endowEntry_eq_self ih info address entry
      rw [List.map_congr_left each, List.map_id]

/-! ### What a part of a walk does -/

namespace Tour

variable (T : Tour)

/-- A visit as the events have it, and as it was noted: with an id, perhaps. -/
structure Met (w v : Visit) : Prop where
  address : v.address = w.address
  model : v.model = w.model
  arguments : Identified w.arguments v.arguments

/-- Whether an object gets an id. -/
def receives (v : Visit) : Bool := T.ids.isSome && v.isNewcomer

/-- Who gets which id, as far as it was drawn. -/
structure Agrees (give : List Pick → Option String) (events : List WalkEvent)
    (draws : List (List Pick × String)) : Prop where
  drawn : ∀ p ∈ draws, give p.1 = some p.2
  others : ∀ v ∈ visitsOf events, T.receives v = false → give v.address = none

/-- What a part of a walk has done: it noted the visits among its events and drew an id
for each object that gets one. What it leaves has a property that depends on who got
which id. -/
structure Serves (events : List WalkEvent) (s t : WalkState)
    (P : (List Pick → Option String) → Prop) : Prop where
  visits : ∃ noted, t.visits = s.visits ++ noted ∧ List.Forall₂ Met (visitsOf events) noted
  draws : ∃ draws : List (List Pick × String),
    draws.map Prod.fst = ((visitsOf events).filter T.receives).map Visit.address ∧
    (∀ g ∈ T.ids, ∀ i p, draws[i]? = some p → g.next (s.drawn + i) = .ok p.2) ∧
    t.drawn = s.drawn + draws.length ∧ ∀ give, T.Agrees give events draws → P give

variable {T} {events events' : List WalkEvent} {s t u : WalkState}
  {P P' : (List Pick → Option String) → Prop}

theorem Agrees.append {give : List Pick → Option String} {draws draws' : List (List Pick × String)}
    (h : T.Agrees give (events ++ events') (draws ++ draws')) :
    T.Agrees give events draws ∧ T.Agrees give events' draws' := by
  have hvisits : visitsOf (events ++ events') = visitsOf events ++ visitsOf events' :=
    List.filterMap_append
  refine ⟨⟨fun p hp => ?_, fun v hv => ?_⟩, ⟨fun p hp => ?_, fun v hv => ?_⟩⟩
  · exact h.drawn p (List.mem_append_left _ hp)
  · exact h.others v (hvisits ▸ List.mem_append_left _ hv)
  · exact h.drawn p (List.mem_append_right _ hp)
  · exact h.others v (hvisits ▸ List.mem_append_right _ hv)

namespace Serves

/-- What notes no visit and draws no id. -/
theorem quiet (hevents : visitsOf events = []) (hvisits : t.visits = s.visits)
    (hdrawn : t.drawn = s.drawn) (hP : ∀ give, P give) : T.Serves events s t P where
  visits := ⟨[], by rw [hvisits, List.append_nil], by rw [hevents]; exact .nil⟩
  draws := by
    refine ⟨[], by rw [hevents]; rfl, fun _ _ _ _ h => ?_, hdrawn, fun give _ => hP give⟩
    cases h

theorem imp (h : T.Serves events s t P) (himp : ∀ give, P give → P' give) :
    T.Serves events s t P' where
  visits := h.visits
  draws := by
    obtain ⟨draws, haddresses, hnext, hdrawn, hP⟩ := h.draws
    exact ⟨draws, haddresses, hnext, hdrawn, fun give hg => himp give (hP give hg)⟩

theorem append (h : T.Serves events s t P) (h' : T.Serves events' t u P') :
    T.Serves (events ++ events') s u fun give => P give ∧ P' give where
  visits := by
    obtain ⟨noted, hnoted, hmet⟩ := h.visits
    obtain ⟨noted', hnoted', hmet'⟩ := h'.visits
    refine ⟨noted ++ noted', by rw [hnoted', hnoted, List.append_assoc], ?_⟩
    rw [visitsOf, List.filterMap_append]
    exact List.rel_append hmet hmet'
  draws := by
    obtain ⟨draws, haddresses, hnext, hdrawn, hP⟩ := h.draws
    obtain ⟨draws', haddresses', hnext', hdrawn', hP'⟩ := h'.draws
    refine ⟨draws ++ draws', ?_, fun g hg i p hi => ?_, ?_, fun give hgive => ?_⟩
    · rw [List.map_append, haddresses, haddresses', visitsOf, visitsOf, visitsOf,
        List.filterMap_append, List.filter_append, List.map_append]
    · rw [List.getElem?_append] at hi
      split at hi
      · exact hnext g hg i p hi
      · next hlength =>
        have hnumber : s.drawn + i = t.drawn + (i - draws.length) := by omega
        rw [hnumber]
        exact hnext' g hg _ p hi
    · rw [hdrawn', hdrawn, List.length_append, Nat.add_assoc]
    · obtain ⟨hleft, hright⟩ := hgive.append
      exact ⟨hP give hleft, hP' give hright⟩

/-- What the elements of a list serve, the list serves. -/
theorem threads {α β : Type} {R : α → WalkState → β → WalkState → Prop}
    {f : α → List WalkEvent} {g : (List Pick → Option String) → α → β} {l : List α} {ys : List β}
    (h : Threads R l s ys t)
    (each : ∀ x ∈ l, ∀ s y t, R x s y t → T.Serves (f x) s t fun give => y = g give x) :
    T.Serves (l.flatMap f) s t fun give => ys = l.map (g give) := by
  induction h with
  | nil s => exact quiet rfl rfl rfl fun _ => rfl
  | cons head _ ih =>
    have first := each _ List.mem_cons_self _ _ _ head
    have rest := ih fun x hx => each x (List.mem_cons_of_mem _ hx)
    refine (first.append rest).imp fun give h => ?_
    obtain ⟨rfl, rfl⟩ := h
    rfl

end Serves

/-! ### Entering an object -/

/-- An object is entered: with an id that is drawn for it if it is to get one, and as it
is otherwise. -/
inductive Enters (T : Tour) (v : Visit) (s : WalkState) : Json.Object → WalkState → Prop where
  | given {g : IdGenerator} {id : String} (ids : T.ids = some g) (newcomer : v.isNewcomer = true)
      (next : g.next s.drawn = .ok id) :
      Enters T v s (v.arguments ++ [(Names.id, .string id)]) { s with drawn := s.drawn + 1 }
  | same (none : T.receives v = false) : Enters T v s v.arguments s

theorem enters_of_identify {v : Visit} {new : Json.Object} (hcreated : v.isCreated = true)
    (h : Ends (T.identify v.arguments) s new t) : T.Enters v s new t := by
  simp only [identify, ends_bind, ends_get, ends_lift, ends_set, ends_pure] at h
  obtain ⟨_, _, ⟨rfl, rfl⟩, r, _, ⟨hr, rfl⟩, -, _, rfl, rfl, rfl⟩ := h
  unfold withId at hr
  split at hr
  · next hids =>
    cases hr
    exact .same (by simp [receives, hids])
  · next g hids =>
    split at hr
    · next hid =>
      cases hr
      exact .same (by simp [receives, Visit.isNewcomer, hid])
    · next hid =>
      split at hr
      · next id hnext =>
        cases hr
        have hnew : Names.id ∉ Entries.keys v.arguments := by
          rwa [Entries.contains_iff_mem_keys] at hid
        rw [Entries.insert_of_not_mem _ hnew]
        exact .given hids (by simp [Visit.isNewcomer, hcreated, hid]) hnext
      · cases hr

theorem noteGroup_quiet {above : List Step} {owner : String} {supplied : List String}
    {step : Step} (h : Ends (T.noteGroup above owner supplied step) s ⟨⟩ t) :
    t.visits = s.visits ∧ t.drawn = s.drawn := by
  simp only [noteGroup, ends_bind, ends_get] at h
  obtain ⟨s', u, ⟨hs, hu⟩, h⟩ := h
  rw [hs, hu] at h
  split at h
  · obtain ⟨-, rfl⟩ := (ends_pure _ _ _ _).1 h
    exact ⟨rfl, rfl⟩
  · simp only [ends_bind, ends_lift, ends_modify] at h
    obtain ⟨g, _, ⟨-, rfl⟩, rfl⟩ := h
    exact ⟨rfl, rfl⟩

/-! ### The parts of a walk -/

section

variable {onward : Onward} {events : List Pick → String → Json.Object → List WalkEvent}
  {below : (List Pick → Option String) → List Pick → String → Json.Object → Json.Object}

/-- Going on from an object serves its events. -/
def OnwardServes (T : Tour) (onward : Onward)
    (events : List Pick → String → Json.Object → List WalkEvent)
    (below : (List Pick → Option String) → List Pick → String → Json.Object → Json.Object) : Prop :=
  ∀ v s new t out u, T.Enters v s new t → Ends (onward v.address v.model new) t out u →
    (Json.object v.arguments).WellKeyed →
    T.Serves (events v.address v.model v.arguments) s u fun give =>
      out = below give v.address v.model v.arguments

variable (honward : T.OnwardServes onward events below) {above : List Pick} {owner : String}
  {supplied : List String} {step : Step}
include honward

theorem element_serves {x : Json × Nat} {w : Json}
    (h : Ends (T.element onward above step x) s w t) (keyed : x.1.WellKeyed) :
    T.Serves (WalkEvent.ofElement events above step x) s t fun give =>
      w = endowElement (below give) above step x := by
  obtain ⟨v, i⟩ := x
  have run := element_ends h
  cases v with
  | object o =>
    cases run with
    | create action identified rest =>
      have created : Visit.isCreated ⟨above ++ [⟨step, i⟩], step.related, o⟩ = true := by
        simp [Visit.isCreated, action]
      exact (honward _ _ _ _ _ _ (enters_of_identify created identified) rest keyed).imp
        fun give hout => congrArg Json.object hout
    | connect action rest =>
      have none : T.receives ⟨above ++ [⟨step, i⟩], step.related, o⟩ = false := by
        simp [receives, Visit.isNewcomer, Visit.isCreated, action]
      exact (honward _ _ _ _ _ _ (.same none) rest keyed).imp
        fun give hout => congrArg Json.object hout
  | null | bool _ | number _ | string _ | array _ => cases run

theorem elements_serves {v w : Json}
    (h : Ends (T.elements onward above owner supplied step v) s w t) (keyed : v.WellKeyed) :
    T.Serves (WalkEvent.ofBranch events above (step, v)) s t fun give =>
      w = endowElements (below give) above step v := by
  simp only [elements, ends_bind] at h
  obtain ⟨⟨⟩, u, hnoted, h⟩ := h
  obtain ⟨hvisits, hdrawn⟩ := noteGroup_quiet hnoted
  have noted : T.Serves [.supply (above.map Pick.step ++ [step])] s u fun _ => True :=
    .quiet rfl hvisits hdrawn fun _ => trivial
  have single : Ends (T.element onward above step (v, 0)) u w t → v.elements = [v] →
      T.Serves (WalkEvent.ofBranch events above (step, v)) s t fun give =>
        w = endowElement (below give) above step (v, 0) := by
    intro h hv
    have one : v.elements.zipIdx.flatMap (WalkEvent.ofElement events above step) =
        WalkEvent.ofElement events above step (v, 0) := by
      rw [hv]
      exact List.append_nil _
    have run := noted.append (element_serves honward h keyed)
    rw [← one] at run
    exact run.imp fun give h => h.2
  cases v with
  | array items =>
    simp only [ends_bind, ends_pure, ends_mapM] at h
    obtain ⟨ws, _, hws, rfl, rfl⟩ := h
    have each := Serves.threads hws fun x hx s y t run =>
      element_serves honward run (keyed.of_mem_elements (List.fst_mem_of_mem_zipIdx hx))
    exact (noted.append each).imp fun give h => congrArg Json.array h.2
  | null | bool _ | number _ | string _ | object _ => exact single h rfl

/-- What one action of a relation leaves. -/
theorem action_serves {nested out : Json.Object} (hnodup : (Entries.keys nested).Nodup)
    (keyed : ∀ v, step.action.given? nested = some v → v.WellKeyed)
    (h : Ends (T.action onward above owner supplied step nested) s out t) :
    T.Serves ((step.action.branch step.field step.related nested).flatMap
        (WalkEvent.ofBranch events above)) s t fun give =>
      out = Entries.mapValues (fun k v =>
        if k = step.action.text then endowElements (below give) above step v else v) nested := by
  unfold action at h
  split at h
  · next hnone =>
    obtain ⟨rfl, rfl⟩ := (ends_pure _ _ _ _).1 h
    have none : step.action.given? out = none := hnone
    rw [NestedAction.branch, none]
    refine .quiet rfl rfl rfl fun give => (Entries.mapValues_eq_self fun k v hv => ?_).symm
    split
    · next hk =>
      have null : v = .null := by
        rw [NestedAction.given?, ← hk, Entries.get?_of_mem hnodup hv] at none
        cases v <;> first | rfl | cases none
      rw [null]
      rfl
    · rfl
  · next v hv =>
    simp only [ends_bind, ends_pure] at h
    obtain ⟨w, _, hw, rfl, rfl⟩ := h
    have given : step.action.given? nested = some v := hv
    have run := elements_serves honward hw (keyed v given)
    rw [NestedAction.branch, given]
    show T.Serves (WalkEvent.ofBranch events above (step, v) ++ []) _ _ _
    rw [List.append_nil]
    refine run.imp fun give hw => ?_
    rw [Entries.insert_eq_mapValues w (NestedAction.mem_keys_of_given? given) hnodup]
    refine Entries.mapValues_congr fun k v' hv' => ?_
    split
    · next hk =>
      obtain ⟨hget, -⟩ := NestedAction.given?_eq_some.1 given
      rw [← hk, Entries.get?_of_mem hnodup hv'] at hget
      rw [hw, Option.some.inj hget]
    · rfl

/-- What a relation leaves: each action leaves the branch of the other as it is. -/
theorem relation_serves {info : ModelInfo} {field related : String} {nested out : Json.Object}
    (keyed : (Json.object nested).WellKeyed)
    (h : Ends (T.relation onward above owner info supplied field related nested) s out t) :
    T.Serves ((NestedAction.create.branch field related nested ++
        NestedAction.connect.branch field related nested).flatMap
        (WalkEvent.ofBranch events above)) s t fun give =>
      out = endowNested (below give) above field related nested := by
  unfold relation at h
  simp only at h
  split at h
  · exact absurd h (not_ends_throw _ s t out)
  · obtain ⟨created, u, hcreate, hconnect⟩ := (ends_bind _ _ _ _ _).1 h
    obtain ⟨-, -, -, keys⟩ := action_ends hcreate
    have given : ∀ a : NestedAction, ∀ v, a.given? nested = some v → v.WellKeyed :=
      fun a v hv => keyed.of_get? (NestedAction.given?_eq_some.1 hv).1
    have distinct : NestedAction.create.text ≠ NestedAction.connect.text := by decide
    have same : NestedAction.connect.given? created = NestedAction.connect.given? nested :=
      given?_of_action (by simp) hcreate
    have first := action_serves honward keyed.nodup_keys (given .create) hcreate
    have second := action_serves honward (by rw [keys]; exact keyed.nodup_keys)
      (by intro v hv; exact given .connect v (same ▸ hv)) hconnect
    have branch : NestedAction.connect.branch field related created =
        NestedAction.connect.branch field related nested := by
      rw [NestedAction.branch, same, NestedAction.branch]
    rw [List.flatMap_append]
    simp only [branch] at second
    refine (first.append second).imp fun give h => ?_
    obtain ⟨rfl, rfl⟩ := h
    rw [Entries.mapValues_mapValues]
    refine Entries.mapValues_congr fun k v _ => ?_
    by_cases hc : k = NestedAction.create.text
    · subst hc
      rw [if_neg distinct, if_pos rfl]
      rfl
    · rw [if_neg hc]
      by_cases hd : k = NestedAction.connect.text
      · subst hd
        rw [if_pos rfl]
        rfl
      · have none : NestedAction.ofText? k = none := by
          cases ha : NestedAction.ofText? k with
          | none => rfl
          | some a =>
            cases a
            · exact absurd (NestedAction.ofText?_eq_some.1 ha) hc
            · exact absurd (NestedAction.ofText?_eq_some.1 ha) hd
        rw [if_neg hd, none]

theorem argument_serves {info : ModelInfo} {entry out : String × Json}
    (keyed : entry.2.WellKeyed)
    (h : Ends (T.argument onward above owner info supplied entry) s out t) :
    T.Serves ((info.branchesOf entry).flatMap (WalkEvent.ofBranch events above)) s t fun give =>
      out = endowEntry (below give) info above entry := by
  obtain ⟨field, v⟩ := entry
  unfold argument at h
  split at h
  · next related nested hrelated hobject =>
    simp only [ends_bind, ends_pure] at h
    obtain ⟨written, _, hwritten, rfl, rfl⟩ := h
    cases hobject
    rw [ModelInfo.branchesOf_relation hrelated]
    refine (relation_serves honward keyed hwritten).imp fun give hout => ?_
    simp only [endowEntry, hrelated, hout]
  · next hother =>
    obtain ⟨rfl, rfl⟩ := (ends_pure _ _ _ _).1 h
    have none : info.branchesOf (field, v) = [] := by
      unfold ModelInfo.branchesOf
      split
      · next related nested hrelated hobject =>
        exact absurd hobject (hother related nested hrelated)
      · rfl
    rw [none]
    refine .quiet rfl rfl rfl fun give => ?_
    unfold endowEntry
    split
    · next related nested hrelated hobject =>
      exact absurd hobject (hother related nested hrelated)
    · rfl

/-- What a visit leaves of an object that was entered. -/
theorem visit_serves {address : List Pick} {model : String} {arguments out : Json.Object}
    (keyed : (Json.object arguments).WellKeyed)
    (h : Ends (T.visit onward address model arguments) s out t) :
    ∃ info, T.catalog.model model = .ok info ∧
      T.Serves ((info.branches arguments).flatMap (WalkEvent.ofBranch events address))
        { s with visits := s.visits ++ [⟨address, model, arguments⟩] } t fun give =>
          out = arguments.map (endowEntry (below give) info address) := by
  simp only [visit, ends_bind, ends_lift, note, ends_modify, ends_mapM] at h
  obtain ⟨info, _, ⟨hinfo, rfl⟩, -, _, rfl, runs⟩ := h
  refine ⟨info, hinfo, ?_⟩
  rw [ModelInfo.branches, List.flatMap_assoc]
  exact Serves.threads runs fun entry hentry s out t run =>
    argument_serves honward (keyed.of_mem hentry) run

end

theorem endowEntry_id (below : List Pick → String → Json.Object → Json.Object) (info : ModelInfo)
    (above : List Pick) (id : String) :
    endowEntry below info above (Names.id, .string id) = (Names.id, .string id) := by
  unfold endowEntry
  split
  · next hobject => cases hobject
  · rfl

theorem Enters.identified {v : Visit} {new : Json.Object} (h : T.Enters v s new t) :
    Identified v.arguments new := by
  cases h with
  | given ids newcomer next =>
    refine .inr ⟨fun hmem => ?_, _, rfl⟩
    have hid := (Entries.contains_iff_mem_keys ..).2 hmem
    simp [Visit.isNewcomer, hid] at newcomer
  | same none => exact .inl rfl

/-- Entering an object and noting its visit serves that visit. -/
theorem Enters.serves {v : Visit} {new : Json.Object} (h : T.Enters v s new t) :
    T.Serves [.visit v] s { t with visits := t.visits ++ [⟨v.address, v.model, new⟩] } fun give =>
      new = v.arguments ++ (give v.address).toList.map fun id => (Names.id, .string id) := by
  have met : Met v ⟨v.address, v.model, new⟩ := ⟨rfl, rfl, h.identified⟩
  cases h with
  | @given g id ids newcomer next =>
    have receives : T.receives v = true := by simp [Tour.receives, ids, newcomer]
    refine ⟨⟨_, rfl, .cons met .nil⟩, [(v.address, id)], ?_, ?_, rfl, fun give hgive => ?_⟩
    · show [v.address] = (List.filter T.receives [v]).map Visit.address
      rw [List.filter_cons_of_pos receives]
      rfl
    · intro g' hg' i p hi
      cases ids.symm.trans hg'
      cases i with
      | zero =>
        cases hi
        exact next
      | succ i => cases hi
    · have hgiven := hgive.drawn _ (List.mem_singleton_self (v.address, id))
      rw [hgiven]
      rfl
  | same none =>
    refine ⟨⟨_, rfl, .cons met .nil⟩, [], ?_, fun _ _ _ _ h => ?_, rfl, fun give hgive => ?_⟩
    · show [] = (List.filter T.receives [v]).map Visit.address
      rw [List.filter_cons_of_neg (by simp [none])]
      rfl
    · cases h
    · rw [hgive.others v List.mem_cons_self none]
      exact (List.append_nil _).symm

/-- **What a walk does about ids.** It meets the visits among the events of the arguments,
draws an id for each newcomer in turn, and leaves the arguments with those ids. -/
theorem walk_serves (levels : Nat) :
    T.OnwardServes (T.walk levels) (T.catalog.events levels)
      fun give => T.catalog.endow give levels := by
  induction levels with
  | zero =>
    intro v s new t out u _ h
    exact absurd h (not_ends_throw _ t u out)
  | succ levels ih =>
    intro v s new t out u entered h keyed
    have identified := entered.identified
    obtain ⟨info, hinfo, serves⟩ := visit_serves ih (identified.wellKeyed keyed) h
    rw [identified.branches info] at serves
    have all := entered.serves.append serves
    rw [Catalog.events, hinfo]
    refine all.imp fun give h => ?_
    obtain ⟨rfl, rfl⟩ := h
    have ids : ((give v.address).toList.map fun id => (Names.id, Json.string id)).map
        (endowEntry (T.catalog.endow give levels) info v.address) =
          (give v.address).toList.map fun id => (Names.id, Json.string id) := by
      rw [List.map_map]
      exact List.map_congr_left fun id _ => endowEntry_id _ info _ id
    show _ = T.catalog.endow give (levels + 1) v.address v.model v.arguments
    rw [List.map_append, ids, Catalog.endow, hinfo]

end Tour

end GraphqlCypher
