import GraphqlCypher.Proofs.Mutation.Events
import Mathlib.Data.List.Induction
import Mathlib.Data.List.Nodup

/-! The paths among the events of a walk.

A path is supplied just when an object that is reached by all of it but its last step
supplies that step (`mem_pathsOf_iff`). Every path comes after its proper prefixes
(`parentsFirst_pathsOf`), and keeping the first of each path keeps that order. Along a
path the related models are known from the fields, so paths that agree in their fields
and actions are the same (`Leads.eq_of_keys`). -/
namespace GraphqlCypher

/-! ### First occurrences -/

section

variable {α : Type} [BEq α] [LawfulBEq α]

theorem eraseDups_concat (l : List α) (a : α) :
    (l ++ [a]).eraseDups = if a ∈ l then l.eraseDups else l.eraseDups ++ [a] := by
  rw [List.eraseDups_append]
  by_cases h : a ∈ l
  · simp [List.removeAll, h]
  · simp [List.removeAll, h, List.eraseDups_cons]

theorem nodup_eraseDups (l : List α) : l.eraseDups.Nodup := by
  induction l using List.reverseRecOn with
  | nil => exact List.nodup_nil
  | append_singleton l a ih =>
    rw [eraseDups_concat]
    split
    · exact ih
    · next h =>
      refine List.nodup_append.2 ⟨ih, List.nodup_singleton a, fun b hb c hc => ?_⟩
      intro h
      subst h
      rw [List.mem_singleton.1 hc] at hb
      exact h (List.mem_eraseDups.1 hb)

end

/-- Noting paths one by one leaves the first of each. -/
theorem foldl_notePath (paths : List (List Step)) :
    paths.foldl notePath [] = paths.eraseDups := by
  induction paths using List.reverseRecOn with
  | nil => rfl
  | append_singleton paths path ih =>
    rw [List.foldl_append, ih, List.foldl_cons, List.foldl_nil, notePath, eraseDups_concat]
    simp only [List.mem_eraseDups]

/-! ### Order -/

/-- Every path comes after its proper prefixes, apart from those that are known. -/
def ParentsFirst (known paths : List (List Step)) : Prop :=
  ∀ before path after, paths = before ++ path :: after →
    ∀ above, above <+: path → above ≠ path → above ∈ known ∨ above ∈ before

namespace ParentsFirst

variable {known known' paths paths' : List (List Step)}

theorem nil : ParentsFirst known [] := by
  intro before path after h
  exact absurd h (by simp)

theorem mono (h : ParentsFirst known paths) (sub : ∀ p ∈ known, p ∈ known') :
    ParentsFirst known' paths :=
  fun before path after e above hpre hne => (h before path after e above hpre hne).imp_left (sub _)

theorem append (h : ParentsFirst known paths) (h' : ParentsFirst (known ++ paths) paths') :
    ParentsFirst known (paths ++ paths') := by
  intro before path after e above hpre hne
  rcases List.append_eq_append_iff.1 e with ⟨mid, rfl, e'⟩ | ⟨mid, e', rest⟩
  · rcases h' mid path after e' above hpre hne with hk | hm
    · rcases List.mem_append.1 hk with hk | hp
      · exact .inl hk
      · exact .inr (List.mem_append_left _ hp)
    · exact .inr (List.mem_append_right _ hm)
  · cases mid with
    | nil =>
      rw [List.append_nil] at e'
      rw [List.nil_append] at rest
      rcases h' [] path after rest.symm above hpre hne with hk | hm
      · exact (List.mem_append.1 hk).imp_right fun hp => e' ▸ hp
      · exact absurd hm List.not_mem_nil
    | cons p mid =>
      rw [List.cons_append, List.cons.injEq] at rest
      obtain ⟨rfl, rfl⟩ := rest
      exact h before path mid e' above hpre hne

theorem flatMap {α : Type} {l : List α} {f : α → List (List Step)}
    (h : ∀ x ∈ l, ParentsFirst known (f x)) : ParentsFirst known (l.flatMap f) := by
  induction l with
  | nil => exact nil
  | cons x xs ih =>
    rw [List.flatMap_cons]
    refine (h x List.mem_cons_self).append ?_
    exact (ih fun y hy => h y (List.mem_cons_of_mem _ hy)).mono
      fun p hp => List.mem_append_left _ hp

theorem singleton {path : List Step} (h : ∀ above, above <+: path → above ≠ path → above ∈ known) :
    ParentsFirst known [path] := by
  intro before path' after e above hpre hne
  cases before with
  | nil =>
    rw [List.nil_append, List.cons.injEq] at e
    obtain ⟨rfl, -⟩ := e
    exact .inl (h above hpre hne)
  | cons p before => exact absurd (congrArg List.length e) (by simp)

/-- The first of each path are in order too. -/
theorem eraseDups (h : ParentsFirst known paths) : ParentsFirst known paths.eraseDups := by
  induction paths using List.reverseRecOn with
  | nil => exact nil
  | append_singleton paths path ih =>
    have front : ParentsFirst known paths := by
      intro before p after e
      exact h before p (after ++ [path]) (by rw [e]; simp)
    rw [eraseDups_concat]
    split
    · exact ih front
    · refine (ih front).append (singleton fun above hpre hne => ?_)
      rw [List.mem_append, List.mem_eraseDups]
      exact h paths path [] rfl above hpre hne

end ParentsFirst

/-! ### Where paths lead -/

/-- A step without the model it leads to. -/
def Step.key (s : Step) : String × NestedAction := (s.field, s.action)

/-- A step of a model: its field is a relation to the model that it leads to. -/
def Catalog.HasStep (c : Catalog) (model : String) (s : Step) : Prop :=
  ∃ info, c.model model = .ok info ∧ info.related? s.field = some s.related

/-- A path leads from a model to a model. -/
def Catalog.Leads (c : Catalog) : String → List Step → String → Prop
  | model, [], target => model = target
  | model, s :: rest, target => c.HasStep model s ∧ c.Leads s.related rest target

namespace Catalog

variable {c : Catalog}

theorem Leads.append {model between target : String} {path rest : List Step}
    (h : c.Leads model path between) (h' : c.Leads between rest target) :
    c.Leads model (path ++ rest) target := by
  induction path generalizing model with
  | nil =>
    obtain rfl : model = between := h
    exact h'
  | cons s path ih => exact ⟨h.1, ih h.2⟩

/-- From one model, the fields and actions of a path tell all of it. -/
theorem Leads.eq_of_keys {model target target' : String} {path path' : List Step}
    (h : c.Leads model path target) (h' : c.Leads model path' target')
    (keys : path.map Step.key = path'.map Step.key) : path = path' := by
  induction path generalizing model path' with
  | nil => exact (List.map_eq_nil_iff.1 keys.symm).symm
  | cons s path ih =>
    cases path' with
    | nil => exact absurd keys (by simp)
    | cons s' path' =>
      obtain ⟨⟨info, hinfo, hrelated⟩, hpath⟩ := h
      obtain ⟨⟨info', hinfo', hrelated'⟩, hpath'⟩ := h'
      rw [List.map_cons, List.map_cons, List.cons.injEq, Step.key, Step.key, Prod.mk.injEq] at keys
      obtain ⟨⟨hfield, haction⟩, hrest⟩ := keys
      cases hinfo.symm.trans hinfo'
      rw [← hfield, hrelated] at hrelated'
      have head : s = s' := by
        cases s
        cases s'
        simp_all
      subst head
      rw [ih hpath hpath' hrest]

/-- An event at an object is its visit, or is at one of its branches. -/
theorem mem_events_iff {levels : Nat} {address : List Pick} {model : String}
    {arguments : Json.Object} {e : WalkEvent} :
    e ∈ c.events (levels + 1) address model arguments ↔
      ∃ info, c.model model = .ok info ∧
        (e = .visit ⟨address, model, arguments⟩ ∨
          ∃ step v, (step, v) ∈ info.branches arguments ∧
            (e = .supply (address.map Pick.step ++ [step]) ∨
              ∃ o i, (Json.object o, i) ∈ v.elements.zipIdx ∧
                e ∈ c.events levels (address ++ [⟨step, i⟩]) step.related o)) := by
  rw [events]
  cases hmodel : c.model model with
  | error e => simp
  | ok info =>
    simp only [List.mem_cons, List.mem_flatMap, WalkEvent.ofBranch, Prod.exists]
    constructor
    · intro h
      obtain rfl | ⟨step, v, hbranch, rfl | ⟨w, i, hw, he⟩⟩ := h
      · exact ⟨info, rfl, .inl rfl⟩
      · exact ⟨info, rfl, .inr ⟨step, v, hbranch, .inl rfl⟩⟩
      · cases w with
        | object o => exact ⟨info, rfl, .inr ⟨step, v, hbranch, .inr ⟨o, i, hw, he⟩⟩⟩
        | null | bool _ | number _ | string _ | array _ => exact absurd he List.not_mem_nil
    · intro h
      obtain ⟨info', hinfo, h⟩ := h
      cases hinfo
      rcases h with rfl | ⟨step, v, hbranch, rfl | ⟨o, i, ho, he⟩⟩
      · exact .inl rfl
      · exact .inr ⟨step, v, hbranch, .inl rfl⟩
      · exact .inr ⟨step, v, hbranch, .inr ⟨.object o, i, ho, he⟩⟩

theorem hasStep_of_mem_branches {model : String} {info : ModelInfo} {arguments : Json.Object}
    {step : Step} {v : Json} (hinfo : c.model model = .ok info)
    (h : (step, v) ∈ info.branches arguments) : c.HasStep model step :=
  ⟨info, hinfo, (ModelInfo.mem_branches_iff.1 h).1⟩

/-- A visit says where its path leads, and a path leads somewhere. -/
def EventLeads (c : Catalog) (root : String) : WalkEvent → Prop
  | .visit v => c.Leads root v.path v.model
  | .supply path => ∃ target, c.Leads root path target

theorem eventLeads {root : String} {levels : Nat} :
    ∀ {address : List Pick} {model : String} {arguments : Json.Object},
      c.Leads root (address.map Pick.step) model →
      ∀ e ∈ c.events levels address model arguments, c.EventLeads root e := by
  induction levels with
  | zero => exact fun _ e he => absurd he List.not_mem_nil
  | succ levels ih =>
    intro address model arguments hleads e he
    obtain ⟨info, hinfo, rfl | ⟨step, v, hbranch, h⟩⟩ := mem_events_iff.1 he
    · exact hleads
    · have further : c.Leads root (address.map Pick.step ++ [step]) step.related :=
        hleads.append ⟨hasStep_of_mem_branches hinfo hbranch, rfl⟩
      rcases h with rfl | ⟨o, i, -, he⟩
      · exact ⟨step.related, further⟩
      · refine ih ?_ e he
        rw [List.map_append]
        exact further

/-! ### Supplied paths -/

theorem mem_visitsOf {events : List WalkEvent} {v : Visit} :
    v ∈ visitsOf events ↔ WalkEvent.visit v ∈ events := by
  rw [visitsOf, List.mem_filterMap]
  constructor
  · intro h
    obtain ⟨_ | _, he, hv⟩ := h
    · cases hv
      exact he
    · cases hv
  · exact fun h => ⟨_, h, rfl⟩

theorem mem_pathsOf {events : List WalkEvent} {path : List Step} :
    path ∈ pathsOf events ↔ WalkEvent.supply path ∈ events := by
  rw [pathsOf, List.mem_filterMap]
  constructor
  · intro h
    obtain ⟨_ | _, he, hp⟩ := h
    · cases hp
    · cases hp
      exact he
  · exact fun h => ⟨_, h, rfl⟩

/-- A visited object holds an object under a relation, and that has something for an
action. -/
def Supplies (c : Catalog) (v : Visit) (step : Step) : Prop :=
  c.HasStep v.model step ∧ ∃ nested, (step.field, .object nested) ∈ v.arguments ∧
    (step.action.given? nested).isSome

theorem supplies_iff {v : Visit} {step : Step} {info : ModelInfo}
    (hinfo : c.model v.model = .ok info) :
    c.Supplies v step ↔ ∃ w, (step, w) ∈ info.branches v.arguments := by
  simp only [Supplies, HasStep, ModelInfo.mem_branches_iff, Option.isSome_iff_exists]
  constructor
  · intro h
    obtain ⟨⟨info', hinfo', hrelated⟩, nested, hmem, w, hw⟩ := h
    cases hinfo.symm.trans hinfo'
    exact ⟨w, hrelated, nested, hmem, hw⟩
  · intro h
    obtain ⟨w, hrelated, nested, hmem, hw⟩ := h
    exact ⟨⟨info, hinfo, hrelated⟩, nested, hmem, w, hw⟩

/-- **The supplied paths** are those of the visited objects, each with a step that the
object supplies. -/
theorem mem_pathsOf_iff {levels : Nat} :
    ∀ {address : List Pick} {model : String} {arguments : Json.Object} {path : List Step},
      path ∈ pathsOf (c.events levels address model arguments) ↔
        ∃ v ∈ visitsOf (c.events levels address model arguments), ∃ step,
          c.Supplies v step ∧ path = v.path ++ [step] := by
  simp only [mem_visitsOf, mem_pathsOf]
  induction levels with
  | zero => simp [events]
  | succ levels ih =>
    intro address model arguments path
    constructor
    · intro h
      obtain ⟨info, hinfo, h | ⟨step, w, hbranch, h | ⟨o, i, ho, he⟩⟩⟩ := mem_events_iff.1 h
      · cases h
      · cases h
        have root : WalkEvent.visit ⟨address, model, arguments⟩ ∈
            c.events (levels + 1) address model arguments :=
          mem_events_iff.2 ⟨info, hinfo, .inl rfl⟩
        refine ⟨_, root, step, ?_, rfl⟩
        exact (supplies_iff hinfo).2 ⟨w, hbranch⟩
      · obtain ⟨v, hv, last, hsupplies, rfl⟩ := ih.1 he
        exact ⟨v, mem_events_iff.2 ⟨info, hinfo, .inr ⟨step, w, hbranch, .inr ⟨o, i, ho, hv⟩⟩⟩,
          last, hsupplies, rfl⟩
    · intro h
      obtain ⟨v, hv, last, hsupplies, rfl⟩ := h
      obtain ⟨info, hinfo, h | ⟨step, w, hbranch, h | ⟨o, i, ho, he⟩⟩⟩ := mem_events_iff.1 hv
      · cases h
        obtain ⟨w, hbranch⟩ := (supplies_iff hinfo).1 hsupplies
        exact mem_events_iff.2 ⟨info, hinfo, .inr ⟨last, w, hbranch, .inl rfl⟩⟩
      · cases h
      · exact mem_events_iff.2 ⟨info, hinfo, .inr ⟨step, w, hbranch, .inr ⟨o, i, ho,
          ih.2 ⟨v, he, last, hsupplies, rfl⟩⟩⟩⟩

theorem pathsOf_flatMap {α : Type} (l : List α) (f : α → List WalkEvent) :
    pathsOf (l.flatMap f) = l.flatMap fun x => pathsOf (f x) := List.filterMap_flatMap ..

/-- Every supplied path comes after its proper prefixes. -/
theorem parentsFirst_pathsOf {levels : Nat} :
    ∀ {address : List Pick} {model : String} {arguments : Json.Object} {known : List (List Step)},
      (∀ above, above <+: address.map Pick.step → above ∈ known) →
      ParentsFirst known (pathsOf (c.events levels address model arguments)) := by
  induction levels with
  | zero => exact fun _ => .nil
  | succ levels ih =>
    intro address model arguments known hknown
    rw [events]
    cases c.model model with
    | error e => exact .nil
    | ok info =>
      show ParentsFirst known (pathsOf (List.flatMap _ _))
      rw [pathsOf_flatMap]
      refine .flatMap fun branch _ => ?_
      have below : ∀ above, above <+: address.map Pick.step ++ [branch.1] →
          above = address.map Pick.step ++ [branch.1] ∨ above ∈ known := by
        intro above h
        rcases List.prefix_concat_iff.1 h with h | h
        · exact .inl h
        · exact .inr (hknown above h)
      refine (ParentsFirst.singleton fun above h hne => (below above h).resolve_left hne).append ?_
      show ParentsFirst _ (pathsOf (List.flatMap _ _))
      rw [pathsOf_flatMap]
      refine .flatMap fun e _ => ?_
      obtain ⟨w, i⟩ := e
      cases w with
      | object o =>
        refine ih fun above h => ?_
        rw [List.map_append] at h
        rcases below above h with rfl | h
        · exact List.mem_append_right _ List.mem_cons_self
        · exact List.mem_append_left _ h
      | null | bool _ | number _ | string _ | array _ => exact .nil

end Catalog

end GraphqlCypher
