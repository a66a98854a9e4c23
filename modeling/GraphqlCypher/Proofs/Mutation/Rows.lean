import GraphqlCypher.Proofs.Mutation.Paths
import GraphqlCypher.Proofs.Mutation.Tidy

/-! The rows of a path.

A chain of unwinds starts with one row, the root arguments. Each unwind replaces a row
by what the row holds under a field and an action: the items of a list, any other value
itself, and nothing for `null`. `rowsAlong_eq` says that the rows at the end of a path are the
objects that a walk reaches along it, in the same order. -/
namespace GraphqlCypher

/-! ### Unwinding -/

/-- Where an element stands: under a field and an action, and its number there. -/
structure ElementPlace where
  field : String
  action : NestedAction
  index : Nat
deriving DecidableEq, Repr

def Pick.place (p : Pick) : ElementPlace := ⟨p.step.field, p.step.action, p.index⟩

/-- Where a visited object stands. -/
def Visit.place (v : Visit) : List ElementPlace := v.address.map Pick.place

/-- A row: a value, and where it was taken from. -/
structure Row where
  place : List ElementPlace
  value : Json
deriving Repr

/-- What a value holds under a field and an action, `null` standing for nothing. -/
def Json.under? (v : Json) (field : String) (a : NestedAction) : Option Json :=
  Json.given? ((v.get? field).bind (·.get? a.text))

/-- The value at a place. -/
def Json.at? : Json → List ElementPlace → Option Json
  | v, [] => some v
  | v, p :: rest => (v.under? p.field p.action).bind fun w => w.elements[p.index]?.bind (·.at? rest)

theorem Json.at?_append (v : Json) (place rest : List ElementPlace) :
    v.at? (place ++ rest) = (v.at? place).bind (·.at? rest) := by
  induction place generalizing v with
  | nil => rfl
  | cons p place ih =>
    simp only [List.cons_append, at?, ih]
    cases v.under? p.field p.action with
    | none => rfl
    | some w =>
      simp only [Option.bind_some]
      cases w.elements[p.index]? <;> rfl

/-- The rows in the place of a row. -/
def Row.unwind (s : Step) (r : Row) : List Row :=
  (r.value.under? s.field s.action).toList.flatMap fun v =>
    v.elements.zipIdx.map fun (e, i) => ⟨r.place ++ [⟨s.field, s.action, i⟩], e⟩

/-- The rows at the end of a path. -/
def rowsAlong (path : List Step) (rows : List Row) : List Row :=
  path.foldl (fun rows s => rows.flatMap (Row.unwind s)) rows

/-- The rows that a path leads to from the root arguments. -/
def rowsOf (path : List Step) (root : Json) : List Row := rowsAlong path [⟨[], root⟩]

theorem rowsOf_concat (path : List Step) (s : Step) (root : Json) :
    rowsOf (path ++ [s]) root = (rowsOf path root).flatMap (Row.unwind s) := by
  rw [rowsOf, rowsAlong, List.foldl_append]
  rfl

theorem rowsAlong_flatMap (path : List Step) (rows : List Row) :
    rowsAlong path rows = rows.flatMap fun r => rowsAlong path [r] := by
  induction path generalizing rows with
  | nil => exact (List.flatMap_singleton' rows).symm
  | cons s path ih =>
    show rowsAlong path (rows.flatMap (Row.unwind s)) = rows.flatMap fun r =>
      rowsAlong path ([r].flatMap (Row.unwind s))
    rw [ih, List.flatMap_assoc]
    refine congrArg (rows.flatMap ·) (funext fun r => ?_)
    rw [List.flatMap_singleton, ← ih]

theorem rowsAlong_cons (s : Step) (path : List Step) (r : Row) :
    rowsAlong (s :: path) [r] = (r.unwind s).flatMap fun r' => rowsAlong path [r'] := by
  show rowsAlong path ([r].flatMap (Row.unwind s)) = _
  rw [List.flatMap_singleton, rowsAlong_flatMap]

/-! ### Branches as unwinds -/

/-- A branch holds what its object holds there. -/
theorem under?_of_mem_branches {info : ModelInfo} {arguments : Json.Object} {step : Step}
    {v : Json} (hnodup : (Entries.keys arguments).Nodup)
    (h : (step, v) ∈ info.branches arguments) :
    (Json.object arguments).under? step.field step.action = some v := by
  obtain ⟨-, nested, hnested, hgiven⟩ := ModelInfo.mem_branches_iff.1 h
  unfold Json.under? Json.get?
  simp only [Entries.get?_of_mem hnodup hnested, Option.bind_some]
  exact hgiven

theorem mem_branches_of_under? {info : ModelInfo} {arguments : Json.Object} {step : Step}
    {v : Json} (hrelated : info.related? step.field = some step.related)
    (h : (Json.object arguments).under? step.field step.action = some v) :
    (step, v) ∈ info.branches arguments := by
  unfold Json.under? Json.get? at h
  cases hget : Entries.get? arguments step.field with
  | none =>
    simp only [hget] at h
    cases h
  | some w =>
    simp only [hget] at h
    cases w with
    | object nested =>
      exact ModelInfo.mem_branches_iff.2 ⟨hrelated, nested, Entries.mem_of_get? hget, h⟩
    | null | bool _ | number _ | string _ | array _ => cases h

/-- Each field and action has one branch at most. -/
theorem nodup_branches (info : ModelInfo) {arguments : Json.Object}
    (hnodup : (Entries.keys arguments).Nodup) :
    ((info.branches arguments).map fun b => b.1.key).Nodup := by
  have one : ∀ (a : NestedAction) (field related : String) (nested : Json.Object),
      ((a.branch field related nested).map fun b => b.1.key).Nodup := by
    intro a field related nested
    unfold NestedAction.branch
    cases a.given? nested with
    | none => exact List.nodup_nil
    | some v => exact List.nodup_singleton _
  rw [ModelInfo.branches, List.map_flatMap, List.nodup_flatMap]
  constructor
  · intro entry _
    obtain ⟨field, v⟩ := entry
    unfold ModelInfo.branchesOf
    split
    · next related nested _ _ =>
      rw [List.map_append, List.nodup_append]
      refine ⟨one .create _ _ _, one .connect _ _ _, fun k hk k' hk' e => ?_⟩
      obtain ⟨b, hb, rfl⟩ := List.mem_map.1 hk
      obtain ⟨b', hb', rfl⟩ := List.mem_map.1 hk'
      have hcreate := (NestedAction.mem_branch_iff.1 hb).1
      have hconnect := (NestedAction.mem_branch_iff.1 hb').1
      rw [hcreate, hconnect] at e
      cases e
    · exact List.nodup_nil
  · rw [Entries.keys, List.Nodup, List.pairwise_map] at hnodup
    refine hnodup.imp fun {x y} hne => List.disjoint_left.2 fun k hk hk' => ?_
    obtain ⟨⟨step, v⟩, hb, rfl⟩ := List.mem_map.1 hk
    obtain ⟨⟨step', v'⟩, hb', e⟩ := List.mem_map.1 hk'
    obtain ⟨-, nested, rfl, -⟩ := ModelInfo.mem_branchesOf_iff.1 hb
    obtain ⟨-, nested', rfl, -⟩ := ModelInfo.mem_branchesOf_iff.1 hb'
    exact hne (congrArg Prod.fst e).symm

theorem flatMap_eq_of_mem {α β : Type} {l : List α} {a : α} {f : α → List β} (hnodup : l.Nodup)
    (ha : a ∈ l) (h : ∀ b ∈ l, b ≠ a → f b = []) : l.flatMap f = f a := by
  obtain ⟨before, after, rfl⟩ := List.append_of_mem ha
  obtain ⟨-, hafter, hdisjoint⟩ := List.nodup_append.1 hnodup
  have before_nil : before.flatMap f = [] := by
    refine List.flatMap_eq_nil_iff.2 fun b hb => h b (List.mem_append_left _ hb) ?_
    exact hdisjoint b hb a List.mem_cons_self
  have after_nil : after.flatMap f = [] := by
    refine List.flatMap_eq_nil_iff.2 fun b hb => h b ?_ ?_
    · exact List.mem_append_right _ (List.mem_cons_of_mem _ hb)
    · exact fun e => (List.nodup_cons.1 hafter).1 (e ▸ hb)
  rw [List.flatMap_append, List.flatMap_cons, before_nil, after_nil, List.append_nil,
    List.nil_append]

/-- What is asked of one step alone is asked of what the object holds there. -/
theorem flatMap_branches {β : Type} {info : ModelInfo} {arguments : Json.Object} {s : Step}
    {f : Step × Json → List β} (hnodup : (Entries.keys arguments).Nodup)
    (hrelated : info.related? s.field = some s.related)
    (h : ∀ b ∈ info.branches arguments, b.1 ≠ s → f b = []) :
    (info.branches arguments).flatMap f =
      ((Json.object arguments).under? s.field s.action).toList.flatMap fun v => f (s, v) := by
  cases hunder : (Json.object arguments).under? s.field s.action with
  | none =>
    refine List.flatMap_eq_nil_iff.2 fun ⟨step, v⟩ hb => h _ hb ?_
    intro hstep
    subst hstep
    cases hunder.symm.trans (under?_of_mem_branches hnodup hb)
  | some v =>
    rw [flatMap_eq_of_mem (List.Nodup.of_map _ (nodup_branches info hnodup))
      (mem_branches_of_under? hrelated hunder)]
    · exact (List.append_nil _).symm
    · intro b hb hne
      obtain ⟨step, w⟩ := b
      refine h _ hb ?_
      intro hstep
      subst hstep
      have same := hunder.symm.trans (under?_of_mem_branches hnodup hb)
      exact hne (by rw [Option.some.inj same])

/-! ### Visits as rows -/

/-- A visited object as a row. -/
def Visit.row (v : Visit) : Row := ⟨v.place, .object v.arguments⟩

theorem visitsOf_flatMap {α : Type} (l : List α) (f : α → List WalkEvent) :
    visitsOf (l.flatMap f) = l.flatMap fun x => visitsOf (f x) := List.filterMap_flatMap ..

namespace Catalog

variable {c : Catalog}

/-- The visits at an object: its own, and those at the elements of its branches. -/
theorem visitsOf_events {levels : Nat} {address : List Pick} {model : String}
    {arguments : Json.Object} {info : ModelInfo} (hinfo : c.model model = .ok info) :
    visitsOf (c.events (levels + 1) address model arguments) =
      ⟨address, model, arguments⟩ :: (info.branches arguments).flatMap fun b =>
        b.2.elements.zipIdx.flatMap fun x =>
          visitsOf (WalkEvent.ofElement (c.events levels) address b.1 x) := by
  rw [events, hinfo]
  show _ :: visitsOf (List.flatMap _ _) = _
  rw [visitsOf_flatMap]
  refine congrArg (_ :: List.flatMap · _) (funext fun b => ?_)
  show visitsOf (List.flatMap _ _) = _
  rw [visitsOf_flatMap]

/-- Everything that is visited from an object stands below it. -/
theorem address_of_mem_visitsOf {levels : Nat} :
    ∀ {address : List Pick} {model : String} {arguments : Json.Object} {v : Visit},
      v ∈ visitsOf (c.events levels address model arguments) → address <+: v.address := by
  induction levels with
  | zero => exact fun h => absurd h List.not_mem_nil
  | succ levels ih =>
    intro address model arguments v h
    obtain ⟨info, hinfo, h | ⟨step, w, hbranch, h | ⟨o, i, ho, he⟩⟩⟩ :=
      mem_events_iff.1 (mem_visitsOf.1 h)
    · cases h
      exact List.prefix_rfl
    · cases h
    · exact (List.prefix_append _ _).trans (ih (mem_visitsOf.2 he))

/-- What is visited at an element stands below it. -/
theorem address_of_mem_ofElement {levels : Nat} {address : List Pick} {step : Step}
    {x : Json × Nat} {v : Visit}
    (h : v ∈ visitsOf (WalkEvent.ofElement (c.events levels) address step x)) :
    address ++ [⟨step, x.2⟩] <+: v.address := by
  obtain ⟨w, i⟩ := x
  cases w with
  | object o => exact address_of_mem_visitsOf h
  | null | bool _ | number _ | string _ | array _ => exact absurd h List.not_mem_nil

/-- Only the steps of a path lead to what is visited along it. -/
theorem filter_element_eq_nil {levels : Nat} {address : List Pick} {path : List Step}
    {b : Step × Json} (h : ¬ address.map Pick.step ++ [b.1] <+: path) :
    ((b.2.elements.zipIdx.flatMap fun x =>
      visitsOf (WalkEvent.ofElement (c.events levels) address b.1 x)).filter
        fun v => v.path = path) = [] := by
  refine List.filter_eq_nil_iff.2 fun v hv => ?_
  obtain ⟨x, -, hx⟩ := List.mem_flatMap.1 hv
  simp only [decide_eq_true_eq]
  intro h
  subst h
  have below := (address_of_mem_ofElement hx).map Pick.step
  rw [List.map_append] at below
  exact h below

/-- Of what is visited from an object, the object alone stands at the end of its own path. -/
theorem filter_visitsOf_root {levels : Nat} {address : List Pick} {model : String}
    {arguments : Json.Object} {info : ModelInfo} (hinfo : c.model model = .ok info) :
    (visitsOf (c.events (levels + 1) address model arguments)).filter
        (fun v => v.path = address.map Pick.step ++ []) = [⟨address, model, arguments⟩] := by
  have below : ((info.branches arguments).flatMap fun b => b.2.elements.zipIdx.flatMap fun x =>
      visitsOf (WalkEvent.ofElement (c.events levels) address b.1 x)).filter
      (fun v => v.path = address.map Pick.step ++ []) = [] := by
    rw [List.filter_flatMap]
    refine List.flatMap_eq_nil_iff.2 fun b _ => filter_element_eq_nil fun h => ?_
    have short := h.length_le
    simp only [List.append_nil, List.length_append, List.length_singleton] at short
    omega
  have root : decide (Visit.path ⟨address, model, arguments⟩ = address.map Pick.step ++ []) =
      true := by simp [Visit.path]
  rw [visitsOf_events hinfo, List.filter_cons, if_pos root, below]

/-- What is visited along a longer path is visited at what the object holds for its first
step. -/
theorem filter_visitsOf_step {levels : Nat} {address : List Pick} {model : String}
    {arguments : Json.Object} {info : ModelInfo} {s : Step} {path : List Step}
    (hinfo : c.model model = .ok info) (hnodup : (Entries.keys arguments).Nodup)
    (hrelated : info.related? s.field = some s.related) :
    (visitsOf (c.events (levels + 1) address model arguments)).filter
        (fun v => v.path = address.map Pick.step ++ s :: path) =
      ((Json.object arguments).under? s.field s.action).toList.flatMap fun w =>
        (w.elements.zipIdx.flatMap fun x =>
          visitsOf (WalkEvent.ofElement (c.events levels) address s x)).filter
            fun v => v.path = address.map Pick.step ++ s :: path := by
  have root : ¬ decide (Visit.path ⟨address, model, arguments⟩ =
      address.map Pick.step ++ s :: path) = true := by simp [Visit.path]
  have others : ∀ b ∈ info.branches arguments, b.1 ≠ s →
      ((b.2.elements.zipIdx.flatMap fun x => visitsOf (WalkEvent.ofElement (c.events levels)
        address b.1 x)).filter fun v => v.path = address.map Pick.step ++ s :: path) = [] := by
    intro b _ hne
    refine filter_element_eq_nil fun h => hne ?_
    rw [List.prefix_append_right_inj, List.cons_prefix_cons] at h
    exact h.1
  rw [visitsOf_events hinfo, List.filter_cons, if_neg root, List.filter_flatMap,
    flatMap_branches hnodup hrelated others]

/-- **Rows are visits.** The rows along a path are the objects that are reached along it,
in order and with their places. -/
theorem rowsAlong_eq {path : List Step} :
    ∀ {levels : Nat} (address : List Pick) {model target : String} {arguments : Json.Object},
      c.Tidy levels model arguments → c.Leads model path target →
      rowsAlong path [⟨address.map Pick.place, .object arguments⟩] =
        ((visitsOf (c.events levels address model arguments)).filter fun v =>
          v.path = address.map Pick.step ++ path).map Visit.row := by
  induction path with
  | nil =>
    intro levels address model target arguments tidy _
    cases levels with
    | zero => exact tidy.elim
    | succ levels =>
      obtain ⟨-, info, hinfo, -⟩ := tidy
      rw [filter_visitsOf_root hinfo]
      rfl
  | cons s path ih =>
    intro levels address model target arguments tidy leads
    cases levels with
    | zero => exact tidy.elim
    | succ levels =>
      obtain ⟨hnodup, info, hinfo, hbranches⟩ := tidy
      obtain ⟨⟨info', hinfo', hrelated⟩, hleads⟩ := leads
      cases hinfo.symm.trans hinfo'
      rw [filter_visitsOf_step hinfo hnodup hrelated, rowsAlong_cons, Row.unwind]
      cases hunder : (Json.object arguments).under? s.field s.action with
      | none => rfl
      | some v =>
        have hbranch := mem_branches_of_under? hrelated hunder
        simp only [Option.toList_some, List.flatMap_singleton, List.flatMap_map,
          List.filter_flatMap, List.map_flatMap]
        refine List.flatMap_congr fun x hx => ?_
        obtain ⟨e, i⟩ := x
        obtain ⟨o, rfl, ho⟩ := hbranches s v hbranch e (List.fst_mem_of_mem_zipIdx hx)
        have deeper := ih (address ++ [⟨s, i⟩]) ho hleads
        rw [List.map_append, List.map_append, List.append_assoc] at deeper
        exact deeper

/-! ### Places -/

/-- A visited object is what the arguments hold at its place. -/
theorem at?_of_mem_visitsOf {levels : Nat} :
    ∀ {address : List Pick} {model : String} {arguments : Json.Object},
      c.Tidy levels model arguments →
      ∀ v ∈ visitsOf (c.events levels address model arguments), ∃ rest,
        v.address = address ++ rest ∧
          (Json.object arguments).at? (rest.map Pick.place) = some (.object v.arguments) := by
  induction levels with
  | zero => exact fun tidy => tidy.elim
  | succ levels ih =>
    intro address model arguments tidy v hv
    obtain ⟨hnodup, info, hinfo, hbranches⟩ := tidy
    obtain ⟨info', hinfo', h | ⟨step, w, hbranch, h | ⟨o, i, ho, he⟩⟩⟩ :=
      mem_events_iff.1 (mem_visitsOf.1 hv)
    · cases h
      exact ⟨[], (List.append_nil _).symm, rfl⟩
    · cases h
    · cases hinfo.symm.trans hinfo'
      have helement := List.mk_mem_zipIdx_iff_getElem?.1 ho
      obtain ⟨o', heq, tidy⟩ := hbranches step w hbranch _ (List.mem_of_getElem? helement)
      cases heq
      obtain ⟨rest, hrest, hat⟩ := ih tidy v (mem_visitsOf.2 he)
      refine ⟨⟨step, i⟩ :: rest, by rw [hrest, List.append_assoc]; rfl, ?_⟩
      rw [List.map_cons, Json.at?, Pick.place]
      simp only [under?_of_mem_branches hnodup hbranch, Option.bind_some, helement]
      exact hat

theorem last_eq_of_prefix {α : Type} {l m : List α} {a b : α} (h : l ++ [a] <+: m)
    (h' : l ++ [b] <+: m) : a = b := by
  obtain ⟨t, rfl⟩ := h
  obtain ⟨t', e⟩ := h'
  simp only [List.append_assoc, List.append_cancel_left_eq, List.cons_append, List.cons.injEq] at e
  exact e.1.symm

/-- Where something is visited at an element, it stands below it. -/
theorem place_of_mem_ofElement {levels : Nat} {address : List Pick} {step : Step}
    {x : Json × Nat} {place : List ElementPlace}
    (h : place ∈ (visitsOf (WalkEvent.ofElement (c.events levels) address step x)).map
      Visit.place) :
    address.map Pick.place ++ [⟨step.field, step.action, x.2⟩] <+: place := by
  obtain ⟨v, hv, rfl⟩ := List.mem_map.1 h
  have below := (address_of_mem_ofElement hv).map Pick.place
  rw [List.map_append] at below
  exact below

/-- The elements of a step have places of their own. -/
theorem nodup_element_places {levels : Nat} {address : List Pick} {step : Step} {w : Json}
    (each : ∀ x ∈ w.elements.zipIdx,
      ((visitsOf (WalkEvent.ofElement (c.events levels) address step x)).map Visit.place).Nodup) :
    ((w.elements.zipIdx.flatMap fun x =>
      visitsOf (WalkEvent.ofElement (c.events levels) address step x)).map Visit.place).Nodup := by
  have numbers : (w.elements.zipIdx.map Prod.snd).Nodup := by
    rw [List.zipIdx_map_snd]
    exact List.nodup_range'
  rw [List.Nodup, List.pairwise_map] at numbers
  rw [List.map_flatMap, List.nodup_flatMap]
  refine ⟨each, numbers.imp fun {x y} hne => List.disjoint_left.2 fun place h h' => ?_⟩
  have same := last_eq_of_prefix (place_of_mem_ofElement h) (place_of_mem_ofElement h')
  exact hne (congrArg ElementPlace.index same)

/-- Branches have places of their own. -/
theorem disjoint_branch_places {levels : Nat} {address : List Pick} {b b' : Step × Json}
    (hne : b.1.key ≠ b'.1.key) :
    List.Disjoint
      ((b.2.elements.zipIdx.flatMap fun x =>
        visitsOf (WalkEvent.ofElement (c.events levels) address b.1 x)).map Visit.place)
      ((b'.2.elements.zipIdx.flatMap fun x =>
        visitsOf (WalkEvent.ofElement (c.events levels) address b'.1 x)).map Visit.place) := by
  rw [List.disjoint_left]
  intro place h h'
  rw [List.map_flatMap] at h h'
  obtain ⟨x, -, h⟩ := List.mem_flatMap.1 h
  obtain ⟨x', -, h'⟩ := List.mem_flatMap.1 h'
  have same := last_eq_of_prefix (place_of_mem_ofElement h) (place_of_mem_ofElement h')
  exact hne (Prod.ext (congrArg ElementPlace.field same) (congrArg ElementPlace.action same))

/-- No two visited objects stand at one place. -/
theorem nodup_places {levels : Nat} :
    ∀ {address : List Pick} {model : String} {arguments : Json.Object},
      c.Tidy levels model arguments →
      ((visitsOf (c.events levels address model arguments)).map Visit.place).Nodup := by
  induction levels with
  | zero => exact fun tidy => tidy.elim
  | succ levels ih =>
    intro address model arguments tidy
    obtain ⟨hnodup, info, hinfo, hbranches⟩ := tidy
    rw [visitsOf_events hinfo, List.map_cons, List.map_flatMap, List.nodup_cons,
      List.nodup_flatMap]
    refine ⟨?_, ?_, ?_⟩
    · -- Everything below the object has a longer place.
      intro h
      obtain ⟨b, -, h⟩ := List.mem_flatMap.1 h
      rw [List.map_flatMap] at h
      obtain ⟨x, -, h⟩ := List.mem_flatMap.1 h
      have short := (place_of_mem_ofElement h).length_le
      simp only [Visit.place, List.length_append, List.length_singleton] at short
      omega
    · intro b hb
      obtain ⟨step, w⟩ := b
      refine nodup_element_places fun x hx => ?_
      obtain ⟨e, i⟩ := x
      obtain ⟨o, rfl, tidy⟩ := hbranches step w hb e (List.fst_mem_of_mem_zipIdx hx)
      exact ih tidy
    · have keys := nodup_branches info hnodup
      rw [List.Nodup, List.pairwise_map] at keys
      exact keys.imp fun hne => disjoint_branch_places hne

end Catalog

end GraphqlCypher
