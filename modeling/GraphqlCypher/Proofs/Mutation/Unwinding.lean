import GraphqlCypher.Proofs.Mutation.Chains
import GraphqlCypher.Proofs.Mutation.Groups

/-! What the groups of a compiled create mutation unwind to.

A group works on the rows of its path, to which the unwinds that it prints lead. Rows and
visited objects are told apart by their places, so that equal objects at different places
stay different. A place means one object if every object has each key once, and objects that
were read do (`Json.wellKeyed_of_parseObject`).

**Main result.** `unwound_of_compile`: the rows of a group are the objects that were
visited along its path, in order, and each nested object that was visited is a row of
exactly one group, that of its own path. -/
namespace GraphqlCypher

namespace CompiledCreate

/-- The rows of a group. -/
def rows (m : CompiledCreate) (g : Group) : List Row := rowsOf g.path (.object m.arguments)

/-- What the groups of a compiled mutation unwind to. -/
structure Unwound (m : CompiledCreate) : Prop where
  /-- The rows of a group are the objects visited along its path, in the order of the visits. -/
  rows : ∀ g ∈ m.groups, (m.rows g).map (fun r => (r.place, some r.value)) =
    (m.visits.filter fun v => v.path = g.path).map fun v =>
      (v.place, (Json.object m.arguments).at? v.place)
  /-- What stands at the place of a visit is the object that was visited. -/
  objects : ∀ v ∈ m.visits, ∃ o, (Json.object m.arguments).at? v.place = some (.object o) ∧
    Entries.keys o = Entries.keys v.arguments
  /-- No object is visited twice. -/
  once : (m.visits.map Visit.place).Nodup
  /-- A nested object is a row of the group of its path, and of no other. -/
  own : ∀ v ∈ m.visits, v.path ≠ [] → ∃ g, g.path = v.path ∧
    m.groups.filter (fun g => v.place ∈ (m.rows g).map Row.place) = [g]
  /-- A group first forgets all rows but one, and then unwinds its chain. -/
  printed : ∀ g ∈ m.groups, ∃ calls,
    g.lines = "WITH COUNT(*) AS SCOPE" :: g.chain.map Cypher.Descent.text ++ calls
  /-- If no variable is bound twice, the chain makes one row for each row of the group, in order,
  and every variable holds what stands at its place on the way to that row. -/
  chained : ∀ g ∈ m.groups, ∀ (parameters : Json.Object) (start : Cypher.Bindings),
    Entries.get? parameters argumentsParameter = some (.object m.arguments) →
    (Entries.keys start ++ (List.range g.path.length).map fun i => g.variableAt (i + 1)).Nodup →
    List.Forall₂ (fun row r => ∀ i < g.path.length,
        (Json.object m.arguments).at? (r.place.take (i + 1)) =
          some (row.valueOf (g.variableAt (i + 1))))
      (Cypher.Descent.rows parameters g.chain [start]) (m.rows g)

end CompiledCreate

theorem filter_eq_singleton {α β : Type} [DecidableEq β] {f : α → β} {l : List α} {a : α}
    (hnodup : (l.map f).Nodup) (ha : a ∈ l) : l.filter (fun b => f b = f a) = [a] := by
  obtain ⟨before, after, rfl⟩ := List.append_of_mem ha
  rw [List.map_append, List.map_cons, List.nodup_append] at hnodup
  obtain ⟨-, hafter, hdisjoint⟩ := hnodup
  have before_nil : before.filter (fun b => f b = f a) = [] := by
    refine List.filter_eq_nil_iff.2 fun b hb => ?_
    rw [decide_eq_true_eq]
    exact hdisjoint _ (List.mem_map_of_mem hb) _ List.mem_cons_self
  have after_nil : after.filter (fun b => f b = f a) = [] := by
    refine List.filter_eq_nil_iff.2 fun b hb => ?_
    rw [decide_eq_true_eq]
    exact fun e => (List.nodup_cons.1 hafter).1 (e ▸ List.mem_map_of_mem hb)
  rw [List.filter_append, List.filter_cons, if_pos (by simp), before_nil, after_nil]
  rfl

namespace Catalog

variable {c : Catalog}

/-- The path to a visited object is supplied, unless the walk began there. -/
theorem path_of_mem_visitsOf {levels : Nat} :
    ∀ {address : List Pick} {model : String} {arguments : Json.Object} {v : Visit},
      v ∈ visitsOf (c.events levels address model arguments) →
      v.address = address ∨ v.path ∈ pathsOf (c.events levels address model arguments) := by
  induction levels with
  | zero => exact fun h => absurd h List.not_mem_nil
  | succ levels ih =>
    intro address model arguments v h
    obtain ⟨info, hinfo, h | ⟨step, w, hbranch, h | ⟨o, i, ho, he⟩⟩⟩ :=
      mem_events_iff.1 (mem_visitsOf.1 h)
    · cases h
      exact .inl rfl
    · cases h
    · refine .inr (mem_pathsOf.2 (mem_events_iff.2 ⟨info, hinfo, .inr ⟨step, w, hbranch, ?_⟩⟩))
      rcases ih (mem_visitsOf.2 he) with h | h
      · refine .inl ?_
        rw [Visit.path, h, List.map_append]
        rfl
      · exact .inr ⟨o, i, ho, mem_pathsOf.1 h⟩

variable {name : String} {values : Json.Object} {ids : Option IdGenerator} {drawn : Nat}
  {m : CompiledCreate}

/-- The places of what was visited, and the keys that each object has there. -/
theorem places_of_compile (h : (c.compile name values ids drawn).1 = .ok (.create m)) :
    (m.visits.map fun v => (v.address, Entries.keys v.arguments)) =
      (visitsOf (c.events (maxNesting + 1) [] m.model m.arguments)).map fun v =>
        (v.address, Entries.keys v.arguments) :=
  visits_of_compile (fun _ _ _ _ _ _ kept => congrArg (Prod.mk _) kept.keys.symm) h

/-- Every visit is among the events, at its address and with its keys. -/
theorem exists_event_of_visit (h : (c.compile name values ids drawn).1 = .ok (.create m)) :
    ∀ v ∈ m.visits, ∃ w ∈ visitsOf (c.events (maxNesting + 1) [] m.model m.arguments),
      w.address = v.address ∧ Entries.keys w.arguments = Entries.keys v.arguments := by
  intro v hv
  have mem : (v.address, Entries.keys v.arguments) ∈ m.visits.map fun v =>
      (v.address, Entries.keys v.arguments) := List.mem_map_of_mem hv
  rw [places_of_compile h] at mem
  obtain ⟨w, hw, e⟩ := List.mem_map.1 mem
  exact ⟨w, hw, congrArg Prod.fst e, congrArg Prod.snd e⟩

theorem leads_of_visit (h : (c.compile name values ids drawn).1 = .ok (.create m)) :
    ∀ v ∈ m.visits, ∃ target, c.Leads m.model v.path target := by
  intro v hv
  obtain ⟨w, hw, address, -⟩ := exists_event_of_visit h v hv
  have root : c.Leads m.model ([].map Pick.step) m.model := rfl
  have leads := eventLeads root _ (mem_visitsOf.1 hw)
  rw [Visit.path, ← address]
  exact ⟨w.model, leads⟩

/-- What depends on the places of visits alone is the same for the events. -/
theorem filter_visits_of_compile {γ : Type} (p : List Pick → Bool) (f : List Pick → γ)
    (h : (c.compile name values ids drawn).1 = .ok (.create m)) :
    (m.visits.filter fun v => p v.address).map (fun v => f v.address) =
      ((visitsOf (c.events (maxNesting + 1) [] m.model m.arguments)).filter fun v =>
        p v.address).map fun v => f v.address := by
  have addresses : m.visits.map Visit.address =
      (visitsOf (c.events (maxNesting + 1) [] m.model m.arguments)).map Visit.address := by
    have places := congrArg (List.map Prod.fst) (places_of_compile h)
    rw [List.map_map, List.map_map] at places
    exact places
  have by_address : ∀ vs : List Visit, (vs.filter fun v => p v.address).map (fun v => f v.address) =
      ((vs.map Visit.address).filter p).map f := by
    intro vs
    rw [List.filter_map, List.map_map]
    rfl
  rw [by_address, by_address, addresses]

section

variable (keyed : (Json.object values).WellKeyed)
  (h : (c.compile name values ids drawn).1 = .ok (.create m))

include keyed h

/-- What stands at the place of an event is its object. -/
theorem at?_of_event (v : Visit)
    (hv : v ∈ visitsOf (c.events (maxNesting + 1) [] m.model m.arguments)) :
    (Json.object m.arguments).at? v.place = some (.object v.arguments) := by
  obtain ⟨rest, hrest, hat⟩ := at?_of_mem_visitsOf (tidy_of_compile keyed h) v hv
  rw [List.nil_append] at hrest
  rw [Visit.place, hrest]
  exact hat

theorem rows_of_compile : ∀ g ∈ m.groups, (m.rows g).map (fun r => (r.place, some r.value)) =
    (m.visits.filter fun v => v.path = g.path).map fun v =>
      (v.place, (Json.object m.arguments).at? v.place) := by
  intro g hg
  obtain ⟨target, leads⟩ := leads_of_group h g.path (List.mem_map_of_mem hg)
  let visits := visitsOf (c.events (maxNesting + 1) [] m.model m.arguments)
  have rows : m.rows g = (visits.filter fun v => v.path = g.path).map Visit.row :=
    rowsAlong_eq [] (tidy_of_compile keyed h) leads
  calc
    _ = (visits.filter fun v => v.path = g.path).map
        fun v => (v.place, some (.object v.arguments)) := by
      rw [rows, List.map_map]
      rfl
    _ = (visits.filter fun v => v.path = g.path).map
        fun v => (v.place, (Json.object m.arguments).at? v.place) := by
      refine List.map_congr_left fun v hv => ?_
      rw [at?_of_event keyed h v (List.mem_filter.1 hv).1]
    _ = _ := (filter_visits_of_compile (fun address => address.map Pick.step = g.path)
      (fun address => (address.map Pick.place,
        (Json.object m.arguments).at? (address.map Pick.place))) h).symm

/-- The rows of a group are at the places of the visits of its path. -/
theorem mem_rows_iff {g : Group} (hg : g ∈ m.groups) {v : Visit} (hv : v ∈ m.visits) :
    v.place ∈ (m.rows g).map Row.place ↔ g.path = v.path := by
  have places : (m.rows g).map Row.place =
      (m.visits.filter fun v => v.path = g.path).map Visit.place := by
    have rows := congrArg (List.map Prod.fst) (rows_of_compile keyed h g hg)
    rw [List.map_map, List.map_map] at rows
    exact rows
  rw [places, List.mem_map]
  constructor
  · intro h
    obtain ⟨w, hw, same⟩ := h
    obtain ⟨hw, hpath⟩ := List.mem_filter.1 hw
    rw [decide_eq_true_eq] at hpath
    obtain ⟨target, leads⟩ := leads_of_visit h v hv
    obtain ⟨target', leads'⟩ := leads_of_visit h w hw
    have keys : ∀ v : Visit, v.path.map Step.key = v.place.map fun p => (p.field, p.action) := by
      intro v
      rw [Visit.path, Visit.place, List.map_map, List.map_map]
      rfl
    rw [← hpath]
    exact leads'.eq_of_keys leads (by rw [keys, keys, same])
  · intro hpath
    exact ⟨v, List.mem_filter.2 ⟨hv, decide_eq_true hpath.symm⟩, rfl⟩

end

/-- **What the groups unwind to.** -/
theorem unwound_of_compile (keyed : (Json.object values).WellKeyed)
    (h : (c.compile name values ids drawn).1 = .ok (.create m)) : m.Unwound where
  rows := rows_of_compile keyed h
  objects := by
    intro v hv
    obtain ⟨w, hw, address, keys⟩ := exists_event_of_visit h v hv
    refine ⟨w.arguments, ?_, keys⟩
    rw [Visit.place, ← address]
    exact at?_of_event keyed h w hw
  once := by
    have places := filter_visits_of_compile (fun _ => true) (List.map Pick.place) h
    rw [List.filter_true, List.filter_true] at places
    show (m.visits.map fun v => v.address.map Pick.place).Nodup
    rw [places]
    exact nodup_places (tidy_of_compile keyed h)
  own := by
    intro v hv hne
    have hpath : v.path ∈ m.groups.map Group.path := by
      obtain ⟨w, hw, address, -⟩ := exists_event_of_visit h v hv
      have paths : w.path = v.path := by rw [Visit.path, address, Visit.path]
      rw [paths_of_compile h, List.mem_eraseDups, ← paths]
      refine (path_of_mem_visitsOf hw).resolve_left fun root => hne ?_
      rw [← paths, Visit.path, root]
      rfl
    obtain ⟨g, hg, hgpath⟩ := List.mem_map.1 hpath
    refine ⟨g, hgpath, ?_⟩
    have nodup : (m.groups.map Group.path).Nodup := paths_of_compile h ▸ nodup_eraseDups _
    rw [← filter_eq_singleton nodup hg]
    refine List.filter_congr fun g' hg' => ?_
    rw [hgpath]
    exact decide_eq_decide.2 (mem_rows_iff keyed h hg' hv)
  printed := by
    intro g _
    refine ⟨(g.creation.map g.creationCall).toList ++ [g.relationCall], ?_⟩
    rw [Group.lines, g.text_chain, List.append_assoc]
    rfl
  chained := by
    intro g _ parameters start given fresh
    refine (Group.rows_chain given fresh).imp fun row r follows i hi => ?_
    exact follows.values (i + 1) hi

theorem unwound_of_compile_friends : (Json.object friendsValues).WellKeyed ∧
    ∃ m : CompiledCreate,
      (friendsCatalog.compile "createPerson" friendsValues none 0).1 = .ok (.create m) ∧
        m.visits.length = 4 ∧ m.Unwound := by
  have keyed : (Json.object friendsValues).WellKeyed := by decide
  have compiled : ∃ m : CompiledCreate,
      (friendsCatalog.compile "createPerson" friendsValues none 0).1 = .ok (.create m) ∧
        m.visits.length = 4 := ⟨_, rfl, rfl⟩
  obtain ⟨m, h, visits⟩ := compiled
  exact ⟨keyed, m, h, visits, unwound_of_compile keyed h⟩

end Catalog

end GraphqlCypher
