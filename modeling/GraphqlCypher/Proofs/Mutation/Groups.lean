import GraphqlCypher.Proofs.Mutation.Compiled
import GraphqlCypher.Proofs.Mutation.Paths

/-! The groups of a compiled create mutation.

The paths that the final arguments supply are listed by `suppliedPaths`, in the order of
the walk and as often as they are supplied. The groups are those paths, each once.

**Main result.** `grouped_of_compile`: there is one group for each supplied path, none is
missing, and a group stands after those of its proper prefixes and after the root. -/
namespace GraphqlCypher

/-- Separators stand before all but the first. -/
theorem intercalate_cons (sep first : String) (rest : List String) :
    sep.intercalate (first :: rest) = first ++ String.join (rest.map (sep ++ ·)) := by
  induction rest generalizing first with
  | nil => simp
  | cons second rest ih =>
    rw [String.intercalate_cons_cons, ih, List.map_cons, String.join_cons, String.append_assoc,
      String.append_assoc]

namespace CompiledCreate

/-- The paths that the arguments supply: in the order of the keys, `create` before
`connect`, lists from their start, and a path before those below it. -/
def suppliedPaths (c : Catalog) (m : CompiledCreate) : List (List Step) :=
  pathsOf (c.events (maxNesting + 1) [] m.model m.arguments)

/-- What the groups of a compiled mutation are. -/
structure Grouped (c : Catalog) (m : CompiledCreate) : Prop where
  /-- The paths of the groups are the supplied paths, in order of their first occurrence. -/
  paths : m.groups.map Group.path = (m.suppliedPaths c).eraseDups
  /-- A path has a group just when some visited object is reached by all of it but the last
  step, and supplies that step. -/
  supplied : ∀ path, path ∈ m.groups.map Group.path ↔
    ∃ v ∈ m.visits, ∃ step, c.Supplies v step ∧ path = v.path ++ [step]
  /-- No two groups agree in the fields and actions of their paths. -/
  distinct : (m.groups.map fun g => g.path.map Step.key).Nodup
  /-- Every non-empty proper prefix of a path has its group before that of the path. -/
  parents : ∀ before g after, m.groups = before ++ g :: after →
    ∀ above, above ≠ [] → above <+: g.path → above ≠ g.path → ∃ g' ∈ before, g'.path = above
  /-- The call that creates the root stands before all groups, and those stand in order. -/
  text : m.text = m.rootCall ++
    String.join (m.groups.map fun g => "\n\n" ++ "\n".intercalate g.lines) ++ m.readBack.text

end CompiledCreate

namespace Catalog

variable {c : Catalog}

/-- A visit does not change what its object supplies. -/
theorem supplies_of_kept {info : ModelInfo} {address : List Pick} {model : String}
    {arguments out : Json.Object} (hinfo : c.model model = .ok info)
    (kept : Kept info arguments out) :
    c.Supplies ⟨address, model, arguments⟩ = c.Supplies ⟨address, model, out⟩ := by
  funext step
  apply propext
  rw [supplies_iff hinfo, supplies_iff hinfo]
  have steps : step ∈ (info.branches arguments).map Prod.fst ↔
      step ∈ (info.branches out).map Prod.fst := by rw [kept.steps]
  simpa using steps

variable {name : String} {values : Json.Object} {ids : Option IdGenerator} {drawn : Nat}
  {m : CompiledCreate}

/-- A compiled mutation has noted the visits among the events of its arguments. -/
theorem visits_of_compile {κ : Type} {key : Visit → κ}
    (hkey : ∀ info address model arguments out, c.model model = .ok info →
      Kept info arguments out → key ⟨address, model, arguments⟩ = key ⟨address, model, out⟩)
    (h : (c.compile name values ids drawn).1 = .ok (.create m)) :
    m.visits.map key =
      (visitsOf (c.events (maxNesting + 1) [] m.model m.arguments)).map key := by
  obtain ⟨data, new, s, t, -, -, -, hvisits, hwalk, -, visits⟩ := walk_of_compile h
  have logged := Tour.walk_logged hkey (maxNesting + 1) [] m.model new s m.arguments t hwalk
  rw [visits, logged.visits, hvisits]
  rfl

/-- A compiled mutation has noted the paths among the events, each once. -/
theorem paths_of_compile (h : (c.compile name values ids drawn).1 = .ok (.create m)) :
    m.groups.map Group.path = (m.suppliedPaths c).eraseDups := by
  obtain ⟨data, new, s, t, -, -, hgroups, -, hwalk, groups, -⟩ := walk_of_compile h
  have logged : Logged (fun _ => ()) s _ t :=
    Tour.walk_logged (fun _ _ _ _ _ _ _ => rfl) (maxNesting + 1) [] m.model new s m.arguments t
      hwalk
  rw [groups, logged.paths, hgroups]
  exact foldl_notePath _

/-- A path has a group just when some visited object supplies its last step. -/
theorem mem_paths_iff (h : (c.compile name values ids drawn).1 = .ok (.create m))
    (path : List Step) : path ∈ m.groups.map Group.path ↔
      ∃ v ∈ m.visits, ∃ step, c.Supplies v step ∧ path = v.path ++ [step] := by
  let key (v : Visit) := (v.path, c.Supplies v)
  have visits : m.visits.map key =
      (visitsOf (c.events (maxNesting + 1) [] m.model m.arguments)).map key := by
    refine visits_of_compile (fun info address model arguments out hinfo kept => ?_) h
    exact congrArg (Prod.mk _) (supplies_of_kept hinfo kept)
  have of_key : ∀ vs : List Visit, (∃ v ∈ vs, ∃ step, c.Supplies v step ∧ path = v.path ++ [step]) ↔
      ∃ k ∈ vs.map key, ∃ step, k.2 step ∧ path = k.1 ++ [step] :=
    fun vs => by simp only [List.mem_map, exists_exists_and_eq_and, key]
  rw [paths_of_compile h, List.mem_eraseDups, CompiledCreate.suppliedPaths, mem_pathsOf_iff,
    of_key, of_key, visits]

/-- The path of a group leads somewhere from the root. -/
theorem leads_of_group (h : (c.compile name values ids drawn).1 = .ok (.create m)) :
    ∀ path ∈ m.groups.map Group.path, ∃ target, c.Leads m.model path target := by
  intro path hpath
  rw [paths_of_compile h, List.mem_eraseDups] at hpath
  have root : c.Leads m.model ([].map Pick.step) m.model := rfl
  exact eventLeads root _ (mem_pathsOf.1 hpath)

/-- **The groups of a compiled mutation.** -/
theorem grouped_of_compile (h : (c.compile name values ids drawn).1 = .ok (.create m)) :
    m.Grouped c where
  paths := paths_of_compile h
  supplied := mem_paths_iff h
  distinct := by
    have nodup : (m.groups.map Group.path).Nodup := paths_of_compile h ▸ nodup_eraseDups _
    have keyed : m.groups.map (fun g => g.path.map Step.key) =
        (m.groups.map Group.path).map (List.map Step.key) := by rw [List.map_map]; rfl
    rw [keyed]
    refine nodup.map_on fun path hpath path' hpath' keys => ?_
    obtain ⟨target, hleads⟩ := leads_of_group h path hpath
    obtain ⟨target', hleads'⟩ := leads_of_group h path' hpath'
    exact hleads.eq_of_keys hleads' keys
  parents := by
    intro before g after e above hne hpre hproper
    have known : ∀ above : List Step, above <+: [].map Pick.step → above ∈ [[]] :=
      fun above h => List.mem_singleton.2 (List.prefix_nil.1 h)
    have ordered : ParentsFirst [[]] (m.suppliedPaths c).eraseDups :=
      (parentsFirst_pathsOf known).eraseDups
    have split : (m.suppliedPaths c).eraseDups =
        before.map Group.path ++ g.path :: after.map Group.path := by
      rw [← paths_of_compile h, e, List.map_append, List.map_cons]
    rcases ordered _ _ _ split above hpre hproper with hroot | hbefore
    · exact absurd (List.mem_singleton.1 hroot) hne
    · obtain ⟨g', hg', rfl⟩ := List.mem_map.1 hbefore
      exact ⟨g', hg', rfl⟩
  text := by
    have separated : ∀ g : Group, "\n" ++ g.text = "\n\n" ++ "\n".intercalate g.lines := by
      intro g
      rw [Group.text, ← String.append_assoc]
      rfl
    simp only [CompiledCreate.text, intercalate_cons, List.map_map, Function.comp_def, separated]

theorem grouped_of_compile_friends : ∃ m : CompiledCreate,
    (friendsCatalog.compile "createPerson" friendsValues none 0).1 = .ok (.create m) ∧
      m.groups.length = 2 ∧ m.Grouped friendsCatalog := by
  have compiled : ∃ m : CompiledCreate,
      (friendsCatalog.compile "createPerson" friendsValues none 0).1 = .ok (.create m) ∧
        m.groups.length = 2 := ⟨_, rfl, rfl⟩
  obtain ⟨m, h, groups⟩ := compiled
  exact ⟨m, h, groups, grouped_of_compile h⟩

end Catalog

end GraphqlCypher
