import GraphqlCypher.Proofs.Json.WellKeyed
import GraphqlCypher.Proofs.Mutation.Compiled

/-! Tidy arguments.

The arguments that a walk leaves are complete: every object that is reached has each key
once and a known model, and whatever its branches supply are again such objects. -/
namespace GraphqlCypher

open WalkM

/-- All objects that are reached within so many levels have each key once and a known
model, and nothing but objects is supplied. -/
def Catalog.Tidy (c : Catalog) : Nat → String → Json.Object → Prop
  | 0, _, _ => False
  | levels + 1, model, arguments =>
    (Entries.keys arguments).Nodup ∧ ∃ info, c.model model = .ok info ∧
      ∀ step v, (step, v) ∈ info.branches arguments →
        ∀ e ∈ v.elements, ∃ o, e = .object o ∧ c.Tidy levels step.related o

theorem Identified.wellKeyed {arguments out : Json.Object} (h : Identified arguments out)
    (keyed : (Json.object arguments).WellKeyed) : (Json.object out).WellKeyed := by
  rcases h with rfl | ⟨hid, id, rfl⟩
  · exact keyed
  · exact keyed.append hid (.string id)

/-- What a branch supplies is part of its object. -/
theorem ModelInfo.wellKeyed_of_mem_branches {info : ModelInfo} {arguments : Json.Object}
    {step : Step} {v : Json} (keyed : (Json.object arguments).WellKeyed)
    (h : (step, v) ∈ info.branches arguments) : v.WellKeyed := by
  obtain ⟨-, nested, hnested, hgiven⟩ := ModelInfo.mem_branches_iff.1 h
  exact (keyed.of_mem hnested).of_get? (NestedAction.given?_eq_some.1 hgiven).1

namespace Tour

variable {T : Tour} {onward : Onward} {above : List Pick}

theorem ElementRun.tidy {step : Step} {levels : Nat} {x y : Json × Nat} {s t : WalkState}
    (h : T.ElementRun onward above step x s y t) (keyed : x.1.WellKeyed)
    (honward : ∀ address model a s out t, Ends (onward address model a) s out t →
      (Json.object a).WellKeyed → T.catalog.Tidy levels model out) :
    ∃ o, y.1 = .object o ∧ T.catalog.Tidy levels step.related o := by
  cases h with
  | create _ identified rest =>
    exact ⟨_, rfl, honward _ _ _ _ _ _ rest ((identify_ends identified).1.wellKeyed keyed)⟩
  | connect _ rest => exact ⟨_, rfl, honward _ _ _ _ _ _ rest keyed⟩

theorem BranchRun.tidy {owner : String} {supplied : List String} {levels : Nat}
    {x y : Step × Json} {s t : WalkState} (h : T.BranchRun onward above owner supplied x s y t)
    (keyed : x.2.WellKeyed)
    (honward : ∀ address model a s out t, Ends (onward address model a) s out t →
      (Json.object a).WellKeyed → T.catalog.Tidy levels model out) :
    ∀ e ∈ y.2.elements, ∃ o, e = .object o ∧ T.catalog.Tidy levels y.1.related o := by
  obtain ⟨-, elements⟩ := h
  intro e he
  obtain ⟨i, hi⟩ := List.mem_iff_getElem?.1 he
  obtain ⟨x, hx, _, _, run⟩ := elements.exists_of_mem (e, i) (List.mk_mem_zipIdx_iff_getElem?.2 hi)
  exact run.tidy (keyed.of_mem_elements (List.fst_mem_of_mem_zipIdx hx)) honward

/-- A walk over an object with its keys in order leaves tidy arguments. -/
theorem walk_tidy (levels : Nat) :
    ∀ address model arguments s out t, Ends (T.walk levels address model arguments) s out t →
      (Json.object arguments).WellKeyed → T.catalog.Tidy levels model out := by
  induction levels with
  | zero =>
    intro address model arguments s out t h
    exact absurd h (not_ends_throw _ s t out)
  | succ levels ih =>
    intro address model arguments s out t h keyed
    obtain ⟨info, hinfo, kept, runs⟩ := visit_ends h
    refine ⟨kept.keys ▸ keyed.nodup_keys, info, hinfo, fun step v hbranch => ?_⟩
    obtain ⟨⟨step', w⟩, hmem, _, _, run⟩ := runs.exists_of_mem (step, v) hbranch
    exact run.tidy (ModelInfo.wellKeyed_of_mem_branches keyed hmem) ih

end Tour

theorem wellKeyed_of_dataArguments {values data : Json.Object}
    (keyed : (Json.object values).WellKeyed) (h : dataArguments values = .ok data) :
    (Json.object data).WellKeyed := by
  have mem := Entries.mem_ofList (Entries.mem_of_get? ((dataArguments_ok_iff values data).1 h))
  obtain ⟨e, he, heq⟩ := List.mem_map.1 mem
  have value : e.2 = .object data := congrArg Prod.snd heq
  exact value ▸ keyed.of_mem he

/-- The arguments of a compiled mutation are tidy. -/
theorem Catalog.tidy_of_compile {c : Catalog} {name : String} {values : Json.Object}
    {ids : Option IdGenerator} {drawn : Nat} {m : CompiledCreate}
    (keyed : (Json.object values).WellKeyed)
    (h : (c.compile name values ids drawn).1 = .ok (.create m)) :
    c.Tidy (maxNesting + 1) m.model m.arguments := by
  obtain ⟨data, new, s, t, hdata, hnew, -, -, hwalk, -, -⟩ := walk_of_compile h
  exact Tour.walk_tidy _ _ _ _ _ _ _ hwalk
    (hnew.wellKeyed (wellKeyed_of_dataArguments keyed hdata))

end GraphqlCypher
