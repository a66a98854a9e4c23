import GraphqlCypher.Mutation.Compiled
import GraphqlCypher.Proofs.Cypher.Descents
import GraphqlCypher.Proofs.Mutation.Rows
import Mathlib.Data.List.Forall2

/-! The unwinds of a group as a chain.

A group prints one unwind a step. The first reads the parameter with the root arguments, and each
of the others the variable that was bound before it (`Group.text_chain`).

**Main result.** `Group.rows_chain`: where no variable is bound twice, the chain leads from the
root arguments to the rows of the path, and in each of these every variable holds the value that
the row was taken from. -/
namespace GraphqlCypher

open Cypher

theorem elementAt_append (root : String) (path rest : List Step) :
    elementAt root (path ++ rest) = elementAt (elementAt root path) rest := List.foldl_append

/-- Every unwind after the first goes from the variable of one step to that of the next. -/
theorem text_unwindsFrom (owner : String) (path : List Step) :
    (unwindsFrom owner path).map Unwind.text = path.mapIdx fun i s =>
      "UNWIND " ++ elementAt owner (path.take i) ++ "." ++ s.field ++ "." ++ s.action.text ++
        " AS " ++ elementAt owner (path.take (i + 1)) := by
  induction path generalizing owner with
  | nil => rfl
  | cons s rest ih =>
    rw [unwindsFrom, List.map_cons, ih, List.mapIdx_cons]
    refine congrArg₂ List.cons ?_ rfl
    simp only [Unwind.text, String.append_assoc]
    rfl

namespace Group

/-- The variable of the element that so many steps lead to. -/
def variableAt (g : Group) (i : Nat) : String := elementAt g.root (g.path.take i)

/-- What holds the element that so many steps lead to: its variable, or the parameter with the
root arguments. -/
def holder (g : Group) : Nat → String
  | 0 => "\x7bvariables\x7d"
  | i + 1 => g.variableAt (i + 1)

/-- The line that unwinds a step. -/
def unwindLine (g : Group) (i : Nat) (s : Step) : String :=
  "UNWIND " ++ g.holder i ++ "." ++ s.field ++ "." ++ s.action.text ++ " AS " ++
    g.variableAt (i + 1)

/-- What holds the element that so many steps lead to. -/
def holding (g : Group) : Nat → Holder
  | 0 => .parameter argumentsParameter
  | i + 1 => .binding (g.variableAt (i + 1))

/-- The unwind of a step. -/
def descent (g : Group) (i : Nat) (s : Step) : Descent :=
  ⟨g.holding i, [s.field, s.action.text], g.variableAt (i + 1)⟩

/-- The unwinds of a group. -/
def chain (g : Group) : List Descent := g.path.mapIdx g.descent

/-! ### What is printed -/

theorem text_unwinds (g : Group) :
    (unwinds g.root g.path).map Unwind.text = g.path.mapIdx g.unwindLine := by
  have holds : ∀ s rest, g.path = s :: rest → ∀ i,
      elementAt (s.elementAfter g.root) (rest.take i) = g.variableAt (i + 1) := by
    intro s rest hpath i
    rw [variableAt, hpath]
    rfl
  cases hpath : g.path with
  | nil => rfl
  | cons s rest =>
    -- Only the first step is unwound from the parameter; the others go on from its variable.
    rw [unwinds, List.map_cons, text_unwindsFrom, List.mapIdx_cons]
    simp only [holds s rest hpath]
    refine congrArg₂ List.cons ?_ rfl
    have first : s.elementAfter g.root = g.variableAt 1 := holds s rest hpath 0
    have dotted : "\x7bvariables\x7d." = g.holder 0 ++ "." := rfl
    unfold Unwind.text unwindLine
    rw [first, dotted]
    simp only [String.append_assoc]

theorem text_holding (g : Group) (i : Nat) : (g.holding i).text = g.holder i := by
  cases i with
  | zero => rfl
  | succ i => rfl

theorem text_descent (g : Group) (i : Nat) (s : Step) : (g.descent i s).text = g.unwindLine i s := by
  simp only [descent, Descent.text, text_holding, unwindLine, List.map_cons, List.map_nil,
    String.join_cons, String.join_nil, String.append_assoc, String.append_empty]

/-- The unwinds that a group prints are those of its chain. -/
theorem text_chain (g : Group) :
    (unwinds g.root g.path).map Unwind.text = g.chain.map Descent.text := by
  rw [text_unwinds, chain]
  refine List.ext_getElem (by simp) fun i _ _ => ?_
  rw [List.getElem_map, List.getElem_mapIdx, List.getElem_mapIdx, text_descent]

/-! ### What it leads to -/

/-- A row of bindings goes with a row of the path when so many steps are unwound: every variable
holds what stands at its place. -/
structure Follows (g : Group) (parameters arguments : Json.Object) (start : Bindings) (n : Nat)
    (row : Bindings) (r : Row) : Prop where
  keys : Entries.keys row = Entries.keys start ++ (List.range n).map fun i => g.variableAt (i + 1)
  length : r.place.length = n
  value : (g.holding n).eval parameters row = r.value
  values : ∀ i ≤ n, (Json.object arguments).at? (r.place.take i) =
    some ((g.holding i).eval parameters row)

section

variable {g : Group} {parameters arguments : Json.Object} {start row : Bindings} {n : Nat} {r : Row}

/-- The items of a row are what its value holds under a field and an action. -/
theorem items_descent (s : Step) (h : (g.holding n).eval parameters row = r.value) :
    (g.descent n s).items parameters row =
      (r.value.under? s.field s.action).toList.flatMap Json.elements := by
  simp only [descent, Descent.items, List.foldl_cons, List.foldl_nil, h, Json.under?]
  cases r.value.get? s.field with
  | none => rfl
  | some v =>
    simp only [Option.getD_some, Option.bind_some]
    cases v.get? s.action.text with
    | none => rfl
    | some w => cases w <;> simp [Json.given?]

/-- One more step. -/
theorem Follows.next (h : g.Follows parameters arguments start n row r) {s : Step} {v e : Json}
    {j : Nat} (fresh : g.variableAt (n + 1) ∉ Entries.keys row)
    (holds : r.value.under? s.field s.action = some v) (he : v.elements[j]? = some e) :
    g.Follows parameters arguments start (n + 1) (row ++ [(g.variableAt (n + 1), .value e)])
      ⟨r.place ++ [⟨s.field, s.action, j⟩], e⟩ where
  keys := by
    rw [Entries.keys, List.map_append, ← Entries.keys, h.keys, List.range_succ, List.map_append,
      List.append_assoc]
    rfl
  length := by rw [List.length_append, h.length, List.length_singleton]
  value := Bindings.valueOf_concat fresh e
  values := by
    intro i hi
    rcases Nat.lt_or_eq_of_le hi with hi | rfl
    · have short : i ≤ r.place.length := h.length ▸ Nat.le_of_lt_succ hi
      rw [List.take_append_of_le_length short, h.values i (Nat.le_of_lt_succ hi)]
      cases i with
      | zero => rfl
      | succ i =>
        have bound : g.variableAt (i + 1) ∈ Entries.keys row := by
          rw [h.keys]
          exact List.mem_append_right _ (List.mem_map.2
            ⟨i, List.mem_range.2 (Nat.lt_of_succ_lt_succ hi), rfl⟩)
        exact congrArg some (Bindings.valueOf_append bound _).symm
    · have whole : (Json.object arguments).at? r.place = some r.value := by
        rw [← h.value, ← h.values n (Nat.le_refl n), ← h.length, List.take_length]
      have long : (r.place ++ [(⟨s.field, s.action, j⟩ : ElementPlace)]).length = n + 1 := by
        rw [List.length_append, h.length, List.length_singleton]
      rw [← long, List.take_length, Json.at?_append, whole, Option.bind_some, Json.at?, holds,
        Option.bind_some, he, long]
      exact congrArg some (Bindings.valueOf_concat fresh e).symm

/-- One more unwind. -/
theorem Follows.unwind (h : g.Follows parameters arguments start n row r) {s : Step}
    (fresh : g.variableAt (n + 1) ∉ Entries.keys row) :
    List.Forall₂ (g.Follows parameters arguments start (n + 1))
      ((g.descent n s).unwind parameters row) (r.unwind s) := by
  rw [Descent.unwind, items_descent s h.value, Row.unwind]
  cases holds : r.value.under? s.field s.action with
  | none => exact .nil
  | some v =>
    have numbered : v.elements = v.elements.zipIdx.map Prod.fst := (List.zipIdx_map_fst _ _).symm
    simp only [Option.toList_some, List.flatMap_singleton]
    rw [numbered, List.map_map, ← numbered, List.forall₂_map_left_iff, List.forall₂_map_right_iff,
      List.forall₂_same]
    intro x hx
    exact h.next fresh holds (List.mk_mem_zipIdx_iff_getElem?.1 hx)

variable (given : Entries.get? parameters argumentsParameter = some (.object arguments))
  (fresh : (Entries.keys start ++
    (List.range g.path.length).map fun i => g.variableAt (i + 1)).Nodup)
include given fresh

/-- Step by step, the chain makes the rows of the path. -/
theorem rows_take : ∀ n ≤ g.path.length,
    List.Forall₂ (g.Follows parameters arguments start n)
      (Descent.rows parameters (g.chain.take n) [start])
      (rowsOf (g.path.take n) (.object arguments)) := by
  intro n
  induction n with
  | zero =>
    intro _
    have root : (g.holding 0).eval parameters start = .object arguments := by
      rw [holding, Holder.eval, given, Option.getD_some]
    refine .cons ⟨?_, rfl, root, fun i hi => ?_⟩ .nil
    · simp
    · obtain rfl := Nat.le_zero.1 hi
      exact congrArg some root.symm
  | succ n ih =>
    intro hn
    have unwound := ih (Nat.le_of_succ_le hn)
    have step : g.chain.take (n + 1) = g.chain.take n ++ [g.descent n g.path[n]] := by
      rw [List.take_succ_eq_append_getElem (by simpa [chain] using Nat.lt_of_succ_le hn)]
      simp only [chain, List.getElem_mapIdx]
    have free : g.variableAt (n + 1) ∉
        Entries.keys start ++ (List.range n).map fun i => g.variableAt (i + 1) := by
      have shorter := (List.range_sublist.2 hn).map fun i => g.variableAt (i + 1)
      have nodup := fresh.sublist (shorter.append_left (Entries.keys start))
      rw [List.range_succ, List.map_append, ← List.append_assoc, List.nodup_append] at nodup
      exact fun bound => nodup.2.2 _ bound _ List.mem_cons_self rfl
    rw [step, List.take_succ_eq_append_getElem hn, Descent.rows_concat, rowsOf_concat]
    exact List.rel_flatMap unwound fun row r follows => follows.unwind (follows.keys ▸ free)

/-- **The chain of a group leads to the rows of its path.** From a row that binds none of its
variables it makes one row for each of them, in order, and there every variable holds the value
that the row was taken from. -/
theorem rows_chain : List.Forall₂ (g.Follows parameters arguments start g.path.length)
    (Descent.rows parameters g.chain [start]) (rowsOf g.path (.object arguments)) := by
  have whole := rows_take given fresh g.path.length (Nat.le_refl _)
  have all : g.chain.take g.path.length = g.chain :=
    List.take_of_length_le (by simp [chain])
  rw [all, List.take_length] at whole
  exact whole

end

end Group

end GraphqlCypher
