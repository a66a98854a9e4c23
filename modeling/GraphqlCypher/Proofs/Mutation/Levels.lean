import GraphqlCypher.Proofs.Mutation.Lookup

/-! How reconciling depends on the number of chained elements that it allows.

More levels never change an outcome, unless there were too few (`resolve_anticipates`): so what
an element is reconciled to does not depend on them (`Reconciles.unique`). One level is
decided by what is found for the element and for those that it leads to (`outcome_congr`), and
it fails as one of those does, unless its model is unknown (`exists_error_of_outcome`). -/
namespace GraphqlCypher

theorem Catalog.eq_of_model_error {c : Catalog} {name : String} {e : Failure}
    (h : c.model name = .error e) : e = .unknownModel name := by
  unfold model at h
  split at h
  · cases h
  · cases h
    rfl

/-- The first outcome is the second, unless its levels ran out. -/
def Anticipates {α : Type} (a b : Except Failure α) : Prop := a = .error .endless ∨ a = b

namespace Anticipates

variable {α β : Type} {a b : Except Failure α}

theorem refl (a : Except Failure α) : Anticipates a a := .inr rfl

theorem bind {f g : α → Except Failure β} (h : Anticipates a b)
    (each : ∀ x, Anticipates (f x) (g x)) : Anticipates (a >>= f) (b >>= g) := by
  rcases h with rfl | rfl
  · exact .inl rfl
  · cases a with
    | error e => exact .refl _
    | ok x => exact each x

theorem map (f : α → β) (h : Anticipates a b) : Anticipates (a.map f) (b.map f) := by
  rcases h with rfl | rfl
  · exact .inl rfl
  · exact .refl _

theorem mapM {f g : α → Except Failure β} (each : ∀ x, Anticipates (f x) (g x)) (l : List α) :
    Anticipates (l.mapM f) (l.mapM g) := by
  induction l with
  | nil => exact .refl _
  | cons x rest ih =>
    rw [List.mapM_cons, List.mapM_cons]
    exact (each x).bind fun y => ih.bind fun ys => .refl _

theorem foldlM {f g : β → α → Except Failure β} (each : ∀ y x, Anticipates (f y x) (g y x))
    (l : List α) (y : β) : Anticipates (l.foldlM f y) (l.foldlM g y) := by
  induction l generalizing y with
  | nil => exact .refl _
  | cons x rest ih =>
    rw [List.foldlM_cons, List.foldlM_cons]
    exact (each y x).bind ih

/-- An outcome that did not run out of levels is the one with more levels. -/
theorem eq (h : Anticipates a b) (ended : a ≠ .error .endless) : a = b := h.resolve_left ended

end Anticipates

namespace Persisted

variable {P : Persisted}

/-! ### More levels -/

section

variable {below above : Resolver} (h : ∀ model arguments,
  Anticipates (below model arguments) (above model arguments))
include h

theorem element_anticipates (model : String) (action : NestedAction) (v : Json) :
    Anticipates (P.element below model action v) (P.element above model action v) := by
  cases v with
  | object arguments =>
    rw [element_object, element_object]
    exact (h _ _).map _
  | _ => exact .refl _

theorem elements_anticipates (model : String) (action : NestedAction) (nested : Json.Object) :
    Anticipates (P.elements below model action nested) (P.elements above model action nested) := by
  unfold elements
  split
  · exact .refl _
  · exact (Anticipates.mapM (element_anticipates h model action) _).map _
  · exact (element_anticipates h model action _).map _

theorem settled_anticipates (related : String) (v : Option Json) :
    Anticipates (P.settled below related v) (P.settled above related v) := by
  unfold settled
  split
  · exact (elements_anticipates h related .create _).bind fun created =>
      (elements_anticipates h related .connect _).bind fun connected => .refl _
  · exact .refl _

theorem relations_anticipates (model : String) (arguments : Json.Object) :
    Anticipates (P.relations below model arguments) (P.relations above model arguments) := by
  unfold relations
  refine (Anticipates.refl _).bind fun info => Anticipates.foldlM (fun arguments entry => ?_) _ _
  obtain ⟨field, related⟩ := entry
  rw [relation_eq, relation_eq]
  exact (settled_anticipates h related _).map _

end

theorem resolve_anticipates_succ (depth : Nat) (model : String) (arguments : Json.Object) :
    Anticipates (P.resolve depth model arguments) (P.resolve (depth + 1) model arguments) := by
  induction depth generalizing model arguments with
  | zero => exact .inl rfl
  | succ depth ih => exact relations_anticipates ih model arguments

/-- **More levels never change an outcome**, unless there were too few. -/
theorem resolve_anticipates {depth depth' : Nat} (h : depth ≤ depth') (model : String)
    (arguments : Json.Object) :
    Anticipates (P.resolve depth model arguments) (P.resolve depth' model arguments) := by
  induction h with
  | refl => exact .refl _
  | step _ ih =>
    rcases ih with ih | ih
    · exact .inl ih
    · rw [ih]
      exact resolve_anticipates_succ _ model arguments

/-- What an element is reconciled to, with as many levels as that takes. -/
def Reconciles (P : Persisted) (model : String) (action : NestedAction)
    (arguments out : Json.Object) : Prop :=
  ∃ depth, P.resolve depth model (P.found model action arguments) = .ok out

/-- An element is reconciled to one thing only. -/
theorem Reconciles.unique {model : String} {action : NestedAction}
    {arguments out out' : Json.Object} (h : P.Reconciles model action arguments out)
    (h' : P.Reconciles model action arguments out') : out = out' := by
  obtain ⟨depth, h⟩ := h
  obtain ⟨depth', h'⟩ := h'
  have same : ∀ {d d' : Nat} {r r' : Json.Object}, d ≤ d' →
      P.resolve d model (P.found model action arguments) = .ok r →
      P.resolve d' model (P.found model action arguments) = .ok r' → r = r' := by
    intro d d' r r' hle hr hr'
    have agree := (resolve_anticipates hle _ _).eq (by rw [hr]; simp)
    rw [hr, hr'] at agree
    exact Except.ok.inj agree
  rcases Nat.le_total depth depth' with hle | hle
  · exact same hle h h'
  · exact (same hle h' h).symm

/-! ### One level -/

section

variable {P' : Persisted} {resolve resolve' : Resolver} {related : String}

theorem element_congr {action : NestedAction} {v : Json}
    (h : ∀ o, v = .object o →
      resolve related (P.found related action o) = resolve' related (P'.found related action o)) :
    P.element resolve related action v = P'.element resolve' related action v := by
  cases v with
  | object o => rw [element_object, element_object, h o rfl]
  | _ => rfl

theorem elements_congr {action : NestedAction} {nested : Json.Object}
    (h : ∀ v, action.given? nested = some v → ∀ o, .object o ∈ v.elements →
      resolve related (P.found related action o) = resolve' related (P'.found related action o)) :
    P.elements resolve related action nested = P'.elements resolve' related action nested := by
  unfold elements
  split
  · rfl
  · next items hitems =>
    have each : ∀ e ∈ items, P.element resolve related action e =
        P'.element resolve' related action e :=
      fun e he => element_congr fun o ho => h _ hitems o (ho ▸ he)
    have all : items.mapM (P.element resolve related action) =
        items.mapM (P'.element resolve' related action) := by
      clear h hitems
      induction items with
      | nil => rfl
      | cons e rest ih =>
        rw [List.mapM_cons, List.mapM_cons, each e List.mem_cons_self,
          ih fun e he => each e (List.mem_cons_of_mem _ he)]
    rw [all]
  · next v hsingle hv =>
    have single : ∀ o, v = .object o → .object o ∈ v.elements := by
      rintro o rfl
      exact List.mem_cons_self
    rw [element_congr fun o ho => h v hv o (single o ho)]

theorem settled_congr {v : Option Json}
    (h : ∀ nested (action : NestedAction) w, v = some (.object nested) →
      action.given? nested = some w → ∀ o, .object o ∈ w.elements →
        resolve related (P.found related action o) = resolve' related (P'.found related action o)) :
    P.settled resolve related v = P'.settled resolve' related v := by
  unfold settled
  split
  · next nested =>
    rw [elements_congr fun w hw => h nested .create w rfl hw,
      elements_congr fun w hw => h nested .connect w rfl hw]
  · rfl

end

/-! ### All relations of an element -/

section

variable {P' : Persisted} {resolve resolve' : Resolver}

/-- Working through a relation leaves the other fields as they are. -/
theorem get?_of_relation {arguments next : Json.Object} {field related k : String}
    (h : P.relation resolve arguments (field, related) = .ok next) (hk : field ≠ k) :
    Entries.get? next k = Entries.get? arguments k := by
  rw [relation_eq] at h
  cases hsettled : P.settled resolve related (Entries.get? arguments field) with
  | error e =>
    rw [hsettled] at h
    cases h
  | ok v =>
    rw [hsettled] at h
    cases h
    cases v with
    | none => rfl
    | some v => exact Entries.get?_insert_ne _ v hk

theorem relations_foldlM_congr {relations : Entries String} {arguments : Json.Object}
    (distinct : (Entries.keys relations).Nodup)
    (h : ∀ field related, (field, related) ∈ relations →
      P.settled resolve related (Entries.get? arguments field) =
        P'.settled resolve' related (Entries.get? arguments field)) :
    relations.foldlM (P.relation resolve) arguments =
      relations.foldlM (P'.relation resolve') arguments := by
  induction relations generalizing arguments with
  | nil => rfl
  | cons entry rest ih =>
    obtain ⟨field, related⟩ := entry
    obtain ⟨fresh, distinct⟩ := List.nodup_cons.1 distinct
    have first : P.relation resolve arguments (field, related) =
        P'.relation resolve' arguments (field, related) := by
      rw [relation_eq, relation_eq, h field related List.mem_cons_self]
    rw [List.foldlM_cons, List.foldlM_cons, ← first]
    cases hnext : P.relation resolve arguments (field, related) with
    | error e => rfl
    | ok next =>
      refine ih distinct fun field' related' hmem => ?_
      have other : field ≠ field' := by
        rintro rfl
        exact fresh (List.mem_map.2 ⟨_, hmem, rfl⟩)
      rw [get?_of_relation hnext other]
      exact h field' related' (List.mem_cons_of_mem _ hmem)

theorem relations_congr {model : String} {arguments : Json.Object}
    (same : P'.catalog = P.catalog)
    (h : ∀ info, P.catalog.model model = .ok info →
      info.relations.foldlM (P.relation resolve) arguments =
        info.relations.foldlM (P'.relation resolve') arguments) :
    P.relations resolve model arguments = P'.relations resolve' model arguments := by
  unfold relations
  rw [same]
  cases hinfo : P.catalog.model model with
  | error f => rfl
  | ok info => exact h info hinfo

theorem exists_error_of_relations_foldlM {relations : Entries String} {arguments : Json.Object}
    {e : Failure} (distinct : (Entries.keys relations).Nodup)
    (h : relations.foldlM (P.relation resolve) arguments = .error e) :
    ∃ field related, (field, related) ∈ relations ∧
      P.settled resolve related (Entries.get? arguments field) = .error e := by
  induction relations generalizing arguments with
  | nil => cases h
  | cons entry rest ih =>
    obtain ⟨field, related⟩ := entry
    obtain ⟨fresh, distinct⟩ := List.nodup_cons.1 distinct
    rw [List.foldlM_cons] at h
    rcases error_of_bind h with h | ⟨next, hnext, h⟩
    · rw [relation_eq] at h
      exact ⟨field, related, List.mem_cons_self, error_of_map h⟩
    · obtain ⟨field', related', hmem, failed⟩ := ih distinct h
      have other : field ≠ field' := by
        rintro rfl
        exact fresh (List.mem_map.2 ⟨_, hmem, rfl⟩)
      rw [get?_of_relation hnext other] at failed
      exact ⟨field', related', List.mem_cons_of_mem _ hmem, failed⟩

end

/-! ### Chains -/

/-- An element that is reconciled: its model, what is done with it, and its arguments. -/
structure ChainElement where
  model : String
  action : NestedAction
  arguments : Json.Object

/-- What becomes of an element with so many levels. -/
def outcome (P : Persisted) (depth : Nat) (e : ChainElement) : Except Failure Json.Object :=
  P.resolve depth e.model (P.found e.model e.action e.arguments)

/-- An element leads to those that the relations of its record supply. -/
inductive LeadsTo (P : Persisted) (e : ChainElement) : ChainElement → Prop where
  | intro {info : ModelInfo} {field related : String} {nested o : Json.Object}
      {action : NestedAction} {v : Json} (known : P.catalog.model e.model = .ok info)
      (relation : (field, related) ∈ info.relations)
      (holds : Entries.get? (P.found e.model e.action e.arguments) field = some (.object nested))
      (given : action.given? nested = some v) (element : .object o ∈ v.elements) :
      LeadsTo P e ⟨related, action, o⟩

variable {e : ChainElement}

theorem outcome_anticipates {depth depth' : Nat} (h : depth ≤ depth') (e : ChainElement) :
    Anticipates (P.outcome depth e) (P.outcome depth' e) := resolve_anticipates h _ _

theorem outcome_succ (P : Persisted) (depth : Nat) (e : ChainElement) :
    P.outcome (depth + 1) e =
      P.relations (P.resolve depth) e.model (P.found e.model e.action e.arguments) := rfl

/-- One level of an element is decided by what is found for it and for the elements that it
leads to, whatever else was read back. -/
theorem outcome_congr {P' : Persisted} (same : P'.catalog = P.catalog)
    (regular : P.catalog.Regular) {depth depth' : Nat}
    (hfound : P.found e.model e.action e.arguments = P'.found e.model e.action e.arguments)
    (h : ∀ e', P.LeadsTo e e' → P.outcome depth e' = P'.outcome depth' e') :
    P.outcome (depth + 1) e = P'.outcome (depth' + 1) e := by
  rw [outcome_succ, outcome_succ, ← hfound]
  refine relations_congr same fun info hinfo => ?_
  refine relations_foldlM_congr (regular _ _ hinfo).1 fun field related hmem => ?_
  refine settled_congr fun nested action w hnested given o ho => ?_
  have leads := h _ (.intro hinfo hmem hnested given ho)
  rw [outcome, outcome] at leads
  exact leads

/-- An element fails if its model is unknown, or as an element does to which it leads. -/
theorem exists_error_of_outcome (regular : P.catalog.Regular) {depth : Nat} {f : Failure}
    (h : P.outcome (depth + 1) e = .error f) :
    f = .unknownModel e.model ∨ ∃ e', P.LeadsTo e e' ∧ P.outcome depth e' = .error f := by
  rw [outcome_succ, relations] at h
  rcases error_of_bind h with h | ⟨info, hinfo, h⟩
  · exact .inl (Catalog.eq_of_model_error h)
  · obtain ⟨field, related, hmem, failed⟩ :=
      exists_error_of_relations_foldlM (regular _ _ hinfo).1 h
    obtain ⟨nested, action, w, o, hnested, given, ho, failed⟩ := exists_error_of_settled failed
    exact .inr ⟨_, .intro hinfo hmem hnested given ho, failed⟩

end Persisted

end GraphqlCypher
