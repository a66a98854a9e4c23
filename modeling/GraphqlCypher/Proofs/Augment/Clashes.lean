import GraphqlCypher.Proofs.Augment.Members
import Mathlib.Data.List.Pairwise

/-! When two members of a generated part have one name.

The members of most parts are named by fields, and fields have names of their own. Where
suffixes are put to the names of fields, or names that are fixed stand beside them, members
can meet (`Scope.Clashes`): the plural of one field is another one, a filter of a field is
another field, or a field has the name of an argument. A part has each name once just if
none of that happens (`distinct_iff`); it does happen (`not_distinct_contestants`). -/
namespace GraphqlCypher.Schema

/-! ### Names with suffixes -/

/-- Of two names that a suffix each makes equal, one is the other with something behind it. -/
theorem eq_append_or_eq_append {m n s t : String} (h : m ++ s = n ++ t) :
    (∃ r, m = n ++ r ∧ t = r ++ s) ∨ ∃ r, n = m ++ r ∧ s = r ++ t := by
  have hlist := congrArg String.toList h
  rw [String.toList_append, String.toList_append] at hlist
  rcases List.append_eq_append_iff.1 hlist with ⟨r, hn, hs⟩ | ⟨r, hm, ht⟩
  · refine .inr ⟨String.ofList r, ?_, ?_⟩ <;> apply String.toList_inj.1 <;> simpa
  · refine .inl ⟨String.ofList r, ?_, ?_⟩ <;> apply String.toList_inj.1 <;> simpa

section Suffixed
variable {α : Type} {items : List α} {name : α → String} {suffixes : α → List String}
  (distinct : (items.map name).Nodup) (each : ∀ a ∈ items, (suffixes a).Nodup)
include distinct each

/-- Names with suffixes are there once each if two items never share one. -/
theorem nodup_suffixed_iff :
    (items.flatMap fun a => (suffixes a).map (name a ++ ·)).Nodup ↔
      ∀ a ∈ items, ∀ b ∈ items, name a ≠ name b → ∀ s ∈ suffixes a, ∀ t ∈ suffixes b,
        name a ++ s ≠ name b ++ t := by
  have hinjective : ∀ n : String, Function.Injective (n ++ ·) := by
    intro n s t h
    have hlist := congrArg String.toList h
    simp only [String.toList_append, List.append_cancel_left_eq] at hlist
    exact String.toList_inj.1 hlist
  rw [List.nodup_flatMap,
    and_iff_right fun a ha => (each a ha).map (hinjective (name a))]
  constructor
  · intro h a ha b hb hne s hs t ht heq
    have hsymm : Std.Symm (Function.onFun List.Disjoint fun a => (suffixes a).map (name a ++ ·)) :=
      ⟨fun _ _ hab _ hx hy => hab hy hx⟩
    have hdisjoint := h.forall ha hb fun e => hne (congrArg name e)
    exact hdisjoint (List.mem_map_of_mem hs) (heq ▸ List.mem_map_of_mem ht)
  · intro h
    refine (List.pairwise_map.1 distinct).imp_of_mem fun {a b} ha hb hne x hx hx' => ?_
    obtain ⟨s, hs, rfl⟩ := List.mem_map.1 hx
    obtain ⟨t, ht, heq⟩ := List.mem_map.1 hx'
    exact h a ha b hb hne s hs t ht heq.symm

/-- Where what a suffix leaves of another is a suffix as well, and nothing is a suffix too, two
names can only meet if one of them stands for itself. -/
theorem nodup_suffixed_iff_of_closed
    (bare : ∀ a ∈ items, suffixes a ≠ [] → "" ∈ suffixes a)
    (closed : ∀ a ∈ items, ∀ b ∈ items, ∀ s ∈ suffixes a, ∀ r, r ++ s ∈ suffixes b →
      r ∈ suffixes b) :
    (items.flatMap fun a => (suffixes a).map (name a ++ ·)).Nodup ↔
      ∀ a ∈ items, suffixes a ≠ [] → ∀ b ∈ items, ∀ s ∈ suffixes b, s ≠ "" →
        name a ≠ name b ++ s := by
  rw [nodup_suffixed_iff distinct each]
  constructor
  · intro h a ha hsuffixes b hb s hs hne heq
    have hnames : name a ≠ name b := by
      intro e
      rw [e] at heq
      have hlist := congrArg String.toList heq
      rw [String.toList_append, List.self_eq_append_right] at hlist
      exact hne (String.toList_inj.1 hlist)
    exact h a ha b hb hnames "" (bare a ha hsuffixes) s hs (by rw [String.append_empty, heq])
  · intro h a ha b hb hne s hs t ht heq
    have hbare : ∀ {m n r : String}, m = n ++ r → m ≠ n → r ≠ "" := by
      rintro m n r rfl hne rfl
      exact hne (String.append_empty ..)
    rcases eq_append_or_eq_append heq with ⟨r, hr, rfl⟩ | ⟨r, hr, rfl⟩
    · exact h a ha (List.ne_nil_of_mem hs) b hb r (closed a ha b hb s hs r ht) (hbare hr hne) hr
    · exact h b hb (List.ne_nil_of_mem ht) a ha r (closed b hb a ha t ht r hs)
        (hbare hr hne.symm) hr

end Suffixed

/-- Whether what each suffix of some leaves of others is again one of those. -/
def leavesSuffixes (some others : List String) : Bool :=
  some.all fun s => others.all fun t =>
    !s.toList.isSuffixOf t.toList ||
      others.contains (String.ofList (t.toList.take (t.toList.length - s.toList.length)))

theorem mem_of_leavesSuffixes {some others : List String}
    (h : leavesSuffixes some others = true) {s r : String} (hs : s ∈ some)
    (ht : r ++ s ∈ others) : r ∈ others := by
  have hpair := List.all_eq_true.1 (List.all_eq_true.1 h s hs) _ ht
  rw [String.toList_append, Bool.or_eq_true, Bool.not_eq_true'] at hpair
  rcases hpair with hpair | hpair
  · rw [List.isSuffixOf_iff_suffix.2 (List.suffix_append ..)] at hpair
    cases hpair
  · simpa using hpair

/-! ### Clashes -/

/-- Behind the name of a field: nothing, or the mark of a list of values. -/
def pluralSuffixes : List String := ["", "s"]

/-- Beside the arguments for values where many nodes may come back. -/
def pagedNames : List String :=
  ["filter", "orderBy", Names.internalId, "_ids", "first", "offset"]

namespace Scope

/-- Behind the name of a scalar field in a filter: nothing, and how it may be compared. -/
def scalarSuffixes : List String := ["", "_not", "_in", "_not_in"] ++ comparisons

/-- What may be asked of a field in a filter. -/
def filterSuffixes (S : Scope) (f : Field) : List String :=
  if f.isInternalId then []
  else if f.isRelation then if S.leadsToModel f then relationFilters else []
  else if S.leadsToModel f || S.isPlain f.typeName then []
  else scalarSuffixes

variable (S : Scope)

/-- A field with a value of its own has the name of a fixed argument, or the plural of another
one's. -/
def ValueClash (m : ObjectType) (fixed : List String) : Prop :=
  ∃ f ∈ S.valueFields m, f.name ∈ fixed ∨ ∃ g ∈ S.valueFields m, f.name = g.name ++ "s"

/-- A field that is filtered has the name of a connective, or of a filter of another one. -/
def FilterClash (m : ObjectType) : Prop :=
  ∃ f ∈ m.fields, S.filterSuffixes f ≠ [] ∧
    (f.name ∈ ["AND", "OR"] ∨
      ∃ g ∈ m.fields, ∃ s ∈ S.filterSuffixes g, s ≠ "" ∧ f.name = g.name ++ s)

/-- When a source makes two members with one name. -/
def Clashes : Source → Prop
  | .query m | .related m true => S.ValueClash m pagedNames
  | .related m false => S.ValueClash m ["orderBy", "filter"]
  | .relate _ f => f.name = "where"
  | .type .filter m => S.FilterClash m
  | .bare | .create _ | .type _ _ => False

variable {S} {m : ObjectType} (distinct : (m.fields.map Field.name).Nodup)

/-! ### Arguments -/

theorem names_valueArguments (S : Scope) (m : ObjectType) :
    (S.valueArguments m).map InputValue.name =
      (S.valueFields m).flatMap fun f => pluralSuffixes.map (f.name ++ ·) := by
  rw [valueArguments, List.map_flatMap]
  refine List.flatMap_congr fun f _ => ?_
  simp [pluralSuffixes, InputValue.of]

theorem mem_names_valueArguments {n : String} :
    n ∈ (S.valueArguments m).map InputValue.name ↔
      ∃ f ∈ S.valueFields m, n = f.name ∨ n = f.name ++ "s" := by
  rw [names_valueArguments]
  simp [pluralSuffixes, List.mem_flatMap]

include distinct in
theorem nodup_valueArguments_iff : ((S.valueArguments m).map InputValue.name).Nodup ↔
    ∀ f ∈ S.valueFields m, ∀ g ∈ S.valueFields m, f.name ≠ g.name ++ "s" := by
  have hdistinct : ((S.valueFields m).map Field.name).Nodup :=
    distinct.sublist (List.filter_sublist.map _)
  have hclosed : leavesSuffixes pluralSuffixes pluralSuffixes = true := by decide
  rw [names_valueArguments, nodup_suffixed_iff_of_closed hdistinct (fun _ _ => by decide)
    (fun _ _ _ => by decide) (fun _ _ _ _ s hs r hr => mem_of_leavesSuffixes hclosed hs hr)]
  simp [pluralSuffixes]

include distinct in
/-- Fixed arguments beside the arguments for values: they clash with fields of their names, for
none of them is a plural but that of the internal id. -/
theorem nodup_beside_iff {values : List InputValue} {fixed : List String}
    (hfixed : values.map InputValue.name = fixed) (hnodup : fixed.Nodup)
    (hplural : ∀ n ∈ fixed, n.toList.getLast? = some 's' → n = "_ids") :
    ((S.valueArguments m ++ values).map InputValue.name).Nodup ↔
      ¬ S.ValueClash m fixed := by
  have hids : ∀ f ∈ S.valueFields m, f.name ++ "s" ∉ fixed := by
    intro f hf hmem
    have hname := hplural _ hmem (by simp)
    have hinternal : f.name = Names.internalId := by
      have hlist := congrArg String.toList hname
      rw [String.toList_append,
        show "_ids".toList = Names.internalId.toList ++ "s".toList by decide,
        List.append_cancel_right_eq] at hlist
      exact String.toList_inj.1 hlist
    simpa [Field.isInternalId, hinternal] using (List.mem_filter.1 hf).2
  rw [List.map_append, List.nodup_append', hfixed, and_iff_right hnodup,
    nodup_valueArguments_iff distinct]
  constructor
  · rintro ⟨hvalues, hdisjoint⟩ ⟨f, hf, hmem | ⟨g, hg, hname⟩⟩
    · exact hdisjoint (mem_names_valueArguments.2 ⟨f, hf, .inl rfl⟩) hmem
    · exact hvalues f hf g hg hname
  · intro h
    refine ⟨fun f hf g hg hname => h ⟨f, hf, .inr ⟨g, hg, hname⟩⟩, fun n hn hn' => ?_⟩
    obtain ⟨f, hf, rfl | rfl⟩ := mem_names_valueArguments.1 hn
    · exact h ⟨f, hf, .inl hn'⟩
    · exact hids f hf hn'

include distinct in
theorem nodup_queryArguments_iff :
    ((S.queryArguments m).map InputValue.name).Nodup ↔ ¬ S.ValueClash m pagedNames := by
  rw [queryArguments, List.append_assoc]
  exact nodup_beside_iff distinct rfl (by decide) (by decide)

include distinct in
theorem nodup_freshArguments_iff (hm : S.model? m.name = some m) (isList : Bool) :
    ((S.freshArguments m.name isList).map InputValue.name).Nodup ↔
      ¬ S.Clashes (.related m isList) := by
  rw [freshArguments, hm]
  cases isList with
  | true => exact nodup_beside_iff distinct rfl (by decide) (by decide)
  | false => exact nodup_beside_iff distinct rfl (by decide) (by decide)

/-! ### Filters and orderings -/

/-- A field is asked what a relation is asked, or what a scalar is, or nothing. -/
theorem filterSuffixes_mem (S : Scope) (f : Field) :
    S.filterSuffixes f ∈ [[], relationFilters, scalarSuffixes] := by
  unfold filterSuffixes
  split
  · simp
  · split
    · split <;> simp
    · split <;> simp

theorem names_fieldFilters (S : Scope) (f : Field) :
    (S.fieldFilters f).map InputValue.name = (S.filterSuffixes f).map (f.name ++ ·) := by
  unfold fieldFilters filterSuffixes
  split
  · rfl
  · split
    · split
      · rw [List.map_map]
        rfl
      · rfl
    · split
      · rfl
      · simp [scalarFilters, scalarSuffixes, InputValue.of, Function.comp_def]

include distinct in
theorem nodup_filter_iff :
    ((S.filter m).fields.map InputValue.name).Nodup ↔ ¬ S.FilterClash m := by
  have hbare : ∀ A ∈ [[], relationFilters, scalarSuffixes], A ≠ [] → "" ∈ A := by decide
  have heach : ∀ A ∈ [[], relationFilters, scalarSuffixes], A.Nodup := by decide
  have hclosed : ∀ A ∈ [[], relationFilters, scalarSuffixes],
      ∀ B ∈ [[], relationFilters, scalarSuffixes], leavesSuffixes A B = true := by
    decide +kernel
  have hfixed : ∀ A ∈ [[], relationFilters, scalarSuffixes], ∀ s ∈ A, ∀ n ∈ ["AND", "OR"],
      s.toList.isSuffixOf n.toList = true → s = "" := by
    decide +kernel
  have hnames : (S.filter m).fields.map InputValue.name =
      ["AND", "OR"] ++ m.fields.flatMap fun f => (S.filterSuffixes f).map (f.name ++ ·) := by
    rw [filter, List.map_append, List.map_flatMap]
    exact congrArg _ (List.flatMap_congr fun f _ => S.names_fieldFilters f)
  rw [hnames, List.nodup_append', and_iff_right (by decide),
    nodup_suffixed_iff_of_closed distinct (fun f _ => heach _ (S.filterSuffixes_mem f))
      (fun f _ => hbare _ (S.filterSuffixes_mem f))
      (fun f _ g _ s hs r hr => mem_of_leavesSuffixes
        (hclosed _ (S.filterSuffixes_mem f) _ (S.filterSuffixes_mem g)) hs hr)]
  constructor
  · rintro ⟨hfields, hdisjoint⟩ ⟨f, hf, hsuffixes, hmem | ⟨g, hg, s, hs, hne, hname⟩⟩
    · refine hdisjoint hmem (List.mem_flatMap.2 ⟨f, hf, List.mem_map.2 ⟨"", ?_, ?_⟩⟩)
      · exact hbare _ (S.filterSuffixes_mem f) hsuffixes
      · exact String.append_empty ..
    · exact hfields f hf hsuffixes g hg s hs hne hname
  · intro h
    refine ⟨fun f hf hsuffixes g hg s hs hne hname =>
      h ⟨f, hf, hsuffixes, .inr ⟨g, hg, s, hs, hne, hname⟩⟩, fun n hn hmem => ?_⟩
    obtain ⟨f, hf, hmem⟩ := List.mem_flatMap.1 hmem
    obtain ⟨s, hs, rfl⟩ := List.mem_map.1 hmem
    have hempty : s = "" := by
      refine hfixed _ (S.filterSuffixes_mem f) s hs _ hn (List.isSuffixOf_iff_suffix.2 ?_)
      rw [String.toList_append]
      exact List.suffix_append ..
    subst hempty
    rw [String.append_empty] at hn
    exact h ⟨f, hf, List.ne_nil_of_mem hs, .inl hn⟩

include distinct in
/-- The values of an ordering never meet: neither suffix ends the other. -/
theorem nodup_ordering (S : Scope) : ((S.ordering m).values.map EnumValue.name).Nodup := by
  have hdistinct : ((S.valueFields m).map Field.name).Nodup :=
    distinct.sublist (List.filter_sublist.map _)
  have hnames : (S.ordering m).values.map EnumValue.name =
      (S.valueFields m).flatMap fun f => ["_asc", "_desc"].map (f.name ++ ·) := by
    rw [ordering, List.map_flatMap]
    rfl
  have hapart : ∀ s ∈ ["_asc", "_desc"], ∀ t ∈ ["_asc", "_desc"],
      s.toList.isSuffixOf t.toList = true → s = t := by decide +kernel
  rw [hnames, nodup_suffixed_iff hdistinct fun _ _ => by decide]
  intro f hf g hg hne s hs t ht heq
  have hsame : s = t := by
    rcases eq_append_or_eq_append heq with ⟨r, -, rfl⟩ | ⟨r, -, rfl⟩
    · refine hapart s hs _ ht (List.isSuffixOf_iff_suffix.2 ?_)
      rw [String.toList_append]
      exact List.suffix_append ..
    · refine (hapart t ht _ hs (List.isSuffixOf_iff_suffix.2 ?_)).symm
      rw [String.toList_append]
      exact List.suffix_append ..
  subst hsame
  have hlist := congrArg String.toList heq
  rw [String.toList_append, String.toList_append, List.append_cancel_right_eq] at hlist
  exact hne (String.toList_inj.1 hlist)

/-! ### Parts named by fields alone -/

include distinct in
theorem nodup_create (S : Scope) : ((S.create m).arguments.map InputValue.name).Nodup := by
  unfold create
  split
  · have hnames : (remoteCreate m).arguments.map InputValue.name =
        (m.fields.filter Field.isStored).map Field.name := by
      rw [remoteCreate, nativeField, List.map_map]
      rfl
    rw [hnames]
    exact distinct.sublist (List.filter_sublist.map _)
  · exact List.nodup_singleton _

theorem name_of_createField? {f : Field} {v : InputValue} (h : S.createField? f = some v) :
    v.name = f.name := by
  unfold createField? at h
  split at h
  · cases h
  · split at h
    · split at h
      · cases h
        rfl
      · cases h
    · split at h
      · cases h
      · cases h
        rfl

include distinct in
theorem nodup_createInput (S : Scope) :
    ((S.createInput m).fields.map InputValue.name).Nodup := by
  have hnames : ∀ fields : List Field, ((fields.filterMap S.createField?).map
      InputValue.name).Sublist (fields.map Field.name) := by
    intro fields
    induction fields with
    | nil => exact .slnil
    | cons f rest ih =>
      cases hv : S.createField? f with
      | none =>
        rw [List.filterMap_cons_none hv]
        exact ih.cons _
      | some v =>
        rw [List.filterMap_cons_some hv, List.map_cons, List.map_cons, name_of_createField? hv]
        exact ih.cons_cons _
  exact distinct.sublist (hnames m.fields)

include distinct in
theorem nodup_whereUniqueInput :
    ((whereUniqueInput m).fields.map InputValue.name).Nodup := by
  rw [whereUniqueInput, List.map_map]
  exact distinct.sublist (List.filter_sublist.map _)

include distinct in
theorem nodup_generated_iff (S : Scope) (k : TypeKind) :
    (S.generated k m).part.names.Nodup ↔ ¬ S.Clashes (.type k m) := by
  cases k with
  | filter => exact nodup_filter_iff distinct
  | ordering => exact iff_of_true (nodup_ordering distinct S) not_false
  | createInput => exact iff_of_true (nodup_createInput distinct S) not_false
  | whereUniqueInput => exact iff_of_true (nodup_whereUniqueInput distinct) not_false
  | createNested _ =>
    have hnames : List.Nodup ["create", "connect"] := by decide
    exact iff_of_true hnames not_false
  | connectNested _ =>
    have hnames : List.Nodup ["connect", "create"] := by decide
    exact iff_of_true hnames not_false

/-- **A source names each of its members once just if none of them clash.** -/
theorem Indexed.distinct_iff (h : S.Indexed)
    (distinct : ∀ m ∈ S.document.models, (m.fields.map Field.name).Nodup) {s : Source}
    (hs : S.Has s) : (S.part s).names.Nodup ↔ ¬ S.Clashes s := by
  cases hs with
  | bare => exact iff_of_true List.nodup_nil not_false
  | query model => exact nodup_queryArguments_iff (distinct _ model)
  | related model => exact nodup_freshArguments_iff (distinct _ model) (h.model?_of_mem model) _
  | create model => exact iff_of_true (nodup_create (distinct _ model) S) not_false
  | @relate m f =>
    show List.Nodup ["where", f.name] ↔ ¬ f.name = "where"
    simp [eq_comm]
  | type model => exact nodup_generated_iff (distinct _ model) S _

end Scope

namespace Document

/-- **Two members of a generated part have one name just where its source makes them clash.** -/
theorem members_distinct_iff {o : AugmentOptions} {d d' : Document} (h : d.augment o = .ok d')
    (hdistinct : ∀ m ∈ d.models, (m.fields.map Field.name).Nodup) {p : Part}
    (hp : d.Generated o d' p) :
    ∃ S s, d.Prepares o S ∧ S.Has s ∧ p = S.part s ∧ (p.names.Nodup ↔ ¬ S.Clashes s) := by
  rcases prepares_of_augment h with ⟨hmodels, rfl⟩ | ⟨S, hS, rfl⟩
  · exact absurd hp (not_generated_self hmodels p)
  · obtain ⟨s, hs, rfl⟩ := hS.source_of_generated hp
    have hprepared : ∀ m ∈ S.document.models, (m.fields.map Field.name).Nodup := by
      intro m hm
      rw [hS.models_eq] at hm
      obtain ⟨u, hu, rfl⟩ := List.mem_map.1 hm
      exact ObjectType.nodup_normalized o (hdistinct u hu)
    exact ⟨S, s, hS, hs, rfl, hS.indexed.distinct_iff hprepared hs⟩

/-- Contestants with a first and a last name. -/
def contestants : Document :=
  [.type (.object {
    name := "Contestant"
    directives := [Directive.bare Names.model]
    fields := [
      { name := "id", type := .nonNull (.named "ID"), directives := [Directive.bare Names.unique] },
      { name := "first", type := .named "String" }, { name := "last", type := .named "String" }] })]

/-- The names of the arguments of their query. -/
def contestantArguments : List String :=
  ["id", "ids", "first", "firsts", "last", "lasts", "filter", "orderBy", "_id", "_ids", "first",
    "offset"]

/-- **Members can clash.** The query takes the first name and the size of the page under one
name. -/
theorem not_distinct_contestants :
    (∀ m ∈ contestants.models, (m.fields.map Field.name).Nodup) ∧
      ∃ d' p, contestants.augment {} = .ok d' ∧ contestants.Generated {} d' p ∧
        ¬ p.names.Nodup := by
  obtain ⟨d', values, h, hp, hnames⟩ := exists_first_query (o := {}) (d := contestants)
    (g := List.map InputValue.name) (a := contestantArguments) rfl rfl
  refine ⟨by decide, d', _, h, hp, ?_⟩
  rw [Part.names, hnames]
  decide

theorem members_distinct_iff_contestants :
    (∀ m ∈ contestants.models, (m.fields.map Field.name).Nodup) ∧
      ∃ d' p S s, contestants.augment {} = .ok d' ∧ contestants.Generated {} d' p ∧
        contestants.Prepares {} S ∧ S.Has s ∧ p = S.part s ∧ S.Clashes s := by
  obtain ⟨d', values, h, hp, hnames⟩ := exists_first_query (o := {}) (d := contestants)
    (g := List.map InputValue.name) (a := contestantArguments) rfl rfl
  have hdistinct : ∀ m ∈ contestants.models, (m.fields.map Field.name).Nodup := by decide
  obtain ⟨S, s, hS, hs, hpart, hiff⟩ := members_distinct_iff h hdistinct hp
  refine ⟨hdistinct, d', _, S, s, h, hp, hS, hs, hpart, ?_⟩
  by_contra hclash
  have hnodup := hiff.2 hclash
  rw [Part.names, hnames] at hnodup
  exact absurd hnodup (by decide)

end Document

end GraphqlCypher.Schema
