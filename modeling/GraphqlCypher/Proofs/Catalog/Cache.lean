import GraphqlCypher.Catalog.Cache
import GraphqlCypher.Proofs.Entries
import Mathlib.Data.List.Dedup
import Mathlib.Data.List.Nodup
import Mathlib.Data.Set.Function

/-! A cache of catalogs answers as if it were not there, and forgets what was used longest
ago.

What a cache holds follows from the texts that were asked for alone: the texts that have a
catalog, each where it was asked for last, the latest first, as far as the bound allows
(`Kept.keys`). So whether a text is made again can be read off the requests since its last
one (`request_answers`). The map and the fingerprint are parameters: of the map its laws
are used, and of the fingerprint that it tells the texts apart that were asked for. -/
namespace GraphqlCypher

open Schema

/-! ### Lists by last occurrence -/

theorem dedup_concat (l : List String) (a : String) :
    (l ++ [a]).dedup = l.dedup.filter (· != a) ++ [a] := by
  induction l with
  | nil => rfl
  | cons b l ih =>
    by_cases hb : b ∈ l
    · rw [List.cons_append, List.dedup_cons_of_mem (List.mem_append_left _ hb),
        List.dedup_cons_of_mem hb, ih]
    · rw [List.cons_append, List.dedup_cons_of_notMem hb]
      by_cases hab : b = a
      · rw [List.dedup_cons_of_mem (by simp [hab]), ih]
        simp [hab]
      · rw [List.dedup_cons_of_notMem (by simp [hb, hab]), ih]
        simp [hab]

/-- Where a text occurs last divides what is left of a list in two. -/
theorem dedup_append_cons (l : List String) {a : String} {since : List String} (h : a ∉ since) :
    ∃ front, (l ++ a :: since).dedup = front ++ a :: since.dedup := by
  obtain ⟨front, hfront⟩ := List.suffix_union_right l (a :: since).dedup
  exact ⟨front, by rw [List.dedup_append, ← hfront, List.dedup_cons_of_notMem h]⟩

/-- What is dropped to make room for an element has no place afterwards either way. -/
theorem take_filter_take {l : List String} (distinct : l.Nodup) (a : String) (n : Nat) :
    ((l.take (n + 1)).filter (· != a)).take n = (l.filter (· != a)).take n := by
  induction l generalizing n with
  | nil => rfl
  | cons b l ih =>
    obtain ⟨hb, hl⟩ := List.nodup_cons.1 distinct
    rw [List.take_succ_cons]
    by_cases hab : b = a
    · have hleft : ∀ x ∈ l, (x != a) = true := fun x hx => by
        simpa using fun e : x = a => hb (hab ▸ e ▸ hx)
      have hkeep : ∀ k, (l.take k).filter (· != a) = l.take k := fun k =>
        List.filter_eq_self.2 fun x hx => hleft x (List.mem_of_mem_take hx)
      simp [hab, hkeep, List.filter_eq_self.2 hleft, List.take_take]
    · cases n with
      | zero => simp
      | succ n => simp [hab, ih hl n]

theorem mem_take_append_cons {front back : List String} {a : String} (h : a ∉ front) (n : Nat) :
    a ∈ (front ++ a :: back).take n ↔ front.length < n := by
  rw [List.take_append, List.mem_append]
  constructor
  · rintro (hm | hm)
    · exact absurd (List.mem_of_mem_take hm) h
    · by_contra hn
      rw [Nat.sub_eq_zero_of_le (Nat.le_of_not_lt hn)] at hm
      cases hm
  · intro hn
    obtain ⟨k, hk⟩ : ∃ k, n - front.length = k + 1 := ⟨n - front.length - 1, by omega⟩
    exact .inr (by rw [hk, List.take_succ_cons]; exact List.mem_cons_self)

theorem exists_last_occurrence {a : String} {l : List String} (h : a ∈ l) :
    ∃ earlier since, l = earlier ++ a :: since ∧ a ∉ since := by
  obtain ⟨since, earlier, heq, hfirst⟩ := List.eq_append_cons_of_mem (List.mem_reverse.2 h)
  refine ⟨earlier.reverse, since.reverse, ?_, by simpa using hfirst⟩
  simpa using congrArg List.reverse heq

theorem Entries.keys_promote {α : Type} (m : Entries α) (key : String) (value : α) :
    (m.promote key value).keys = key :: m.keys.filter (· != key) := by
  simp only [Entries.promote, Entries.keys, List.map_cons, List.filter_map]
  rfl

namespace CatalogCache

variable {σ : Type} (M : RecencyMap σ CachedCatalog) (fingerprint : String → String)

/-! ### One request -/

/-- What one request answers and leaves. -/
inductive Serves (c : CatalogCache σ) (text : String) :
    Except SchemaError CachedCatalog × CatalogCache σ → Prop
  | found {e : CachedCatalog} {map : σ}
      (held : (M.entries c.map).get? (fingerprint text) = some e)
      (entries : M.entries map = (M.entries c.map).promote (fingerprint text) e)
      (capacity : M.capacity map = M.capacity c.map) :
      Serves c text (.ok e, { c with map })
  | made {catalog : Catalog} {map : σ}
      (held : (M.entries c.map).get? (fingerprint text) = none)
      (read : Catalog.ofText text = .ok catalog)
      (entries : M.entries map =
        ((M.entries c.map).promote (fingerprint text) ⟨c.made, catalog⟩).take (M.capacity c.map))
      (capacity : M.capacity map = M.capacity c.map) :
      Serves c text (.ok ⟨c.made, catalog⟩, ⟨map, c.made + 1⟩)
  | refused {e : SchemaError} {map : σ}
      (held : (M.entries c.map).get? (fingerprint text) = none)
      (read : Catalog.ofText text = .error e)
      (entries : M.entries map = M.entries c.map)
      (capacity : M.capacity map = M.capacity c.map) :
      Serves c text (.error e, { c with map })

variable {M} in
theorem request_serves (lawful : M.Lawful) (c : CatalogCache σ) (text : String) :
    Serves M fingerprint c text (c.request M fingerprint text) := by
  have hvalue := lawful.get_eq c.map (fingerprint text)
  have hentries := lawful.entries_get c.map (fingerprint text)
  have hcapacity := lawful.capacity_get c.map (fingerprint text)
  rw [request]
  generalize M.get c.map (fingerprint text) = got at hvalue hentries hcapacity
  obtain ⟨value, map⟩ := got
  rw [← hvalue] at hentries
  cases value with
  | some e => exact .found hvalue.symm hentries hcapacity
  | none =>
    dsimp only at hentries hcapacity ⊢
    cases hread : Catalog.ofText text with
    | error e => exact .refused hvalue.symm hread hentries hcapacity
    | ok catalog =>
      exact .made hvalue.symm hread
        (by rw [lawful.entries_put, hentries, hcapacity])
        ((lawful.capacity_put ..).trans hcapacity)

/-! ### Requests one after another -/

section Requests
variable (capacity : Option Nat)

/-- A cache after requests for texts. -/
def after (texts : List String) : CatalogCache σ :=
  texts.foldl (fun c text => (c.request M fingerprint text).2) (start M capacity)

/-- The answer to a request for a text after requests for others. -/
def answer (earlier : List String) (text : String) : Except SchemaError CachedCatalog :=
  ((after M fingerprint capacity earlier).request M fingerprint text).1

theorem after_concat (texts : List String) (text : String) :
    after M fingerprint capacity (texts ++ [text]) =
      ((after M fingerprint capacity texts).request M fingerprint text).2 := by
  simp only [after, List.foldl_append, List.foldl_cons, List.foldl_nil]

def hasCatalog (text : String) : Bool := (Catalog.ofText text).toBool

theorem hasCatalog_of_ok {text : String} {catalog : Catalog}
    (h : Catalog.ofText text = .ok catalog) : hasCatalog text = true := by
  rw [hasCatalog, h]
  rfl

/-- The texts that have a catalog, each once. -/
def distinct (texts : List String) : List String := (texts.filter hasCatalog).dedup

theorem mem_distinct {texts : List String} {text : String} :
    text ∈ distinct texts ↔ text ∈ texts ∧ hasCatalog text = true := by
  rw [distinct, List.mem_dedup, List.mem_filter]

/-- The same texts, the latest in front. -/
def recent (texts : List String) : List String := (distinct texts).reverse

theorem nodup_recent (texts : List String) : (recent texts).Nodup :=
  List.nodup_reverse.2 (List.nodup_dedup _)

theorem mem_recent {texts : List String} {text : String} :
    text ∈ recent texts ↔ text ∈ texts ∧ hasCatalog text = true := by
  rw [recent, List.mem_reverse, mem_distinct]

theorem recent_concat {texts : List String} {text : String} (h : hasCatalog text = true) :
    recent (texts ++ [text]) = text :: (recent texts).filter (· != text) := by
  rw [recent, distinct, List.filter_append, List.filter_singleton, h, cond_true, dedup_concat,
    List.reverse_append, List.reverse_singleton, ← List.filter_reverse]
  rfl

theorem recent_concat_of_refused {texts : List String} {text : String}
    (h : hasCatalog text = false) : recent (texts ++ [text]) = recent texts := by
  simp [recent, distinct, List.filter_append, h]

/-- A text whose last request is known is among the latest if few others came after. -/
theorem mem_take_recent {earlier since : List String} {text : String}
    (h : hasCatalog text = true) (hlast : text ∉ since) (n : Nat) :
    text ∈ (recent (earlier ++ text :: since)).take n ↔ (distinct since).length < n := by
  have hsince : text ∉ since.filter hasCatalog := fun hm => hlast (List.mem_filter.1 hm).1
  obtain ⟨front, hfront⟩ := dedup_append_cons (earlier.filter hasCatalog) hsince
  have hrecent : recent (earlier ++ text :: since) =
      (distinct since).reverse ++ text :: front.reverse := by
    rw [recent, distinct, List.filter_append, List.filter_cons_of_pos h, hfront]
    simp [distinct]
  rw [hrecent, mem_take_append_cons (by simpa [mem_distinct] using fun hm => absurd hm hlast),
    List.length_reverse]

/-- The keys that one more use leaves. -/
theorem promote_recent {texts : List String} {text : String} (n : Nat)
    (apart : Set.InjOn fingerprint {t | t ∈ texts ++ [text]}) (h : hasCatalog text = true) :
    (fingerprint text :: (((recent texts).map fingerprint).take (n + 1)).filter
        (· != fingerprint text)).take (n + 1) =
      ((recent (texts ++ [text])).map fingerprint).take (n + 1) := by
  have hmem : ∀ t ∈ recent texts, t ∈ texts ++ [text] := fun t ht =>
    List.mem_append_left _ (mem_recent.1 ht).1
  have hnodup : ((recent texts).map fingerprint).Nodup :=
    (nodup_recent texts).map_on fun s hs t ht e => apart (hmem s hs) (hmem t ht) e
  have hfilter : ((recent texts).map fingerprint).filter (· != fingerprint text) =
      ((recent texts).filter (· != text)).map fingerprint := by
    rw [List.filter_map]
    refine congrArg _ (List.filter_congr fun t ht => ?_)
    have : fingerprint t = fingerprint text ↔ t = text :=
      apart.eq_iff (hmem t ht) (List.mem_append_right _ (List.mem_singleton_self _))
    rw [Bool.eq_iff_iff]
    simp [this]
  rw [recent_concat h, List.map_cons, List.take_succ_cons, List.take_succ_cons,
    take_filter_take hnodup, hfilter]

/-! ### What was answered -/

/-- A catalog was the answer to a request for a text. -/
def Answered (texts : List String) (text : String) (e : CachedCatalog) : Prop :=
  ∃ earlier later, texts = earlier ++ text :: later ∧
    answer M fingerprint capacity earlier text = .ok e

/-- A catalog was the answer to the last request for a text. -/
def LastAnswered (texts : List String) (text : String) (e : CachedCatalog) : Prop :=
  ∃ earlier since, texts = earlier ++ text :: since ∧ text ∉ since ∧
    answer M fingerprint capacity earlier text = .ok e

variable {M fingerprint capacity}

theorem LastAnswered.answered {texts : List String} {text : String} {e : CachedCatalog}
    (h : LastAnswered M fingerprint capacity texts text e) :
    Answered M fingerprint capacity texts text e := by
  obtain ⟨earlier, since, rfl, -, hanswer⟩ := h
  exact ⟨earlier, since, rfl, hanswer⟩

theorem LastAnswered.concat {texts : List String} {text t : String} {e : CachedCatalog}
    (h : LastAnswered M fingerprint capacity texts t e) (hne : t ≠ text) :
    LastAnswered M fingerprint capacity (texts ++ [text]) t e := by
  obtain ⟨earlier, since, rfl, hlast, hanswer⟩ := h
  exact ⟨earlier, since ++ [text], by simp, by simp [hlast, hne], hanswer⟩

theorem answered_concat {texts : List String} {text t : String} {e : CachedCatalog} :
    Answered M fingerprint capacity (texts ++ [text]) t e ↔
      Answered M fingerprint capacity texts t e ∨
        (t = text ∧ answer M fingerprint capacity texts text = .ok e) := by
  constructor
  · rintro ⟨earlier, later, heq, hanswer⟩
    rcases List.eq_nil_or_concat later with rfl | ⟨later, last, rfl⟩
    · obtain ⟨rfl, hlast⟩ := List.append_inj' heq rfl
      cases hlast
      exact .inr ⟨rfl, hanswer⟩
    · rw [List.concat_eq_append, ← List.cons_append, ← List.append_assoc] at heq
      obtain ⟨rfl, -⟩ := List.append_inj' heq rfl
      exact .inl ⟨earlier, later, rfl, hanswer⟩
  · rintro (⟨earlier, later, rfl, hanswer⟩ | ⟨rfl, hanswer⟩)
    · exact ⟨earlier, later ++ [text], by simp, hanswer⟩
    · exact ⟨texts, [], rfl, hanswer⟩

/-! ### What a cache holds -/

variable (M fingerprint capacity) in
/-- The answers of some requests, after which a number of catalogs were made. -/
structure Numbers (texts : List String) (made : Nat) : Prop where
  read : ∀ t e, Answered M fingerprint capacity texts t e → Catalog.ofText t = .ok e.catalog
  lt_made : ∀ t e, Answered M fingerprint capacity texts t e → e.number < made
  alone : ∀ s d, Answered M fingerprint capacity texts s d →
    ∀ t e, Answered M fingerprint capacity texts t e → d.number = e.number → s = t ∧ d = e

namespace Numbers

variable {texts : List String} {made : Nat} {text : String}

/-- A request adds no answer if it fails or gives what was given before. -/
theorem concat_of_old (h : Numbers M fingerprint capacity texts made)
    (hold : ∀ e, answer M fingerprint capacity texts text = .ok e →
      Answered M fingerprint capacity texts text e) :
    Numbers M fingerprint capacity (texts ++ [text]) made := by
  have hback : ∀ t d, Answered M fingerprint capacity (texts ++ [text]) t d →
      Answered M fingerprint capacity texts t d := by
    intro t d hd
    rcases answered_concat.1 hd with hd | ⟨rfl, hd⟩
    · exact hd
    · exact hold d hd
  exact ⟨fun t d hd => h.read t d (hback t d hd), fun t d hd => h.lt_made t d (hback t d hd),
    fun s d hd t e he => h.alone s d (hback s d hd) t e (hback t e he)⟩

theorem concat_of_new (h : Numbers M fingerprint capacity texts made) {catalog : Catalog}
    (hread : Catalog.ofText text = .ok catalog)
    (hanswer : answer M fingerprint capacity texts text = .ok ⟨made, catalog⟩) :
    Numbers M fingerprint capacity (texts ++ [text]) (made + 1) := by
  have hnew : ∀ t d, Answered M fingerprint capacity (texts ++ [text]) t d →
      Answered M fingerprint capacity texts t d ∨ (t = text ∧ d = ⟨made, catalog⟩) := by
    intro t d hd
    refine (answered_concat.1 hd).imp_right fun ⟨ht, hd⟩ => ⟨ht, ?_⟩
    cases hanswer.symm.trans hd
    rfl
  refine ⟨fun t d hd => ?_, fun t d hd => ?_, fun s d hd t e he hnumber => ?_⟩
  · rcases hnew t d hd with hd | ⟨rfl, rfl⟩
    · exact h.read t d hd
    · exact hread
  · rcases hnew t d hd with hd | ⟨rfl, rfl⟩
    · exact (h.lt_made t d hd).trans (Nat.lt_succ_self _)
    · exact Nat.lt_succ_self _
  · rcases hnew s d hd with hs | ⟨rfl, rfl⟩
    · rcases hnew t e he with ht | ⟨rfl, rfl⟩
      · exact h.alone s d hs t e ht hnumber
      · exact absurd hnumber (h.lt_made s d hs).ne
    · rcases hnew t e he with ht | ⟨rfl, rfl⟩
      · exact absurd hnumber.symm (h.lt_made t e ht).ne
      · exact ⟨rfl, rfl⟩

end Numbers

variable (M fingerprint capacity) in
/-- What a cache holds after requests for texts. -/
structure Kept (texts : List String) (c : CatalogCache σ) : Prop where
  bounded : M.capacity c.map = bound capacity
  keys : (M.entries c.map).keys = ((recent texts).map fingerprint).take (bound capacity)
  latest : ∀ t ∈ texts, ∀ e, (fingerprint t, e) ∈ M.entries c.map →
    LastAnswered M fingerprint capacity texts t e
  numbers : Numbers M fingerprint capacity texts c.made

theorem exists_bound_eq (capacity : Option Nat) : ∃ n, bound capacity = n + 1 :=
  ⟨bound capacity - 1, (Nat.sub_add_cancel (Nat.le_max_left ..)).symm⟩

theorem kept_start (lawful : M.Lawful) :
    Kept M fingerprint capacity [] (start M capacity) := by
  have hnone : ∀ t e, ¬ Answered M fingerprint capacity [] t e := by
    rintro t e ⟨earlier, later, heq, -⟩
    simp at heq
  refine ⟨lawful.capacity_empty _, ?_, nofun, fun t e h => absurd h (hnone t e),
    fun t e h => absurd h (hnone t e), fun t e h => absurd h (hnone t e)⟩
  rw [start, lawful.entries_empty]
  exact List.take_nil.symm

namespace Kept

variable {texts : List String} {c : CatalogCache σ} {text : String}

/-- A key is there if its text is one of the latest. -/
theorem mem_keys_iff (h : Kept M fingerprint capacity texts c)
    (apart : Set.InjOn fingerprint {t | t ∈ texts ++ [text]}) :
    fingerprint text ∈ (M.entries c.map).keys ↔ text ∈ (recent texts).take (bound capacity) := by
  rw [h.keys, ← List.map_take]
  refine ⟨fun hm => ?_, List.mem_map_of_mem⟩
  obtain ⟨t, ht, heq⟩ := List.mem_map.1 hm
  have hmem : t ∈ texts := (mem_recent.1 (List.mem_of_mem_take ht)).1
  exact apart (List.mem_append_left _ hmem) (List.mem_append_right _ (by simp)) heq ▸ ht

/-- What is found under the key of a text was the answer to its last request. -/
theorem lastAnswered (h : Kept M fingerprint capacity texts c)
    (apart : Set.InjOn fingerprint {t | t ∈ texts ++ [text]}) {e : CachedCatalog}
    (held : (M.entries c.map).get? (fingerprint text) = some e) :
    LastAnswered M fingerprint capacity texts text e := by
  have hm := Entries.mem_of_get? held
  have hkey := (h.mem_keys_iff apart).1 (List.mem_map_of_mem hm)
  exact h.latest text (mem_recent.1 (List.mem_of_mem_take hkey)).1 e hm

/-- The answers that were given last stay that, and the new one is the last for its
text. -/
theorem latest_promote (h : Kept M fingerprint capacity texts c)
    (apart : Set.InjOn fingerprint {t | t ∈ texts ++ [text]}) {e : CachedCatalog}
    (hanswer : answer M fingerprint capacity texts text = .ok e) :
    ∀ t ∈ texts ++ [text], ∀ d,
      (fingerprint t, d) ∈ (M.entries c.map).promote (fingerprint text) e →
      LastAnswered M fingerprint capacity (texts ++ [text]) t d := by
  intro t ht d hd
  rcases List.mem_cons.1 hd with hnew | hold
  · obtain ⟨hkey, rfl⟩ := Prod.mk.inj hnew
    obtain rfl : t = text := apart ht (List.mem_append_right _ (by simp)) hkey
    exact ⟨texts, [], rfl, List.not_mem_nil, hanswer⟩
  · obtain ⟨hold, hkey⟩ := List.mem_filter.1 hold
    have hne : t ≠ text := fun e => by simp [e] at hkey
    have htexts : t ∈ texts := by simpa [hne] using ht
    exact (h.latest t htexts d hold).concat hne

/-- What is used goes in front, and what does not fit behind it is dropped. -/
theorem keys_promote (h : Kept M fingerprint capacity texts c)
    (apart : Set.InjOn fingerprint {t | t ∈ texts ++ [text]}) (hcatalog : hasCatalog text = true)
    (e : CachedCatalog) :
    ((M.entries c.map).promote (fingerprint text) e).keys.take (bound capacity) =
      ((recent (texts ++ [text])).map fingerprint).take (bound capacity) := by
  obtain ⟨n, hn⟩ := exists_bound_eq capacity
  rw [Entries.keys_promote, h.keys, hn, promote_recent fingerprint n apart hcatalog]

/-- A key that is there needs no room. -/
theorem length_keys_promote_le (h : Kept M fingerprint capacity texts c) {e : CachedCatalog}
    (held : (M.entries c.map).get? (fingerprint text) = some e) :
    ((M.entries c.map).promote (fingerprint text) e).keys.length ≤ bound capacity := by
  have hmem : fingerprint text ∈ (M.entries c.map).keys :=
    List.mem_map_of_mem (Entries.mem_of_get? held)
  have hlt : ((M.entries c.map).keys.filter (· != fingerprint text)).length <
      (M.entries c.map).keys.length :=
    List.length_filter_lt_length_iff_exists.2 ⟨_, hmem, by simp⟩
  have hle : (M.entries c.map).keys.length ≤ bound capacity := by
    rw [h.keys]
    exact List.length_take_le ..
  rw [Entries.keys_promote, List.length_cons]
  exact hlt.trans_le hle

end Kept

/-- One more request: what is held is again what the texts say. -/
theorem Kept.request (lawful : M.Lawful) {texts : List String} {text : String}
    (apart : Set.InjOn fingerprint {t | t ∈ texts ++ [text]})
    (h : Kept M fingerprint capacity texts (after M fingerprint capacity texts)) :
    Kept M fingerprint capacity (texts ++ [text])
      (after M fingerprint capacity (texts ++ [text])) := by
  have hserves := request_serves fingerprint lawful (after M fingerprint capacity texts) text
  rw [after_concat]
  -- the answer is needed beside what the request leaves
  generalize hgot : (after M fingerprint capacity texts).request M fingerprint text = got
    at hserves ⊢
  have hanswer : answer M fingerprint capacity texts text = got.1 := congrArg Prod.fst hgot
  cases hserves with
  | @found e map held entries hcapacity =>
    have hlast := h.lastAnswered apart held
    have hcatalog := hasCatalog_of_ok (h.numbers.read _ _ hlast.answered)
    refine ⟨hcapacity.trans h.bounded, ?_, ?_, h.numbers.concat_of_old fun d hd => ?_⟩
    · rw [entries, ← h.keys_promote apart hcatalog e,
        List.take_of_length_le (h.length_keys_promote_le held)]
    · rw [entries]
      exact h.latest_promote apart hanswer
    · cases hanswer.symm.trans hd
      exact hlast.answered
  | @made catalog map held read entries hcapacity =>
    refine ⟨hcapacity.trans h.bounded, ?_, ?_, h.numbers.concat_of_new read hanswer⟩
    · rw [entries, Entries.keys, List.map_take, ← Entries.keys, h.bounded,
        h.keys_promote apart (hasCatalog_of_ok read)]
    · intro t ht d hd
      rw [entries] at hd
      exact h.latest_promote apart hanswer t ht d (List.mem_of_mem_take hd)
  | @refused error map held read entries hcapacity =>
    have hcatalog : hasCatalog text = false := by
      rw [hasCatalog, read]
      rfl
    refine ⟨hcapacity.trans h.bounded, ?_, ?_, h.numbers.concat_of_old fun d hd => ?_⟩
    · rw [entries, h.keys, recent_concat_of_refused hcatalog]
    · intro t ht d hd
      rw [entries] at hd
      have hne : t ≠ text := by
        rintro rfl
        obtain ⟨v, hv⟩ := Entries.exists_get?_of_mem_keys (List.mem_map_of_mem hd)
        cases held.symm.trans hv
      exact (h.latest t (by simpa [hne] using ht) d hd).concat hne
    · cases hanswer.symm.trans hd

/-- What a cache holds after any requests. -/
theorem kept_after (lawful : M.Lawful) (texts : List String)
    (apart : Set.InjOn fingerprint {t | t ∈ texts}) :
    Kept M fingerprint capacity texts (after M fingerprint capacity texts) := by
  induction texts using List.reverseRecOn with
  | nil => exact kept_start lawful
  | append_singleton texts text ih =>
    exact (ih (apart.mono fun t ht => List.mem_append_left _ ht)).request lawful apart

/-! ### The answers -/

variable (M fingerprint capacity) in
/-- What the answer to a request for a text is, after requests for others. Two answers are
one object if they have one number. -/
structure Answers (before : List String) (text : String) : Prop where
  /-- It is what the text gives by itself, a catalog or a failure. -/
  catalog : (answer M fingerprint capacity before text).map CachedCatalog.catalog =
    Catalog.ofText text
  /-- It is the object that the last request for the text gave if there was one and fewer
  others than the cache can hold were made or found since. -/
  same (e : CachedCatalog) : answer M fingerprint capacity before text = .ok e →
    ((∃ last, LastAnswered M fingerprint capacity before text last ∧ last.number = e.number) ↔
      ∃ earlier since, before = earlier ++ text :: since ∧ text ∉ since ∧
        (distinct since).length < bound capacity)
  /-- No object is given for two texts. -/
  alone (e : CachedCatalog) : answer M fingerprint capacity before text = .ok e →
    ∀ t d, Answered M fingerprint capacity before t d → d.number = e.number → t = text ∧ d = e
  /-- A failure leaves everything where it is. -/
  unmoved (e : SchemaError) : answer M fingerprint capacity before text = .error e →
    M.entries (after M fingerprint capacity (before ++ [text])).map =
      M.entries (after M fingerprint capacity before).map
  size : M.size (after M fingerprint capacity before).map =
    min (bound capacity) (distinct before).length

theorem Kept.size {texts : List String} {c : CatalogCache σ} (lawful : M.Lawful)
    (h : Kept M fingerprint capacity texts c) :
    M.size c.map = min (bound capacity) (distinct texts).length := by
  have hlength := congrArg List.length h.keys
  rw [Entries.keys, List.length_map, List.length_take, List.length_map, recent,
    List.length_reverse] at hlength
  rw [lawful.size_eq, hlength]

/-- Whether a text is found is decided by the requests since its last one. -/
theorem Kept.mem_keys_iff_since {texts : List String} {c : CatalogCache σ} {text : String}
    (h : Kept M fingerprint capacity texts c)
    (apart : Set.InjOn fingerprint {t | t ∈ texts ++ [text]}) (hcatalog : hasCatalog text = true) :
    fingerprint text ∈ (M.entries c.map).keys ↔
      ∃ earlier since, texts = earlier ++ text :: since ∧ text ∉ since ∧
        (distinct since).length < bound capacity := by
  rw [h.mem_keys_iff apart]
  constructor
  · intro hm
    have htext := (mem_recent.1 (List.mem_of_mem_take hm)).1
    obtain ⟨earlier, since, rfl, hlast⟩ := exists_last_occurrence htext
    exact ⟨earlier, since, rfl, hlast, (mem_take_recent hcatalog hlast _).1 hm⟩
  · rintro ⟨earlier, since, rfl, hlast, hfew⟩
    exact (mem_take_recent hcatalog hlast _).2 hfew

/-- **A cache answers every request with what its text gives by itself, and with the object
it gave last for that text exactly as long as it has not had to make room since.** -/
theorem request_answers (lawful : M.Lawful) (capacity : Option Nat) (before : List String)
    (text : String) (apart : Set.InjOn fingerprint {t | t ∈ before ++ [text]}) :
    Answers M fingerprint capacity before text := by
  have hkept : Kept M fingerprint capacity before (after M fingerprint capacity before) :=
    kept_after lawful before (apart.mono fun t ht => List.mem_append_left _ ht)
  have hsize := hkept.size lawful
  have hafter := after_concat M fingerprint capacity before text
  have hserves := request_serves fingerprint lawful (after M fingerprint capacity before) text
  generalize hgot : (after M fingerprint capacity before).request M fingerprint text = got
    at hserves hafter
  have hanswer : answer M fingerprint capacity before text = got.1 := congrArg Prod.fst hgot
  cases hserves with
  | @found e map held entries hcapacity =>
    have hlast := hkept.lastAnswered apart held
    have hread := hkept.numbers.read _ _ hlast.answered
    have hkey := List.mem_map_of_mem (f := Prod.fst) (Entries.mem_of_get? held)
    refine ⟨?_, ?_, ?_, ?_, hsize⟩
    · rw [hanswer, hread]
      rfl
    · intro d hd
      cases hanswer.symm.trans hd
      exact iff_of_true ⟨e, hlast, rfl⟩
        ((hkept.mem_keys_iff_since apart (hasCatalog_of_ok hread)).1 hkey)
    · intro d hd t d' hd'
      cases hanswer.symm.trans hd
      exact hkept.numbers.alone t d' hd' text e hlast.answered
    · intro error herror
      cases hanswer.symm.trans herror
  | @made catalog map held read entries hcapacity =>
    refine ⟨?_, ?_, ?_, ?_, hsize⟩
    · rw [hanswer, read]
      rfl
    · intro d hd
      cases hanswer.symm.trans hd
      refine iff_of_false ?_ ?_
      · rintro ⟨last, hlast, hnumber⟩
        exact (hkept.numbers.lt_made _ _ hlast.answered).ne hnumber
      · intro hsince
        have hkey := (hkept.mem_keys_iff_since apart (hasCatalog_of_ok read)).2 hsince
        obtain ⟨e, he⟩ := Entries.exists_get?_of_mem_keys hkey
        cases held.symm.trans he
    · intro d hd t d' hd' hnumber
      cases hanswer.symm.trans hd
      exact absurd hnumber (hkept.numbers.lt_made t d' hd').ne
    · intro error herror
      cases hanswer.symm.trans herror
  | @refused error map held read entries hcapacity =>
    refine ⟨?_, ?_, ?_, ?_, hsize⟩
    · rw [hanswer, read]
      rfl
    · intro d hd
      cases hanswer.symm.trans hd
    · intro d hd
      cases hanswer.symm.trans hd
    · intro _ _
      rw [hafter]
      exact entries

end Requests

/-! ### Two texts -/

def personText : String := "type Person @model \x7b id: ID! @unique name: String \x7d"

def bookText : String := "type Book @model \x7b title: String \x7d"

/-- Two texts by their digests. -/
def digests : Entries String :=
  [(personText, "41bf24164abd21d078a1f3535124653494893c89ee4f589708d434e5bc630116"),
    (bookText, "8168dc46bf19bc2f84d4234ab2d3b70bc9885fa78fe1db90fb735024e15fb444")]

def digest (text : String) : String := (digests.get? text).getD text

theorem request_answers_books :
    RecencyMap.Lawful (RecentList.map : RecencyMap (RecentList CachedCatalog) CachedCatalog) ∧
      Set.InjOn digest {t | t ∈ [personText, bookText] ++ [personText]} ∧
      Answers RecentList.map digest (some 1) [personText, bookText] personText := by
  have apart : Set.InjOn digest {t | t ∈ [personText, bookText] ++ [personText]} := by
    have h : ∀ s ∈ [personText, bookText] ++ [personText],
        ∀ t ∈ [personText, bookText] ++ [personText], digest s = digest t → s = t := by
      decide +kernel
    exact fun s hs t ht => h s hs t ht
  exact ⟨RecentList.lawful, apart, request_answers RecentList.lawful _ _ _ apart⟩

/-- A cache for one catalog makes the first again, one for two does not. -/
example :
    ((answer RecentList.map digest (some 1) [personText, bookText] personText).toOption.map
        CachedCatalog.number = some 2) ∧
      (answer RecentList.map digest (some 2) [personText, bookText] personText).toOption.map
        CachedCatalog.number = some 0 := by
  decide +kernel

end CatalogCache

end GraphqlCypher
