import GraphqlCypher.Json.Decode
import GraphqlCypher.Proofs.Json.WellKeyed
import GraphqlCypher.Proofs.Reader

/-! Objects that are read have each key once.

A key that is written again replaces what stood under it, so whatever the text, no
value that is read as `keep` holds a key twice. -/
namespace GraphqlCypher.Json

namespace TextReader

variable {α σ : Type} {s : Bool} {G : Char → Prop} {P : α → Prop} {I : σ → Prop}

theorem yields_fail (cause : Malformed) : (fail cause : TextReader s α).Yields G P :=
  Reader.yields_refuse _

/-- What every element keeps, a list keeps. -/
theorem yields_listFold {mode : Mode} {element : σ → TextReader true σ} {a : σ}
    (helement : ∀ a, I a → (element a).Yields G I) (ha : I a) :
    (listFold mode a element).Yields G I := by
  have hspaced : ∀ a, I a → ((element a).andThen fun b => blanks.map fun _ => b).Yields G I :=
    fun a ha => (helement a ha).andThen fun b hb =>
      (Reader.yields_any blanks).map fun _ _ => hb
  refine (Reader.yields_any _).andThen fun _ _ => (Reader.yields_any _).andThen fun _ _ => ?_
  refine (Reader.yields_look fun input => ?_).andThen fun b hb =>
    (Reader.yields_any _).map fun _ _ => hb
  split
  · exact Reader.yields_done ha
  split
  · exact yields_fail _
  refine ((hspaced a ha).andThen fun b hb =>
    Reader.yields_foldWhile (fun c hc => ?_) hb).relax
  refine (Reader.yields_any _).andThen fun _ _ => (Reader.yields_any _).andThen fun _ _ =>
    Reader.yields_look fun input => ?_
  split
  · exact yields_fail _
  · exact (hspaced c hc).relax

/-- What every entry keeps, an object keeps. -/
theorem yields_objectFold {mode : Mode} {entry : σ → String → TextReader true σ} {a : σ}
    (hentry : ∀ a k, I a → (entry a k).Yields G I) (ha : I a) :
    (objectFold mode a entry).Yields G I := by
  have hspaced : ∀ a, I a → ((string mode).andThen fun key =>
      (entry a key).andThen fun b => blanks.map fun _ => b).Yields G I :=
    fun a ha => (Reader.yields_any _).andThen fun key _ => (hentry a key ha).andThen fun b hb =>
      (Reader.yields_any blanks).map fun _ _ => hb
  refine (Reader.yields_any _).andThen fun _ _ => (Reader.yields_any _).andThen fun _ _ => ?_
  refine (Reader.yields_look fun input => ?_).andThen fun b hb =>
    (Reader.yields_any _).map fun _ _ => hb
  split
  · exact Reader.yields_done ha
  split
  · exact yields_fail _
  split
  · refine ((hspaced a ha).andThen fun b hb =>
      Reader.yields_foldWhile (fun c hc => ?_) hb).relax
    refine (Reader.yields_any _).andThen fun _ _ => (Reader.yields_any _).andThen fun _ _ =>
      Reader.yields_look fun input => ?_
    split
    · exact (hspaced c hc).relax
    split
    · exact yields_fail _
    split
    · exact yields_fail _
    · exact yields_fail _
  · exact yields_fail _

theorem yields_afterColon {p : TextReader true α} (hp : p.Yields G P) :
    (afterColon p).Yields G P :=
  (Reader.yields_any _).andThen fun _ _ => (Reader.yields_any _).andThen fun _ _ =>
    (Reader.yields_any _).andThen fun _ _ => hp

theorem yields_literal {word : List Char} {v : Json} {P : Json → Prop} (hv : P v) :
    (literal word v).Yields G P := by
  cases word with
  | nil => exact yields_fail _
  | cons c rest =>
    exact (Reader.yields_any _).andThen fun _ _ => (Reader.yields_any _).map fun _ _ => hv

theorem yields_number (mode : Mode) : (number mode).Yields G WellKeyed := by
  refine Reader.yields_look fun input => ?_
  dsimp only
  split
  on_goal 1 => refine (Reader.yields_any _).andThen fun _ _ => ?_
  all_goals
    refine (Reader.yields_any _).check fun parts v _ hv => ?_
    split at hv
    · obtain rfl := Option.some.inj hv
      exact .null
    · obtain ⟨n, -, rfl⟩ := Option.map_eq_some_iff.1 hv
      exact .number n

/-- A value is well keyed if its parts are. -/
theorem yields_valueWith {inner : Option (TextReader true Json)}
    (hinner : ∀ v ∈ inner, v.Yields G WellKeyed) : (valueWith .keep inner).Yields G WellKeyed := by
  refine Reader.yields_look fun input => ?_
  split
  · exact yields_fail _
  · exact yields_literal .null
  · exact yields_literal (.bool true)
  · exact yields_literal (.bool false)
  · exact (Reader.yields_any _).map fun s _ => .string s
  · exact yields_fail _
  · exact yields_fail _
  · next v _ =>
    have helement : ∀ items : List Json, (∀ x ∈ items, WellKeyed x) →
        (v.map (· :: items)).Yields G fun items => ∀ x ∈ items, WellKeyed x :=
      fun items hitems => (hinner v rfl).map fun x hx => by simpa using ⟨hx, hitems⟩
    exact (yields_listFold helement (by simp)).map fun items hitems =>
      .array fun x hx => hitems x (List.mem_reverse.1 hx)
  · next v _ =>
    have hentry : ∀ (m : Object) (k : String), WellKeyed (.object m) →
        ((afterColon v).map fun x => if Mode.keep = .every then m ++ [(k, x)]
          else Entries.insert m k x).Yields G fun m => WellKeyed (.object m) :=
      fun m k hm => (yields_afterColon (hinner v rfl)).map fun x hx => hm.insert hx
    exact (yields_objectFold hentry .empty).map fun m hm => hm
  · split
    · exact yields_number .keep
    · exact yields_fail _

theorem yields_value (levels : Nat) : (value levels).Yields G WellKeyed := by
  induction levels with
  | zero => exact yields_valueWith (by simp)
  | succ levels ih =>
    refine yields_valueWith fun v hv => ?_
    obtain rfl := Option.some.inj hv
    exact ih

theorem yields_wrongType (expected : String) :
    (wrongType expected : TextReader true α).Yields G P := by
  refine Reader.yields_look fun input => ?_
  split
  · exact Reader.yields_refuse _
  split
  · exact Reader.yields_refuse _
  · exact (Reader.yields_any _).andThen fun _ _ => Reader.yields_refuse _

theorem yields_anyObject : anyObject.Yields G fun m => WellKeyed (.object m) := by
  refine Reader.yields_look fun input => ?_
  split
  · exact yields_objectFold (fun m k hm =>
      (yields_afterColon (yields_value _)).map fun x hx => hm.insert hx)
      .empty
  split
  · exact yields_fail _
  · exact yields_wrongType _

theorem whole_ok {p : TextReader true α} (hp : p.Yields (fun _ => True) P) {text : String} {a : α}
    (h : whole p text = .ok a) : P a := by
  unfold whole at h
  dsimp only at h
  split at h
  · next r hr =>
    obtain rfl := Except.ok.inj h
    refine ((Reader.yields_any blanks).andThen fun _ _ => hp.andThen fun a ha =>
      (Reader.yields_any blanks).andThen fun _ _ => Reader.yields_look fun input => ?_)
      text.toList r (fun _ _ => trivial) hr
    split
    · exact Reader.yields_done ha
    · exact yields_fail _
  · cases h

end TextReader

/-- Every value that is read has each key of its objects once. -/
theorem wellKeyed_of_parse {text : String} {v : Json} (h : parse text = .ok v) : v.WellKeyed :=
  TextReader.whole_ok (TextReader.yields_value _) h

/-- Every object that is read has each key once, and so have the values in it. -/
theorem wellKeyed_of_parseObject {text : String} {m : Object} (h : parseObject text = .ok m) :
    (Json.object m).WellKeyed :=
  TextReader.whole_ok TextReader.yields_anyObject h

end GraphqlCypher.Json
