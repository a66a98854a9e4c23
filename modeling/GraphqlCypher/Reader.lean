/-! Readers that always come to an end.

A reader takes a list and returns a value with the rest of the list, or refuses
with an error. Its type says that the rest is the end of the list, and whether it
must consume: a *strict* reader leaves a shorter rest, any reader one that is no
longer. Sequencing keeps that promise (`andThen` is strict if one of its parts is),
and so repeating a strict reader (`foldWhile`) ends by the length of the input,
whatever is read. -/
namespace GraphqlCypher

/-- A value read from `input` and what is left of it. -/
structure Reading (τ : Type) (strict : Bool) (input : List τ) (α : Type) where
  value : α
  rest : List τ
  suffix : rest <:+ input
  length_le : rest.length + strict.toNat ≤ input.length

/-- Reads a value off the front of a list, or refuses it with an error. -/
def Reader (τ ε : Type) (strict : Bool) (α : Type) : Type :=
  (input : List τ) → Except ε (Reading τ strict input α)

namespace Reader

variable {τ ε α β σ : Type} {s t : Bool}

/-- The value and the rest, without the promise on its length. -/
def run (p : Reader τ ε s α) (input : List τ) : Except ε (α × List τ) :=
  match p input with
  | .error e => .error e
  | .ok r => .ok (r.value, r.rest)

/-- Reads nothing. -/
def done (a : α) : Reader τ ε false α := fun input => .ok ⟨a, input, List.suffix_rfl, by simp⟩

/-- Refuses, with an error that may depend on what was to be read. -/
def refuse (e : List τ → ε) : Reader τ ε s α := fun input => .error (e input)

/-- One reader after the other. -/
def andThen (p : Reader τ ε s α) (f : α → Reader τ ε t β) : Reader τ ε (s || t) β :=
  fun input =>
  match p input with
  | .error e => .error e
  | .ok r =>
    match f r.value r.rest with
    | .error e => .error e
    | .ok r' => .ok ⟨r'.value, r'.rest, r'.suffix.trans r.suffix, by
        have h := r.length_le
        have h' := r'.length_le
        cases s <;> cases t <;> simp_all <;> omega⟩

def map (f : α → β) (p : Reader τ ε s α) : Reader τ ε s β := fun input =>
  match p input with
  | .error e => .error e
  | .ok r => .ok ⟨f r.value, r.rest, r.suffix, r.length_le⟩

/-- Forgets that something was consumed. -/
def relax (p : Reader τ ε s α) : Reader τ ε false α := fun input =>
  match p input with
  | .error e => .error e
  | .ok r => .ok ⟨r.value, r.rest, r.suffix, by have := r.length_le; simp; omega⟩

/-- Chooses a reader by the input it will read. -/
def look (f : List τ → Reader τ ε s α) : Reader τ ε s α := fun input => f input input

/-- Takes the first element if it is accepted. -/
def take (accept : τ → Option α) (e : List τ → ε) : Reader τ ε true α
  | [] => .error (e [])
  | x :: rest =>
    match accept x with
    | some a => .ok ⟨a, rest, List.suffix_cons x rest, by simp⟩
    | none => .error (e (x :: rest))

/-- Takes the elements up to the first that fails the test. -/
def takeWhile (test : τ → Bool) : Reader τ ε false (List τ) := fun input =>
  .ok ⟨input.takeWhile test, input.dropWhile test, List.dropWhile_suffix test, by
    have := (List.dropWhile_sublist test : (input.dropWhile test).Sublist input).length_le
    simpa using this⟩

/-- Splits a piece off the front. -/
def split (f : List τ → Option (α × List τ))
    (h : ∀ input a rest, f input = some (a, rest) →
      rest <:+ input ∧ rest.length < input.length)
    (e : List τ → ε) : Reader τ ε true α := fun input =>
  match hf : f input with
  | none => .error (e input)
  | some (a, rest) => .ok ⟨a, rest, (h input a rest hf).1, (h input a rest hf).2⟩

/-- Checks a value that was read; the error is found where the reading began. -/
def check (p : Reader τ ε s α) (f : α → Option β) (e : List τ → ε) : Reader τ ε s β :=
  fun input =>
  match p input with
  | .error e' => .error e'
  | .ok r =>
    match f r.value with
    | some b => .ok ⟨b, r.rest, r.suffix, r.length_le⟩
    | none => .error (e input)

/-- Repeats a strict reader as long as the rest asks for it. -/
def foldWhile (more : List τ → Bool) (step : σ → Reader τ ε true σ) (a : σ) :
    Reader τ ε false σ := fun input =>
  if more input then
    match step a input with
    | .error e => .error e
    | .ok r =>
      match foldWhile more step r.value r.rest with
      | .error e => .error e
      | .ok r' => .ok ⟨r'.value, r'.rest, r'.suffix.trans r.suffix, by
          have h := r.length_le
          have h' := r'.length_le
          simp at *
          omega⟩
  else .ok ⟨a, input, List.suffix_rfl, by simp⟩
termination_by input => input.length
decreasing_by
  have h := r.length_le
  simp at h
  omega

/-- A value, if the input asks for one. -/
def optional (wanted : List τ → Bool) (p : Reader τ ε true α) :
    Reader τ ε false (Option α) :=
  look fun input => if wanted input then (p.map some).relax else done none

/-- The values of a strict reader, as long as the rest asks for one. -/
def many (more : List τ → Bool) (p : Reader τ ε true α) : Reader τ ε false (List α) :=
  (foldWhile more (fun acc => p.map (· :: acc)) []).map List.reverse

/-- One value, and more of them as long as the rest asks for one. -/
def oneOrMore (more : List τ → Bool) (p : Reader τ ε true α) : Reader τ ε true (List α) :=
  p.andThen fun a => (many more p).map (a :: ·)

end Reader

end GraphqlCypher
