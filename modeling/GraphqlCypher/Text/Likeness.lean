/-! Likeness of words, by which a misspelt word is told from an unknown one.

Letters of two words are paired from left to right: each with the first free equal
letter of the other word that is not too far from its own place. The likeness is
the mean of three shares: the paired letters of either word, and the pairs that do
not cross the pair before them. Letters with which both words begin raise it. It is
a fraction; `isLike` compares it without dividing. -/
namespace GraphqlCypher.Text

/-- The letters of the second word that are still free, with their places, and what
was paired so far. -/
structure Pairing where
  free : List (Nat × Char)
  pairs : Nat := 0
  crossings : Nat := 0
  last : Nat := 0

namespace Pairing

/-- Pairs a letter at a place with one at most so far away. -/
def add (reach : Nat) (p : Pairing) (letter : Char × Nat) : Pairing :=
  let (c, i) := letter
  match p.free.find? fun (j, d) => i - reach ≤ j && j ≤ i + reach && d == c with
  | none => p
  | some (j, d) =>
    { free := p.free.erase (j, d)
      pairs := p.pairs + 1
      crossings := if j < p.last then p.crossings + 1 else p.crossings
      last := j }

def ofWords (a b : List Char) : Pairing :=
  a.zipIdx.foldl (add (max a.length b.length / 2 - 1)) { free := b.zipIdx.map fun (c, j) => (j, c) }

end Pairing

/-- The number of letters with which both words begin. -/
def commonStart : List Char → List Char → Nat
  | c :: a, d :: b => if c = d then commonStart a b + 1 else 0
  | _, _ => 0

/-- Whether the likeness of two words is above four fifths. Every common first letter
brings it a tenth of the way nearer to one. -/
def isLike (first second : String) : Bool :=
  let a := first.toList
  let b := second.toList
  let p := Pairing.ofWords a b
  let whole := 3 * a.length * b.length * p.pairs
  let part := p.pairs * b.length * p.pairs + p.pairs * a.length * p.pairs +
    (p.pairs - p.crossings) * a.length * b.length
  8 * whole < 10 * part + commonStart a b * (whole - part)

end GraphqlCypher.Text
