/-! What a character or a line is to every reader of a text.

White space is what the Unicode property `White_Space` has. A line is *blank* if
every character of it is white space. `trimEnd` drops the white space a text ends
with: the rest ends in no white space (`trimEnd_getLast`), and what was dropped was
white space only (`eq_trimEnd_append`).

A line ends in a line feed, or in a carriage return and a line feed; a line break
at the end of the text adds no line. No line holds a line feed
(`not_mem_of_mem_lines`). -/
namespace GraphqlCypher.Text

/-! ### White space -/

/-- The characters with the property `White_Space`. -/
def isBlank (c : Char) : Bool :=
  let n := c.toNat
  (9 ≤ n && n ≤ 13) || n == 32 || n == 0x85 || n == 0xA0 || n == 0x1680 ||
    (0x2000 ≤ n && n ≤ 0x200A) || n == 0x2028 || n == 0x2029 || n == 0x202F ||
    n == 0x205F || n == 0x3000

/-- A line of nothing but white space. -/
def isBlankLine (line : List Char) : Bool := line.all isBlank

/-- The text without the white space at its end. -/
def trimEnd (s : List Char) : List Char := (s.reverse.dropWhile isBlank).reverse

theorem eq_trimEnd_append (s : List Char) :
    ∃ blanks : List Char, s = trimEnd s ++ blanks ∧ blanks.all isBlank = true := by
  refine ⟨(s.reverse.takeWhile isBlank).reverse, ?_, ?_⟩
  · rw [trimEnd, ← List.reverse_append, List.takeWhile_append_dropWhile, List.reverse_reverse]
  · rw [List.all_reverse]
    exact List.all_takeWhile

theorem trimEnd_getLast (s : List Char) (c : Char) (h : (trimEnd s).getLast? = some c) :
    isBlank c = false := by
  rw [trimEnd, List.getLast?_reverse] at h
  have := List.head?_dropWhile_not isBlank s.reverse
  rw [h] at this
  simpa using this

/-! ### Lines -/

def lines : List Char → List (List Char)
  | [] => []
  | '\n' :: rest => [] :: lines rest
  | '\r' :: '\n' :: rest => [] :: lines rest
  | c :: rest =>
    match lines rest with
    | [] => [[c]]
    | line :: more => (c :: line) :: more

theorem not_mem_of_mem_lines (s line : List Char) (h : line ∈ lines s) : '\n' ∉ line := by
  fun_induction lines s generalizing line with
  | case1 => simp at h
  | case2 rest ih | case3 rest ih =>
    rcases List.mem_cons.1 h with rfl | h
    · simp
    · exact ih line h
  | case4 c rest hc _ hl _ =>
    simp only [List.mem_singleton] at h
    subst h
    simp only [List.mem_singleton]
    exact fun e => hc e.symm
  | case5 c rest hc _ line' more hl ih =>
    rcases List.mem_cons.1 h with rfl | h
    · simp only [List.mem_cons, not_or]
      exact ⟨fun e => hc e.symm, ih line' (by rw [hl]; simp)⟩
    · exact ih line (by rw [hl]; exact List.mem_cons_of_mem _ h)

/-! ### Digits -/

/-- The value of a hexadecimal digit. -/
def hexValue? (c : Char) : Option Nat :=
  if c.isDigit then some (c.toNat - '0'.toNat)
  else if 'a' ≤ c && c ≤ 'f' then some (c.toNat - 'a'.toNat + 10)
  else if 'A' ≤ c && c ≤ 'F' then some (c.toNat - 'A'.toNat + 10)
  else none

end GraphqlCypher.Text
