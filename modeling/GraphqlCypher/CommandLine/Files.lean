/-! Files, and the paths that lead to them.

A path is walked name by name, and every name is looked up in a directory: what
comes after the name of a file, be it a mere stroke, leads nowhere. `FileStore.read`
is the text at the end of a path or the reason why there is none. A file of the
working directory is found under its name (`resolve_plain`), and a path that leads
somewhere leads to a file or to a directory (`contains_of_resolve`). -/
namespace GraphqlCypher

/-! ### Reasons -/

/-- Why a file has no text. -/
inductive FileProblem where
  | notFound
  | notDirectory
  | isDirectory
  | nameTooLong
  | nulInPath
  | notText
  | other (reason : String)
deriving DecidableEq, Repr

def FileProblem.message : FileProblem → String
  | .notFound => "No such file or directory (os error 2)"
  | .notDirectory => "Not a directory (os error 20)"
  | .isDirectory => "Is a directory (os error 21)"
  | .nameTooLong => "File name too long (os error 36)"
  | .nulInPath => "file name contained an unexpected NUL byte"
  | .notText => "stream did not contain valid UTF-8"
  | .other reason => reason

/-- The text of a file. -/
def fileText (bytes : ByteArray) : Except FileProblem String :=
  match String.fromUTF8? bytes with
  | some text => .ok text
  | none => .error .notText

/-! ### Paths -/

/-- The names between the strokes of a path. -/
def pathNames : List Char → List (List Char)
  | [] => [[]]
  | '/' :: rest => [] :: pathNames rest
  | c :: rest =>
    match pathNames rest with
    | [] => [[c]]
    | name :: more => (c :: name) :: more

theorem pathNames_ne_nil (path : List Char) : pathNames path ≠ [] := by
  fun_cases pathNames path <;> simp

theorem pathNames_plain (name : List Char) (h : '/' ∉ name) : pathNames name = [name] := by
  fun_induction pathNames name with
  | case1 => rfl
  | case2 => simp at h
  | case3 c rest hc hn ih => exact absurd hn (pathNames_ne_nil rest)
  | case4 c rest hc name more hn ih =>
    rw [ih (fun hm => h (List.mem_cons_of_mem c hm))] at hn
    obtain ⟨rfl, rfl⟩ := List.cons.inj hn
    rfl

/-! ### Stores -/

/-- The names on the way from the root. -/
abbrev Place := List String

/-- Files at their places. Whatever lies on the way to a file, or to the working
directory, is a directory. -/
structure FileStore where
  working : Place := []
  files : List (Place × ByteArray)

namespace FileStore

/-- The longest name and the longest path, in bytes. -/
def nameLimit : Nat := 255

@[inherit_doc nameLimit]
def pathLimit : Nat := 4095

variable (s : FileStore)

def isDirectory (p : Place) : Bool :=
  p.isPrefixOf s.working || s.files.any fun file => p.isPrefixOf file.1 && p != file.1

def file? (p : Place) : Option ByteArray := s.files.lookup p

def contains (p : Place) : Bool := s.isDirectory p || (s.file? p).isSome

/-- Where a name leads from a place. -/
def follow (p : Place) (name : List Char) : Except FileProblem Place :=
  if !s.isDirectory p then .error .notDirectory
  else if name = [] || name = ['.'] then .ok p
  else if name = ['.', '.'] then .ok p.dropLast
  else
    let name := String.ofList name
    if nameLimit < name.utf8ByteSize then .error .nameTooLong
    else if s.contains (p ++ [name]) then .ok (p ++ [name])
    else .error .notFound

/-- Where a path leads: from the root if it starts with a stroke, from the working
directory otherwise. -/
def resolve (path : String) : Except FileProblem Place :=
  let path' := path.toList
  if path'.contains '\x00' then .error .nulInPath
  else if pathLimit < path.utf8ByteSize then .error .nameTooLong
  else if path' = [] then .error .notFound
  else (pathNames path').foldlM s.follow (if path'.head? = some '/' then [] else s.working)

theorem isDirectory_dropLast (p : Place) (h : s.isDirectory p = true) :
    s.isDirectory p.dropLast = true := by
  have hp : p.dropLast <+: p := List.dropLast_prefix p
  simp only [isDirectory, Bool.or_eq_true, List.any_eq_true, Bool.and_eq_true,
    List.isPrefixOf_iff_prefix, bne_iff_ne] at h ⊢
  rcases h with h | ⟨file, hm, hf, hne⟩
  · exact .inl (hp.trans h)
  · refine .inr ⟨file, hm, hp.trans hf, fun e => hne ?_⟩
    exact hf.eq_of_length_le (e ▸ hp.length_le)

theorem contains_of_follow {p q : Place} {name : List Char} (h : s.follow p name = .ok q) :
    s.contains q = true := by
  unfold follow at h
  split at h
  · cases h
  · rename_i hd
    have hd : s.isDirectory p = true := by simpa using hd
    split at h
    · cases h; simp [contains, hd]
    · split at h
      · cases h; simp [contains, s.isDirectory_dropLast p hd]
      · simp only at h
        split at h
        · cases h
        · split at h
          · cases h; assumption
          · cases h

theorem contains_of_foldlM {names : List (List Char)} {p q : Place} (hp : s.contains p = true)
    (h : names.foldlM s.follow p = .ok q) : s.contains q = true := by
  induction names generalizing p with
  | nil => cases h; exact hp
  | cons name rest ih =>
    rw [List.foldlM_cons] at h
    cases hf : s.follow p name with
    | error e => rw [hf] at h; cases h
    | ok p' => rw [hf] at h; exact ih (s.contains_of_follow hf) h

/-- **A path leads to a file or to a directory.** -/
theorem contains_of_resolve {path : String} {p : Place} (h : s.resolve path = .ok p) :
    s.contains p = true := by
  unfold resolve at h
  simp only at h
  split at h
  · cases h
  · split at h
    · cases h
    · split at h
      · cases h
      · refine s.contains_of_foldlM ?_ h
        split <;> simp [contains, isDirectory]

/-- **A file of the working directory is found under its name.** -/
theorem resolve_plain {name : String} (hs : '/' ∉ name.toList) (hz : '\x00' ∉ name.toList)
    (hl : name.utf8ByteSize ≤ nameLimit) (h : name.toList ∉ [[], ['.'], ['.', '.']])
    (hc : s.contains (s.working ++ [name]) = true) :
    s.resolve name = .ok (s.working ++ [name]) := by
  simp only [List.mem_cons, List.not_mem_nil, or_false, not_or] at h
  have hd : s.isDirectory s.working = true := by simp [isDirectory]
  have hp : ¬ pathLimit < name.utf8ByteSize := by simp only [nameLimit, pathLimit] at *; omega
  have hh : name.toList.head? ≠ some '/' := fun e => hs (List.mem_of_head? e)
  simp only [resolve, List.contains_iff_mem, hz, hp, h.1, hh, if_false, pathNames_plain _ hs]
  simp [follow, hd, h, hc, Nat.not_lt.2 hl]

/-- The text of the file at a path. -/
def read (path : String) : Except FileProblem String := do
  let p ← s.resolve path
  match s.file? p with
  | some bytes => fileText bytes
  | none => .error .isDirectory

end FileStore

end GraphqlCypher
