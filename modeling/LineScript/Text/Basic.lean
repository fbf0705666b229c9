/-
Texts and the three operations on them that every other module builds
on: testing for a start, cutting at a separator, and replacing one
phrase by another.

A text is the list of its characters, so that a recogniser is a
recursion on the data and a statement about all texts is an induction.
Searches run from left to right and never overlap: a separator (or a
phrase) found at one place is passed over before the search goes on.
The passing over is a counter, `skip`, which keeps the recursion
structural; `0` is the state in which the next character is looked at.
-/

set_option autoImplicit false

namespace LineScript

/-- A text: its characters (Unicode scalar values), in order. -/
abbrev Text := List Char

/-- Whether a code point lies in one of some inclusive ranges. Tables of
the Unicode standard are written down as such ranges. -/
def inRanges (ranges : List (Nat × Nat)) (code : Nat) : Bool :=
  ranges.any fun (low, high) => low ≤ code && code ≤ high

namespace Text

/-- Whether `text` begins with `start`. -/
def startsWith (text start : Text) : Bool := start.isPrefixOf text

/-- Whether `text` ends with `finish`. -/
def endsWith (text finish : Text) : Bool := finish.isSuffixOf text

/-- Whether `phrase` occurs somewhere in `text`. -/
def contains (text phrase : Text) : Bool :=
  match text with
  | [] => phrase.isEmpty
  | c :: rest => startsWith (c :: rest) phrase || contains rest phrase

-- ==================================================== cutting apart

/-- Put a character in front of the first piece. -/
def consHead (c : Char) : List Text → List Text
  | [] => [[c]]
  | piece :: pieces => (c :: piece) :: pieces

/-- The pieces of a text between occurrences of a separator, the first
`skip` characters being the rest of an occurrence already found. -/
def piecesFrom (separator : Text) : (skip : Nat) → Text → List Text
  | _, [] => [[]]
  | skip + 1, _ :: rest => piecesFrom separator skip rest
  | 0, c :: rest =>
    if separator ≠ [] ∧ startsWith (c :: rest) separator then
      [] :: piecesFrom separator (separator.length - 1) rest
    else
      consHead c (piecesFrom separator 0 rest)

/-- The pieces of a text between the occurrences of a separator. There
is one piece more than there are separators, so the empty text has one
piece; the empty separator occurs nowhere. -/
def splitOn (separator text : Text) : List Text := piecesFrom separator 0 text

/-- The two sides of the first occurrence of a character. -/
def splitAtFirst? (mark : Char) : Text → Option (Text × Text)
  | [] => none
  | c :: rest =>
    if c = mark then some ([], rest)
    else (splitAtFirst? mark rest).map fun (before, after) =>
      (c :: before, after)

-- ======================================================== replacing

/-- Replacement of a phrase, the first `skip` characters being the rest
of an occurrence already replaced. -/
def replaceFrom (phrase substitute : Text) : (skip : Nat) → Text → Text
  | _, [] => []
  | skip + 1, _ :: rest => replaceFrom phrase substitute skip rest
  | 0, c :: rest =>
    if phrase ≠ [] ∧ startsWith (c :: rest) phrase then
      substitute ++ replaceFrom phrase substitute (phrase.length - 1) rest
    else
      c :: replaceFrom phrase substitute 0 rest

/-- Every occurrence of `phrase` replaced by `substitute`. -/
def replace (phrase substitute text : Text) : Text :=
  replaceFrom phrase substitute 0 text

-- ====================================================== small lemmas

theorem consHead_ne_nil (c : Char) (pieces : List Text) :
    consHead c pieces ≠ [] := by
  cases pieces <;> simp [consHead]

theorem piecesFrom_ne_nil (separator : Text) (skip : Nat) (text : Text) :
    piecesFrom separator skip text ≠ [] := by
  induction text generalizing skip with
  | nil => cases skip <;> simp [piecesFrom]
  | cons c rest ih =>
    cases skip with
    | zero =>
      simp only [piecesFrom]
      split
      · simp
      · exact consHead_ne_nil _ _
    | succ skip => simpa [piecesFrom] using ih skip

/-- A text has at least one piece. -/
theorem splitOn_ne_nil (separator text : Text) : splitOn separator text ≠ [] :=
  piecesFrom_ne_nil separator 0 text

@[simp] theorem splitOn_nil (separator : Text) :
    splitOn separator [] = [[]] := rfl

/-- A start that begins with another character is none. -/
theorem startsWith_cons_of_ne {c d : Char} (text start : Text) (h : c ≠ d) :
    startsWith (c :: text) (d :: start) = false := by
  simp [startsWith, List.isPrefixOf, Ne.symm h]

theorem consHead_eq_modifyHead (c : Char) {pieces : List Text}
    (h : pieces ≠ []) :
    consHead c pieces = pieces.modifyHead (c :: ·) := by
  cases pieces with
  | nil => exact absurd rfl h
  | cons piece rest => rfl

/-- A separator of one character cuts as a list is cut at an element. -/
theorem splitOn_singleton (mark : Char) (text : Text) :
    splitOn [mark] text = List.splitOn mark text := by
  unfold splitOn
  induction text with
  | nil => rfl
  | cons c rest ih =>
    have hne := piecesFrom_ne_nil [mark] 0 rest
    rw [List.splitOn_cons_eq_if_modifyHead, ← ih, piecesFrom,
      consHead_eq_modifyHead c hne]
    by_cases hmark : c = mark
    · subst hmark
      simp [startsWith]
    · simp [startsWith_cons_of_ne rest [] hmark, hmark]

/-- A phrase of one character is replaced character by character. -/
theorem replace_singleton (mark : Char) (substitute text : Text) :
    replace [mark] substitute text
      = text.flatMap fun c => if c = mark then substitute else [c] := by
  unfold replace
  induction text with
  | nil => rfl
  | cons c rest ih =>
    rw [replaceFrom, List.flatMap_cons, ← ih]
    by_cases hmark : c = mark
    · subst hmark
      simp [startsWith]
    · simp [startsWith_cons_of_ne rest [] hmark, hmark]

/-- What does not occur is not replaced. -/
theorem replace_singleton_of_not_mem {mark : Char} {text : Text}
    (substitute : Text) (h : mark ∉ text) :
    replace [mark] substitute text = text := by
  rw [replace_singleton]
  induction text with
  | nil => rfl
  | cons c rest ih =>
    obtain ⟨hfirst, hrest⟩ := List.ne_and_not_mem_of_not_mem_cons h
    rw [List.flatMap_cons, if_neg (Ne.symm hfirst), ih hrest]
    rfl

/-- A text contains no phrase whose first character does not occur. -/
theorem contains_eq_false {c : Char} {text : Text} (phrase : Text)
    (h : c ∉ text) :
    contains text (c :: phrase) = false := by
  induction text with
  | nil => rfl
  | cons d rest ih =>
    obtain ⟨hfirst, hrest⟩ := List.ne_and_not_mem_of_not_mem_cons h
    rw [contains, ih hrest, startsWith_cons_of_ne rest phrase (Ne.symm hfirst)]
    rfl

end Text

end LineScript
