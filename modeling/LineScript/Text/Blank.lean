/-
Blank characters and trimming.

A character is blank when it has the Unicode property White_Space: 25
code points in ten ranges. Every place where the language allows
"whitespace" means exactly this class, so it is written once here.
-/
import LineScript.Text.Basic

set_option autoImplicit false

namespace LineScript

/-- The code points of the property White_Space, as inclusive ranges. -/
def blankRanges : List (Nat × Nat) :=
  [(0x09, 0x0D), (0x20, 0x20), (0x85, 0x85), (0xA0, 0xA0), (0x1680, 0x1680),
   (0x2000, 0x200A), (0x2028, 0x2029), (0x202F, 0x202F), (0x205F, 0x205F),
   (0x3000, 0x3000)]

/-- Whether a character is white space. -/
def isBlank (c : Char) : Bool := inRanges blankRanges c.toNat

namespace Text

/-- Whether nothing but white space is in a text. -/
def isAllBlank (text : Text) : Bool := text.all isBlank

/-- A text without its leading white space. -/
def trimStart (text : Text) : Text := text.dropWhile isBlank

/-- A text without its trailing white space. -/
def trimEnd : Text → Text
  | [] => []
  | c :: rest =>
    match trimEnd rest with
    | [] => if isBlank c then [] else [c]
    | d :: kept => c :: d :: kept

/-- A text without leading and trailing white space. -/
def trim (text : Text) : Text := trimEnd (trimStart text)

-- ====================================================== small lemmas

@[simp] theorem trimStart_nil : trimStart [] = [] := rfl

@[simp] theorem trimEnd_nil : trimEnd [] = [] := rfl

theorem trimEnd_cons_of_nil {c : Char} {rest : Text} (h : trimEnd rest = []) :
    trimEnd (c :: rest) = if isBlank c then [] else [c] := by
  simp [trimEnd, h]

theorem trimEnd_cons_of_ne_nil {c : Char} {rest : Text}
    (h : trimEnd rest ≠ []) :
    trimEnd (c :: rest) = c :: trimEnd rest := by
  cases hr : trimEnd rest with
  | nil => exact absurd hr h
  | cons d kept => simp [trimEnd, hr]

/-- Nothing is left of a text exactly when all of it is blank. -/
theorem trimEnd_eq_nil_iff (text : Text) :
    trimEnd text = [] ↔ isAllBlank text = true := by
  induction text with
  | nil => simp [isAllBlank]
  | cons c rest ih =>
    simp only [isAllBlank, List.all_cons, Bool.and_eq_true] at ih ⊢
    rw [← ih]
    by_cases h : trimEnd rest = []
    · by_cases hc : isBlank c <;> simp [trimEnd_cons_of_nil h, h, hc]
    · simp [trimEnd_cons_of_ne_nil h, h]

/-- Only white space is cut off at the end. -/
theorem trimEnd_append_blank (text : Text) :
    ∃ blanks, isAllBlank blanks = true ∧ text = trimEnd text ++ blanks := by
  induction text with
  | nil => exact ⟨[], rfl, rfl⟩
  | cons c rest ih =>
    obtain ⟨blanks, hb, hrest⟩ := ih
    by_cases h : trimEnd rest = []
    · rw [trimEnd_cons_of_nil h]
      rw [h] at hrest
      by_cases hc : isBlank c
      · exact ⟨c :: blanks, by simpa [isAllBlank, hc] using hb,
          by simpa [hc] using hrest⟩
      · exact ⟨blanks, hb, by simpa [hc] using hrest⟩
    · rw [trimEnd_cons_of_ne_nil h]
      exact ⟨blanks, hb, by rw [List.cons_append, ← hrest]⟩

/-- It does not matter which end is trimmed first. -/
theorem trimEnd_trimStart (text : Text) :
    trimEnd (trimStart text) = trimStart (trimEnd text) := by
  induction text with
  | nil => rfl
  | cons c rest ih =>
    cases hc : isBlank c with
    | true =>
      have hstart : ∀ tail : Text, trimStart (c :: tail) = trimStart tail := by
        intro tail
        simp [trimStart, hc]
      rw [hstart, ih]
      by_cases h : trimEnd rest = []
      · simp [trimEnd_cons_of_nil h, h, hc]
      · rw [trimEnd_cons_of_ne_nil h, hstart]
    | false =>
      have hstart : ∀ tail : Text, trimStart (c :: tail) = c :: tail := by
        intro tail
        simp [trimStart, hc]
      rw [hstart]
      by_cases h : trimEnd rest = []
      · simp [trimEnd_cons_of_nil h, hc, hstart]
      · rw [trimEnd_cons_of_ne_nil h, hstart]

end Text

end LineScript
