/-
What the recognisers make of a text with another behind it.

A recogniser reads a text from the left and stops at a character that it
cannot use. So what stands behind such a character does not change what
it has recognised, and this file says so of each of them: trimming, the
test for a start, the two kinds of names, and the scan for a comment.

# The scan for a comment

The scan goes over a text with one bit of memory, whether it is inside
quotes. A text that it goes over without finding a comment is described
by the bit before and the bit after (`Line.Passes`), and such texts are
put together like steps of a run (`Passes.append`). The only danger at a
seam is a marker that begins in front of it and ends behind it
(`NoStraddle`): there is none where the second text begins with a
character that is not in the marker, and none if the marker is a single
character.
-/
import LineScript.Line
import Mathlib.Algebra.Group.Nat.Even
import Mathlib.Data.List.TakeWhile

set_option autoImplicit false

namespace LineScript

-- ========================================================== white space

/-- The characters that a name may begin with, by their codes. -/
theorem isNameLetter_iff {c : Char} :
    isNameLetter c = true
      ↔ (0x41 ≤ c.toNat ∧ c.toNat ≤ 0x5A) ∨ (0x61 ≤ c.toNat ∧ c.toNat ≤ 0x7A)
      ∨ c = '_' := by
  have hletter : isNameLetter c
      = (decide (c.val ≥ 'A'.val ∧ c.val ≤ 'Z'.val)
        || (decide (c.val ≥ 'a'.val) && decide (c.val ≤ 'z'.val))
        || c == '_') := rfl
  rw [hletter, Bool.or_eq_true, Bool.or_eq_true, Bool.and_eq_true,
    or_assoc, beq_iff_eq]
  simp only [decide_eq_true_eq]
  exact Iff.rfl

/-- White space is in no name. -/
theorem isNameChar_of_isBlank {c : Char} (h : isBlank c = true) :
    isNameChar c = false := by
  cases hname : isNameChar c with
  | false => rfl
  | true =>
      simp only [isBlank, inRanges, blankRanges, List.any_cons, List.any_nil,
        Bool.or_eq_true, Bool.and_eq_true, decide_eq_true_eq,
        Bool.or_false] at h
      rw [isNameChar, Bool.or_eq_true, isNameLetter_iff,
        Char.isDigit_iff_toNat] at hname
      rcases hname with (⟨hlow, hhigh⟩ | ⟨hlow, hhigh⟩ | rfl) | ⟨hlow, hhigh⟩
      · omega
      · omega
      · simp at h
      · simp only [Char.reduceToNat] at hlow hhigh
        omega

namespace Text

theorem isAllBlank_iff {text : Text} :
    isAllBlank text = true ↔ ∀ c ∈ text, isBlank c = true :=
  List.all_eq_true

/-- A character that is not blank is not in white space. -/
theorem not_mem_of_isAllBlank {blanks : Text} (h : isAllBlank blanks = true)
    {c : Char} (hc : isBlank c = false) : c ∉ blanks := by
  intro hmem
  rw [isAllBlank_iff.1 h c hmem] at hc
  cases hc

@[simp] theorem isAllBlank_append (a b : Text) :
    isAllBlank (a ++ b) = (isAllBlank a && isAllBlank b) :=
  List.all_append

theorem trimStart_cons_of_blank {c : Char} (h : isBlank c = true)
    (rest : Text) :
    trimStart (c :: rest) = trimStart rest :=
  List.dropWhile_cons_of_pos h

theorem trimStart_cons_of_not_blank {c : Char} (h : isBlank c = false)
    (rest : Text) :
    trimStart (c :: rest) = c :: rest :=
  List.dropWhile_cons_of_neg (by rw [h]; exact Bool.false_ne_true)

/-- White space in front is trimmed away. -/
theorem trimStart_append_of_blank {blanks : Text}
    (h : isAllBlank blanks = true) (text : Text) :
    trimStart (blanks ++ text) = trimStart text :=
  List.dropWhile_append_of_pos (isAllBlank_iff.1 h)

/-- Nothing is left of a text exactly when all of it is blank. -/
theorem trimStart_eq_nil_iff {text : Text} :
    trimStart text = [] ↔ isAllBlank text = true := by
  rw [isAllBlank_iff]
  exact List.dropWhile_eq_nil_iff

/-- What is left begins with a character that is not white space. -/
theorem not_blank_of_head?_trimStart {text : Text} {c : Char}
    (h : (trimStart text).head? = some c) : isBlank c = false := by
  unfold trimStart at h
  rw [← List.find?_not_eq_head?_dropWhile] at h
  simpa using List.find?_some h

/-- What stands behind a text that is not blank stays where it is. -/
theorem trimStart_append {text : Text} (h : trimStart text ≠ [])
    (rest : Text) :
    trimStart (text ++ rest) = trimStart text ++ rest := by
  have hne : (text.dropWhile isBlank).isEmpty = false :=
    List.isEmpty_eq_false_iff.2 h
  unfold trimStart
  rw [List.dropWhile_append, hne, if_neg Bool.false_ne_true]

/-- Only white space is trimmed away in front. -/
theorem exists_blank_append_trimStart (text : Text) :
    ∃ blanks, isAllBlank blanks = true ∧ text = blanks ++ trimStart text :=
  ⟨text.takeWhile isBlank,
    isAllBlank_iff.2 fun _ h => List.mem_takeWhile_imp h,
    List.takeWhile_append_dropWhile.symm⟩

/-- White space behind a text is trimmed away. -/
theorem trimEnd_append_of_blank {blanks : Text} (h : isAllBlank blanks = true)
    (text : Text) :
    trimEnd (text ++ blanks) = trimEnd text := by
  induction text with
  | nil => exact (trimEnd_eq_nil_iff blanks).2 h
  | cons c rest ih =>
      rw [List.cons_append]
      by_cases hrest : trimEnd rest = []
      · rw [trimEnd_cons_of_nil hrest, trimEnd_cons_of_nil (ih.trans hrest)]
      · rw [trimEnd_cons_of_ne_nil hrest,
          trimEnd_cons_of_ne_nil (by rw [ih]; exact hrest), ih]

/-- What stands in front of a text that is not blank stays where it is. -/
theorem trimEnd_append {text : Text} (h : trimEnd text ≠ []) (front : Text) :
    trimEnd (front ++ text) = front ++ trimEnd text := by
  induction front with
  | nil => rfl
  | cons c front ih =>
      have hne : trimEnd (front ++ text) ≠ [] := by
        rw [ih]
        exact List.append_ne_nil_of_right_ne_nil front h
      rw [List.cons_append, trimEnd_cons_of_ne_nil hne, ih, List.cons_append]

@[simp] theorem trimEnd_trimEnd (text : Text) :
    trimEnd (trimEnd text) = trimEnd text := by
  obtain ⟨blanks, hblanks, htext⟩ := trimEnd_append_blank text
  calc trimEnd (trimEnd text) = trimEnd (trimEnd text ++ blanks) :=
        (trimEnd_append_of_blank hblanks _).symm
    _ = trimEnd text := by rw [← htext]

-- ==================================================== the ends of a text

/-- What the first and the last character of a text are like, if it has
any. -/
structure Ends (p : Char → Prop) (text : Text) : Prop where
  first : ∀ c ∈ text.head?, p c
  last : ∀ c ∈ text.getLast?, p c

instance (p : Char → Prop) [DecidablePred p] (text : Text) :
    Decidable (Ends p text) :=
  decidable_of_iff
    (text.head?.all (p ·) = true ∧ text.getLast?.all (p ·) = true)
    ⟨fun h => ⟨by simpa [Option.all_eq_true] using h.1,
      by simpa [Option.all_eq_true] using h.2⟩,
      fun h => ⟨by simpa [Option.all_eq_true] using h.first,
        by simpa [Option.all_eq_true] using h.last⟩⟩

/-- A text with no white space around it. -/
abbrev Tight (text : Text) : Prop := Ends (fun c => isBlank c = false) text

theorem Tight.trimStart_eq {text : Text} (h : Tight text) :
    trimStart text = text := by
  cases text with
  | nil => rfl
  | cons c rest => exact trimStart_cons_of_not_blank (h.first c rfl) rest

/-- A character that is no white space ends what is trimmed away. -/
theorem trimEnd_concat {c : Char} (hc : isBlank c = false) (front : Text) :
    trimEnd (front ++ [c]) = front ++ [c] := by
  have hlast : trimEnd [c] = [c] := by
    rw [trimEnd_cons_of_nil trimEnd_nil, hc]
    rfl
  rw [trimEnd_append (by rw [hlast]; exact List.cons_ne_nil c []), hlast]

theorem Tight.trimEnd_eq {text : Text} (h : Tight text) :
    trimEnd text = text := by
  rcases List.eq_nil_or_concat text with rfl | ⟨front, c, rfl⟩
  · rfl
  · rw [List.concat_eq_append]
    exact trimEnd_concat (h.last c (by simp)) front

/-- From a text with no white space around it none is trimmed away. -/
theorem Tight.trim_eq {text : Text} (h : Tight text) : trim text = text := by
  rw [trim, h.trimStart_eq, h.trimEnd_eq]

-- =============================================================== starts

theorem head?_ne_of_not_mem {c : Char} {text : Text} (h : c ∉ text) :
    text.head? ≠ some c :=
  fun hhead => h (List.mem_of_mem_head? hhead)

/-- A text begins with its first part. -/
@[simp] theorem startsWith_append_self (start rest : Text) :
    startsWith (start ++ rest) start = true :=
  List.isPrefixOf_iff_prefix.2 (List.prefix_append start rest)

/-- No occurrence of a phrase reaches into a text from in front of it:
whether one begins there does not depend on the text. -/
def NoStraddle (phrase back : Text) : Prop :=
  ∀ front, front ≠ [] →
    startsWith (front ++ back) phrase = startsWith front phrase

/-- A character that is not in the phrase ends every start of it. -/
theorem startsWith_append_cons {phrase : Text} {d : Char} (hd : d ∉ phrase)
    (text rest : Text) :
    startsWith (text ++ d :: rest) phrase = startsWith text phrase := by
  induction phrase generalizing text with
  | nil => cases text <;> rfl
  | cons m phrase ih =>
      obtain ⟨hm, hphrase⟩ := List.ne_and_not_mem_of_not_mem_cons hd
      cases text with
      | nil => exact startsWith_cons_of_ne rest phrase hm
      | cons c text =>
          simp only [startsWith, List.cons_append, List.isPrefixOf] at ih ⊢
          rw [ih hphrase]

theorem noStraddle_cons {phrase : Text} {d : Char} (hd : d ∉ phrase)
    (rest : Text) :
    NoStraddle phrase (d :: rest) :=
  fun front _ => startsWith_append_cons hd front rest

theorem noStraddle_singleton (mark : Char) (back : Text) :
    NoStraddle [mark] back := by
  intro front hne
  cases front with
  | nil => exact absurd rfl hne
  | cons c front => simp [startsWith, List.isPrefixOf]

-- ================================================================ names

theorem takeWhile_append_cons {p : Char → Bool} {d : Char} (hd : p d = false)
    (text rest : Text) :
    (text ++ d :: rest).takeWhile p = text.takeWhile p := by
  induction text with
  | nil =>
      exact List.takeWhile_cons_of_neg (by rw [hd]; exact Bool.false_ne_true)
  | cons c text ih =>
      rw [List.cons_append, List.takeWhile_cons, List.takeWhile_cons, ih]

theorem dropWhile_append_cons {p : Char → Bool} {d : Char} (hd : p d = false)
    (text rest : Text) :
    (text ++ d :: rest).dropWhile p = text.dropWhile p ++ d :: rest := by
  induction text with
  | nil =>
      exact List.dropWhile_cons_of_neg (by rw [hd]; exact Bool.false_ne_true)
  | cons c text ih =>
      rw [List.cons_append, List.dropWhile_cons, List.dropWhile_cons, ih]
      split
      · rfl
      · rfl

/-- A label name ends where a character is in no name. -/
theorem splitLabelName?_append {d : Char} (hd : isNameChar d = false)
    (text rest : Text) :
    splitLabelName? (text ++ d :: rest)
      = (splitLabelName? text).map fun (name, after) =>
        (name, after ++ d :: rest) := by
  cases text with
  | nil =>
      have hletter : isNameLetter d = false := by
        rw [isNameChar, Bool.or_eq_false_iff] at hd
        exact hd.1
      simp [splitLabelName?, hletter]
  | cons c text =>
      simp only [splitLabelName?, List.cons_append]
      rw [← List.cons_append, takeWhile_append_cons hd,
        dropWhile_append_cons hd]
      split
      · rfl
      · rfl

/-- A text falls into the label name at its head and the rest. -/
theorem append_of_splitLabelName? {text name after : Text}
    (h : splitLabelName? text = some (name, after)) :
    text = name ++ after ∧ ∀ c ∈ name, isNameChar c = true := by
  cases text with
  | nil => cases h
  | cons c rest =>
      simp only [splitLabelName?] at h
      split at h
      · cases h
        exact ⟨List.takeWhile_append_dropWhile.symm,
          fun d hd => List.mem_takeWhile_imp hd⟩
      · cases h

/-- An identifier ends where a character is in no name. -/
theorem splitIdentifier?_append {d : Char} (hd : isNameChar d = false)
    (text rest : Text) :
    splitIdentifier? (text ++ d :: rest)
      = (splitIdentifier? text).map fun (name, after) =>
        (name, after ++ d :: rest) := by
  obtain ⟨hletter, hdigit⟩ := Bool.or_eq_false_iff.1 hd
  simp only [splitIdentifier?, takeWhile_append_cons hletter,
    dropWhile_append_cons hletter, takeWhile_append_cons hdigit,
    dropWhile_append_cons hdigit]
  split
  · rfl
  · rfl

/-- The three runs of an identifier. -/
structure IdentifierParts (letters digits more : Text) : Prop where
  ne_nil : letters ≠ []
  letters : ∀ c ∈ letters, isNameLetter c = true
  digits : ∀ c ∈ digits, c.isDigit = true
  more : ∀ c ∈ more, isNameLetter c = true

/-- A text falls into the identifier at its head and the rest. -/
theorem parts_of_splitIdentifier? {text name after : Text}
    (h : splitIdentifier? text = some (name, after)) :
    text = name ++ after
      ∧ ∃ letters digits more, IdentifierParts letters digits more
          ∧ name = letters ++ digits ++ more := by
  simp only [splitIdentifier?] at h
  split at h
  · cases h
  next hne =>
    simp only [Option.some.injEq, Prod.mk.injEq] at h
    obtain ⟨rfl, rfl⟩ := h
    refine ⟨?_, _, _, _, ⟨?_, ?_, ?_, ?_⟩, rfl⟩
    · simp only [List.append_assoc, List.takeWhile_append_dropWhile]
    · rw [Bool.not_eq_true, List.isEmpty_eq_false_iff] at hne
      exact hne
    · exact fun c hc => List.mem_takeWhile_imp hc
    · exact fun c hc => List.mem_takeWhile_imp hc
    · exact fun c hc => List.mem_takeWhile_imp hc

/-- A run ends where a character is not of its kind. -/
theorem span_append {p : Char → Bool} {run rest : Text}
    (hrun : ∀ c ∈ run, p c = true) (hrest : ∀ c ∈ rest.head?, p c = false) :
    (run ++ rest).takeWhile p = run ∧ (run ++ rest).dropWhile p = rest := by
  rw [List.takeWhile_append_of_pos hrun, List.dropWhile_append_of_pos hrun]
  cases rest with
  | nil => exact ⟨List.append_nil run, rfl⟩
  | cons c rest =>
      have hc : ¬ p c = true := by
        rw [hrest c rfl]
        exact Bool.false_ne_true
      rw [List.takeWhile_cons_of_neg hc, List.dropWhile_cons_of_neg hc]
      exact ⟨List.append_nil run, rfl⟩

theorem not_letter_of_digit {c : Char} (h : c.isDigit = true) :
    isNameLetter c = false := by
  simp only [Char.isDigit_iff_toNat, Char.reduceToNat] at h
  cases hletter : isNameLetter c with
  | false => rfl
  | true =>
      rcases isNameLetter_iff.1 hletter with ⟨hlow, hhigh⟩
        | ⟨hlow, hhigh⟩ | rfl
      · omega
      · omega
      · simp at h

theorem not_digit_of_letter {c : Char} (h : isNameLetter c = true) :
    c.isDigit = false := by
  cases hdigit : c.isDigit with
  | false => rfl
  | true =>
      rw [not_letter_of_digit hdigit] at h
      cases h

/-- What falls into the three runs is one identifier. -/
theorem IdentifierParts.splitIdentifier?_eq {letters digits more : Text}
    (h : IdentifierParts letters digits more) :
    splitIdentifier? (letters ++ digits ++ more)
      = some (letters ++ digits ++ more, []) := by
  have hend : ∀ (p : Char → Bool) (c : Char), c ∈ ([] : Text).head? →
      p c = false :=
    fun _ c hc => by cases hc
  cases digits with
  | nil =>
      have hall : ∀ c ∈ letters ++ more, isNameLetter c = true := fun c hc =>
        (List.mem_append.1 hc).elim (h.letters c) (h.more c)
      obtain ⟨htake, hdrop⟩ := span_append hall (hend isNameLetter)
      rw [List.append_nil] at htake hdrop
      simp only [splitIdentifier?, List.append_nil, htake, hdrop]
      simp [h.ne_nil]
  | cons d digits =>
      have hdigit : ∀ c ∈ (d :: digits ++ more).head?,
          isNameLetter c = false := by
        intro c hc
        cases hc
        exact not_letter_of_digit (h.digits d List.mem_cons_self)
      have hmore : ∀ c ∈ more.head?, c.isDigit = false := fun c hc =>
        not_digit_of_letter (h.more c (List.mem_of_mem_head? hc))
      obtain ⟨htake, hdrop⟩ := span_append h.letters hdigit
      obtain ⟨htake', hdrop'⟩ := span_append h.digits hmore
      obtain ⟨htake'', hdrop''⟩ := span_append h.more (hend isNameLetter)
      rw [List.append_nil] at htake'' hdrop''
      simp only [splitIdentifier?, List.append_assoc, htake, hdrop, htake',
        hdrop', htake'', hdrop'']
      simp [h.ne_nil]

/-- What is split off as an identifier is one. -/
theorem isIdentifier_of_splitIdentifier? {text name after : Text}
    (h : splitIdentifier? text = some (name, after)) :
    isIdentifier name = true := by
  obtain ⟨-, letters, digits, more, hparts, rfl⟩ := parts_of_splitIdentifier? h
  unfold isIdentifier
  rw [hparts.splitIdentifier?_eq]

/-- An identifier begins with a letter, and all of it can stand in a
name. -/
theorem exists_cons_of_isIdentifier {name : Text}
    (h : isIdentifier name = true) :
    ∃ c rest, name = c :: rest ∧ isNameLetter c = true
      ∧ ∀ d ∈ name, isNameChar d = true := by
  unfold isIdentifier at h
  split at h
  next found hfound =>
    obtain ⟨hname, letters, digits, more, hparts, rfl⟩ :=
      parts_of_splitIdentifier? hfound
    rw [List.append_nil] at hname
    subst hname
    cases letters with
    | nil => exact absurd rfl hparts.ne_nil
    | cons c letters =>
        refine ⟨c, letters ++ digits ++ more, rfl,
          hparts.letters c List.mem_cons_self, ?_⟩
        intro d hd
        rw [isNameChar, Bool.or_eq_true]
        simp only [List.mem_append] at hd
        rcases hd with (hd | hd) | hd
        · exact .inl (hparts.letters d hd)
        · exact .inr (hparts.digits d hd)
        · exact .inl (hparts.more d hd)
  next => cases h

/-- An identifier is recognised in front of any character that is in no
name. -/
theorem splitIdentifier?_of_isIdentifier {name : Text}
    (h : isIdentifier name = true) {d : Char} (hd : isNameChar d = false)
    (rest : Text) :
    splitIdentifier? (name ++ d :: rest) = some (name, d :: rest) := by
  unfold isIdentifier at h
  split at h
  next found hfound =>
    obtain rfl : name = found := by
      rw [(parts_of_splitIdentifier? hfound).1, List.append_nil]
    rw [splitIdentifier?_append hd, hfound]
    rfl
  next => cases h

end Text

-- ====================================================== quotes, comments

namespace Line

variable {marker : Text}

/-- On which side of the quotes a scan is after a text. -/
def quotedAfter (quoted : Bool) : Text → Bool
  | [] => quoted
  | c :: rest => quotedAfter (if c = '\'' then !quoted else quoted) rest

theorem quotedAfter_append (quoted : Bool) (a b : Text) :
    quotedAfter quoted (a ++ b) = quotedAfter (quotedAfter quoted a) b := by
  induction a generalizing quoted with
  | nil => rfl
  | cons c a ih => exact ih _

/-- A scan is back on its side after an even number of quotes. -/
theorem quotedAfter_eq_iff {quoted : Bool} {text : Text} :
    quotedAfter quoted text = quoted ↔ Even (text.count '\'') := by
  induction text generalizing quoted with
  | nil => simp [quotedAfter]
  | cons c rest ih =>
      by_cases hc : c = '\''
      · subst hc
        rw [quotedAfter, if_pos rfl, List.count_cons_self, Nat.even_add_one,
          ← @ih (!quoted)]
        cases quoted <;> simp
      · rw [quotedAfter, if_neg hc, List.count_cons_of_ne hc]
        exact ih

/-- A scan for a comment goes over a text and finds none; it begins
inside quotes or not, and so it ends. -/
structure Passes (marker : Text) (quoted : Bool) (text : Text) (after : Bool) :
    Prop where
  none : beforeComment? marker quoted text = .none
  side : quotedAfter quoted text = after

namespace Passes

variable {quoted middle after : Bool}

/-- A comment behind a text that a scan goes over is found as if the scan
began behind it. -/
theorem beforeComment?_append {a : Text} (h : Passes marker quoted a middle)
    {b : Text} (hseam : Text.NoStraddle marker b) :
    beforeComment? marker quoted (a ++ b)
      = (beforeComment? marker middle b).map (a ++ ·) := by
  obtain ⟨hnone, rfl⟩ := h
  induction a generalizing quoted with
  | nil => exact (congrFun Option.map_id _).symm
  | cons c a ih =>
      have hmap : ∀ found : Option Text,
          (found.map (a ++ ·)).map (c :: ·) = found.map ((c :: a) ++ ·) := by
        intro found
        rw [Option.map_map]
        rfl
      rw [beforeComment?] at hnone
      rw [List.cons_append, beforeComment?, quotedAfter]
      by_cases hc : c = '\''
      · rw [if_pos hc, Option.map_eq_none_iff] at hnone
        rw [if_pos hc, if_pos hc, ih hnone, hmap]
      · rw [if_neg hc] at hnone
        have hstart : Text.startsWith (c :: a ++ b) marker
            = Text.startsWith (c :: a) marker :=
          hseam _ (List.cons_ne_nil c a)
        rw [List.cons_append] at hstart
        rw [if_neg hc, if_neg hc, hstart]
        split at hnone
        next => cases hnone
        next hno =>
          rw [Option.map_eq_none_iff] at hnone
          rw [if_neg hno, ih hnone, hmap]

/-- Scans are put together. -/
theorem append {a b : Text} (ha : Passes marker quoted a middle)
    (hb : Passes marker middle b after) (hseam : Text.NoStraddle marker b) :
    Passes marker quoted (a ++ b) after := by
  constructor
  · rw [ha.beforeComment?_append hseam, hb.none]
    rfl
  · rw [quotedAfter_append, ha.side, hb.side]

/-- A scan that is inside quotes stays there up to the next quote. -/
theorem of_quoted {text : Text} (h : '\'' ∉ text) :
    Passes marker true text true := by
  induction text with
  | nil => exact ⟨rfl, rfl⟩
  | cons c rest ih =>
      obtain ⟨hc, hrest⟩ := List.ne_and_not_mem_of_not_mem_cons h
      obtain ⟨hnone, hside⟩ := ih hrest
      constructor
      · rw [beforeComment?, if_neg (Ne.symm hc), hnone]
        rfl
      · rw [quotedAfter, if_neg (Ne.symm hc)]
        exact hside

end Passes

/-- A marker outside quotes is a comment at once, unless it begins with a
quote itself. -/
theorem beforeComment?_marker (hne : marker ≠ [])
    (hhead : marker.head? ≠ some '\'') (text : Text) :
    beforeComment? marker false (marker ++ text) = some [] := by
  cases marker with
  | nil => exact absurd rfl hne
  | cons m marker =>
      have hm : m ≠ '\'' := fun heq => hhead (congrArg some heq)
      have hstart := Text.startsWith_append_self (m :: marker) text
      rw [List.cons_append] at hstart ⊢
      rw [beforeComment?, if_neg hm, hstart]
      rfl

/-- A scan that is outside quotes goes over a text in which there is
neither a quote nor the first character of the marker. -/
theorem beforeComment?_append_of_plain {m : Char} {marker text : Text}
    (hquote : '\'' ∉ text) (hmark : m ∉ text) (rest : Text) :
    beforeComment? (m :: marker) false (text ++ rest)
      = (beforeComment? (m :: marker) false rest).map (text ++ ·) := by
  induction text with
  | nil => exact (congrFun Option.map_id _).symm
  | cons c text ih =>
      obtain ⟨hc, hquote⟩ := List.ne_and_not_mem_of_not_mem_cons hquote
      obtain ⟨hm, hmark⟩ := List.ne_and_not_mem_of_not_mem_cons hmark
      have hstart :=
        Text.startsWith_cons_of_ne (text ++ rest) marker (Ne.symm hm)
      rw [List.cons_append, beforeComment?, if_neg (Ne.symm hc), hstart,
        Bool.and_false, if_neg Bool.false_ne_true, ih hquote hmark,
        Option.map_map]
      rfl

theorem quotedAfter_of_plain {quoted : Bool} {text : Text} (h : '\'' ∉ text) :
    quotedAfter quoted text = quoted := by
  rw [quotedAfter_eq_iff, List.count_eq_zero_of_not_mem h]
  exact Even.zero

theorem Passes.of_plain {m : Char} {marker text : Text} (hquote : '\'' ∉ text)
    (hmark : m ∉ text) : Passes (m :: marker) false text false := by
  refine ⟨?_, quotedAfter_of_plain hquote⟩
  have hscan : beforeComment? (m :: marker) false (text ++ []) = .none :=
    beforeComment?_append_of_plain hquote hmark []
  rw [List.append_nil] at hscan
  exact hscan

/-- Where a scan finds no comment it finds none in any later part. -/
theorem beforeComment?_of_append {quoted : Bool} {front back : Text}
    (h : beforeComment? marker quoted (front ++ back) = none) :
    beforeComment? marker (quotedAfter quoted front) back = none := by
  induction front generalizing quoted with
  | nil => exact h
  | cons c front ih =>
      rw [List.cons_append, beforeComment?] at h
      rw [quotedAfter]
      split at h
      next hc =>
        rw [if_pos hc]
        exact ih (Option.map_eq_none_iff.1 h)
      next hc =>
        rw [if_neg hc]
        split at h
        next => cases h
        next => exact ih (Option.map_eq_none_iff.1 h)

/-- Where there is no comment there is no marker either, unless there are
quotes in front of it. -/
theorem startsWith_eq_false_of_append (hne : marker ≠ [])
    (hquote : '\'' ∉ marker) {front back : Text} (hfront : '\'' ∉ front)
    (h : beforeComment? marker false (front ++ back) = none) :
    Text.startsWith back marker = false := by
  have hback := beforeComment?_of_append h
  rw [quotedAfter_of_plain hfront] at hback
  cases hstart : Text.startsWith back marker with
  | false => rfl
  | true =>
      obtain ⟨rest, rfl⟩ := List.isPrefixOf_iff_prefix.1 hstart
      rw [beforeComment?_marker hne (Text.head?_ne_of_not_mem hquote)] at hback
      cases hback

-- ================================================================ kinds

/-- A line that is neither blank nor a comment is a label or a matter of
the language. -/
theorem classify_eq_elim {line : Text} (hbody : Text.trimStart line ≠ [])
    (hstart : Text.startsWith (Text.trimStart line) marker = false) :
    classify marker line = (label? marker line).elim .other .label := by
  unfold classify
  simp only [List.isEmpty_eq_false_iff.2 hbody, hstart,
    Bool.false_eq_true, if_false]
  cases label? marker line with
  | none => rfl
  | some name => rfl

-- ============================================================= comments

/-- A marker that can stand behind white space outside quotes and be
taken for nothing else. -/
structure CommentMarker (marker : Text) : Prop where
  ne_nil : marker ≠ []
  not_label : marker.head? ≠ some ':'
  plain : ∀ c ∈ marker, isBlank c = false ∧ c ≠ '\''

namespace CommentMarker

theorem quote_not_mem (h : CommentMarker marker) : '\'' ∉ marker := fun hmem =>
  (h.plain _ hmem).2 rfl

theorem not_mem_of_blank (h : CommentMarker marker) {d : Char}
    (hd : isBlank d = true) :
    d ∉ marker := by
  intro hmem
  rw [(h.plain d hmem).1] at hd
  cases hd

end CommentMarker

/-- White space and a comment, as they stand behind a line. -/
structure Remark (marker remark : Text) : Prop where
  feed : '\n' ∉ remark
  parts : ∃ gap text, gap ≠ [] ∧ Text.isAllBlank gap = true
    ∧ remark = gap ++ (marker ++ text)

namespace Remark

variable {remark : Text}

theorem exists_cons (h : Remark marker remark) :
    ∃ d rest, isBlank d = true ∧ remark = d :: rest := by
  obtain ⟨-, gap, text, hgap, hblank, rfl⟩ := h
  cases gap with
  | nil => exact absurd rfl hgap
  | cons d gap =>
      exact ⟨d, gap ++ (marker ++ text), Text.isAllBlank_iff.1 hblank d
      List.mem_cons_self, rfl⟩

/-- In front of a comment there is nothing but white space. -/
theorem trimStart_eq (h : Remark marker remark)
    (hmarker : CommentMarker marker) :
    ∃ text, Text.trimStart remark = marker ++ text
      ∧ '\n' ∉ marker ++ text := by
  obtain ⟨hfeed, gap, text, -, hblank, rfl⟩ := h
  refine ⟨text, ?_, fun hmem => hfeed (List.mem_append_right gap hmem)⟩
  rw [Text.trimStart_append_of_blank hblank]
  cases marker with
  | nil => exact absurd rfl hmarker.ne_nil
  | cons m marker =>
      exact Text.trimStart_cons_of_not_blank
        (hmarker.plain m List.mem_cons_self).1 _

end Remark

/-- A comment behind a line that a scan goes over is what is cut off. -/
theorem stripComment?_append_remark {line remark : Text}
    (hmarker : CommentMarker marker) (hline : Passes marker false line false)
    (hremark : Remark marker remark) :
    stripComment? marker (line ++ remark) = some (Text.trimEnd line) := by
  -- the marker cannot begin in the line, for it would have to reach over the
  -- white space
  have hseam : Text.NoStraddle marker remark := by
    obtain ⟨d, rest, hd, rfl⟩ := hremark.exists_cons
    exact Text.noStraddle_cons (hmarker.not_mem_of_blank hd) rest
  obtain ⟨-, gap, text, -, hblank, rfl⟩ := hremark
  have hbefore : beforeComment? marker false (gap ++ (marker ++ text))
      = some gap := by
    cases marker with
    | nil => exact absurd rfl hmarker.ne_nil
    | cons m marker =>
        have hgapQuote : '\'' ∉ gap := Text.not_mem_of_isAllBlank hblank rfl
        have hgapMark : m ∉ gap := fun h =>
          hmarker.not_mem_of_blank (Text.isAllBlank_iff.1 hblank _ h)
            List.mem_cons_self
        rw [beforeComment?_append_of_plain hgapQuote hgapMark,
          beforeComment?_marker hmarker.ne_nil
            (Text.head?_ne_of_not_mem hmarker.quote_not_mem)]
        simp
  have hscan := hline.beforeComment?_append hseam
  rw [hbefore, Option.map_some] at hscan
  rw [stripComment?, hscan, Option.map_some,
    Text.trimEnd_append_of_blank hblank]

end Line

end LineScript
