/-
Which comment markers do their work.

Settings are checked before an engine is built, but a marker that passes
the check is not yet one that is recognised. A line is looked at without
the white space in front of it, so a marker that begins with white space
is never found there; and a quote opens or closes a string wherever the
scan for a trailing comment comes to it, so a marker that begins with a
quote is never found there either. These are the only two obstacles, and
each is in the way of one of the two recognisers: what is asked of a
marker is a condition on its first character, in both cases exactly
(`marker_honoured_iff`).
-/
import LineScript.Proofs.Lexing
import LineScript.Proofs.Reading

set_option autoImplicit false

namespace LineScript

namespace Line

variable {marker blanks text command : Text}

-- ==================================================== lines of comment

/-- The marker in front of a text is found behind white space if it does
not begin with white space. -/
theorem classify_marker_line (hne : marker ≠ [])
    (hflush : ∀ c ∈ marker.head?, isBlank c = false)
    (hblanks : Text.isAllBlank blanks = true) (text : Text) :
    classify marker (blanks ++ marker ++ text) = .comment := by
  have hbody : Text.trimStart (blanks ++ marker ++ text) = marker ++ text := by
    rw [List.append_assoc, Text.trimStart_append_of_blank hblanks]
    cases marker with
    | nil => exact absurd rfl hne
    | cons m marker =>
        exact Text.trimStart_cons_of_not_blank (hflush m rfl) (marker ++ text)
  have hempty : (marker ++ text).isEmpty = false :=
    List.isEmpty_eq_false_iff.2 (List.append_ne_nil_of_left_ne_nil hne text)
  unfold classify
  simp only [hbody, hempty, Text.startsWith_append_self, Bool.false_eq_true,
    if_false, if_true]

/-- A marker that begins with white space is found in no line. -/
theorem classify_ne_comment {m : Char} (hm : isBlank m = true)
    (marker line : Text) :
    classify (m :: marker) line ≠ .comment := by
  have hstart : Text.startsWith (Text.trimStart line) (m :: marker)
      = false := by
    cases hbody : Text.trimStart line with
    | nil => rfl
    | cons c body =>
        have hc : isBlank c = false :=
          Text.not_blank_of_head?_trimStart (by rw [hbody]; rfl)
        apply Text.startsWith_cons_of_ne
        rintro rfl
        rw [hm] at hc
        cases hc
  unfold classify
  simp only [hstart, Bool.false_eq_true, if_false]
  split
  · intro h
    cases h
  · split
    · intro h
      cases h
    · intro h
      cases h

/-- Only a blank line is taken for one. -/
theorem isAllBlank_of_classify {line : Text}
    (h : classify marker line = .empty) :
    Text.isAllBlank line = true := by
  unfold classify at h
  simp only [List.isEmpty_iff] at h
  split at h
  next hbody => exact Text.trimStart_eq_nil_iff.1 hbody
  next =>
    split at h
    · cases h
    · split at h
      · cases h
      · cases h

-- =================================================== comments in lines

/-- The marker behind a command is found, if it does not begin with a
quote. The space between the two may already belong to it. -/
theorem stripComment?_command (hne : marker ≠ [])
    (hhead : marker.head? ≠ some '\'') (hquote : '\'' ∉ command)
    (htrim : Text.trimEnd command = command)
    (hapart : ∀ c ∈ command, c ∉ marker) (text : Text) :
    stripComment? marker (command ++ " ".toList ++ marker ++ text)
      = some command := by
  have hspace : ∃ gap, Text.isAllBlank gap = true
      ∧ beforeComment? marker false (" ".toList ++ (marker ++ text))
        = some gap := by
    have hscan : beforeComment? marker false (" ".toList ++ (marker ++ text))
        = if Text.startsWith (' ' :: (marker ++ text)) marker then some []
          else (beforeComment? marker false (marker ++ text)).map (' ' :: ·) :=
        rfl
    rw [hscan, beforeComment?_marker hne hhead]
    split
    · exact ⟨[], rfl, rfl⟩
    · exact ⟨" ".toList, rfl, rfl⟩
  obtain ⟨gap, hgap, hscan⟩ := hspace
  cases marker with
  | nil => exact absurd rfl hne
  | cons m marker =>
      have hmark : m ∉ command := fun hmem => hapart m hmem List.mem_cons_self
      rw [stripComment?, List.append_assoc, List.append_assoc,
        beforeComment?_append_of_plain hquote hmark, hscan, Option.map_some,
        Option.map_some, Text.trimEnd_append_of_blank hgap, htrim]

/-- A marker that begins with a quote is found in no line: the quote is
taken for the beginning or the end of a string. -/
theorem beforeComment?_of_quote (marker : Text) (quoted : Bool) (line : Text) :
    beforeComment? ('\'' :: marker) quoted line = none := by
  induction line generalizing quoted with
  | nil => rfl
  | cons c rest ih =>
      rw [beforeComment?]
      split
      next => rw [ih, Option.map_none]
      next hc => rw [Text.startsWith_cons_of_ne rest marker hc, Bool.and_false,
        if_neg Bool.false_ne_true, ih, Option.map_none]

end Line

-- ========================================================= the settings

namespace Settings

/-- Every line that begins with the marker, white space in front of it or
not, is a comment, or else blank. -/
def MarksLines (settings : Settings) : Prop :=
  ∀ blanks text, Text.isAllBlank blanks = true →
    Line.classify settings.marker
      (blanks ++ settings.marker ++ text) = .comment
      ∨ Line.classify settings.marker
        (blanks ++ settings.marker ++ text) = .empty

/-- Every comment behind a command is cut off, if the command has no
quote and no character of the marker in it. -/
def MarksRemarks (settings : Settings) : Prop :=
  ∀ command text, '\'' ∉ command → Text.trimEnd command = command →
    (∀ c ∈ command, c ∉ settings.marker) →
    Line.stripComment? settings.marker
      (command ++ " ".toList ++ settings.marker ++ text)
      = some command

variable {settings : Settings}

/-- A line that is marked is erased when it is read, by every language
and with no call of its hook. -/
theorem MarksLines.readLine_eq {σ : Type} {engine : Engine σ}
    (h : engine.settings.MarksLines) {blanks : Text}
    (hblanks : Text.isAllBlank blanks = true) (text : Text) (index : Nat)
    (labels : Table Nat) (own : σ) :
    engine.readLine index labels own (blanks ++ engine.settings.marker ++ text)
      = (labels, own, .ok []) := by
  unfold Engine.readLine
  rcases h blanks text hblanks with hkind | hkind
  · rw [hkind]
  · rw [hkind]

/-- A marker that settings without a fault have is honoured by its first
character. Lines that begin with it are comments exactly if that is no
white space; they are then erased by every language before the hook could
see them. Comments behind commands are cut off exactly if it is no
quote. Where it is the one or the other, nothing is recognised at all: no
line as a comment, or no line as having one. -/
theorem marker_honoured_iff (valid : settings.fault? = none) :
    (settings.MarksLines ↔ ∀ c ∈ settings.marker.head?, isBlank c = false)
      ∧ (settings.MarksRemarks ↔ settings.marker.head? ≠ some '\'')
      ∧ (settings.MarksLines →
        ∀ {σ : Type} (engine : Engine σ), engine.settings = settings →
          ∀ blanks text index labels own, Text.isAllBlank blanks = true →
            engine.readLine index labels own
              (blanks ++ settings.marker ++ text)
              = (labels, own, .ok []))
      ∧ ((∃ c ∈ settings.marker.head?, isBlank c = true) →
          ∀ line, Line.classify settings.marker line ≠ .comment)
      ∧ (settings.marker.head? = some '\'' →
          ∀ line, Line.stripComment? settings.marker line = none) := by
  obtain ⟨hne, -, -, -⟩ := fault?_eq_none_iff.1 valid
  have hblank : (∃ c ∈ settings.marker.head?, isBlank c = true) →
      ∀ line, Line.classify settings.marker line ≠ .comment := by
    rintro ⟨m, hm, hblank⟩ line
    obtain ⟨marker, hmarker⟩ := List.head?_eq_some_iff.1 hm
    rw [hmarker]
    exact Line.classify_ne_comment hblank marker line
  have hquote : settings.marker.head? = some '\'' →
      ∀ line, Line.stripComment? settings.marker line = none := by
    intro hm line
    obtain ⟨marker, hmarker⟩ := List.head?_eq_some_iff.1 hm
    rw [hmarker, Line.stripComment?, Line.beforeComment?_of_quote]
    rfl
  refine ⟨⟨?_, ?_⟩, ⟨?_, ?_⟩, ?_, hblank, hquote⟩
  · intro h c hc
    cases hcBlank : isBlank c with
    | false => rfl
    | true =>
        -- with a letter behind the marker the line is not blank either
        rcases h [] "x".toList rfl with hkind | hkind
        · exact absurd hkind (hblank ⟨c, hc, hcBlank⟩ _)
        · have hall := Line.isAllBlank_of_classify hkind
          rw [Text.isAllBlank_append, Bool.and_eq_true] at hall
          exact absurd hall.2 (by decide)
  · intro hflush blanks text hblanks
    exact .inl (Line.classify_marker_line hne hflush hblanks text)
  · intro h hm
    have hnone := hquote hm ([] ++ " ".toList ++ settings.marker ++ [])
    rw [h [] [] List.not_mem_nil rfl fun c hc =>
      absurd hc List.not_mem_nil] at hnone
    cases hnone
  · intro hhead command text hcommand htrim hapart
    exact Line.stripComment?_command hne hhead hcommand htrim hapart text
  · rintro h σ engine rfl blanks text index labels own hblanks
    exact h.readLine_eq hblanks text index labels own

/-- For instance, a marker of two strokes: it does all that a marker
should. -/
theorem marker_honoured_iff_of_strokes :
    ({ marker := "//".toList } : Settings).fault? = none
      ∧ Line.classify "//".toList
        ("\t ".toList ++ "//".toList ++ " it's".toList) = .comment
      ∧ Line.stripComment? "//".toList
          ("inc a".toList ++ " ".toList ++ "//".toList ++ " it's".toList)
            = some "inc a".toList := by
  have valid : ({ marker := "//".toList } : Settings).fault? = none := rfl
  obtain ⟨hlines, hremarks, -⟩ := marker_honoured_iff valid
  have hflush : ∀ c ∈ "//".toList.head?, isBlank c = false := by
    intro c hc
    cases hc
    rfl
  refine ⟨valid, ?_, ?_⟩
  · rcases hlines.2 hflush "\t ".toList " it's".toList rfl with hkind | hkind
    · exact hkind
    · cases hkind
  · exact hremarks.2 (by decide) "inc a".toList " it's".toList (by decide)
      rfl (by simp)

/-- Two markers that pass the check and do not work: a line that begins
with the one is a matter of the language, and a remark after the other
stays in its line. -/
theorem marker_unhonoured :
    ({ marker := " #".toList } : Settings).fault? = none
      ∧ Line.classify " #".toList
        ([] ++ " #".toList ++ " note".toList) = .other
      ∧ ({ marker := "'".toList } : Settings).fault? = none
      ∧ Line.stripComment? "'".toList
          ("inc a".toList ++ " ".toList ++ "'".toList ++ " note".toList)
          = none :=
  ⟨rfl, by decide, rfl, by decide⟩

end Settings

end LineScript
