/-
What reading a script leaves behind: the label table is tied to the
lines it was read from.

Reading is a pass over the lines with the label table as accumulator, so
every fact here is the same induction: a fact about one line
(`readLine`), carried along the pass by `readFrom_cons`. The facts hold
of a pass that is cut short as well; what depends on the lines having
all been read says so.
-/
import LineScript.Proofs.Language

set_option autoImplicit false

namespace LineScript

variable {σ : Type}

-- ====================================================== lines of a text

/-- Lines joined by line feeds. -/
def Text.unlines (lines : List Text) : Text := List.intercalate ['\n'] lines

namespace Text

/-- Lines without line feeds are the pieces of the text that they make. -/
theorem splitOn_unlines {lines : List Text} (hne : lines ≠ [])
    (h : ∀ line ∈ lines, '\n' ∉ line) :
    splitOn ['\n'] (unlines lines) = lines := by
  rw [splitOn_singleton]
  exact List.splitOn_intercalate '\n' h hne

theorem unlines_singleton (line : Text) : unlines [line] = line :=
  List.intercalate_singleton

/-- What is in joined parts is the mark between them or in one of them. -/
theorem mem_intercalate {mark c : Char} {parts : List Text}
    (h : c ∈ [mark].intercalate parts) :
    c = mark ∨ ∃ part ∈ parts, c ∈ part := by
  induction parts with
  | nil => cases h
  | cons part rest ih =>
    by_cases hrest : rest = []
    · subst hrest
      rw [List.intercalate_singleton] at h
      exact .inr ⟨part, List.mem_cons_self, h⟩
    · rw [List.intercalate_cons_of_ne_nil hrest] at h
      simp only [List.mem_append, List.mem_singleton] at h
      rcases h with (hpart | hmark) | hafter
      · exact .inr ⟨part, List.mem_cons_self, hpart⟩
      · exact .inl hmark
      · rcases ih hafter with hmark | ⟨other, hother, hmem⟩
        · exact .inl hmark
        · exact .inr ⟨other, List.mem_cons_of_mem _ hother, hmem⟩

end Text

-- ==================================================== pieces of a text

/-- A text cut at a separator, from left to right: each piece ends where
the separator first occurs, and the last piece has it nowhere. -/
inductive Text.Cut (separator : Text) : Text → List Text → Prop
  | last {text : Text} (h : ∀ front back, front ++ separator ++ back ≠ text) :
      Cut separator text [text]
  | piece {piece rest : Text} {pieces : List Text}
      (first : ∀ front back,
        front ++ separator ++ back = piece ++ separator ++ rest →
        piece.length ≤ front.length)
      (h : Cut separator rest pieces) : Cut separator
      (piece ++ separator ++ rest) (piece :: pieces)

namespace Text

variable {separator : Text}

/-- A character in front of a text that is cut, and no occurrence of the
separator begins with it. -/
theorem Cut.consHead {c : Char} {rest : Text} {pieces : List Text}
    (hstart : startsWith (c :: rest) separator = false)
    (h : Cut separator rest pieces) :
    Cut separator (c :: rest) (consHead c pieces) := by
  have hfront : ∀ back, separator ++ back ≠ c :: rest := by
    intro back heq
    have hprefix : separator <+: c :: rest := ⟨back, heq⟩
    rw [startsWith, List.isPrefixOf_iff_prefix.2 hprefix] at hstart
    cases hstart
  cases h with
  | last h =>
      refine .last fun front back heq => ?_
      cases front with
      | nil => exact hfront back heq
      | cons d front =>
          cases heq
          exact h front back rfl
  | @piece piece rest pieces first h =>
      have hfirst : ∀ front back,
          front ++ separator ++ back = c :: piece ++ separator ++ rest →
          (c :: piece).length ≤ front.length := by
        intro front back heq
        cases front with
        | nil => exact absurd heq (hfront back)
        | cons d front =>
            have hrest : front ++ separator ++ back
                = piece ++ separator ++ rest := by
              injection heq
            exact Nat.succ_le_succ (first front back hrest)
      exact .piece hfirst h

/-- The pieces of a text are what the text is cut into. The induction
passes over the separators found, so it is on the text with any number of
characters left to pass over. -/
theorem cut_piecesFrom (hne : separator ≠ []) (text : Text) (skip : Nat) :
    Cut separator (text.drop skip) (piecesFrom separator skip text) := by
  induction text generalizing skip with
  | nil =>
      have hnone : Cut separator [] [[]] := by
        refine .last fun front back heq => hne ?_
        rw [List.append_eq_nil_iff, List.append_eq_nil_iff] at heq
        exact heq.1.2
      cases skip with
      | zero => exact hnone
      | succ skip => exact hnone
  | cons c rest ih =>
      cases skip with
      | succ skip => exact ih skip
      | zero =>
          rw [piecesFrom, List.drop_zero]
          split
          next hfound =>
            obtain ⟨back, hback⟩ := List.isPrefixOf_iff_prefix.1 hfound.2
            have hdrop : rest.drop (separator.length - 1) = back := by
              cases separator with
              | nil => exact absurd rfl hne
              | cons d separator =>
                  cases hback
                  exact List.drop_left
            have hrest := ih (separator.length - 1)
            rw [hdrop] at hrest
            have hfirst : ∀ front other,
                front ++ separator ++ other = [] ++ separator ++ back →
                ([] : Text).length ≤ front.length :=
              fun front _ _ => Nat.zero_le front.length
            rw [← hback]
            exact .piece hfirst hrest
          next hnot =>
            refine Cut.consHead ?_ (ih 0)
            cases hstart : startsWith (c :: rest) separator with
            | false => rfl
            | true => exact absurd ⟨hne, hstart⟩ hnot

theorem cut_splitOn (hne : separator ≠ []) (text : Text) :
    Cut separator text (splitOn separator text) :=
  cut_piecesFrom hne text 0

end Text

/-- Under settings without a fault no separator is empty. -/
theorem Settings.separatorFor_ne_nil {settings : Settings}
    (valid : settings.fault? = none) (text : Text) :
    settings.separatorFor text ≠ [] := by
  obtain ⟨-, -, hseparator, -⟩ := fault?_eq_none_iff.1 valid
  unfold separatorFor
  cases h : settings.separator with
  | none =>
      unfold detectSeparator
      rw [Option.getD_none]
      split
      · exact List.cons_ne_nil _ _
      · exact List.cons_ne_nil _ _
  | some separator =>
      intro heq
      exact hseparator (h.trans (congrArg some heq))

namespace Engine

variable {engine : Engine σ}

-- ============================================================= one line

/-- Reading one line: the labels and the own state afterwards, and the
line that a run works on, unless it is refused. -/
def readLine (engine : Engine σ) (index : Nat) (labels : Table Nat) (own : σ)
    (raw : Text) : Table Nat × σ × Except Failure Text :=
  match Line.classify engine.settings.marker raw with
  | .empty => (labels, own, .ok [])
  | .comment => (labels, own, .ok [])
  | .label name =>
    if labels.contains name then
      (labels, own, .error (.preprocessing ⟨index, raw⟩ (.labelDefined name)))
    else (labels.insert name index, own, .ok [])
  | .other =>
    match engine.hook engine.settings index raw own with
    | (.error failure, own) => (labels, own, .error failure)
    | (.ok replacement, own) => (labels, own, .ok (replacement.getD raw))

/-- Reading lines is reading the first and going on, unless it is
refused. -/
theorem readFrom_cons (engine : Engine σ) (index : Nat) (labels : Table Nat)
    (own : σ) (raw : Text) (rest : List Text) :
    engine.readFrom index labels own (raw :: rest)
      = match engine.readLine index labels own raw with
        | (labels, own, .error failure) => ⟨labels, own, .error failure⟩
        | (labels, own, .ok entry) =>
          (engine.readFrom (index + 1) labels own rest).consLine entry := by
  unfold readLine
  rw [readFrom]
  cases Line.classify engine.settings.marker raw with
  | empty => rfl
  | comment => rfl
  | label name =>
      simp only
      split
      · rfl
      · rfl
  | other =>
      simp only
      rcases engine.hook engine.settings index raw own with ⟨replacement, own'⟩
      cases replacement with
      | error failure => rfl
      | ok replacement => rfl

/-- A label line that is read becomes an empty line, and so do blank
lines and comments. -/
theorem entry_of_readLine {index : Nat} {labels labels' : Table Nat}
    {own own' : σ} {raw entry : Text}
    (h : engine.readLine index labels own raw = (labels', own', .ok entry))
    (hkind : Line.classify engine.settings.marker raw ≠ .other) :
    entry = [] := by
  unfold readLine at h
  cases hclass : Line.classify engine.settings.marker raw with
  | empty =>
      rw [hclass] at h
      cases h
      rfl
  | comment =>
      rw [hclass] at h
      cases h
      rfl
  | label name =>
      rw [hclass] at h
      simp only at h
      split at h
      · cases h
      · cases h
        rfl
  | other => exact absurd hclass hkind

/-- One line adds the label that it defines, at its index, and no other. -/
theorem get?_readLine {index i : Nat} {labels : Table Nat} {own : σ}
    {raw name : Text}
    (h : (engine.readLine index labels own raw).1.get? name = some i) :
    labels.get? name = some i
      ∨ (i = index ∧ Line.classify engine.settings.marker raw
        = .label name) := by
  unfold readLine at h
  split at h
  · exact .inl h
  · exact .inl h
  next found hclass =>
    split at h
    · exact .inl h
    · rw [Table.get?_insert] at h
      split at h
      next heq =>
        cases h
        rw [heq]
        exact .inr ⟨rfl, hclass⟩
      next => exact .inl h
  · split at h
    · exact .inl h
    · exact .inl h

-- ========================================================== all the lines

/-- Every label that a pass leaves behind was there before or is defined
by one of the lines, at its index. -/
theorem get?_readFrom {name : Text} {i : Nat} :
    ∀ {raws : List Text} {index : Nat} {labels : Table Nat} {own : σ},
      (engine.readFrom index labels own raws).labels.get? name = some i →
      labels.get? name = some i
        ∨ ∃ j raw, i = index + j ∧ raws[j]? = some raw
            ∧ Line.classify engine.settings.marker raw = .label name := by
  intro raws
  induction raws with
  | nil =>
      intro index labels own h
      exact .inl h
  | cons raw rest ih =>
      intro index labels own h
      rw [readFrom_cons] at h
      have hfirst : (engine.readLine index labels own raw).1.get?
          name = some i →
          labels.get? name = some i
            ∨ ∃ j line, i = index + j ∧ (raw :: rest)[j]? = some line
            ∧ Line.classify engine.settings.marker line = .label name := by
        intro hget
        rcases get?_readLine hget with hbefore | ⟨hi, hclass⟩
        · exact .inl hbefore
        · exact .inr ⟨0, raw, hi, rfl, hclass⟩
      split at h
      next labels' own' failure hline =>
        rw [hline] at hfirst
        exact hfirst h
      next labels' own' entry hline =>
        rw [hline] at hfirst
        rcases ih h with hbefore | ⟨j, line, hi, hget, hclass⟩
        · exact hfirst hbefore
        · exact .inr ⟨j + 1, line, by omega, hget, hclass⟩

/-- The lines that a pass leaves behind, one for each line read: where a
label is defined the line is empty. -/
theorem lines_readFrom :
    ∀ {raws lines : List Text} {index : Nat} {labels : Table Nat} {own : σ},
      (engine.readFrom index labels own raws).lines = .ok lines →
      lines.length = raws.length
        ∧ ∀ (j : Nat) (raw : Text), raws[j]? = some raw →
            Line.classify engine.settings.marker raw ≠ .other →
            lines[j]? = some [] := by
  intro raws
  induction raws with
  | nil =>
      intro lines index labels own h
      cases h
      exact ⟨rfl, fun j raw hget => by cases hget⟩
  | cons raw rest ih =>
      intro lines index labels own h
      rw [readFrom_cons] at h
      split at h
      next => cases h
      next labels' own' entry hline =>
        obtain ⟨lines', hrest, rfl⟩ := map_eq_ok_iff.1 h
        obtain ⟨hlength, hempty⟩ := ih hrest
        refine ⟨by simp only [List.length_cons, hlength], ?_⟩
        intro j line hget hkind
        cases j with
        | zero =>
            cases hget
            rw [entry_of_readLine hline hkind]
            rfl
        | succ j => exact hempty j line hget hkind

-- ================================================= a script that is read

/-- Lines without carriage returns and line feeds are the pieces of the
text that they make, if the settings leave the separator open. -/
theorem pieces_unlines (hseparator : engine.settings.separator = none)
    {lines : List Text} (hne : lines ≠ [])
    (h : ∀ line ∈ lines, '\r' ∉ line ∧ '\n' ∉ line) :
    engine.pieces (Text.unlines lines) = lines := by
  have hreturn : '\r' ∉ Text.unlines lines := by
    intro hmem
    rcases Text.mem_intercalate hmem with hfeed | ⟨line, hline, hmem⟩
    · exact absurd hfeed (by decide)
    · exact (h line hline).1 hmem
  have hdetect : engine.settings.separatorFor (Text.unlines lines)
      = ['\n'] := by
    unfold Settings.separatorFor Settings.detectSeparator
    rw [hseparator, Text.contains_eq_false ['\n'] hreturn]
    rfl
  unfold pieces
  rw [hdetect, Text.splitOn_unlines hne fun line hline => (h line hline).2]

/-- A label of a script is the label line at its index. -/
theorem piece_of_label {source name : Text} {own : σ} {i : Nat}
    (h : (engine.read source own).labels.get? name = some i) :
    ∃ raw, (engine.pieces source)[i]? = some raw
      ∧ Line.classify engine.settings.marker raw = .label name := by
  rcases get?_readFrom h with hbefore | ⟨j, raw, hi, hget, hclass⟩
  · cases hbefore
  · have hj : i = j := by omega
    subst hj
    exact ⟨raw, hget, hclass⟩

/-- Two labels of a script are on two lines. -/
theorem label_unique {source name name' : Text} {own : σ} {i : Nat}
    (h : (engine.read source own).labels.get? name = some i)
    (h' : (engine.read source own).labels.get? name' = some i) :
    name = name' := by
  obtain ⟨raw, hget, hclass⟩ := piece_of_label h
  obtain ⟨raw', hget', hclass'⟩ := piece_of_label h'
  rw [hget] at hget'
  cases hget'
  rw [hclass] at hclass'
  cases hclass'
  rfl

/-- In a listing the line of a label is empty. -/
theorem listing_of_label {source name : Text} {own : σ} {listing : Listing}
    {i : Nat} (hlisting : (engine.read source own).listing = .ok listing)
    (h : (engine.read source own).labels.get? name = some i) :
    listing[i]? = some [] := by
  obtain ⟨raw, hget, hclass⟩ := piece_of_label h
  obtain ⟨lines, hlines, rfl⟩ := map_eq_ok_iff.1 hlisting
  have hempty :=
    (lines_readFrom hlines).2 i raw hget (by rw [hclass]; intro heq; cases heq)
  rw [List.getElem?_toArray]
  exact hempty

-- =================================================== the script language

section Script

variable {script : Engine Output}

/-- The script language keeps its own state while a line is read, and
that state has no part in the reading. -/
theorem readLine_own (hs : script.IsScript) (index : Nat) (labels : Table Nat)
    (own own' : Output) (raw : Text) :
    script.readLine index labels own' raw
      = ((script.readLine index labels own raw).1, own',
          (script.readLine index labels own raw).2.2) := by
  unfold readLine
  rw [hs.hook]
  cases Line.classify script.settings.marker raw with
  | empty => rfl
  | comment => rfl
  | label name =>
      simp only
      split
      · rfl
      · rfl
  | other => rfl

/-- A script is read alike whatever was put out before. -/
theorem readFrom_own (hs : script.IsScript) (own own' : Output) :
    ∀ (raws : List Text) (index : Nat) (labels : Table Nat),
      script.readFrom index labels own' raws
        = { script.readFrom index labels own raws with own := own' } := by
  intro raws
  induction raws with
  | nil =>
      intro index labels
      rfl
  | cons raw rest ih =>
      intro index labels
      rw [readFrom_cons, readFrom_cons, readLine_own hs index labels own own',
        readLine_own hs index labels own own]
      rcases script.readLine index labels own raw with ⟨labels', own₁, entry⟩
      cases entry with
      | error failure => rfl
      | ok entry =>
          simp only [Reading.consLine]
          rw [ih (index + 1) labels']

/-- The script language refuses a line for one reason: it defines a label
again. -/
theorem refusal_of_readFrom (hs : script.IsScript) {failure : Failure} :
    ∀ {raws : List Text} {index : Nat} {labels : Table Nat} {own : Output},
      (script.readFrom index labels own raws).lines = .error failure →
      ∃ site name, failure = .preprocessing site (.labelDefined name) := by
  intro raws
  induction raws with
  | nil =>
      intro index labels own h
      cases h
  | cons raw rest ih =>
      intro index labels own h
      rw [readFrom_cons] at h
      split at h
      next labels' own' failure' hline =>
        cases h
        unfold readLine at hline
        rw [hs.hook] at hline
        split at hline
        · cases hline
        · cases hline
        next name hclass =>
          split at hline
          · cases hline
            exact ⟨_, name, rfl⟩
          · cases hline
        · cases hline
      next labels' own' entry hline =>
        exact ih (map_eq_error_iff.1 h)

end Script

end Engine

end LineScript
