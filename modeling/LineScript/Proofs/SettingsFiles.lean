/-
Settings files are read line by line, with no cross-talk.

A line says one of four things, and which one is a matter of the line
alone (`readLine_parts`): nothing, since it is blank or a comment; a
value for a key; or one of the faults of lines (`Faulty`). Reading goes
over the lines with two results that do not look at one another: the
settings as they are so far, and the complaints. So the settings are those
given last (`value_settle`), the complaints are one for each faulty line,
in order (`mem_complaintsFrom_iff`), and both come apart where the lines
do.

The three keys are treated alike throughout. What a value for a key is,
where it stands in the settings and how it is written are functions of
the key, and every statement here is about any key.
-/
import LineScript.Proofs.Lexing
import LineScript.Proofs.Literals
import LineScript.Settings.File

set_option autoImplicit false

namespace LineScript

-- ====================================================== lines of a text

namespace Text

variable {mark : Char}

/-- A text has one line more than it has line feeds. -/
theorem length_splitOn_singleton (mark : Char) (text : Text) :
    (splitOn [mark] text).length = text.count mark + 1 := by
  rw [splitOn_singleton]
  induction text with
  | nil => rfl
  | cons c rest ih =>
      rw [List.splitOn_cons_eq_if_modifyHead, List.count_cons]
      split
      · rw [List.length_cons, ih]
      · rw [List.length_modifyHead, ih, Nat.add_zero]

/-- No piece has the character in it that the text was cut at. -/
theorem not_mem_of_mem_splitOn {text piece : Text}
    (h : piece ∈ splitOn [mark] text) :
    mark ∉ piece := by
  rw [splitOn_singleton] at h
  induction text generalizing piece with
  | nil =>
      rw [List.splitOn_nil, List.mem_singleton] at h
      subst h
      exact List.not_mem_nil
  | cons c rest ih =>
      rw [List.splitOn_cons_eq_if_modifyHead] at h
      split at h
      · rcases List.mem_cons.1 h with rfl | hrest
        · exact List.not_mem_nil
        · exact ih hrest
      next hc =>
        cases hsplit : List.splitOn mark rest with
        | nil => exact absurd hsplit (List.splitOn_ne_nil mark rest)
        | cons first pieces =>
            rw [hsplit, List.modifyHead_cons, List.mem_cons] at h
            rcases h with rfl | hlater
            · have hfirst : mark ∉ first :=
                ih (by rw [hsplit]; exact List.mem_cons_self)
              have hne : mark ≠ c := fun heq => hc (by rw [heq]; exact BEq.rfl)
              exact List.not_mem_cons_of_ne_of_not_mem hne hfirst
            · exact ih (by rw [hsplit]; exact List.mem_cons_of_mem _ hlater)

/-- Lines of two texts with a line feed between. -/
theorem splitOn_append_cons (a b : Text) :
    splitOn [mark] (a ++ mark :: b)
      = splitOn [mark] a ++ splitOn [mark] b := by
  rw [splitOn_singleton, splitOn_singleton, splitOn_singleton]
  exact List.splitOn_append_cons_self a b

theorem splitAtFirst?_eq_none {text : Text} (h : mark ∉ text) :
    splitAtFirst? mark text = none := by
  induction text with
  | nil => rfl
  | cons c rest ih =>
      obtain ⟨hc, hrest⟩ := List.ne_and_not_mem_of_not_mem_cons h
      rw [splitAtFirst?, if_neg (Ne.symm hc), ih hrest]
      rfl

end Text

namespace Settings

-- ================================================ statement vocabulary

/-- What settings are about. -/
inductive Key where
  | comment
  | separator
  | extension
  deriving DecidableEq

namespace Key

/-- A key as it is written. -/
def name : Key → Text
  | .comment => "comment".toList
  | .separator => "separator".toList
  | .extension => "extension".toList

/-- What settings hold for a key. -/
def Value : Key → Type
  | .comment => Text
  | .separator => Option Text
  | .extension => Text

/-- The value that is written for a key; `none` if it is refused. -/
def value? : (key : Key) → Text → Option key.Value
  | .comment, text => some text
  | .separator, text => separatorNamed? text
  | .extension, text => some text

/-- The entry that gives a value for a key. -/
def entry : (key : Key) → key.Value → Entry
  | .comment, value => .marker value
  | .separator, value => .separator value
  | .extension, value => .suffix value

end Key

/-- What settings hold for a key. -/
def value (settings : Settings) : (key : Key) → key.Value
  | .comment => settings.marker
  | .separator => settings.separator
  | .extension => settings.suffix

/-- A line that is neither blank nor a comment. -/
structure Speaks (raw : Text) : Prop where
  ne_nil : Text.trim raw ≠ []
  hash : (Text.trim raw).head? ≠ some '#'
  semicolon : (Text.trim raw).head? ≠ some ';'

/-- A line of the form `word = text`: the first equals sign is between
the two, and white space around them does not count. -/
def Assigns (raw word text : Text) : Prop :=
  Speaks raw ∧ ∃ before after, Text.trim raw = before ++ '=' :: after
    ∧ '=' ∉ before
    ∧ Text.trim before = word ∧ Text.trim after = text

/-- A line that gives a value for a key. -/
def Gives (key : Key) (raw : Text) (value : key.Value) : Prop :=
  ∃ text, Assigns raw key.name text ∧ key.value? text = some value

/-- A line that cannot be understood, and why. -/
inductive Faulty (raw : Text) : LineFault → Prop
  | noEquals (h : Speaks raw) (hno : '=' ∉ Text.trim raw) :
      Faulty raw (.noEquals (Text.trim raw))
  | unknownKey {word text : Text} (h : Assigns raw word text)
      (hword : ∀ key : Key, word ≠ key.name) : Faulty raw (.unknownKey word)
  | emptySeparator (h : Assigns raw Key.separator.name []) :
      Faulty raw .emptySeparator

/-- The value that the last line with one for a key gives. -/
def LastGiven (key : Key) (raws : List Text) (value : key.Value) : Prop :=
  ∃ front raw back, raws = front ++ raw :: back ∧ Gives key raw value
    ∧ ∀ later ∈ back, ∀ other, ¬ Gives key later other

/-- No line gives a value for a key. -/
def GivenNowhere (key : Key) (raws : List Text) : Prop :=
  ∀ raw ∈ raws, ∀ value, ¬ Gives key raw value

/-- The lines of a settings file. -/
def fileLines (text : Text) : List Text := Text.splitOn ['\n'] text

/-- A complaint about a line that is further down. -/
def Complaint.below (lines : Nat) (complaint : Complaint) : Complaint :=
  { complaint with line := complaint.line + lines }

-- ============================================================= one line

variable {raw word text : Text} {key : Key}

theorem Key.name_injective {key key' : Key} (h : key.name = key'.name) :
    key = key' := by
  cases key <;> cases key' <;> revert h <;> decide

/-- Only the empty text is refused as a separator, and no text names the
empty one. -/
theorem separatorNamed?_parts (text : Text) :
    (text = [] ∧ separatorNamed? text = none)
      ∨ text ≠ [] ∧ ∃ separator, separatorNamed? text = some separator
        ∧ separator ≠ some [] := by
  have hreplace : ∀ {c d : Char} {spelled : Text}, spelled ≠ [] →
      Text.replace ['\\', c] [d] spelled ≠ [] := by
    intro c d spelled hne
    cases spelled with
    | nil => exact absurd rfl hne
    | cons first rest =>
        unfold Text.replace
        rw [Text.replaceFrom]
        split
        · exact List.cons_ne_nil _ _
        · exact List.cons_ne_nil _ _
  by_cases hne : text = []
  · subst hne
    exact .inl ⟨rfl, rfl⟩
  · refine .inr ⟨hne, ?_⟩
    unfold separatorNamed?
    simp only [List.isEmpty_iff, hreplace (hreplace hne), if_false]
    split
    · exact ⟨none, rfl, by simp⟩
    · split
      · exact ⟨_, rfl, by simp⟩
      · split
        · exact ⟨_, rfl, by simp⟩
        · split
          · exact ⟨_, rfl, by simp⟩
          · exact ⟨_, rfl, fun heq =>
              hreplace (hreplace hne) (Option.some.inj heq)⟩

/-- The only value that is refused is an empty separator. -/
theorem Key.value?_eq_none_iff :
    key.value? text = none ↔ key = .separator ∧ text = [] := by
  cases key with
  | comment => simp [value?]
  | extension => simp [value?]
  | separator =>
      rcases separatorNamed?_parts text with ⟨hempty, hnone⟩
        | ⟨hne, separator, hsome, -⟩
      · exact ⟨fun _ => ⟨rfl, hempty⟩, fun _ => hnone⟩
      · exact ⟨fun h => absurd (h.symm.trans hsome) nofun,
          fun h => absurd h.2 hne⟩

/-- A line assigns one text to one word. -/
theorem Assigns.unique {word' text' : Text} (h : Assigns raw word text)
    (h' : Assigns raw word' text') : word = word' ∧ text = text' := by
  obtain ⟨-, before, after, hline, hbefore, rfl, rfl⟩ := h
  obtain ⟨-, before', after', hline', hbefore', rfl, rfl⟩ := h'
  have hsplit := Text.splitAtFirst?_append hbefore after
  rw [← hline, hline', Text.splitAtFirst?_append hbefore'] at hsplit
  cases hsplit
  exact ⟨rfl, rfl⟩

theorem readLine_of_not_speaks (h : ¬ Speaks raw) :
    readLine raw = .silent := by
  unfold readLine
  cases hline : Text.trim raw with
  | nil => rfl
  | cons c rest =>
      simp only
      split
      · rfl
      next hc =>
        rw [not_or] at hc
        refine absurd ⟨?_, ?_, ?_⟩ h
        · rw [hline]
          exact List.cons_ne_nil _ _
        · rw [hline]
          exact fun heq => hc.1 (Option.some.inj heq)
        · rw [hline]
          exact fun heq => hc.2 (Option.some.inj heq)

/-- What a line that speaks says is what is on the two sides of its first
equals sign. -/
theorem readLine_of_speaks (h : Speaks raw) :
    readLine raw = match Text.splitAtFirst? '=' (Text.trim raw) with
      | none => .faulty (.noEquals (Text.trim raw))
      | some (before, after) =>
        let key := Text.trim before
        let value := Text.trim after
        if key = "comment".toList then .marker value
        else if key = "extension".toList then .suffix value
        else if key = "separator".toList then
          match separatorNamed? value with
          | some separator => .separator separator
          | none => .faulty .emptySeparator
        else .faulty (.unknownKey key) := by
  obtain ⟨hne, hhash, hsemicolon⟩ := h
  unfold readLine
  cases hline : Text.trim raw with
  | nil => exact absurd hline hne
  | cons c rest =>
      rw [hline] at hhash hsemicolon
      have hc : ¬ (c = '#' ∨ c = ';') := by
        rintro (rfl | rfl)
        · exact hhash rfl
        · exact hsemicolon rfl
      exact if_neg hc

theorem readLine_of_no_equals (h : Speaks raw) (hno : '=' ∉ Text.trim raw) :
    readLine raw = .faulty (.noEquals (Text.trim raw)) := by
  rw [readLine_of_speaks h, Text.splitAtFirst?_eq_none hno]

theorem readLine_of_assigns (h : Assigns raw key.name text) :
    readLine raw = (key.value? text).elim (.faulty .emptySeparator)
      key.entry := by
  obtain ⟨hspeaks, before, after, hline, hbefore, hword, rfl⟩ := h
  rw [readLine_of_speaks hspeaks, hline, Text.splitAtFirst?_append hbefore]
  simp only [hword]
  cases key with
  | comment => exact if_pos rfl
  | extension => exact (if_neg (by decide)).trans (if_pos rfl)
  | separator =>
      refine (if_neg (by decide)).trans
        ((if_neg (by decide)).trans ((if_pos rfl).trans ?_))
      rw [Key.value?]
      cases separatorNamed? (Text.trim after) with
      | none => rfl
      | some separator => rfl

theorem readLine_of_unknown (h : Assigns raw word text)
    (hword : ∀ key : Key, word ≠ key.name) :
    readLine raw = .faulty (.unknownKey word) := by
  obtain ⟨hspeaks, before, after, hline, hbefore, rfl, rfl⟩ := h
  rw [readLine_of_speaks hspeaks, hline, Text.splitAtFirst?_append hbefore]
  have hcomment : Text.trim before ≠ "comment".toList := hword .comment
  have hextension : Text.trim before ≠ "extension".toList := hword .extension
  have hseparator : Text.trim before ≠ "separator".toList := hword .separator
  simp only [hcomment, hextension, hseparator, if_false]

theorem readLine_of_faulty {fault : LineFault} (h : Faulty raw fault) :
    readLine raw = .faulty fault := by
  cases h with
  | noEquals h hno => exact readLine_of_no_equals h hno
  | unknownKey h hword => exact readLine_of_unknown h hword
  | emptySeparator h =>
      rw [readLine_of_assigns h, Key.value?_eq_none_iff.2 ⟨rfl, rfl⟩]
      rfl

theorem readLine_of_gives {value : key.Value} (h : Gives key raw value) :
    readLine raw = key.entry value := by
  obtain ⟨text, hassigns, hvalue⟩ := h
  rw [readLine_of_assigns hassigns, hvalue]
  rfl

/-- What a line says: nothing, a value for a key, or that it cannot be
understood. -/
theorem readLine_parts (raw : Text) :
    (¬ Speaks raw ∧ readLine raw = .silent)
      ∨ (∃ fault, Faulty raw fault ∧ readLine raw = .faulty fault)
      ∨ ∃ (key : Key) (value : key.Value),
        Gives key raw value ∧ readLine raw = key.entry value := by
  by_cases hspeaks : Speaks raw
  · by_cases hequals : '=' ∈ Text.trim raw
    · obtain ⟨before, after, hline, hbefore⟩ :=
        List.eq_append_cons_of_mem hequals
      have hassigns : Assigns raw (Text.trim before) (Text.trim after) :=
        ⟨hspeaks, before, after, hline, hbefore, rfl, rfl⟩
      by_cases hword : ∀ key : Key, Text.trim before ≠ key.name
      · have hfaulty := Faulty.unknownKey hassigns hword
        exact .inr (.inl ⟨_, hfaulty, readLine_of_faulty hfaulty⟩)
      · simp only [not_forall, Decidable.not_not] at hword
        obtain ⟨key, hkey⟩ := hword
        rw [hkey] at hassigns
        cases hvalue : key.value? (Text.trim after) with
        | some value =>
            have hgives : Gives key raw value := ⟨_, hassigns, hvalue⟩
            exact .inr (.inr ⟨key, value, hgives, readLine_of_gives hgives⟩)
        | none =>
            obtain ⟨rfl, hempty⟩ := Key.value?_eq_none_iff.1 hvalue
            rw [hempty] at hassigns
            have hfaulty := Faulty.emptySeparator hassigns
            exact .inr (.inl ⟨_, hfaulty, readLine_of_faulty hfaulty⟩)
    · have hfaulty := Faulty.noEquals hspeaks hequals
      exact .inr (.inl ⟨_, hfaulty, readLine_of_faulty hfaulty⟩)
  · exact .inl ⟨hspeaks, readLine_of_not_speaks hspeaks⟩

-- ========================================================= all the lines

variable {settings : Settings} {raws : List Text} {line : Nat}

/-- A line gives one value for one key at most. -/
theorem Gives.unique {key' : Key} {value : key.Value} {value' : key'.Value}
    (h : Gives key raw value) (h' : Gives key' raw value') :
    key = key' ∧ HEq value value' := by
  obtain ⟨text, hassigns, hvalue⟩ := h
  obtain ⟨text', hassigns', hvalue'⟩ := h'
  obtain ⟨hname, rfl⟩ := hassigns.unique hassigns'
  obtain rfl := Key.name_injective hname
  rw [hvalue] at hvalue'
  exact ⟨rfl, heq_of_eq (Option.some.inj hvalue')⟩

/-- A line that gives a value can be understood. -/
theorem Gives.not_faulty {value : key.Value} {fault : LineFault}
    (h : Gives key raw value) :
    ¬ Faulty raw fault := by
  intro hfaulty
  have hline := (readLine_of_gives h).symm.trans (readLine_of_faulty hfaulty)
  cases key <;> cases hline

/-- The settings behind some lines. -/
def settle (settings : Settings) (raws : List Text) : Settings :=
  raws.foldl (fun settings raw => settings.apply (readLine raw)) settings

/-- The complaint about a line, if there is one. -/
def complaint? (line : Nat) (raw : Text) : Option Complaint :=
  match readLine raw with
  | .faulty fault => some ⟨line, fault⟩
  | _ => none

/-- The complaints about lines, the first of them having the number
`line`. -/
def complaints (line : Nat) : List Text → List Complaint
  | [] => []
  | raw :: rest => (complaint? line raw).toList ++ complaints (line + 1) rest

/-- The two results of reading do not look at one another. -/
theorem readLines_eq (settings : Settings) (line : Nat) (raws : List Text) :
    readLines settings line raws
      = (settings.settle raws, complaints line raws) := by
  induction raws generalizing settings line with
  | nil => rfl
  | cons raw rest ih =>
      have hsettle : settings.settle (raw :: rest)
          = (settings.apply (readLine raw)).settle rest := rfl
      rw [readLines, ih, hsettle, complaints, complaint?]
      cases readLine raw <;> rfl

theorem ofFile_eq (text : Text) :
    ofFile text
      = (settle {} (fileLines text), complaints 1 (fileLines text)) :=
  readLines_eq {} 1 (fileLines text)

-- ============================================================= settings

theorem value_apply_entry_self (settings : Settings) (value : key.Value) :
    (settings.apply (key.entry value)).value key = value := by
  cases key <;> rfl

theorem value_apply_entry_of_ne (settings : Settings) {key' : Key}
    (value : key.Value) (h : key' ≠ key) :
    (settings.apply (key.entry value)).value key' = settings.value key' := by
  cases key with
  | comment =>
      cases key' with
      | comment => exact absurd rfl h
      | separator => rfl
      | extension => rfl
  | separator =>
      cases key' with
      | comment => rfl
      | separator => exact absurd rfl h
      | extension => rfl
  | extension =>
      cases key' with
      | comment => rfl
      | separator => rfl
      | extension => exact absurd rfl h

/-- What a line does to the value for a key: it puts its own in the
place, or leaves it. -/
theorem value_apply_readLine (key : Key) (raw : Text) :
    (∃ value, Gives key raw value ∧ ∀ settings : Settings,
        (settings.apply (readLine raw)).value key = value)
      ∨ (∀ value, ¬ Gives key raw value) ∧ ∀ settings : Settings,
        (settings.apply (readLine raw)).value key = settings.value key := by
  rcases readLine_parts raw with
    ⟨hsilent, hline⟩ | ⟨fault, hfaulty, hline⟩ | ⟨key', value, hgives, hline⟩
  · refine .inr ⟨fun value hgives => ?_, fun settings => by rw [hline]; rfl⟩
    obtain ⟨text, ⟨hspeaks, -⟩, -⟩ := hgives
    exact hsilent hspeaks
  · exact .inr ⟨fun value hgives => hgives.not_faulty hfaulty,
      fun settings => by rw [hline]; rfl⟩
  · rw [hline]
    by_cases hkey : key = key'
    · subst hkey
      exact .inl
        ⟨value, hgives, fun settings => value_apply_entry_self settings value⟩
    · refine .inr
        ⟨fun other hother => hkey (hother.unique hgives).1, fun settings => ?_⟩
      exact value_apply_entry_of_ne settings value hkey

/-- The value that some lines leave for a key: what the last line with one
gives, whatever was there before, or what was there before. -/
theorem value_settle (key : Key) (raws : List Text) :
    (∃ value, LastGiven key raws value ∧ ∀ settings : Settings,
        (settings.settle raws).value key = value)
      ∨ GivenNowhere key raws ∧ ∀ settings : Settings,
        (settings.settle raws).value key = settings.value key := by
  induction raws with
  | nil =>
      exact .inr ⟨fun raw hraw => absurd hraw List.not_mem_nil, fun _ => rfl⟩
  | cons raw rest ih =>
      rcases ih with ⟨value, ⟨front, last, back, rfl, hlast⟩, hvalue⟩
        | ⟨hnowhere, hkept⟩
      · exact .inl
          ⟨value, ⟨raw :: front, last, back, rfl, hlast⟩, fun _ => hvalue _⟩
      · rcases value_apply_readLine key raw with ⟨value, hgives, hvalue⟩
          | ⟨hnot, hsame⟩
        · refine .inl
            ⟨value, ⟨[], raw, rest, rfl, hgives, hnowhere⟩, fun settings => ?_⟩
          exact (hkept _).trans (hvalue settings)
        · refine .inr
            ⟨List.forall_mem_cons.2 ⟨hnot, hnowhere⟩, fun settings => ?_⟩
          exact (hkept _).trans (hsame settings)

-- =========================================================== complaints

theorem complaint?_eq_some_iff {complaint : Complaint} :
    complaint? line raw = some complaint
      ↔ complaint.line = line ∧ Faulty raw complaint.fault := by
  obtain ⟨number, fault⟩ := complaint
  unfold complaint?
  constructor
  · intro h
    rcases readLine_parts raw with ⟨-, hline⟩ | ⟨fault', hfaulty, hline⟩
      | ⟨key, value, -, hline⟩
    · rw [hline] at h
      cases h
    · rw [hline] at h
      cases h
      exact ⟨rfl, hfaulty⟩
    · rw [hline] at h
      cases key <;> cases h
  · rintro ⟨rfl, hfaulty⟩
    rw [readLine_of_faulty hfaulty]

theorem mem_complaints_iff {number : Nat} {fault : LineFault} :
    ⟨number, fault⟩ ∈ complaints line raws
      ↔ ∃ i raw, number = line + i ∧ raws[i]? = some raw
        ∧ Faulty raw fault := by
  induction raws generalizing line with
  | nil => simp [complaints]
  | cons raw rest ih =>
      rw [complaints, List.mem_append, Option.mem_toList,
        complaint?_eq_some_iff, ih]
      constructor
      · rintro (⟨hnumber, hfaulty⟩ | ⟨i, later, hnumber, hget, hfaulty⟩)
        · exact ⟨0, raw, hnumber, rfl, hfaulty⟩
        · exact ⟨i + 1, later, by omega, hget, hfaulty⟩
      · rintro ⟨i, found, hnumber, hget, hfaulty⟩
        cases i with
        | zero =>
            cases hget
            exact .inl ⟨hnumber, hfaulty⟩
        | succ i => exact .inr ⟨i, found, by omega, hget, hfaulty⟩

/-- Complaints are about the lines that are read. -/
theorem line_of_mem_complaints {complaint : Complaint}
    (h : complaint ∈ complaints line raws) :
    line ≤ complaint.line ∧ complaint.line < line + raws.length := by
  obtain ⟨i, raw, hline, hget, -⟩ := mem_complaints_iff.1 h
  have hi : i < raws.length := (List.getElem?_eq_some_iff.1 hget).1
  omega

theorem pairwise_complaints (line : Nat) (raws : List Text) :
    (complaints line raws).Pairwise fun a b => a.line < b.line := by
  induction raws generalizing line with
  | nil => exact List.Pairwise.nil
  | cons raw rest ih =>
      rw [complaints, List.pairwise_append]
      refine ⟨by cases complaint? line raw <;> simp, ih (line + 1), ?_⟩
      intro first hfirst later hlater
      have hline := (complaint?_eq_some_iff.1 (Option.mem_toList.1 hfirst)).1
      have hbelow := (line_of_mem_complaints hlater).1
      omega

theorem complaints_append (line : Nat) (a b : List Text) :
    complaints line (a ++ b)
      = complaints line a ++ complaints (line + a.length) b := by
  induction a generalizing line with
  | nil => rfl
  | cons raw rest ih =>
      have hline : line + 1 + rest.length = line + (raw :: rest).length := by
        rw [List.length_cons]
        omega
      rw [List.cons_append, complaints, complaints, ih, hline,
        List.append_assoc]

/-- Lines further down are complained about further down. -/
theorem complaints_below (line lines : Nat) (raws : List Text) :
    complaints (line + lines) raws
      = (complaints line raws).map (Complaint.below lines) := by
  induction raws generalizing line with
  | nil => rfl
  | cons raw rest ih =>
      have hfirst : complaint? (line + lines) raw
          = (complaint? line raw).map (Complaint.below lines) := by
        unfold complaint?
        cases readLine raw <;> rfl
      rw [complaints, complaints, Nat.add_right_comm, ih, hfirst,
        List.map_append]
      cases complaint? line raw <;> rfl

-- ====================================================== a line blanked

theorem not_speaks_of_blank (h : Text.isAllBlank raw = true) :
    ¬ Speaks raw := by
  intro hspeaks
  apply hspeaks.ne_nil
  unfold Text.trim
  rw [Text.trimStart_eq_nil_iff.2 h, Text.trimEnd_nil]

/-- A line that gives no value leaves the settings. -/
theorem apply_readLine_of_idle (h : ¬ Speaks raw ∨ ∃ fault, Faulty raw fault) :
    settings.apply (readLine raw) = settings := by
  rcases h with hsilent | ⟨fault, hfaulty⟩
  · rw [readLine_of_not_speaks hsilent]
    rfl
  · rw [readLine_of_faulty hfaulty]
    rfl

theorem settle_append (settings : Settings) (a b : List Text) :
    settings.settle (a ++ b) = (settings.settle a).settle b :=
  List.foldl_append

theorem settle_cons_of_idle (h : ¬ Speaks raw ∨ ∃ fault, Faulty raw fault)
    (rest : List Text) :
    settings.settle (raw :: rest) = settings.settle rest :=
  congrArg (settle · rest) (apply_readLine_of_idle h)

/-- With white space in the place of a line that gives no value, the
settings are the same, and so are the complaints about the other lines. -/
theorem readLines_blanked (settings : Settings) (line : Nat)
    (front back : List Text) {blanks : Text}
    (hidle : ¬ Speaks raw ∨ ∃ fault, Faulty raw fault)
    (hblank : Text.isAllBlank blanks = true) :
    settings.settle (front ++ blanks :: back)
      = settings.settle (front ++ raw :: back)
      ∧ complaints line (front ++ blanks :: back)
          = (complaints line (front ++ raw :: back)).filter
              fun complaint => complaint.line ≠ line + front.length := by
  have hsilent := not_speaks_of_blank hblank
  constructor
  · rw [settle_append, settle_append, settle_cons_of_idle hidle,
      settle_cons_of_idle (.inl hsilent)]
  · have hnone : complaint? (line + front.length) blanks = none := by
      unfold complaint?
      rw [readLine_of_not_speaks hsilent]
    have hfront : (complaints line front).filter
        (fun complaint => decide (complaint.line ≠ line + front.length))
          = complaints line front := by
      refine List.filter_eq_self.2 fun complaint hmem => decide_eq_true ?_
      have hline := (line_of_mem_complaints hmem).2
      omega
    have hline : (complaint? (line + front.length) raw).toList.filter
        (fun complaint => decide (complaint.line ≠ line + front.length))
          = [] := by
      refine List.filter_eq_nil_iff.2 fun complaint hmem => ?_
      rw [(complaint?_eq_some_iff.1 (Option.mem_toList.1 hmem)).1]
      simp
    have hback : (complaints (line + front.length + 1) back).filter
        (fun complaint => decide (complaint.line ≠ line + front.length))
          = complaints (line + front.length + 1) back := by
      refine List.filter_eq_self.2 fun complaint hmem => decide_eq_true ?_
      have hline := (line_of_mem_complaints hmem).1
      omega
    rw [complaints_append, complaints_append, complaints, complaints, hnone,
      List.filter_append, List.filter_append, hfront, hline, hback]
    rfl

-- ================================================================ files

/-- The settings of a file that goes on behind a text, for one key: as
the continuation gives it, or as it was. -/
structure Overlaid (key : Key) (raws : List Text)
    (before after both : key.Value) : Prop where
  given : ¬ GivenNowhere key raws → both = after
  kept : GivenNowhere key raws → both = before

theorem overlaid_settle (key : Key) (settings : Settings) (a b : List Text) :
    Overlaid key b ((settings.settle a).value key)
      ((settings.settle b).value key)
      ((settings.settle (a ++ b)).value key) := by
  rw [settle_append]
  rcases value_settle key b with
    ⟨value, ⟨front, raw, back, rfl, hgives, -⟩, hvalue⟩ | ⟨hnowhere, hkept⟩
  · refine ⟨fun _ => (hvalue _).trans (hvalue settings).symm,
      fun hnowhere => ?_⟩
    exact absurd hgives
      (hnowhere raw (List.mem_append_right _ List.mem_cons_self) value)
  · exact ⟨fun hgiven => absurd hnowhere hgiven, fun _ => hkept _⟩

/-- No file names an empty separator. -/
theorem separator_settle (raws : List Text) :
    (settle {} raws).separator ≠ some [] := by
  rcases value_settle .separator
    raws with ⟨value, ⟨_, raw, _, -, hgives, -⟩, hvalue⟩ | ⟨-, hkept⟩
  · obtain ⟨text, -, hread⟩ := hgives
    have hseparator : (settle {} raws).separator = value := hvalue {}
    rcases separatorNamed?_parts text with ⟨-, hnone⟩
      | ⟨-, separator, hsome, hne⟩
    · exact absurd (hread.symm.trans hnone) nofun
    · rw [hseparator, ← Option.some.inj (hsome.symm.trans hread)]
      exact hne
  · have hseparator : (settle {} raws).separator = none := hkept {}
    rw [hseparator]
    exact nofun

/-- What a file's settings hold and settings by default do not was given
last. -/
theorem lastGiven_of_value {value : key.Value}
    (h : (settle {} raws).value key = value)
    (hne : value ≠ ({} : Settings).value key) : LastGiven key raws value := by
  rcases value_settle key raws with ⟨value', hlast, hvalue⟩ | ⟨-, hkept⟩
  · rw [← h, hvalue {}]
    exact hlast
  · exact absurd (h.symm.trans (hkept {})) hne

/-- What is at fault in the settings of a file, if anything is, is the
last value for the marker or for the suffix. -/
theorem fault?_settle {fault : SettingsFault}
    (h : (settle {} raws).fault? = some fault) :
    (fault = .emptyMarker ∧ LastGiven .comment raws [])
      ∨ (fault = .labelMarker ∧ ∃ rest, LastGiven .comment raws (':' :: rest))
      ∨ fault = .emptySuffix ∧ LastGiven .extension raws [] := by
  unfold fault? at h
  simp only [List.isEmpty_iff] at h
  split at h
  next hmarker =>
    cases h
    exact .inl ⟨rfl, lastGiven_of_value hmarker (List.cons_ne_nil _ _).symm⟩
  next =>
    split at h
    next hhead =>
      cases h
      obtain ⟨rest, hmarker⟩ := List.head?_eq_some_iff.1 hhead
      refine .inr (.inl ⟨rfl, rest, lastGiven_of_value hmarker ?_⟩)
      intro heq
      exact absurd (List.cons.inj heq).1 (by decide)
    next =>
      rw [if_neg (separator_settle raws)] at h
      split at h
      next hsuffix =>
        cases h
        exact .inr
          (.inr ⟨rfl, lastGiven_of_value hsuffix (List.cons_ne_nil _ _).symm⟩)
      next => cases h

/-- Settings files are read line by line, with no cross-talk.

- Complaints are in ascending order of lines, one a line at most, and they
  are about the lines that speak and have no equals sign, an unknown key,
  or no text for a separator.
- For each key the settings hold what the last line with a value for it
  gives, or by default what settings hold if there is none.
- White space in the place of a line that is blank, a comment or faulty
  changes neither the settings nor the complaints about other lines.
- Where a text goes on behind a line feed, what the continuation gives is
  laid over what was given before, and its complaints come behind the
  others, further down by as many lines as there are above.
- Settings from a file have a fault only by the last marker, which is empty
  or begins with a colon, or by the last suffix, which is empty. -/
theorem ofFile_line_by_line (text : Text) :
    ((ofFile text).2.Pairwise fun a b => a.line < b.line)
      ∧ (∀ number fault, ⟨number, fault⟩ ∈ (ofFile text).2
          ↔ ∃ i raw, number = i + 1 ∧ (fileLines text)[i]? = some raw
            ∧ Faulty raw fault)
      ∧ (∀ key, LastGiven key (fileLines text) ((ofFile text).1.value key)
          ∨ GivenNowhere key (fileLines text)
            ∧ (ofFile text).1.value key = ({} : Settings).value key)
      ∧ (∀ i raw blanks, (fileLines text)[i]? = some raw →
          (¬ Speaks raw ∨ ∃ fault, Faulty raw fault) →
          Text.isAllBlank blanks = true → '\n' ∉ blanks →
          ofFile (Text.unlines ((fileLines text).set i blanks))
            = ((ofFile text).1,
              (ofFile text).2.filter fun complaint => complaint.line ≠ i + 1))
      ∧ (∀ after,
          (∀ key, Overlaid key (fileLines after) ((ofFile text).1.value key)
            ((ofFile after).1.value key)
            ((ofFile (text ++ '\n' :: after)).1.value key))
          ∧ (ofFile (text ++ '\n' :: after)).2
              = (ofFile text).2 ++ (ofFile after).2.map
                (Complaint.below (text.count '\n' + 1)))
      ∧ (ofFile text).1.separator ≠ some []
      ∧ ∀ fault, (ofFile text).1.fault? = some fault →
          (fault = .emptyMarker ∧ LastGiven .comment (fileLines text) [])
            ∨ (fault = .labelMarker
              ∧ ∃ rest, LastGiven .comment (fileLines text) (':' :: rest))
            ∨ fault = .emptySuffix
              ∧ LastGiven .extension (fileLines text) [] := by
  rw [ofFile_eq]
  refine ⟨pairwise_complaints 1 _, ?_, ?_, ?_, ?_, separator_settle _,
    fun fault => fault?_settle⟩
  · intro number fault
    rw [mem_complaints_iff]
    simp only [Nat.add_comm 1]
  · intro key
    rcases value_settle key (fileLines text) with ⟨value, hlast, hvalue⟩
      | ⟨hnowhere, hkept⟩
    · refine .inl ?_
      rw [hvalue {}]
      exact hlast
    · exact .inr ⟨hnowhere, hkept {}⟩
  · intro i raw blanks hraw hidle hblank hfeed
    obtain ⟨hi, hget⟩ := List.getElem?_eq_some_iff.1 hraw
    have hlines : fileLines (Text.unlines ((fileLines text).set i blanks))
        = (fileLines text).set i blanks := by
      refine Text.splitOn_unlines ?_ ?_
      · rw [Ne, List.set_eq_nil_iff]
        exact Text.splitOn_ne_nil _ _
      · intro line hline
        rcases List.mem_or_eq_of_mem_set hline with hold | rfl
        · exact Text.not_mem_of_mem_splitOn hold
        · exact hfeed
    have hfront : ((fileLines text).take i).length = i :=
      List.length_take_of_le (Nat.le_of_lt hi)
    have hset :=
      List.set_eq_take_append_cons_drop (l := fileLines text) (i := i)
        (a := blanks)
    have hsame : fileLines text
        = (fileLines text).take i ++ raw :: (fileLines text).drop (i + 1) := by
      rw [← hget, List.getElem_cons_drop, List.take_append_drop]
    rw [if_pos hi] at hset
    obtain ⟨hsettle, hcomplaints⟩ :=
      readLines_blanked {} 1 ((fileLines text).take i)
      ((fileLines text).drop (i + 1)) hidle hblank
    rw [ofFile_eq, hlines, hset, hsettle, hcomplaints, ← hsame, hfront]
    simp only [Nat.add_comm 1]
  · intro after
    have hboth : fileLines (text ++ '\n' :: after)
        = fileLines text ++ fileLines after :=
      Text.splitOn_append_cons text after
    have hlength : (fileLines text).length = text.count '\n' + 1 :=
      Text.length_splitOn_singleton '\n' text
    rw [ofFile_eq, ofFile_eq, hboth]
    refine ⟨fun key => overlaid_settle key {} _ _, ?_⟩
    rw [complaints_append, complaints_below, hlength]

/-- For instance, a file with two faulty lines and two markers, of which
the second is no marker to work with. -/
theorem ofFile_line_by_line_of_two_markers :
    ofFile "comment = //\nbogus\n; no\ncomment = :x\nseparator =".toList
        = ({ marker := ":x".toList },
          [⟨2, .noEquals "bogus".toList⟩, ⟨5, .emptySeparator⟩])
      ∧ ofFile (Text.unlines ((fileLines
          "comment = //\nbogus\n; no\ncomment = :x\nseparator =".toList).set 1
          "\r".toList))
          = ({ marker := ":x".toList }, [⟨5, .emptySeparator⟩])
      ∧ ({ marker := ":x".toList } : Settings).fault? = some .labelMarker
      ∧ ∃ rest, LastGiven .comment
          (fileLines
            "comment = //\nbogus\n; no\ncomment = :x\nseparator =".toList)
          (':' :: rest) := by
  have hfile :
      ofFile "comment = //\nbogus\n; no\ncomment = :x\nseparator =".toList
        = ({ marker := ":x".toList },
          [⟨2, .noEquals "bogus".toList⟩, ⟨5, .emptySeparator⟩]) := by
    decide
  obtain ⟨-, hmem, -, hblanked, -, -, hfault⟩ :=
    ofFile_line_by_line
      "comment = //\nbogus\n; no\ncomment = :x\nseparator =".toList
  rw [hfile] at hmem hblanked hfault
  refine ⟨hfile, ?_, rfl, ?_⟩
  · obtain ⟨i, raw, hi, hraw, hfaulty⟩ := (hmem 2 _).1 List.mem_cons_self
    obtain rfl : i = 1 := by omega
    exact hblanked 1 raw "\r".toList hraw (.inr ⟨_, hfaulty⟩)
      (by decide) (by decide)
  · rcases hfault .labelMarker rfl with ⟨h, -⟩ | ⟨-, hlast⟩ | ⟨h, -⟩
    · cases h
    · exact hlast
    · cases h

end Settings

end LineScript
