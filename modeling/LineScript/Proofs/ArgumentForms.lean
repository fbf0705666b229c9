/-
The forms of arguments, exactly.

Arguments are parts with commas between them and white space around each
(`Text.Joined`). What the parts are depends on the command: names for most
of them; a target, which is a label name or a colon and a label name, for
a jump; two names and a target for a branch. Each extractor accepts just
the texts of its form and gives the names in it.

The extractors go about it in different ways. Names are found by cutting
the text at all of its commas and trimming the pieces, so it has to be
seen that no name has a comma or white space in it. A branch is read from
the left, a name and a comma at a time, so it has to be seen that a name
ends where the reader stops.
-/
import LineScript.Proofs.Counts
import LineScript.Proofs.Dispatch
import LineScript.Proofs.LabelLines
import Mathlib.Data.List.Forall2

set_option autoImplicit false

namespace LineScript

open Literal (IsName isIdentifier_iff)

-- ================================================ parts between commas

namespace Text

variable {core text part other : Text} {parts : List Text}

/-- A text with white space around it. -/
def Padded (core text : Text) : Prop :=
  ∃ front back, isAllBlank front = true ∧ isAllBlank back = true
    ∧ text = front ++ core ++ back

/-- Parts with commas between them and white space around each. -/
def Joined (parts : List Text) (text : Text) : Prop :=
  ∃ pieces, List.Forall₂ Padded parts pieces ∧ text = [','].intercalate pieces

theorem padded_self (text : Text) : Padded text text :=
  ⟨[], [], rfl, rfl, (List.append_nil text).symm⟩

theorem padded_trim (text : Text) : Padded (trim text) text := by
  obtain ⟨front, hfront, htext⟩ := exists_blank_append_trimStart text
  obtain ⟨back, hback, hcore⟩ := trimEnd_append_blank (trimStart text)
  refine ⟨front, back, hfront, hback, ?_⟩
  rw [List.append_assoc, trim, ← hcore, ← htext]

theorem Padded.trim_eq (h : Padded core text)
    (hcore : ∀ c ∈ core, isBlank c = false) :
    trim text = core := by
  obtain ⟨front, back, hfront, hback, rfl⟩ := h
  rw [trim, trimEnd_trimStart, trimEnd_append_of_blank hback,
    ← trimEnd_trimStart, trimStart_append_of_blank hfront,
    trimStart_of_not_blank hcore, trimEnd_of_not_blank hcore]

theorem Padded.not_mem (h : Padded core text) {c : Char}
    (hc : isBlank c = false) (hcore : c ∉ core) : c ∉ text := by
  obtain ⟨front, back, hfront, hback, rfl⟩ := h
  simp [not_mem_of_isAllBlank hfront hc, not_mem_of_isAllBlank hback hc, hcore]

theorem joined_singleton_iff : Joined [part] text ↔ Padded part text := by
  constructor
  · rintro ⟨pieces, hpieces, rfl⟩
    obtain ⟨piece, later, hpiece, hlater, rfl⟩ :=
      List.forall₂_cons_left_iff.1 hpieces
    obtain rfl := List.forall₂_nil_left_iff.1 hlater
    rwa [List.intercalate_singleton]
  · intro h
    exact ⟨[text], .cons h .nil, List.intercalate_singleton.symm⟩

theorem joined_cons_iff :
    Joined (part :: other :: parts) text
      ↔ ∃ piece later, Padded part piece ∧ Joined (other :: parts) later
          ∧ text = piece ++ ',' :: later := by
  constructor
  · rintro ⟨pieces, hpieces, rfl⟩
    obtain ⟨piece, pieces, hpiece, hlater, rfl⟩ :=
      List.forall₂_cons_left_iff.1 hpieces
    have hne : pieces ≠ [] := by
      rintro rfl
      cases hlater
    refine ⟨piece, _, hpiece, ⟨pieces, hlater, rfl⟩, ?_⟩
    rw [List.intercalate_cons_of_ne_nil hne, List.append_assoc]
    rfl
  · rintro ⟨piece, later, hpiece, ⟨pieces, hlater, rfl⟩, rfl⟩
    have hne : pieces ≠ [] := by
      rintro rfl
      cases hlater
    refine ⟨piece :: pieces, .cons hpiece hlater, ?_⟩
    rw [List.intercalate_cons_of_ne_nil hne, List.append_assoc]
    rfl

/-- A text is its trimmed pieces between commas, joined. -/
theorem joined_map_trim_splitOn (text : Text) :
    Joined ((splitOn [','] text).map trim) text := by
  refine ⟨splitOn [','] text, ?_, ?_⟩
  · rw [List.forall₂_map_left_iff, List.forall₂_same]
    exact fun piece _ => padded_trim piece
  · rw [splitOn_singleton, List.intercalate_splitOn]

theorem pieces_of_padded {pieces : List Text}
    (h : List.Forall₂ Padded parts pieces)
    (hparts : ∀ part ∈ parts, ',' ∉ part ∧ ∀ c ∈ part, isBlank c = false) :
    pieces.map trim = parts ∧ ∀ piece ∈ pieces, ',' ∉ piece := by
  induction h with
  | nil => exact ⟨rfl, nofun⟩
  | @cons part piece parts pieces hpart _ ih =>
      obtain ⟨hcomma, hblank⟩ := hparts part List.mem_cons_self
      obtain ⟨hmap, hlater⟩ :=
        ih fun other hother => hparts other (List.mem_cons_of_mem _ hother)
      refine ⟨?_, List.forall_mem_cons.2 ⟨hpart.not_mem rfl hcomma, hlater⟩⟩
      rw [List.map_cons, hpart.trim_eq hblank, hmap]

/-- Parts without commas and white space are found again. -/
theorem Joined.map_trim_splitOn (h : Joined parts text) (hne : parts ≠ [])
    (hparts : ∀ part ∈ parts, ',' ∉ part ∧ ∀ c ∈ part, isBlank c = false) :
    (splitOn [','] text).map trim = parts := by
  obtain ⟨pieces, hpieces, rfl⟩ := h
  have hpieces_ne : pieces ≠ [] := by
    rintro rfl
    exact hne (List.forall₂_nil_right_iff.1 hpieces)
  obtain ⟨hmap, hcomma⟩ := pieces_of_padded hpieces hparts
  rw [splitOn_singleton, List.splitOn_intercalate ',' hcomma hpieces_ne, hmap]

/-- A name has no comma and no white space in it. -/
theorem plain_of_nameChars {name : Text}
    (h : ∀ c ∈ name, isNameChar c = true) :
    ',' ∉ name ∧ ∀ c ∈ name, isBlank c = false := by
  refine ⟨fun hmem => absurd (h _ hmem) (by decide), fun c hc => ?_⟩
  cases hblank : isBlank c with
  | false => rfl
  | true =>
      exact absurd (h c hc)
        (by rw [isNameChar_of_isBlank hblank]; exact Bool.false_ne_true)

/-- White space in front of a name is cut off up to the name. -/
theorem trimStart_blank_name {front name : Text}
    (hfront : isAllBlank front = true) (hne : name ≠ [])
    (hname : ∀ c ∈ name, isNameChar c = true) (rest : Text) :
    trimStart (front ++ (name ++ rest)) = name ++ rest := by
  have hself := trimStart_of_not_blank (plain_of_nameChars hname).2
  rw [trimStart_append_of_blank hfront,
    trimStart_append (by rwa [hself]), hself]

/-- Behind a name, white space and what is no part of a name end it. -/
theorem not_nameChar_of_head? {back rest : Text}
    (hback : isAllBlank back = true)
    (hrest : ∀ c ∈ rest.head?, isNameChar c = false) :
    ∀ c ∈ (back ++ rest).head?, isNameChar c = false := by
  cases back with
  | nil => exact hrest
  | cons d back =>
      intro c hc
      cases hc
      exact isNameChar_of_isBlank (isAllBlank_iff.1 hback d List.mem_cons_self)

theorem isLabelName_cons_iff {c : Char} {rest : Text} :
    isLabelName (c :: rest) = true
      ↔ isNameLetter c = true ∧ ∀ d ∈ rest, isNameChar d = true := by
  rw [isLabelName, Bool.and_eq_true, List.all_eq_true]

theorem isNameChar_of_isLabelName {name : Text} (h : isLabelName name = true) :
    name ≠ [] ∧ ∀ c ∈ name, isNameChar c = true := by
  cases name with
  | nil => cases h
  | cons c name =>
      obtain ⟨hletter, hchars⟩ := isLabelName_cons_iff.1 h
      refine ⟨List.cons_ne_nil _ _, List.forall_mem_cons.2 ⟨?_, hchars⟩⟩
      rw [isNameChar, hletter, Bool.true_or]

end Text

/-- A name is a label name. -/
theorem Literal.IsName.isLabelName {name : Text} (h : IsName name) :
    Text.isLabelName name = true := by
  obtain ⟨c, rest, rfl, hletter, hchars⟩ :=
    Text.exists_cons_of_isIdentifier (isIdentifier_iff.2 h)
  exact Text.isLabelName_cons_iff.2
    ⟨hletter, fun d hd => hchars d (List.mem_cons_of_mem _ hd)⟩

-- ============================================================ extraction

namespace Signature

open Text (Padded Joined)

variable {count : Nat} {text left right name after : Text}
  {arguments : List Text}

/-- Arguments that are found are the parts between commas. -/
theorem extractNames_eq_ok_iff_commaParts (hcount : 0 < count) :
    extractNames count text = .ok arguments
      ↔ commaParts text = arguments ∧ arguments.length = count
        ∧ ∀ argument ∈ arguments, Text.isIdentifier argument = true := by
  constructor
  · intro h
    refine ⟨?_, names_of_extractNames h⟩
    unfold extractNames at h
    simp only [if_neg hcount.ne'] at h
    split at h
    · cases h
    · split at h
      · cases h
      · exact Except.ok.inj h
  · rintro ⟨rfl, hlength, hnames⟩
    have hnone : (commaParts text).find? (fun part => !Text.isIdentifier part)
        = none := by
      rw [List.find?_eq_none]
      intro part hpart
      rw [hnames part hpart]
      exact Bool.false_ne_true
    unfold extractNames
    simp only [if_neg hcount.ne', hlength, ne_eq, not_true_eq_false,
      if_false, hnone]

/-- Names are the parts of a text between commas if they, joined, are the
text. -/
theorem commaParts_eq_iff (hne : arguments ≠ [])
    (hnames : ∀ argument ∈ arguments, IsName argument) :
    commaParts text = arguments ↔ Joined arguments text := by
  have hlabels := fun argument hargument =>
    Text.isNameChar_of_isLabelName (hnames argument hargument).isLabelName
  constructor
  · rintro rfl
    unfold commaParts at hne ⊢
    split
    next hblank => exact absurd (if_pos hblank) hne
    next => exact Text.joined_map_trim_splitOn text
  · intro hjoined
    have hparts := hjoined.map_trim_splitOn hne fun argument hargument =>
      Text.plain_of_nameChars (hlabels argument hargument).2
    unfold commaParts
    split
    next hblank =>
      -- a blank text would be one piece, and its only part empty
      have hcomma : ',' ∉ text := Text.not_mem_of_isAllBlank hblank rfl
      rw [Text.splitOn_singleton, List.splitOn_eq_singleton hcomma] at hparts
      have hempty : Text.trim text = [] := by
        rw [Text.trim, Text.trimStart_eq_nil_iff.2 hblank, Text.trimEnd_nil]
      rw [← hparts] at hlabels
      exact absurd hempty (hlabels (Text.trim text) List.mem_cons_self).1
    next => exact hparts

/-- A number of names is extracted from such names, joined, and from
nothing else. -/
theorem extractNames_eq_ok_iff (hcount : 0 < count) :
    extractNames count text = .ok arguments
      ↔ arguments.length = count ∧ (∀ argument ∈ arguments, IsName argument)
        ∧ Joined arguments text := by
  simp only [extractNames_eq_ok_iff_commaParts hcount, isIdentifier_iff]
  constructor
  · rintro ⟨hparts, hlength, hnames⟩
    have hne : arguments ≠ [] := List.ne_nil_of_length_pos (hlength ▸ hcount)
    exact ⟨hlength, hnames, (commaParts_eq_iff hne hnames).1 hparts⟩
  · rintro ⟨hlength, hnames, hjoined⟩
    have hne : arguments ≠ [] := List.ne_nil_of_length_pos (hlength ▸ hcount)
    exact ⟨(commaParts_eq_iff hne hnames).2 hjoined, hlength, hnames⟩

-- ===================================================== jumps and branches

/-- A target, as it is written: the name of a label, or a colon and the
name. -/
def Targets (name target : Text) : Prop :=
  Text.isLabelName name = true ∧ (target = name ∨ target = ':' :: name)

/-- A name and a comma are split off where there is a name and a comma. -/
theorem nameAndComma?_eq_some_iff :
    nameAndComma? text = some (name, after)
      ↔ IsName name ∧ ∃ piece, Padded name piece
        ∧ text = piece ++ ',' :: after := by
  constructor
  · intro h
    unfold nameAndComma? at h
    split at h
    next => cases h
    next found rest hsplit =>
      split at h
      next tail hcomma =>
        cases h
        obtain ⟨front, hfront, htext⟩ :=
          Text.exists_blank_append_trimStart text
        obtain ⟨back, hback, hrest⟩ := Text.exists_blank_append_trimStart rest
        have hname :=
          isIdentifier_iff.1 (Text.isIdentifier_of_splitIdentifier? hsplit)
        refine ⟨hname, _, ⟨front, back, hfront, hback, rfl⟩, ?_⟩
        rw [htext, (Text.parts_of_splitIdentifier? hsplit).1, hrest, hcomma]
        simp
      next => cases h
  · rintro ⟨hname, piece, ⟨front, back, hfront, hback, rfl⟩, rfl⟩
    obtain ⟨hne, hchars⟩ := Text.isNameChar_of_isLabelName hname.isLabelName
    have htrim : Text.trimStart (front ++ name ++ back ++ ',' :: after)
        = name ++ (back ++ ',' :: after) := by
      rw [List.append_assoc, List.append_assoc]
      exact Text.trimStart_blank_name hfront hne hchars _
    have hcomma : Text.trimStart (back ++ ',' :: after) = ',' :: after := by
      rw [Text.trimStart_append_of_blank hback]
      exact Text.trimStart_cons_of_not_blank rfl after
    have hend : ∀ c ∈ (back ++ ',' :: after).head?, isNameChar c = false :=
      Text.not_nameChar_of_head? hback fun c hc => by
        cases hc
        rfl
    have hsplit : Text.splitIdentifier? (name ++ (back ++ ',' :: after))
        = some (name, back ++ ',' :: after) := by
      cases hrest : back ++ ',' :: after with
      | nil => simp at hrest
      | cons d rest =>
          rw [hrest] at hend
          exact Text.splitIdentifier?_of_isIdentifier
            (isIdentifier_iff.2 hname) (hend d rfl) rest
    unfold nameAndComma?
    rw [htrim, hsplit]
    simp only [hcomma]

/-- The label name that a text is, with nothing but white space behind. -/
def labelBefore? (body : Text) : Option Text :=
  match Text.splitLabelName? body with
  | some (name, after) => if Text.isAllBlank after then some name else none
  | none => none

theorem labelBefore?_eq_some_iff {body : Text} :
    labelBefore? body = some name
      ↔ Text.isLabelName name = true
        ∧ ∃ back, Text.isAllBlank back = true ∧ body = name ++ back := by
  unfold labelBefore?
  constructor
  · intro h
    split at h
    next found after hsplit =>
      split at h
      next hblank =>
        cases h
        exact ⟨Text.isLabelName_of_splitLabelName? hsplit, after, hblank,
          (Text.append_of_splitLabelName? hsplit).1⟩
      next => cases h
    next => cases h
  · rintro ⟨hname, back, hback, rfl⟩
    have hend : ∀ c ∈ (back ++ []).head?, isNameChar c = false :=
      Text.not_nameChar_of_head? hback nofun
    rw [List.append_nil] at hend
    rw [Text.splitLabelName?_of_isLabelName hname hend]
    exact if_pos hback

/-- A target is a label name behind white space, but for a colon. -/
theorem target?_eq (text : Text) :
    target? text = labelBefore? (if (Text.trimStart text).head? = some ':'
      then (Text.trimStart text).tail else Text.trimStart text) := by
  unfold target?
  cases Text.trimStart text with
  | nil => rfl
  | cons c rest =>
      by_cases hcolon : c = ':'
      · subst hcolon
        rfl
      · have hhead : (c :: rest).head? ≠ some ':' :=
          fun heq => hcolon (Option.some.inj heq)
        rw [if_neg hhead]
        split
        next tail heq => exact absurd (List.cons.inj heq).1 hcolon
        next => rfl

/-- A target is read where there is one. -/
theorem target?_eq_some_iff :
    target? text = some name
      ↔ ∃ target, Targets name target ∧ Padded target text := by
  rw [target?_eq, labelBefore?_eq_some_iff]
  constructor
  · rintro ⟨hname, back, hback, hbody⟩
    obtain ⟨front, hfront, htext⟩ := Text.exists_blank_append_trimStart text
    split at hbody
    next hcolon =>
      obtain ⟨rest, hrest⟩ := List.head?_eq_some_iff.1 hcolon
      rw [hrest, List.tail_cons] at hbody
      refine ⟨':' :: name, ⟨hname, .inr rfl⟩, front, back, hfront, hback, ?_⟩
      rw [htext, hrest, hbody, List.append_assoc, List.cons_append]
    next =>
      refine ⟨name, ⟨hname, .inl rfl⟩, front, back, hfront, hback, ?_⟩
      rw [htext, hbody, List.append_assoc]
  · rintro ⟨target, ⟨hname, htarget⟩, front, back, hfront, hback, rfl⟩
    refine ⟨hname, back, hback, ?_⟩
    obtain ⟨hne, hchars⟩ := Text.isNameChar_of_isLabelName hname
    rcases htarget with rfl | rfl
    · obtain ⟨c, later, rfl⟩ := List.exists_cons_of_ne_nil hne
      have hletter : c ≠ ':' := by
        rintro rfl
        exact absurd (hchars ':' List.mem_cons_self) (by decide)
      rw [List.append_assoc, Text.trimStart_blank_name hfront hne hchars]
      exact if_neg fun heq => hletter (Option.some.inj heq)
    · rw [List.append_assoc, Text.trimStart_append_of_blank hfront,
        List.cons_append, Text.trimStart_cons_of_not_blank rfl]
      exact if_pos rfl

/-- The argument of a jump is the name in a target. -/
theorem extract_jump_eq_ok_iff :
    jump.extract text = .ok arguments
      ↔ ∃ name target, arguments = [name] ∧ Targets name target
        ∧ Joined [target] text := by
  have hfound : jump.extract text = .ok arguments
      ↔ (target? text).map ([·]) = some arguments := by
    refine ⟨eq_some_of_found, fun h => ?_⟩
    rw [extract, h]
  simp only [hfound, Option.map_eq_some_iff, target?_eq_some_iff,
    Text.joined_singleton_iff]
  constructor
  · rintro ⟨name, ⟨target, htarget, hpadded⟩, rfl⟩
    exact ⟨name, target, rfl, htarget, hpadded⟩
  · rintro ⟨name, target, rfl, htarget, hpadded⟩
    exact ⟨name, ⟨target, htarget, hpadded⟩, rfl⟩

/-- The arguments of a branch are two names and the name in a target. -/
theorem extract_branch_eq_ok_iff :
    branch.extract text = .ok arguments
      ↔ ∃ left right name target,
        arguments = [left, right, name] ∧ IsName left ∧ IsName right
          ∧ Targets name target ∧ Joined [left, right, target] text := by
  have hfound : branch.extract text = .ok arguments
      ↔ branch? text = some arguments := by
    refine ⟨eq_some_of_found, fun h => ?_⟩
    rw [extract, h]
  simp only [hfound, branch?, Option.bind_eq_bind, Option.bind_eq_some_iff,
    Prod.exists, nameAndComma?_eq_some_iff, target?_eq_some_iff,
    Text.joined_cons_iff, Text.joined_singleton_iff]
  constructor
  · rintro ⟨left, after, ⟨hleft, piece, hpiece, rfl⟩, right, later,
      ⟨hright, piece', hpiece', rfl⟩, name, ⟨target, htarget, hpadded⟩, heq⟩
    cases heq
    exact ⟨left, right, name, target, rfl, hleft, hright, htarget,
      piece, _, hpiece, ⟨piece', later, hpiece', hpadded, rfl⟩, rfl⟩
  · rintro ⟨left, right, name, target, rfl, hleft, hright, htarget,
      piece, _, hpiece, ⟨piece', later, hpiece', hpadded, rfl⟩, rfl⟩
    exact ⟨left, _, ⟨hleft, piece, hpiece, rfl⟩, right, later,
      ⟨hright, piece', hpiece', rfl⟩, name, ⟨target, htarget, hpadded⟩, rfl⟩

end Signature

end LineScript
