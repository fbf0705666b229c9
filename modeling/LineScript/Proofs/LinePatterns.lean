/-
Lines and assignments by their patterns.

How a command line falls into two parts, how a label line does, and how
an assignment does, is described by three patterns. No search is made for
them here; what each of them would find is found directly. That it is the
same, on every text, takes the preference of a search into account, since
the patterns could match a text in several ways: white space could be
part of an argument text or stand beside it.

A search finds the match that its pattern prefers (`Node.Prefers`). Almost
every piece of these patterns is a run that takes all it can: behind it
stands no further character of its set, so that whatever the goal is there
is no longer run (`prefers_run`). Two pieces are not like that. The
argument text and the operand are taken as short as possible, and end
where nothing but white space is left. And the white space in front of an
operand gives back a character where there is nothing else to take
(`Signature.HasOperand.blank`).
-/
import LineScript.Proofs.PatternPieces
import LineScript.Proofs.Splitting

set_option autoImplicit false

namespace LineScript

open Literal (IsName isIdentifier_iff)

-- ================================================ statement vocabulary

namespace Line

/-- The source of the pattern for a command line. -/
def commandSource : Text :=
  ("^\\s*(" ++ identifierGrammar ++ ")(?:\\s+(.*?))?\\s*$").toList

/-- The source of the pattern for a label line. -/
def labelSource : Text := ("^\\s*:(" ++ labelGrammar ++ ")\\s*(.*)$").toList

end Line

/-- The source of the pattern for an assignment. -/
def Signature.assignmentSource : Text :=
  ("\\s*(" ++ identifierGrammar ++ ")\\s*,\\s*(.+?)\\s*").toList

namespace Pattern

namespace Node

/-- White space up to the end of the text. -/
def toEnd : Node := .sequence blanks (.look .textEnd)

/-- White space, and an argument text as short as possible. -/
def argumentText (index : Nat) : Node :=
  .sequence (.repetition (.one (.named .blank false)) 1 none true)
    (.group index (.repetition (.one (.named .any false)) 0 none false))

/-- A command line. -/
def commandLine : Node :=
  .sequence (.look .textStart) (.sequence blanks (.sequence (.group 1 name)
    (.sequence (.repetition (argumentText 2) 0 (some 1) true) toEnd)))

/-- A label line, with anything behind the name. -/
def labelLine : Node :=
  .sequence (.look .textStart) (.sequence blanks
    (.sequence (.one (.single ':')) (.sequence (.group 1 labelName)
      (.sequence blanks (.sequence (.group 2 (run (.named .any false)))
        (.look .textEnd))))))

/-- An operand as short as possible, and white space behind it. -/
def operandText (index : Nat) : Node :=
  .sequence
    (.group index (.repetition (.one (.named .any false)) 1 none false))
    blanks

/-- An operand with white space around it. -/
def operand (index : Nat) : Node := .sequence blanks (operandText index)

-- ================================================================ pieces

variable {text rest : Text}

theorem leads_toEnd :
    Leads (toEnd.Takes text) (fun _ => True)
      = fun rest => Text.isAllBlank rest = true := by
  funext rest
  simp [Leads, toEnd, Takes, takes_blanks_iff, isAt_textEnd_iff]

theorem prefers_toEnd (h : Text.isAllBlank rest = true) :
    toEnd.Prefers text (fun _ => True) rest [] [] := by
  have hnone : ∀ c ∈ ([] : Text).head?, isBlank c = false := nofun
  have hblanks :=
    prefers_sequence (prefers_blanks h hnone) (prefers_textEnd text)
  rwa [List.append_nil] at hblanks

namespace Reads

theorem argumentText (index : Nat) :
    (Node.argumentText index).Reads fun taken found =>
      ∃ gap body, gap ≠ [] ∧ Text.isAllBlank gap = true ∧ '\n' ∉ body
        ∧ taken = gap ++ body ∧ found = [(index, body)] := by
  have hgap := ofSet (fun c => by rw [CharSet.has_blank]) 1 none true
  have hbody := (ofSet (fun c => CharSet.has_any) 0 none false).group index
  refine (hgap.sequence hbody).congr fun taken found => ?_
  constructor
  · rintro ⟨gap, body, _, _, ⟨⟨hgap, hlength, -⟩, rfl⟩,
      ⟨⟨hbody, -⟩, rfl⟩, rfl, rfl⟩
    refine ⟨gap, body, List.ne_nil_of_length_pos hlength,
      Text.isAllBlank_iff.2 hgap, fun hmem => ?_, rfl, rfl⟩
    simpa using hbody _ hmem
  · rintro ⟨gap, body, hne, hgap, hfeed, rfl, rfl⟩
    exact ⟨gap, body, [], _,
      ⟨⟨Text.isAllBlank_iff.1 hgap, List.length_pos_of_ne_nil hne,
      nofun⟩, rfl⟩, ⟨⟨forall_bne_feed hfeed, Nat.zero_le _, nofun⟩,
      rfl⟩, rfl, rfl⟩

theorem operandText (index : Nat) :
    (Node.operandText index).Reads fun taken found =>
      ∃ body back, body ≠ [] ∧ '\n' ∉ body ∧ Text.isAllBlank back = true
        ∧ taken = body ++ back ∧ found = [(index, body)] := by
  have hbody := (ofSet (fun c => CharSet.has_any) 1 none false).group index
  refine (hbody.sequence blanks).congr fun taken found => ?_
  constructor
  · rintro ⟨body, back, _, _, ⟨⟨hbody, hlength, -⟩, rfl⟩,
      ⟨hback, rfl⟩, rfl, rfl⟩
    refine ⟨body, back, List.ne_nil_of_length_pos hlength, fun hmem => ?_,
      hback, rfl, rfl⟩
    simpa using hbody _ hmem
  · rintro ⟨body, back, hne, hfeed, hback, rfl, rfl⟩
    exact ⟨body, back, _, [],
      ⟨⟨forall_bne_feed hfeed, List.length_pos_of_ne_nil hne, nofun⟩, rfl⟩,
      ⟨hback, rfl⟩, rfl, rfl⟩

end Reads

end Node

end Pattern

-- ========================================================= command lines

namespace Line

open Pattern (Node Leads)

variable {line keyword rest front gap back : Text}

/-- What is behind a keyword is white space and an argument text, once the
white space around that is told apart from it. -/
theorem exists_splitsInto {taken : Text} (hname : IsName keyword)
    (hfront : Text.isAllBlank front = true)
    (htaken : taken = [] ∨ ∃ gap body, gap ≠ [] ∧ Text.isAllBlank gap = true
      ∧ '\n' ∉ body ∧ taken = gap ++ body)
    (hback : Text.isAllBlank back = true) :
    ∃ rest,
      SplitsInto (front ++ (keyword ++ (taken ++ back))) keyword rest := by
  obtain ⟨hkeyword_ne, hchars⟩ :=
    Text.isNameChar_of_isLabelName hname.isLabelName
  have hkeyword := Text.Tight.of_not_blank (Text.plain_of_nameChars hchars).2
  rcases htaken with rfl | ⟨gap, body, hne, hgap, hfeed, rfl⟩
  · exact ⟨[], .bare hname ⟨⟨front, back, hfront, hback, by simp⟩, hkeyword⟩⟩
  · obtain ⟨before, behind, hbefore, hbehind, hbody⟩ := Text.padded_trim body
    by_cases hempty : Text.trim body = []
    · rw [hempty, List.append_nil] at hbody
      refine ⟨[],
        .bare hname ⟨⟨front, gap ++ body ++ back, hfront, ?_, by simp⟩,
        hkeyword⟩⟩
      simp [hbody, hgap, hbefore, hbehind, hback]
    · have htight := Text.tight_trim body
      refine ⟨Text.trim body,
        .spaced (gap ++ before) hname ?_ ?_ hempty ?_ htight
        ⟨⟨front, behind ++ back, hfront, ?_, ?_⟩, ?_⟩⟩
      · exact List.append_ne_nil_of_left_ne_nil hne before
      · rw [Text.isAllBlank_append, hgap, hbefore]
        rfl
      · intro hmem
        rw [hbody] at hfeed
        exact hfeed (List.mem_append_left _ (List.mem_append_right _ hmem))
      · rw [Text.isAllBlank_append, hbehind, hback]
        rfl
      · conv_lhs => rw [hbody]
        simp
      · exact hkeyword.between hkeyword_ne htight hempty _

/-- What a search finds can be taken apart. -/
theorem exists_splitsInto_of_search {found : Pattern.Thread}
    (h : Node.commandLine.search line = some found) :
    ∃ keyword rest, SplitsInto line keyword rest := by
  obtain ⟨start, stop, hsuffix, hfinds⟩ := Node.finds_of_search (by decide) h
  obtain ⟨_, _, _, ⟨hstart, rfl, rfl⟩, ⟨_, _, _, hbefore, ⟨_, _, _, hgroup,
    ⟨_, _, _, hbehind, ⟨_, _, _, hend, ⟨hstop, rfl, rfl⟩, -⟩, -⟩, -⟩, -⟩,
    -⟩ := hfinds
  obtain rfl := (Pattern.isAt_textStart_iff hsuffix).1 hstart
  obtain rfl := Pattern.isAt_textEnd_iff.1 hstop
  obtain ⟨front, ⟨hfront, -⟩, rfl⟩ := (Node.Reads.blanks _ _ _ _).1 hbefore
  obtain ⟨keyword, ⟨hname, -⟩, rfl⟩ :=
    (Node.Reads.name.group 1 _ _ _ _).1 hgroup
  obtain ⟨taken, htaken, rfl⟩ :=
    ((Node.Reads.argumentText 2).optional _ _ _ _).1 hbehind
  obtain ⟨back, ⟨hback, -⟩, rfl⟩ := (Node.Reads.blanks _ _ _ _).1 hend
  rw [List.append_nil]
  refine ⟨keyword, exists_splitsInto hname hfront ?_ hback⟩
  rcases htaken with ⟨rfl, -⟩ | ⟨gap, body, hne, hgap, hfeed, rfl, -⟩
  · exact .inl rfl
  · exact .inr ⟨gap, body, hne, hgap, hfeed, rfl⟩

/-- A search for a command line goes on behind the keyword. -/
theorem search_commandLine_of_prefers {texts : Pattern.GroupTexts}
    (hname : IsName keyword) (hfront : Text.isAllBlank front = true)
    (hend : ∀ c ∈ rest.head?, isNameChar c = false)
    (hline : line = front ++ (keyword ++ rest))
    (h : Node.Prefers line
      (.sequence (.repetition (.argumentText 2) 0 (some 1) true) .toEnd)
      (fun _ => True) rest [] texts) :
    ∃ found, Node.commandLine.search line = some found
      ∧ found.groups = texts ++ [(1, keyword)] := by
  obtain ⟨hne, hchars⟩ := Text.isNameChar_of_isLabelName hname.isLabelName
  have hstart : ∀ c ∈ (keyword ++ rest).head?, isBlank c = false := by
    rw [List.head?_append_of_ne_nil _ hne]
    exact fun c hc =>
      (Text.plain_of_nameChars hchars).2 c (List.mem_of_mem_head? hc)
  have hkeyword := Node.prefers_sequence (fun hleads =>
    Node.prefers_group 1 (Node.prefers_name hname hend hleads)) h
  have hblanks :=
    Node.prefers_sequence (Node.prefers_blanks hfront hstart) hkeyword
  rw [← hline] at hblanks
  have hwhole : Node.commandLine.Prefers line (fun _ => True) line [] _ :=
    Node.prefers_fromStart hblanks
  simpa using Node.search_of_prefers (by decide) hwhole

/-- White space behind the keyword goes before the argument text, if there
is one. -/
theorem search_commandLine_of_gap (hname : IsName keyword)
    (hfront : Text.isAllBlank front = true) (hne : gap ≠ [])
    (hgap : Text.isAllBlank gap = true) (hfeed : '\n' ∉ rest)
    (htight : Text.Tight rest) (hback : Text.isAllBlank back = true)
    (hnone : rest = [] → back = [])
    (hline : line = front ++ (keyword ++ (gap ++ (rest ++ back)))) :
    ∃ found, Node.commandLine.search line = some found
      ∧ found.groups = [(2, rest), (1, keyword)] := by
  have hend : Node.toEnd.Prefers line (fun _ => True) back [] [] :=
    Node.prefers_toEnd hback
  have hgoal : Leads (Node.toEnd.Takes line) (fun _ => True) back := by
    rw [Node.leads_toEnd]
    exact hback
  have hrest : (Node.repetition (.one (.named .any false)) 0 none
      false).Prefers line
      (Leads (Node.toEnd.Takes line) fun _ => True) (rest ++ back)
      back [] := by
    refine Pattern.prefers_ofSet (fun c => Pattern.CharSet.has_any)
      (Pattern.forall_bne_feed hfeed) (Nat.zero_le _) ?_ nofun hgoal
    -- with less of the argument text taken, not only white space is left
    rintro shorter later rfl - hne
    refine .inr fun hleads => hne ?_
    rw [Node.leads_toEnd, Text.isAllBlank_append, Bool.and_eq_true] at hleads
    exact Text.eq_nil_of_isAllBlank hleads.1 htight.getLast?_of_append
  have hstart : ∀ c ∈ (rest ++ back).head?, isBlank c = false := by
    cases rest with
    | nil =>
        rw [hnone rfl]
        nofun
    | cons d rest => exact fun c hc => htight.first c hc
  have htext := Node.prefers_sequence (Pattern.prefers_run
    (fun c => by rw [Pattern.CharSet.has_blank]) (Text.isAllBlank_iff.1 hgap)
    (List.length_pos_of_ne_nil hne) hstart) (Node.prefers_group 2 hrest)
  refine search_commandLine_of_prefers hname hfront ?_ hline
    (Node.prefers_sequence (fun _ => Node.prefers_optional htext) hend)
  cases gap with
  | nil => exact absurd rfl hne
  | cons d gap =>
      intro c hc
      obtain rfl : d = c := Option.some.inj hc
      exact isNameChar_of_isBlank
        (Text.isAllBlank_iff.1 hgap d List.mem_cons_self)

/-- Without white space behind the keyword there is no argument text. -/
theorem search_commandLine_of_bare (hname : IsName keyword)
    (hfront : Text.isAllBlank front = true) (hline : line = front ++ keyword) :
    ∃ found, Node.commandLine.search line = some found
      ∧ found.groups = [(1, keyword)] := by
  have hend : Node.toEnd.Prefers line (fun _ => True) [] [] [] :=
    Node.prefers_toEnd rfl
  have hnone : ¬ Leads ((Node.argumentText 2).Takes line)
      (Leads (Node.toEnd.Takes line) fun _ => True) [] := by
    rintro ⟨rest', htakes, -⟩
    obtain ⟨texts, hfinds⟩ := Node.takes_iff.1 htakes
    obtain ⟨_, ⟨gap, body, hne, -, -, rfl, -⟩, hnil⟩ :=
      (Node.Reads.argumentText 2 _ _ _ _).1 hfinds
    simp [hne] at hnil
  have hnothing := Node.prefers_sequence
    (fun hleads => Node.prefers_without hleads hnone) hend
  have hstop : ∀ c ∈ ([] : Text).head?, isNameChar c = false := nofun
  rw [← List.append_nil keyword] at hline
  exact search_commandLine_of_prefers hname hfront hstop hline hnothing

/-- A line that can be taken apart is taken apart by a search. -/
theorem SplitsInto.search_commandLine (h : SplitsInto line keyword rest) :
    ∃ found, Node.commandLine.search line = some found
      ∧ found.group 1 = keyword
      ∧ found.group 2 = rest := by
  cases h with
  | bare hname hline =>
      obtain ⟨front, back, hfront, hback, hline⟩ := hline.padded
      by_cases hempty : back = []
      · rw [hempty, List.append_nil] at hline
        obtain ⟨found, hsearch, hgroups⟩ :=
          search_commandLine_of_bare hname hfront hline
        exact ⟨found, hsearch, Pattern.group_eq hgroups 1,
          Pattern.group_eq hgroups 2⟩
      · have hline : line = front ++ (keyword ++ (back ++ ([] ++ []))) := by
          simpa using hline
        obtain ⟨found, hsearch, hgroups⟩ :=
          search_commandLine_of_gap hname hfront hempty
          hback List.not_mem_nil ⟨nofun, nofun⟩ rfl (fun _ => rfl) hline
        exact ⟨found, hsearch, Pattern.group_eq hgroups 1,
          Pattern.group_eq hgroups 2⟩
  | spaced gap hname hne hgap hrest hfeed htight hline =>
      obtain ⟨front, back, hfront, hback, hline⟩ := hline.padded
      obtain ⟨found, hsearch, hgroups⟩ :=
        search_commandLine_of_gap hname hfront hne hgap
        hfeed htight hback (fun hnil => absurd hnil hrest)
          (by simpa using hline)
      exact ⟨found, hsearch, Pattern.group_eq hgroups 1,
        Pattern.group_eq hgroups 2⟩

/-- A command line is taken apart as a search for its pattern does it. -/
theorem splitCommand?_eq_search :
    ∃ pattern, Pattern.read? commandSource = some pattern
      ∧ ∀ line, splitCommand? line
        = (pattern.search line).map fun found =>
          (found.group 1, found.group 2) := by
  refine ⟨Node.commandLine, by decide +kernel, fun line => ?_⟩
  rw [Option.map_eq_bind]
  refine Node.eq_bind_search (∃ keyword rest, SplitsInto line keyword rest)
    (fun found => exists_splitsInto_of_search)
    (fun (keyword, rest) hsplit =>
      ⟨keyword, rest, splitCommand?_eq_some_iff.1 hsplit⟩) ?_
  rintro ⟨keyword, rest, hsplits⟩
  obtain ⟨found, hsearch, rfl, rfl⟩ := hsplits.search_commandLine
  exact ⟨found, hsearch, hsplits.splitCommand?_eq⟩

end Line

-- ============================================================ label lines

/-- A label name is split off up to a character that is in no name. -/
theorem Text.not_nameChar_of_splitLabelName? {text name after : Text}
    (h : splitLabelName? text = some (name, after)) :
    ∀ c ∈ after.head?, isNameChar c = false := by
  cases text with
  | nil => cases h
  | cons d rest =>
      simp only [splitLabelName?] at h
      split at h
      next =>
        cases h
        intro c hc
        rw [Option.mem_def, ← List.find?_not_eq_head?_dropWhile] at hc
        simpa using List.find?_some hc
      next => cases h

/-- Behind a label name the longest one at the head of a text goes on. -/
theorem Text.exists_splitLabelName?_append {name : Text}
    (h : isLabelName name = true) (rest : Text) :
    ∃ found, splitLabelName? (name ++ rest)
      = some (found, rest.dropWhile isNameChar) := by
  obtain ⟨-, hchars⟩ := isNameChar_of_isLabelName h
  have hdrop : (name ++ rest).dropWhile isNameChar
      = rest.dropWhile isNameChar :=
    List.dropWhile_append_of_pos hchars
  cases name with
  | nil => cases h
  | cons c name =>
      obtain ⟨hletter, -⟩ := isLabelName_cons_iff.1 h
      refine ⟨(c :: name ++ rest).takeWhile isNameChar, ?_⟩
      rw [← hdrop]
      exact if_pos hletter

namespace Line

open Pattern (Node)

variable {line marker name tail : Text}

/-- A label name behind a colon in a line, taken whole, and what stands
behind it but for white space. -/
structure HasLabel (line name tail : Text) : Prop where
  isLabelName : Text.isLabelName name = true
  feed : '\n' ∉ tail
  start : ∀ c ∈ tail.head?, isBlank c = false
  written : ∃ front back, Text.isAllBlank front = true
    ∧ Text.isAllBlank back = true
    ∧ (∀ c ∈ (back ++ tail).head?, isNameChar c = false)
    ∧ line = front ++ ':' :: (name ++ (back ++ tail))

/-- Behind a colon a label name is split off. -/
theorem hasLabel_of_splitLabelName? {front rest after : Text}
    (hfront : Text.isAllBlank front = true)
    (hsplit : Text.splitLabelName? rest = some (name, after))
    (hfeed : '\n' ∉ Text.trimStart after)
    (hline : line = front ++ ':' :: rest) :
    HasLabel line name (Text.trimStart after) := by
  obtain ⟨back, hback, hafter⟩ := Text.exists_blank_append_trimStart after
  obtain ⟨hrest, -⟩ := Text.append_of_splitLabelName? hsplit
  refine ⟨Text.isLabelName_of_splitLabelName? hsplit, hfeed,
    fun c hc => Text.not_blank_of_head?_trimStart hc, front, back, hfront,
    hback, ?_, ?_⟩
  · rw [← hafter]
    exact Text.not_nameChar_of_splitLabelName? hsplit
  · rw [← hafter, ← hrest, hline]

/-- The name of a label line is found if nothing or a comment is behind. -/
theorem HasLabel.label?_eq (h : HasLabel line name tail) (marker : Text) :
    label? marker line
      = if tail.isEmpty ∨ Text.startsWith tail marker then some name
        else none := by
  obtain ⟨hname, hfeed, htail, front, back, hfront, hback, hend, rfl⟩ := h
  have hbody : Text.trimStart (front ++ ':' :: (name ++ (back ++ tail)))
      = ':' :: (name ++ (back ++ tail)) := by
    rw [Text.trimStart_append_of_blank hfront]
    exact Text.trimStart_cons_of_not_blank rfl _
  have hafter : Text.trimStart (back ++ tail) = tail := by
    rw [Text.trimStart_append_of_blank hback]
    cases tail with
    | nil => rfl
    | cons d tail => exact Text.trimStart_cons_of_not_blank (htail d rfl) tail
  unfold label?
  rw [hbody]
  simp only [Text.splitLabelName?_of_isLabelName hname hend, hafter, hfeed,
    not_false_eq_true, true_and]

/-- A name is found in such a line only. -/
theorem exists_hasLabel_of_label? (h : label? marker line = some name) :
    ∃ tail, HasLabel line name tail := by
  unfold label? at h
  split at h
  next rest hbody =>
    split at h
    next => cases h
    next found after hsplit =>
      simp only at h
      split at h
      next htail =>
        cases h
        obtain ⟨front, hfront, hline⟩ :=
          Text.exists_blank_append_trimStart line
        rw [hbody] at hline
        exact ⟨_, hasLabel_of_splitLabelName? hfront hsplit htail.1 hline⟩
      next => cases h
  next => cases h

/-- What a search finds is a label name and what is behind it. -/
theorem exists_hasLabel_of_search {found : Pattern.Thread}
    (h : Node.labelLine.search line = some found) :
    ∃ name tail, HasLabel line name tail := by
  obtain ⟨start, stop, hsuffix, hfinds⟩ := Node.finds_of_search (by decide) h
  obtain ⟨_, _, _, ⟨hstart, rfl, rfl⟩, ⟨_, _, _, hbefore,
    ⟨_, _, _, ⟨c, hcolon, rfl, rfl⟩, ⟨_, _, _, hgroup, ⟨_, _, _, hbehind,
    ⟨_, _, _, hend, ⟨hstop, rfl, rfl⟩, -⟩, -⟩, -⟩, -⟩, -⟩, -⟩ := hfinds
  obtain rfl := (Pattern.isAt_textStart_iff hsuffix).1 hstart
  obtain rfl := Pattern.isAt_textEnd_iff.1 hstop
  obtain rfl := Pattern.CharSet.has_single.1 hcolon
  obtain ⟨front, ⟨hfront, -⟩, rfl⟩ := (Node.Reads.blanks _ _ _ _).1 hbefore
  obtain ⟨name, ⟨hname, -⟩, rfl⟩ :=
    (Node.Reads.labelName.group 1 _ _ _ _).1 hgroup
  obtain ⟨back, ⟨hback, -⟩, rfl⟩ := (Node.Reads.blanks _ _ _ _).1 hbehind
  have hany := Node.Reads.run fun c => Pattern.CharSet.has_any (c := c)
  obtain ⟨tail, ⟨htail, -⟩, rfl⟩ := (hany.group 2 _ _ _ _).1 hend
  rw [List.append_nil] at hsuffix ⊢
  have hfeed : '\n' ∉ tail := fun hmem => by simpa using htail _ hmem
  obtain ⟨longest, hsplit⟩ :=
    Text.exists_splitLabelName?_append hname (back ++ tail)
  refine ⟨longest, _, hasLabel_of_splitLabelName? hfront hsplit ?_ rfl⟩
  -- what is left then is a part of what is behind the white space
  cases back with
  | nil =>
      exact fun hmem => hfeed ((List.dropWhile_sublist _).mem
        ((List.dropWhile_sublist _).mem hmem))
  | cons d back =>
      have hd :=
        isNameChar_of_isBlank
          (Text.isAllBlank_iff.1 hback d List.mem_cons_self)
      rw [List.cons_append, List.dropWhile_cons_of_neg (by rw [hd]; nofun),
        ← List.cons_append, Text.trimStart_append_of_blank hback]
      exact fun hmem => hfeed ((List.dropWhile_sublist _).mem hmem)

/-- A label line is found with its name and what is behind that. -/
theorem HasLabel.search_labelLine (h : HasLabel line name tail) :
    ∃ found, Node.labelLine.search line = some found ∧ found.group 1 = name
      ∧ found.group 2 = tail := by
  obtain ⟨hname, hfeed, htail, front, back, hfront, hback, hend, hline⟩ := h
  have hnothing : ∀ c ∈ ([] : Text).head?, (c != '\n') = false := nofun
  have hrun := Node.prefers_sequence (fun hleads => Node.prefers_group 2
    (Pattern.prefers_run (fun c => Pattern.CharSet.has_any)
      (Pattern.forall_bne_feed hfeed) (Nat.zero_le _) hnothing
      hleads)) (Node.prefers_textEnd line)
  rw [List.append_nil] at hrun
  have hgap := Node.prefers_sequence (Node.prefers_blanks hback htail) hrun
  have hgroup := Node.prefers_sequence (fun hleads =>
    Node.prefers_group 1 (Node.prefers_labelName hname hend hleads)) hgap
  have hcolon := Node.prefers_sequence (Node.prefers_single ':') hgroup
  have hblanks := Node.prefers_sequence
    (Node.prefers_blanks hfront fun c hc => by cases hc; rfl) hcolon
  rw [← hline] at hblanks
  have hwhole : Node.labelLine.Prefers line (fun _ => True) line [] _ :=
    Node.prefers_fromStart hblanks
  obtain ⟨found, hsearch, hgroups⟩ := Node.search_of_prefers (by decide) hwhole
  exact ⟨found, hsearch, Pattern.group_eq hgroups 1,
    Pattern.group_eq hgroups 2⟩

/-- A label line is recognised as a search for its pattern does it, and
what is found behind the name has to be nothing or a comment. -/
theorem label?_eq_search :
    ∃ pattern, Pattern.read? labelSource = some pattern
      ∧ ∀ marker line,
        label? marker line = (pattern.search line).bind fun found =>
        if (found.group 2).isEmpty
          ∨ Text.startsWith (found.group 2) marker then
          some (found.group 1)
        else none := by
  refine ⟨Node.labelLine, by decide +kernel, fun marker line => ?_⟩
  refine Node.eq_bind_search (∃ name tail, HasLabel line name tail)
    (fun found => exists_hasLabel_of_search)
    (fun name hlabel => ⟨name, exists_hasLabel_of_label? hlabel⟩) ?_
  rintro ⟨name, tail, hlabel⟩
  obtain ⟨found, hsearch, rfl, rfl⟩ := hlabel.search_labelLine
  exact ⟨found, hsearch, hlabel.label?_eq marker⟩

end Line

-- ============================================================ assignments

namespace Signature

open Pattern (Node Leads)

variable {text whole name operand after : Text}

/-- The operand in a text: what is there without the white space around it;
or, where nothing else is there, the last character that is no line
feed. -/
inductive HasOperand (text : Text) : Text → Prop
  | core {operand : Text} (hne : operand ≠ []) (hfeed : '\n' ∉ operand)
      (htext : Text.Trimmed operand text) : HasOperand text operand
  | blank {c : Char} (front feeds : Text)
      (hfront : Text.isAllBlank front = true)
      (hc : isBlank c = true) (hfeed : c ≠ '\n')
      (hfeeds : ∀ d ∈ feeds, d = '\n')
      (htext : text = front ++ c :: feeds) : HasOperand text [c]

theorem hasOperand_of_operand? (h : operand? text = some operand) :
    HasOperand text operand := by
  unfold operand? at h
  simp only at h
  split at h
  next hempty =>
    have hblank : Text.isAllBlank text = true :=
      Text.trim_eq_nil_iff.1 (List.isEmpty_iff.1 hempty)
    obtain ⟨c, hfind, rfl⟩ := Option.map_eq_some_iff.1 h
    obtain ⟨hfeed, feeds, front, htext, hfeeds⟩ :=
      List.find?_eq_some_iff_append.1 hfind
    have htext : text = front.reverse ++ c :: feeds.reverse := by
      rw [List.reverse_eq_iff] at htext
      simpa using htext
    rw [htext, Text.isAllBlank_iff, List.forall_mem_append,
      List.forall_mem_cons] at hblank
    obtain ⟨hfront, hc, -⟩ := hblank
    exact .blank _ _ (Text.isAllBlank_iff.2 hfront) hc (bne_iff_ne.1 hfeed)
      (fun d hd => by simpa using hfeeds d (List.mem_reverse.1 hd)) htext
  next hempty =>
    split at h
    next => cases h
    next hfeed =>
      cases h
      exact .core (fun hnil => hempty (List.isEmpty_iff.2 hnil)) hfeed
        (Text.trim_eq_iff.1 rfl)

theorem HasOperand.operand?_eq (h : HasOperand text operand) :
    operand? text = some operand := by
  unfold operand?
  cases h with
  | core hne hfeed htext =>
      simp only [Text.trim_eq_iff.2 htext, List.isEmpty_eq_false_iff.2 hne,
        hfeed, Bool.false_eq_true, if_false]
  | @blank c front feeds hfront hc hfeed hfeeds htext =>
      have hlater : Text.isAllBlank feeds = true :=
        Text.isAllBlank_iff.2 fun d hd => hfeeds d hd ▸ rfl
      have hblank : Text.isAllBlank text = true := by
        rw [htext, List.append_cons, Text.isAllBlank_append,
          Text.isAllBlank_append, hfront, hlater, Text.isAllBlank,
          List.all_cons, hc]
        rfl
      have hfind : text.reverse.find? (· != '\n') = some c := by
        rw [List.find?_eq_some_iff_append]
        refine ⟨bne_iff_ne.2 hfeed, feeds.reverse, front.reverse,
          by simp [htext], ?_⟩
        intro d hd
        simp [hfeeds d (List.mem_reverse.1 hd)]
      simp only [Text.trim_eq_nil_iff.2 hblank, hfind]
      rfl

/-- An operand with white space around it, as a search takes it: it ends as
early as possible, and before that it begins as late as possible. -/
structure OperandPlace (front operand back : Text) : Prop where
  ne_nil : operand ≠ []
  feed : '\n' ∉ operand
  blank_front : Text.isAllBlank front = true
  blank_back : Text.isAllBlank back = true
  shortest : ∀ shorter later, operand = shorter ++ later → shorter ≠ [] →
    later ≠ [] →
    ¬ Text.isAllBlank (later ++ back) = true
  latest : ∀ more body behind, more ≠ [] →
    Text.isAllBlank more = true → body ≠ [] →
    '\n' ∉ body → operand ++ back ≠ more ++ (body ++ behind)

theorem HasOperand.exists_place (h : HasOperand text operand) :
    ∃ front back, OperandPlace front operand back
      ∧ text = front ++ (operand ++ back) := by
  cases h with
  | core hne hfeed htext =>
      obtain ⟨⟨front, back, hfront, hback, htext⟩, htight⟩ := htext
      refine ⟨front, back, ⟨hne, hfeed, hfront, hback, ?_, ?_⟩,
        by simpa using htext⟩
      · rintro shorter later rfl - hlater hblank
        rw [Text.isAllBlank_append, Bool.and_eq_true] at hblank
        exact hlater
          (Text.eq_nil_of_isAllBlank hblank.1 htight.getLast?_of_append)
      · intro more body behind hmore hblank _ _ heq
        obtain ⟨d, more, rfl⟩ := List.exists_cons_of_ne_nil hmore
        have hd : isBlank d = false := by
          refine htight.first d ?_
          rw [← List.head?_append_of_ne_nil _ hne, heq]
          rfl
        rw [Text.isAllBlank_iff.1 hblank d List.mem_cons_self] at hd
        cases hd
  | @blank c front feeds hfront hc hfeed hfeeds htext =>
      refine ⟨front, feeds, ⟨List.cons_ne_nil _ _, ?_, hfront,
        Text.isAllBlank_iff.2 fun d hd => hfeeds d hd ▸ rfl, ?_, ?_⟩, htext⟩
      · simpa using hfeed.symm
      · intro shorter later heq hshorter hlater
        have htotal := congrArg List.length heq
        rw [List.length_append, List.length_singleton] at htotal
        have hpositive := List.length_pos_of_ne_nil hshorter
        have hpositive' := List.length_pos_of_ne_nil hlater
        omega
      · intro more body behind hmore _ hbody hbody_feed heq
        obtain ⟨d, more, rfl⟩ := List.exists_cons_of_ne_nil hmore
        obtain ⟨e, body, rfl⟩ := List.exists_cons_of_ne_nil hbody
        -- the body would begin with a line feed
        have hmem : e ∈ [] ++ feeds := by
          rw [show [] ++ feeds
            = more ++ (e :: body ++ behind) from (List.cons.inj heq).2]
          simp
        exact hbody_feed (hfeeds e hmem ▸ List.mem_cons_self)

theorem OperandPlace.prefers_operand {front back : Text}
    (h : OperandPlace front operand back) :
    (Node.operand 2).Prefers text (fun rest => rest = [])
      (front ++ (operand ++ back)) []
      [(2, operand)] := by
  have hstop : ∀ c ∈ ([] : Text).head?, isBlank c = false := nofun
  have hblanks : Node.blanks.Prefers text (fun rest => rest = [])
    (back ++ []) [] [] :=
    Node.prefers_blanks h.blank_back hstop rfl
  rw [List.append_nil] at hblanks
  have hgoal : Leads (Node.blanks.Takes text)
      (fun rest => rest = []) back := by
    rw [Node.leads_blanks]
    exact h.blank_back
  have hshortest : (Node.repetition (.one (.named .any false)) 1 none
      false).Prefers text
      (Leads (Node.blanks.Takes text) fun rest => rest = []) (operand ++ back)
      back [] := by
    refine Pattern.prefers_ofSet (fun c => Pattern.CharSet.has_any)
      (Pattern.forall_bne_feed h.feed)
      (List.length_pos_of_ne_nil h.ne_nil)
      (fun shorter later heq hlength hlater => ?_)
      nofun hgoal
    rw [Node.leads_blanks]
    exact .inr
      (h.shortest shorter later heq (List.ne_nil_of_length_pos hlength) hlater)
  have htext : (Node.operandText 2).Prefers text (fun rest => rest = [])
      (operand ++ back)
      [] [(2, operand)] :=
    Node.prefers_sequence (fun _ => Node.prefers_group 2 hshortest) hblanks
  refine Node.prefers_sequence (fun hleads => ?_) htext
  refine Pattern.prefers_ofSet (fun c => by rw [Pattern.CharSet.has_blank])
    (Text.isAllBlank_iff.1 h.blank_front) (Nat.zero_le _)
    (fun _ _ _ _ _ => .inl rfl) ?_ hleads
  rintro more behind hmore hblank heq - ⟨rest', htakes, -⟩
  obtain ⟨texts, hfinds⟩ := Node.takes_iff.1 htakes
  obtain ⟨_, ⟨body, later, hne, hfeed, -, rfl, -⟩, rfl⟩ :=
    (Node.Reads.operandText 2 _ _ _ _).1 hfinds
  rw [List.append_assoc] at heq
  exact h.latest more body _ hmore (Text.isAllBlank_iff.2 hblank) hne hfeed heq

/-- An operand is there wherever some text without a line feed is. -/
theorem exists_hasOperand {front body back : Text}
    (hfront : Text.isAllBlank front = true) (hne : body ≠ [])
    (hfeed : '\n' ∉ body) (hback : Text.isAllBlank back = true) :
    ∃ operand, HasOperand (front ++ (body ++ back)) operand := by
  obtain ⟨before, behind, hbefore, hbehind, hbody⟩ := Text.padded_trim body
  by_cases hempty : Text.trim body = []
  · have hblank : Text.isAllBlank (front ++ (body ++ back)) = true := by
      rw [Text.isAllBlank_append, Text.isAllBlank_append, hfront, hback,
        Text.trim_eq_nil_iff.1 hempty]
      rfl
    obtain ⟨c, body, rfl⟩ := List.exists_cons_of_ne_nil hne
    have hsome : ((front ++ (c :: body ++ back)).reverse.find?
        (· != '\n')).isSome = true := by
      rw [List.find?_isSome]
      exact ⟨c, by simp,
        bne_iff_ne.2 fun hc => hfeed (hc ▸ List.mem_cons_self)⟩
    obtain ⟨last, hlast⟩ := Option.isSome_iff_exists.1 hsome
    refine ⟨[last], hasOperand_of_operand? ?_⟩
    unfold operand?
    simp only [Text.trim_eq_nil_iff.2 hblank, hlast]
    rfl
  · refine ⟨Text.trim body, .core hempty (fun hmem => hfeed ?_)
      ⟨⟨front ++ before, behind ++ back, ?_, ?_, ?_⟩, Text.tight_trim body⟩⟩
    · rw [hbody]
      exact List.mem_append_left _ (List.mem_append_right _ hmem)
    · rw [Text.isAllBlank_append, hfront, hbefore]
      rfl
    · rw [Text.isAllBlank_append, hbehind, hback]
      rfl
    · conv_lhs => rw [hbody]
      simp

/-- An assignment in a text: a name, a comma, and an operand. -/
inductive HasAssignment : Text → Text → Text → Prop
  | mk {name operand piece after : Text} (hname : IsName name)
      (hpiece : Text.Padded name piece) (hafter : HasOperand after operand) :
      HasAssignment (piece ++ ',' :: after) name operand

theorem HasAssignment.assignment?_eq (h : HasAssignment text name operand) :
    assignment? text = some [name, operand] := by
  obtain ⟨hname, hpiece, hafter⟩ := h
  simp [assignment?, nameAndComma?_eq_some_iff.2 ⟨hname, _, hpiece, rfl⟩,
    hafter.operand?_eq]

theorem exists_hasAssignment_of_assignment? {arguments : List Text}
    (h : assignment? text = some arguments) :
    ∃ name operand, HasAssignment text name operand := by
  simp only [assignment?, Option.bind_eq_bind, Option.bind_eq_some_iff] at h
  obtain ⟨⟨name, after⟩, hcomma, operand, hoperand, -⟩ := h
  obtain ⟨hname, piece, hpiece, rfl⟩ := nameAndComma?_eq_some_iff.1 hcomma
  exact ⟨name, operand, .mk hname hpiece (hasOperand_of_operand? hoperand)⟩

theorem exists_hasAssignment_of_search {found : Pattern.Thread}
    (h : (Node.nameComma 1 (.operand 2)).anchored.search text = some found) :
    ∃ name operand, HasAssignment text name operand := by
  obtain ⟨arguments, hextract⟩ : ∃ arguments,
      (byPattern 2 (.nameComma 1 (.operand 2))).extract text = .ok arguments :=
    exists_extract_custom_iff.2 (h ▸ rfl)
  have hreads := Node.Reads.nameComma 1
    (Node.Reads.blanks.sequence (Node.Reads.operandText 2))
  obtain ⟨_,
    ⟨name, piece, after, _, hname, hpiece, ⟨front, _, _, _, ⟨hfront, -⟩,
    ⟨body, back, hne, hfeed, hback, rfl, -⟩, rfl, -⟩, rfl, -⟩, -⟩ :=
    exists_form_of_extract (by decide) hreads hextract
  obtain ⟨operand, hoperand⟩ := exists_hasOperand hfront hne hfeed hback
  exact ⟨name, operand, .mk hname hpiece hoperand⟩

theorem HasAssignment.search_anchored (h : HasAssignment text name operand) :
    ∃ found, (Node.nameComma 1 (.operand 2)).anchored.search text = some found
      ∧ groupsOf 2 found = [name, operand] := by
  obtain ⟨hname, ⟨front, back, hfront, hback, rfl⟩, hafter⟩ := h
  obtain ⟨before, behind, hplace, rfl⟩ := hafter.exists_place
  have htext : front ++ name ++ back ++ ',' :: (before ++ (operand ++ behind))
      = front ++ (name
        ++ (back ++ ',' :: (before ++ (operand ++ behind)))) := by simp
  rw [htext]
  obtain ⟨found, hsearch, hgroups⟩ :=
    Node.search_anchored_of_prefers (by decide)
    (Node.prefers_nameComma 1 hname hfront hback hplace.prefers_operand)
  refine ⟨found, hsearch, ?_⟩
  rw [groupsOf, List.range_succ, List.range_one]
  exact congrArg₂ (fun first second => [first, second])
    (Pattern.group_eq hgroups 1) (Pattern.group_eq hgroups 2)

theorem assignment?_eq_search (text : Text) :
    assignment? text
      = ((Node.nameComma 1 (.operand 2)).anchored.search text).map
        (groupsOf 2) := by
  rw [Option.map_eq_bind]
  refine Node.eq_bind_search (∃ name operand, HasAssignment text name operand)
    (fun found => exists_hasAssignment_of_search)
    (fun arguments => exists_hasAssignment_of_assignment?) ?_
  rintro ⟨name, operand, hassignment⟩
  obtain ⟨found, hsearch, hgroups⟩ := hassignment.search_anchored
  refine ⟨found, hsearch, ?_⟩
  rw [hassignment.assignment?_eq, Function.comp_apply, hgroups]

/-- The signature by the pattern for an assignment does what `assignment`
does. -/
theorem ofPattern_assignmentSource :
    ∃ signature, ofPattern 2 assignmentSource = .ok signature
      ∧ ∀ text, signature.extract text = assignment.extract text := by
  have hread : Pattern.compile?
      ("^(?:".toList ++ assignmentSource ++ ")$".toList)
      = some (Node.nameComma 1 (.operand 2)).anchored := by decide +kernel
  refine ⟨byPattern 2 (.nameComma 1 (.operand 2)),
    ofPattern_of_compile? hread (by decide), fun text => ?_⟩
  rw [extract, extract, assignment?_eq_search]

end Signature

end LineScript
