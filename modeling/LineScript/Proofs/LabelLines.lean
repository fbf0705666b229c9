/-
Label lines, exactly.

A label line is written as a colon and a label name, with white space
around them, and perhaps a comment behind (`Line.LabelForm`). Every line
that is recognised as one is of that form. The converse has one
exception: the comment must not contain a line feed. Under the two usual
separators none does, but a script may be cut at a separator of its own,
and then a line of this form with a line feed in its comment is taken for
a command (`classify_of_labelForm` says so of every line of the form).

What is recognised is registered: at every turn of a run the label of
such a line has the index of the line, and a jump to it goes there.
-/
import LineScript.Proofs.Counter
import LineScript.Proofs.Lexing
import LineScript.Proofs.Preparation

set_option autoImplicit false

namespace LineScript

-- ================================================================ names

namespace Text

variable {text name after rest : Text}

/-- What is split off as a label name is one. -/
theorem isLabelName_of_splitLabelName?
    (h : splitLabelName? text = some (name, after)) :
    isLabelName name = true := by
  cases text with
  | nil => cases h
  | cons c text =>
      simp only [splitLabelName?] at h
      split at h
      next hletter =>
        cases h
        have hc : isNameChar c = true := by
          rw [isNameChar, hletter]
          rfl
        rw [List.takeWhile_cons_of_pos hc, isLabelName, hletter, Bool.true_and,
          List.all_eq_true]
        exact fun d hd => List.mem_takeWhile_imp hd
      next => cases h

/-- A label name is recognised in front of any character that is in no
name, and at the end. -/
theorem splitLabelName?_of_isLabelName (h : isLabelName name = true)
    (hrest : ∀ c ∈ rest.head?, isNameChar c = false) :
    splitLabelName? (name ++ rest) = some (name, rest) := by
  cases name with
  | nil => cases h
  | cons c name =>
      rw [isLabelName, Bool.and_eq_true, List.all_eq_true] at h
      obtain ⟨hletter, hchars⟩ := h
      have hall : ∀ d ∈ c :: name, isNameChar d = true := by
        intro d hd
        rcases List.mem_cons.1 hd with rfl | hd
        · rw [isNameChar, hletter]
          rfl
        · exact hchars d hd
      obtain ⟨htake, hdrop⟩ := span_append hall hrest
      rw [List.cons_append] at htake hdrop
      simp only [List.cons_append, splitLabelName?, htake, hdrop,
        hletter, if_true]

end Text

-- ================================================================ lines

namespace Line

variable {line name front back tail : Text} {comment : Option Text}

/-- A label line as it is written, without a comment or with one. -/
inductive LabelForm (name : Text) : Option Text → Text → Prop
  | bare (front back : Text) (hname : Text.isLabelName name = true)
      (hfront : Text.isAllBlank front = true)
      (hback : Text.isAllBlank back = true) :
      LabelForm name none (front ++ ":".toList ++ name ++ back)
  | remarked (front back text : Text) (hname : Text.isLabelName name = true)
      (hfront : Text.isAllBlank front = true)
      (hback : Text.isAllBlank back = true) :
      LabelForm name (some text)
        (front ++ ":".toList ++ name ++ back ++ "#".toList ++ text)

/-- A colon and a label name with white space around them, and nothing or
a comment behind: it is up to the line feeds. -/
theorem classify_colon_line (hname : Text.isLabelName name = true)
    (hfront : Text.isAllBlank front = true)
    (hback : Text.isAllBlank back = true)
    (htail : tail = [] ∨ ∃ text, tail = '#' :: text) :
    classify "#".toList (front ++ ':' :: (name ++ (back ++ tail)))
      = if '\n' ∈ tail then .other else .label name := by
  have hbody : Text.trimStart (front ++ ':' :: (name ++ (back ++ tail)))
      = ':' :: (name ++ (back ++ tail)) := by
    rw [Text.trimStart_append_of_blank hfront]
    exact Text.trimStart_cons_of_not_blank rfl _
  have hafter : Text.trimStart (back ++ tail) = tail := by
    rw [Text.trimStart_append_of_blank hback]
    rcases htail with rfl | ⟨text, rfl⟩
    · rfl
    · exact Text.trimStart_cons_of_not_blank rfl text
  -- the name ends at white space, at the mark of the comment, or with the line
  have hend : ∀ c ∈ (back ++ tail).head?, isNameChar c = false := by
    intro c hc
    cases back with
    | nil =>
        rcases htail with rfl | ⟨text, rfl⟩
        · cases hc
        · cases hc
          rfl
    | cons d back =>
        cases hc
        exact isNameChar_of_isBlank
          (Text.isAllBlank_iff.1 hback _ List.mem_cons_self)
  have hmark : tail.isEmpty = true
      ∨ Text.startsWith tail "#".toList = true := by
    rcases htail with rfl | ⟨text, rfl⟩
    · exact .inl rfl
    · exact .inr (Text.startsWith_append_self "#".toList text)
  have hlabel : label? "#".toList (front ++ ':' :: (name ++ (back ++ tail)))
      = if '\n' ∈ tail then none else some name := by
    unfold label?
    rw [hbody]
    simp only [Text.splitLabelName?_of_isLabelName hname hend, hafter, hmark,
      and_true, ite_not]
  rw [classify_eq_elim (by rw [hbody]; exact List.cons_ne_nil _ _)
    (by rw [hbody]; exact Text.startsWith_cons_of_ne _ _ (by decide)), hlabel]
  split
  · rfl
  · rfl

/-- A line of the form of a label line is one unless there is a line feed
in its comment. -/
theorem classify_of_labelForm (h : LabelForm name comment line) :
    classify "#".toList line = if '\n' ∈ comment.getD [] then .other
      else .label name := by
  cases h with
  | bare front back hname hfront hback =>
      have hline := classify_colon_line hname hfront hback (.inl rfl)
      rw [List.append_nil] at hline
      simpa using hline
  | remarked front back text hname hfront hback =>
      have hline := classify_colon_line hname hfront hback (.inr ⟨text, rfl⟩)
      simpa using hline

/-- The name of a label line is the one that is recognised in it. -/
theorem label?_of_classify {marker : Text}
    (h : classify marker line = .label name) :
    label? marker line = some name := by
  unfold classify at h
  simp only at h
  split at h
  · cases h
  · split at h
    · cases h
    · split at h
      next found hfound =>
        cases h
        exact hfound
      next => cases h

/-- Whatever the marker is, a label line defines a label name. -/
theorem isLabelName_of_classify {marker : Text}
    (h : classify marker line = .label name) :
    Text.isLabelName name = true := by
  have hlabel := label?_of_classify h
  unfold label? at hlabel
  split at hlabel
  next =>
    split at hlabel
    next => cases hlabel
    next found after hsplit =>
      simp only at hlabel
      split at hlabel
      next =>
        cases hlabel
        exact Text.isLabelName_of_splitLabelName? hsplit
      next => cases hlabel
  next => cases hlabel

/-- What is recognised as a label line is of the form of one. -/
theorem exists_labelForm (h : classify "#".toList line = .label name) :
    ∃ comment, LabelForm name comment line ∧ '\n' ∉ comment.getD [] := by
  have hlabel := label?_of_classify h
  unfold label? at hlabel
  split at hlabel
  next rest hbody =>
    split at hlabel
    next => cases hlabel
    next found after hsplit =>
      simp only at hlabel
      split at hlabel
      next htail =>
        cases hlabel
        obtain ⟨front, hfront, hline⟩ :=
          Text.exists_blank_append_trimStart line
        obtain ⟨back, hback, hafter⟩ :=
          Text.exists_blank_append_trimStart after
        obtain ⟨hrest, -⟩ := Text.append_of_splitLabelName? hsplit
        have hname := Text.isLabelName_of_splitLabelName? hsplit
        have hwritten : line
            = front ++ ':' :: (name ++ (back ++ Text.trimStart after)) := by
          calc line = front ++ ':' :: rest := by rw [← hbody, ← hline]
            _ = front ++ ':' :: (name ++ (back ++ Text.trimStart after)) := by
              rw [← hafter, ← hrest]
        obtain ⟨hfeed, hempty | hmark⟩ := htail
        · rw [List.isEmpty_iff] at hempty
          have hbare := LabelForm.bare front back hname hfront hback
          rw [hempty] at hwritten
          refine ⟨none, ?_, List.not_mem_nil⟩
          simpa [hwritten] using hbare
        · obtain ⟨text, htext⟩ := List.isPrefixOf_iff_prefix.1 hmark
          have hremarked :=
            LabelForm.remarked front back text hname hfront hback
          rw [← htext] at hwritten hfeed
          refine ⟨some text, ?_,
            fun hmem => hfeed (List.mem_append_right _ hmem)⟩
          simpa [hwritten] using hremarked
      next => cases hlabel
  next => cases hlabel

end Line

-- ================================================================ jumps

open StateTransition

variable {η : Type} [Host η]

/-- A jump to a label that is in the table goes to the line of the label
and does nothing else. -/
theorem Engine.advance?_of_jump {engine : Engine Output} {listing : Listing}
    {here : State Output × η} {instruction : Instruction} {call : Call}
    {i : Nat} (hcall : engine.Calls listing here.1 instruction call)
    (haction : instruction.action call here.1.machine = .ok (.goTo i)) :
    engine.advance? listing here = some (here.1.goingTo i, here.2) := by
  have houtcome : instruction.outcome call here.1.machine here.2
      = ⟨here.1.machine.vars, none, .ok (some i), here.2⟩ := by
    unfold Instruction.outcome
    rw [haction]
    rfl
  apply Engine.advance?_eq_some_iff.2
  rw [hcall.result_step, houtcome]
  rfl

namespace Interpreter

variable {interpreter : Interpreter} {settings : Settings} {source name : Text}
  {host : η} {listing : Listing} {here : State Output × η} {i : Nat}
  {line : Text}

/-- At every turn of a run the label of a label line has the index of the
line. -/
theorem label?_of_visits (built : interpreter.BuiltFor settings)
    (hvisit : interpreter.Visits source host listing here)
    (hline : (interpreter.engine.pieces source)[i]? = some line)
    (hkind : Line.classify settings.marker line = .label name) :
    here.1.machine.label? name = some i := by
  unfold Machine.label?
  rw [(fits_of_visits built hvisit).2]
  obtain ⟨offers, ⟨-, hthrough⟩ | ⟨j, raw, other, hrefused, -⟩⟩ :=
    Engine.readFrom_of_cutsComments built.isScript.cutsComments
      interpreter.state.own (interpreter.engine.pieces source)
  · rw [← built.settings_eq] at hkind
    exact (hthrough.label name i).2 ⟨line, hline, hkind⟩
  · have hlisting := hvisit.1
    unfold reading Engine.read Reading.listing at hlisting
    rw [hrefused] at hlisting
    cases hlisting

/-- Label lines, exactly. A line is recognised as the line of a label if
and only if it is of the form of one and there is no line feed in its
comment; with a line feed there it is taken for a command. In a run of
any script, cut at whatever separator, the label of such a line has the
index of the line at every turn, and the jumps to the label go there. -/
theorem label_line_exact (built : interpreter.BuiltFor settings)
    (hmarker : settings.marker = "#".toList) (source : Text) (host : η) :
    (∀ line name, Line.classify "#".toList line = .label name
        ↔ ∃ comment, Line.LabelForm name comment line ∧ '\n' ∉ comment.getD [])
      ∧ (∀ line name comment, Line.LabelForm name comment line →
        '\n' ∈ comment.getD [] →
          Line.classify "#".toList line = .other)
      ∧ ∀ listing here, interpreter.Visits source host listing here →
          ∀ i line name comment,
            (interpreter.engine.pieces source)[i]? = some line →
            Line.LabelForm name comment line → '\n' ∉ comment.getD [] →
            here.1.machine.label? name = some i
              ∧ (∀ call, interpreter.engine.Calls listing here.1 .jump call →
                  call.argument 0 = name →
                  interpreter.engine.advance? listing here
                    = some (here.1.goingTo i, here.2))
              ∧ ∀ comparison call,
                  interpreter.engine.Calls listing here.1
                    (.branch comparison) call →
                  call.argument 2 = name →
                  Instruction.holds comparison call here.1.machine = .ok true →
                  interpreter.engine.advance? listing here
                    = some (here.1.goingTo i, here.2) := by
  refine ⟨fun line name => ⟨Line.exists_labelForm, ?_⟩, ?_, ?_⟩
  · rintro ⟨comment, hform, hfeed⟩
    rw [Line.classify_of_labelForm hform, if_neg hfeed]
  · intro line name comment hform hfeed
    rw [Line.classify_of_labelForm hform, if_pos hfeed]
  · intro listing here hvisit i line name comment hline hform hfeed
    have hkind : Line.classify settings.marker line = .label name := by
      rw [hmarker, Line.classify_of_labelForm hform, if_neg hfeed]
    have hlabel := label?_of_visits built hvisit hline hkind
    have hoperand : ∀ {call : Call} {position : Nat},
        call.argument position = name →
        Operand.label call here.1.machine position = .ok i := by
      rintro call position rfl
      unfold Operand.label
      rw [hlabel]
    refine ⟨hlabel, ?_, ?_⟩
    · intro call hcall hname
      exact Engine.advance?_of_jump hcall
        (bind_eq_ok_iff.2 ⟨i, hoperand hname, rfl⟩)
    · intro comparison call hcall hname hholds
      exact Engine.advance?_of_jump hcall
        (bind_eq_ok_iff.2
          ⟨true, hholds, bind_eq_ok_iff.2 ⟨i, hoperand hname, rfl⟩⟩)

/-- For instance, in a script cut at semicolons, with a comment behind the
label. -/
theorem label_line_exact_of_semicolons :
    ∃ (interpreter : Interpreter) (listing : Listing)
      (here : State Output × MemoryHost),
      interpreter.Visits "goto top;end;\t:top # it's".toList
        (⟨.empty⟩ : MemoryHost) listing here
        ∧ (interpreter.engine.pieces "goto top;end;\t:top # it's".toList)[2]?
            = some "\t:top # it's".toList
        ∧ Line.LabelForm "top".toList (some " it's".toList)
          "\t:top # it's".toList
        ∧ here.1.machine.label? "top".toList = some 2
        ∧ interpreter.engine.advance? listing here
          = some (here.1.goingTo 2, here.2) := by
  have built : (⟨⟨{ separator := some ";".toList }, cutComment,
      scriptLanguage.bound⟩, { own := .empty }⟩ : Interpreter).BuiltFor
      { separator := some ";".toList } := rfl
  have hform : Line.LabelForm "top".toList (some " it's".toList)
      "\t:top # it's".toList :=
    .remarked "\t".toList " ".toList " it's".toList rfl rfl rfl
  obtain ⟨-, -, hruns⟩ :=
    label_line_exact built rfl "goto top;end;\t:top # it's".toList
    (⟨.empty⟩ : MemoryHost)
  obtain ⟨hlabel, hjump, -⟩ :=
    hruns _ _ ⟨rfl, .refl⟩ 2 _ _ _ rfl hform (by decide)
  refine ⟨_, _, _, ⟨rfl, .refl⟩, rfl, hform, hlabel, ?_⟩
  exact hjump ⟨0, "goto top".toList, "goto".toList, ["top".toList]⟩
    ⟨rfl, rfl, rfl, rfl, rfl⟩ rfl

/-- A line that is of the form of a label line and is not taken for one:
its comment goes on behind a line feed. -/
theorem label_line_with_feed :
    Line.LabelForm "top".toList (some " first\nsecond".toList)
      ":top # first\nsecond".toList
      ∧ Line.classify "#".toList ":top # first\nsecond".toList = .other :=
  ⟨.remarked [] " ".toList " first\nsecond".toList rfl rfl rfl, by decide⟩

end Interpreter

end LineScript
