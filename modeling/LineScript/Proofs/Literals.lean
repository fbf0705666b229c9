/-
Everything can be written down.

Each string and each list of strings has a spelling as a literal
(`Literal.Spells`), and an assignment of that literal stores it and
nothing else, whatever comment stands behind it.

An assignment is read by five recognisers one after the other: the kind
of the line, the scan for a comment, the keyword, the arguments, the
literal. All but the last have to leave the literal as it is, and that
needs little of it (`Literal.Inert`): that a scan for comments goes over
it and comes out outside quotes, and that it has white space neither at
its ends nor line feeds inside. The last recogniser is followed along
the items of a list, from one cell to the next.
-/
import LineScript.Proofs.Comments

set_option autoImplicit false

namespace LineScript

variable {η : Type}

-- ============================================================== escapes

/-- Whether a character cannot stand in a literal as it is: it would end
the literal, begin an escape, or end the line. -/
def needsEscape (c : Char) : Bool :=
  c = '\'' || c = '\\' || c = '\r' || c = '\n'

theorem needsEscape_iff {c : Char} :
    needsEscape c = true ↔ c = '\'' ∨ c = '\\' ∨ c = '\r' ∨ c = '\n' := by
  simp [needsEscape, or_assoc]

namespace Text

/-- A text as it is written between quotes. -/
def encode (text : Text) : Text :=
  text.flatMap fun c =>
    if needsEscape c then '\\' :: 'x' :: hexByte c.toNat else [c]

theorem encode_cons (c : Char) (text : Text) :
    encode (c :: text)
      = (if needsEscape c then '\\' :: 'x' :: hexByte c.toNat else [c])
        ++ encode text := rfl

/-- Escapes are read back, and what they stand for is not looked at
again. -/
theorem expandEscapes_encode (text : Text) :
    expandEscapes (encode text) = text := by
  unfold expandEscapes
  induction text with
  | nil => rfl
  | cons c rest ih =>
      rw [encode_cons]
      by_cases hc : needsEscape c = true
      · rw [if_pos hc]
        rcases needsEscape_iff.1 hc with rfl | rfl | rfl | rfl
        · exact congrArg _ ih
        · exact congrArg _ ih
        · exact congrArg _ ih
        · exact congrArg _ ih
      · have hbackslash : c ≠ '\\' :=
          fun heq => hc (needsEscape_iff.2 (.inr (.inl heq)))
        rw [if_neg hc, List.singleton_append, expandFrom,
          if_neg hbackslash, ih]

/-- No quote is left in a text that is written between quotes, and no end
of a line. -/
theorem not_mem_encode {d : Char} (hd : d = '\'' ∨ d = '\r' ∨ d = '\n')
    (text : Text) :
    d ∉ encode text := by
  induction text with
  | nil => exact List.not_mem_nil
  | cons c rest ih =>
      rw [encode_cons, List.mem_append, not_or]
      refine ⟨?_, ih⟩
      by_cases hc : needsEscape c = true
      · rw [if_pos hc]
        rcases needsEscape_iff.1 hc with rfl | rfl | rfl | rfl <;>
          rcases hd with rfl | rfl | rfl <;> decide
      · rw [if_neg hc, List.mem_singleton]
        rintro rfl
        apply hc
        rcases hd with rfl | rfl | rfl
        · rfl
        · rfl
        · rfl

theorem splitAtFirst?_append {mark : Char} {before : Text} (h : mark ∉ before)
    (after : Text) :
    splitAtFirst? mark (before ++ mark :: after) = some (before, after) := by
  induction before with
  | nil => simp [splitAtFirst?]
  | cons c before ih =>
      obtain ⟨hc, hbefore⟩ := List.ne_and_not_mem_of_not_mem_cons h
      rw [List.cons_append, splitAtFirst?, if_neg (Ne.symm hc), ih hbefore]
      rfl

/-- White space that can stand on a line. -/
def IsGap (gap : Text) : Prop :=
  isAllBlank gap = true ∧ '\r' ∉ gap ∧ '\n' ∉ gap

instance (gap : Text) : Decidable (IsGap gap) :=
  inferInstanceAs (Decidable (_ ∧ _ ∧ _))

end Text

-- ============================================================= literals

namespace Literal

/-- A string as a literal. -/
def quote (text : Text) : Text := '\'' :: (Text.encode text ++ ['\''])

/-- A string in a list, with the white space around it. -/
structure Cell where
  before : Text
  item : Text
  after : Text

/-- A cell as it is written. -/
def Cell.text (cell : Cell) : Text :=
  cell.before ++ quote cell.item ++ cell.after

/-- White space around a string that may be there. -/
def Cell.Spaced (cell : Cell) : Prop :=
  Text.IsGap cell.before ∧ Text.IsGap cell.after

instance (cell : Cell) : Decidable cell.Spaced :=
  inferInstanceAs (Decidable (_ ∧ _))

/-- The cells of a list with their commas, and the bracket behind them. -/
def cellsText (cells : List Cell) : Text :=
  List.intercalate [','] (cells.map Cell.text) ++ [']']

/-- Literals for strings and lists of strings. -/
inductive Spells : Value → Text → Prop
  | string (text : Text) : Spells (.string text) (quote text)
  | list {gap : Text} {cells : List Cell} (hgap : Text.IsGap gap)
      (hcells : ∀ cell ∈ cells, cell.Spaced) :
      Spells (.list (cells.map Cell.item)) ('[' :: (gap ++ cellsText cells))

-- -------------------------------------------------------- strings

theorem quoted?_quote (text rest : Text) :
    quoted? (quote text ++ rest) = some (Text.encode text, rest) := by
  have hquote : '\'' ∉ Text.encode text := Text.not_mem_encode (.inl rfl) text
  have hshape : quote text ++ rest
      = '\'' :: (Text.encode text ++ '\'' :: rest) := by
    simp [quote]
  rw [hshape]
  exact Text.splitAtFirst?_append hquote rest

theorem string?_quote (text : Text) : string? (quote text) = some text := by
  have hquoted := quoted?_quote text []
  rw [List.append_nil] at hquoted
  unfold string?
  rw [hquoted]
  exact congrArg some (Text.expandEscapes_encode text)

/-- A text is no numeral unless it begins with a digit, or a minus
sign. -/
theorem number?_eq_none {c : Char} (hdigit : c.isDigit = false)
    (hminus : c ≠ '-') (hpoint : c ≠ '.') (rest : Text) :
    number? (c :: rest) = none := by
  have hdigits : ∀ whole : Text, isDigits (c :: whole) = false := by
    intro whole
    simp [isDigits, hdigit]
  have hmagnitude : magnitude? false (c :: rest) = none := by
    unfold magnitude?
    rw [Text.splitAtFirst?, if_neg hpoint]
    cases Text.splitAtFirst? '.' rest with
    | none => simp [hdigits]
    | some parts => simp [hdigits]
  unfold number?
  split
  next heq => exact absurd (List.cons.inj heq).1 hminus
  next => exact hmagnitude

theorem read?_quote (text : Text) :
    read? (quote text) = some (.value (.string text)) := by
  have hnumber : number? (quote text) = none :=
    number?_eq_none rfl (by decide) (by decide) _
  unfold read?
  rw [hnumber, string?_quote]

-- ---------------------------------------------------------- lists

/-- The items of a list are the first one and those behind its comma. -/
theorem items?_of_quoted {text body rest : Text}
    (h : quoted? text = some (body, rest)) :
    items? text = match Text.trimStart rest with
      | [']'] => some [Text.expandEscapes body]
      | ',' :: more =>
        (items? (Text.trimStart more)).map (Text.expandEscapes body :: ·)
      | _ => none := by
  rw [items?]
  split
  next hnone =>
    rw [h] at hnone
    cases hnone
  next body' rest' hsome =>
    rw [h] at hsome
    cases hsome
    split
    next htail =>
      rw [htail]
      rfl
    next htail =>
      rw [htail]
      rfl
    next hbracket hcomma =>
      split
      next htail => exact absurd htail hbracket
      next more htail => exact absurd htail (hcomma more)
      next => rfl

theorem cellsText_singleton (cell : Cell) :
    cellsText [cell] = cell.text ++ [']'] := by
  rw [cellsText, List.map_singleton, List.intercalate_singleton]

theorem cellsText_cons_cons (cell next : Cell) (rest : List Cell) :
    cellsText (cell :: next :: rest)
      = cell.text ++ ',' :: cellsText (next :: rest) := by
  have hne : (next :: rest).map Cell.text ≠ [] := by simp
  rw [cellsText, List.map_cons, List.intercalate_cons_of_ne_nil hne, cellsText]
  simp

/-- A cell is the first item of a list, and what follows it decides
whether there are more. -/
theorem items?_cell {cell : Cell} (hspaced : cell.Spaced) (rest : Text) :
    items? (Text.trimStart (cell.text ++ rest))
      = match Text.trimStart rest with
        | [']'] => some [cell.item]
        | ',' :: more => (items? (Text.trimStart more)).map (cell.item :: ·)
        | _ => none := by
  obtain ⟨⟨hbefore, -⟩, hafter, -⟩ := hspaced
  have hshape : cell.text ++ rest
      = cell.before ++ (quote cell.item ++ (cell.after ++ rest)) := by
    simp [Cell.text]
  have hstart : Text.trimStart (quote cell.item ++ (cell.after ++ rest))
      = quote cell.item ++ (cell.after ++ rest) :=
    Text.trimStart_cons_of_not_blank rfl _
  rw [hshape, Text.trimStart_append_of_blank hbefore, hstart,
    items?_of_quoted (quoted?_quote cell.item _),
    Text.trimStart_append_of_blank hafter, Text.expandEscapes_encode]

/-- The items of a list are those of its cells. -/
theorem items?_cellsText {cells : List Cell} (hne : cells ≠ [])
    (hspaced : ∀ cell ∈ cells, cell.Spaced) :
    items? (Text.trimStart (cellsText cells))
      = some (cells.map Cell.item) := by
  induction cells with
  | nil => exact absurd rfl hne
  | cons cell rest ih =>
      have hcell := hspaced cell List.mem_cons_self
      cases rest with
      | nil =>
          rw [cellsText_singleton, items?_cell hcell]
          rfl
      | cons next rest =>
          have hrest := ih (List.cons_ne_nil _ _) fun other hother =>
            hspaced other (List.mem_cons_of_mem _ hother)
          have hcomma : Text.trimStart (',' :: cellsText (next :: rest))
              = ',' :: cellsText (next :: rest) :=
            Text.trimStart_cons_of_not_blank rfl _
          rw [cellsText_cons_cons, items?_cell hcell, hcomma]
          simp only [hrest]
          rfl

/-- A list is read back, whatever white space is in it. -/
theorem list?_cellsText {gap : Text} {cells : List Cell}
    (hgap : Text.IsGap gap) (hspaced : ∀ cell ∈ cells, cell.Spaced) :
    list? ('[' :: (gap ++ cellsText cells)) = some (cells.map Cell.item) := by
  unfold list?
  simp only
  rw [Text.trimStart_append_of_blank hgap.1]
  by_cases hne : cells = []
  · subst hne
    rfl
  · have hitems := items?_cellsText hne hspaced
    split
    next hbracket =>
      -- there is no item in a bracket
      have hnone : items? [']'] = none := by
        rw [items?]
        rfl
      rw [hbracket, hnone] at hitems
      cases hitems
    next => exact hitems

theorem read?_cellsText {gap : Text} {cells : List Cell}
    (hgap : Text.IsGap gap) (hspaced : ∀ cell ∈ cells, cell.Spaced) :
    read? ('[' :: (gap ++ cellsText cells))
      = some (.value (.list (cells.map Cell.item))) := by
  have hnumber : number? ('[' :: (gap ++ cellsText cells)) = none :=
    number?_eq_none rfl (by decide) (by decide) _
  have hstring : string? ('[' :: (gap ++ cellsText cells)) = none := rfl
  unfold read?
  rw [hnumber, hstring, list?_cellsText hgap hspaced]

end Literal

-- ========================================================= parts of lines

/-- Whether a character means nothing to a scan for comments, and does not
end a line. -/
def Line.isPlain (c : Char) : Bool :=
  c ≠ '\'' && c ≠ '#' && c ≠ '\r' && c ≠ '\n'

/-- A part of a line that leaves the rest of it alone: it does not end the
line, and a scan for a comment goes over it. -/
structure Line.Neutral (text : Text) : Prop where
  passes : Line.Passes ['#'] false text false
  noReturn : '\r' ∉ text
  noFeed : '\n' ∉ text

namespace Line.Neutral

theorem append {a b : Text} (ha : Neutral a) (hb : Neutral b) :
    Neutral (a ++ b) where
  passes := ha.passes.append hb.passes (Text.noStraddle_singleton '#' b)
  noReturn := by
    rw [List.mem_append, not_or]
    exact ⟨ha.noReturn, hb.noReturn⟩
  noFeed := by
    rw [List.mem_append, not_or]
    exact ⟨ha.noFeed, hb.noFeed⟩

/-- Without quotes and markers there is nothing to a scan. -/
theorem of_plain {text : Text} (h : text.all isPlain = true) :
    Neutral text where
  passes :=
    .of_plain (fun hmem => absurd (List.all_eq_true.1 h _ hmem) (by decide))
      fun hmem => absurd (List.all_eq_true.1 h _ hmem) (by decide)
  noReturn hmem := absurd (List.all_eq_true.1 h _ hmem) (by decide)
  noFeed hmem := absurd (List.all_eq_true.1 h _ hmem) (by decide)

theorem of_isGap {gap : Text} (h : Text.IsGap gap) : Neutral gap where
  passes := by
    have hblank := Text.isAllBlank_iff.1 h.1
    exact .of_plain (fun hmem => absurd (hblank _ hmem) (by decide))
      fun hmem =>
      absurd (hblank _ hmem) (by decide)
  noReturn := h.2.1
  noFeed := h.2.2

theorem of_isIdentifier {name : Text} (h : Text.isIdentifier name = true) :
    Neutral name := by
  obtain ⟨-, -, -, -, hchars⟩ := Text.exists_cons_of_isIdentifier h
  exact ⟨.of_plain (fun hmem => absurd (hchars _ hmem) (by decide)) fun hmem =>
      absurd (hchars _ hmem) (by decide),
    fun hmem => absurd (hchars _ hmem) (by decide),
    fun hmem => absurd (hchars _ hmem) (by decide)⟩

theorem stripComment?_eq {line : Text} (h : Neutral line) :
    stripComment? ['#'] line = none := by
  rw [stripComment?, h.passes.none]
  rfl

/-- A line that is such a part can be all of a script. -/
theorem of_mem_singleton {line : Text} (h : Neutral line) :
    ∀ other ∈ [line], '\r' ∉ other ∧ '\n' ∉ other := by
  intro other hother
  rw [List.mem_singleton.1 hother]
  exact ⟨h.noReturn, h.noFeed⟩

end Line.Neutral

namespace Literal

/-- Between quotes everything is left alone that does not end the line. -/
theorem neutral_quoted {body : Text} (hquote : '\'' ∉ body)
    (hreturn : '\r' ∉ body) (hfeed : '\n' ∉ body) :
    Line.Neutral ('\'' :: (body ++ ['\''])) := by
  have hopen : Line.Passes ['#'] false ['\''] true := ⟨rfl, rfl⟩
  have hclose : Line.Passes ['#'] true ['\''] false := ⟨rfl, rfl⟩
  have hbody : Line.Passes ['#'] true body true := .of_quoted hquote
  have hapart : ∀ d, d ≠ '\'' → d ∉ body → d ∉ '\'' :: (body ++ ['\'']) := by
    intro d hd hmem
    simp only [List.mem_cons, List.mem_append, List.not_mem_nil,
      or_false, not_or]
    exact ⟨hd, hmem, hd⟩
  exact ⟨hopen.append (hbody.append hclose (Text.noStraddle_singleton '#' _))
    (Text.noStraddle_singleton '#' _), hapart _ (by decide) hreturn,
    hapart _ (by decide) hfeed⟩

theorem neutral_quote (text : Text) : Line.Neutral (quote text) :=
  neutral_quoted (Text.not_mem_encode (.inl rfl) text)
    (Text.not_mem_encode (.inr (.inl rfl)) text)
    (Text.not_mem_encode (.inr (.inr rfl)) text)

theorem Cell.Spaced.neutral {cell : Cell} (h : cell.Spaced) :
    Line.Neutral cell.text :=
  ((Line.Neutral.of_isGap h.1).append (neutral_quote cell.item)).append
    (.of_isGap h.2)

theorem neutral_cellsText {cells : List Cell}
    (hspaced : ∀ cell ∈ cells, cell.Spaced) :
    Line.Neutral (cellsText cells) := by
  induction cells with
  | nil => exact .of_plain rfl
  | cons cell rest ih =>
      have hcell := hspaced cell List.mem_cons_self
      cases rest with
      | nil =>
          rw [cellsText_singleton]
          exact hcell.neutral.append (.of_plain rfl)
      | cons next rest =>
          have hrest := ih fun other hother =>
            hspaced other (List.mem_cons_of_mem _ hother)
          have hcomma : Line.Neutral [','] := .of_plain rfl
          rw [cellsText_cons_cons]
          exact hcell.neutral.append (hcomma.append hrest)

/-- An operand that the recognisers of lines leave as it is. -/
structure Inert (operand : Text) : Prop extends Line.Neutral operand where
  ne_nil : operand ≠ []
  trimStart : Text.trimStart operand = operand
  trimEnd : Text.trimEnd operand = operand

theorem inert_quoted {body : Text}
    (h : Line.Neutral ('\'' :: (body ++ ['\'']))) :
    Inert ('\'' :: (body ++ ['\''])) := by
  have hend : Text.trimEnd ['\''] ≠ [] := by decide
  exact ⟨h, List.cons_ne_nil _ _, Text.trimStart_cons_of_not_blank rfl _,
    Text.trimEnd_append hend ('\'' :: body)⟩

theorem Spells.inert {value : Value} {operand : Text}
    (h : Spells value operand) :
    Inert operand := by
  cases h with
  | string text => exact inert_quoted (neutral_quote text)
  | @list gap cells hgap hspaced =>
      have hbracket : Line.Neutral ['['] := .of_plain rfl
      have hneutral : Line.Neutral ('[' :: (gap ++ cellsText cells)) :=
        hbracket.append
          ((Line.Neutral.of_isGap hgap).append (neutral_cellsText hspaced))
      refine ⟨hneutral, List.cons_ne_nil _ _,
        Text.trimStart_cons_of_not_blank rfl _, ?_⟩
      have hend : Text.trimEnd [']'] ≠ [] := by decide
      have hshape : '[' :: (gap ++ cellsText cells)
          = '[' :: (gap ++ List.intercalate [','] (cells.map Cell.text))
            ++ [']'] := by
        simp [cellsText]
      rw [hshape]
      exact Text.trimEnd_append hend _

theorem Spells.read? {value : Value} {operand : Text}
    (h : Spells value operand) :
    read? operand = some (.value value) := by
  cases h with
  | string text => exact read?_quote text
  | list hgap hspaced => exact read?_cellsText hgap hspaced

end Literal

-- ============================================================ assignments

section Assignment

variable {name front back operand behind : Text}

/-- The arguments of an assignment, as they are written. -/
def assignmentArguments (name front back operand : Text) : Text :=
  name ++ (front ++ ',' :: (back ++ operand))

/-- An assignment, as it is written. -/
def assignmentLine (name front back operand behind : Text) : Text :=
  "set ".toList ++ assignmentArguments name front back operand ++ behind

/-- An assignment with the white space that it may have. -/
structure IsAssignment (name front back operand behind : Text) : Prop where
  name : Text.isIdentifier name = true
  front : Text.IsGap front
  back : Text.IsGap back
  operand : Literal.Inert operand
  behind : Text.IsGap behind

namespace IsAssignment

variable (h : IsAssignment name front back operand behind)

include h

theorem neutral_arguments :
    Line.Neutral (assignmentArguments name front back operand) := by
  have hcomma : Line.Neutral [','] := .of_plain rfl
  exact (Line.Neutral.of_isIdentifier h.name).append
    ((Line.Neutral.of_isGap h.front).append
    (hcomma.append
      ((Line.Neutral.of_isGap h.back).append h.operand.toNeutral)))

theorem neutral :
    Line.Neutral (assignmentLine name front back operand behind) := by
  have hkeyword : Line.Neutral "set ".toList := .of_plain rfl
  exact (hkeyword.append h.neutral_arguments).append (.of_isGap h.behind)

theorem trimStart_arguments :
    Text.trimStart (assignmentArguments name front back operand)
      = assignmentArguments name front back operand := by
  obtain ⟨c, rest, rfl, -, hchars⟩ := Text.exists_cons_of_isIdentifier h.name
  have hc : isBlank c = false := by
    cases hblank : isBlank c with
    | false => rfl
    | true =>
        have hname := hchars c List.mem_cons_self
        rw [isNameChar_of_isBlank hblank] at hname
        cases hname
  exact Text.trimStart_cons_of_not_blank hc _

theorem splitCommand?_eq :
    Line.splitCommand? (assignmentLine name front back operand behind)
      = some ("set".toList, assignmentArguments name front back operand) := by
  have hoperand : Text.trimEnd operand ≠ [] := by
    rw [h.operand.trimEnd]
    exact h.operand.ne_nil
  have hshape : "set ".toList ++ assignmentArguments name front back operand
      = ("set ".toList ++ (name ++ (front ++ ',' :: back))) ++ operand := by
    simp [assignmentArguments]
  have htrim : Text.trim (assignmentLine name front back operand behind)
      = "set ".toList ++ assignmentArguments name front back operand := by
    have hstart : Text.trimStart
        (assignmentLine name front back operand behind)
        = assignmentLine name front back operand behind :=
      Text.trimStart_cons_of_not_blank rfl _
    rw [Text.trim, hstart, assignmentLine,
      Text.trimEnd_append_of_blank h.behind.1, hshape,
      Text.trimEnd_append hoperand, h.operand.trimEnd]
  have hset : Text.isIdentifier "set".toList = true := by decide
  have hkeyword : Text.splitIdentifier?
      ("set ".toList ++ assignmentArguments name front back operand)
      = some ("set".toList,
        ' ' :: assignmentArguments name front back operand) :=
    Text.splitIdentifier?_of_isIdentifier hset rfl _
  have hrest : Text.trimStart
      (' ' :: assignmentArguments name front back operand)
      = assignmentArguments name front back operand := by
    rw [Text.trimStart_cons_of_blank rfl]
    exact h.trimStart_arguments
  unfold Line.splitCommand?
  rw [htrim, hkeyword]
  simp only [hrest]
  rw [if_neg h.neutral_arguments.noFeed, if_pos (.inr (Nat.lt_succ_self _))]

theorem assignment?_eq :
    Signature.assignment? (assignmentArguments name front back operand)
      = some [name, operand] := by
  have hcomma : Text.trimStart (front ++ ',' :: (back ++ operand))
      = ',' :: (back ++ operand) := by
    rw [Text.trimStart_append_of_blank h.front.1]
    exact Text.trimStart_cons_of_not_blank rfl _
  -- the name ends at white space or at the comma
  have hname : Text.splitIdentifier?
      (assignmentArguments name front back operand)
      = some (name, front ++ ',' :: (back ++ operand)) := by
    cases front with
    | nil => exact Text.splitIdentifier?_of_isIdentifier h.name rfl _
    | cons d front =>
        have hblank := Text.isAllBlank_iff.1 h.front.1 d List.mem_cons_self
        exact Text.splitIdentifier?_of_isIdentifier h.name
          (isNameChar_of_isBlank hblank) _
  have hpair : Signature.nameAndComma?
      (assignmentArguments name front back operand)
      = some (name, back ++ operand) := by
    unfold Signature.nameAndComma?
    rw [h.trimStart_arguments, hname]
    simp only [hcomma]
  have hcore : Text.trim (back ++ operand) = operand := by
    rw [Text.trim, Text.trimStart_append_of_blank h.back.1,
      h.operand.trimStart, h.operand.trimEnd]
  have hoperand : Signature.operand? (back ++ operand) = some operand := by
    unfold Signature.operand?
    simp only [hcore]
    rw [if_neg (by rw [List.isEmpty_iff]; exact h.operand.ne_nil),
      if_neg h.operand.noFeed]
  unfold Signature.assignment?
  rw [hpair]
  simp only [Option.bind_eq_bind, Option.bind_some, hoperand]
  rfl

theorem decode_eq {script : Engine Output} (hs : script.IsScript) :
    script.decode (assignmentLine name front back operand behind)
      = .ok ("set".toList, Instruction.assign.command, [name, operand]) := by
  have hcommand : script.commands.get? "set".toList
      = some Instruction.assign.command := by
    rw [hs.commands]
    rfl
  have hextract : Instruction.assign.command.signature.extract
      (assignmentArguments name front back operand) = .ok [name, operand] := by
    simp only [Instruction.command, Instruction.signature, Signature.extract,
      h.assignment?_eq]
  unfold Engine.decode
  rw [h.splitCommand?_eq]
  simp only [hcommand, hextract]

end IsAssignment

end Assignment

variable [Host η]

/-- An assignment of a literal sets a variable and goes on. -/
theorem Instruction.outcome_assign (call : Call) (machine : Machine) (host : η)
    {value : Value}
    (hread : Literal.read? (call.argument 1) = some (.value value)) :
    assign.outcome call machine host
      = ⟨machine.vars.insert (call.argument 0) value, none,
        .ok none, host⟩ := by
  have haction : assign.action call machine
      = .ok (.assign (call.argument 0) value) := by
    simp only [action, operandValue, hread]
    rfl
  unfold outcome
  rw [haction]
  rfl

namespace Interpreter

variable {interpreter : Interpreter} {name front back operand behind : Text}
  {value : Value}

/-- A script of one line, of which all remains when it is read. -/
theorem reading_of_neutral (built : interpreter.BuiltFor {}) {line : Text}
    (hneutral : Line.Neutral line)
    (hkind : Line.classify ['#'] line = .other) :
    interpreter.reading line
      = ⟨.empty, interpreter.state.own, .ok [line]⟩ := by
  have hsettings := built.settings_eq
  have hpieces : interpreter.engine.pieces line = [line] := by
    have hseparator : interpreter.engine.settings.separator = none := by
      rw [hsettings]
    have hpieces := Engine.pieces_unlines hseparator (List.cons_ne_nil line [])
      hneutral.of_mem_singleton
    rw [Text.unlines_singleton] at hpieces
    exact hpieces
  unfold reading Engine.read
  rw [hpieces, Engine.readFrom, hsettings, hkind, built.isScript.hook]
  simp only [cutComment, hneutral.stripComment?_eq]
  rfl

/-- An assignment that is all of a script stores the value of its operand
and nothing else. -/
theorem runsTo_assignment (built : interpreter.BuiltFor {})
    (h : IsAssignment name front back operand behind)
    (hread : Literal.read? operand = some (.value value)) (host : η) :
    interpreter.RunsTo (assignmentLine name front back operand behind) host
      ⟨interpreter.engine,
        ⟨{ vars := Table.empty.insert name value, pc := 1, lineCount := 1 },
          interpreter.state.own⟩⟩ (.ok ()) host := by
  have hreading := reading_of_neutral built h.neutral rfl
  have hdecode := h.decode_eq built.isScript
  have hnotBlank : Text.isAllBlank
      (assignmentLine name front back operand behind) = false := rfl
  generalize assignmentLine name front back operand behind = line at *
  have hcall : interpreter.engine.Calls #[line]
      ((interpreter.reading line).state.entering #[line]) .assign
      ⟨0, line, "set".toList, [name, operand]⟩ :=
    ⟨rfl, rfl, hnotBlank, hdecode, rfl⟩
  have hstep := hcall.result_step host
  rw [Instruction.outcome_assign ⟨0, line, "set".toList, [name, operand]⟩
    _ host hread, hreading] at hstep
  rw [runsTo_iff, hreading]
  refine ⟨rfl, .inr ⟨#[line], rfl,
    (⟨{ vars := Table.empty.insert name value, pc := 1, lineCount := 1 },
      interpreter.state.own⟩, host),
      .single (Engine.advance?_eq_some_iff.2 hstep), ?_⟩⟩
  have hnone : (#[line] : Listing)[1]? = none := rfl
  exact .finished (Engine.result_step_of_none host hnone)

/-- A script of one line that ends well does so with a comment behind the
line. -/
theorem RunsTo.append_comment (built : interpreter.BuiltFor {})
    {line text : Text} (hneutral : Line.Neutral line) (hreturn : '\r' ∉ text)
    (hfeed : '\n' ∉ text) {after : Interpreter} {host host' : η}
    (h : interpreter.RunsTo line host after (.ok ()) host') :
    interpreter.RunsTo (line ++ (" # ".toList ++ text)) host after (.ok ())
      host' := by
  have hmarker : Line.CommentMarker ['#'] := by
    refine ⟨by decide, by decide, fun c hc => ?_⟩
    rw [List.mem_singleton.1 hc]
    decide
  have hapart : ∀ d, d ∉ " # ".toList → d ∉ text →
      d ∉ " # ".toList ++ text := by
    intro d hmark htext
    rw [List.mem_append, not_or]
    exact ⟨hmark, htext⟩
  have hremark : Line.Remark ['#'] (" # ".toList ++ text) :=
    ⟨hapart _ (by decide) hfeed, " ".toList, ' ' :: text, by decide, rfl, rfl⟩
  obtain ⟨hends, hlike⟩ := runsAlike_set_remark built rfl hmarker hremark
    (hapart _ (by decide) hreturn) hneutral.of_mem_singleton
    List.getElem?_cons_zero
    (Line.quotedAfter_eq_iff.1 hneutral.passes.side)
    hneutral.stripComment?_eq host
  rw [List.set_cons_zero, Text.unlines_singleton, Text.unlines_singleton]
    at hends hlike
  obtain ⟨after', verdict', host'', h'⟩ := hends.1 ⟨_, _, _, h⟩
  obtain ⟨rfl, rfl, hverdict⟩ := hlike _ _ _ _ _ _ h h'
  cases hverdict
  exact h'

/-- Every string and every list of strings can be written down. The
characters that cannot stand between quotes are written as escapes, and
all others, markers and commas and brackets and white space included,
as they are; there may be white space wherever there are no quotes, and a
comment behind it all. The script that assigns the literal to a variable
ends well and leaves the variable with the value, and nothing else. -/
theorem runSource_set_literal (built : interpreter.BuiltFor {})
    (hname : Text.isIdentifier name = true)
    (hspells : Literal.Spells value operand) (hfront : Text.IsGap front)
    (hback : Text.IsGap back) (hbehind : Text.IsGap behind) {comment : Text}
    (hcomment : comment = []
      ∨ ∃ text, '\r' ∉ text ∧ '\n' ∉ text ∧ comment = " # ".toList ++ text)
    (host : η) :
    ∃ after, interpreter.RunsTo
        ("set ".toList ++ name ++ front ++ ",".toList ++ back ++ operand
          ++ behind ++ comment) host after (.ok ()) host
      ∧ after.vars = Table.empty.insert name value := by
  have hassignment : IsAssignment name front back operand behind :=
    ⟨hname, hfront, hback, hspells.inert, hbehind⟩
  have hrun := runsTo_assignment built hassignment hspells.read? host
  have hshape : "set ".toList ++ name ++ front ++ ",".toList ++ back
      ++ operand ++ behind
      = assignmentLine name front back operand behind := by
    simp [assignmentLine, assignmentArguments]
  rw [hshape]
  rcases hcomment with rfl | ⟨text, hreturn, hfeed, rfl⟩
  · rw [List.append_nil]
    exact ⟨_, hrun, rfl⟩
  · exact ⟨_, hrun.append_comment built hassignment.neutral hreturn hfeed, rfl⟩

/-- For instance, a list of two strings that are full of marks. -/
theorem runSource_set_literal_of_marks :
    ∃ after,
      standard.RunsTo "set x ,[ 'it\\x27s ' ,'\\x5cx41#,]'] # it's".toList
        (⟨.empty⟩ : MemoryHost) after (.ok ()) ⟨.empty⟩
      ∧ after.vars = Table.empty.insert "x".toList
        (.list ["it's ".toList, "\\x41#,]".toList]) := by
  have hspace : Text.IsGap " ".toList := by decide
  have hnothing : Text.IsGap [] := by decide
  have hcells : ∀ cell ∈ ([⟨[], "it's ".toList, " ".toList⟩,
      ⟨[], "\\x41#,]".toList, []⟩] : List Literal.Cell), cell.Spaced := by
    decide
  have hname : Text.isIdentifier "x".toList = true := by decide
  obtain ⟨after, hrun, hvars⟩ := runSource_set_literal builtFor_standard hname
    (.list hspace hcells) hspace hnothing hnothing
    (.inr ⟨"it's".toList, by decide, by decide, rfl⟩) (⟨.empty⟩ : MemoryHost)
  exact ⟨after, hrun, hvars⟩

end Interpreter

end LineScript
