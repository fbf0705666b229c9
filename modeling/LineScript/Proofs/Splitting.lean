/-
A command line and its two parts, exactly.

Without the white space around it a command line is a keyword, or a
keyword, white space, and an argument text that begins and ends with
characters that are no white space (`Line.SplitsInto`). There is one way
at most to take a line apart like that: a keyword has no white space in
it, so it ends where the first white space begins, and the argument text
begins where that white space ends. Both ends are found without a search
for the other, by the longest identifier and by trimming.

The argument text goes to the extractor of the command without white space
around it. An assignment takes the operand from its end, behind a comma,
so that the operand is not empty and has no white space around it either
(`Signature.tight_of_assignment?`). The extractor has a rule for a text
with nothing but white space behind the comma; it never applies to a line.
-/
import LineScript.Proofs.ArgumentForms
import LineScript.Proofs.Session

set_option autoImplicit false

namespace LineScript

open Literal (IsName isIdentifier_iff)

-- ============================================================= trimming

namespace Text

variable {core text : Text}

/-- What a text is without the white space around it. -/
structure Trimmed (core text : Text) : Prop where
  padded : Padded core text
  tight : Tight core

theorem Tight.of_not_blank (h : ∀ c ∈ text, isBlank c = false) :
    Tight text where
  first c hc := h c (List.mem_of_mem_head? hc)
  last c hc := h c (List.mem_of_getLast? hc)

/-- What stands between two such texts does not matter. -/
theorem Tight.between {front back : Text} (hfront : Tight front)
    (hfront_ne : front ≠ []) (hback : Tight back) (hback_ne : back ≠ [])
    (middle : Text) :
    Tight (front ++ middle ++ back) where
  first c hc := by
    rw [List.append_assoc, List.head?_append_of_ne_nil _ hfront_ne] at hc
    exact hfront.first c hc
  last c hc := by
    rw [List.getLast?_append_of_ne_nil _ hback_ne] at hc
    exact hback.last c hc

/-- What is left of a text does not end with white space. -/
theorem not_blank_of_getLast?_trimEnd {c : Char}
    (h : (trimEnd text).getLast? = some c) :
    isBlank c = false := by
  induction text with
  | nil => cases h
  | cons d rest ih =>
      by_cases hrest : trimEnd rest = []
      · rw [trimEnd_cons_of_nil hrest] at h
        split at h
        next => cases h
        next hd =>
          cases h
          exact Bool.not_eq_true _ ▸ hd
      · rw [trimEnd_cons_of_ne_nil hrest,
          List.getLast?_cons_of_ne_nil hrest] at h
        exact ih h

theorem tight_trim (text : Text) : Tight (trim text) where
  first c hc := by
    rw [trim, trimEnd_trimStart] at hc
    exact not_blank_of_head?_trimStart hc
  last c hc := not_blank_of_getLast?_trimEnd hc

/-- Trimming takes the white space around a text away, and no more. -/
theorem trim_eq_iff : trim text = core ↔ Trimmed core text := by
  constructor
  · rintro rfl
    exact ⟨padded_trim text, tight_trim text⟩
  · rintro ⟨⟨front, back, hfront, hback, rfl⟩, htight⟩
    rw [trim, trimEnd_trimStart, trimEnd_append_of_blank hback,
      ← trimEnd_trimStart, trimStart_append_of_blank hfront,
      htight.trimStart_eq, htight.trimEnd_eq]

theorem trim_eq_nil_iff : trim text = [] ↔ isAllBlank text = true := by
  rw [trim_eq_iff]
  constructor
  · rintro ⟨⟨front, back, hfront, hback, rfl⟩, -⟩
    rw [List.append_nil, isAllBlank_append, hfront, hback]
    rfl
  · intro h
    exact ⟨⟨text, [], h, rfl, by simp⟩, nofun, nofun⟩

/-- The end of a text that does not end with white space is like it. -/
theorem Tight.getLast?_of_append {front back : Text}
    (h : Tight (front ++ back)) :
    ∀ c ∈ back.getLast?, isBlank c = false := by
  intro c hc
  cases back with
  | nil => cases hc
  | cons d back =>
      apply h.last c
      rw [List.getLast?_append_of_ne_nil _ (List.cons_ne_nil d back)]
      exact hc

/-- White space at the end of such a text is no white space at all. -/
theorem eq_nil_of_isAllBlank (hblank : isAllBlank text = true)
    (hlast : ∀ c ∈ text.getLast?, isBlank c = false) : text = [] := by
  rcases List.eq_nil_or_concat text with rfl | ⟨front, c, rfl⟩
  · rfl
  · have hc : isBlank c = false := hlast c (by simp)
    rw [isAllBlank_iff.1 hblank c (by simp)] at hc
    cases hc

end Text

-- ============================================================ two parts

namespace Line

variable {line keyword rest : Text}

/-- A line is taken apart into a keyword and an argument text: without
white space around it, it is the keyword, or the keyword, white space and
the argument text. -/
inductive SplitsInto (line : Text) : Text → Text → Prop
  | bare {keyword : Text} (hname : IsName keyword)
      (hline : Text.Trimmed keyword line) :
      SplitsInto line keyword []
  | spaced {keyword rest : Text} (gap : Text) (hname : IsName keyword)
      (hne : gap ≠ [])
      (hgap : Text.isAllBlank gap = true) (hrest : rest ≠ [])
      (hfeed : '\n' ∉ rest)
      (htight : Text.Tight rest)
      (hline : Text.Trimmed (keyword ++ gap ++ rest) line) :
      SplitsInto line keyword rest

/-- What is found is such a pair. -/
theorem splitsInto_of_splitCommand?
    (h : splitCommand? line = some (keyword, rest)) :
    SplitsInto line keyword rest := by
  have htight := Text.tight_trim line
  unfold splitCommand? at h
  split at h
  next => cases h
  next found after hsplit =>
    obtain ⟨hcore, -⟩ := Text.parts_of_splitIdentifier? hsplit
    have hname :=
      isIdentifier_iff.1 (Text.isIdentifier_of_splitIdentifier? hsplit)
    simp only at h
    split at h
    next => cases h
    next hfeed =>
      split at h
      next hapart =>
        cases h
        obtain ⟨gap, hgap, hafter⟩ := Text.exists_blank_append_trimStart after
        by_cases hempty : after = []
        · subst hempty
          rw [List.append_nil] at hcore
          exact .bare hname (Text.trim_eq_iff.1 hcore)
        · rw [hcore] at htight
          have hlast := htight.getLast?_of_append
          have hgap_ne : gap ≠ [] := by
            rintro rfl
            rw [List.nil_append] at hafter
            rw [← hafter, List.isEmpty_iff] at hapart
            exact hapart.elim hempty (Nat.lt_irrefl _)
          have hrest : Text.trimStart after ≠ [] := fun hnil =>
            hempty (Text.eq_nil_of_isAllBlank
              (Text.trimStart_eq_nil_iff.1 hnil) hlast)
          refine .spaced gap hname hgap_ne hgap hrest hfeed
            ⟨fun c hc => ?_, ?_⟩ ?_
          · exact Text.not_blank_of_head?_trimStart hc
          · rw [hafter, ← List.append_assoc] at htight
            exact htight.getLast?_of_append
          · rw [List.append_assoc, ← hafter]
            exact Text.trim_eq_iff.1 hcore
      next => cases h

/-- Every such pair is found. -/
theorem SplitsInto.splitCommand?_eq (h : SplitsInto line keyword rest) :
    splitCommand? line = some (keyword, rest) := by
  unfold splitCommand?
  cases h with
  | bare hname hline =>
      obtain ⟨letters, digits, more, hparts, rfl⟩ := hname
      rw [Text.trim_eq_iff.2 hline, hparts.splitIdentifier?_eq]
      rfl
  | spaced gap hname hne hgap _ hfeed htight hline =>
      cases gap with
      | nil => exact absurd rfl hne
      | cons d gap =>
          have hidentifier := isIdentifier_iff.2 hname
          have hd : isNameChar d = false :=
            isNameChar_of_isBlank
              (Text.isAllBlank_iff.1 hgap d List.mem_cons_self)
          have hrest : Text.trimStart (d :: (gap ++ rest)) = rest := by
            rw [← List.cons_append, Text.trimStart_append_of_blank hgap,
              htight.trimStart_eq]
          have hshorter : rest.length < (d :: (gap ++ rest)).length := by
            rw [List.length_cons, List.length_append]
            omega
          rw [Text.trim_eq_iff.2 hline, List.append_assoc, List.cons_append,
            Text.splitIdentifier?_of_isIdentifier hidentifier hd]
          simp only [hrest, if_neg hfeed, hshorter, or_true, if_true]

theorem splitCommand?_eq_some_iff :
    splitCommand? line = some (keyword, rest) ↔ SplitsInto line keyword rest :=
  ⟨splitsInto_of_splitCommand?, SplitsInto.splitCommand?_eq⟩

/-- There is one way at most to take a line apart. -/
theorem SplitsInto.unique {keyword' rest' : Text}
    (h : SplitsInto line keyword rest) (h' : SplitsInto line keyword' rest') :
    keyword' = keyword ∧ rest' = rest := by
  have hsame := h.splitCommand?_eq.symm.trans h'.splitCommand?_eq
  cases hsame
  exact ⟨rfl, rfl⟩

/-- An argument text has no white space around it. -/
theorem SplitsInto.tight (h : SplitsInto line keyword rest) :
    Text.Tight rest := by
  cases h with
  | bare _ _ => exact ⟨nofun, nofun⟩
  | spaced _ _ _ _ _ _ htight _ => exact htight

end Line

-- =========================================================== assignments

namespace Signature

/-- The operand of an argument text without white space around it is not
empty, and has no white space around it. -/
theorem tight_of_assignment? {text : Text} {arguments : List Text}
    (htight : Text.Tight text) (h : assignment? text = some arguments) :
    ∃ name operand, arguments = [name, operand] ∧ IsName name ∧ operand ≠ []
      ∧ Text.Tight operand := by
  simp only [assignment?, Option.bind_eq_bind, Option.bind_eq_some_iff] at h
  obtain ⟨⟨name, after⟩, hcomma, operand, hoperand, heq⟩ := h
  cases heq
  obtain ⟨hname, piece, -, rfl⟩ := nameAndComma?_eq_some_iff.1 hcomma
  refine ⟨name, operand, rfl, hname, ?_⟩
  unfold operand? at hoperand
  simp only at hoperand
  split at hoperand
  next hempty =>
    -- then there is nothing behind the comma, not even white space
    have hblank := Text.trim_eq_nil_iff.1 (List.isEmpty_iff.1 hempty)
    have hlast : ∀ c ∈ after.getLast?, isBlank c = false := by
      rw [List.append_cons] at htight
      exact htight.getLast?_of_append
    rw [Text.eq_nil_of_isAllBlank hblank hlast] at hoperand
    cases hoperand
  next hcore =>
    split at hoperand
    next => cases hoperand
    next =>
      cases hoperand
      exact ⟨List.isEmpty_eq_false_iff.1 (Bool.not_eq_true _ ▸ hcore),
        Text.tight_trim after⟩

end Signature

namespace Engine

/-- What a line is decoded to: its arguments come from its argument text. -/
theorem extract_of_decode {σ : Type} {engine : Engine σ} {line keyword : Text}
    {command : Command σ} {arguments : List Text}
    (h : engine.decode line = .ok (keyword, command, arguments)) :
    ∃ rest, Line.SplitsInto line keyword rest
      ∧ command.signature.extract rest = .ok arguments := by
  unfold decode at h
  split at h
  next => cases h
  next found rest hsplit =>
    split at h
    next => cases h
    next command' hget =>
      split at h
      next => cases h
      next arguments' hextract =>
        cases h
        exact ⟨rest, Line.splitCommand?_eq_some_iff.1 hsplit, hextract⟩

/-- The operand of an assignment that is carried out is read from a text
that is not empty and has no white space around it. -/
theorem Calls.tight_operand {engine : Engine Output} {listing : Listing}
    {state : State Output} {call : Call}
    (h : engine.Calls listing state .assign call) :
    ∃ name operand, call.arguments = [name, operand] ∧ IsName name
      ∧ operand ≠ []
      ∧ Text.Tight operand := by
  obtain ⟨rest, hsplit, hextract⟩ := extract_of_decode h.decode
  exact Signature.tight_of_assignment? hsplit.tight
    (Signature.eq_some_of_found hextract)

end Engine

namespace Line

/-- A command line and its two parts. Of every line, whatever characters
it has, exactly the pair is found that it can be taken apart into; there
is one at most, and nothing is found if there is none. So the operand of
every assignment that is carried out, which is the text that is read as a
literal, is not empty and has no white space around it. -/
theorem splitCommand?_exact :
    (∀ line : Text,
        (∀ keyword rest, splitCommand? line = some (keyword, rest)
          ↔ SplitsInto line keyword rest)
          ∧ (∀ keyword rest keyword' rest', SplitsInto line keyword rest →
              SplitsInto line keyword' rest' →
              keyword' = keyword ∧ rest' = rest)
          ∧ (splitCommand? line = none
            ↔ ∀ keyword rest, ¬ SplitsInto line keyword rest))
      ∧ ∀ (engine : Engine Output) (listing : Listing) (state : State Output)
        (call : Call),
          engine.Calls listing state .assign call →
          ∃ name operand, call.arguments = [name, operand]
            ∧ Instruction.assign.action call state.machine
              = (Instruction.operandValue state.machine operand).map
                (.assign name)
            ∧ operand ≠ [] ∧ Text.Tight operand := by
  refine ⟨fun line => ⟨fun _ _ => splitCommand?_eq_some_iff,
    fun _ _ _ _ => SplitsInto.unique, ?_⟩, ?_⟩
  · simp only [Option.eq_none_iff_forall_ne_some, Prod.forall, ne_eq,
      splitCommand?_eq_some_iff]
  · intro engine listing state call hcall
    obtain ⟨name, operand, harguments, -, hne, htight⟩ := hcall.tight_operand
    have hfirst : call.argument 0 = name := by
      rw [Call.argument, harguments]
      rfl
    have hsecond : call.argument 1 = operand := by
      rw [Call.argument, harguments]
      rfl
    refine ⟨name, operand, harguments, ?_, hne, htight⟩
    rw [Instruction.action, hfirst, hsecond]
    cases Instruction.operandValue state.machine operand with
    | ok value => rfl
    | error fault => rfl

/-- For instance, an assignment with white space of several kinds, a line
feed behind the keyword among them. -/
theorem splitCommand?_exact_of_feed :
    SplitsInto "\u3000set\n x , 'a' \t".toList "set".toList "x , 'a'".toList
      ∧ splitCommand? "\u3000set\n x , 'a' \t".toList
        = some ("set".toList, "x , 'a'".toList)
      ∧ ∃ call,
        Interpreter.standard.engine.Calls #["\u3000set\n x , 'a' \t".toList]
            ⟨.fresh, .empty⟩ .assign call
          ∧ ∃ name operand, call.arguments = [name, operand] ∧ operand ≠ []
              ∧ Text.Tight operand := by
  obtain ⟨hlines, hoperands⟩ := splitCommand?_exact
  have hsplit := ((hlines "\u3000set\n x , 'a' \t".toList).1 "set".toList
    "x , 'a'".toList).1 rfl
  have hcall : Interpreter.standard.engine.Calls
      #["\u3000set\n x , 'a' \t".toList] ⟨.fresh, .empty⟩ .assign
      ⟨0, "\u3000set\n x , 'a' \t".toList, "set".toList,
        ["x".toList, "'a'".toList]⟩ :=
    ⟨rfl, rfl, rfl, rfl, rfl⟩
  obtain ⟨name, operand, harguments, -, hne, htight⟩ := hoperands _ _ _ _ hcall
  exact ⟨hsplit, hsplit.splitCommand?_eq, _, hcall, name, operand, harguments,
    hne, htight⟩

end Line

end LineScript
