/-
Jumps and branches by a pattern.

The language describes the arguments of its jumps by patterns, made of the
grammars of names. The signatures `jump` and `branch` read the same
arguments without a search. Here the two are put side by side: on every
text the signature that is made of the pattern does what the one without
does (`ofPattern_jumpSource`, `ofPattern_branchSource`), faults included.

What these patterns take does not depend on where they take it, only on
the text taken (`Node.Reads`), so that they are read off piece by piece:
a run of characters, a name as a group, the separator behind it. With
the extractors in their exact form this says how the jumps go together
with the other commands and with label lines: what is accepted as one or
three names is accepted by a jump or a branch, and the labels that can be
set are the ones that can be jumped to, with or without the colon.
-/
import LineScript.Proofs.Anchoring
import LineScript.Proofs.ArgumentForms
import LineScript.Proofs.PatternGroups

set_option autoImplicit false

namespace LineScript

-- ================================================ statement vocabulary

/-- The grammar of label names. -/
def labelGrammar : String := "[A-Za-z_][A-Za-z_0-9]*"

namespace Signature

/-- The source of the pattern for a jump. -/
def jumpSource : Text := ("\\s*:?(" ++ labelGrammar ++ ")\\s*").toList

/-- The source of the pattern for a branch. -/
def branchSource : Text :=
  ("\\s*(" ++ identifierGrammar ++ ")\\s*,\\s*(" ++ identifierGrammar
    ++ ")\\s*,\\s*:?("
    ++ labelGrammar ++ ")\\s*").toList

end Signature

namespace Pattern

open Literal (IsName)
open Signature (Targets)
open Text (Padded)

/-- The letters that a name may begin with. -/
def CharSet.letters : CharSet :=
  { items := [.range 'A' 'Z', .range 'a' 'z', .range '_' '_'] }

/-- The characters of a name. -/
def CharSet.nameChars : CharSet :=
  { items := [.range 'A' 'Z', .range 'a' 'z', .range '_' '_', .range '0' '9'] }

/-- The digits. -/
def CharSet.digits : CharSet := { items := [.range '0' '9'] }

namespace Node

/-- Any number of characters of a set, as many as possible. -/
def run (set : CharSet) : Node := .repetition (.one set) 0 none true

/-- White space, perhaps none. -/
def blanks : Node := run (.named .blank false)

/-- A name. -/
def name : Node :=
  .sequence (.repetition (.one .letters) 1 none true)
    (.sequence (run .digits) (run .letters))

/-- A label name. -/
def labelName : Node := .sequence (.one .letters) (run .nameChars)

/-- A target, perhaps after a colon; its name is a group. -/
def target (index : Nat) : Node :=
  .sequence blanks
    (.sequence (.repetition (.one (.single ':')) 0 (some 1) true)
    (.sequence (.group index labelName) blanks))

/-- A name as a group, a comma, and what is behind. -/
def nameComma (index : Nat) (behind : Node) : Node :=
  .sequence blanks (.sequence (.group index name) (.sequence blanks
    (.sequence (.one (.single ',')) behind)))

end Node

/-- A relation between a text and what groups take of it. -/
abbrev Form := Text → GroupTexts → Prop

/-- A pattern takes the texts of a form, wherever they stand. -/
def Node.Reads (node : Node) (form : Form) : Prop :=
  ∀ text rest rest' found, node.Finds text rest rest' found
    ↔ ∃ taken, form taken found ∧ rest = taken ++ rest'

/-- A form without groups. -/
def Form.plain (accepts : Text → Prop) : Form :=
  fun taken found => accepts taken ∧ found = []

/-- A text of one form, and behind it one of another form. -/
def Form.andThen (first second : Form) : Form := fun taken found =>
  ∃ front back earlier later, first front earlier ∧ second back later
    ∧ taken = front ++ back ∧ found = later ++ earlier

-- =================================================== characters of sets

section Sets

variable {c : Char}

theorem SetItem.has_range_iff {low high : Char} :
    (SetItem.range low high).has c = true
      ↔ low.toNat ≤ c.toNat ∧ c.toNat ≤ high.toNat := by
  rw [has, Bool.and_eq_true, decide_eq_true_eq, decide_eq_true_eq]
  exact Iff.rfl

theorem CharSet.has_single {d : Char} :
    (CharSet.single d).has c = true ↔ c = d := by
  have hhas : (CharSet.single d).has c = (SetItem.range d d).has c := by
    simp [CharSet.has, single]
  rw [hhas, SetItem.has_range_iff]
  constructor
  · rintro ⟨hlow, hhigh⟩
    exact Char.toNat_inj.1 (Nat.le_antisymm hhigh hlow)
  · rintro rfl
    exact ⟨Nat.le_refl _, Nat.le_refl _⟩

theorem CharSet.has_blank :
    (CharSet.named .blank false).has c = isBlank c := by
  simp [CharSet.has, named, SetItem.has, CharClass.has]

theorem CharSet.has_letters :
    CharSet.letters.has c = true ↔ isNameLetter c = true := by
  have hunderscore : ('_'.toNat ≤ c.toNat ∧ c.toNat ≤ '_'.toNat)
      ↔ c = '_' := by
    rw [← Char.toNat_inj]
    omega
  have hhas : CharSet.letters.has c = ((SetItem.range 'A' 'Z').has c
      || ((SetItem.range 'a' 'z').has c
        || (SetItem.range '_' '_').has c)) := by
    simp [CharSet.has, letters]
  rw [hhas, Bool.or_eq_true, Bool.or_eq_true, SetItem.has_range_iff,
    SetItem.has_range_iff, SetItem.has_range_iff, hunderscore,
    isNameLetter_iff]
  exact Iff.rfl

theorem CharSet.has_digits :
    CharSet.digits.has c = true ↔ c.isDigit = true := by
  have hhas : CharSet.digits.has c = (SetItem.range '0' '9').has c := by
    simp [CharSet.has, digits]
  rw [hhas, SetItem.has_range_iff, Char.isDigit_iff_toNat]

theorem CharSet.has_nameChars :
    CharSet.nameChars.has c = true ↔ isNameChar c = true := by
  have hhas : CharSet.nameChars.has c
      = (CharSet.letters.has c || CharSet.digits.has c) := by
    simp [CharSet.has, nameChars, letters, digits, Bool.or_assoc]
  rw [hhas, Bool.or_eq_true, has_letters, has_digits, isNameChar,
    Bool.or_eq_true]

end Sets

-- ================================================================= forms

namespace Node.Reads

variable {first second node : Node} {form form' : Form} {accepts : Text → Prop}
  {set : CharSet}

theorem congr (h : node.Reads form)
    (hforms : ∀ taken found, form taken found ↔ form' taken found) :
    node.Reads form' := by
  intro text rest rest' found
  rw [h text rest rest' found]
  simp only [hforms]

/-- Rounds of a set take so many of its characters. -/
theorem rounds_one_iff {text : Text} {count : Nat} {rest rest' : Text}
    {found : GroupTexts} :
    Finding.rounds ((Node.one set).Finds text) count rest rest' found
      ↔ found = [] ∧ ∃ taken, taken.length = count
        ∧ (∀ c ∈ taken, set.has c = true)
          ∧ rest = taken ++ rest' := by
  induction count generalizing rest found with
  | zero =>
      constructor
      · rintro ⟨rfl, rfl⟩
        exact ⟨rfl, [], rfl, nofun, rfl⟩
      · rintro ⟨rfl, taken, hlength, -, rfl⟩
        obtain rfl := List.length_eq_zero_iff.1 hlength
        exact ⟨rfl, rfl⟩
  | succ count ih =>
      constructor
      · rintro ⟨between, _, later, ⟨c, hc, rfl, rfl⟩, hrounds, rfl⟩
        obtain ⟨rfl, taken, rfl, hall, rfl⟩ := ih.1 hrounds
        exact ⟨rfl, c :: taken, rfl, List.forall_mem_cons.2 ⟨hc, hall⟩, rfl⟩
      · rintro ⟨rfl, taken, hlength, hall, rfl⟩
        obtain ⟨c, taken, rfl⟩ := List.exists_cons_of_length_eq_add_one hlength
        obtain ⟨hc, hlater⟩ := List.forall_mem_cons.1 hall
        exact ⟨taken ++ rest', [], [], ⟨c, hc, rfl, rfl⟩,
          ih.2 ⟨rfl, taken, Nat.succ.inj hlength, hlater, rfl⟩, rfl⟩

theorem sequence (h : first.Reads form) (h' : second.Reads form') :
    (Node.sequence first second).Reads (form.andThen form') := by
  intro text rest rest' found
  constructor
  · rintro ⟨between, earlier, later, hfirst, hsecond, rfl⟩
    obtain ⟨front, hfront, rfl⟩ := (h _ _ _ _).1 hfirst
    obtain ⟨back, hback, rfl⟩ := (h' _ _ _ _).1 hsecond
    exact ⟨front ++ back,
      ⟨front, back, earlier, later, hfront, hback, rfl, rfl⟩,
      (List.append_assoc _ _ _).symm⟩
  · rintro ⟨_, ⟨front, back, earlier, later, hfront, hback, rfl, rfl⟩, rfl⟩
    exact ⟨back ++ rest', earlier, later,
      (h _ _ _ _).2 ⟨front, hfront, List.append_assoc _ _ _⟩,
      (h' _ _ _ _).2 ⟨back, hback, rfl⟩, rfl⟩

/-- A repetition of a set takes runs of its characters. -/
theorem ofSet {p : Char → Bool} (hset : ∀ c, set.has c = true ↔ p c = true)
    (least : Nat) (most : Option Nat) (greedy : Bool) :
    (Node.repetition (.one set) least most greedy).Reads (.plain fun taken =>
      (∀ c ∈ taken, p c = true) ∧ least ≤ taken.length
        ∧ ∀ bound ∈ most, taken.length ≤ max least bound) := by
  intro text rest rest' found
  rw [Node.Finds]
  simp only [rounds_one_iff, hset]
  constructor
  · rintro ⟨count, ⟨hleast, hmost⟩, rfl, taken, rfl, hall, rfl⟩
    exact ⟨taken, ⟨⟨hall, hleast, hmost⟩, rfl⟩, rfl⟩
  · rintro ⟨taken, ⟨⟨hall, hleast, hmost⟩, rfl⟩, rfl⟩
    exact ⟨taken.length, ⟨hleast, hmost⟩, rfl, taken, rfl, hall, rfl⟩

theorem run {p : Char → Bool} (hset : ∀ c, set.has c = true ↔ p c = true) :
    (Node.run set).Reads (.plain fun taken => ∀ c ∈ taken, p c = true) :=
  (ofSet hset 0 none true).congr fun taken found => by simp [Form.plain]

theorem one {p : Char → Bool} (hset : ∀ c, set.has c = true ↔ p c = true) :
    (Node.one set).Reads
      (.plain fun taken => ∃ c, p c = true ∧ taken = [c]) := by
  intro text rest rest' found
  simp only [Node.Finds, Form.plain, hset]
  constructor
  · rintro ⟨c, hc, rfl, rfl⟩
    exact ⟨[c], ⟨⟨c, hc, rfl⟩, rfl⟩, rfl⟩
  · rintro ⟨_, ⟨⟨c, hc, rfl⟩, rfl⟩, rfl⟩
    exact ⟨c, hc, rfl, rfl⟩

/-- A group takes what its body takes and notes it down. -/
theorem group (h : node.Reads (.plain accepts)) (index : Nat) :
    (Node.group index node).Reads fun taken found =>
      accepts taken ∧ found = [(index, taken)] := by
  intro text rest rest' found
  simp only [Node.Finds, h text]
  constructor
  · rintro ⟨inner, ⟨taken, ⟨haccepts, rfl⟩, rfl⟩, rfl⟩
    exact ⟨taken, ⟨haccepts, by simp⟩, rfl⟩
  · rintro ⟨taken, ⟨haccepts, rfl⟩, rfl⟩
    exact ⟨[], ⟨taken, ⟨haccepts, rfl⟩, rfl⟩, by simp⟩

-- ================================================================ names

theorem blanks :
    Node.blanks.Reads (.plain fun taken => Text.isAllBlank taken = true) :=
  (run fun c => by rw [CharSet.has_blank]).congr fun taken found => by
    rw [Form.plain, Form.plain, Text.isAllBlank_iff]

theorem name : Node.name.Reads (.plain IsName) := by
  have hletters := ofSet (fun c => CharSet.has_letters (c := c)) 1 none true
  have hdigits := run fun c => CharSet.has_digits (c := c)
  have hmore := run fun c => CharSet.has_letters (c := c)
  refine (hletters.sequence (hdigits.sequence hmore)).congr
    fun taken found => ?_
  constructor
  · rintro ⟨letters, _, _, _, ⟨⟨hletters, hlength, -⟩, rfl⟩,
      ⟨digits, more, _, _, ⟨hdigits, rfl⟩, ⟨hmore, rfl⟩, rfl, rfl⟩, rfl, rfl⟩
    exact ⟨⟨letters, digits, more,
      ⟨List.ne_nil_of_length_pos hlength, hletters, hdigits, hmore⟩,
      (List.append_assoc _ _ _).symm⟩, rfl⟩
  · rintro ⟨⟨letters, digits, more, hparts, rfl⟩, rfl⟩
    exact ⟨letters, digits ++ more, [], [],
      ⟨⟨hparts.letters, List.length_pos_of_ne_nil hparts.ne_nil, nofun⟩, rfl⟩,
      ⟨digits, more, [], [], ⟨hparts.digits, rfl⟩,
        ⟨hparts.more, rfl⟩, rfl, rfl⟩,
      List.append_assoc _ _ _, rfl⟩

theorem labelName :
    Node.labelName.Reads
      (.plain fun taken => Text.isLabelName taken = true) := by
  have hfirst := one fun c => CharSet.has_letters (c := c)
  have hlater := run fun c => CharSet.has_nameChars (c := c)
  refine (hfirst.sequence hlater).congr fun taken found => ?_
  constructor
  · rintro ⟨_, later, _, _, ⟨⟨c, hc, rfl⟩, rfl⟩, ⟨hlater, rfl⟩, rfl, rfl⟩
    exact ⟨Text.isLabelName_cons_iff.2 ⟨hc, hlater⟩, rfl⟩
  · rintro ⟨hname, rfl⟩
    cases taken with
    | nil => cases hname
    | cons c later =>
        obtain ⟨hc, hlater⟩ := Text.isLabelName_cons_iff.1 hname
        exact ⟨[c], later, [], [], ⟨⟨c, hc, rfl⟩, rfl⟩,
          ⟨hlater, rfl⟩, rfl, rfl⟩

/-- A colon that may be left out. -/
theorem colon : (Node.repetition (.one (.single ':')) 0 (some 1) true).Reads
    (.plain fun taken => taken = [] ∨ taken = [':']) := by
  have hsingle : ∀ c, (CharSet.single ':').has c = true
      ↔ (c == ':') = true := by
    intro c
    rw [CharSet.has_single, beq_iff_eq]
  refine (ofSet hsingle 0 (some 1) true).congr fun taken found => ?_
  rw [Form.plain, Form.plain, and_congr_left_iff]
  rintro rfl
  cases taken with
  | nil => simp
  | cons c later => simp +contextual [List.length_eq_zero_iff]

-- ====================================================== jumps and branches

theorem target (index : Nat) : (Node.target index).Reads fun taken found =>
    ∃ name target, Targets name target ∧ Padded target taken
      ∧ found = [(index, name)] := by
  refine (blanks.sequence
    (colon.sequence ((labelName.group index).sequence blanks))).congr
    fun taken found => ?_
  constructor
  · rintro ⟨front, _, _, _, ⟨hfront, rfl⟩, ⟨colon, _, _, _, ⟨hcolon, rfl⟩,
      ⟨name, back, _, _, ⟨hname, rfl⟩, ⟨hback, rfl⟩, rfl, rfl⟩, rfl, rfl⟩,
      rfl, rfl⟩
    refine ⟨name, colon ++ name, ⟨hname, ?_⟩,
      ⟨front, back, hfront, hback, ?_⟩, rfl⟩
    · rcases hcolon with rfl | rfl
      · exact .inl rfl
      · exact .inr rfl
    · simp
  · rintro ⟨name, target, ⟨hname, htarget⟩,
      ⟨front, back, hfront, hback, rfl⟩, rfl⟩
    obtain ⟨colon, hcolon, rfl⟩ : ∃ colon : Text, (colon = [] ∨ colon = [':'])
        ∧ target = colon ++ name := by
      rcases htarget with rfl | rfl
      · exact ⟨[], .inl rfl, rfl⟩
      · exact ⟨[':'], .inr rfl, rfl⟩
    exact ⟨front, colon ++ (name ++ back), [], _, ⟨hfront, rfl⟩,
      ⟨colon, name ++ back, [], _, ⟨hcolon, rfl⟩,
        ⟨name, back, _, [], ⟨hname, rfl⟩, ⟨hback, rfl⟩, rfl, rfl⟩, rfl, rfl⟩,
        by simp, rfl⟩

theorem nameComma {behind : Node} (index : Nat) (h : behind.Reads form) :
    (Node.nameComma index behind).Reads fun taken found =>
      ∃ name piece later texts,
        IsName name ∧ Padded name piece ∧ form later texts
        ∧ taken = piece ++ ',' :: later
        ∧ found = texts ++ [(index, name)] := by
  have hcomma : (Node.one (.single ',')).Reads
      (.plain fun taken => ∃ c, (c == ',') = true ∧ taken = [c]) :=
    one fun c => by rw [CharSet.has_single, beq_iff_eq]
  refine (blanks.sequence ((name.group index).sequence (blanks.sequence
    (hcomma.sequence h)))).congr fun taken found => ?_
  constructor
  · rintro ⟨front, _, _, _, ⟨hfront, rfl⟩, ⟨name, _, _, _, ⟨hname, rfl⟩,
      ⟨back, _, _, _, ⟨hback, rfl⟩,
        ⟨_, later, _, texts, ⟨⟨c, hc, rfl⟩, rfl⟩, hlater, rfl, rfl⟩,
        rfl, rfl⟩, rfl, rfl⟩, rfl, rfl⟩
    obtain rfl := beq_iff_eq.1 hc
    exact ⟨name, front ++ name ++ back, later, texts, hname,
      ⟨front, back, hfront, hback, rfl⟩, hlater, by simp, by simp⟩
  · rintro ⟨name, _, later, texts, hname, ⟨front, back, hfront, hback, rfl⟩,
      hlater, rfl, rfl⟩
    exact ⟨front, name ++ (back ++ (',' :: later)), [], _, ⟨hfront, rfl⟩,
      ⟨name, back ++ (',' :: later), _, texts, ⟨hname, rfl⟩,
        ⟨back, ',' :: later, [], texts, ⟨hback, rfl⟩,
          ⟨[','], later, [], texts, ⟨⟨',', rfl, rfl⟩, rfl⟩, hlater, rfl,
            by simp⟩, rfl, by simp⟩,
        rfl, rfl⟩, by simp, by simp⟩

end Node.Reads

end Pattern

theorem Line.LabelForm.isLabelName {name line : Text} {comment : Option Text}
    (h : LabelForm name comment line) : Text.isLabelName name = true := by
  cases h with
  | bare front back hname => exact hname
  | remarked front back text hname => exact hname

namespace Signature

open Pattern (Node Form)

variable {arity : Nat} {source text name : Text} {arguments : List Text}
  {signature : Signature} {node : Node} {form : Form}

-- ============================================================= extraction

/-- A search that finds nothing has one fault only. -/
theorem fault_of_notFound {found : Option (List Text)} {fault : ArgumentFault}
    (h : (match found with
      | some arguments => Except.ok arguments
      | none => Except.error ArgumentFault.mismatch) = .error fault) : fault
          = .mismatch := by
  cases found with
  | none => exact (Except.error.inj h).symm
  | some arguments => cases h

/-- The signature by a pattern that has to match the whole text. -/
abbrev byPattern (arity : Nat) (node : Node) : Signature :=
  custom arity node.anchored

/-- The arguments by the texts of groups. -/
def argumentsOf (arity : Nat) (texts : Pattern.GroupTexts) : List Text :=
  (List.range arity).map fun i => (texts.lookup (i + 1)).getD []

/-- A signature by a pattern between anchors finds the arguments that the
groups take in the whole of a text. -/
theorem exists_form_of_extract (hunnested : node.unnested = true)
    (hreads : node.Reads form)
    (h : (byPattern arity node).extract text = .ok arguments) :
    ∃ texts, form text texts ∧ arguments = argumentsOf arity texts := by
  obtain ⟨found, hsearch, rfl⟩ := Option.map_eq_some_iff.1 (eq_some_of_found h)
  have hanchored : node.anchored.unnested = true := by
    simp only [Node.anchored, Node.unnested, hunnested, Bool.and_true]
  obtain ⟨rest, rest', hsuffix, hfinds⟩ :=
    Node.finds_of_search hanchored hsearch
  obtain ⟨_, _, _, ⟨hstart, rfl, rfl⟩,
    ⟨_, texts, _, hnode, ⟨hstop, rfl, rfl⟩, rfl⟩, hgroups⟩ :=
    hfinds
  -- between the anchors there is the whole text, and they note down nothing
  obtain rfl := (Pattern.isAt_textStart_iff hsuffix).1 hstart
  obtain rfl := Pattern.isAt_textEnd_iff.1 hstop
  rw [List.append_nil] at hgroups
  obtain ⟨taken, hform, htext⟩ := (hreads _ _ _ _).1 hnode
  rw [List.append_nil] at htext
  refine ⟨found.groups, ?_, rfl⟩
  rwa [hgroups, htext]

/-- It finds some wherever the text is of the form. -/
theorem exists_extract_of_form {texts : Pattern.GroupTexts}
    (hreads : node.Reads form) (h : form text texts) :
    ∃ arguments, (byPattern arity node).extract text = .ok arguments := by
  rw [exists_extract_custom_iff, Node.isSome_search_anchored_iff,
    Node.MatchesWhole, Node.takes_iff]
  exact ⟨texts, (hreads _ _ _ _).2 ⟨text, h, (List.append_nil text).symm⟩⟩

/-- A signature that finds just the arguments that the groups of a pattern
take, and has no fault but that nothing matches, does what the signature
by the pattern does. -/
theorem extract_byPattern_eq (hunnested : node.unnested = true)
    (hreads : node.Reads form)
    (hfault : ∀ text fault, signature.extract text = .error fault →
      fault = .mismatch)
    (hok : ∀ text arguments, signature.extract text = .ok arguments
      ↔ ∃ texts, form text texts ∧ arguments = argumentsOf arity texts)
    (text : Text) :
    (byPattern arity node).extract text = signature.extract text := by
  cases hmade : (byPattern arity node).extract text with
  | ok arguments =>
      exact ((hok text arguments).2
        (exists_form_of_extract hunnested hreads hmade)).symm
  | error fault =>
      -- what the signature finds is of the form, and then the pattern finds
      -- something too
      cases hother : signature.extract text with
      | ok arguments =>
          obtain ⟨texts, hform, -⟩ := (hok text arguments).1 hother
          obtain ⟨found, hfound⟩ : ∃ found,
            (byPattern arity node).extract text = .ok found :=
            exists_extract_of_form hreads hform
          exact absurd (hmade.symm.trans hfound) nofun
      | error fault' =>
          rw [hfault text fault' hother, fault_of_notFound hmade]

theorem ofPattern_of_compile? {pattern : Node}
    (h : Pattern.compile? ("^(?:".toList ++ source ++ ")$".toList)
      = some pattern)
    (hgroups : arity ≤ pattern.groups) :
    ofPattern arity source = .ok (custom arity pattern) := by
  rw [ofPattern, h]
  exact if_neg (Nat.not_lt.2 hgroups)

/-- The signature by the pattern for a jump does what `jump` does. -/
theorem ofPattern_jumpSource :
    ∃ signature, ofPattern 1 jumpSource = .ok signature
    ∧ ∀ text, signature.extract text = jump.extract text := by
  have hread : Pattern.compile? ("^(?:".toList ++ jumpSource ++ ")$".toList)
      = some (Node.target 1).anchored := by decide +kernel
  refine ⟨byPattern 1 (.target 1), ofPattern_of_compile? hread (by decide), ?_⟩
  · refine extract_byPattern_eq (by decide) (Node.Reads.target 1) ?_ ?_
    · exact fun text fault => fault_of_notFound
    · intro text arguments
      rw [extract_jump_eq_ok_iff]
      simp only [Text.joined_singleton_iff]
      constructor
      · rintro ⟨name, target, rfl, htarget, hpadded⟩
        exact ⟨_, ⟨name, target, htarget, hpadded, rfl⟩, rfl⟩
      · rintro ⟨_, ⟨name, target, htarget, hpadded, rfl⟩, rfl⟩
        exact ⟨name, target, rfl, htarget, hpadded⟩

/-- The signature by the pattern for a branch does what `branch` does. -/
theorem ofPattern_branchSource :
    ∃ signature, ofPattern 3 branchSource = .ok signature
    ∧ ∀ text, signature.extract text = branch.extract text := by
  have hread : Pattern.compile? ("^(?:".toList ++ branchSource ++ ")$".toList)
      = some (Node.nameComma 1 (.nameComma 2 (.target 3))).anchored := by
    decide +kernel
  have hreads := Node.Reads.nameComma 1 (.nameComma 2 (.target 3))
  refine ⟨byPattern 3 (.nameComma 1 (.nameComma 2 (.target 3))),
    ofPattern_of_compile? hread (by decide),
    extract_byPattern_eq (by decide) hreads
      (fun text fault => fault_of_notFound) ?_⟩
  · intro text arguments
    rw [extract_branch_eq_ok_iff]
    simp only [Text.joined_cons_iff, Text.joined_singleton_iff]
    constructor
    · rintro ⟨left, right, name, target, rfl, hleft, hright, htarget,
        piece, _, hpiece, ⟨piece', later, hpiece', hpadded, rfl⟩, rfl⟩
      exact ⟨_, ⟨left, piece, _, _, hleft, hpiece,
        ⟨right, piece', later, _, hright, hpiece',
        ⟨name, target, htarget, hpadded, rfl⟩, rfl, rfl⟩, rfl, rfl⟩, rfl⟩
    · rintro ⟨_, ⟨left, piece, _, _, hleft, hpiece,
        ⟨right, piece', later, _, hright, hpiece',
        ⟨name, target, htarget, hpadded, rfl⟩, rfl, rfl⟩, rfl, rfl⟩, rfl⟩
      exact ⟨left, right, name, target, rfl, hleft, hright, htarget,
        piece, _, hpiece, ⟨piece', later, hpiece', hpadded, rfl⟩, rfl⟩

-- ============================================== names, targets and labels

/-- A name is a target, and it is its own. -/
theorem targets_of_isName (h : Literal.IsName name) : Targets name name :=
  ⟨h.isLabelName, .inl rfl⟩

/-- What is accepted as one name is accepted by a jump. -/
theorem extract_jump_of_names (h : (names 1).extract text = .ok arguments) :
    jump.extract text = .ok arguments := by
  obtain ⟨hlength, hnames, hjoined⟩ := (extractNames_eq_ok_iff Nat.one_pos).1 h
  obtain ⟨name, rfl⟩ := List.length_eq_one_iff.1 hlength
  have hname := hnames name List.mem_cons_self
  exact extract_jump_eq_ok_iff.2
    ⟨name, name, rfl, targets_of_isName hname, hjoined⟩

/-- What is accepted as three names is accepted by a branch. -/
theorem extract_branch_of_names (h : (names 3).extract text = .ok arguments) :
    branch.extract text = .ok arguments := by
  obtain ⟨hlength, hnames, hjoined⟩ :=
    (extractNames_eq_ok_iff (Nat.succ_pos 2)).1 h
  obtain ⟨left, right, name, rfl⟩ := List.length_eq_three.1 hlength
  obtain ⟨hleft, hright, hname, -⟩ : Literal.IsName left ∧ Literal.IsName right
      ∧ Literal.IsName name ∧ True := by simpa using hnames
  exact extract_branch_eq_ok_iff.2
    ⟨left, right, name, name, rfl, hleft, hright,
      targets_of_isName hname, hjoined⟩

/-- A jump finds a text in a target for it exactly if it is a label name. -/
theorem extract_jump_target_iff {target : Text}
    (htarget : target = name ∨ target = ':' :: name) :
    jump.extract target = .ok [name] ↔ Text.isLabelName name = true := by
  rw [extract_jump_eq_ok_iff]
  constructor
  · rintro ⟨found, written, hfound, ⟨hname, -⟩, -⟩
    obtain ⟨rfl, -⟩ := List.cons.inj hfound
    exact hname
  · intro hname
    have hpadded : Text.Padded target target := ⟨[], [], rfl, rfl, by simp⟩
    exact ⟨name, target, rfl, ⟨hname, htarget⟩,
      Text.joined_singleton_iff.2 hpadded⟩

/-- A colon and a text are the line of a label exactly if the text is a
label name. -/
theorem classify_colon_iff :
    Line.classify "#".toList (':' :: name) = .label name
      ↔ Text.isLabelName name = true := by
  constructor
  · intro h
    obtain ⟨comment, hform, -⟩ := Line.exists_labelForm h
    exact hform.isLabelName
  · intro hname
    have hline := Line.classify_of_labelForm (.bare [] [] hname rfl rfl)
    simpa using hline

/-- Arguments, exactly, and how the jumps go together with them. A number
of names is accepted where there are such names between commas, with any
white space around each. A jump and a branch do what the patterns for them
do; they accept what is accepted as one name and as three, with the same
arguments; and a branch accepts two names and a target. A label can be
set exactly if it can be jumped to, with the colon or without it. -/
theorem arguments_exact :
    (∀ count text arguments, 0 < count →
        ((names count).extract text = .ok arguments
          ↔ arguments.length = count
            ∧ (∀ argument ∈ arguments, Literal.IsName argument)
            ∧ Text.Joined arguments text))
      ∧ (∃ signature, ofPattern 1 jumpSource = .ok signature
          ∧ ∀ text, signature.extract text
              = Instruction.jump.signature.extract text)
      ∧ (∃ signature, ofPattern 3 branchSource = .ok signature
          ∧ ∀ comparison text,
              signature.extract text
                = (Instruction.branch comparison).signature.extract text)
      ∧ (∀ text arguments, (names 1).extract text = .ok arguments →
          Instruction.jump.signature.extract text = .ok arguments)
      ∧ (∀ comparison text arguments, (names 3).extract text = .ok arguments →
          (Instruction.branch comparison).signature.extract text
            = .ok arguments)
      ∧ (∀ comparison text left right name,
          (Instruction.branch comparison).signature.extract text
            = .ok [left, right, name]
            ↔ Literal.IsName left ∧ Literal.IsName right
              ∧ ∃ target, Targets name target
                ∧ Text.Joined [left, right, target] text)
      ∧ (∀ name, Line.classify ({} : Settings).marker (':' :: name)
            = .label name
          ↔ Instruction.jump.signature.extract name = .ok [name])
      ∧ ∀ name, Line.classify ({} : Settings).marker (':' :: name)
            = .label name
          ↔ Instruction.jump.signature.extract (':' :: name) = .ok [name] := by
  refine ⟨fun count text arguments hcount => extractNames_eq_ok_iff hcount,
    ofPattern_jumpSource, ?_, fun text arguments => extract_jump_of_names,
    fun _ text arguments => extract_branch_of_names, ?_, ?_, ?_⟩
  · obtain ⟨signature, hmade, hsame⟩ := ofPattern_branchSource
    exact ⟨signature, hmade, fun _ => hsame⟩
  · intro _ text left right name
    refine extract_branch_eq_ok_iff.trans ⟨?_, ?_⟩
    · rintro ⟨_, _, _, target, hfound, hleft, hright, htarget, hjoined⟩
      cases hfound
      exact ⟨hleft, hright, target, htarget, hjoined⟩
    · rintro ⟨hleft, hright, target, htarget, hjoined⟩
      exact ⟨left, right, name, target, rfl, hleft, hright, htarget, hjoined⟩
  · exact fun name =>
      classify_colon_iff.trans (extract_jump_target_iff (.inl rfl)).symm
  · exact fun name =>
      classify_colon_iff.trans (extract_jump_target_iff (.inr rfl)).symm

/-- For instance, three names with white space around them. -/
theorem arguments_exact_of_three_names :
    (names 3).extract " a ,b1,\tc ".toList
      = .ok ["a".toList, "b1".toList, "c".toList]
      ∧ ∀ comparison,
        (Instruction.branch comparison).signature.extract " a ,b1,\tc ".toList
          = .ok ["a".toList, "b1".toList, "c".toList] := by
  have hnames : (names 3).extract " a ,b1,\tc ".toList
      = .ok ["a".toList, "b1".toList, "c".toList] := by decide
  obtain ⟨-, -, -, -, hbranch, -⟩ := arguments_exact
  exact ⟨hnames, fun comparison => hbranch comparison _ _ hnames⟩

/-- A label name that is no name: as a target it is found, as a name it is
not. -/
example : branch.extract " a ,b1,\t:a1b2 ".toList
    = .ok ["a".toList, "b1".toList, "a1b2".toList]
    ∧ (names 3).extract "a,b1,a1b2".toList
      = .error (.notIdentifier "a1b2".toList) := by
  decide

end Signature

end LineScript
