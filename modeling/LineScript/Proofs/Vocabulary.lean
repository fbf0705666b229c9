/-
The names in a machine.

At every point of a run each variable has a name that a command could
give it, and each label one that a label line could (`Machine.WellNamed`).
Nothing in the machine checks a name. A handler stores its result under
whatever text its target argument is, and what that text is was settled
before: the extractor of the command has accepted it, by one of two
grammars, that of names with commas between them or that of an assignment
(`Calls.isIdentifier_target`). A label has the name that a line was
recognised by.

So a run has no variables but those that its own commands have set
(`mem_names_iff_of_reaches`): it begins with none, whatever was stored
before, a command that succeeds adds the name of its target and no other,
and there is no command that takes a variable away. It follows that
variables only become more from one step to the next. And since each has
the name of a variable, the commands that take names can be given them
again (`IsScript.decode_names`).
-/
import LineScript.Proofs.Effects
import LineScript.Proofs.LabelLines
import LineScript.Proofs.Splitting

set_option autoImplicit false

namespace LineScript

open StateTransition
open Literal (IsName isIdentifier_iff)

variable {η : Type} [Host η]

-- ================================================ statement vocabulary

/-- The variables of a machine have names of variables, and the labels
names of labels. -/
structure Machine.WellNamed (machine : Machine) : Prop where
  vars : ∀ name ∈ machine.vars.names, Text.isIdentifier name = true
  labels : ∀ name ∈ machine.labels.names, Text.isLabelName name = true

namespace Engine

/-- On the way from one situation to another a command was carried out
whose target is some name. -/
def Assigned (engine : Engine Output) (listing : Listing)
    (start here : State Output × η) (name : Text) : Prop :=
  ∃ before after instruction call,
    Reaches (engine.advance? listing) start before
      ∧ engine.Calls listing before.1 instruction call
      ∧ instruction.targetPosition?.map call.argument = some name
      ∧ engine.advance? listing before = some after
      ∧ Reaches (engine.advance? listing) after here

/-- The commands that take names can be given the variables of a machine:
a line with a keyword and such names, commas between them, is a call with
just these arguments. -/
def CanName (engine : Engine Output) (machine : Machine) : Prop :=
  ∀ (instruction : Instruction) (names : List Text), names ≠ [] →
    instruction.signature = .names names.length →
    (∀ name ∈ names, name ∈ machine.vars.names) →
    engine.decode
      (instruction.keyword.toList ++ " ".toList ++ [','].intercalate names)
      = .ok (instruction.keyword.toList, instruction.command, names)

end Engine

-- =============================================================== tables

theorem Table.mem_names_iff {α : Type} {table : Table α} {name : Text} :
    name ∈ table.names ↔ ∃ value, table.get? name = some value := by
  unfold names
  rw [List.mem_map]
  constructor
  · rintro ⟨⟨found, value⟩, hmem, rfl⟩
    exact ⟨value, mem_toList_iff.1 hmem⟩
  · rintro ⟨value, hget⟩
    exact ⟨(name, value), mem_toList_iff.2 hget, rfl⟩

-- ============================================================== targets

namespace Instruction

/-- A command that sets a variable is an assignment, or takes names and
sets one of them. -/
theorem signature_of_targetPosition? {instruction : Instruction}
    {position : Nat} (h : instruction.targetPosition? = some position) :
    (instruction = .assign ∧ position = 0)
      ∨ ∃ count, instruction.signature = .names count ∧ position < count := by
  cases instruction with
  | assign =>
      cases h
      exact .inl ⟨rfl, rfl⟩
  | write | jump | branch | echo | stop => cases h
  | _ =>
      cases h
      exact .inr ⟨_, rfl, by decide⟩

variable {instruction : Instruction} {call : Call}
  {before after : State Output} {host host' : η}

/-- A command adds its target to the variables, and no other name. -/
theorem Effect.mem_names_iff
    (h : instruction.Effect call before after host host') {name : Text} :
    name ∈ after.machine.vars.names
      ↔ name ∈ before.machine.vars.names
        ∨ instruction.targetPosition?.map call.argument = some name := by
  rw [Table.mem_names_iff, Table.mem_names_iff]
  by_cases htarget : instruction.targetPosition?.map call.argument = some name
  · obtain ⟨position, hposition, rfl⟩ := Option.map_eq_some_iff.1 htarget
    obtain ⟨value, -, hvalue⟩ := h.target position hposition
    exact ⟨fun _ => .inr htarget, fun _ => ⟨value, hvalue⟩⟩
  · have hsame : after.machine.vars.get? name
        = before.machine.vars.get? name :=
      h.others name htarget
    rw [hsame]
    simp only [htarget, or_false]

end Instruction

-- ==================================================== lines with names

namespace Signature

variable {names : List Text}

/-- Names with commas between them are the arguments of a command. -/
theorem extractNames_intercalate (hne : names ≠ [])
    (hnames : ∀ name ∈ names, IsName name) :
    extractNames names.length ([','].intercalate names) = .ok names := by
  refine (extractNames_eq_ok_iff (List.length_pos_iff.2 hne)).2
    ⟨rfl, hnames, names, ?_, rfl⟩
  rw [List.forall₂_same]
  exact fun name _ => Text.padded_self name

theorem intercalate_ne_nil (hne : names ≠ [])
    (hnames : ∀ name ∈ names, IsName name) :
    [','].intercalate names ≠ [] := by
  intro hnil
  have hextract := extractNames_intercalate hne hnames
  rw [extractNames_eq_ok_iff_commaParts (List.length_pos_iff.2 hne),
    hnil] at hextract
  exact hne hextract.1.symm

theorem not_blank_of_mem_intercalate (hnames : ∀ name ∈ names, IsName name) :
    ∀ c ∈ [','].intercalate names, isBlank c = false := by
  intro c hc
  rcases Text.mem_intercalate hc with rfl | ⟨name, hname, hc⟩
  · rfl
  · obtain ⟨-, hchars⟩ :=
      Text.isNameChar_of_isLabelName (hnames name hname).isLabelName
    exact (Text.plain_of_nameChars hchars).2 c hc

end Signature

/-- A keyword is a name. -/
theorem Instruction.isName_keyword (instruction : Instruction) :
    IsName instruction.keyword.toList := by
  apply isIdentifier_iff.1
  cases instruction with
  | branch comparison => cases comparison <;> rfl
  | arithmetic operation => cases operation <;> rfl
  | bitwise operation => cases operation <;> rfl
  | _ => rfl

/-- A keyword, a space and a text without white space are taken apart at
the space. -/
theorem Line.splitsInto_plain {keyword rest : Text} (hkeyword : IsName keyword)
    (hne : rest ≠ []) (hrest : ∀ c ∈ rest, isBlank c = false) :
    SplitsInto (keyword ++ " ".toList ++ rest) keyword rest := by
  obtain ⟨hkeyword_ne, hchars⟩ :=
    Text.isNameChar_of_isLabelName hkeyword.isLabelName
  have hkeyword_tight :=
    Text.Tight.of_not_blank (Text.plain_of_nameChars hchars).2
  have hrest_tight := Text.Tight.of_not_blank hrest
  have htight := hkeyword_tight.between hkeyword_ne hrest_tight hne " ".toList
  have hfeed : '\n' ∉ rest := fun hmem => absurd (hrest _ hmem) (by decide)
  exact .spaced " ".toList hkeyword (by decide) rfl hne hfeed hrest_tight
    ⟨Text.padded_self _, htight⟩

namespace Engine

variable {engine : Engine Output} {listing : Listing}

/-- The target of a call has the name of a variable. -/
theorem Calls.isIdentifier_target {state : State Output}
    {instruction : Instruction} {call : Call}
    (h : engine.Calls listing state instruction call) {name : Text}
    (hname : instruction.targetPosition?.map call.argument = some name) :
    Text.isIdentifier name = true := by
  obtain ⟨position, htarget, rfl⟩ := Option.map_eq_some_iff.1 hname
  rcases Instruction.signature_of_targetPosition? htarget with
    ⟨rfl, rfl⟩ | ⟨count, hsignature, hposition⟩
  · obtain ⟨name, operand, harguments, hname, -, -⟩ := h.tight_operand
    rw [Call.argument, harguments]
    exact isIdentifier_iff.2 hname
  · obtain ⟨rest, -, hextract⟩ := extract_of_decode h.decode
    have hnames : Signature.extractNames count rest = .ok call.arguments := by
      rw [Instruction.command, hsignature] at hextract
      exact hextract
    obtain ⟨hlength, hidentifiers⟩ := Signature.names_of_extractNames hnames
    have hbound : position < call.arguments.length := by
      rw [hlength]
      exact hposition
    rw [Call.argument, List.getD_eq_getElem?_getD,
      List.getElem?_eq_getElem hbound, Option.getD_some]
    exact hidentifiers _ (List.getElem_mem hbound)

/-- A step that carries out a call has the effect of that call. -/
theorem Calls.effect {here there : State Output × η}
    {instruction : Instruction} {call : Call}
    (hcall : engine.Calls listing here.1 instruction call)
    (h : engine.advance? listing here = some there) :
    instruction.Effect call here.1 there.1 here.2 there.2 := by
  rw [advance?_eq_some_iff, hcall.result_step] at h
  cases hnext : (instruction.outcome call here.1.machine here.2).next with
  | error fault =>
      rw [hnext] at h
      cases h
  | ok next =>
      rw [hnext, Prod.mk.injEq, Progress.moved.injEq] at h
      rw [← h.1, ← h.2]
      exact Instruction.effect_of_outcome _ hnext

-- ================================================================= runs

/-- A step loses no variable, and one that it adds is the target of the
call that it carries out. -/
theorem names_of_advance? (hs : engine.IsScript)
    {here there : State Output × η}
    (h : engine.advance? listing here = some there) :
    here.1.machine.vars.names ⊆ there.1.machine.vars.names
      ∧ ∀ name ∈ there.1.machine.vars.names, name ∈ here.1.machine.vars.names
          ∨ ∃ instruction call, engine.Calls listing here.1 instruction call
              ∧ instruction.targetPosition?.map call.argument = some name := by
  rcases effect_of_advance? hs h with rfl | ⟨instruction, call, hcall, heffect⟩
  · exact ⟨List.Subset.refl _, fun name hname => .inl hname⟩
  · refine ⟨fun name hname => heffect.mem_names_iff.2 (.inl hname),
      fun name hname => ?_⟩
    exact (heffect.mem_names_iff.1 hname).imp_right fun htarget =>
      ⟨instruction, call, hcall, htarget⟩

/-- No run loses a variable. -/
theorem names_subset_of_reaches (hs : engine.IsScript)
    {start here : State Output × η}
    (h : Reaches (engine.advance? listing) start here) :
    start.1.machine.vars.names ⊆ here.1.machine.vars.names := by
  induction h with
  | refl => exact List.Subset.refl _
  | tail _ hstep ih =>
      exact List.Subset.trans ih (names_of_advance? hs hstep).1

/-- The variables after some steps are those before and those that were
the target of a command on the way. -/
theorem mem_names_iff_of_reaches (hs : engine.IsScript)
    {start here : State Output × η}
    (h : Reaches (engine.advance? listing) start here) {name : Text} :
    name ∈ here.1.machine.vars.names
      ↔ name ∈ start.1.machine.vars.names
        ∨ engine.Assigned listing start here name := by
  constructor
  · intro hname
    induction h with
    | refl => exact .inl hname
    | tail hbefore hstep ih =>
        rcases (names_of_advance? hs hstep).2 name hname with
          hold | ⟨instruction, call, hcall, htarget⟩
        · refine (ih hold).imp_right ?_
          rintro ⟨before, after, instruction, call, hreach, hcall, htarget,
            hset, hrest⟩
          exact ⟨before, after, instruction, call, hreach, hcall, htarget,
            hset, hrest.tail hstep⟩
        · exact .inr
            ⟨_, _, instruction, call, hbefore, hcall, htarget, hstep, .refl⟩
  · rintro (hname |
      ⟨before, after, instruction, call, -, hcall, htarget, hset, hrest⟩)
    · exact names_subset_of_reaches hs h hname
    · exact names_subset_of_reaches hs hrest
        ((hcall.effect hset).mem_names_iff.2 (.inr htarget))

/-- What was the target of a command has the name of a variable. -/
theorem Assigned.isIdentifier {start here : State Output × η} {name : Text}
    (h : engine.Assigned listing start here name) :
    Text.isIdentifier name = true := by
  obtain ⟨before, after, instruction, call, -, hcall, htarget, -, -⟩ := h
  exact hcall.isIdentifier_target htarget

-- =============================================================== labels

/-- The labels of some lines have names of labels. -/
theorem isLabelName_of_mem_readFrom {σ : Type} {engine : Engine σ} {own : σ}
    {raws : List Text} {name : Text}
    (h : name ∈ (engine.readFrom 0 .empty own raws).labels.names) :
    Text.isLabelName name = true := by
  obtain ⟨i, hlabel⟩ := Table.mem_names_iff.1 h
  rcases get?_readFrom hlabel with hbefore | ⟨j, raw, -, -, hclass⟩
  · cases hbefore
  · exact Line.isLabelName_of_classify hclass

-- ======================================================== naming again

/-- The commands of the language are found under their keywords. -/
theorem IsScript.get?_keyword (hs : engine.IsScript)
    (instruction : Instruction) :
    engine.commands.get? instruction.keyword.toList
      = some instruction.command := by
  rw [hs.commands]
  cases instruction with
  | branch comparison => cases comparison <;> rfl
  | arithmetic operation => cases operation <;> rfl
  | bitwise operation => cases operation <;> rfl
  | _ => rfl

/-- A keyword and names with commas between them are taken apart again. -/
theorem IsScript.decode_names (hs : engine.IsScript)
    {instruction : Instruction} {names : List Text} (hne : names ≠ [])
    (hsignature : instruction.signature = .names names.length)
    (hnames : ∀ name ∈ names, IsName name) :
    engine.decode
      (instruction.keyword.toList ++ " ".toList ++ [','].intercalate names)
      = .ok (instruction.keyword.toList, instruction.command, names) := by
  have hextract := Signature.extractNames_intercalate hne hnames
  have hsplit := (Line.splitsInto_plain instruction.isName_keyword
    (Signature.intercalate_ne_nil hne hnames)
    (Signature.not_blank_of_mem_intercalate hnames)).splitCommand?_eq
  have hcommand : instruction.command.signature.extract
      ([','].intercalate names) = .ok names := by
    rw [Instruction.command, hsignature]
    exact hextract
  unfold decode
  rw [hsplit]
  simp only [hs.get?_keyword, hcommand]

end Engine

-- =========================================================== whole runs

namespace Interpreter

variable {interpreter : Interpreter} {settings : Settings} {source : Text}
  {host : η} {listing : Listing} {here : State Output × η}

/-- The variables of a run are those that its commands have set so far. -/
theorem mem_names_iff_of_visits (built : interpreter.BuiltFor settings)
    (h : interpreter.Visits source host listing here) {name : Text} :
    name ∈ here.1.machine.vars.names
      ↔ interpreter.engine.Assigned listing
          ((interpreter.reading source).state.entering listing, host)
          here name := by
  rw [Engine.mem_names_iff_of_reaches built.isScript h.2]
  exact or_iff_right List.not_mem_nil

/-- At every turn of a run all names are well formed. -/
theorem wellNamed_of_visits (built : interpreter.BuiltFor settings)
    (h : interpreter.Visits source host listing here) :
    here.1.machine.WellNamed where
  vars _ hname := ((mem_names_iff_of_visits built h).1 hname).isIdentifier
  labels name hname := by
    rw [(fits_of_visits built h).2] at hname
    exact Engine.isLabelName_of_mem_readFrom hname

/-- Where a script is refused there are no variables, and the labels read
so far have names of labels. -/
theorem wellNamed_reading (interpreter : Interpreter) (source : Text) :
    (interpreter.reading source).state.machine.WellNamed where
  vars _ hname := absurd hname List.not_mem_nil
  labels _ hname := Engine.isLabelName_of_mem_readFrom hname

/-- The names in a machine during a run and after it, whatever was stored
in the interpreter before. While the script is read there are no
variables, and the labels of the lines read so far have names of labels.
At every turn of the loop all names are well formed; the variables are
those that commands of this run have set, and the next step loses none of
them. So it is at the end, whether the run is complete or has failed, and
every variable that is there can be named again by the commands that take
names. -/
theorem runSource_names (built : interpreter.BuiltFor settings) (source : Text)
    (host : η) :
    ((interpreter.reading source).state.machine.vars.names = []
        ∧ ∀ n, ∀ name ∈
            (interpreter.engine.readFrom 0 .empty interpreter.state.own
              ((interpreter.engine.pieces source).take n)).labels.names,
          Text.isLabelName name = true)
      ∧ (∀ listing here, interpreter.Visits source host listing here →
          here.1.machine.WellNamed
            ∧ (∀ name, name ∈ here.1.machine.vars.names
                ↔ interpreter.engine.Assigned listing
                    ((interpreter.reading source).state.entering listing, host)
                    here name)
            ∧ ∀ there, interpreter.engine.advance? listing here = some there →
                here.1.machine.vars.names ⊆ there.1.machine.vars.names)
      ∧ ∀ after verdict host',
        interpreter.RunsTo source host after verdict host' →
          after.state.machine.WellNamed
            ∧ (∀ name ∈ after.state.machine.vars.names, ∃ listing,
                (interpreter.reading source).listing = .ok listing
                  ∧ interpreter.engine.Assigned listing
                      ((interpreter.reading source).state.entering listing,
                        host)
                      (after.state, host') name)
            ∧ after.engine.CanName after.state.machine := by
  refine ⟨⟨rfl, fun _ _ => Engine.isLabelName_of_mem_readFrom⟩, ?_, ?_⟩
  · intro listing here hvisit
    exact ⟨wellNamed_of_visits built hvisit,
      fun _ => mem_names_iff_of_visits built hvisit,
      fun there hstep => (Engine.names_of_advance? built.isScript hstep).1⟩
  · intro after verdict host' hrun
    have hscript : after.engine.IsScript := by
      rw [(runsTo_iff.1 hrun).1]
      exact built.isScript
    have hcan : after.state.machine.WellNamed →
        after.engine.CanName after.state.machine :=
      fun hwell instruction names hne hsignature hnames =>
        hscript.decode_names hne hsignature fun name hname =>
          isIdentifier_iff.1 (hwell.vars name (hnames name hname))
    rcases hrun.inv built with ⟨failure, -, hstate, -, -⟩
      | ⟨listing, hvisit, -⟩
    · have hwell : after.state.machine.WellNamed := by
        rw [hstate]
        exact wellNamed_reading interpreter source
      refine ⟨hwell, fun name hname => ?_, hcan hwell⟩
      rw [hstate] at hname
      exact absurd hname List.not_mem_nil
    · have hwell := wellNamed_of_visits built hvisit
      exact ⟨hwell, fun name hname =>
        ⟨listing, hvisit.1, (mem_names_iff_of_visits built hvisit).1 hname⟩,
        hcan hwell⟩

/-- For instance, a run that fails in its last line, in an interpreter in
which a value was stored under a text that is no name: there is one
variable in the end, and a line can name it. -/
theorem runSource_names_of_seeded :
    ∃ after failure,
      (standard.assign "my seed".toList (.number .one)).RunsTo
        ":top\nset a1_, 'x'\ninc b".toList
          (⟨.empty⟩ : MemoryHost) after (.error failure) ⟨.empty⟩
        ∧ after.state.machine.WellNamed
        ∧ after.vars.names = ["a1_".toList]
        ∧ after.state.machine.labels.names = ["top".toList]
        ∧ after.engine.decode "len a1_,a1_".toList
          = .ok ("len".toList, Instruction.length.command,
            ["a1_".toList, "a1_".toList]) := by
  have built : (standard.assign "my seed".toList (.number .one)).BuiltFor {} :=
    rfl
  have hrun : (standard.assign "my seed".toList (.number .one)).RunsTo
      ":top\nset a1_, 'x'\ninc b".toList (⟨.empty⟩ : MemoryHost) _
        (.error _) ⟨.empty⟩ :=
    runsTo_of_stepsWithin rfl 5 rfl
  obtain ⟨hwell, -, hcan⟩ := (runSource_names built _ _).2.2 _ _ _ hrun
  refine ⟨_, _, hrun, hwell, rfl, rfl, ?_⟩
  exact hcan .length ["a1_".toList, "a1_".toList] (by decide) rfl (by decide)

end Interpreter

end LineScript
