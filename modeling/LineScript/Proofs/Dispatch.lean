/-
The contract of dispatch, for every language.

A language is given as it is put together: a list of declarations and a
list of bindings, in either of which a later entry overwrites an earlier
one with the same keyword (`Latest`). Building an engine joins the two,
once it is checked that every declared keyword is bound. What the engine
then does is described without it, by the two lists alone:

- `Invokes` says when a handler is called, which one, and with what;
- `Unreadable` says when a line is refused, and why;
- `Turn` puts these together to all that can happen in one turn of the
  loop, and `Runs` strings turns together.

Each of the descriptions is exact: a step of the engine has an outcome
if and only if the turn has it (`result_step_iff`), and it carries a
listing out to an end if and only if there is such a chain of turns
(`ends_iff_runs`). That a declared keyword could turn out not to be bound
is not among the things that can happen.
-/
import LineScript.Host.Memory
import LineScript.Proofs.Execution
import LineScript.Proofs.Lexing

set_option autoImplicit false

namespace LineScript

open Relation (ReflTransGen)

variable {σ η : Type}

-- ================================================ statement vocabulary

/-- The last entry under a name in a list of entries. -/
def Latest {α : Type} (entries : List (Text × α)) (name : Text) (value : α) :
    Prop :=
  ∃ earlier later, entries = earlier ++ (name, value) :: later
    ∧ ∀ entry ∈ later, entry.1 ≠ name

/-- The language of some declarations and bindings. -/
def Dialect.ofLists (hook : Hook σ) (declared : List (Text × Signature))
    (bindings : List (Text × Handler σ)) : Dialect σ :=
  ⟨hook, .ofList declared, .ofList bindings⟩

section

variable (declared : List (Text × Signature))
  (bindings : List (Text × Handler σ)) (listing : Listing)

/-- The line at the counter is a call of a handler. -/
structure Invokes (machine : Machine) (call : Call) (signature : Signature)
    (handler : Handler σ) : Prop where
  counter : call.pc = machine.pc
  inside : machine.pc < listing.size
  line : listing[machine.pc]? = some call.line
  notBlank : Text.isAllBlank call.line = false
  keyword : Text.isIdentifier call.keyword = true
  declared : Latest declared call.keyword signature
  bound : Latest bindings call.keyword handler
  written : ∃ rest, Line.splitCommand? call.line = some (call.keyword, rest)
    ∧ signature.extract rest = .ok call.arguments
  arity : call.arguments.length = signature.arity
  groups : ∀ [Pattern.Lexicon] (arity source),
    Signature.ofPattern arity source = .ok signature →
    call.arguments.length = arity
  names : ∀ count, signature = .names count →
    ∀ argument ∈ call.arguments, Text.isIdentifier argument = true

/-- A line that is no call, and the reason. -/
inductive Unreadable (line : Text) : DecodingFault → Prop
  | malformed (h : Line.splitCommand? line = none) : Unreadable line .malformed
  | unknown {keyword rest : Text}
      (h : Line.splitCommand? line = some (keyword, rest))
      (undeclared : ∀ entry ∈ declared, entry.1 ≠ keyword) :
      Unreadable line (.unknownCommand keyword)
  | arguments {keyword rest : Text} {signature : Signature}
      {fault : ArgumentFault}
      (h : Line.splitCommand? line = some (keyword, rest))
      (declaration : Latest declared keyword signature)
      (extract : signature.extract rest = .error fault) :
      Unreadable line (.arguments keyword fault)

variable [Host η]

/-- One turn of the loop: what it leads to, and the host afterwards. -/
inductive Turn (here : State σ × η) : Progress σ × η → Prop
  | past (h : listing.size ≤ here.1.machine.pc) : Turn here (.finished, here.2)
  | blank {line : Text} (h : listing[here.1.machine.pc]? = some line)
      (allBlank : Text.isAllBlank line = true) :
      Turn here
        (.moved { here.1 with
          machine := { here.1.machine with pc := here.1.machine.pc + 1 } },
          here.2)
  | refused {line : Text} {fault : DecodingFault}
      (h : listing[here.1.machine.pc]? = some line)
      (notBlank : Text.isAllBlank line = false)
      (unreadable : Unreadable declared line fault) :
      Turn here
        (.failed here.1 (.decoding ⟨here.1.machine.pc, line⟩ fault), here.2)
  | returned {call : Call} {signature : Signature} {handler : Handler σ}
      {reply : Reply σ} {host : η} {next : Nat}
      (h : Invokes declared bindings listing here.1.machine call
        signature handler)
      (replied : (handler call here.1.machine here.1.own).result here.2
        = (reply, host))
      (goesOn : reply.next = .ok next) :
      Turn here
        (.moved ⟨{ here.1.machine with vars := reply.vars, pc := next },
          reply.own⟩, host)
  | raised {call : Call} {signature : Signature} {handler : Handler σ}
      {reply : Reply σ} {host : η} {failure : Failure}
      (h : Invokes declared bindings listing here.1.machine call
        signature handler)
      (replied : (handler call here.1.machine here.1.own).result here.2
        = (reply, host))
      (fails : reply.next = .error failure) :
      Turn here (.failed
        ⟨{ here.1.machine with vars := reply.vars }, reply.own⟩ failure, host)

/-- What a run that ends in some situation can end with: the counter is
past the lines, or at a line that is no call, or a handler answered so. -/
inductive Ending (there : State σ × η) : Verdict → Prop
  | past (h : listing.size ≤ there.1.machine.pc) : Ending there (.ok ())
  | refused {line : Text} {fault : DecodingFault}
      (h : listing[there.1.machine.pc]? = some line)
      (notBlank : Text.isAllBlank line = false)
      (unreadable : Unreadable declared line fault) :
      Ending there (.error (.decoding ⟨there.1.machine.pc, line⟩ fault))
  | raised {last : State σ × η} {call : Call} {signature : Signature}
      {handler : Handler σ}
      {reply : Reply σ} {failure : Failure}
      (h : Invokes declared bindings listing last.1.machine call
        signature handler)
      (replied : (handler call last.1.machine last.1.own).result last.2
        = (reply, there.2))
      (fails : reply.next = .error failure) : Ending there (.error failure)

/-- Turns up to the one that ends the run. -/
inductive Runs : State σ × η → State σ × η → Verdict → Prop
  | finished {here : State σ × η} {host : η}
      (h : Turn declared bindings listing here (.finished, host)) :
      Runs here (here.1, host) (.ok ())
  | failed {here : State σ × η} {state : State σ}
      {failure : Failure} {host : η}
      (h : Turn declared bindings listing here (.failed state failure, host)) :
      Runs here (state, host) (.error failure)
  | moved {here there : State σ × η} {state : State σ} {host : η}
      {verdict : Verdict}
      (h : Turn declared bindings listing here (.moved state, host))
      (rest : Runs (state, host) there verdict) : Runs here there verdict

end

-- ======================================================= the two tables

section

variable {α : Type} {entries : List (Text × α)} {name other : Text}
  {value new : α}

/-- Of an entry and those before it the entry is the last. -/
theorem latest_concat_iff :
    Latest (entries ++ [(other, new)]) name value
      ↔ if name = other then new = value else Latest entries name value := by
  constructor
  · rintro ⟨earlier, later, heq, hlater⟩
    rcases List.eq_nil_or_concat later with rfl | ⟨later, last, rfl⟩
    · obtain ⟨-, hlast⟩ := List.append_inj' heq rfl
      cases hlast
      rw [if_pos rfl]
    · rw [List.concat_eq_append] at heq hlater
      rw [← List.cons_append, ← List.append_assoc] at heq
      obtain ⟨hentries, hlast⟩ := List.append_inj' heq rfl
      cases hlast
      have hne : other ≠ name :=
        hlater (other, new) (List.mem_append_right _ List.mem_cons_self)
      rw [if_neg (Ne.symm hne)]
      exact ⟨earlier, later, hentries, fun entry hentry =>
        hlater entry (List.mem_append_left _ hentry)⟩
  · intro h
    by_cases hname : name = other
    · rw [if_pos hname] at h
      subst hname h
      exact ⟨entries, [], rfl, fun entry hentry => by cases hentry⟩
    · rw [if_neg hname] at h
      obtain ⟨earlier, later, rfl, hlater⟩ := h
      refine ⟨earlier, later ++ [(other, new)], by simp,
        fun entry hentry => ?_⟩
      rcases List.mem_append.1 hentry with hold | hnew
      · exact hlater entry hold
      · rw [List.mem_singleton.1 hnew]
        exact Ne.symm hname

namespace Table

theorem ofList_concat (entries : List (Text × α)) (name : Text) (value : α) :
    ofList (entries ++ [(name, value)])
      = (ofList entries).insert name value := by
  unfold ofList
  rw [List.foldl_append]
  rfl

/-- What is found under a name is the last entry. -/
theorem get?_ofList_eq_some_iff :
    (ofList entries).get? name = some value ↔ Latest entries name value := by
  induction entries using List.reverseRecOn with
  | nil =>
      constructor
      · intro h
        cases h
      · rintro ⟨earlier, later, heq, -⟩
        exact absurd heq (by simp)
  | append_singleton entries entry ih =>
      obtain ⟨other, new⟩ := entry
      rw [ofList_concat, get?_insert, latest_concat_iff]
      by_cases hname : name = other
      · rw [if_pos hname, if_pos hname, Option.some.injEq]
      · rw [if_neg hname, if_neg hname]
        exact ih

/-- A name that is not listed is not found. -/
theorem get?_ofList_eq_none_iff :
    (ofList entries).get? name = none ↔ ∀ entry ∈ entries, entry.1 ≠ name := by
  induction entries using List.reverseRecOn with
  | nil => simp [ofList]
  | append_singleton entries entry ih =>
      obtain ⟨other, new⟩ := entry
      rw [ofList_concat, get?_insert]
      by_cases hname : name = other
      · simp [hname]
      · rw [if_neg hname, ih]
        simp [or_imp, forall_and, Ne.symm hname]

end Table

end

-- ============================================================ the engine

namespace Dialect

variable {hook : Hook σ} {declared : List (Text × Signature)}
  {bindings : List (Text × Handler σ)} {settings : Settings}
  {engine : Engine σ}

/-- Where an engine is built every declared keyword is bound. -/
theorem exists_handler_of_engine {dialect : Dialect σ}
    (built : dialect.engine settings = .ok engine) {keyword : Text}
    {signature : Signature}
    (h : dialect.commands.get? keyword = some signature) :
    ∃ handler, dialect.handlers.get? keyword = some handler := by
  obtain ⟨-, -, hunbound, -⟩ := engine_eq_ok_iff.1 built
  have hmem : keyword ∈ dialect.commands.names :=
    List.mem_map.2 ⟨(keyword, signature), Table.mem_toList_iff.2 h, rfl⟩
  have hcontains := List.filter_eq_nil_iff.1 hunbound keyword hmem
  rw [Bool.not_eq_true, Bool.not_eq_false'] at hcontains
  exact Option.isSome_iff_exists.1 hcontains

/-- What an engine finds under a keyword: the last declaration and the
last binding. -/
theorem get?_commands_eq_some_iff
    (built : (ofLists hook declared bindings).engine settings = .ok engine)
    {keyword : Text} {command : Command σ} :
    engine.commands.get? keyword = some command
      ↔ Latest declared keyword command.signature
        ∧ Latest bindings keyword command.handler := by
  obtain ⟨-, -, -, rfl⟩ := engine_eq_ok_iff.1 built
  obtain ⟨signature, handler⟩ := command
  rw [← Table.get?_ofList_eq_some_iff, ← Table.get?_ofList_eq_some_iff]
  simp [bound, ofLists, Table.get?_filterMap, Option.bind_eq_some_iff]

/-- An engine finds nothing under a keyword only if it is not declared. -/
theorem get?_commands_eq_none_iff
    (built : (ofLists hook declared bindings).engine settings = .ok engine)
    {keyword : Text} :
    engine.commands.get? keyword = none
      ↔ ∀ entry ∈ declared, entry.1 ≠ keyword := by
  rw [← Table.get?_ofList_eq_none_iff]
  constructor
  · intro h
    cases hsignature : (Table.ofList declared).get? keyword with
    | none => rfl
    | some signature =>
        obtain ⟨handler, hhandler⟩ := exists_handler_of_engine built hsignature
        have hfound : engine.commands.get? keyword
            = some ⟨signature, handler⟩ :=
          (get?_commands_eq_some_iff built).2
            ⟨Table.get?_ofList_eq_some_iff.1 hsignature,
            Table.get?_ofList_eq_some_iff.1 hhandler⟩
        rw [h] at hfound
        cases hfound
  · intro h
    obtain ⟨-, -, -, rfl⟩ := engine_eq_ok_iff.1 built
    simp [bound, ofLists, Table.get?_filterMap, h]

end Dialect

-- ============================================================ arguments

namespace Signature

/-- The arguments of a command that takes names are as many identifiers
as it takes. -/
theorem names_of_extractNames {count : Nat} {text : Text}
    {arguments : List Text} (h : extractNames count text = .ok arguments) :
    arguments.length = count
      ∧ ∀ argument ∈ arguments, Text.isIdentifier argument = true := by
  unfold extractNames at h
  simp only at h
  split at h
  next hzero =>
    split at h
    · cases h
      exact ⟨hzero.symm, fun argument hargument => by cases hargument⟩
    · cases h
  next =>
    split at h
    · cases h
    next hlength =>
      split at h
      · cases h
      next hnone =>
        cases h
        refine ⟨not_not.1 hlength, fun argument hargument => ?_⟩
        have hfound := List.find?_eq_none.1 hnone argument hargument
        rw [Bool.not_eq_true, Bool.not_eq_false'] at hfound
        exact hfound

/-- Arguments are found if there are arguments. -/
theorem eq_some_of_found {found : Option (List Text)} {arguments : List Text}
    (h : (match found with
      | some arguments => Except.ok arguments
      | none => Except.error ArgumentFault.mismatch) = .ok arguments) :
    found = some arguments := by
  cases found with
  | none => cases h
  | some other =>
      cases h
      rfl

/-- The arguments of a command are as many as its signature says. -/
theorem length_of_extract {signature : Signature} {text : Text}
    {arguments : List Text} (h : signature.extract text = .ok arguments) :
    arguments.length = signature.arity := by
  cases signature with
  | names count => exact (names_of_extractNames h).1
  | assignment =>
      have hfound : assignment? text = some arguments := eq_some_of_found h
      simp only [assignment?, Option.bind_eq_bind,
        Option.bind_eq_some_iff] at hfound
      obtain ⟨⟨name, rest⟩, -, operand, -, heq⟩ := hfound
      cases heq
      rfl
  | jump =>
      have hfound : (target? text).map ([·]) = some arguments :=
        eq_some_of_found h
      obtain ⟨name, -, rfl⟩ := Option.map_eq_some_iff.1 hfound
      rfl
  | branch =>
      have hfound : branch? text = some arguments := eq_some_of_found h
      simp only [branch?, Option.bind_eq_bind,
        Option.bind_eq_some_iff] at hfound
      obtain ⟨⟨left, rest⟩, -, ⟨right, rest'⟩, -, name, -, heq⟩ := hfound
      cases heq
      rfl
  | custom arity pattern =>
      have hfound : (pattern.search text).map (groupsOf arity)
          = some arguments :=
        eq_some_of_found h
      obtain ⟨thread, -, rfl⟩ := Option.map_eq_some_iff.1 hfound
      rw [groupsOf, List.length_map, List.length_range]
      rfl

/-- A pattern is declared with the number of its arguments, and has a
group for each. -/
theorem arity_of_ofPattern [Pattern.Lexicon] {arity : Nat} {source : Text}
    {signature : Signature} (h : ofPattern arity source = .ok signature) :
    signature.arity = arity ∧ ∃ pattern, signature = .custom arity pattern
      ∧ arity ≤ pattern.groups := by
  unfold ofPattern at h
  split at h
  next => cases h
  next pattern hpattern =>
    split at h
    next => cases h
    next hgroups =>
      cases h
      exact ⟨rfl, pattern, rfl, Nat.not_lt.1 hgroups⟩

end Signature

-- =============================================================== a turn

theorem isIdentifier_of_splitCommand? {line keyword rest : Text}
    (h : Line.splitCommand? line = some (keyword, rest)) :
    Text.isIdentifier keyword = true := by
  unfold Line.splitCommand? at h
  split at h
  · cases h
  next found after hsplit =>
    simp only at h
    split at h
    · cases h
    · split at h
      · cases h
        exact Text.isIdentifier_of_splitIdentifier? hsplit
      · cases h

namespace Engine

variable {hook : Hook σ} {declared : List (Text × Signature)}
  {bindings : List (Text × Handler σ)} {settings : Settings}
  {engine : Engine σ}
  {listing : Listing}
  (built : (Dialect.ofLists hook declared bindings).engine settings
    = .ok engine)

include built

/-- A line that is refused is refused for what it is. -/
theorem unreadable_of_decode {line : Text} {fault : DecodingFault}
    (h : engine.decode line = .error fault) :
    Unreadable declared line fault := by
  unfold decode at h
  split at h
  next hsplit =>
    cases h
    exact .malformed hsplit
  next keyword rest hsplit =>
    split at h
    next hnone =>
      cases h
      exact .unknown hsplit ((Dialect.get?_commands_eq_none_iff built).1 hnone)
    next command hcommand =>
      split at h
      next hextract =>
        cases h
        exact .arguments hsplit
          ((Dialect.get?_commands_eq_some_iff built).1 hcommand).1 hextract
      next => cases h

/-- A line that is decoded is a call of a handler. -/
theorem invokes_of_decode {machine : Machine} {line keyword : Text}
    {command : Command σ} {arguments : List Text}
    (hline : listing[machine.pc]? = some line)
    (hnotBlank : Text.isAllBlank line = false)
    (h : engine.decode line = .ok (keyword, command, arguments)) :
    Invokes declared bindings listing machine
      ⟨machine.pc, line, keyword, arguments⟩
      command.signature command.handler := by
  obtain ⟨hinside, -⟩ := Array.getElem?_eq_some_iff.1 hline
  unfold decode at h
  split at h
  next => cases h
  next found rest hsplit =>
    split at h
    next => cases h
    next command' hcommand =>
      split at h
      next => cases h
      next arguments' hextract =>
        cases h
        obtain ⟨hdeclared, hbound⟩ :=
          (Dialect.get?_commands_eq_some_iff built).1 hcommand
        refine ⟨rfl, hinside, hline, hnotBlank,
          isIdentifier_of_splitCommand? hsplit, hdeclared, hbound,
          ⟨rest, hsplit, hextract⟩, Signature.length_of_extract hextract, ?_,
          ?_⟩
        · intro _ arity source hpattern
          rw [Signature.length_of_extract hextract]
          exact (Signature.arity_of_ofPattern hpattern).1
        · intro count hnames
          rw [hnames] at hextract
          exact (Signature.names_of_extractNames hextract).2

theorem decode_of_unreadable {line : Text} {fault : DecodingFault}
    (h : Unreadable declared line fault) :
    engine.decode line = .error fault := by
  unfold decode
  cases h with
  | malformed hsplit => rw [hsplit]
  | unknown hsplit hundeclared =>
      have hnone := (Dialect.get?_commands_eq_none_iff built).2 hundeclared
      simp only [hsplit, hnone]
  | @arguments keyword rest signature fault hsplit hdeclared hextract =>
      -- the keyword is bound, so the fault in the arguments comes to light
      obtain ⟨handler, hhandler⟩ := Dialect.exists_handler_of_engine built
        (Table.get?_ofList_eq_some_iff.2 hdeclared)
      have hcommand : engine.commands.get? keyword
          = some ⟨signature, handler⟩ :=
        (Dialect.get?_commands_eq_some_iff built).2
          ⟨hdeclared, Table.get?_ofList_eq_some_iff.1 hhandler⟩
      simp only [hsplit, hcommand, hextract]

theorem decode_of_invokes {machine : Machine} {call : Call}
    {signature : Signature} {handler : Handler σ}
    (h : Invokes declared bindings listing machine call signature handler) :
    engine.decode call.line
      = .ok (call.keyword, ⟨signature, handler⟩, call.arguments) := by
  obtain ⟨rest, hsplit, hextract⟩ := h.written
  have hcommand : engine.commands.get? call.keyword
      = some ⟨signature, handler⟩ :=
    (Dialect.get?_commands_eq_some_iff built).2 ⟨h.declared, h.bound⟩
  unfold decode
  simp only [hsplit, hcommand, hextract]

variable [Host η]

/-- A step that calls a handler goes by the handler's answer. -/
theorem result_step_of_invokes {here : State σ × η} {call : Call}
    {signature : Signature}
    {handler : Handler σ}
    (h : Invokes declared bindings listing here.1.machine call
      signature handler) :
    (engine.step listing here.1).result here.2
      = (settle here.1
        ((handler call here.1.machine here.1.own).result here.2).1,
          ((handler call here.1.machine here.1.own).result here.2).2) := by
  have hdecode := decode_of_invokes built h
  have hcounter := h.counter
  have hline := h.line
  obtain ⟨pc, line, keyword, arguments⟩ := call
  simp only at hdecode hcounter hline
  subst hcounter
  exact result_step_of_decoded here.2 hline h.notBlank hdecode

/-- Every step is a turn. -/
theorem turn_step (here : State σ × η) :
    Turn declared bindings listing here
      ((engine.step listing here.1).result here.2) := by
  cases hline : listing[here.1.machine.pc]? with
  | none =>
      rw [result_step_of_none here.2 hline]
      exact .past (Array.getElem?_eq_none_iff.1 hline)
  | some line =>
      cases hblank : Text.isAllBlank line with
      | true =>
          rw [result_step_of_blank here.2 hline hblank]
          exact .blank hline hblank
      | false =>
          cases hdecode : engine.decode line with
          | error fault =>
              rw [result_step_of_undecoded here.2 hline hblank hdecode]
              exact .refused hline hblank (unreadable_of_decode built hdecode)
          | ok found =>
              obtain ⟨keyword, command, arguments⟩ := found
              have hinvokes := invokes_of_decode built hline hblank hdecode
              rw [result_step_of_decoded here.2 hline hblank hdecode]
              generalize hreply : (command.handler
                ⟨here.1.machine.pc, line, keyword, arguments⟩
                here.1.machine here.1.own).result here.2 = replied
              obtain ⟨reply, host⟩ := replied
              cases hnext : reply.next with
              | ok next =>
                  simp only [settle, hnext]
                  exact .returned hinvokes hreply hnext
              | error failure =>
                  simp only [settle, hnext]
                  exact .raised hinvokes hreply hnext

/-- The turns are the steps. -/
theorem result_step_iff {here : State σ × η} {after : Progress σ × η} :
    (engine.step listing here.1).result here.2 = after
      ↔ Turn declared bindings listing here after := by
  constructor
  · rintro rfl
    exact turn_step built here
  · intro h
    cases h with
    | past h =>
        exact result_step_of_none here.2 (Array.getElem?_eq_none_iff.2 h)
    | blank h hblank => exact result_step_of_blank here.2 h hblank
    | refused h hnotBlank hunreadable =>
        exact result_step_of_undecoded here.2 h hnotBlank
          (decode_of_unreadable built hunreadable)
    | returned h hreplied hnext =>
        rw [result_step_of_invokes built h, hreplied]
        simp only [settle, hnext]
    | raised h hreplied hfailure =>
        rw [result_step_of_invokes built h, hreplied]
        simp only [settle, hfailure]

/-- The chains of turns are the runs. -/
theorem ends_iff_runs {here there : State σ × η} {verdict : Verdict} :
    engine.Ends listing here there verdict
      ↔ Runs declared bindings listing here there verdict := by
  constructor
  · rintro ⟨last, hreach, hstop⟩
    induction hreach using ReflTransGen.head_induction_on with
    | refl =>
        cases hstop with
        | finished h => exact .finished ((result_step_iff built).1 h)
        | failed h => exact .failed ((result_step_iff built).1 h)
    | head hstep _ ih =>
        exact .moved
          ((result_step_iff built).1 (advance?_eq_some_iff.1 hstep)) ih
  · intro h
    induction h with
    | finished h => exact ⟨_, .refl, .finished ((result_step_iff built).2 h)⟩
    | failed h => exact ⟨_, .refl, .failed ((result_step_iff built).2 h)⟩
    | @moved here there state host verdict h _ ih =>
        obtain ⟨last, hreach, hstop⟩ := ih
        have hstep : engine.advance? listing here = some (state, host) :=
          advance?_eq_some_iff.2 ((result_step_iff built).2 h)
        exact ⟨last, hreach.head hstep, hstop⟩

end Engine

theorem Runs.ending [Host η] {declared : List (Text × Signature)}
    {bindings : List (Text × Handler σ)} {listing : Listing}
    {here there : State σ × η} {verdict : Verdict}
    (h : Runs declared bindings listing here there verdict) :
    Ending declared bindings listing there verdict := by
  induction h with
  | finished h =>
      cases h with
      | past h => exact .past h
  | failed h =>
      cases h with
      | refused h hnotBlank hunreadable =>
          exact .refused h hnotBlank hunreadable
      | raised h hreplied hfailure => exact .raised h hreplied hfailure
  | moved _ _ ih => exact ih

namespace Engine

variable (η) in
/-- The contract of dispatch. Whatever a language declares and binds, if
an engine is built of it then

- no declared keyword is without a handler;
- on whatever lines and in whatever situation, a step of the engine is a
  turn: nothing more, a blank line passed over, a line refused as no call,
  or one call of the handler last bound to the keyword, with the
  arguments that the last declaration of the keyword asks for, after
  which the counter is what the handler says;
- carrying out lines from the first comes to an end just as a chain of
  such turns does, however far outside the lines the counter is then;
- and it ends with the counter past the lines, or with the fault of the
  line that the counter is at, or with a failure that a handler answered
  with. -/
theorem dispatch_contract [Host η] {hook : Hook σ}
    {declared : List (Text × Signature)} {bindings : List (Text × Handler σ)}
    {settings : Settings} {engine : Engine σ}
    (built :
      (Dialect.ofLists hook declared bindings).engine settings = .ok engine)
    (listing : Listing) :
    (∀ keyword signature, Latest declared keyword signature →
        ∃ handler, Latest bindings keyword handler)
      ∧ (∀ (here : State σ × η) (after : Progress σ × η),
          (engine.step listing here.1).result here.2 = after
            ↔ Turn declared bindings listing here after)
      ∧ ∀ (state final : State σ) (host host' : η) (verdict : Verdict),
          ((∃ fuel, (engine.interpret fuel listing state).result host
                = (some (final, verdict), host'))
              ↔ Runs declared bindings listing (state.entering listing, host)
                (final, host') verdict)
            ∧ ∀ fuel, (engine.interpret fuel listing state).result host
                = (some (final, verdict), host') →
              Ending declared bindings listing (final, host') verdict := by
  refine ⟨?_, fun here after => result_step_iff built,
    fun state final host host' verdict => ?_⟩
  · intro keyword signature hdeclared
    obtain ⟨handler, hhandler⟩ := Dialect.exists_handler_of_engine built
      (Table.get?_ofList_eq_some_iff.2 hdeclared)
    exact ⟨handler, Table.get?_ofList_eq_some_iff.1 hhandler⟩
  · have hruns : (∃ fuel, (engine.interpret fuel listing state).result host
        = (some (final, verdict), host'))
        ↔ Runs declared bindings listing (state.entering listing, host)
          (final, host') verdict := by
      rw [← ends_iff_runs built]
      constructor
      · rintro ⟨fuel, h⟩
        exact ends_of_stepsWithin h
      · intro h
        exact h.exists_stepsWithin
    exact ⟨hruns, fun fuel h => (hruns.1 ⟨fuel, h⟩).ending⟩

/-- A handler that counts its calls, sets a variable and goes to a line. -/
def countAndGoTo (index : Nat) : Handler Nat := fun call machine calls =>
  .done
    ⟨machine.vars.insert (call.argument 0) (.string []), calls + 1, .ok index⟩

/-- For instance, a keyword that is declared twice and bound twice, and a
handler that leaves the lines far behind. -/
theorem dispatch_contract_of_overwritten :
    ∃ final : State Nat,
      Runs [("put".toList, .names 2), ("put".toList, .names 1)]
          [("put".toList, countAndGoTo 0), ("put".toList, countAndGoTo 1000)]
          #[[], "put x".toList]
          ((⟨.fresh, 0⟩ : State Nat).entering #[[], "put x".toList],
            (⟨.empty⟩ : MemoryHost)) (final, ⟨.empty⟩) (.ok ())
        ∧ final.machine.pc = 1000 ∧ final.own = 1 := by
  have built : (Dialect.ofLists .keep
      [("put".toList, .names 2), ("put".toList, .names 1)]
      [("put".toList, countAndGoTo 0),
        ("put".toList, countAndGoTo 1000)]).engine {} = .ok _ := rfl
  obtain ⟨-, -, hruns⟩ :=
    dispatch_contract MemoryHost built #[[], "put x".toList]
  obtain ⟨hinterpret, -⟩ := hruns ⟨.fresh, 0⟩ _ ⟨.empty⟩ ⟨.empty⟩ (.ok ())
  exact ⟨_, hinterpret.1 ⟨3, rfl⟩, rfl, rfl⟩

end Engine

end LineScript
