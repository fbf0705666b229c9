/-
A script that counts down: a loop with its test at the end, which puts
out a number and then takes one from it as long as there is some left.

What ends the loop is a comparison of doubles that is false at zero and
nowhere before it. Both the differences and the comparisons are those of
integers as long as 53 bits suffice (`Double.sub_one_ofNat`,
`Double.lt_ofNat`), so the number itself is the measure. The invariant
(`Counting`) is about the head of the loop and says all that there is to
say about the variables. Lines are put out in every turn, hence the state
around the variables changes as well and is carried along in the
induction (`turns`).
-/
import LineScript.Proofs.NumberTexts

set_option autoImplicit false

namespace LineScript

open StateTransition

variable {η : Type} [Host η]

namespace Countdown

-- ============================================================ the script

/-- The lines of the script. -/
def lines (n : Nat) : List Text :=
  ["set n, ".toList ++ numeral n,
    "set zero, 0".toList,
    ":loop".toList,
    "echo n".toList,
    "dec n".toList,
    "gotog n, zero, loop".toList]

/-- The script. -/
def source (n : Nat) : Text := Text.unlines (lines n)

/-- The lines that a run works on. -/
def listing (n : Nat) : Listing :=
  #["set n, ".toList ++ numeral n,
    "set zero, 0".toList,
    [],
    "echo n".toList,
    "dec n".toList,
    "gotog n, zero, loop".toList]

/-- The labels of the script. -/
def labels : Table Nat := Table.empty.insert "loop".toList 2

/-- The numerals from a number down to one. -/
def numerals : Nat → List Text
  | 0 => []
  | n + 1 => numeral (n + 1) :: numerals n

theorem reading_source {interpreter : Interpreter}
    (built : interpreter.BuiltFor {}) (n : Nat) :
    interpreter.reading (source n)
      = ⟨labels, interpreter.state.own, .ok (listing n).toList⟩ := by
  have hcounter : Line.Neutral ("set n, ".toList ++ numeral n) :=
    neutral_plainAssignment (by decide : Text.isIdentifier "n".toList = true)
      (Literal.inert_numeral n)
  have hrest : ∀ line ∈ (lines n).tail, '\r' ∉ line ∧ '\n' ∉ line := by
    show ∀ line ∈ ["set zero, 0".toList, ":loop".toList, "echo n".toList,
      "dec n".toList, "gotog n, zero, loop".toList], '\r' ∉ line ∧ '\n' ∉ line
    decide
  have hplain : ∀ line ∈ lines n, '\r' ∉ line ∧ '\n' ∉ line :=
    List.forall_mem_cons.2 ⟨⟨hcounter.noReturn, hcounter.noFeed⟩, hrest⟩
  have hne : lines n ≠ [] := List.cons_ne_nil _ _
  rw [source, Interpreter.reading_unlines built hne hplain, lines,
    Engine.readFrom_cons, Interpreter.readLine_of_neutral hcounter rfl]
  rfl

-- ========================================================= the invariant

variable {engine : Engine Output} {n k : Nat} {vars : Table Value}
  {state : State Output}

/-- The head of the loop: a number is left, and there are no variables but
the two. -/
structure Counting (k : Nat) (vars : Table Value) : Prop where
  counter : vars.get? "n".toList = some (.number (.ofNat k))
  zero : vars.get? "zero".toList = some (.number (.ofNat 0))
  others : ∀ name, name ≠ "n".toList → name ≠ "zero".toList →
    vars.get? name = none

/-- Setting the number keeps the rest. -/
theorem Counting.insert (h : Counting n vars) (k : Nat) :
    Counting k (vars.insert "n".toList (.number (.ofNat k))) := by
  refine ⟨Table.get?_insert_self _ _ _, ?_, fun name hn hzero => ?_⟩
  · rw [Table.get?_insert_of_ne _ _ (by decide)]
    exact h.zero
  · rw [Table.get?_insert_of_ne _ _ hn]
    exact h.others name hn hzero

/-- At the end both variables are zero. -/
theorem Counting.get?_eq_some_iff (h : Counting 0 vars) {name : Text}
    {value : Value} :
    vars.get? name = some value
      ↔ (name = "n".toList ∨ name = "zero".toList)
        ∧ value = .number .zero := by
  have hcounter := h.counter
  have hzero := h.zero
  rw [Double.ofNat_zero] at hcounter hzero
  by_cases hn : name = "n".toList
  · rw [hn, hcounter, Option.some.injEq]
    exact ⟨fun heq => ⟨.inl rfl, heq.symm⟩, fun hvalue => hvalue.2.symm⟩
  · by_cases hz : name = "zero".toList
    · rw [hz, hzero, Option.some.injEq]
      exact ⟨fun heq => ⟨.inr rfl, heq.symm⟩, fun hvalue => hvalue.2.symm⟩
    · rw [h.others name hn hz]
      constructor
      · intro heq
        cases heq
      · intro hname
        exact (hname.1.elim hn hz).elim

-- ============================================================= its turns

/-- The lines in front of the loop prepare it. -/
theorem prepare (state : State Output) (host : η) (hs : engine.IsScript)
    (n : Nat) :
    ∃ vars, engine.Leads (listing n) state host .empty 0 vars 2
      ∧ Counting n vars := by
  have hset : engine.CallAt (listing n) .assign
      ⟨0, "set n, ".toList ++ numeral n, "set".toList,
        ["n".toList, numeral n]⟩ :=
    Engine.callAt_plainAssignment hs
      (by decide : Text.isIdentifier "n".toList = true)
      (Literal.inert_numeral n) rfl
  have hbound : engine.CallAt (listing n) .assign
      ⟨1, "set zero, 0".toList, "set".toList, ["zero".toList, "0".toList]⟩ :=
    ⟨rfl, rfl, hs.decode_eq _, rfl⟩
  have hleads : engine.Leads (listing n) state host .empty 0 _ 2 :=
    (hset.assign state host (Literal.read?_numeral n)).trans
      (hbound.assign state host Literal.read?_zero)
  refine ⟨_, hleads, ?_, Table.get?_insert_self _ _ _, fun name hn hz => ?_⟩
  · rw [Table.get?_insert_of_ne _ _ (by decide), Table.get?_insert_self]
  · rw [Table.get?_insert_of_ne _ _ hz, Table.get?_insert_of_ne _ _ hn]
    rfl

/-- A turn of the loop puts out the number that is left, and one less is
left. The loop is left with the last one. -/
theorem turn (n : Nat) (host : η) (hs : engine.IsScript)
    (hlabels : state.machine.labels = labels) (hk : k < power 2 53)
    (hcounting : Counting (k + 1) vars) :
    ∃ vars', Reaches (engine.advance? (listing n)) (state.holding vars 2, host)
        ((state.showing (numeral (k + 1))).holding vars'
          (if 0 < k then 2 else 6), host)
      ∧ Counting k vars' := by
  have hecho : engine.CallAt (listing n) .echo
      ⟨3, "echo n".toList, "echo".toList, ["n".toList]⟩ :=
    ⟨rfl, rfl, hs.decode_eq _, rfl⟩
  have hdec : engine.CallAt (listing n) .decrement
      ⟨4, "dec n".toList, "dec".toList, ["n".toList]⟩ :=
    ⟨rfl, rfl, hs.decode_eq _, rfl⟩
  have hbranch : engine.CallAt (listing n) (.branch .greater)
      ⟨5, "gotog n, zero, loop".toList, "gotog".toList,
        ["n".toList, "zero".toList, "loop".toList]⟩ :=
      ⟨rfl, rfl, hs.decode_eq _, rfl⟩
  have hloop : (state.showing (numeral (k + 1))).machine.labels.get?
      "loop".toList = some 2 := by
    show state.machine.labels.get? "loop".toList = some 2
    rw [hlabels]
    rfl
  have hshown := hecho.shows state host hcounting.counter
  rw [Value.display, Double.text_ofNat hk] at hshown
  have hnext := hcounting.insert k
  have hlabel : engine.Leads (listing n) state host vars 2 vars 3 :=
    Engine.leads_of_blank rfl
  have hdec' :=
    hdec.decrement (state.showing (numeral (k + 1))) host hcounting.counter hk
  have hbranch' :=
    hbranch.branch_greater (state.showing (numeral (k + 1))) host hnext.counter
    (Nat.le_of_lt hk) hnext.zero (Nat.zero_le _) hloop
  have hreaches : Reaches (engine.advance? (listing n)) _ _ :=
    Relation.ReflTransGen.trans hlabel hshown
  exact ⟨_, hreaches.trans (hdec'.trans hbranch'), hnext⟩

/-- The loop puts out the numbers down to one, and nothing is left. The
induction is on the number that is left; each turn adds a line to the
state. -/
theorem turns (n : Nat) (host : η) (hs : engine.IsScript)
    (hlabels : state.machine.labels = labels) (hk : k < power 2 53)
    (hcounting : Counting (k + 1) vars) :
    ∃ (state' : State Output) (vars' : Table Value),
      Reaches (engine.advance? (listing n)) (state.holding vars 2, host)
        (state'.holding vars' 6, host)
      ∧ state'.own.lines = state.own.lines ++ numerals (k + 1)
      ∧ Counting 0 vars' := by
  induction k generalizing state vars with
  | zero =>
      obtain ⟨vars', hreaches, hlast⟩ := turn n host hs hlabels hk hcounting
      exact ⟨_, vars', hreaches, Output.lines_emit _ _, hlast⟩
  | succ k ih =>
      obtain ⟨vars₁, hreaches₁, hcounting₁⟩ :=
        turn n host hs hlabels hk hcounting
      rw [if_pos k.succ_pos] at hreaches₁
      have hlabels₁ : (state.showing (numeral (k + 1 + 1))).machine.labels
          = labels := hlabels
      obtain ⟨state₂, vars₂, hreaches₂, hlines₂, hcounting₂⟩ :=
        ih hlabels₁ (Nat.lt_of_succ_lt hk) hcounting₁
      refine ⟨state₂, vars₂, hreaches₁.trans hreaches₂, ?_, hcounting₂⟩
      have hshown : (state.showing (numeral (k + 1 + 1))).own.lines
          = state.own.lines ++ [numeral (k + 1 + 1)] := Output.lines_emit _ _
      rw [hlines₂, hshown, List.append_assoc]
      rfl

end Countdown

namespace Interpreter

open Countdown (source numerals)

variable {interpreter : Interpreter}

/-- The script counts down from every positive number of at most 53 bits,
and so from all below 10 ^ 15. The run succeeds, has put out the numbers
down to one, each as its numeral, and leaves two variables, which are both
zero. -/
theorem runSource_countdown (built : interpreter.BuiltFor {}) {n : Nat}
    (hpos : 0 < n) (hn : n ≤ power 2 53) (host : η) :
    ∃ after, interpreter.RunsTo (source n) host after (.ok ()) host
      ∧ after.output = interpreter.output ++ numerals n
      ∧ ∀ name value, after.vars.get? name = some value
          ↔ (name = "n".toList ∨ name = "zero".toList)
            ∧ value = .number .zero := by
  obtain ⟨k, rfl⟩ := Nat.exists_eq_add_one.2 hpos
  have hlabels : (interpreter.starting Countdown.labels 6).machine.labels
      = Countdown.labels := rfl
  obtain ⟨vars, hprepare, hcounting⟩ :=
    Countdown.prepare (interpreter.starting Countdown.labels 6) host
      built.isScript (k + 1)
  obtain ⟨state, vars', hturns, hlines, hlast⟩ :=
    Countdown.turns (k + 1) host built.isScript hlabels hn hcounting
  have hend : (Countdown.listing (k + 1))[6]? = none := rfl
  have hreaches := Relation.ReflTransGen.trans hprepare hturns
  exact ⟨_, runsTo_of_reaches (Countdown.reading_source built (k + 1)) hreaches
    (Engine.stops_of_end hend), hlines,
    fun name value => hlast.get?_eq_some_iff⟩

/-- For instance, from three. -/
theorem runSource_countdown_of_three :
    ∃ after, standard.RunsTo
        (Text.unlines (["set n, 3", "set zero, 0", ":loop", "echo n", "dec n",
          "gotog n, zero, loop"].map String.toList))
        (⟨.empty⟩ : MemoryHost) after (.ok ()) ⟨.empty⟩
      ∧ after.output = ["3".toList, "2".toList, "1".toList]
      ∧ after.vars.get? "n".toList = some (.number .zero) := by
  have hnumeral : ∀ d, d < 10 → numeral d = [digitChar d] := by
    intro d hd
    rw [numeral, if_pos hd]
  have hsource : source 3
      = Text.unlines (["set n, 3", "set zero, 0", ":loop", "echo n", "dec n",
          "gotog n, zero, loop"].map String.toList) := by
    rw [source, Countdown.lines, hnumeral 3 (by decide)]
    rfl
  have hnumerals : numerals 3 = ["3".toList, "2".toList, "1".toList] := by
    simp only [numerals, hnumeral 3 (by decide), hnumeral 2 (by decide),
      hnumeral 1 (by decide)]
    rfl
  have hsmall : 3 ≤ power 2 53 := by decide
  obtain ⟨after, hrun, houtput, hvars⟩ :=
    runSource_countdown builtFor_standard (by decide : 0 < 3) hsmall
      (⟨.empty⟩ : MemoryHost)
  rw [hsource] at hrun
  rw [hnumerals] at houtput
  exact ⟨after, hrun, houtput, (hvars _ _).2 ⟨.inl rfl, rfl⟩⟩

end Interpreter

end LineScript
