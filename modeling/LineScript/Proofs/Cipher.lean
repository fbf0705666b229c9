/-
A script that encrypts: every character of a message becomes the two
hexadecimal digits of its code combined with a key.

The script is a loop through nine commands, with one jump out of it and
one back. Its invariant (`Coded`) is about the head of the loop: the list
holds the codes of the characters in front of the counter. One turn of
the loop is followed command by command (`encode`, `turn`), any number of
turns by induction on the counter (`turns`). The loop is left in two
ways: the counter has come to the end of the message (`leave`), or the
next code does not fit into a byte (`refuse`). Which of them it is
depends on the message alone.

The counter is a double, which counts exactly up to 2 ^ 53; so that is
the length that a message may have, which is more than there is memory
for.
-/
import LineScript.Proofs.Counts
import LineScript.Proofs.Traces

set_option autoImplicit false

namespace LineScript

variable {η : Type} [Host η]

namespace Cipher

-- ============================================================ the script

/-- The lines of the script below those for the message and the key. -/
def steps : List Text :=
  ["set out, []".toList,
    "set i, 0".toList,
    "len msg, n".toList,
    ":next".toList,
    "gotoe i, n, done".toList,
    "cut msg, i, ch".toList,
    "asc ch, code".toList,
    "xor code, key, enc".toList,
    "hex enc, h".toList,
    "append out, h".toList,
    "inc i".toList,
    "goto next".toList,
    ":done".toList,
    []]

/-- The lines of the script. -/
def lines (message : Text) (key : Nat) : List Text :=
  ("set msg, ".toList ++ Literal.quote message)
    :: ("set key, ".toList ++ numeral key) :: steps

/-- The script. -/
def source (message : Text) (key : Nat) : Text :=
  Text.unlines (lines message key)

/-- What is left of a line: nothing of those for labels. -/
def entry (line : Text) : Text := if line.head? = some ':' then [] else line

/-- The lines that a run works on. -/
def listing (message : Text) (key : Nat) : Listing :=
  (("set msg, ".toList ++ Literal.quote message)
    :: ("set key, ".toList ++ numeral key)
    :: steps.map entry).toArray

/-- The labels of the script. -/
def labels : Table Nat :=
  (Table.empty.insert "next".toList 5).insert "done".toList 14

/-- A character's code combined with the key. -/
def code (key : Nat) (c : Char) : Nat := c.toNat ^^^ key

/-- The item of the list that a character becomes. -/
def item (key : Nat) (c : Char) : Text := hexByte (code key c)

theorem reading_source {interpreter : Interpreter}
    (built : interpreter.BuiltFor {}) (message : Text) (key : Nat) :
    interpreter.reading (source message key)
      = ⟨labels, interpreter.state.own, .ok (listing message key).toList⟩ := by
  have hmessage : Line.Neutral ("set msg, ".toList ++ Literal.quote message) :=
    neutral_plainAssignment (by decide : Text.isIdentifier "msg".toList = true)
      (Literal.Spells.string message).inert
  have hkey : Line.Neutral ("set key, ".toList ++ numeral key) :=
    neutral_plainAssignment (by decide : Text.isIdentifier "key".toList = true)
      (Literal.inert_numeral key)
  have hsteps : ∀ line ∈ steps, '\r' ∉ line ∧ '\n' ∉ line := by decide
  have hplain : ∀ line ∈ lines message key, '\r' ∉ line ∧ '\n' ∉ line := by
    simp only [lines, List.forall_mem_cons]
    exact ⟨⟨hmessage.noReturn, hmessage.noFeed⟩,
      ⟨hkey.noReturn, hkey.noFeed⟩, hsteps⟩
  have hne : lines message key ≠ [] := List.cons_ne_nil _ _
  rw [source, Interpreter.reading_unlines built hne hplain, lines,
    Engine.readFrom_cons, Interpreter.readLine_of_neutral hmessage rfl]
  simp only
  rw [Engine.readFrom_cons, Interpreter.readLine_of_neutral hkey rfl]
  rfl

-- ========================================================= the invariant

variable {engine : Engine Output} {message : Text} {key k : Nat}
  {vars : Table Value} {state : State Output} {c : Char}

/-- The head of the loop: so many characters are encrypted. -/
structure Coded (message : Text) (key k : Nat) (vars : Table Value) :
    Prop where
  msg : vars.get? "msg".toList = some (.string message)
  mask : vars.get? "key".toList = some (.number (.ofNat key))
  out : vars.get? "out".toList = some (.list ((message.take k).map (item key)))
  counter : vars.get? "i".toList = some (.number (.ofNat k))
  length : vars.get? "n".toList = some (.number (.ofNat message.length))

/-- The invariant is a matter of five variables. -/
theorem Coded.insert (h : Coded message key k vars) (name : Text)
    (hname : name ∉ ["msg", "key", "out", "i", "n"].map String.toList)
    (value : Value) :
    Coded message key k (vars.insert name value) := by
  have hget : ∀ other ∈ ["msg", "key", "out", "i", "n"].map String.toList,
      (vars.insert name value).get? other = vars.get? other := by
    intro other hother
    apply Table.get?_insert_of_ne
    rintro rfl
    exact hname hother
  refine ⟨(hget _ ?_).trans h.msg, (hget _ ?_).trans h.mask,
    (hget _ ?_).trans h.out, (hget _ ?_).trans h.counter,
    (hget _ ?_).trans h.length⟩
  all_goals decide

theorem exact_of_le_byte {n : Nat} (h : n ≤ 255) : n ≤ power 2 53 :=
  Nat.le_trans h (by decide)

theorem char_lt (c : Char) : c.toNat < 2 ^ 32 := c.val.toNat_lt

theorem exact_char (c : Char) : c.toNat ≤ power 2 53 :=
  Nat.le_of_lt (Nat.lt_trans (char_lt c) (by decide))

/-- A code combined with a byte is a count. -/
theorem exact_code (hkey : key ≤ 255) (c : Char) :
    code key c ≤ power 2 53 := by
  have hmask : key < 2 ^ 32 := by omega
  have hcode : code key c < 2 ^ 32 := Nat.xor_lt_two_pow (char_lt c) hmask
  exact Nat.le_of_lt (Nat.lt_trans hcode (by decide))

/-- One more character is encrypted when its item is appended and the
counter goes up. -/
theorem Coded.next (h : Coded message key k vars) (hc : message[k]? = some c) :
    Coded message key (k + 1)
      ((vars.insert "out".toList
        (.list ((message.take k).map (item key) ++ [item key c]))).insert
        "i".toList (.number (.ofNat (k + 1)))) := by
  have hitems : (message.take (k + 1)).map (item key)
      = (message.take k).map (item key) ++ [item key c] := by
    rw [List.take_add_one, hc, Option.toList_some, List.map_append,
      List.map_singleton]
  have hget : ∀ name ∈ ["msg", "key", "n"].map String.toList,
      ((vars.insert "out".toList
        (.list ((message.take k).map (item key) ++ [item key c]))).insert
        "i".toList (.number (.ofNat (k + 1)))).get? name = vars.get? name := by
    intro name hname
    rw [Table.get?_insert_of_ne, Table.get?_insert_of_ne]
    all_goals
      rintro rfl
      exact absurd hname (by decide)
  refine ⟨(hget _ (by decide)).trans h.msg, (hget _ (by decide)).trans h.mask,
    ?_, Table.get?_insert_self _ _ _, (hget _ (by decide)).trans h.length⟩
  rw [Table.get?_insert_of_ne _ _ (by decide), Table.get?_insert_self, hitems]

/-- The variables that the first lines assign. -/
def assigned (message : Text) (key : Nat) : Table Value :=
  (((Table.empty.insert "msg".toList (.string message)).insert "key".toList
    (.number (.ofNat key))).insert "out".toList (.list [])).insert "i".toList
      (.number (.ofNat 0))

theorem get?_assigned (message : Text) (key : Nat) :
    (assigned message key).get? "msg".toList = some (.string message) := by
  rw [assigned, Table.get?_insert_of_ne _ _ (by decide),
    Table.get?_insert_of_ne _ _ (by decide),
    Table.get?_insert_of_ne _ _ (by decide), Table.get?_insert_self]

/-- With the length of the message they are all that the loop needs. -/
theorem coded_assigned (message : Text) (key : Nat) :
    Coded message key 0
      ((assigned message key).insert "n".toList
        (.number (.ofNat message.length))) := by
  refine ⟨?_, ?_, ?_, ?_, Table.get?_insert_self _ _ _⟩
  all_goals rw [Table.get?_insert_of_ne _ _ (by decide)]
  · exact get?_assigned message key
  · rw [assigned, Table.get?_insert_of_ne _ _ (by decide),
      Table.get?_insert_of_ne _ _ (by decide), Table.get?_insert_self]
  · rw [assigned, Table.get?_insert_of_ne _ _ (by decide),
      Table.get?_insert_self]
    rfl
  · exact Table.get?_insert_self _ _ _

-- ============================================================= its turns

section

variable (host : η) (hs : engine.IsScript)
  (hlabels : state.machine.labels = labels) (hkey : key ≤ 255)
  (hlength : message.length ≤ power 2 53)

include hs hlabels hkey hlength

omit hlabels hkey hlength in
/-- The lines in front of the loop prepare it. -/
theorem prepare (message : Text) (key : Nat) :
    engine.Leads (listing message key) state host .empty 0
      ((assigned message key).insert "n".toList
        (.number (.ofNat message.length))) 5 := by
  have hmsg : engine.CallAt (listing message key) .assign
      ⟨0, "set msg, ".toList ++ Literal.quote message, "set".toList,
        ["msg".toList, Literal.quote message]⟩ :=
    Engine.callAt_plainAssignment hs
      (by decide : Text.isIdentifier "msg".toList = true)
      (Literal.Spells.string message).inert rfl
  have hmask : engine.CallAt (listing message key) .assign
      ⟨1, "set key, ".toList ++ numeral key, "set".toList,
        ["key".toList, numeral key]⟩ :=
    Engine.callAt_plainAssignment hs
      (by decide : Text.isIdentifier "key".toList = true)
      (Literal.inert_numeral key) rfl
  have hout : engine.CallAt (listing message key) .assign
      ⟨2, "set out, []".toList, "set".toList, ["out".toList, "[]".toList]⟩ :=
    ⟨rfl, rfl, hs.decode_eq _, rfl⟩
  have hcounter : engine.CallAt (listing message key) .assign
      ⟨3, "set i, 0".toList, "set".toList, ["i".toList, "0".toList]⟩ :=
    ⟨rfl, rfl, hs.decode_eq _, rfl⟩
  have hlen : engine.CallAt (listing message key) .length
      ⟨4, "len msg, n".toList, "len".toList, ["msg".toList, "n".toList]⟩ :=
    ⟨rfl, rfl, hs.decode_eq _, rfl⟩
  have hempty : Literal.read? "[]".toList = some (.value (.list [])) := rfl
  have hlength := hlen.length state host (get?_assigned message key) rfl
  have hcount : (message.map ([·])).length = message.length :=
    List.length_map _
  rw [hcount] at hlength
  exact (hmsg.assign state host (Literal.read?_quote message)).trans
    ((hmask.assign state host (Literal.read?_numeral key)).trans
      ((hout.assign state host hempty).trans
        ((hcounter.assign state host Literal.read?_zero).trans hlength)))

omit hkey in
/-- At its head the loop ends if the counter has come to the end of the
message. -/
theorem head (hcoded : Coded message key k vars) (hk : k ≤ message.length) :
    engine.Leads (listing message key) state host vars 5 vars
      (if k = message.length then 14 else 7) := by
  have hbranch : engine.CallAt (listing message key) (.branch .equal)
      ⟨6, "gotoe i, n, done".toList, "gotoe".toList,
        ["i".toList, "n".toList, "done".toList]⟩ :=
      ⟨rfl, rfl, hs.decode_eq _, rfl⟩
  have hdone : state.machine.labels.get? "done".toList = some 14 := by
    rw [hlabels]
    rfl
  exact (Engine.leads_of_blank rfl).trans
    (hbranch.branch_equal state host hcoded.counter
    (Nat.le_trans hk hlength) hcoded.length hlength hdone)

omit hlabels hkey hlength in
/-- The line that takes bytes only. -/
theorem callAt_hex (message : Text) (key : Nat) :
    engine.CallAt (listing message key) .hex
    ⟨10, "hex enc, h".toList, "hex".toList, ["enc".toList, "h".toList]⟩ :=
  ⟨rfl, rfl, hs.decode_eq _, rfl⟩

/-- In front of the end of the message the next character is combined
with the key. -/
theorem encode (hcoded : Coded message key k vars)
    (hc : message[k]? = some c) :
    ∃ vars', engine.Leads (listing message key) state host vars 5 vars' 10
      ∧ Coded message key k vars'
      ∧ vars'.get? "enc".toList = some (.number (.ofNat (code key c))) := by
  obtain ⟨hk, -⟩ := List.getElem?_eq_some_iff.1 hc
  have hexact : k ≤ power 2 53 := by omega
  have hcut : engine.CallAt (listing message key) .cut
      ⟨7, "cut msg, i, ch".toList, "cut".toList,
        ["msg".toList, "i".toList, "ch".toList]⟩ :=
    ⟨rfl, rfl, hs.decode_eq _, rfl⟩
  have hasc : engine.CallAt (listing message key) .code
      ⟨8, "asc ch, code".toList, "asc".toList, ["ch".toList, "code".toList]⟩ :=
    ⟨rfl, rfl, hs.decode_eq _, rfl⟩
  have hxor : engine.CallAt (listing message key) (.bitwise .xor)
      ⟨9, "xor code, key, enc".toList, "xor".toList,
        ["code".toList, "key".toList, "enc".toList]⟩ :=
      ⟨rfl, rfl, hs.decode_eq _, rfl⟩
  have helement : (message.map ([·]))[k]? = some [c] := by
    rw [List.getElem?_map, hc, Option.map_some]
  have hch := hcoded.insert "ch".toList (by decide) (.string [c])
  have hcode := hch.insert "code".toList (by decide) (.number (.ofNat c.toNat))
  have henc :=
    hcode.insert "enc".toList (by decide) (.number (.ofNat (code key c)))
  refine ⟨_, ?_, henc, Table.get?_insert_self _ _ _⟩
  have hhead := head host hs hlabels hlength hcoded (Nat.le_of_lt hk)
  rw [if_neg (Nat.ne_of_lt hk)] at hhead
  have hcut' :=
    hcut.cut state host hcoded.msg rfl hcoded.counter hexact helement
  have hasc' :=
    hasc.code state host
      (Table.get?_insert_self vars "ch".toList (.string [c]))
  have hxor' :=
    hxor.xor state host (Table.get?_insert_self _ "code".toList _)
      (exact_char c)
    hcode.mask (exact_of_le_byte hkey)
  exact hhead.trans (hcut'.trans (hasc'.trans hxor'))

/-- A turn of the loop encrypts one character. -/
theorem turn (hcoded : Coded message key k vars) (hc : message[k]? = some c)
    (hfits : code key c ≤ 255) :
    ∃ vars', engine.Leads (listing message key) state host vars 5 vars' 5
      ∧ Coded message key (k + 1) vars' := by
  obtain ⟨hk, -⟩ := List.getElem?_eq_some_iff.1 hc
  have happend : engine.CallAt (listing message key) .append
      ⟨11, "append out, h".toList, "append".toList,
        ["out".toList, "h".toList]⟩ :=
    ⟨rfl, rfl, hs.decode_eq _, rfl⟩
  have hinc : engine.CallAt (listing message key) .increment
      ⟨12, "inc i".toList, "inc".toList, ["i".toList]⟩ :=
    ⟨rfl, rfl, hs.decode_eq _, rfl⟩
  have hgoto : engine.CallAt (listing message key) .jump
      ⟨13, "goto next".toList, "goto".toList, ["next".toList]⟩ :=
    ⟨rfl, rfl, hs.decode_eq _, rfl⟩
  have hnext : state.machine.labels.get? "next".toList = some 5 := by
    rw [hlabels]
    rfl
  have hbyte : (Double.ofNat (code key c)).toByte? = some (code key c) := by
    rw [Double.toByte?_ofNat (exact_code hkey c), if_pos hfits]
  obtain ⟨vars₁, hencode, hcoded₁, henc⟩ :=
    encode host hs hlabels hkey hlength hcoded hc
  have hcoded₂ := hcoded₁.insert "h".toList (by decide) (.string (item key c))
  refine ⟨_, ?_, hcoded₂.next hc⟩
  have hhex' := (callAt_hex hs message key).hex state host henc hbyte
  have happend' :=
    happend.append state host hcoded₂.out (Table.get?_insert_self _ _ _)
  have hcounter : (Table.insert
      (Table.insert vars₁ "h".toList (.string (item key c))) "out".toList
      (.list ((message.take k).map (item key) ++ [item key c]))).get?
        "i".toList
        = some (.number (.ofNat k)) := by
    rw [Table.get?_insert_of_ne _ _ (by decide)]
    exact hcoded₂.counter
  have hinc' := hinc.increment state host hcounter (by omega)
  exact hencode.trans
    (hhex'.trans (happend'.trans (hinc'.trans (hgoto.jump state host hnext))))

/-- The loop turns as long as the codes fit into bytes. -/
theorem turns (hcoded : Coded message key 0 vars) (hk : k ≤ message.length)
    (hfits : ∀ c ∈ message.take k, code key c ≤ 255) :
    ∃ vars', engine.Leads (listing message key) state host vars 5 vars' 5
      ∧ Coded message key k vars' := by
  induction k with
  | zero => exact ⟨vars, .refl, hcoded⟩
  | succ k ih =>
      have hc : message[k]? = some message[k] := List.getElem?_eq_getElem hk
      have htake : message.take (k + 1) = message.take k ++ [message[k]] := by
        rw [List.take_add_one, hc, Option.toList_some]
      rw [htake] at hfits
      obtain ⟨vars₁, hleads, hcoded₁⟩ := ih (Nat.le_of_succ_le hk) fun c hc =>
        hfits c (List.mem_append_left _ hc)
      obtain ⟨vars₂, hturn, hcoded₂⟩ :=
        turn host hs hlabels hkey hlength hcoded₁ hc
        (hfits _ (List.mem_append_right _ List.mem_cons_self))
      exact ⟨vars₂, hleads.trans hturn, hcoded₂⟩

omit hkey in
/-- The loop is left at the end of the message, and with it the run ends. -/
theorem leave (hcoded : Coded message key message.length vars) :
    engine.Leads (listing message key) state host vars 5 vars 16 := by
  have hhead := head host hs hlabels hlength hcoded (Nat.le_refl _)
  rw [if_pos rfl] at hhead
  have hlabel : engine.Leads (listing message key) state host vars
      14 vars 15 :=
    Engine.leads_of_blank rfl
  have hlast : engine.Leads (listing message key) state host vars 15 vars 16 :=
    Engine.leads_of_blank rfl
  exact hhead.trans (hlabel.trans hlast)

/-- The run fails at the first code that does not fit into a byte. -/
theorem refuse (hcoded : Coded message key k vars) (hc : message[k]? = some c)
    (hlarge : 255 < code key c) :
    ∃ vars', engine.Leads (listing message key) state host vars 5 vars' 10
      ∧ Coded message key k vars'
      ∧ engine.Stops (listing message key) (state.holding vars' 10, host)
          (state.holding vars' 10, host)
          (.error (.runtime ⟨10, "hex enc, h".toList⟩
            (.command "hex".toList (.noByte (.ofNat (code key c)))))) := by
  have hbyte : (Double.ofNat (code key c)).toByte? = none := by
    rw [Double.toByte?_ofNat (exact_code hkey c),
      if_neg (Nat.not_le_of_lt hlarge)]
  obtain ⟨vars₁, hencode, hcoded₁, henc⟩ :=
    encode host hs hlabels hkey hlength hcoded hc
  exact ⟨vars₁, hencode, hcoded₁,
    (callAt_hex hs message key).hex_refused state host henc hbyte⟩

end

-- ============================================================ whole runs

variable {interpreter : Interpreter}

/-- The state in which the first line is carried out. -/
def start (interpreter : Interpreter) : State Output :=
  ⟨{ labels := labels, lineCount := 16 }, interpreter.state.own⟩

theorem labels_start (interpreter : Interpreter) :
    (start interpreter).machine.labels = labels := rfl

/-- How a run of the script ends is how its lines end. -/
theorem runsTo_of_leads (built : interpreter.BuiltFor {}) {host : η}
    {verdict : Verdict} {pc : Nat}
    (hleads : interpreter.engine.Leads (listing message key)
      (start interpreter) host .empty 0 vars pc)
    (hstops : interpreter.engine.Stops (listing message key)
      ((start interpreter).holding vars pc, host)
      ((start interpreter).holding vars pc, host) verdict) :
    interpreter.RunsTo (source message key) host
      ⟨interpreter.engine, (start interpreter).holding vars pc⟩ verdict host :=
  Interpreter.runsTo_of_reaches (reading_source built message key)
    hleads hstops

section

variable (built : interpreter.BuiltFor {}) (hkey : key ≤ 255)
  (hlength : message.length ≤ power 2 53) (host : η)

include built hkey hlength

/-- Up to a character with a code that is too large the loop turns. -/
theorem leads_to (hk : k ≤ message.length)
    (hfits : ∀ c ∈ message.take k, code key c ≤ 255) :
    ∃ vars, interpreter.engine.Leads (listing message key) (start interpreter)
      host .empty 0 vars 5
      ∧ Coded message key k vars := by
  obtain ⟨vars, hturns, hcoded⟩ :=
    turns host built.isScript (labels_start interpreter) hkey
    hlength (coded_assigned message key) hk hfits
  exact ⟨vars, (prepare host built.isScript message key).trans hturns, hcoded⟩

/-- The run of a message whose codes all fit into bytes. -/
theorem runsTo_of_fits (hfits : ∀ c ∈ message, code key c ≤ 255) :
    ∃ after, interpreter.RunsTo (source message key) host after (.ok ()) host
      ∧ after.output = interpreter.output
      ∧ Coded message key message.length after.vars := by
  have htake : ∀ c ∈ message.take message.length, code key c ≤ 255 := by
    rw [List.take_length]
    exact hfits
  obtain ⟨vars, hleads, hcoded⟩ :=
    leads_to built hkey hlength host (Nat.le_refl _) htake
  have hleave :=
    leave host built.isScript (labels_start interpreter) hlength hcoded
  have hend : (listing message key)[16]? = none := rfl
  exact ⟨_, runsTo_of_leads built (hleads.trans hleave)
    (Engine.stops_of_end hend), rfl, hcoded⟩

/-- The run of a message with a code that does not fit into a byte, from
the first such code. -/
theorem runsTo_of_large {front back : Text}
    (hmessage : message = front ++ c :: back)
    (hfits : ∀ d ∈ front, code key d ≤ 255) (hlarge : 255 < code key c) :
    ∃ after, interpreter.RunsTo (source message key) host after
        (.error (.runtime ⟨10, "hex enc, h".toList⟩
          (.command "hex".toList (.noByte (.ofNat (code key c)))))) host
      ∧ after.output = interpreter.output
      ∧ Coded message key front.length after.vars := by
  have hc : message[front.length]? = some c := by
    rw [hmessage, List.getElem?_append_right (Nat.le_refl _), Nat.sub_self]
    rfl
  obtain ⟨hk, -⟩ := List.getElem?_eq_some_iff.1 hc
  have htake : message.take front.length = front := by
    rw [hmessage, List.take_left]
  obtain ⟨vars, hleads, hcoded⟩ :=
    leads_to built hkey hlength host (Nat.le_of_lt hk)
    (by rw [htake]; exact hfits)
  obtain ⟨vars', hencode, hcoded', hstops⟩ := refuse host built.isScript
    (labels_start interpreter) hkey hlength hcoded hc hlarge
  exact ⟨_, runsTo_of_leads built (hleads.trans hencode) hstops, rfl, hcoded'⟩

end

/-- Either all codes fit into bytes, or there is a first one that does
not. -/
theorem fits_or_first_large (key : Nat) (message : Text) :
    (∀ c ∈ message, code key c ≤ 255)
      ∨ ∃ front c back, message = front ++ c :: back
        ∧ (∀ d ∈ front, code key d ≤ 255)
          ∧ 255 < code key c := by
  cases hfind : message.find? fun c => 255 < code key c with
  | none =>
      refine .inl fun c hc => Nat.le_of_not_lt fun hlarge => ?_
      exact List.find?_eq_none.1 hfind c hc (decide_eq_true hlarge)
  | some c =>
      obtain ⟨hlarge, front, back, hmessage, hfront⟩ :=
        List.find?_eq_some_iff_append.1 hfind
      refine .inr ⟨front, c, back, hmessage,
        fun d hd => Nat.le_of_not_lt fun hlt => ?_, of_decide_eq_true hlarge⟩
      have hsmall := hfront d hd
      rw [decide_eq_true hlt] at hsmall
      cases hsmall

end Cipher

namespace Interpreter

open Cipher (source code item)

/-- The script encrypts every message with every key that is a byte. The
bound on the length is what a double can count up to; a longer text takes
more than 2 ^ 53 bytes, which no machine can address. The run ends in one
of two ways and puts out nothing.

- If the code of every character, combined with the key, fits into a
  byte, the run succeeds. The list then has one item for each character,
  the two hexadecimal digits of its combined code, and both the counter
  and the length are the number of characters.
- Otherwise the run fails on line 11, at the first character whose
  combined code does not fit, and the list has the items of the
  characters in front of it. -/
theorem runSource_cipher {interpreter : Interpreter}
    (built : interpreter.BuiltFor {}) {key : Nat} (hkey : key ≤ 255)
    {message : Text} (hlength : message.length ≤ power 2 53) (host : η) :
    ∃ after verdict,
      interpreter.RunsTo (source message key) host after verdict host
      ∧ after.output = interpreter.output
      ∧ ((∀ c ∈ message, code key c ≤ 255) →
          verdict = .ok ()
            ∧ after.vars.get? "out".toList
              = some (.list (message.map (item key)))
            ∧ after.vars.get? "i".toList
              = some (.number (.ofNat message.length))
            ∧ after.vars.get? "n".toList
              = some (.number (.ofNat message.length)))
      ∧ ∀ front c back, message = front ++ c :: back →
        (∀ d ∈ front, code key d ≤ 255) →
          255 < code key c →
          (∃ fault, verdict = .error (.runtime ⟨10, "hex enc, h".toList⟩ fault)
              ∧ (Failure.runtime ⟨10, "hex enc, h".toList⟩ fault).line?
                = some 11)
            ∧ after.vars.get? "out".toList
              = some (.list (front.map (item key))) := by
  rcases Cipher.fits_or_first_large key message with
    hfits | ⟨front, c, back, hmessage, hfront, hlarge⟩
  · obtain ⟨after, hrun, houtput, hcoded⟩ :=
      Cipher.runsTo_of_fits built hkey hlength host hfits
    refine ⟨after, _, hrun, houtput,
      fun _ => ⟨rfl, ?_, hcoded.counter, hcoded.length⟩, ?_⟩
    · have hout := hcoded.out
      rwa [List.take_length] at hout
    · rintro front c back rfl - hlarge
      have hsmall := hfits c (List.mem_append_right _ List.mem_cons_self)
      exact absurd hsmall (Nat.not_le_of_lt hlarge)
  · obtain ⟨after, hrun, houtput, -⟩ :=
      Cipher.runsTo_of_large built hkey hlength host hmessage hfront hlarge
    refine ⟨after, _, hrun, houtput, fun hfits => ?_, ?_⟩
    · have hsmall :=
        hfits c (hmessage ▸ List.mem_append_right _ List.mem_cons_self)
      exact absurd hsmall (Nat.not_le_of_lt hlarge)
    · intro front' c' back' hmessage' hfront' hlarge'
      -- a second first character that is too large would be the end of the
      -- same run
      obtain ⟨after', hrun', -, hcoded⟩ :=
        Cipher.runsTo_of_large built hkey hlength host hmessage'
          hfront' hlarge'
      obtain ⟨rfl, hverdict, -⟩ := hrun.unique hrun'
      refine ⟨⟨_, hverdict, rfl⟩, ?_⟩
      have hout := hcoded.out
      rwa [hmessage', List.take_left] at hout

/-- For instance, two letters and the key 1. -/
theorem runSource_cipher_of_letters :
    ∃ after, standard.RunsTo
        (Text.unlines (["set msg, 'AB'", "set key, 1", "set out, []",
          "set i, 0", "len msg, n", ":next", "gotoe i, n, done",
          "cut msg, i, ch", "asc ch, code", "xor code, key, enc", "hex enc, h",
          "append out, h", "inc i", "goto next", ":done", ""].map
          String.toList))
        (⟨.empty⟩ : MemoryHost) after (.ok ()) ⟨.empty⟩
      ∧ after.vars.get? "out".toList = some (.list ["40".toList, "43".toList])
      ∧ after.vars.get? "i".toList = some (.number (.ofNat 2)) := by
  have hsource : source "AB".toList 1
      = Text.unlines (["set msg, 'AB'", "set key, 1", "set out, []",
          "set i, 0", "len msg, n", ":next", "gotoe i, n, done",
          "cut msg, i, ch", "asc ch, code", "xor code, key, enc", "hex enc, h",
          "append out, h", "inc i", "goto next", ":done", ""].map
          String.toList) := by
    rw [source, Cipher.lines, numeral]
    rfl
  have hkey : 1 ≤ 255 := by decide
  have hlength : "AB".toList.length ≤ power 2 53 := by decide
  have hfits : ∀ c ∈ "AB".toList, code 1 c ≤ 255 := by
    intro c hc
    rcases List.mem_pair.1 hc with rfl | rfl
    · decide
    · decide
  obtain ⟨after, verdict, hrun, -, hsuccess, -⟩ :=
    runSource_cipher builtFor_standard hkey hlength (⟨.empty⟩ : MemoryHost)
  obtain ⟨rfl, hout, hcounter, -⟩ := hsuccess hfits
  rw [hsource] at hrun
  exact ⟨after, hrun, hout, hcounter⟩

end Interpreter

end LineScript
