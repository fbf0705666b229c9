/-
The code of a character, in four places.

A number from 0 to 255 becomes two hexadecimal digits by one command and a
character by another; an escape in a literal becomes a character; and a
third command gives the number of a character. The two commands accept the
same numbers (`exists_toByte?_iff`, in terms of how doubles compare), drop
the fraction of these and go by the same integer from there on. Digits are
read back one by one, so the escape of the two digits is the character
with that integer for its code (`expandEscapes_hexByte`).

The literal is written with a backslash, a letter and two digits between
quotes, whatever the character is. None of these ends a line or begins a
comment, so the line of an assignment is read as it stands also where the
character itself would end the literal, the line or the script.
-/
import LineScript.Proofs.Bits
import LineScript.Proofs.OperandForms
import LineScript.Proofs.Traces

set_option autoImplicit false

namespace LineScript

-- ================================================ statement vocabulary

namespace Double

/-- One number is at most another one. A NaN is neither side of this. -/
def AtMost (x y : Double) : Prop := x.lt y = true ∨ x.same y = true

/-- A number from 0 to 255, both included. -/
def InByteRange (x : Double) : Prop := zero.AtMost x ∧ x.AtMost (ofNat 255)

end Double

/-- A literal that is nothing but an escape with some digits. -/
def escapeLiteral (digits : Text) : Text :=
  Literal.quotedText ("\\x".toList ++ digits)

-- ================================================================== bytes

namespace Double

variable {x : Double} {byte : Nat}

theorem atMost_finite_iff {s t : Bool} {m n : Nat} {hm : Representable m}
    {hn : Representable n} :
    (finite s m hm).AtMost (finite t n hn)
      ↔ signedUnits s m ≤ signedUnits t n := by
  rw [AtMost, lt, same, decide_eq_true_eq, decide_eq_true_eq]
  exact Int.le_iff_lt_or_eq.symm

/-- A finite number is in the range if its units are. -/
theorem inByteRange_finite_iff {neg : Bool} {units : Nat}
    {h : Representable units} :
    (finite neg units h).InByteRange
      ↔ 0 ≤ signedUnits neg units
        ∧ signedUnits neg units ≤ 255 * unitsPerOne := by
  have hlarge : ofNat 255 = ofInt 255 := rfl
  have hexact : IsExact 255 := by decide
  have hnone : signedUnits false 0 = 0 := rfl
  rw [InByteRange, zero, hlarge, ofInt_eq hexact, atMost_finite_iff,
    atMost_finite_iff, signedUnits_natAbs, hnone]

/-- What is not negative has as many units as its size says, and so has its
integer part: a sign can only be there with zero. -/
theorem signedUnits_of_nonneg {neg : Bool} {units : Nat}
    (h : 0 ≤ signedUnits neg units) (part : Nat) :
    signedUnits neg units = units
      ∧ signedUnits neg (units / part) = (units / part : Nat) := by
  cases neg with
  | false => exact ⟨rfl, rfl⟩
  | true =>
      have hnone : units = 0 := by
        have hsigned : signedUnits true units = -(units : Int) := rfl
        omega
      rw [hnone, Nat.zero_div]
      exact ⟨rfl, rfl⟩

/-- The byte of a number in the range is its integer part. -/
theorem toByte?_eq_some_iff :
    x.toByte? = some byte
      ↔ x.InByteRange ∧ x.truncate? = some (byte : Int) := by
  cases x with
  | nan => simp [toByte?, truncate?]
  | infinite neg => simp [toByte?, truncate?]
  | finite neg units h =>
      rw [inByteRange_finite_iff, toByte?, truncate?]
      split
      next hout =>
        constructor
        · intro hnone
          cases hnone
        · rintro ⟨⟨hlow, hhigh⟩, -⟩
          obtain ⟨hsigned, -⟩ := signedUnits_of_nonneg hlow 1
          omega
      next hin =>
        have hlow : 0 ≤ signedUnits neg units := by omega
        obtain ⟨hsigned, hpart⟩ := signedUnits_of_nonneg hlow unitsPerOne
        rw [hpart, Option.some_inj, Option.some_inj, Int.ofNat_inj]
        exact ⟨fun hbyte => ⟨⟨hlow, by omega⟩, hbyte⟩, fun hbyte => hbyte.2⟩

/-- No infinity is in the range. -/
theorem not_inByteRange_infinite (neg : Bool) :
    ¬ (infinite neg).InByteRange := by
  have hlarge : ofNat 255 = ofInt 255 := rfl
  have hexact : IsExact 255 := by decide
  rw [InByteRange, zero, hlarge, ofInt_eq hexact]
  cases neg with
  | true => exact fun hrange => absurd hrange.1 (by simp [AtMost, lt, same])
  | false => exact fun hrange => absurd hrange.2 (by simp [AtMost, lt, same])

/-- A number has a byte exactly if it is in the range. -/
theorem exists_toByte?_iff :
    (∃ byte, x.toByte? = some byte) ↔ x.InByteRange := by
  simp only [toByte?_eq_some_iff, exists_and_left, and_iff_left_iff_imp]
  intro hrange
  cases x with
  | nan => exact absurd hrange (by simp [InByteRange, AtMost, lt, same])
  | infinite neg => exact absurd hrange (not_inByteRange_infinite neg)
  | finite neg units h =>
      obtain ⟨hlow, -⟩ := inByteRange_finite_iff.1 hrange
      obtain ⟨-, hpart⟩ := signedUnits_of_nonneg hlow unitsPerOne
      exact ⟨_, congrArg some hpart⟩

theorem le_of_toByte? (h : x.toByte? = some byte) : byte ≤ 255 := by
  cases x with
  | nan => cases h
  | infinite neg => cases h
  | finite neg units hunits =>
      rw [toByte?] at h
      split at h
      next => cases h
      next hin =>
        cases h
        have hle : units ≤ 255 * unitsPerOne := by omega
        exact Nat.div_le_of_le_mul (by rwa [Nat.mul_comm] at hle)

end Double

-- ================================================================= digits

variable {n d : Nat}

theorem hexDigit?_hexDigitChar (h : d < 16) :
    hexDigit? (hexDigitChar d) = some d := by
  have hall : ∀ d : Fin 16, hexDigit? (hexDigitChar d) = some d.val := by
    decide
  exact hall ⟨d, h⟩

theorem hexDigitChar_mem (h : d < 16) :
    hexDigitChar d ∈ "0123456789abcdef".toList := by
  have hall : ∀ d : Fin 16, hexDigitChar d ∈ "0123456789abcdef".toList := by
    decide
  exact hall ⟨d, h⟩

theorem toNat_charOfNat (h : n ≤ 255) : (Char.ofNat n).toNat = n := by
  have hvalid : n.isValidChar := .inl (by omega)
  rw [Char.ofNat, dif_pos hvalid]
  rfl

/-- The digits of a byte are two, in lower case. -/
theorem mem_hexByte (h : n ≤ 255) :
    (hexByte n).length = 2
      ∧ ∀ c ∈ hexByte n, c ∈ "0123456789abcdef".toList := by
  refine ⟨rfl, ?_⟩
  simp only [hexByte, List.forall_mem_cons]
  exact ⟨hexDigitChar_mem (by omega), hexDigitChar_mem (by omega), nofun⟩

/-- The escape of a byte is the character with that code. -/
theorem expandEscapes_hexByte (h : n ≤ 255) :
    Text.expandEscapes ("\\x".toList ++ hexByte n) = [Char.ofNat n] := by
  have hhigh := hexDigit?_hexDigitChar (d := n / 16) (by omega)
  have hlow := hexDigit?_hexDigitChar (d := n % 16) (by omega)
  have hescaped : Text.escaped? ('x' :: hexByte n) = some (Char.ofNat n) := by
    simp only [hexByte, Text.escaped?, hhigh, hlow, Option.bind_eq_bind,
      Option.bind_some]
    rw [Nat.div_add_mod]
    rfl
  show Text.expandFrom 0 ('\\' :: 'x' :: hexByte n) = [Char.ofNat n]
  rw [Text.expandFrom, if_pos rfl, hescaped]
  rfl

/-- Nothing in an escape ends a literal or a line. -/
theorem not_mem_escape (h : n ≤ 255) {c : Char}
    (hc : c ∉ "\\x0123456789abcdef".toList) :
    c ∉ "\\x".toList ++ hexByte n := by
  intro hmem
  apply hc
  rcases List.mem_append.1 hmem with hmark | hdigit
  · exact List.mem_append_left "0123456789abcdef".toList hmark
  · exact List.mem_append_right "\\x".toList ((mem_hexByte h).2 c hdigit)

/-- The literal is read as that character. -/
theorem read?_escapeLiteral (h : n ≤ 255) :
    Literal.read? (escapeLiteral (hexByte n))
      = some (.value (.string [Char.ofNat n])) :=
  Literal.read?_of_string? (Literal.string?_eq_some_iff.2
    ⟨_, not_mem_escape h (by decide), rfl, (expandEscapes_hexByte h).symm⟩)

/-- It leaves the line alone that it stands on. -/
theorem inert_escapeLiteral (h : n ≤ 255) :
    Literal.Inert (escapeLiteral (hexByte n)) :=
  Literal.inert_quoted (Literal.neutral_quoted (not_mem_escape h (by decide))
    (not_mem_escape h (by decide)) (not_mem_escape h (by decide)))

-- =============================================================== commands

/-- How a command writes a byte, if it is one of those that do. -/
def Instruction.spelling? : Instruction → Option (Nat → Text)
  | .hex => some hexByte
  | .character => some fun byte => [Char.ofNat byte]
  | _ => none

variable {η : Type} [Host η] {instruction : Instruction} {spell : Nat → Text}

/-- These commands put what they write into their second argument. -/
theorem Instruction.targetPosition?_of_spelling
    (h : instruction.spelling? = some spell) :
    instruction.targetPosition? = some 1 := by
  cases instruction with
  | hex => rfl
  | character => rfl
  | _ => cases h

theorem Instruction.result?_of_spelling
    (h : instruction.spelling? = some spell) (call : Call) (machine : Machine)
    (host : η) :
    instruction.result? call machine host
      = (call.number? machine 0).bind fun x =>
          x.toByte?.map fun byte => .string (spell byte) := by
  cases instruction with
  | hex =>
      cases h
      rfl
  | character =>
      cases h
      rfl
  | _ => cases h

namespace Engine

variable {engine : Engine Output} {listing : Listing} {vars : Table Value}
  {source target : Text} {x : Double} {pc : Nat} {state : State Output}
  {host : η}

/-- What is stored is the byte of the number as the command writes it. -/
theorem HasCall.stores_byte_iff
    (h : engine.HasCall listing pc instruction [source, target])
    (hspell : instruction.spelling? = some spell)
    (hx : vars.get? source = some (.number x)) {result : Value} :
    engine.Stores listing state host vars pc target result
      ↔ ∃ byte, x.toByte? = some byte ∧ result = .string (spell byte) := by
  obtain ⟨line, keyword, hcall⟩ := h
  have hfound : Call.value? ⟨pc, line, keyword, [source, target]⟩
      (state.holding vars pc).machine 0
      = some (.number x) := hx
  refine Iff.trans
    (hcall.stores_iff (Instruction.targetPosition?_of_spelling hspell)) ?_
  rw [Instruction.result?_of_spelling hspell, Call.number?_eq hfound,
    Value.number?, Option.bind_some, Option.map_eq_some_iff]
  constructor
  · rintro ⟨byte, hbyte, rfl⟩
    exact ⟨byte, hbyte, rfl⟩
  · rintro ⟨byte, hbyte, rfl⟩
    exact ⟨byte, hbyte, rfl⟩

/-- The command succeeds just for the numbers in the range and fails for
all others. -/
theorem HasCall.stores_byte_or_fails
    (h : engine.HasCall listing pc instruction [source, target])
    (hspell : instruction.spelling? = some spell)
    (hx : vars.get? source = some (.number x)) :
    ((∃ result, engine.Stores listing state host vars pc target result)
      ↔ x.InByteRange)
      ∧ (¬ x.InByteRange → engine.Fails listing state host vars pc) := by
  rw [← Double.exists_toByte?_iff]
  refine ⟨⟨?_, ?_⟩, fun hnone => ?_⟩
  · rintro ⟨result, hstores⟩
    obtain ⟨byte, hbyte, -⟩ := (h.stores_byte_iff hspell hx).1 hstores
    exact ⟨byte, hbyte⟩
  · rintro ⟨byte, hbyte⟩
    exact ⟨_, (h.stores_byte_iff hspell hx).2 ⟨byte, hbyte, rfl⟩⟩
  · obtain ⟨line, keyword, hcall⟩ := h
    have htarget := Instruction.targetPosition?_of_spelling hspell
    refine hcall.fails htarget
      (Option.eq_none_iff_forall_ne_some.2 fun result hresult => ?_)
    have hstores : engine.Stores listing state host vars pc target result :=
      hcall.stores htarget hresult
    obtain ⟨byte, hbyte, -⟩ :=
      (HasCall.stores_byte_iff ⟨line, keyword, hcall⟩ hspell hx).1 hstores
    exact hnone ⟨byte, hbyte⟩

/-- The commands for digits, for a character and for a code, and the
escapes in literals, have one code in common.

- The first two succeed exactly if the number is from 0 to 255, and
  otherwise they fail and change nothing.
- Where they succeed, the integer part of the number is the code. The
  digits are two, in lower case, and their escape stands for the character.
- The line that assigns this escape as a literal is read as it stands,
  wherever it is in a script, and stores the character; so it does if it is
  all of a script.
- The code of the character is the integer part again, exactly. -/
theorem byte_codes_agree (state : State Output) (host : η)
    (hx : vars.get? source = some (.number x)) :
    (∀ pc target, engine.HasCall listing pc .hex [source, target] →
        ((∃ result, engine.Stores listing state host vars pc target result)
          ↔ x.InByteRange)
          ∧ (¬ x.InByteRange → engine.Fails listing state host vars pc))
      ∧ (∀ pc target, engine.HasCall listing pc .character [source, target] →
        ((∃ result, engine.Stores listing state host vars pc target result)
          ↔ x.InByteRange)
          ∧ (¬ x.InByteRange → engine.Fails listing state host vars pc))
      ∧ (x.InByteRange → ∃ code : Nat, x.truncate? = some (code : Int)
        ∧ (∀ pc target, engine.HasCall listing pc .hex [source, target] →
            engine.Stores listing state host vars pc target
              (.string (hexByte code)))
        ∧ (∀ pc target, engine.HasCall listing pc .character [source, target] →
            engine.Stores listing state host vars pc target
              (.string [Char.ofNat code]))
        ∧ ((hexByte code).length = 2
          ∧ ∀ c ∈ hexByte code, c ∈ "0123456789abcdef".toList)
        ∧ Text.expandEscapes ("\\x".toList ++ hexByte code) = [Char.ofNat code]
        ∧ (∀ name, Text.isIdentifier name = true →
            (∀ index labels own,
              Interpreter.standard.engine.readLine index labels own
                (plainAssignment name (escapeLiteral (hexByte code)))
              = (labels, own,
                .ok (plainAssignment name (escapeLiteral (hexByte code)))))
            ∧ (engine.IsScript → ∀ vars pc,
                listing[pc]? = some
                  (plainAssignment name (escapeLiteral (hexByte code))) →
                engine.Stores listing state host vars pc name
                  (.string [Char.ofNat code]))
            ∧ ∀ interpreter : Interpreter, interpreter.BuiltFor {} →
                interpreter.RunsTo
                  (plainAssignment name (escapeLiteral (hexByte code))) host
                  ⟨interpreter.engine,
                    ⟨{ vars := Table.empty.insert name
                         (.string [Char.ofNat code]),
                       pc := 1, lineCount := 1 }, interpreter.state.own⟩⟩
                  (.ok ()) host)
        ∧ (∀ vars pc text target,
            vars.get? text = some (.string [Char.ofNat code]) →
            engine.HasCall listing pc .code [text, target] →
            engine.Stores listing state host vars pc target
              (.number (.ofNat code)))
        ∧ (Double.ofNat code).IsInteger code) := by
  refine ⟨fun pc target hcall => hcall.stores_byte_or_fails rfl hx,
    fun pc target hcall => hcall.stores_byte_or_fails rfl hx, fun hrange => ?_⟩
  obtain ⟨code, hcode⟩ := Double.exists_toByte?_iff.2 hrange
  have hle := Double.le_of_toByte? hcode
  have hread := read?_escapeLiteral hle
  have hinert := inert_escapeLiteral hle
  have hexact : code ≤ power 2 53 := Nat.le_trans hle (by decide)
  refine ⟨code, (Double.toByte?_eq_some_iff.1 hcode).2,
    fun pc target hcall => ?_, fun pc target hcall => ?_, mem_hexByte hle,
    expandEscapes_hexByte hle, fun name hname => ⟨?_, ?_, ?_⟩, ?_,
    Double.isInteger_ofInt (Double.isExact_natCast.2 hexact)⟩
  · exact (hcall.stores_byte_iff rfl hx).2 ⟨code, hcode, rfl⟩
  · exact (hcall.stores_byte_iff rfl hx).2 ⟨code, hcode, rfl⟩
  · exact fun index labels own => Interpreter.readLine_of_neutral
      (neutral_plainAssignment hname hinert) rfl index labels own
  · intro hs vars pc hline
    exact (callAt_plainAssignment hs hname hinert hline).stores_literal
      state host hread
  · intro interpreter built
    rw [← assignmentLine_plain]
    exact Interpreter.runsTo_assignment built
      (isAssignment_plain hname hinert) hread host
  · rintro vars pc text target htext ⟨_, _, hcall⟩
    have hstores := hcall.stores_code state host htext
    rwa [toNat_charOfNat hle] at hstores

/-- For instance, the sign that comments begin with, from a number with a
fraction; and a number that is too large by a half. -/
theorem byte_codes_agree_of_marker :
    (Interpreter.standard.engine.Stores #["hex n, h".toList]
        Interpreter.standard.state (⟨.empty⟩ : MemoryHost)
        (Table.empty.insert "n".toList (.number (.ofDecimal false 355 1))) 0
        "h".toList (.string "23".toList)
      ∧ Interpreter.standard.RunsTo "set d, '\\x23'".toList
          (⟨.empty⟩ : MemoryHost)
          ⟨Interpreter.standard.engine,
            ⟨{ vars := Table.empty.insert "d".toList (.string "#".toList),
               pc := 1, lineCount := 1 }, Interpreter.standard.state.own⟩⟩
          (.ok ()) ⟨.empty⟩)
      ∧ Interpreter.standard.engine.Fails #["hex n, h".toList]
          Interpreter.standard.state (⟨.empty⟩ : MemoryHost)
          (Table.empty.insert "n".toList (.number (.ofDecimal false 2555 1)))
          0 := by
  have hcall : Interpreter.standard.engine.HasCall #["hex n, h".toList] 0 .hex
      ["n".toList, "h".toList] :=
    ⟨"hex n, h".toList, "hex".toList, rfl, rfl, rfl, rfl⟩
  have hget : ∀ y, (Table.empty.insert "n".toList (.number y)).get? "n".toList
      = some (Value.number y) := fun y => Table.get?_insert_self _ _ _
  have hbyte : (Double.ofDecimal false 355 1).toByte? = some 35 := by
    decide +kernel
  have hnone : (Double.ofDecimal false 2555 1).toByte? = none := by
    decide +kernel
  obtain ⟨hrange, htruncate⟩ := Double.toByte?_eq_some_iff.1 hbyte
  have houtside : ¬ (Double.ofDecimal false 2555 1).InByteRange := by
    rw [← Double.exists_toByte?_iff, hnone]
    rintro ⟨byte, hbyte⟩
    cases hbyte
  constructor
  · obtain ⟨code, hcode, hhex, -, -, -, hset, -⟩ :=
      (byte_codes_agree Interpreter.standard.state (⟨.empty⟩ : MemoryHost)
        (hget _)).2.2 hrange
    obtain rfl :=
      Int.ofNat_inj.1 (Option.some.inj (htruncate.symm.trans hcode))
    exact ⟨hhex 0 "h".toList hcall,
      (hset "d".toList (by decide)).2.2 Interpreter.standard
        Interpreter.builtFor_standard⟩
  · exact ((byte_codes_agree Interpreter.standard.state (⟨.empty⟩ : MemoryHost)
      (hget _)).1 0 "h".toList hcall).2 houtside

end Engine

end LineScript
