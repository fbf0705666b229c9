/-
Bitwise commands on integers of 53 binary digits and a sign.

A number on its way through a bitwise command is truncated, becomes a
word of 64 bits, and becomes a double again. Only the last step can lose
something, and it does not for the integers from -2 ^ 53 to 2 ^ 53 - 1.
Such an integer is a word of 54 bits whose sign is copied into the rest of
the 64 (`IsInt54.ofInt_eq_signExtend`). The operations are digit by digit
and so keep the copies alike: the result is such an integer again
(`IsInt54.apply`), with the digits that it ought to have
(`IsInt54.testBit_apply`). One bit more, and neither holds.

What is known of words then holds of the numbers in a script. The
exclusive or takes itself back, and it is the difference of the or and
the and, where no borrow can arise.
-/
import LineScript.Proofs.Traces
import Mathlib.Data.Int.Bitwise

set_option autoImplicit false

namespace LineScript

-- ============================================================== the words

namespace Bitwise

variable {width : Nat}

/-- What an operation makes of two binary digits. -/
def digit : Bitwise → Bool → Bool → Bool
  | .xor => Bool.xor
  | .and => Bool.and
  | .or => Bool.or

/-- What it makes of two words. -/
def words : Bitwise → BitVec width → BitVec width → BitVec width
  | .xor, x, y => x ^^^ y
  | .and, x, y => x &&& y
  | .or, x, y => x ||| y

theorem apply_eq_words (operation : Bitwise) (a b : Int) :
    operation.apply a b
      = (operation.words (BitVec.ofInt 64 a) (BitVec.ofInt 64 b)).toInt := by
  cases operation <;> rfl

theorem getLsbD_words (operation : Bitwise) (x y : BitVec width) (i : Nat) :
    (operation.words x y).getLsbD i
      = operation.digit (x.getLsbD i) (y.getLsbD i) := by
  cases operation
  · exact BitVec.getLsbD_xor
  · exact BitVec.getLsbD_and
  · exact BitVec.getLsbD_or

theorem msb_words (operation : Bitwise) (x y : BitVec width) :
    (operation.words x y).msb = operation.digit x.msb y.msb := by
  cases operation
  · exact BitVec.msb_xor
  · exact BitVec.msb_and
  · exact BitVec.msb_or

/-- A longer word has more copies of the sign. -/
theorem words_signExtend (operation : Bitwise) (x y : BitVec width)
    (longer : Nat) :
    operation.words (x.signExtend longer) (y.signExtend longer)
      = (operation.words x y).signExtend longer := by
  cases operation
  · exact BitVec.signExtend_xor.symm
  · exact BitVec.signExtend_and.symm
  · exact BitVec.signExtend_or.symm

end Bitwise

/-- The binary digits of the integer that a word stands for: those of the
word, and then its sign. -/
theorem testBit_toInt {width : Nat} (x : BitVec width) (i : Nat) :
    x.toInt.testBit i = if i < width then x.getLsbD i else x.msb := by
  have hbound := x.isLt
  cases hsign : x.msb with
  | false =>
      rw [BitVec.toInt_eq_toNat_of_msb hsign]
      show x.toNat.testBit i = _
      rw [BitVec.testBit_toNat]
      split
      next => rfl
      next hi => exact BitVec.getLsbD_of_ge x i (Nat.le_of_not_lt hi)
  | true =>
      have hnot : x.toInt = Int.negSucc (~~~x).toNat := by
        rw [BitVec.toInt_eq_msb_cond, hsign, if_pos rfl, BitVec.toNat_not,
          Int.negSucc_eq]
        omega
      rw [hnot]
      show (!(~~~x).toNat.testBit i) = _
      rw [BitVec.testBit_toNat, BitVec.getLsbD_not]
      split
      next hi => simp [hi]
      next hi => simp [hi]

-- =========================================================== the integers

/-- The integers of 54 bits, the sign among them. -/
def IsInt54 (n : Int) : Prop := -(power 2 53 : Int) ≤ n ∧ n < power 2 53

namespace IsInt54

variable {a b : Int}

/-- They are doubles. -/
theorem isExact (h : IsInt54 a) : Double.IsExact a := by
  unfold IsInt54 at h
  unfold Double.IsExact
  omega

/-- They are words, as long as these are long enough. -/
theorem toInt_ofInt (h : IsInt54 a) {width : Nat} (hwidth : 54 ≤ width) :
    (BitVec.ofInt width a).toInt = a := by
  have hlimit : (power 2 53 : Int) ≤ 2 ^ (width - 1) := by
    have hnat : power 2 53 ≤ power 2 (width - 1) :=
      Nat.pow_le_pow_right (by decide) (by omega)
    exact_mod_cast hnat
  apply BitVec.toInt_ofInt_eq_self (by omega)
  · exact Int.le_trans (Int.neg_le_neg hlimit) h.1
  · exact Int.lt_of_lt_of_le h.2 hlimit

theorem of_word (x : BitVec 54) : IsInt54 x.toInt := ⟨x.le_toInt, x.toInt_lt⟩

theorem ofInt_eq_signExtend (h : IsInt54 a) :
    BitVec.ofInt 64 a = (BitVec.ofInt 54 a).signExtend 64 := by
  apply BitVec.eq_of_toInt_eq
  rw [BitVec.toInt_signExtend_of_le (by decide), h.toInt_ofInt (by decide),
    h.toInt_ofInt (by decide)]

/-- The sign of a long word is copied from the 54th bit, and the result has
as many copies as the operands. -/
theorem apply (operation : Bitwise) (ha : IsInt54 a) (hb : IsInt54 b) :
    IsInt54 (operation.apply a b) := by
  rw [operation.apply_eq_words, ha.ofInt_eq_signExtend, hb.ofInt_eq_signExtend,
    operation.words_signExtend, BitVec.toInt_signExtend_of_le (by decide)]
  exact .of_word _

/-- The operation is one on the two's complements, digit by digit. -/
theorem testBit_apply (operation : Bitwise) (ha : IsInt54 a) (hb : IsInt54 b)
    (i : Nat) :
    (operation.apply a b).testBit i
      = operation.digit (a.testBit i) (b.testBit i) := by
  have hleft := testBit_toInt (BitVec.ofInt 64 a) i
  have hright := testBit_toInt (BitVec.ofInt 64 b) i
  rw [ha.toInt_ofInt (by decide)] at hleft
  rw [hb.toInt_ofInt (by decide)] at hright
  rw [operation.apply_eq_words, testBit_toInt, operation.getLsbD_words,
    operation.msb_words, hleft, hright]
  split <;> rfl

/-- The exclusive or with the same operand takes itself back. -/
theorem xor_apply_apply (ha : IsInt54 a) :
    Bitwise.xor.apply (Bitwise.xor.apply a b) b = a := by
  rw [Bitwise.apply_eq_words, Bitwise.apply_eq_words, BitVec.ofInt_toInt]
  simp only [Bitwise.words]
  rw [BitVec.xor_assoc, BitVec.xor_self, BitVec.xor_zero,
    ha.toInt_ofInt (by decide)]

end IsInt54

/-- The digits of an or are those that one of the operands has and those
that both have. -/
theorem or_eq_add {width : Nat} (x y : BitVec width) :
    x ||| y = (x ^^^ y) + (x &&& y) := by
  have hapart : (x ^^^ y) &&& (x &&& y) = 0#(width) := by
    ext i hi
    simp only [BitVec.getElem_and, BitVec.getElem_xor, BitVec.getElem_zero]
    cases x[i] <;> cases y[i] <;> rfl
  rw [BitVec.add_eq_or_of_and_eq_zero _ _ hapart]
  ext i hi
  simp only [BitVec.getElem_or, BitVec.getElem_and, BitVec.getElem_xor]
  cases x[i] <;> cases y[i] <;> rfl

/-- What is in both operands is what the or has too much for an exclusive
or. -/
theorem IsInt54.or_sub_and {a b : Int} (ha : IsInt54 a) (hb : IsInt54 b) :
    Bitwise.or.apply a b - Bitwise.and.apply a b = Bitwise.xor.apply a b := by
  have hxor : IsInt54 (Bitwise.xor.apply a b) := ha.apply .xor hb
  have hand : IsInt54 (Bitwise.and.apply a b) := ha.apply .and hb
  have hsum : Bitwise.or.apply a b
      = (Bitwise.xor.apply a b + Bitwise.and.apply a b).bmod (2 ^ 64) := by
    rw [Bitwise.apply_eq_words, Bitwise.words, or_eq_add, BitVec.toInt_add]
    rfl
  have hsmall : (power 2 53 : Int) = 9007199254740992 := rfl
  unfold IsInt54 at hxor hand
  rw [Int.bmod_eq_of_le_mul_two (by omega) (by omega)] at hsum
  omega

-- ============================================================ the doubles

/-- A double is an integer, exactly. -/
def Double.IsInteger (x : Double) (n : Int) : Prop :=
  x.truncate? = some n ∧ x.isIntegral = true

theorem Double.isInteger_ofInt {n : Int} (h : Double.IsExact n) :
    (Double.ofInt n).IsInteger n := by
  refine ⟨truncate?_ofInt h, ?_⟩
  rw [ofInt_eq h, isIntegral]
  exact decide_eq_true (Nat.mul_mod_left _ _)

-- =========================================================== the commands

namespace Engine

variable {η : Type} [Host η] {engine : Engine Output} {listing : Listing}
  {vars : Table Value} {a b c d e f : Text} {x y : Double} {m n : Int}

section

variable (state : State Output) (host : η) (hm : IsInt54 m) (hn : IsInt54 n)

include hm hn

/-- Three operations on two variables one after the other, and what comes
of their results: no variable is set that is still needed. -/
theorem leads_of_bitwise (ha : vars.get? a = some (.number x))
    (hx : x.truncate? = some m) (hb : vars.get? b = some (.number y))
    (hy : y.truncate? = some n) (hdistinct : [a, b, c, d, e, f].Nodup)
    {pc : Nat} (hxor : engine.HasCall listing pc (.bitwise .xor) [a, b, c])
    (hand : engine.HasCall listing (pc + 1) (.bitwise .and) [a, b, d])
    (hor : engine.HasCall listing (pc + 2) (.bitwise .or) [a, b, e])
    (hback : engine.HasCall listing (pc + 3) (.bitwise .xor) [c, b, f])
    (hsub : engine.HasCall listing (pc + 4) (.arithmetic .subtract) [e, d]) :
    ∃ vars', engine.Leads listing state host vars pc vars' (pc + 5)
      ∧ vars'.get? c = some (.number (.ofInt (Bitwise.xor.apply m n)))
      ∧ vars'.get? f = some (.number (.ofInt m))
      ∧ vars'.get? e = vars'.get? c := by
  simp only [List.nodup_cons, List.mem_cons, List.not_mem_nil, or_false,
    not_or] at hdistinct
  obtain ⟨⟨-, hac, had, hae, -⟩, ⟨hbc, hbd, hbe, -⟩, ⟨hcd, hce, hcf⟩,
    ⟨hde, hdf⟩, hef, -⟩ :=
    hdistinct
  obtain ⟨_, _, hxor⟩ := hxor
  obtain ⟨_, _, hand⟩ := hand
  obtain ⟨_, _, hor⟩ := hor
  obtain ⟨_, _, hback⟩ := hback
  obtain ⟨_, _, hsub⟩ := hsub
  have hdiff := hm.or_sub_and hn
  have hexact : ∀ operation : Bitwise, Double.IsExact (operation.apply m n) :=
    fun operation => (hm.apply operation hn).isExact
  have hcombined := Double.truncate?_ofInt (hexact .xor)
  have hsubtract :=
    Double.sub_ofInt (hexact .or) (hexact .and)
      (by rw [hdiff]; exact hexact .xor)
  rw [hdiff] at hsubtract
  obtain ⟨vars₁, hleads₁, hc₁, hkept₁⟩ :=
    (hxor.bitwise state host ha hx hm.isExact hb hy
      hn.isExact).exists_of_insert
  have ha₁ := (hkept₁ a hac).trans ha
  have hb₁ := (hkept₁ b hbc).trans hb
  obtain ⟨vars₂, hleads₂, hd₂, hkept₂⟩ :=
    (hand.bitwise state host ha₁ hx hm.isExact hb₁ hy
      hn.isExact).exists_of_insert
  have ha₂ := (hkept₂ a had).trans ha₁
  have hb₂ := (hkept₂ b hbd).trans hb₁
  have hc₂ := (hkept₂ c hcd).trans hc₁
  obtain ⟨vars₃, hleads₃, he₃, hkept₃⟩ :=
    (hor.bitwise state host ha₂ hx hm.isExact hb₂ hy
      hn.isExact).exists_of_insert
  have hb₃ := (hkept₃ b hbe).trans hb₂
  have hc₃ := (hkept₃ c hce).trans hc₂
  have hd₃ := (hkept₃ d hde).trans hd₂
  obtain ⟨vars₄, hleads₄, hf₄, hkept₄⟩ :=
    (hback.bitwise state host hc₃ hcombined (hexact .xor) hb₃ hy
      hn.isExact).exists_of_insert
  have hc₄ := (hkept₄ c hcf).trans hc₃
  have hd₄ := (hkept₄ d hdf).trans hd₃
  have he₄ := (hkept₄ e hef).trans he₃
  rw [hm.xor_apply_apply] at hf₄
  obtain ⟨vars₅, hleads₅, he₅, hkept₅⟩ :=
    (hsub.subtract state host he₄ hd₄).exists_of_insert
  have hc₅ := (hkept₅ c hce).trans hc₄
  rw [hsubtract] at he₅
  exact ⟨vars₅,
    hleads₁.trans (hleads₂.trans (hleads₃.trans (hleads₄.trans hleads₅))), hc₅,
    (hkept₅ f (Ne.symm hef)).trans hf₄, he₅.trans hc₅.symm⟩

end

/-- Bitwise commands are exact on the integers of 54 bits, the sign among
them.

- If two variables hold numbers whose integer parts are such integers, each
  of the three commands succeeds. It stores the integer whose binary digits
  are those of the operation, in two's complement, and that is such an
  integer again and a double without rounding.
- With names that are all different, the exclusive or with the second
  number gives the integer part of the first one back, and the or less the
  and is the exclusive or.
- If one of the numbers is not finite, the command fails and changes
  nothing. -/
theorem bitwise_commands_exact (state : State Output) (host : η)
    (ha : vars.get? a = some (.number x))
    (hb : vars.get? b = some (.number y)) :
    (∀ m n, x.truncate? = some m → y.truncate? = some n →
      IsInt54 m → IsInt54 n →
      (∀ operation : Bitwise, IsInt54 (operation.apply m n)
          ∧ (∀ i, (operation.apply m n).testBit i
              = operation.digit (m.testBit i) (n.testBit i))
          ∧ (Double.ofInt (operation.apply m n)).IsInteger
            (operation.apply m n)
          ∧ ∀ pc target,
            engine.HasCall listing pc (.bitwise operation) [a, b, target] →
              engine.Leads listing state host vars pc
                (vars.insert target (.number (.ofInt (operation.apply m n))))
                (pc + 1))
        ∧ ∀ c d e f pc, [a, b, c, d, e, f].Nodup →
            engine.HasCall listing pc (.bitwise .xor) [a, b, c] →
            engine.HasCall listing (pc + 1) (.bitwise .and) [a, b, d] →
            engine.HasCall listing (pc + 2) (.bitwise .or) [a, b, e] →
            engine.HasCall listing (pc + 3) (.bitwise .xor) [c, b, f] →
            engine.HasCall listing (pc + 4) (.arithmetic .subtract) [e, d] →
            ∃ vars', engine.Leads listing state host vars pc vars' (pc + 5)
              ∧ vars'.get? c = some (.number (.ofInt (Bitwise.xor.apply m n)))
              ∧ vars'.get? f = some (.number (.ofInt m))
              ∧ vars'.get? e = vars'.get? c)
      ∧ (x.truncate? = none ∨ y.truncate? = none →
          ∀ (operation : Bitwise) pc target,
            engine.HasCall listing pc (.bitwise operation) [a, b, target] →
            ∃ line fault, engine.Stops listing (state.holding vars pc, host)
              (state.holding vars pc, host)
              (.error (.runtime ⟨pc, line⟩ fault))) := by
  refine ⟨fun m n hx hy hm hn => ⟨fun operation => ?_, ?_⟩, ?_⟩
  · have hresult := hm.apply operation hn
    refine ⟨hresult, hm.testBit_apply operation hn,
      Double.isInteger_ofInt hresult.isExact, ?_⟩
    rintro pc target ⟨_, _, hcall⟩
    exact hcall.bitwise state host ha hx hm.isExact hb hy hn.isExact
  · intro c d e f pc hdistinct hxor hand hor hback hsub
    exact leads_of_bitwise state host hm hn ha hx hb hy hdistinct hxor hand
      hor hback hsub
  · rintro hnone operation pc target ⟨line, _, hcall⟩
    exact ⟨line, _, hcall.bitwise_refused state host ha hb hnone⟩

/-- Two variables. -/
def operands (left right : Double) : Table Value :=
  (Table.empty.insert "a".toList (.number left)).insert "b".toList
    (.number right)

/-- For instance, a negative number with a fraction and the least of the
integers; and an infinity. -/
theorem bitwise_commands_exact_of_least :
    (∃ vars', Interpreter.standard.engine.Leads
        #["xor a, b, c".toList, "and a, b, d".toList, "or a, b, e".toList,
          "xor c, b, f".toList, "sub e, d".toList]
        Interpreter.standard.state (⟨.empty⟩ : MemoryHost)
        (operands (.ofDecimal true 25 1) (.ofInt (-9007199254740992))) 0
        vars' 5
      ∧ vars'.get? "c".toList = some (.number (.ofInt 9007199254740990))
      ∧ vars'.get? "f".toList = some (.number (.ofInt (-2)))
      ∧ vars'.get? "e".toList = vars'.get? "c".toList)
      ∧ ∃ line fault, Interpreter.standard.engine.Stops #["or a, b, a".toList]
          (Interpreter.standard.state.holding
            (operands .one (.infinite true)) 0, (⟨.empty⟩ : MemoryHost))
          (Interpreter.standard.state.holding (operands .one (.infinite true))
            0, ⟨.empty⟩)
          (.error (.runtime ⟨0, line⟩ fault)) := by
  have hx : (Double.ofDecimal true 25 1).truncate? = some (-2) := by
    decide +kernel
  have hy : (Double.ofInt (-9007199254740992)).truncate?
      = some (-9007199254740992) :=
    Double.truncate?_ofInt (by decide)
  have hm : IsInt54 (-2) := ⟨by decide, by decide⟩
  have hn : IsInt54 (-9007199254740992) := ⟨by decide, by decide⟩
  have hc : Bitwise.xor.apply (-2) (-9007199254740992) = 9007199254740990 := by
    decide
  have hget : ∀ left right,
      (operands left right).get? "a".toList = some (.number left)
      ∧ (operands left right).get? "b".toList = some (.number right) :=
    fun _ _ => ⟨rfl, rfl⟩
  have hdistinct : (["a", "b", "c", "d", "e", "f"].map
      String.toList).Nodup := by decide
  obtain ⟨ha, hb⟩ := hget (.ofDecimal true 25 1) (.ofInt (-9007199254740992))
  obtain ⟨ha', hb'⟩ := hget .one (.infinite true)
  rw [← hc]
  constructor
  · exact ((bitwise_commands_exact Interpreter.standard.state _ ha hb).1 _ _
      hx hy hm hn).2
      _ _ _ _ 0 hdistinct
        ⟨"xor a, b, c".toList, "xor".toList, rfl, rfl, rfl, rfl⟩
      ⟨"and a, b, d".toList, "and".toList, rfl, rfl, rfl, rfl⟩
      ⟨"or a, b, e".toList, "or".toList, rfl, rfl, rfl, rfl⟩
      ⟨"xor c, b, f".toList, "xor".toList, rfl, rfl, rfl, rfl⟩
      ⟨"sub e, d".toList, "sub".toList, rfl, rfl, rfl, rfl⟩
  · exact (bitwise_commands_exact Interpreter.standard.state _ ha' hb').2
      (.inr rfl) .or 0
      "a".toList ⟨"or a, b, a".toList, "or".toList, rfl, rfl, rfl, rfl⟩

end Engine

end LineScript
