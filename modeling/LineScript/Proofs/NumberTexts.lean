/-
Numbers survive being written down and read again.

A script writes a number in one of two ways: small integers through
their decimal numeral, everything else through the shortest digits, with
zeros put in where there is no exponent to save them. Both ways lead into
the grammar of numerals (`positionalNumeral`), and both are undone by
reading. Of the second way that is the law of the digits
(`Double.isShortest_shortest`); all that is left here is that the places
of the point and of the zeros are right. The first way is the second one
in disguise (`Double.text_eq_decimal`): of the decimals that are read
back as an integer of at most 53 bits, the integer is the only one
without a fraction, or the nearest one (`unitsText_of_integer`). Only the
negative zero is different. It is an integer, and loses its sign.
-/
import LineScript.Proofs.Shortest
import LineScript.Proofs.Traces

set_option autoImplicit false

namespace LineScript

-- ============================================================ numerals

theorem ofNumeral_append_zeros (text : Text) (k : Nat) :
    ofNumeral (text ++ List.replicate k '0')
      = ofNumeral text * power 10 k := by
  induction k with
  | zero => simp [power]
  | succ k ih =>
      have hten : power 10 (k + 1) = power 10 k * 10 := Nat.pow_add 10 k 1
      have hzero : digitValue '0' = 0 := rfl
      rw [List.replicate_succ', ← List.append_assoc, ofNumeral_append_digit,
        ih, hten, hzero, Nat.add_zero, ← Nat.mul_assoc (ofNumeral text)]
      exact Nat.mul_comm 10 _

theorem ofNumeral_zeros_append (k : Nat) (text : Text) :
    ofNumeral (List.replicate k '0' ++ text) = ofNumeral text := by
  induction k with
  | zero => rfl
  | succ k ih => exact ih

/-- Zeros behind a numeral are factors of ten. -/
theorem numeral_mul_power {m : Nat} (hpos : 0 < m) (k : Nat) :
    numeral (m * power 10 k) = numeral m ++ List.replicate k '0' := by
  induction k with
  | zero =>
      show numeral (m * 1) = numeral m ++ []
      rw [Nat.mul_one, List.append_nil]
  | succ k ih =>
      have hten : m * power 10 (k + 1) = 10 * (m * power 10 k) := by
        have hstep : power 10 (k + 1) = power 10 k * 10 := Nat.pow_add 10 k 1
        rw [hstep, ← Nat.mul_assoc, Nat.mul_comm]
      have hlarge : 0 < m * power 10 k :=
        Nat.mul_pos hpos (Nat.pow_pos (by decide))
      have hquotient : 10 * (m * power 10 k) / 10 = m * power 10 k :=
        Nat.mul_div_cancel_left _ (by decide)
      have hrest : 10 * (m * power 10 k) % 10 = 0 := Nat.mul_mod_right 10 _
      rw [hten, numeral, if_neg (by omega), hquotient, hrest, ih,
        List.replicate_succ', ← List.append_assoc]
      rfl

namespace Double

open Literal (Numeral)

/-- The numeral of `digits` times `10 ^ (exponent - 1074)`. -/
def positionalNumeral (neg : Bool) (digits exponent : Nat) : Numeral :=
  if 1074 ≤ exponent then
    ⟨neg, numeral digits ++ List.replicate (exponent - 1074) '0', none⟩
  else
    let padded :=
      List.replicate (1074 - exponent + 1 - (numeral digits).length) '0'
      ++ numeral digits
    ⟨neg, padded.take (padded.length - (1074 - exponent)),
      some (padded.drop (padded.length - (1074 - exponent)))⟩

theorem neg_positionalNumeral (neg : Bool) (digits exponent : Nat) :
    (positionalNumeral neg digits exponent).neg = neg := by
  unfold positionalNumeral
  split <;> rfl

/-- It is written positionally. -/
theorem text_positionalNumeral (neg : Bool) (digits exponent : Nat) :
    (positionalNumeral neg digits exponent).text
      = (if neg then ['-'] else []) ++ positional digits exponent := by
  unfold positionalNumeral positional Numeral.text
  by_cases hwhole : 1074 ≤ exponent
  · simp only [if_pos hwhole, Option.map_none, Option.getD_none,
      List.append_nil]
  · simp only [if_neg hwhole, Option.map_some, Option.getD_some,
      List.append_assoc]

/-- There are digits on both sides of a point. -/
theorem valid_positionalNumeral (neg : Bool) (digits exponent : Nat) :
    (positionalNumeral neg digits exponent).Valid := by
  have hdigits : ∀ k, ∀ c ∈ List.replicate k '0', c.isDigit = true := by
    intro k c hc
    rw [List.eq_of_mem_replicate hc]
    rfl
  have hnumeral : ∀ c ∈ numeral digits, c.isDigit = true :=
    fun _ => isDigit_of_mem_numeral
  unfold positionalNumeral
  split
  next =>
    refine ⟨⟨List.append_ne_nil_of_left_ne_nil (numeral_ne_nil digits) _, ?_⟩,
      fun _ h => by cases h⟩
    exact fun c hc => (List.mem_append.1 hc).elim (hnumeral c) (hdigits _ c)
  next hpoint =>
    simp only
    generalize hplaces : 1074 - exponent = places
    generalize hpadded : List.replicate
      (places + 1 - (numeral digits).length) '0'
      ++ numeral digits = padded
    have hlength : places + 1 ≤ padded.length := by
      rw [← hpadded, List.length_append, List.length_replicate]
      omega
    have hall : ∀ c ∈ padded, c.isDigit = true := by
      rw [← hpadded]
      exact fun c hc => (List.mem_append.1 hc).elim (hdigits _ c) (hnumeral c)
    refine ⟨⟨?_, fun c hc => hall c (List.mem_of_mem_take hc)⟩,
      fun fraction hfraction => ?_⟩
    · rw [← List.length_pos_iff, List.length_take]
      omega
    · cases hfraction
      refine ⟨?_, fun c hc => hall c (List.mem_of_mem_drop hc)⟩
      rw [← List.length_pos_iff, List.length_drop]
      omega

/-- The digits of the numeral, counted from its last place, stand for the
number. -/
theorem value_positionalNumeral (neg : Bool) (digits exponent : Nat) :
    ofNumeral ((positionalNumeral neg digits exponent).whole
        ++ (positionalNumeral neg digits exponent).fraction.getD [])
      * power 10 1074
      = digits * power 10 exponent * power 10
        ((positionalNumeral neg digits exponent).fraction.getD []).length := by
  have hadd : ∀ m n, power 10 (m + n) = power 10 m * power 10 n :=
    Nat.pow_add 10
  unfold positionalNumeral
  split
  next hwhole =>
    have hsum : exponent - 1074 + 1074 = exponent := Nat.sub_add_cancel hwhole
    have hone : power 10 ([] : Text).length = 1 := rfl
    simp only [Option.getD_none, List.append_nil, hone, Nat.mul_one]
    rw [ofNumeral_append_zeros, ofNumeral_numeral, Nat.mul_assoc, ← hadd, hsum]
  next hpoint =>
    simp only [Option.getD_some, List.take_append_drop, List.length_drop]
    rw [ofNumeral_zeros_append, ofNumeral_numeral, Nat.mul_assoc, ← hadd]
    congr 2
    rw [List.length_append, List.length_replicate]
    omega

-- ============================================================== doubles

theorem unitsPerOne_mul_fineParts :
    unitsPerOne * fineParts = power 10 1074 := by
  have hunit : unitsPerOne = power 2 1074 := rfl
  have hfine : fineParts = power 5 1074 := rfl
  have hten : ∀ n, power 2 n * power 5 n = power 10 n :=
    fun n => (Nat.mul_pow 2 5 n).symm
  rw [hunit, hfine, hten]

/-- A decimal that is read back as a double is written as a numeral of the
double. -/
theorem isNearest_positionalNumeral {neg : Bool} {digits exponent units : Nat}
    (bound : Representable units)
    (hread : IsNearestCount (digits * power 10 exponent) fineParts units) :
    (positionalNumeral neg digits exponent).IsNearest
      (.finite neg units bound) := by
  have hvalue := value_positionalNumeral neg digits exponent
  have hplaces :
      0 < power 10
        ((positionalNumeral neg digits exponent).fraction.getD []).length :=
    Nat.pow_pos (by decide)
  have hscale : digits * power 10 exponent * power 10
        ((positionalNumeral neg digits exponent).fraction.getD []).length
      = ofNumeral ((positionalNumeral neg digits exponent).whole
          ++ (positionalNumeral neg digits exponent).fraction.getD [])
        * unitsPerOne * fineParts := by
    rw [← hvalue, Nat.mul_assoc, unitsPerOne_mul_fineParts]
  unfold Numeral.IsNearest
  rw [neg_positionalNumeral]
  exact .finite (hread.of_eq fineParts_pos hplaces hscale) bound

theorem unitsText_of_pos {units : Nat} (h : 0 < units) :
    unitsText units = positional (shortest units).1 (shortest units).2 :=
  if_neg (Nat.ne_of_gt h)

/-- A finite double is written as its sign and its size. -/
theorem decimal_finite (neg : Bool) {units : Nat}
    (bound : Representable units) :
    decimal (.finite neg units bound)
      = (if neg then ['-'] else []) ++ unitsText units := by
  cases neg <;> rfl

/-- The text of a finite double is a numeral of it. -/
theorem exists_numeral_decimal (neg : Bool) {units : Nat}
    (bound : Representable units) :
    ∃ written : Numeral,
      written.Valid ∧ decimal (.finite neg units bound) = written.text
      ∧ written.IsNearest (.finite neg units bound) := by
  rw [decimal_finite]
  rcases Nat.eq_zero_or_pos units with rfl | hpos
  · have hdigit : ∀ c ∈ ['0'], c.isDigit = true := by
      intro c hc
      rw [List.mem_singleton.1 hc]
      rfl
    have hvalue : ofNumeral (['0'] ++ []) * unitsPerOne = 0 * 1 := by
      have hnone : ofNumeral (['0'] ++ []) = 0 := rfl
      rw [hnone, Nat.zero_mul, Nat.zero_mul]
    exact ⟨⟨neg, ['0'], none⟩,
      ⟨⟨List.cons_ne_nil _ _, hdigit⟩, fun _ h => by cases h⟩,
      (List.append_nil _).symm,
      .finite (isNearestCount_of_eq Nat.one_pos bound.1 hvalue) bound⟩
  · have hread := (isShortest_shortest bound.1 hpos).readsBack
    refine ⟨_, valid_positionalNumeral neg _ _, ?_,
      isNearest_positionalNumeral bound hread⟩
    rw [text_positionalNumeral, unitsText_of_pos hpos]

-- ============================================================= integers

variable {n : Nat}

/-- The doubles next to an integer of at most 53 bits are no further away
than two. -/
theorem spacing_le_of_exact (hn : n ≤ power 2 53) :
    spacing (n * unitsPerOne) ≤ 2 * unitsPerOne := by
  have hpos := unitsPerOne_pos
  rcases spacing_fills (n * unitsPerOne) with hone | hfills
  · omega
  · have hscale : n * unitsPerOne ≤ power 2 53 * unitsPerOne :=
      Nat.mul_le_mul_right unitsPerOne hn
    have hdouble : power 2 53 = power 2 52 * 2 := rfl
    rw [hdouble, Nat.mul_assoc] at hscale
    exact Nat.le_of_mul_le_mul_left (Nat.le_trans hfills hscale)
      (Nat.two_pow_pos 52)

/-- The shortest digits of an integer of at most 53 bits are those of the
integer, without the zeros behind them. -/
theorem IsShortest.eq_integer {steps level : Nat}
    (h : IsShortest (n * unitsPerOne) steps level) (hn : n ≤ power 2 53)
    (hpos : 0 < n) :
    1074 ≤ level ∧ steps * power 10 (level - 1074) = n := by
  have hparts := unitsPerOne_mul_fineParts
  have hden := fineParts_pos
  have hpositive : ∀ n, 0 < power 10 n := fun n => Nat.pow_pos (by decide)
  have hpow := hpositive 1074
  have hexact : ∀ m, m ≤ power 2 53 →
      IsNearestCount (m * power 10 1074) fineParts (m * unitsPerOne) := by
    intro m hm
    have hunits := (representable_of_isExact (isExact_natCast.2 hm)).1
    rw [Int.natAbs_natCast] at hunits
    exact isNearestCount_of_eq hden hunits (by rw [Nat.mul_assoc, hparts])
  have hlevel : 1074 ≤ level := by
    by_contra hlt
    exact h.coarsest n 1074 (Nat.lt_of_not_le hlt) (hexact n hn)
  refine ⟨hlevel, ?_⟩
  have hsum : level - 1074 + 1074 = level := Nat.sub_add_cancel hlevel
  have hread := h.readsBack
  have hadd : ∀ m n, power 10 (m + n) = power 10 m * power 10 n :=
    Nat.pow_add 10
  rw [← hsum, hadd, ← Nat.mul_assoc] at hread
  have hbelow :=
    (hread.betweenMidpoints (Nat.mul_pos hpos unitsPerOne_pos) hden).below
  have hspacing := Nat.mul_le_mul_right fineParts (spacing_le_of_exact hn)
  rw [Nat.mul_assoc n, hparts] at hbelow
  rw [Nat.mul_assoc, hparts] at hspacing
  have hnear : steps * power 10 (level - 1074) ≤ n + 1 := by
    apply Nat.le_of_mul_le_mul_right _ hpow
    rw [Nat.add_mul, Nat.one_mul]
    omega
  rcases Nat.lt_or_ge (power 2 53)
    (steps * power 10 (level - 1074)) with hlarge | hsmall
  · -- one more than 2 ^ 53 has no zeros behind it, and 2 ^ 53 is nearer
    have hfull : steps * power 10 (level - 1074) = power 2 53 + 1 := by omega
    have hsame : n = power 2 53 := by omega
    cases hzeros : level - 1074 with
    | zero =>
        have hexponent : level = 1074 := by omega
        have hone : power 10 0 = 1 := rfl
        rw [hzeros, hone, Nat.mul_one] at hfull
        have hnearest := h.nearest n (by rw [hexponent]; exact hexact n hn)
        rw [hexponent, hfull, hsame] at hnearest
        unfold distance at hnearest
        rw [Nat.add_mul, Nat.one_mul, ← Int.natCast_mul, Nat.mul_assoc,
          hparts] at hnearest
        omega
    | succ k =>
        have hten : power 10 (k + 1) = power 10 k * 10 := Nat.pow_add 10 k 1
        have hodd : (power 2 53 + 1) % 10 ≠ 0 := by decide
        rw [hzeros, hten, ← Nat.mul_assoc] at hfull
        exact absurd (hfull ▸ Nat.mul_mod_left _ 10) hodd
  · exact Nat.eq_of_mul_eq_mul_right unitsPerOne_pos
      (hread.unique (hexact _ hsmall)).symm

/-- The shortest digits of an integer of at most 53 bits are its numeral. -/
theorem unitsText_of_integer (hn : n ≤ power 2 53) :
    unitsText (n * unitsPerOne) = numeral n := by
  rcases Nat.eq_zero_or_pos n with rfl | hpos
  · rw [Nat.zero_mul, numeral]
    rfl
  · have hunits := (representable_of_isExact (isExact_natCast.2 hn)).1
    rw [Int.natAbs_natCast] at hunits
    have hlarge := Nat.mul_pos hpos unitsPerOne_pos
    rw [unitsText_of_pos hlarge]
    generalize hdigits : (shortest (n * unitsPerOne)).1 = digits
    generalize hexponent : (shortest (n * unitsPerOne)).2 = exponent
    have hshortest := isShortest_shortest hunits hlarge
    rw [hdigits, hexponent] at hshortest
    obtain ⟨hlevel, hvalue⟩ := hshortest.eq_integer hn hpos
    have hne : 0 < digits := by
      apply Nat.pos_of_ne_zero
      rintro rfl
      omega
    rw [positional, if_pos hlevel, ← numeral_mul_power hne, hvalue]

theorem decimal_ofInt {n : Int} (hn : IsExact n) :
    (ofInt n).decimal = intNumeral n := by
  rw [ofInt_eq hn, decimal_finite, unitsText_of_integer hn, intNumeral]
  by_cases hneg : n < 0
  · rw [decide_eq_true hneg, if_pos rfl, if_pos hneg]
    rfl
  · rw [decide_eq_false hneg, if_neg Bool.false_ne_true, if_neg hneg]
    rfl

/-- Small integers are written with the digits that they would have been
written with anyway, but for the sign of a zero. -/
theorem text_eq_decimal {x : Double} (hx : x ≠ zero.neg) :
    x.text = x.decimal := by
  cases x with
  | nan => rfl
  | infinite neg => rfl
  | finite neg units bound =>
      simp only [text]
      split
      next hsmall =>
        obtain ⟨hwhole, hlt⟩ := hsmall
        have hunits : units / unitsPerOne * unitsPerOne = units :=
          Nat.div_mul_cancel (Nat.dvd_of_mod_eq_zero hwhole)
        have hlimit : power 10 15 ≤ power 2 53 := by decide
        have hk : units / unitsPerOne ≤ power 2 53 :=
          Nat.le_trans (Nat.le_of_lt
            ((Nat.div_lt_iff_lt_mul unitsPerOne_pos).2 hlt)) hlimit
        have htext := unitsText_of_integer hk
        rw [hunits] at htext
        rw [decimal_finite, htext, intNumeral]
        cases neg with
        | false =>
            have hnonneg : ¬ signedUnits false (units / unitsPerOne) < 0 :=
              Int.not_lt.2 (Int.natCast_nonneg _)
            rw [if_neg hnonneg]
            rfl
        | true =>
            have hpos : 0 < units / unitsPerOne := by
              apply Nat.pos_of_ne_zero
              intro hzero
              rw [hzero, Nat.zero_mul] at hunits
              subst hunits
              exact hx rfl
            have hneg : signedUnits true (units / unitsPerOne) < 0 :=
              Int.neg_neg_of_pos (Int.natCast_pos.2 hpos)
            have habs : (signedUnits true (units / unitsPerOne)).natAbs
                = units / unitsPerOne :=
              (Int.natAbs_neg _).trans (Int.natAbs_natCast _)
            rw [if_pos hneg, habs]
            rfl
      next => rfl

/-- The sign of a zero is not written. -/
theorem text_neg_zero : zero.neg.text = zero.text := by
  have hunits : 0 % unitsPerOne = 0 ∧ 0 < power 10 15 * unitsPerOne :=
    ⟨Nat.zero_mod _, Nat.mul_pos (by decide) unitsPerOne_pos⟩
  simp only [zero, neg, text, if_pos hunits, Nat.zero_div]
  rfl

theorem ofInt_ne_neg_zero {n : Int} (hn : IsExact n) : ofInt n ≠ zero.neg := by
  rw [ofInt_eq hn]
  intro heq
  injection heq with hsign hunits
  have hneg : n < 0 := of_decide_eq_true hsign
  have hpos : 0 < n.natAbs * unitsPerOne :=
    Nat.mul_pos (by omega) unitsPerOne_pos
  omega

/-- An integer of at most 53 bits is written as its numeral, up to the
bound for small integers and beyond it. -/
theorem text_ofInt {n : Int} (hn : IsExact n) :
    (ofInt n).text = intNumeral n := by
  rw [text_eq_decimal (ofInt_ne_neg_zero hn), decimal_ofInt hn]

theorem text_ofNat (hn : n ≤ power 2 53) : (ofNat n).text = numeral n := by
  have hnonneg : ¬ (n : Int) < 0 := by omega
  rw [ofNat, text_ofInt (isExact_natCast.2 hn), intNumeral, if_neg hnonneg,
    Int.natAbs_natCast]

-- ============================================================== reading

/-- The text of a finite double is read as the double, or as one that is
equal to it but for the sign of a zero. -/
theorem read?_text (neg : Bool) {units : Nat} (bound : Representable units) :
    Literal.IsNumeral (text (.finite neg units bound))
      ∧ Literal.read? (text (.finite neg units bound))
        = some (.value (.number
            (if .finite neg units bound = zero.neg then zero
              else .finite neg units bound))) := by
  have hdecimal : ∀ (neg : Bool) {units : Nat} (bound : Representable units),
      Literal.IsNumeral (decimal (.finite neg units bound))
        ∧ Literal.read? (decimal (.finite neg units bound))
          = some (.value (.number (.finite neg units bound))) := by
    intro neg units bound
    obtain ⟨written, hvalid, htext, hnearest⟩ :=
      exists_numeral_decimal neg bound
    exact ⟨⟨written, hvalid, htext⟩,
      Literal.read?_of_number?
        (Literal.number?_eq_some_iff.2 ⟨written, hvalid, htext, hnearest⟩)⟩
  by_cases hx : finite neg units bound = zero.neg
  · have hzero : zero ≠ zero.neg := by
      intro heq
      injection heq with hsign
      cases hsign
    rw [if_pos hx, hx, text_neg_zero, text_eq_decimal hzero]
    exact hdecimal false representable_zero
  · rw [if_neg hx, text_eq_decimal hx]
    exact hdecimal neg bound

end Double

namespace Interpreter

open Double (Representable zero positional IsShortest)

variable {η : Type} [Host η] {interpreter : Interpreter}

/-- A script that assigns an operand and puts it out. -/
def echoing (operand : Text) : List Text :=
  ["set a, ".toList ++ operand, "echo a".toList]

/-- What it puts out is the value that the operand stands for. -/
theorem runsTo_echoing (built : interpreter.BuiltFor {}) {operand : Text}
    (hinert : Literal.Inert operand) {value : Value}
    (hread : Literal.read? operand = some (.value value)) (host : η) :
    ∃ after, interpreter.RunsTo (Text.unlines (echoing operand)) host after
      (.ok ()) host
      ∧ after.output = interpreter.output ++ [value.display] := by
  have hname : Text.isIdentifier "a".toList = true := by decide
  have hneutral : Line.Neutral ("set a, ".toList ++ operand) :=
    neutral_plainAssignment hname hinert
  have hecho : '\r' ∉ "echo a".toList ∧ '\n' ∉ "echo a".toList := by decide
  have hplain : ∀ line ∈ echoing operand, '\r' ∉ line ∧ '\n' ∉ line := by
    simp only [echoing, List.forall_mem_cons]
    exact ⟨⟨hneutral.noReturn, hneutral.noFeed⟩, hecho,
      fun _ h => absurd h List.not_mem_nil⟩
  have hreading : interpreter.reading (Text.unlines (echoing operand))
      = ⟨.empty, interpreter.state.own,
        .ok (echoing operand).toArray.toList⟩ := by
    have hne : echoing operand ≠ [] := List.cons_ne_nil _ _
    rw [reading_unlines built hne hplain, echoing, Engine.readFrom_cons,
      readLine_of_neutral hneutral rfl]
    rfl
  have hset : interpreter.engine.CallAt (echoing operand).toArray .assign
      ⟨0, "set a, ".toList ++ operand, "set".toList, ["a".toList, operand]⟩ :=
    Engine.callAt_plainAssignment built.isScript hname hinert rfl
  have hshow : interpreter.engine.CallAt (echoing operand).toArray .echo
      ⟨1, "echo a".toList, "echo".toList, ["a".toList]⟩ :=
    ⟨rfl, rfl, built.isScript.decode_eq _, rfl⟩
  have hset' : interpreter.engine.Leads _ (interpreter.starting .empty 2) host
      .empty 0 _ 1 :=
    hset.assign _ host hread
  have hshow' := hshow.shows (interpreter.starting .empty 2) host
    (Table.get?_insert_self .empty "a".toList value)
  have hreaches := Relation.ReflTransGen.trans hset' hshow'
  have hend : (echoing operand).toArray[2]? = none := rfl
  refine ⟨_,
    runsTo_of_reaches hreading hreaches (Engine.stops_of_end hend), ?_⟩
  exact Output.lines_emit _ _

/-- Numbers survive being written and read again.

- The text of a finite double is a numeral. It is read as the same double,
  a negative zero as the positive one. Every number but that is written
  positionally with its shortest digits, small integers too.
- Of the integers of at most 53 bits the numerals themselves survive: one
  that is assigned and put out is put out as it was written. -/
theorem number_texts_read_back (built : interpreter.BuiltFor {}) (host : η) :
    (∀ neg units, ∀ bound : Representable units,
      Literal.IsNumeral (Double.finite neg units bound).text
        ∧ (Double.finite neg units bound ≠ zero.neg →
            Literal.read? (Double.finite neg units bound).text
                = some (.value (.number (.finite neg units bound)))
              ∧ (Double.finite neg units bound).text
                = (Double.finite neg units bound).decimal)
        ∧ (0 < units → ∃ digits exponent, IsShortest units digits exponent
            ∧ (Double.finite neg units bound).decimal
              = (if neg then ['-'] else []) ++ positional digits exponent))
      ∧ Literal.read? zero.neg.text = some (.value (.number zero))
      ∧ ∀ n : Int, n.natAbs ≤ power 2 53 →
          ∃ after, interpreter.RunsTo
              (Text.unlines ["set a, ".toList ++ intNumeral n,
                "echo a".toList]) host after (.ok ())
              host
            ∧ after.output = interpreter.output ++ [intNumeral n] := by
  refine ⟨fun neg units bound =>
    ⟨(Double.read?_text neg bound).1, fun hx => ?_, fun hpos => ?_⟩,
    ?_, fun n hn => ?_⟩
  · have hread := (Double.read?_text neg bound).2
    rw [if_neg hx] at hread
    exact ⟨hread, Double.text_eq_decimal hx⟩
  · refine ⟨_, _, Double.isShortest_shortest bound.1 hpos, ?_⟩
    rw [Double.decimal_finite, Double.unitsText_of_pos hpos]
  · have hzero : Double.finite true 0 Double.representable_zero = zero.neg :=
      rfl
    have hread := (Double.read?_text true Double.representable_zero).2
    rwa [if_pos hzero] at hread
  · have htext := Double.text_ofInt hn
    obtain ⟨hnumeral, hread⟩ :=
      Double.read?_text (n < 0) (Double.representable_of_isExact hn)
    rw [← Double.ofInt_eq hn, htext] at hnumeral
    rw [← Double.ofInt_eq hn, htext,
      if_neg (Double.ofInt_ne_neg_zero hn)] at hread
    obtain ⟨after, hrun, houtput⟩ :=
      runsTo_echoing built hnumeral.inert hread host
    refine ⟨after, hrun, ?_⟩
    rw [houtput, Value.display, htext]

/-- For instance, the least positive double and the least of the
integers. -/
theorem number_texts_read_back_of_least :
    (∃ bound : Representable 1,
        Literal.read? (Double.finite false 1 bound).text
          = some (.value (.number (.finite false 1 bound))))
      ∧ ∃ after, standard.RunsTo
          (Text.unlines
            (["set a, -9007199254740992", "echo a"].map String.toList))
          (⟨.empty⟩ : MemoryHost) after (.ok ()) ⟨.empty⟩
        ∧ after.output = ["-9007199254740992".toList] := by
  have hgreater : ∀ n, 0 < n → 1 < power 2 n :=
    fun n hn => Nat.one_lt_two_pow (Nat.ne_of_gt hn)
  have hbound : Representable 1 :=
    ⟨⟨1, 0, by decide, rfl⟩, hgreater 2098 (by decide)⟩
  have hne : Double.finite false 1 hbound ≠ zero.neg := by
    intro heq
    injection heq with hsign
    cases hsign
  have hnumeral : intNumeral (-9007199254740992)
      = "-9007199254740992".toList := by
    simp [intNumeral, numeral, digitChar]
  have hn : (-9007199254740992 : Int).natAbs ≤ power 2 53 := by decide
  obtain ⟨hfinite, -, hintegers⟩ :=
    number_texts_read_back builtFor_standard (⟨.empty⟩ : MemoryHost)
  obtain ⟨after, hrun, houtput⟩ := hintegers (-9007199254740992) hn
  rw [hnumeral] at hrun houtput
  exact ⟨⟨hbound, ((hfinite false 1 hbound).2.1 hne).1⟩, after, hrun, houtput⟩

end Interpreter

end LineScript
