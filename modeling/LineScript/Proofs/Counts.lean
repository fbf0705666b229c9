/-
Counts: natural numbers as scripts write them and hold them.

A count is written as its decimal numeral, which an assignment reads as
the double of that number, whatever its size. What commands do to counts
is integer arithmetic as long as 53 bits suffice.
-/
import LineScript.Proofs.OperandForms

set_option autoImplicit false

namespace LineScript

-- ============================================================ numerals

theorem isDigit_digitChar {d : Nat} (h : d < 10) :
    (digitChar d).isDigit = true := by
  have hle : 48 + d ≤ 57 := by omega
  rw [Char.isDigit_iff_toNat, digitChar_toNat h]
  exact ⟨Nat.le_add_right 48 d, hle⟩

theorem isDigit_of_mem_numeral {n : Nat} {c : Char} (h : c ∈ numeral n) :
    c.isDigit = true := by
  fun_induction numeral n with
  | case1 n hsmall =>
      rw [List.mem_singleton] at h
      rw [h]
      exact isDigit_digitChar hsmall
  | case2 n hlarge ih =>
      rcases List.mem_append.1 h with hfront | hlast
      · exact ih hfront
      · rw [List.mem_singleton] at hlast
        rw [hlast]
        exact isDigit_digitChar (Nat.mod_lt _ (by decide))

namespace Text

theorem isBlank_of_isDigit {c : Char} (h : c.isDigit = true) :
    isBlank c = false := by
  cases hblank : isBlank c with
  | false => rfl
  | true =>
      have hname : isNameChar c = false := isNameChar_of_isBlank hblank
      rw [isNameChar, h, Bool.or_true] at hname
      cases hname

/-- There is nothing to trim where there is no white space. -/
theorem trimStart_of_not_blank {text : Text}
    (h : ∀ c ∈ text, isBlank c = false) :
    trimStart text = text := by
  cases text with
  | nil => rfl
  | cons c rest =>
      exact trimStart_cons_of_not_blank (h c List.mem_cons_self) rest

theorem trimEnd_of_not_blank {text : Text}
    (h : ∀ c ∈ text, isBlank c = false) :
    trimEnd text = text := by
  induction text with
  | nil => rfl
  | cons c rest ih =>
      have hrest := ih fun d hd => h d (List.mem_cons_of_mem c hd)
      cases rest with
      | nil =>
          rw [trimEnd_cons_of_nil rfl, h c List.mem_cons_self,
            if_neg Bool.false_ne_true]
      | cons d rest =>
          rw [trimEnd_cons_of_ne_nil
            (by rw [hrest]; exact List.cons_ne_nil d rest),
          hrest]

end Text

namespace Literal

/-- What is in a numeral with its sign and its point. -/
theorem IsNumeral.char {text : Text} (h : IsNumeral text) {c : Char}
    (hc : c ∈ text) :
    c.isDigit = true ∨ c = '-' ∨ c = '.' := by
  obtain ⟨⟨neg, whole, fraction⟩, ⟨⟨-, hwhole⟩, hfraction⟩, rfl⟩ := h
  unfold Numeral.text at hc
  rcases List.mem_append.1 hc with hc | hc
  · rcases List.mem_append.1 hc with hc | hc
    · cases neg with
      | true => exact .inr (.inl (List.mem_singleton.1 hc))
      | false => cases hc
    · exact .inl (hwhole c hc)
  · cases fraction with
    | none => cases hc
    | some digits =>
        rcases List.mem_cons.1 hc with rfl | hc
        · exact .inr (.inr rfl)
        · exact .inl ((hfraction digits rfl).2 c hc)

/-- A numeral is an operand as it stands. -/
theorem IsNumeral.inert {text : Text} (h : IsNumeral text) : Inert text := by
  have hapart : ∀ c ∈ text, ∀ d : Char, d.isDigit = false → d ≠ '-' →
      d ≠ '.' → c ≠ d := by
    rintro c hc d hdigit hminus hpoint rfl
    rcases h.char hc with hd | hd | hd
    · rw [hd] at hdigit
      cases hdigit
    · exact hminus hd
    · exact hpoint hd
  have hblank : ∀ c ∈ text, isBlank c = false := by
    intro c hc
    rcases h.char hc with hd | rfl | rfl
    · exact Text.isBlank_of_isDigit hd
    · decide
    · decide
  have hplain : text.all Line.isPlain = true := by
    refine List.all_eq_true.2 fun c hc => ?_
    simp [Line.isPlain, hapart c hc]
  obtain ⟨c, rest, hhead, -⟩ := h.head
  exact ⟨.of_plain hplain, hhead ▸ List.cons_ne_nil c rest,
    Text.trimStart_of_not_blank hblank, Text.trimEnd_of_not_blank hblank⟩

theorem valid_numeral (neg : Bool) (n : Nat) :
    Numeral.Valid ⟨neg, numeral n, none⟩ :=
  ⟨⟨numeral_ne_nil n, fun _ => isDigit_of_mem_numeral⟩, fun _ h => by cases h⟩

theorem text_numeral (n : Nat) :
    Numeral.text ⟨false, numeral n, none⟩ = numeral n := by
  simp [Numeral.text]

theorem inert_numeral (n : Nat) : Inert (numeral n) :=
  IsNumeral.inert ⟨_, valid_numeral false n, (text_numeral n).symm⟩

/-- The numeral of a number is read as the double of that number. -/
theorem read?_numeral (n : Nat) :
    read? (numeral n) = some (.value (.number (.ofNat n))) := by
  have hnearest : Numeral.IsNearest ⟨false, numeral n, none⟩ (.ofNat n) := by
    have hsign : decide ((n : Int) < 0) = false := decide_eq_false (by omega)
    rw [Numeral.isNearest_iff, Double.ofNat, Double.ofInt, hsign]
    simp only [Option.getD_none, List.append_nil, ofNumeral_numeral,
      Int.natAbs_natCast]
    rfl
  exact read?_of_number?
    (number?_eq_some_iff.2
      ⟨_, valid_numeral false n, (text_numeral n).symm, hnearest⟩)

theorem read?_zero :
    read? "0".toList = some (.value (.number (.ofNat 0))) := by
  have hread := read?_numeral 0
  rw [numeral] at hread
  exact hread

end Literal

-- ========================================================== operations

namespace Double

theorem isExact_natCast {n : Nat} : IsExact n ↔ n ≤ power 2 53 := by
  rw [IsExact, Int.natAbs_natCast]

theorem ofNat_zero : ofNat 0 = zero := by
  have hsign : decide (((0 : Nat) : Int) < 0) = false := rfl
  have hunits : ((0 : Nat) : Int).natAbs * unitsPerOne = 0 := by
    rw [Int.natAbs_natCast, Nat.zero_mul]
  rw [ofNat, ofInt_eq (isExact_natCast.2 (Nat.zero_le _))]
  simp only [hsign, hunits]
  rfl

theorem truncate?_ofNat {n : Nat} (h : n ≤ power 2 53) :
    (ofNat n).truncate? = some (n : Int) := by
  rw [ofNat, truncate?_ofInt (isExact_natCast.2 h)]

theorem same_ofNat {a b : Nat} (ha : a ≤ power 2 53) (hb : b ≤ power 2 53) :
    (ofNat a).same (ofNat b) = decide (a = b) := by
  rw [ofNat, ofNat, same_ofInt (isExact_natCast.2 ha) (isExact_natCast.2 hb),
    decide_eq_decide]
  exact Int.ofNat_inj

theorem add_ofNat {a b : Nat} (h : a + b ≤ power 2 53) :
    (ofNat a).add (ofNat b) = ofNat (a + b) := by
  have ha : IsExact a :=
    isExact_natCast.2 (Nat.le_trans (Nat.le_add_right a b) h)
  have hb : IsExact b :=
    isExact_natCast.2 (Nat.le_trans (Nat.le_add_left b a) h)
  have hsum : IsExact (a + b) := by
    rw [← Int.natCast_add]
    exact isExact_natCast.2 h
  rw [ofNat, ofNat, ofNat, add_ofInt ha hb hsum, Int.natCast_add]

theorem lt_ofNat {a b : Nat} (ha : a ≤ power 2 53) (hb : b ≤ power 2 53) :
    (ofNat a).lt (ofNat b) = decide (a < b) := by
  rw [ofNat, ofNat, lt_ofInt (isExact_natCast.2 ha) (isExact_natCast.2 hb),
    decide_eq_decide]
  exact Int.ofNat_lt

theorem sub_one_ofNat {n : Nat} (h : n < power 2 53) :
    (ofNat (n + 1)).sub .one = ofNat n := by
  have hdiff : ((n + 1 : Nat) : Int) - (1 : Nat) = n := by omega
  have hexact : IsExact (((n + 1 : Nat) : Int) - (1 : Nat)) := by
    rw [hdiff]
    exact isExact_natCast.2 (Nat.le_of_lt h)
  rw [one, ofNat, ofNat, ofNat,
    sub_ofInt (isExact_natCast.2 h) (isExact_natCast.2 (by decide)) hexact,
    hdiff]

theorem toByte?_ofNat {n : Nat} (h : n ≤ power 2 53) :
    (ofNat n).toByte? = if n ≤ 255 then some n else none := by
  rw [ofNat, toByte?_ofInt (isExact_natCast.2 h)]

/-- A small integer is its own 64-bit integer. -/
theorem clampInt64_of_isExact {n : Int} (h : IsExact n) :
    clampInt64 n = n := by
  have hsmall : power 2 53 < power 2 63 := by decide
  unfold IsExact at h
  unfold clampInt64
  omega

end Double

/-- The exclusive or of two small numbers is the one of their binary
digits. -/
theorem Bitwise.apply_xor {a b : Nat} (ha : a < power 2 63)
    (hb : b < power 2 63) :
    Bitwise.xor.apply a b = (a ^^^ b : Nat) := by
  have hsmall : a ^^^ b < 2 ^ 63 := Nat.xor_lt_two_pow ha hb
  have hdigits : BitVec.ofInt 64 a ^^^ BitVec.ofInt 64 b
      = BitVec.ofNat 64 (a ^^^ b) := by
    apply BitVec.eq_of_toNat_eq
    simp
  have hnat : (BitVec.ofNat 64 (a ^^^ b)).toNat = a ^^^ b := by
    rw [BitVec.toNat_ofNat]
    exact Nat.mod_eq_of_lt (by omega)
  simp only [apply, hdigits]
  rw [BitVec.toInt_eq_toNat_of_lt (by omega), hnat]

end LineScript
