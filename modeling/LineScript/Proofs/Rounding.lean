/-
Rounding is to the nearest, and integers are exact.

A double is a sign and a count of units, and one function rounds
(`Double.ofQuotient`). What it has to do is said without it: of all
counts with 53 significant bits none is nearer to the quotient, and of
two that are equally near it is the even one (`Double.IsNearestCount`).
Only one count is so, hence rounding is known by this law alone
(`isNearest_iff`), and whatever is exact needs no computation: a count
that hits the quotient is the nearest.

That settles the integers of at most 53 bits. They are doubles
(`ofInt_eq`), and truncation, comparison, sums and bytes of them are what
they are for integers.
-/
import LineScript.Double.Arithmetic
import Mathlib.Tactic.Common

set_option autoImplicit false

namespace LineScript

namespace Double

-- ============================================================== the law

/-- A count of units with at most 53 significant bits, of any size. -/
def Significant (units : Nat) : Prop :=
  ∃ m e, m < power 2 53 ∧ units = m * power 2 e

/-- How far a count of units is from `num / den`, in parts of a unit of
which there are `den`. -/
def distance (num den units : Nat) : Nat := ((units * den : Int) - num).natAbs

/-- The count of units that rounding asks for: there is no nearer one,
and of two nearest ones it is the multiple of twice their difference,
which means that its last bit is zero. -/
structure IsNearestCount (num den units : Nat) : Prop where
  significant : Significant units
  nearest : ∀ other, Significant other →
    distance num den units ≤ distance num den other
  even : ∀ other, Significant other → other ≠ units →
    distance num den other = distance num den units →
    2 * ((other : Int) - units).natAbs ∣ units

/-- The double with some sign that is nearest to `num / den` units. -/
inductive IsNearest (neg : Bool) (num den : Nat) : Double → Prop
  | finite {units : Nat} (h : IsNearestCount num den units)
      (bound : Representable units) :
      IsNearest neg num den (.finite neg units bound)
  | infinite {units : Nat} (h : IsNearestCount num den units)
      (bound : overflowUnits ≤ units) :
      IsNearest neg num den (.infinite neg)

/-- There is one nearest count: two would differ by a multiple of twice
their difference. -/
theorem IsNearestCount.unique {num den a b : Nat}
    (ha : IsNearestCount num den a) (hb : IsNearestCount num den b) :
    a = b := by
  by_contra hne
  have hdistance : distance num den a = distance num den b :=
    Nat.le_antisymm (ha.nearest b hb.significant) (hb.nearest a ha.significant)
  have hdiva := ha.even b hb.significant (Ne.symm hne) hdistance.symm
  have hdivb := hb.even a ha.significant hne hdistance
  have hswap : ((b : Int) - a).natAbs = ((a : Int) - b).natAbs := by omega
  rw [hswap] at hdiva
  have hdiff : 2 * ((a : Int) - b).natAbs ∣ ((a : Int) - b).natAbs := by
    exact Int.natAbs_dvd_natAbs.2
      (Int.dvd_sub (Int.natCast_dvd_natCast.2 hdiva)
        (Int.natCast_dvd_natCast.2 hdivb))
  have hle := Nat.le_of_dvd (by omega) hdiff
  omega

-- ============================================================= the proof

theorem spacing_pos (units : Nat) : 0 < spacing units := Nat.two_pow_pos _

/-- Between counts as large as `units` the significant ones are multiples
of the spacing there. -/
theorem spacing_dvd {units other : Nat} (hother : Significant other)
    (hle : power 2 52 * spacing units ≤ other) : spacing units ∣ other := by
  obtain ⟨m, e, hm, rfl⟩ := hother
  unfold spacing at hle ⊢
  generalize units.log2 - 52 = k at hle ⊢
  have hke : k ≤ e := by
    by_contra hlt
    -- otherwise there are too few bits
    have hmono : power 2 (e + 1) ≤ power 2 k :=
      Nat.pow_le_pow_right (by decide) (by omega)
    have hdouble : power 2 (e + 1) = power 2 e * 2 := Nat.pow_add 2 e 1
    have hhalf : power 2 53 = 2 * power 2 52 := rfl
    have hpos : 0 < power 2 e := Nat.two_pow_pos e
    have hlarge : power 2 52 * (power 2 e * 2) ≤ m * power 2 e :=
      Nat.le_trans (Nat.mul_le_mul_left _ (hdouble ▸ hmono)) hle
    have hsmall : m * power 2 e < power 2 53 * power 2 e :=
      Nat.mul_lt_mul_of_pos_right hm hpos
    rw [hhalf] at hsmall
    have hsame : power 2 52 * (power 2 e * 2)
        = 2 * power 2 52 * power 2 e := by
      rw [Nat.mul_comm (power 2 e) 2, ← Nat.mul_assoc,
        Nat.mul_comm (power 2 52) 2]
    omega
  obtain ⟨d, rfl⟩ := Nat.exists_eq_add_of_le hke
  have hadd : power 2 (k + d) = power 2 k * power 2 d := Nat.pow_add 2 k d
  exact ⟨m * power 2 d, by rw [hadd, Nat.mul_left_comm]⟩

/-- Either the spacing is one unit, or the count fills 53 bits at it. -/
theorem spacing_fills (units : Nat) :
    spacing units = 1 ∨ power 2 52 * spacing units ≤ units := by
  unfold spacing
  by_cases hsmall : units.log2 ≤ 52
  · left
    rw [Nat.sub_eq_zero_of_le hsmall]
    rfl
  · right
    have hne : units ≠ 0 := by
      rintro rfl
      exact hsmall (by decide)
    have hadd : power 2 (52 + (units.log2 - 52))
        = power 2 52 * power 2 (units.log2 - 52) :=
      Nat.pow_add 2 52 (units.log2 - 52)
    rw [← hadd, Nat.add_sub_cancel' (by omega)]
    exact Nat.log2_self_le hne

/-- A quotient lies between two multiples of the spacing, and no
significant count lies between these two. -/
theorem significant_outside {num den t r other : Nat} (hden : 0 < den)
    (hnum : num = t * (den * spacing (num / den)) + r)
    (hr : r < den * spacing (num / den)) (hother : Significant other) :
    other * den ≤ t * (den * spacing (num / den))
      ∨ (t + 1) * (den * spacing (num / den)) ≤ other * den := by
  have hfills := spacing_fills (num / den)
  have hdvd : power 2 52 * spacing (num / den) ≤ other →
      spacing (num / den) ∣ other :=
    spacing_dvd hother
  have hdiv : (num / den) * den ≤ num := Nat.div_mul_le_self num den
  generalize spacing (num / den) = s at *
  by_cases hmultiple : s ∣ other
  · obtain ⟨j, rfl⟩ := hmultiple
    have hshape : s * j * den = j * (den * s) := by
      rw [Nat.mul_comm (s * j), ← Nat.mul_assoc, Nat.mul_comm]
    rw [hshape]
    rcases Nat.lt_or_ge t j with hlt | hge
    · exact .inr (Nat.mul_le_mul_right _ hlt)
    · exact .inl (Nat.mul_le_mul_right _ hge)
  · -- a count that is no multiple is below the power of two under the quotient
    have hlarge : power 2 52 * s ≤ num / den :=
      hfills.resolve_left fun hone => hmultiple (hone ▸ Nat.one_dvd other)
    have hsmall : other < power 2 52 * s :=
      Nat.lt_of_not_le fun hle => hmultiple (hdvd hle)
    have ht : power 2 52 ≤ t := by
      by_contra hlt
      have hstep : (t + 1) * (den * s) ≤ power 2 52 * (den * s) :=
        Nat.mul_le_mul_right _ (Nat.lt_of_not_le hlt)
      have hbelow : power 2 52 * s * den ≤ num :=
        Nat.le_trans (Nat.mul_le_mul_right den hlarge) hdiv
      have hshape : power 2 52 * s * den = power 2 52 * (den * s) := by
        rw [Nat.mul_assoc, Nat.mul_comm s den]
      rw [Nat.add_mul, Nat.one_mul] at hstep
      omega
    have hle : power 2 52 * (den * s) ≤ t * (den * s) :=
      Nat.mul_le_mul_right _ ht
    have hshape : power 2 52 * s * den = power 2 52 * (den * s) := by
      rw [Nat.mul_assoc, Nat.mul_comm s den]
    have hlt : other * den < power 2 52 * s * den :=
      Nat.mul_lt_mul_of_pos_right hsmall hden
    exact .inl (by omega)

/-- Rounding gives the nearest count. -/
theorem isNearestCount_nearestUnits (num : Nat) {den : Nat} (hden : 0 < den) :
    IsNearestCount num den (nearestUnits num den) := by
  have hD : 0 < den * spacing (num / den) :=
    Nat.mul_pos hden (spacing_pos (num / den))
  have hr : num % (den * spacing (num / den)) < den * spacing (num / den) :=
    Nat.mod_lt _ hD
  have hnum := (Nat.div_add_mod' num (den * spacing (num / den))).symm
  have houtside := fun other (hother : Significant other) =>
    significant_outside hden hnum hr hother
  have hunits : ∀ k,
      k * spacing (num / den) * den = k * (den * spacing (num / den)) := by
    intro k
    rw [Nat.mul_assoc, Nat.mul_comm den]
  -- a count on one of the two multiples is that multiple
  have hcancel : ∀ other k, other * den = k * (den * spacing (num / den)) →
      other = k * spacing (num / den) := by
    intro other k heq
    exact Nat.eq_of_mul_eq_mul_right hden (heq.trans (hunits k).symm)
  refine ⟨nearestUnits_significant num den, ?_, ?_⟩
  all_goals
    unfold nearestUnits roundHalfEven
    generalize num / (den * spacing (num / den)) = t at *
    generalize num % (den * spacing (num / den)) = r at *
    generalize den * spacing (num / den) = D at *
    have hnext : (t + 1) * D = t * D + D := by rw [Nat.add_mul, Nat.one_mul]
  · intro other hother
    have hside := houtside other hother
    unfold distance
    split
    next hup =>
      have hhere := hunits (t + 1)
      omega
    next hdown =>
      have hhere := hunits t
      omega
  · intro other hother hne hsame
    have hside := houtside other hother
    have hlower := hcancel other t
    have hupper := hcancel other (t + 1)
    have hgap : (t + 1) * spacing (num / den)
        = t * spacing (num / den) + spacing (num / den) := by
      rw [Nat.add_mul, Nat.one_mul]
    unfold distance at hsame
    split at hsame
    next hup =>
      -- the other one is the lower multiple, so there is a tie and `t` is odd
      have hhere := hunits (t + 1)
      rw [if_pos hup] at hne ⊢
      obtain rfl : other = t * spacing (num / den) := by
        by_contra hnot
        omega
      have htie : 2 * r = D ∧ t % 2 = 1 := by
        have hthere := hunits t
        omega
      have habs : (((t * spacing (num / den) : Nat) : Int)
          - ((t + 1) * spacing (num / den) : Nat)).natAbs
            = spacing (num / den) := by omega
      rw [habs]
      exact Nat.mul_dvd_mul_right (Nat.dvd_of_mod_eq_zero (by omega)) _
    next hdown =>
      have hhere := hunits t
      rw [if_neg hdown] at hne ⊢
      obtain rfl : other = (t + 1) * spacing (num / den) := by
        by_contra hnot
        omega
      have htie : t % 2 = 0 := by
        have hthere := hunits (t + 1)
        omega
      have habs : ((((t + 1) * spacing (num / den) : Nat) : Int)
          - (t * spacing (num / den) : Nat)).natAbs = spacing (num / den) := by
        omega
      rw [habs]
      exact Nat.mul_dvd_mul_right (Nat.dvd_of_mod_eq_zero htie) _

/-- Rounding is known by its law: a double is the nearest one exactly
when it is the one that rounding gives. -/
theorem isNearest_iff {neg : Bool} {num den : Nat} (hden : 0 < den)
    {x : Double} :
    IsNearest neg num den x ↔ x = ofQuotient neg num den := by
  have hnearest := isNearestCount_nearestUnits num hden
  constructor
  · intro h
    unfold ofQuotient
    cases h with
    | finite h bound =>
        obtain rfl := h.unique hnearest
        rw [dif_pos bound.2]
    | infinite h bound =>
        obtain rfl := h.unique hnearest
        have hnot := Nat.not_lt.2 bound
        rw [dif_neg hnot]
  · intro h
    rw [h]
    unfold ofQuotient
    split
    next hbound => exact .finite hnearest _
    next hbound => exact .infinite hnearest (Nat.not_lt.1 hbound)

/-- A count that hits the quotient is the nearest one. -/
theorem isNearestCount_of_eq {num den units : Nat} (hden : 0 < den)
    (hunits : Significant units) (heq : num = units * den) :
    IsNearestCount num den units := by
  have hzero : distance num den units = 0 := by
    unfold distance
    omega
  refine ⟨hunits, fun other _ => hzero ▸ Nat.zero_le _,
    fun other _ hne hsame => ?_⟩
  refine absurd (Nat.eq_of_mul_eq_mul_right hden ?_) hne
  rw [hzero] at hsame
  unfold distance at hsame
  omega

/-- Of one quotient in two forms the same count is the nearest. -/
theorem IsNearestCount.of_eq {num den num' den' units : Nat}
    (h : IsNearestCount num den units) (hden : 0 < den) (hden' : 0 < den')
    (heq : num * den' = num' * den) :
    IsNearestCount num' den' units := by
  have hscale : ∀ other,
      distance num den other * den' = distance num' den' other * den := by
    intro other
    have hcast : (num : Int) * den' = num' * den := by
      rw [← Int.natCast_mul, ← Int.natCast_mul, heq]
    have hinner : ((other : Int) * den - num) * den'
        = (other * den' - num') * den := by
      rw [Int.sub_mul, Int.sub_mul, hcast, Int.mul_right_comm]
    have habs := congrArg Int.natAbs hinner
    rwa [Int.natAbs_mul, Int.natAbs_mul, Int.natAbs_natCast,
      Int.natAbs_natCast] at habs
  refine ⟨h.significant, fun other hother => ?_,
    fun other hother hne hsame => ?_⟩
  · have hle := Nat.mul_le_mul_right den' (h.nearest other hother)
    rw [hscale, hscale] at hle
    exact Nat.le_of_mul_le_mul_right hle hden
  · refine h.even other hother hne (Nat.eq_of_mul_eq_mul_right hden' ?_)
    rw [hscale, hscale, hsame]

/-- Rounding keeps what is exact. -/
theorem ofQuotient_of_eq {neg : Bool} {num den units : Nat} (hden : 0 < den)
    (bound : Representable units) (heq : num = units * den) :
    ofQuotient neg num den = .finite neg units bound :=
  ((isNearest_iff hden).1
    (.finite (isNearestCount_of_eq hden bound.1 heq) bound)).symm

-- ============================================================= integers

/-- The integers that are doubles with all their neighbours. -/
def IsExact (n : Int) : Prop := n.natAbs ≤ power 2 53

instance (n : Int) : Decidable (IsExact n) :=
  inferInstanceAs (Decidable (_ ≤ _))

theorem unitsPerOne_pos : 0 < unitsPerOne := by
  have hpos : ∀ n, 0 < power 2 n := Nat.two_pow_pos
  exact hpos 1074

theorem representable_of_isExact {n : Int} (h : IsExact n) :
    Representable (n.natAbs * unitsPerOne) := by
  unfold IsExact at h
  have hunit : unitsPerOne = power 2 1074 := rfl
  have hadd : ∀ m n, power 2 (m + n) = power 2 m * power 2 n := Nat.pow_add 2
  constructor
  · rcases Nat.lt_or_eq_of_le h with hlt | heq
    · refine ⟨n.natAbs, 1074, hlt, ?_⟩
      rw [hunit]
    · refine ⟨1, 53 + 1074, by decide, ?_⟩
      rw [heq, hunit, ← hadd, Nat.one_mul]
  · have hle : n.natAbs * unitsPerOne ≤ power 2 (53 + 1074) := by
      rw [hadd, ← hunit]
      exact Nat.mul_le_mul_right _ h
    have hlt : power 2 (53 + 1074) < power 2 2098 := by
      have hmono : ∀ m n, m < n → power 2 m < power 2 n :=
        fun m n => Nat.pow_lt_pow_right (by decide)
      exact hmono _ _ (by decide)
    exact Nat.lt_of_le_of_lt hle hlt

/-- An exact integer is the double of its units. -/
theorem ofInt_eq {n : Int} (h : IsExact n) :
    ofInt n = .finite (n < 0) (n.natAbs * unitsPerOne)
      (representable_of_isExact h) :=
  ofQuotient_of_eq Nat.one_pos (representable_of_isExact h)
    (Nat.mul_one _).symm

theorem signedUnits_natAbs (n : Int) :
    signedUnits (n < 0) (n.natAbs * unitsPerOne) = n * unitsPerOne := by
  unfold signedUnits
  by_cases hn : n < 0
  · have habs : (n.natAbs : Int) = -n := by omega
    simp only [hn, decide_true, if_true, Int.natCast_mul, habs, Int.neg_mul,
      Int.neg_neg]
  · have habs : (n.natAbs : Int) = n := by omega
    simp only [hn, decide_false, Bool.false_eq_true, if_false,
      Int.natCast_mul, habs]

/-- Truncation keeps an exact integer. -/
theorem truncate?_ofInt {n : Int} (h : IsExact n) :
    (ofInt n).truncate? = some n := by
  rw [ofInt_eq h, truncate?, Nat.mul_div_cancel _ unitsPerOne_pos]
  unfold signedUnits
  by_cases hn : n < 0
  · simp only [hn, decide_true, if_true, Option.some.injEq]
    omega
  · simp only [hn, decide_false, Bool.false_eq_true, if_false,
      Option.some.injEq]
    omega

/-- Exact integers are the same number only if they are equal. -/
theorem same_ofInt {a b : Int} (ha : IsExact a) (hb : IsExact b) :
    (ofInt a).same (ofInt b) = decide (a = b) := by
  have hpos : (unitsPerOne : Int) ≠ 0 := by
    have := unitsPerOne_pos
    omega
  rw [ofInt_eq ha, ofInt_eq hb, same, signedUnits_natAbs, signedUnits_natAbs,
    decide_eq_decide]
  exact Int.mul_eq_mul_right_iff hpos

/-- Exact integers are ordered as integers. -/
theorem lt_ofInt {a b : Int} (ha : IsExact a) (hb : IsExact b) :
    (ofInt a).lt (ofInt b) = decide (a < b) := by
  have hpos : (0 : Int) < unitsPerOne := Int.natCast_pos.2 unitsPerOne_pos
  rw [ofInt_eq ha, ofInt_eq hb, lt, signedUnits_natAbs, signedUnits_natAbs,
    decide_eq_decide]
  exact Int.mul_lt_mul_right hpos

/-- A sum of doubles that is an exact integer is that integer. A zero among
such sums is positive, unless both summands are negative. -/
theorem add_eq_ofInt {s t : Bool} {m n : Nat} (hm : Representable m)
    (hn : Representable n) {k : Int} (hk : IsExact k)
    (hsum : signedUnits s m + signedUnits t n = k * unitsPerOne)
    (hsign : k = 0 → (s && t) = false) :
    (finite s m hm).add (finite t n hn) = ofInt k := by
  have hpos : (0 : Int) < unitsPerOne := Int.natCast_pos.2 unitsPerOne_pos
  rw [ofInt_eq hk]
  simp only [add, hsum, Int.mul_eq_zero, Int.ne_of_gt hpos, or_false]
  by_cases hzero : k = 0
  · have hnonneg : decide (k < 0) = false := decide_eq_false (by omega)
    rw [if_pos hzero, hsign hzero, hnonneg]
    refine ofQuotient_of_eq Nat.one_pos _ ?_
    rw [hzero, Int.natAbs_zero, Nat.zero_mul]
  · have hsame : decide (k * (unitsPerOne : Int) < 0) = decide (k < 0) := by
      have hscale := Int.mul_lt_mul_right (b := k) (c := 0) hpos
      rw [Int.zero_mul] at hscale
      rw [decide_eq_decide]
      exact hscale
    rw [if_neg hzero, hsame]
    refine ofQuotient_of_eq Nat.one_pos _ ?_
    rw [Int.natAbs_mul, Int.natAbs_natCast, Nat.mul_one]

/-- The sum of exact integers is exact, if it is small enough. -/
theorem add_ofInt {a b : Int} (ha : IsExact a) (hb : IsExact b)
    (hsum : IsExact (a + b)) :
    (ofInt a).add (ofInt b) = ofInt (a + b) := by
  rw [ofInt_eq ha, ofInt_eq hb]
  refine add_eq_ofInt _ _ hsum ?_ fun hzero => ?_
  · rw [signedUnits_natAbs, signedUnits_natAbs, Int.add_mul]
  · -- the sum of two negative integers is no zero
    rw [← Bool.decide_and]
    exact decide_eq_false (by omega)

theorem signedUnits_not (s : Bool) (units : Nat) :
    signedUnits (!s) units = -signedUnits s units := by
  cases s with
  | false => rfl
  | true => exact (Int.neg_neg _).symm

/-- So is the difference. -/
theorem sub_ofInt {a b : Int} (ha : IsExact a) (hb : IsExact b)
    (hdiff : IsExact (a - b)) :
    (ofInt a).sub (ofInt b) = ofInt (a - b) := by
  rw [ofInt_eq ha, ofInt_eq hb, sub, neg]
  refine add_eq_ofInt _ _ hdiff ?_ fun hzero => ?_
  · rw [signedUnits_not, signedUnits_natAbs, signedUnits_natAbs, Int.sub_mul,
      Int.sub_eq_add_neg]
  · have hsame : a = b := by omega
    rw [hsame, Bool.and_not_self]

/-- The byte of an exact integer. -/
theorem toByte?_ofInt {n : Nat} (h : IsExact n) :
    (ofInt n).toByte? = if n ≤ 255 then some n else none := by
  have hpos := unitsPerOne_pos
  rw [ofInt_eq h, toByte?, signedUnits_natAbs, Int.natAbs_natCast,
    Nat.mul_div_cancel _ hpos]
  have hnonneg : ¬ (n : Int) * unitsPerOne < 0 := by
    have :=
      Int.mul_nonneg (Int.natCast_nonneg n) (Int.natCast_nonneg unitsPerOne)
    omega
  by_cases hn : n ≤ 255
  · have hle := Nat.mul_le_mul_right unitsPerOne hn
    rw [if_pos hn, if_neg (by omega)]
  · have hlt : 255 * unitsPerOne < n * unitsPerOne :=
      Nat.mul_lt_mul_of_pos_right (Nat.lt_of_not_le hn) hpos
    rw [if_neg hn, if_pos (.inr hlt)]

end Double

end LineScript
