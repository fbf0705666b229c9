/-
The digits that a double is written with are the shortest ones.

The search for them looks at an interval and at grids of multiples of a
power of ten. What it has to find is said without either
(`Double.IsShortest`): the decimal is read back as the double, no coarser
grid has a decimal that is, and of those on its own grid it is nearest to
the double. Reading is rounding, which is known by its law
(`IsNearestCount`), so the statement does not depend on how digits are
found or read.

# The interval

The decimals that are read back as a double lie between the midpoints to
its two neighbours (`holds_iff`). A midpoint itself is read as the
neighbour with the even significand, which is the double if its own
significand is even. The neighbours are known from the spacing of counts
(`significant_above`, `significant_below`). Below a power of two the
spacing is half of what it is above, and there the significand is even.

# The search

A grid has a point in the interval only if one of the two points beside
the double is in it, since an interval has no gaps (`holds_between`). So
a grid that is passed over has none, and the first one that has any has
the coarsest. No grid is forgotten at the start of the search: the
multiples of a power of ten above the value are too large
(`lt_power_start`).
-/
import LineScript.Double.Decimal
import LineScript.Proofs.Rounding

set_option autoImplicit false

namespace LineScript

namespace Double

-- ============================================================== the law

/-- A decimal of `steps` times `10 ^ level`, counted in `10 ^ -1074`ths,
is the shortest one for a double of so many units: it is read back as the
double, no decimal on a coarser grid is, and none on its own grid that is
is nearer. -/
structure IsShortest (units steps level : Nat) : Prop where
  readsBack : IsNearestCount (steps * power 10 level) fineParts units
  coarsest : ∀ other k, level < k →
    ¬ IsNearestCount (other * power 10 k) fineParts units
  nearest : ∀ other, IsNearestCount (other * power 10 level) fineParts units →
    distance (steps * power 10 level) fineParts units
      ≤ distance (other * power 10 level) fineParts units

theorem fineParts_pos : 0 < fineParts := by
  have hpos : ∀ n, 0 < power 5 n := fun n => Nat.pow_pos (by decide)
  exact hpos 1074

-- ========================================================== neighbours

variable {units other fine : Nat}

/-- The distance from a count to the next smaller one. -/
def gapBelow (units : Nat) : Nat :=
  if units / spacing units = power 2 52 ∧ 1 < spacing units then
    spacing units / 2
  else spacing units

theorem gapBelow_le (units : Nat) : gapBelow units ≤ spacing units := by
  unfold gapBelow
  split <;> omega

theorem spacing_le (h : 0 < units) : spacing units ≤ units := by
  rcases spacing_fills units with hone | hfills
  · omega
  · exact Nat.le_trans (Nat.le_mul_of_pos_left _ (Nat.two_pow_pos 52)) hfills

theorem gapBelow_pos (units : Nat) : 0 < gapBelow units := by
  have hpos := spacing_pos units
  unfold gapBelow
  split <;> omega

/-- A significant count is a multiple of its spacing. -/
theorem spacing_dvd_self (h : Significant units) : spacing units ∣ units := by
  rcases spacing_fills units with hone | hfills
  · rw [hone]
    exact Nat.one_dvd units
  · exact spacing_dvd h hfills

/-- Between a count and the next one there is none. -/
theorem significant_above (h : Significant units) (hother : Significant other)
    (hlt : units < other) : units + spacing units ≤ other := by
  have hself := spacing_dvd_self h
  have hdvd : spacing units ∣ other := by
    rcases spacing_fills units with hone | hfills
    · rw [hone]
      exact Nat.one_dvd other
    · exact spacing_dvd hother (Nat.le_of_lt (Nat.lt_of_le_of_lt hfills hlt))
  have hgap : spacing units ≤ other - units :=
    Nat.le_of_dvd (Nat.sub_pos_of_lt hlt) (Nat.dvd_sub hdvd hself)
  omega

/-- Where the spacing is more than one unit, half of it is the spacing of
a power of two less. -/
theorem exists_half_spacing (h : 1 < spacing units) :
    ∃ below, 2 * spacing below = spacing units := by
  unfold spacing at h ⊢
  cases hexponent : units.log2 - 52 with
  | zero =>
      rw [hexponent] at h
      exact absurd h (by decide)
  | succ k =>
      have hlog : (power 2 (52 + k)).log2 = 52 + k := Nat.log2_two_pow
      have hadd : power 2 (k + 1) = power 2 k * 2 := Nat.pow_add 2 k 1
      refine ⟨power 2 (52 + k), ?_⟩
      rw [hlog, Nat.add_sub_cancel_left, hadd, Nat.mul_comm]

/-- Between a count and the one before it there is none. -/
theorem significant_below (h : Significant units) (hother : Significant other)
    (hlt : other < units) : other + gapBelow units ≤ units := by
  have hself := spacing_dvd_self h
  have hpos := spacing_pos units
  have hfull : units = units / spacing units * spacing units :=
    (Nat.div_mul_cancel hself).symm
  have hdvd : power 2 52 * spacing units ≤ other → spacing units ∣ other :=
    spacing_dvd hother
  have hstep : spacing units ∣ other → other + spacing units ≤ units := by
    intro hmultiple
    have hgap :=
      Nat.le_of_dvd (Nat.sub_pos_of_lt hlt) (Nat.dvd_sub hself hmultiple)
    omega
  rcases Nat.lt_or_ge other (power 2 52 * spacing units) with hsmall | hlarge
  · unfold gapBelow
    split
    next hpower =>
      -- just below a power of two the counts are twice as dense
      obtain ⟨below, hhalf⟩ := exists_half_spacing hpower.2
      have hhalved : spacing units / 2 = spacing below := by omega
      rw [hhalved]
      rw [hpower.1, ← hhalf] at hfull
      have hbelow : power 2 52 * spacing below ≤ other →
          spacing below ∣ other := spacing_dvd hother
      rcases Nat.lt_or_ge other (power 2 52 * spacing below) with htiny | hnear
      · have hone : spacing below ≤ power 2 52 * spacing below :=
          Nat.le_mul_of_pos_left _ (Nat.two_pow_pos 52)
        rw [Nat.mul_left_comm] at hfull
        omega
      · have hmultiple : spacing below ∣ units := by
          rw [hfull, Nat.mul_left_comm]
          exact Nat.dvd_trans (Nat.dvd_mul_left _ _) (Nat.dvd_mul_left _ _)
        have hgap :=
          Nat.le_of_dvd (Nat.sub_pos_of_lt hlt)
            (Nat.dvd_sub hmultiple (hbelow hnear))
        omega
    next hnot =>
      rcases spacing_fills units with hone | hfills
      · omega
      · have hsignificand : power 2 52 ≤ units / spacing units :=
          (Nat.le_div_iff_mul_le hpos).2 hfills
        by_cases hpower : units / spacing units = power 2 52
        · have hnarrow : spacing units = 1 := by omega
          omega
        · have hlarge : power 2 52 + 1 ≤ units / spacing units := by omega
          have hnext := Nat.mul_le_mul_right (spacing units) hlarge
          rw [← hfull, Nat.add_mul, Nat.one_mul] at hnext
          omega
  · have hgap := hstep (hdvd hlarge)
    have hle := gapBelow_le units
    omega

/-- The next count is one. -/
theorem significant_add_spacing (h : Significant units) :
    Significant (units + spacing units) := by
  have hfull : units = units / spacing units * spacing units :=
    (Nat.div_mul_cancel (spacing_dvd_self h)).symm
  have hsum : units + spacing units
      = (units / spacing units + 1) * spacing units := by
    rw [Nat.add_mul, Nat.one_mul, ← hfull]
  rcases Nat.lt_or_eq_of_le
    (Nat.succ_le_of_lt (div_spacing_lt units)) with hlt | heq
  · exact ⟨_, _, hlt, hsum⟩
  · refine ⟨1, 53 + (units.log2 - 52), by decide, ?_⟩
    rw [Nat.succ_eq_add_one] at heq
    rw [hsum, heq, Nat.one_mul]
    exact (Nat.pow_add 2 53 _).symm

/-- So is the one before. -/
theorem significant_sub_gapBelow (h : Significant units) :
    Significant (units - gapBelow units) := by
  have hfull : units = units / spacing units * spacing units :=
    (Nat.div_mul_cancel (spacing_dvd_self h)).symm
  unfold gapBelow
  split
  next hpower =>
    obtain ⟨below, hhalf⟩ := exists_half_spacing hpower.2
    have hhalved : spacing units / 2 = spacing below := by omega
    have hdouble : power 2 52 * 2 = power 2 53 := rfl
    refine ⟨power 2 53 - 1, below.log2 - 52, by decide, ?_⟩
    rw [hpower.1, ← hhalf, ← Nat.mul_assoc, hdouble] at hfull
    rw [hhalved, Nat.sub_mul, Nat.one_mul]
    exact congrArg (· - spacing below) hfull
  next =>
    refine ⟨units / spacing units - 1, units.log2 - 52, ?_, ?_⟩
    · exact Nat.lt_of_le_of_lt (Nat.sub_le _ _) (div_spacing_lt units)
    · rw [Nat.sub_mul, Nat.one_mul]
      exact congrArg (· - spacing units) hfull

/-- A count is a multiple of twice its spacing just when its significand
is even. -/
theorem two_spacing_dvd_iff (h : Significant units) :
    2 * spacing units ∣ units ↔ units / spacing units % 2 = 0 := by
  have hpos := spacing_pos units
  have hdvd := spacing_dvd_self h
  rw [← Nat.dvd_iff_mod_eq_zero, Nat.dvd_div_iff_mul_dvd hdvd, Nat.mul_comm]

theorem two_gapBelow_dvd (h : Significant units)
    (heven : units / spacing units % 2 = 0) :
    2 * gapBelow units ∣ units := by
  have hspacing := (two_spacing_dvd_iff h).2 heven
  unfold gapBelow
  split
  next hpower =>
    obtain ⟨below, hhalf⟩ := exists_half_spacing hpower.2
    have hhalved : 2 * (spacing units / 2) = spacing units := by omega
    rw [hhalved]
    exact Nat.dvd_trans (Nat.dvd_mul_left _ _) hspacing
  next => exact hspacing

/-- Only below a power of two is the next smaller count nearer than the
next greater one, and a power of two has an even significand. -/
theorem even_of_two_gapBelow_dvd (h : Significant units)
    (hdvd : 2 * gapBelow units ∣ units) :
    units / spacing units % 2 = 0 := by
  unfold gapBelow at hdvd
  split at hdvd
  next hpower =>
    rw [hpower.1]
    rfl
  next => exact (two_spacing_dvd_iff h).1 hdvd

-- ========================================================== the interval

/-- A quotient lies between the midpoints to the neighbours of a count;
at a midpoint it counts if the significand is even. -/
structure BetweenMidpoints (num den units : Nat) : Prop where
  above : 2 * (units * den) ≤ 2 * num + gapBelow units * den
  below : 2 * num ≤ 2 * (units * den) + spacing units * den
  ends : units / spacing units % 2 = 0
    ∨ (2 * (units * den) ≠ 2 * num + gapBelow units * den
      ∧ 2 * num ≠ 2 * (units * den) + spacing units * den)

variable {num den : Nat}

/-- What is rounded to a count is nearer to it than to its neighbours. -/
theorem IsNearestCount.betweenMidpoints (h : IsNearestCount num den units)
    (hpos : 0 < units) (hden : 0 < den) : BetweenMidpoints num den units := by
  have hspacing := spacing_le hpos
  have hspacingPos := spacing_pos units
  have hgap := gapBelow_le units
  have hgapPos := gapBelow_pos units
  have hgapScaled : gapBelow units * den ≤ units * den :=
    Nat.mul_le_mul_right den (Nat.le_trans hgap hspacing)
  have hspacingScaled := Nat.mul_pos hspacingPos hden
  have hgapScaledPos := Nat.mul_pos hgapPos hden
  have hnext : (units + spacing units) * den
      = units * den + spacing units * den := Nat.add_mul ..
  have hbefore : (units - gapBelow units) * den
      = units * den - gapBelow units * den :=
    Nat.sub_mul ..
  have hup := significant_add_spacing h.significant
  have hdown := significant_sub_gapBelow h.significant
  have hnearUp := h.nearest _ hup
  have hnearDown := h.nearest _ hdown
  have htieUp := h.even _ hup (by omega)
  have htieDown := h.even _ hdown (by omega)
  have hdistanceUp : ((units + spacing units : Nat) - (units : Int)).natAbs
      = spacing units := by
    omega
  have hdistanceDown : ((units - gapBelow units : Nat) - (units : Int)).natAbs
      = gapBelow units := by omega
  rw [hdistanceUp] at htieUp
  rw [hdistanceDown] at htieDown
  unfold distance at hnearUp hnearDown htieUp htieDown
  refine ⟨by omega, by omega, ?_⟩
  by_cases heven : units / spacing units % 2 = 0
  · exact .inl heven
  · refine .inr ⟨fun htie => heven ?_, fun htie => heven ?_⟩
    · exact even_of_two_gapBelow_dvd h.significant (htieDown (by omega))
    · exact (two_spacing_dvd_iff h.significant).1 (htieUp (by omega))

/-- Between the midpoints a quotient is rounded to the count. -/
theorem BetweenMidpoints.isNearestCount (h : BetweenMidpoints num den units)
    (hunits : Significant units) (hden : 0 < den) :
    IsNearestCount num den units := by
  have hfrom := h.above
  have hto := h.below
  have hends := h.ends
  have hspacingScaled := Nat.mul_pos (spacing_pos units) hden
  have hgapScaled := Nat.mul_pos (gapBelow_pos units) hden
  have hside : ∀ other, Significant other → other ≠ units →
      other * den + gapBelow units * den ≤ units * den
        ∨ units * den + spacing units * den ≤ other * den := by
    intro other hother hne
    rw [← Nat.add_mul, ← Nat.add_mul]
    rcases Nat.lt_or_gt_of_ne hne with hlt | hgt
    · exact .inl
        (Nat.mul_le_mul_right den (significant_below hunits hother hlt))
    · exact .inr
        (Nat.mul_le_mul_right den (significant_above hunits hother hgt))
  refine ⟨hunits, fun other hother => ?_, fun other hother hne hsame => ?_⟩
  · by_cases hne : other = units
    · exact Nat.le_of_eq (congrArg _ hne.symm)
    · have hcases := hside other hother hne
      unfold distance
      omega
  · -- a tie is at a midpoint, and the other count is the neighbour there
    have hcases := hside other hother hne
    unfold distance at hsame
    have heven : units / spacing units % 2 = 0 := by omega
    rcases hcases with hbelow | habove
    · have hneighbour : (other + gapBelow units) * den = units * den := by
        rw [Nat.add_mul]
        omega
      have hcount := Nat.eq_of_mul_eq_mul_right hden hneighbour
      have hdistance : ((other : Int) - units).natAbs = gapBelow units := by
        omega
      rw [hdistance]
      exact two_gapBelow_dvd hunits heven
    · have hneighbour : other * den = (units + spacing units) * den := by
        rw [Nat.add_mul]
        omega
      have hcount := Nat.eq_of_mul_eq_mul_right hden hneighbour
      have hdistance : ((other : Int) - units).natAbs = spacing units := by
        omega
      rw [hdistance]
      exact (two_spacing_dvd_iff hunits).2 heven

/-- The interval of a double is between the midpoints. -/
theorem holds_iff_betweenMidpoints (hpos : 0 < units) :
    (Interval.ofUnits units).holds fine = true
      ↔ BetweenMidpoints fine fineParts units := by
  have hlow : (Interval.ofUnits units).low
      = 2 * (units * fineParts) - gapBelow units * fineParts := by
    rw [← Nat.mul_assoc, ← Nat.sub_mul]
    rfl
  have hhigh : (Interval.ofUnits units).high
      = 2 * (units * fineParts) + spacing units * fineParts := by
    rw [← Nat.mul_assoc, ← Nat.add_mul]
    rfl
  have hclosed : (Interval.ofUnits units).closed
      = (units / spacing units % 2 == 0) := rfl
  have hgap : gapBelow units * fineParts ≤ units * fineParts :=
    Nat.mul_le_mul_right _ (Nat.le_trans (gapBelow_le units) (spacing_le hpos))
  rw [Interval.holds, hlow, hhigh, hclosed]
  constructor
  · intro h
    refine ⟨?_, ?_, ?_⟩
    all_goals
      by_cases heven : units / spacing units % 2 = 0
      · simp only [heven, beq_self_eq_true, if_true, Bool.and_eq_true,
          decide_eq_true_eq] at h
        omega
      · simp only [heven, beq_iff_eq, if_false, Bool.and_eq_true,
          decide_eq_true_eq] at h
        omega
  · rintro ⟨habove, hbelow, hends⟩
    by_cases heven : units / spacing units % 2 = 0
    · simp only [heven, beq_self_eq_true, if_true, Bool.and_eq_true,
        decide_eq_true_eq]
      omega
    · simp only [heven, beq_iff_eq, if_false, Bool.and_eq_true,
        decide_eq_true_eq]
      omega

/-- The decimals in the interval of a double are those that are read back
as it. -/
theorem holds_iff (h : Significant units) (hpos : 0 < units) :
    (Interval.ofUnits units).holds fine = true
      ↔ IsNearestCount fine fineParts units := by
  rw [holds_iff_betweenMidpoints hpos]
  exact ⟨fun hbetween => hbetween.isNearestCount h fineParts_pos,
    fun hnearest => hnearest.betweenMidpoints hpos fineParts_pos⟩

-- ============================================================ the search

variable {interval : Interval} {grid : Nat}

/-- An interval has no gaps. -/
theorem holds_between {a b c : Nat} (ha : interval.holds a = true)
    (hb : interval.holds b = true) (hac : a ≤ c) (hcb : c ≤ b) :
    interval.holds c = true := by
  unfold Interval.holds at *
  split at ha
  next hclosed =>
    simp only [hclosed, if_true, Bool.and_eq_true,
      decide_eq_true_eq] at hb ⊢ ha
    omega
  next hopen =>
    simp only [hopen, Bool.false_eq_true, if_false, Bool.and_eq_true,
      decide_eq_true_eq] at hb ⊢ ha
    omega

/-- If a grid has a point in the interval, the point beside the value on
the same side is in it. -/
theorem holds_beside (hfine : interval.holds fine = true) (hgrid : 0 < grid)
    {other : Nat} (hother : interval.holds (other * grid) = true) :
    (other ≤ fine / grid ∧ interval.holds (fine / grid * grid) = true)
      ∨ (fine / grid + 1 ≤ other
        ∧ interval.holds ((fine / grid + 1) * grid) = true) := by
  rcases Nat.lt_or_ge (fine / grid) other with hgt | hle
  · have hupper : fine ≤ (fine / grid + 1) * grid :=
      Nat.le_of_lt ((Nat.div_lt_iff_lt_mul hgrid).1 (Nat.lt_succ_self _))
    exact .inr
      ⟨hgt, holds_between hfine hother hupper (Nat.mul_le_mul_right grid hgt)⟩
  · exact .inl ⟨hle, holds_between hother hfine (Nat.mul_le_mul_right grid hle)
      (Nat.div_mul_le_self fine grid)⟩

/-- A grid without a point has none in the interval. -/
theorem not_holds_of_gridPoint? (hfine : interval.holds fine = true)
    (hzero : interval.holds 0 = false) (hgrid : 0 < grid)
    (h : gridPoint? interval fine grid = none) (other : Nat) :
    interval.holds (other * grid) = false := by
  cases hother : interval.holds (other * grid) with
  | false => rfl
  | true =>
      unfold gridPoint? at h
      rcases holds_beside hfine hgrid hother with ⟨-, hlower⟩ | ⟨-, hupper⟩
      · have hne : fine / grid ≠ 0 := by
          intro heq
          rw [heq, Nat.zero_mul, hzero] at hlower
          cases hlower
        simp only [hne, hlower, ne_eq, not_false_eq_true, and_self,
          if_true] at h
        split at h
        · cases h
        · cases h
      · simp only [hupper, if_true] at h
        split at h
        · split at h
          · cases h
          · cases h
        · cases h

/-- The point that stands for a value is in the interval, and no other
one of the grid that is in it is nearer. -/
theorem holds_of_gridPoint? (hfine : interval.holds fine = true)
    (hzero : interval.holds 0 = false) (hgrid : 0 < grid) {steps : Nat}
    (h : gridPoint? interval fine grid = some steps) :
    interval.holds (steps * grid) = true
      ∧ ∀ other, interval.holds (other * grid) = true →
          ((steps * grid : Nat) - (fine : Int)).natAbs
            ≤ ((other * grid : Nat) - (fine : Int)).natAbs := by
  have hvalue := Nat.div_add_mod' fine grid
  have hrest := Nat.mod_lt fine hgrid
  have hscale : ∀ {a b : Nat}, a ≤ b → a * grid ≤ b * grid :=
    fun hle => Nat.mul_le_mul_right grid hle
  have hnext : (fine / grid + 1) * grid = fine / grid * grid + grid := by
    rw [Nat.add_mul, Nat.one_mul]
  simp only [gridPoint?] at h
  split at h
  next hlower =>
    split at h
    next hupper =>
      cases h
      refine ⟨hupper.1, fun other hother => ?_⟩
      rcases holds_beside hfine hgrid hother with ⟨hle, -⟩ | ⟨hge, -⟩
      · have hother := hscale hle
        omega
      · have hother := hscale hge
        omega
    next hnot =>
      cases h
      refine ⟨hlower.2, fun other hother => ?_⟩
      rcases holds_beside hfine hgrid hother with ⟨hle, -⟩ | ⟨hge, hupper⟩
      · have hother := hscale hle
        omega
      · have hnear : ¬ grid ≤ 2 * (fine % grid) :=
          fun hfar => hnot ⟨hupper, hfar⟩
        have hother := hscale hge
        omega
  next hnot =>
    split at h
    next hupper =>
      cases h
      refine ⟨hupper, fun other hother => ?_⟩
      rcases holds_beside hfine hgrid hother with ⟨-, hlower⟩ | ⟨hge, -⟩
      · have hne : fine / grid ≠ 0 := by
          intro heq
          rw [heq, Nat.zero_mul, hzero] at hlower
          cases hlower
        exact absurd ⟨hne, hlower⟩ hnot
      · have hother := hscale hge
        omega
    next => cases h

/-- What the search for a decimal finds, up to a level. -/
structure Finds (interval : Interval) (fine level : Nat) (found : Nat × Nat) :
    Prop where
  le : found.2 ≤ level
  holds : interval.holds (found.1 * power 10 found.2) = true
  nearest : ∀ other, interval.holds (other * power 10 found.2) = true →
    ((found.1 * power 10 found.2 : Nat) - (fine : Int)).natAbs
      ≤ ((other * power 10 found.2 : Nat) - (fine : Int)).natAbs
  coarser : ∀ k other, found.2 < k → k ≤ level →
    interval.holds (other * power 10 k) = false

theorem finds_coarsest (hfine : interval.holds fine = true)
    (hzero : interval.holds 0 = false) (level : Nat) :
    Finds interval fine level (coarsest interval fine level) := by
  induction level with
  | zero =>
      have hone : fine * power 10 0 = fine := Nat.mul_one fine
      refine ⟨Nat.le_refl 0, ?_, fun other _ => ?_, fun k _ hlt hle => ?_⟩
      · show interval.holds (fine * power 10 0) = true
        rw [hone]
        exact hfine
      · show ((fine * power 10 0 : Nat) - (fine : Int)).natAbs ≤ _
        rw [hone, Int.sub_self]
        exact Nat.zero_le _
      · exact absurd hle (Nat.not_le_of_lt hlt)
  | succ level ih =>
      have hgrid : 0 < power 10 (level + 1) := Nat.pow_pos (by decide)
      rw [coarsest]
      split
      next steps hsteps =>
        obtain ⟨hholds, hnearest⟩ :=
          holds_of_gridPoint? hfine hzero hgrid hsteps
        exact ⟨Nat.le_refl _, hholds, hnearest,
          fun k _ hlt hle => absurd hle (Nat.not_le_of_lt hlt)⟩
      next hnone =>
        refine ⟨Nat.le_succ_of_le ih.le, ih.holds, ih.nearest,
          fun k other hlt hle => ?_⟩
        rcases Nat.lt_or_eq_of_le hle with hbelow | rfl
        · exact ih.coarser k other hlt (Nat.le_of_lt_succ hbelow)
        · exact not_holds_of_gridPoint? hfine hzero hgrid hnone other

-- ======================================================== shortest digits

/-- The search begins at a power of ten that is above the value. -/
theorem lt_power_start (fine : Nat) : fine < power 10 (fine.log2 / 3 + 1) := by
  have hbits : fine.log2 + 1 ≤ 3 * (fine.log2 / 3 + 1) := by omega
  have height : power 2 (3 * (fine.log2 / 3 + 1))
      = power 8 (fine.log2 / 3 + 1) :=
    Nat.pow_mul 2 3 _
  calc fine < power 2 (fine.log2 + 1) := Nat.lt_log2_self
    _ ≤ power 2 (3 * (fine.log2 / 3 + 1)) :=
      Nat.pow_le_pow_right (by decide) hbits
    _ = power 8 (fine.log2 / 3 + 1) := height
    _ ≤ power 10 (fine.log2 / 3 + 1) := Nat.pow_le_pow_left (by omega) _

/-- The value itself is read back. -/
theorem betweenMidpoints_self (hpos : 0 < den) :
    BetweenMidpoints (units * den) den units := by
  have hspacing := Nat.mul_pos (spacing_pos units) hpos
  have hgap := Nat.mul_pos (gapBelow_pos units) hpos
  exact ⟨by omega, by omega, by omega⟩

/-- Zero is read back as zero only. -/
theorem not_betweenMidpoints_zero (hunits : 0 < units) (hden : 0 < den) :
    ¬ BetweenMidpoints 0 den units := by
  intro h
  have habove := h.above
  have hgap : gapBelow units * den ≤ units * den :=
    Nat.mul_le_mul_right den
      (Nat.le_trans (gapBelow_le units) (spacing_le hunits))
  have hpos := Nat.mul_pos hunits hden
  omega

/-- The digits that are found for a double are its shortest ones. -/
theorem isShortest_shortest (h : Significant units) (hpos : 0 < units) :
    IsShortest units (shortest units).1 (shortest units).2 := by
  have hholds : ∀ fine, (Interval.ofUnits units).holds fine = true
      ↔ IsNearestCount fine fineParts units := fun _ => holds_iff h hpos
  have hfine : (Interval.ofUnits units).holds (units * fineParts) = true :=
    (holds_iff_betweenMidpoints hpos).2 (betweenMidpoints_self fineParts_pos)
  have hzero : (Interval.ofUnits units).holds 0 = false := by
    rw [← Bool.not_eq_true, holds_iff_betweenMidpoints hpos]
    exact not_betweenMidpoints_zero hpos fineParts_pos
  have hfinds := finds_coarsest hfine hzero ((units * fineParts).log2 / 3 + 1)
  have hshortest : shortest units
      = coarsest (Interval.ofUnits units) (units * fineParts)
    ((units * fineParts).log2 / 3 + 1) := rfl
  rw [← hshortest] at hfinds
  refine ⟨(hholds _).1 hfinds.holds, fun other k hlt hread => ?_,
    fun other hread => ?_⟩
  · have hother := (hholds _).2 hread
    rcases Nat.lt_or_ge ((units * fineParts).log2 / 3 + 1) k with hgt | hle
    · -- a multiple of a power of ten so large is too large, unless it is zero
      have hne : other ≠ 0 := by
        rintro rfl
        rw [Nat.zero_mul, hzero] at hother
        cases hother
      have hbelow := ((holds_iff_betweenMidpoints hpos).1 hother).below
      have hspacing := Nat.mul_le_mul_right fineParts (spacing_le hpos)
      have hstart := lt_power_start (units * fineParts)
      have hten : power 10 ((units * fineParts).log2 / 3 + 1 + 1)
          ≤ power 10 k :=
        Nat.pow_le_pow_right (by decide) hgt
      have hadd : power 10 ((units * fineParts).log2 / 3 + 1 + 1)
          = power 10 ((units * fineParts).log2 / 3 + 1) * 10 :=
        Nat.pow_add 10 _ 1
      rw [hadd] at hten
      have hmultiple : power 10 k ≤ other * power 10 k :=
        Nat.le_mul_of_pos_left _ (Nat.pos_of_ne_zero hne)
      omega
    · rw [hfinds.coarser k other hlt hle] at hother
      cases hother
  · have hnearest := hfinds.nearest other ((hholds _).2 hread)
    unfold distance
    omega

end Double

end LineScript
