import Mathlib.Algebra.Order.Field.Rat
import Mathlib.Tactic.FieldSimp
import Mathlib.Tactic.Linarith
import FourBit.Clock

/-! Clocks of an exact rate.
A rate is brought between the bounds before the bounds are looked at. The rate that comes of a
positive one has the sign of the greater bound, so bounds that enclose no positive rate are refused
as such, except where the greater one is nought: there the interval would be infinite, and the
division by the rate fails first. -/
namespace FourBit.Clock
variable {rate least most : Rat}

@[simp] theorem lower_exact (x y : Rat) : lower x y = min x y := by
  simp [lower, Scalar.lt, min_comm x y, min_def_lt]

@[simp] theorem upper_exact (x y : Rat) : upper x y = max x y := by
  simp [upper, Scalar.lt, max_def_lt]

theorem rate?_exact (c : Clock Rat) :
    c.rate? = if c.interval = 0 then none else some (1 / c.interval) := by
  simp [rate?, Scalar.isNought, Scalar.one, Scalar.div]

theorem clamped_pos_iff (h : 0 < rate) :
    0 < max least (min rate most) ↔ 0 < max least most := by
  simp [h]

theorem clamped_neg_iff (h : 0 < rate) :
    max least (min rate most) < 0 ↔ max least most < 0 := by
  simp [h.not_gt]

theorem clamped_eq_zero_iff (h : 0 < rate) :
    max least (min rate most) = 0 ↔ max least most = 0 := by
  have hpos := @clamped_pos_iff rate least most h
  have hneg := @clamped_neg_iff rate least most h
  constructor
  · intro hzero
    rw [hzero] at hpos hneg
    exact le_antisymm (not_lt.mp (mt hpos.mpr (lt_irrefl 0)))
      (not_lt.mp (mt hneg.mpr (lt_irrefl 0)))
  · intro hzero
    rw [hzero] at hpos hneg
    exact le_antisymm (not_lt.mp (mt hpos.mp (lt_irrefl 0))) (not_lt.mp (mt hneg.mp (lt_irrefl 0)))

theorem ofRate_exact (rate least most : Rat) : ofRate rate least most =
    if rate ≤ 0 then .error .rateNotPositive
    else if max least most = 0 then .error .noRate
    else if max least most < 0 then .error .negativeInterval
    else if 0 < least ∧ least ≤ most then .ok ⟨1 / max least (min rate most), least, most⟩
    else .error (.badRange (toString least) (toString most)) := by
  by_cases hrate : rate ≤ 0
  · simp [ofRate, Scalar.le, Scalar.nought, hrate]
  · have hpos : 0 < rate := not_le.mp hrate
    have hinterval : 1 / max least (min rate most) < 0 ↔ max least most < 0 := by
      rw [one_div, inv_lt_zero, clamped_neg_iff hpos]
    simp [ofRate, ofInterval, Scalar.le, Scalar.lt, Scalar.nought, Scalar.isNought, Scalar.one,
      Scalar.div, Scalar.text, hrate, clamped_eq_zero_iff hpos, ← hinterval]

def Admits (rate least most : Rat) : Prop := 0 < rate ∧ 0 < least ∧ least ≤ most

/-- A positive rate that becomes nought between the bounds. -/
def Vanishes (rate least most : Rat) : Prop := 0 < rate ∧ max least most = 0

theorem Admits.greater_pos (h : Admits rate least most) : 0 < max least most :=
  lt_max_of_lt_left h.2.1

theorem Admits.not_vanishes (h : Admits rate least most) : ¬ Vanishes rate least most :=
  fun hv => h.greater_pos.ne' hv.2

theorem Admits.ofRate_eq (h : Admits rate least most) :
    ofRate rate least most = .ok ⟨1 / max least (min rate most), least, most⟩ := by
  have hgreater := h.greater_pos
  rw [ofRate_exact, if_neg h.1.not_ge, if_neg hgreater.ne', if_neg hgreater.not_gt, if_pos h.2]

theorem Admits.rate?_eq (h : Admits rate least most) :
    rate? ⟨1 / max least (min rate most), least, most⟩ = some (max least (min rate most)) := by
  have hne : max least (min rate most) ≠ 0 := ((clamped_pos_iff h.1).mpr h.greater_pos).ne'
  rw [rate?_exact, if_neg (one_div_ne_zero hne), one_div_one_div]

theorem Vanishes.ofRate_eq (h : Vanishes rate least most) :
    ofRate rate least most = .error .noRate := by
  rw [ofRate_exact, if_neg h.1.not_ge, if_pos h.2]

theorem ofRate_refused (h : ¬ Admits rate least most) (hv : ¬ Vanishes rate least most) :
    ∃ e, ofRate rate least most = .error e ∧ e.kind = .value := by
  rw [ofRate_exact]
  split
  · exact ⟨_, rfl, rfl⟩
  · rename_i hrate
    have hpos : 0 < rate := not_le.mp hrate
    rw [if_neg fun hzero => hv ⟨hpos, hzero⟩]
    split
    · exact ⟨_, rfl, rfl⟩
    · rw [if_neg fun hbounds => h ⟨hpos, hbounds⟩]
      exact ⟨_, rfl, rfl⟩

/-- There is a clock of a rate if the rate is positive and the bounds are positive and in order; it
has these bounds, and the rate is brought between them. Of all else there is none, and the rate or
the bounds are refused, but with one exception: where the greater bound is nought, a positive rate
is divided by what it becomes before the bounds are looked at. -/
theorem ofRate_answers (rate least most : Rat) :
    ((∃ c, ofRate rate least most = .ok c ∧ c.leastRate = least ∧ c.mostRate = most ∧
      c.rate? = some (max least (min rate most))) ↔ Admits rate least most) ∧
    ((∃ e, ofRate rate least most = .error e ∧ e.kind = .value) ↔
      ¬ Admits rate least most ∧ ¬ Vanishes rate least most) ∧
    ((∃ e, ofRate rate least most = .error e ∧ e.kind = .division) ↔
      Vanishes rate least most) := by
  by_cases ha : Admits rate least most
  · simp [ha.ofRate_eq, ha.rate?_eq, ha, ha.not_vanishes, -one_div]
  · by_cases hv : Vanishes rate least most
    · simp [hv.ofRate_eq, ha, hv, Error.kind]
    · obtain ⟨e, herror, hkind⟩ := ofRate_refused ha hv
      simp [herror, hkind, ha, hv]

/-- Bounds that are both nought are not refused as bounds. -/
theorem nought_bounds_unrefused :
    ¬ Admits 1 0 0 ∧ ofRate (1 : Rat) 0 0 = .error .noRate ∧ Error.noRate.kind ≠ .value :=
  ⟨fun h => lt_irrefl 0 h.2.1, Vanishes.ofRate_eq ⟨one_pos, max_self 0⟩, by decide⟩

end FourBit.Clock
