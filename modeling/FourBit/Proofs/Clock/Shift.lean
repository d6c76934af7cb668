import Mathlib.Algebra.Order.Archimedean.Basic
import FourBit.Proofs.Clock.Bounds
import FourBit.Runner

/-! Clocks that are sped up and slowed down.
A call looks at the rate before it doubles or halves it, so the rate may leave the bounds, but by
less than a factor of two, and no further call takes it further. It never leaves them if they are a
power of two away from the rate that the clock has at first, and only then. -/
namespace FourBit

inductive Shift where
  | up
  | down
  deriving DecidableEq, Repr

namespace Clock
variable {R : Type} [Scalar R]

def shift? (c : Clock R) : Shift → Option (Clock R)
  | .up => c.speedUp?
  | .down => c.slowDown?

/-- The clock after some shifts, of which those that are refused change nothing. -/
def shifted (c : Clock R) : List Shift → Clock R
  | [] => c
  | shift :: rest => ((c.shift? shift).getD c).shifted rest

end Clock

namespace Runner

def shift : Shift → Action Runner Bool
  | .up => speedUp
  | .down => slowDown

theorem shift_run (r : Runner) (s : Shift) :
    (shift s r).answer = .ok (r.clock.shift? s).isSome ∧
      (shift s r).state = { r with clock := r.clock.shifted [s] } := by
  have hset (clock : Option (Clock Float)) : (setClock clock r).answer = .ok clock.isSome ∧
      (setClock clock r).state = { r with clock := clock.getD r.clock } := by
    cases clock <;> exact ⟨rfl, rfl⟩
  cases s with
  | up => exact hset r.clock.speedUp?
  | down => exact hset r.clock.slowDown?

end Runner

namespace Clock
variable {c : Clock Rat} {rate r : Rat}

/-- A clock with a positive interval whose rate lies between positive bounds. -/
structure InRange (c : Clock Rat) : Prop where
  interval_pos : 0 < c.interval
  leastRate_pos : 0 < c.leastRate
  rate_between : ∀ rate ∈ c.rate?, c.leastRate ≤ rate ∧ rate ≤ c.mostRate

def atRate (c : Clock Rat) (rate : Rat) : Clock Rat := { c with interval := 1 / rate }

@[simp] theorem atRate_leastRate : (c.atRate r).leastRate = c.leastRate := rfl

@[simp] theorem atRate_mostRate : (c.atRate r).mostRate = c.mostRate := rfl

theorem atRate_rate? (h : 0 < r) : (c.atRate r).rate? = some r := by
  rw [rate?_exact, atRate, if_neg (one_div_ne_zero h.ne'), one_div_one_div]

theorem InRange.exists_rate (h : c.InRange) :
    ∃ rate, 0 < rate ∧ c.rate? = some rate ∧ c = c.atRate rate ∧
      c.leastRate ≤ rate ∧ rate ≤ c.mostRate := by
  have hrate : c.rate? = some (1 / c.interval) := by rw [rate?_exact, if_neg h.interval_pos.ne']
  refine ⟨1 / c.interval, one_div_pos.mpr h.interval_pos, hrate, ?_, h.rate_between _ hrate⟩
  rw [atRate, one_div_one_div]

theorem Admits.inRange {least most : Rat} (h : Admits rate least most) :
    InRange ⟨1 / max least (min rate most), least, most⟩ where
  interval_pos := one_div_pos.mpr ((clamped_pos_iff h.1).mpr h.greater_pos)
  leastRate_pos := h.2.1
  rate_between := by
    intro r hr
    obtain rfl := Option.some.inj (h.rate?_eq.symm.trans hr)
    exact ⟨le_max_left _ _, max_le h.2.2 (min_le_right _ _)⟩

theorem shift?_up (h : 0 < r) : (c.atRate r).shift? .up =
    if c.mostRate ≤ r then none else some (c.atRate (r * 2)) := by
  have hhalf : 1 / r / 2 = 1 / (r * 2) := div_div 1 r 2
  rw [shift?, speedUp?, atRate_rate? h, atRate, atRate, ← hhalf]
  by_cases hr : c.mostRate ≤ r <;> simp [Scalar.le, Scalar.div, Scalar.two, hr]

theorem shift?_down (h : 0 < r) : (c.atRate r).shift? .down =
    if r ≤ c.leastRate then none else some (c.atRate (r / 2)) := by
  have hdouble : 1 / r * 2 = 1 / (r / 2) := by field_simp
  rw [shift?, slowDown?, atRate_rate? h, atRate, atRate, ← hdouble]
  by_cases hr : r ≤ c.leastRate <;> simp [Scalar.le, Scalar.mul, Scalar.two, hr]

/-- What a doubling from below the upper bound and a halving from above the lower one keep of a
rate, all shifts keep. -/
theorem shifted_induction {P : Rat → Prop} (hpos : ∀ r, P r → 0 < r)
    (hup : ∀ r, P r → r < c.mostRate → P (r * 2)) (hdown : ∀ r, P r → c.leastRate < r → P (r / 2))
    (h : P r) (shifts : List Shift) : ∃ r', (c.atRate r).shifted shifts = c.atRate r' ∧ P r' := by
  induction shifts generalizing r with
  | nil => exact ⟨r, rfl, h⟩
  | cons shift rest ih =>
    rw [shifted]
    cases shift with
    | up =>
      rw [shift?_up (hpos r h)]
      split
      · exact ih h
      · exact ih (hup r h (not_le.mp ‹_›))
    | down =>
      rw [shift?_down (hpos r h)]
      split
      · exact ih h
      · exact ih (hdown r h (not_le.mp ‹_›))

/-- A rate that shifts may lead to from one between the bounds. -/
structure Near (c : Clock Rat) (rate r : Rat) : Prop where
  pos : 0 < r
  octaves : ∃ k : ℤ, r = rate * 2 ^ k
  above : c.leastRate / 2 < r
  below : r < c.mostRate * 2

theorem Near.up (h : c.Near rate r) (hr : r < c.mostRate) : c.Near rate (r * 2) where
  pos := mul_pos h.pos two_pos
  octaves := by
    obtain ⟨k, hk⟩ := h.octaves
    exact ⟨k + 1, by rw [hk, mul_assoc, zpow_add_one₀ two_ne_zero]⟩
  above := h.above.trans (by linarith [h.pos])
  below := mul_lt_mul_of_pos_right hr two_pos

theorem Near.down (h : c.Near rate r) (hr : c.leastRate < r) : c.Near rate (r / 2) where
  pos := half_pos h.pos
  octaves := by
    obtain ⟨k, hk⟩ := h.octaves
    exact ⟨k - 1, by rw [hk, mul_div_assoc, zpow_sub_one₀ two_ne_zero, div_eq_mul_inv]⟩
  above := div_lt_div_of_pos_right hr two_pos
  below := (half_lt_self h.pos).trans h.below

theorem shifted_near (hpos : 0 < rate) (hleast : c.leastRate ≤ rate) (hmost : rate ≤ c.mostRate)
    (shifts : List Shift) :
    ∃ r, (c.atRate rate).shifted shifts = c.atRate r ∧ c.Near rate r := by
  have hnear : c.Near rate rate :=
    { pos := hpos
      octaves := ⟨0, by rw [zpow_zero, mul_one]⟩
      above := by linarith
      below := by linarith }
  exact shifted_induction (fun _ h => h.pos) (fun _ h => h.up) (fun _ h => h.down) hnear shifts

theorem shifted_below {n : ℕ} (hpos : 0 < rate) (hn : c.mostRate = rate * 2 ^ n)
    (shifts : List Shift) :
    ∃ r, (c.atRate rate).shifted shifts = c.atRate r ∧ 0 < r ∧ ∃ n : ℕ, c.mostRate = r * 2 ^ n := by
  refine shifted_induction (fun _ h => h.1) ?_ ?_ ⟨hpos, n, hn⟩ shifts
  · rintro r ⟨hr, n, hn⟩ hlt
    cases n with
    | zero => exact absurd hn (by simpa using hlt.ne')
    | succ n => exact ⟨mul_pos hr two_pos, n, by rw [hn, pow_succ']; ring⟩
  · rintro r ⟨hr, n, hn⟩ -
    exact ⟨half_pos hr, n + 1, by rw [hn, pow_succ']; ring⟩

theorem shifted_above {n : ℕ} (hpos : 0 < rate) (hn : rate = c.leastRate * 2 ^ n)
    (shifts : List Shift) :
    ∃ r, (c.atRate rate).shifted shifts = c.atRate r ∧ 0 < r ∧
      ∃ n : ℕ, r = c.leastRate * 2 ^ n := by
  refine shifted_induction (fun _ h => h.1) ?_ ?_ ⟨hpos, n, hn⟩ shifts
  · rintro r ⟨hr, n, hn⟩ -
    exact ⟨mul_pos hr two_pos, n + 1, by rw [hn, pow_succ]; ring⟩
  · rintro r ⟨hr, n, hn⟩ hlt
    cases n with
    | zero => exact absurd hn (by simpa using hlt.ne')
    | succ n => exact ⟨half_pos hr, n, by rw [hn, pow_succ]; ring⟩

theorem exists_doublings {n : ℕ} (hpos : 0 < rate) (hn : c.mostRate ≤ rate * 2 ^ n)
    (hall : ∀ shifts, ∀ r ∈ ((c.atRate rate).shifted shifts).rate?, r ≤ c.mostRate) :
    ∃ n : ℕ, c.mostRate = rate * 2 ^ n := by
  induction n generalizing rate with
  | zero =>
    have hle := hall [] rate (atRate_rate? hpos)
    exact ⟨0, le_antisymm hn (by simpa using hle)⟩
  | succ n ih =>
    have hle := hall [] rate (atRate_rate? hpos)
    rcases hle.eq_or_lt with heq | hlt
    · exact ⟨0, by simpa using heq.symm⟩
    · have hup : (c.atRate rate).shift? .up = some (c.atRate (rate * 2)) := by
        rw [shift?_up hpos, if_neg hlt.not_ge]
      obtain ⟨k, hk⟩ := ih (mul_pos hpos two_pos) (by rwa [mul_assoc, ← pow_succ'])
        fun shifts => by simpa only [shifted, hup, Option.getD_some] using hall (.up :: shifts)
      exact ⟨k + 1, by rw [hk, mul_assoc, ← pow_succ']⟩

theorem exists_halvings {n : ℕ} (hpos : 0 < rate) (hn : rate ≤ c.leastRate * 2 ^ n)
    (hall : ∀ shifts, ∀ r ∈ ((c.atRate rate).shifted shifts).rate?, c.leastRate ≤ r) :
    ∃ n : ℕ, rate = c.leastRate * 2 ^ n := by
  induction n generalizing rate with
  | zero =>
    have hle := hall [] rate (atRate_rate? hpos)
    exact ⟨0, le_antisymm hn (by simpa using hle)⟩
  | succ n ih =>
    have hle := hall [] rate (atRate_rate? hpos)
    rcases hle.eq_or_lt with heq | hlt
    · exact ⟨0, by simpa using heq.symm⟩
    · have hdown : (c.atRate rate).shift? .down = some (c.atRate (rate / 2)) := by
        rw [shift?_down hpos, if_neg hlt.not_ge]
      have hhalf : rate / 2 ≤ c.leastRate * 2 ^ n := by
        rw [pow_succ] at hn
        linarith
      obtain ⟨k, hk⟩ := ih (half_pos hpos) hhalf
        fun shifts => by simpa only [shifted, hdown, Option.getD_some] using hall (.down :: shifts)
      exact ⟨k + 1, by rw [pow_succ, ← mul_assoc, ← hk, div_mul_cancel₀ rate two_ne_zero]⟩

private theorem exists_le_doubled {r : Rat} (hpos : 0 < r) (bound : Rat) :
    ∃ n : ℕ, bound ≤ r * 2 ^ n := by
  obtain ⟨n, hn⟩ := pow_unbounded_of_one_lt (bound / r) one_lt_two
  exact ⟨n, ((div_lt_iff₀' hpos).mp hn).le⟩

theorem forall_le_mostRate_iff (hpos : 0 < rate) :
    (∀ shifts, ∀ r ∈ ((c.atRate rate).shifted shifts).rate?, r ≤ c.mostRate) ↔
      ∃ n : ℕ, c.mostRate = rate * 2 ^ n := by
  constructor
  · intro hall
    obtain ⟨n, hn⟩ := exists_le_doubled hpos c.mostRate
    exact exists_doublings hpos hn hall
  · rintro ⟨n, hn⟩ shifts r hr
    obtain ⟨r', hshifted, hpos', k, hk⟩ := shifted_below hpos hn shifts
    rw [hshifted, atRate_rate? hpos'] at hr
    obtain rfl := Option.some.inj hr
    rw [hk]
    exact le_mul_of_one_le_right hpos'.le (one_le_pow₀ one_le_two)

theorem forall_leastRate_le_iff (hpos : 0 < rate) (hleast : 0 < c.leastRate) :
    (∀ shifts, ∀ r ∈ ((c.atRate rate).shifted shifts).rate?, c.leastRate ≤ r) ↔
      ∃ n : ℕ, rate = c.leastRate * 2 ^ n := by
  constructor
  · intro hall
    obtain ⟨n, hn⟩ := exists_le_doubled hleast rate
    exact exists_halvings hpos hn hall
  · rintro ⟨n, hn⟩ shifts r hr
    obtain ⟨r', hshifted, hpos', k, hk⟩ := shifted_above hpos hn shifts
    rw [hshifted, atRate_rate? hpos'] at hr
    obtain rfl := Option.some.inj hr
    rw [hk]
    exact le_mul_of_one_le_right hleast.le (one_le_pow₀ one_le_two)

/-- Shifts lead from a clock in range to rates some doublings or halvings away, and less than a
factor of two outside of the bounds. The upper bound is never passed just if it is a number of
doublings above the rate, and the lower one just if it is a number of halvings below. -/
theorem shifted_bounds (h : c.InRange) : ∃ rate, c.rate? = some rate ∧
    (∀ shifts, ∃ k : ℤ,
      (c.shifted shifts).leastRate = c.leastRate ∧ (c.shifted shifts).mostRate = c.mostRate ∧
      (c.shifted shifts).rate? = some (rate * 2 ^ k) ∧
      c.leastRate / 2 < rate * 2 ^ k ∧ rate * 2 ^ k < c.mostRate * 2) ∧
    ((∀ shifts, ∀ r ∈ (c.shifted shifts).rate?, r ≤ c.mostRate) ↔
      ∃ n : ℕ, c.mostRate = rate * 2 ^ n) ∧
    ((∀ shifts, ∀ r ∈ (c.shifted shifts).rate?, c.leastRate ≤ r) ↔
      ∃ n : ℕ, rate = c.leastRate * 2 ^ n) := by
  obtain ⟨rate, hpos, hrate, hc, hleast, hmost⟩ := h.exists_rate
  have hupper := @forall_le_mostRate_iff c rate hpos
  have hlower := @forall_leastRate_le_iff c rate hpos h.leastRate_pos
  rw [← hc] at hupper hlower
  refine ⟨rate, hrate, fun shifts => ?_, hupper, hlower⟩
  obtain ⟨r, hshifted, hnear⟩ := shifted_near hpos hleast hmost shifts
  obtain ⟨k, rfl⟩ := hnear.octaves
  rw [← hc] at hshifted
  rw [hshifted]
  exact ⟨k, rfl, rfl, atRate_rate? hnear.pos, hnear.above, hnear.below⟩

/-- Three steps in a second, between one and twelve. -/
private def triple : Clock Rat := ⟨1 / 3, 1, 12⟩

private theorem triple_rate? : triple.rate? = some 3 := by
  norm_num [rate?_exact, triple]

theorem shifted_bounds_triple : triple.InRange ∧ triple.rate? = some 3 ∧
    (∀ shifts, ∀ r ∈ (triple.shifted shifts).rate?, r ≤ 12) ∧
    ¬ ∀ shifts, ∀ r ∈ (triple.shifted shifts).rate?, 1 ≤ r := by
  have h : triple.InRange :=
    { interval_pos := by norm_num [triple]
      leastRate_pos := by norm_num [triple]
      rate_between := by
        intro r hr
        obtain rfl : 3 = r := Option.some.inj (triple_rate?.symm.trans hr)
        norm_num [triple] }
  obtain ⟨rate, hrate, -, hupper, hlower⟩ := shifted_bounds h
  obtain rfl : rate = 3 := Option.some.inj (hrate.symm.trans triple_rate?)
  refine ⟨h, hrate, hupper.mpr ⟨2, by norm_num [triple]⟩, fun hall => ?_⟩
  obtain ⟨n, hn⟩ := hlower.mp hall
  change (3 : Rat) = 1 * 2 ^ n at hn
  have hodd : 3 = 1 * 2 ^ n := by exact_mod_cast hn
  cases n with
  | zero => cases hodd
  | succ n => omega

/-- A clock of two steps in a second that may make three is sped up to four. -/
theorem sped_past_bound : ∃ c : Clock Rat, ofRate 2 (1 / 2) 3 = .ok c ∧ c.InRange ∧
    c.rate? = some 2 ∧ (c.shifted [.up]).rate? = some 4 ∧ ¬ (c.shifted [.up]).InRange := by
  have hadmits : Admits 2 (1 / 2) 3 := by norm_num [Admits]
  have hrate : max (1 / 2) (min 2 3) = (2 : Rat) := by norm_num
  have hclock := hadmits.ofRate_eq
  have hrange := hadmits.inRange
  rw [hrate] at hclock hrange
  have hup : shifted ⟨1 / 2, 1 / 2, 3⟩ [.up] = (⟨1 / 4, 1 / 2, 3⟩ : Clock Rat) := by
    norm_num [shifted, shift?, speedUp?, rate?_exact, Scalar.le, Scalar.div, Scalar.two]
  have hfast : rate? (⟨1 / 4, 1 / 2, 3⟩ : Clock Rat) = some 4 := by norm_num [rate?_exact]
  refine ⟨⟨1 / 2, 1 / 2, 3⟩, hclock, hrange, by norm_num [rate?_exact], hup ▸ hfast, ?_⟩
  rw [hup]
  intro h
  have hle : (4 : Rat) ≤ 3 := (h.rate_between 4 hfast).2
  norm_num at hle

end Clock
end FourBit
