import FourBit.Proofs.Runner.Loop

/-! Runs under an observer that only looks on, or under none.
They differ in what has been seen and in nothing else, so both are a number of steps. -/
namespace FourBit.Runner
variable {r : Runner}

def unseen (trace : Trace) : Trace := { trace with seen := [] }

private theorem tick_idle (r : Runner) :
    (∃ r' events, tick none r = ⟨.ok [], r', events⟩ ∧
      tick (some {}) r = ⟨.ok [r'.machine.snapshot], r', events⟩) ∨
    ∃ e r' events, tick none r = ⟨.error e, r', events⟩ ∧
      tick (some {}) r = ⟨.error e, r', events⟩ := by
  rcases h : onMachine Machine.step r with ⟨answer, r', events⟩
  cases answer with
  | ok => exact .inl ⟨r', events, by simp [tick, h], by simp [tick, h, observe]⟩
  | error e => exact .inr ⟨e, r', events, by simp [tick, h], by simp [tick, h]⟩

private theorem proceed_unseen (trace : Trace) (events : List Event) (fuel : Nat) (r : Runner) :
    proceed none (unseen trace) events fuel r =
      let watched := proceed (some {}) trace events fuel r
      ⟨watched.answer.map unseen, watched.state, watched.events⟩ := by
  induction fuel generalizing trace events r with
  | zero => rfl
  | succ fuel ih =>
    rw [proceed, proceed]
    by_cases hr : r.machine.haltRequested = true
    · rw [if_pos hr, if_pos hr]
      rfl
    · rw [if_neg hr, if_neg hr]
      rcases tick_idle r with ⟨r', new, hnone, hsome⟩ | ⟨e, r', new, hnone, hsome⟩
      · rw [hnone, hsome]
        exact ih ⟨trace.steps + 1, _, _⟩ _ r'
      · rw [hnone, hsome]
        rfl

private theorem isLeast_ends {steps : Int} (hs : 0 ≤ steps) (cycles : Int) :
    IsLeast (ends (some steps) {} cycles) steps.toNat := by
  refine ⟨.inl ⟨steps, rfl, by omega⟩, ?_⟩
  rintro k (⟨l, hl, hk⟩ | ⟨c, hc | hc, -⟩)
  · obtain rfl : steps = l := Option.some.inj hl
    omega
  · cases hc
  · cases hc

theorem run_quiet (h : r.machine.InRange) (hv : r.machine.variant.Sound) {steps : Int}
    (hs : 0 ≤ steps) (hw : Numeral.isWritable steps = true) (watched : Bool) :
    let outcome := run (some steps) (if watched then some {} else none) r
    outcome.answer = .ok ⟨steps.toNat,
      if watched then (sights r.machine steps.toNat).reverse else [], waits r.clock steps.toNat⟩ ∧
    outcome.state =
      { r with machine := { r.machine.after steps.toNat with haltRequested := false } } := by
  have hlimit : ∀ l ∈ some steps, Numeral.isWritable l = true := by
    intro l hl
    obtain rfl : steps = l := Option.some.inj hl
    exact hw
  obtain ⟨events, hloop⟩ := proceed_finished (o := {}) rfl h hv (isLeast_ends hs _) (.inl rfl)
  rw [Nat.zero_add] at hloop
  have hfinished : finished {} r.machine steps.toNat =
      { r.machine.after steps.toNat with haltRequested := false } := by
    simp [finished]
  rw [hfinished] at hloop
  cases watched with
  | true => exact run_answer hlimit hloop
  | false =>
    have hunseen := proceed_unseen {} [] steps.toNat r.started
    rw [hloop] at hunseen
    exact run_answer hlimit hunseen

end FourBit.Runner
