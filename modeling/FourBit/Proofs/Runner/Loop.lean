import Mathlib.Data.Nat.Find
import Mathlib.Order.Bounds.Defs
import FourBit.Runner
import FourBit.Proofs.Machine.Run

/-! The loop of a run under an observer that stops or resets the machine.
The loop takes one step after the other until the observer has stepped in or the steps are used
up, and what it hands to the observer is what those steps make of the machine. -/
namespace FourBit

namespace Observer

/-- Whether the observer stops or resets a machine at a cycle count. -/
def Acts (o : Observer) (cycles : Int) : Prop := o.stopAt = some cycles ∨ o.resetAt = some cycles

/-- The machine once the observer has seen it. -/
def left (o : Observer) (m : Machine) : Machine :=
  if o.resetAt = some m.cycles then { Machine.fresh m.variant with haltRequested := true }
  else if o.stopAt = some m.cycles then { m with haltRequested := true }
  else m

theorem left_of_acts {o : Observer} {m : Machine} (h : o.Acts m.cycles) :
    (o.left m).haltRequested = true := by
  unfold left
  split
  · rfl
  · rw [if_pos (h.resolve_right ‹_›)]

theorem left_of_not {o : Observer} {m : Machine} (h : ¬ o.Acts m.cycles) : o.left m = m := by
  rw [left, if_neg (fun hr => h (.inr hr)), if_neg (fun hs => h (.inl hs))]

end Observer

namespace Runner
variable {r : Runner} {o : Observer}

private theorem observe_run (ho : o.speedUpAt = none) (r : Runner) :
    ∃ events, observe o r =
      ⟨.ok r.machine.snapshot, { r with machine := o.left r.machine }, events⟩ := by
  have hs (s : Snapshot) : o.speedUpAt ≠ some s.cycles := by simp [ho]
  have hc : r.machine.snapshot.cycles = r.machine.cycles := rfl
  by_cases hstop : o.stopAt = some r.machine.cycles <;>
    by_cases hreset : o.resetAt = some r.machine.cycles <;>
      simp [observe, hc, hs, hstop, hreset, Observer.left, stop, onMachine, Machine.requestHalt,
        Machine.reset]

private theorem tick_run (ho : o.speedUpAt = none) (h : r.machine.InRange)
    (hv : r.machine.variant.Sound) :
    ∃ events, tick (some o) r = ⟨.ok [r.machine.next.snapshot],
      { r with machine := o.left r.machine.next }, events⟩ := by
  obtain ⟨events, he⟩ := observe_run ho { r with machine := r.machine.next }
  have hstep : onMachine Machine.step r = ⟨.ok (), { r with machine := r.machine.next },
      (Machine.step r.machine).events⟩ := by
    rw [onMachine, h.step_run hv]
  exact ⟨(Machine.step r.machine).events ++ (events ++ []), by simp [tick, hstep, he]⟩

def waits (clock : Clock Float) (n : Nat) : List Float :=
  if clock.interval == 0 then [] else List.replicate n clock.interval

private theorem waits_zero (clock : Clock Float) : waits clock 0 = [] := by
  unfold waits
  split <;> rfl

private theorem waits_succ (clock : Clock Float) (n : Nat) :
    waits clock (n + 1) = wait clock ++ waits clock n := by
  unfold waits wait
  split <;> rfl

def sights (m : Machine) (n : Nat) : List Snapshot :=
  (List.range n).map fun k => (m.after (k + 1)).snapshot

private theorem sights_succ (m : Machine) (n : Nat) :
    sights m (n + 1) = sights m n ++ [(m.after (n + 1)).snapshot] := by
  simp [sights, List.range_succ]

def progress (r : Runner) (n : Nat) : Trace :=
  ⟨n, (sights r.machine n).reverse, waits r.clock n⟩

private theorem progress_zero (r : Runner) : progress r 0 = {} := by
  rw [progress, waits_zero]
  rfl

private theorem proceed_turn (ho : o.speedUpAt = none) (h : r.machine.InRange)
    (hv : r.machine.variant.Sound) (hr : r.machine.haltRequested = false) (n fuel : Nat)
    (events : List Event) :
    ∃ events', proceed (some o) (progress r n) events (fuel + 1)
        { r with machine := r.machine.after n } =
      proceed (some o) (progress r (n + 1)) events' fuel
        { r with machine := o.left (r.machine.after (n + 1)) } := by
  obtain ⟨hrange, hvariant⟩ := h.after hv n
  have hhalt := (h.after_haltRequested hv n).trans hr
  obtain ⟨new, he⟩ := tick_run (r := { r with machine := r.machine.after n }) ho hrange
    (hvariant ▸ hv)
  have hnext : (r.machine.after n).next = r.machine.after (n + 1) := (h.after_succ' hv n).symm
  have htrace : progress r (n + 1) = ⟨n + 1, (r.machine.after (n + 1)).snapshot ::
      (sights r.machine n).reverse, wait r.clock ++ waits r.clock n⟩ := by
    rw [progress, sights_succ, waits_succ, List.reverse_append]
    rfl
  refine ⟨new.reverse ++ events, ?_⟩
  rw [proceed, if_neg (by rw [hhalt]; exact Bool.false_ne_true), he, htrace]
  simp only [hnext]
  rfl

private theorem proceed_quiet (ho : o.speedUpAt = none) (h : r.machine.InRange)
    (hv : r.machine.variant.Sound) (hr : r.machine.haltRequested = false) (n fuel : Nat)
    (hq : ∀ k < n, ¬ o.Acts (r.machine.after (k + 1)).cycles) :
    ∃ events, proceed (some o) {} [] (fuel + n) r =
      proceed (some o) (progress r n) events fuel { r with machine := r.machine.after n } := by
  induction n generalizing fuel with
  | zero => exact ⟨[], by rw [progress_zero, Machine.after_zero, Nat.add_zero]⟩
  | succ n ih =>
    obtain ⟨events₁, he₁⟩ := ih (fuel + 1) (fun k hk => hq k (Nat.lt_succ_of_lt hk))
    obtain ⟨events₂, he₂⟩ := proceed_turn ho h hv hr n fuel events₁
    refine ⟨events₂, ?_⟩
    rw [show fuel + (n + 1) = fuel + 1 + n by omega, he₁, he₂,
      Observer.left_of_not (hq n (Nat.lt_succ_self n))]

private theorem proceed_halted (hr : r.machine.haltRequested = true) (trace : Trace)
    (events : List Event) (fuel : Nat) :
    proceed (some o) trace events fuel r = ⟨.ok trace, r, events.reverse⟩ := by
  cases fuel with
  | zero => rfl
  | succ fuel => rw [proceed, if_pos hr]

private theorem proceed_run (ho : o.speedUpAt = none) (h : r.machine.InRange)
    (hv : r.machine.variant.Sound) (hr : r.machine.haltRequested = false) (n more : Nat)
    (hq : ∀ k, k + 1 < n → ¬ o.Acts (r.machine.after (k + 1)).cycles)
    (hm : more = 0 ∨ 0 < n ∧ o.Acts (r.machine.after n).cycles) :
    ∃ events, proceed (some o) {} [] (more + n) r = ⟨.ok (progress r n),
      { r with machine := if n = 0 then r.machine else o.left (r.machine.after n) }, events⟩ := by
  cases n with
  | zero =>
    obtain rfl : more = 0 := by omega
    exact ⟨[], by rw [progress_zero]; rfl⟩
  | succ n =>
    obtain ⟨events₁, he₁⟩ := proceed_quiet ho h hv hr n (more + 1)
      (fun k hk => hq k (Nat.succ_lt_succ hk))
    obtain ⟨events₂, he₂⟩ := proceed_turn ho h hv hr n more events₁
    refine ⟨events₂.reverse, ?_⟩
    rw [show more + (n + 1) = more + 1 + n by omega, he₁, he₂]
    rcases hm with rfl | ⟨_, hacts⟩
    · rfl
    · exact proceed_halted (Observer.left_of_acts hacts) _ _ _

private theorem proceed_more {trace trace' : Trace} {events events' : List Event} {r' : Runner}
    (fuel more : Nat) (h : proceed (some o) trace events fuel r = ⟨.ok trace', r', events'⟩)
    (hr : r'.machine.haltRequested = true) :
    proceed (some o) trace events (fuel + more) r = ⟨.ok trace', r', events'⟩ := by
  induction fuel generalizing trace events r with
  | zero =>
    obtain ⟨rfl, rfl, rfl⟩ : trace = trace' ∧ r = r' ∧ events.reverse = events' := by
      simpa [proceed] using h
    exact proceed_halted hr trace events (0 + more)
  | succ fuel ih =>
    rw [Nat.add_right_comm, proceed]
    rw [proceed] at h
    split at h
    · rw [if_pos ‹_›, h]
    · rw [if_neg ‹_›]
      rcases ht : tick (some o) r with ⟨answer, state, new⟩
      cases answer with
      | error e => simp [ht] at h
      | ok seen =>
        simp only [ht] at h ⊢
        exact ih h

/-- The numbers of steps at which a run may end: its limit, and those that lead to a cycle count at
which the observer steps in. -/
def ends (limit : Option Int) (o : Observer) (cycles : Int) : Set Nat :=
  {n | (∃ l ∈ limit, (n : Int) = max 0 l) ∨ ∃ c, o.Acts c ∧ cycles < c ∧ (n : Int) = c - cycles}

/-- The machine at the end of a run: reset if the observer has reset it, else the machine after
that many steps, halted if the observer has stopped it. -/
def finished (o : Observer) (m : Machine) (n : Nat) : Machine :=
  if 0 < n ∧ o.resetAt = some (m.cycles + n) then
    { Machine.fresh m.variant with haltRequested := true }
  else { m.after n with haltRequested := decide (0 < n ∧ o.stopAt = some (m.cycles + n)) }

private theorem exists_least {limit : Option Int} {cycles : Int}
    (hb : limit ≠ none ∨ ∃ c, o.Acts c ∧ cycles < c) : ∃ n, IsLeast (ends limit o cycles) n := by
  classical
  have hne : ∃ n, n ∈ ends limit o cycles := by
    rcases hb with hl | ⟨c, hc, hlt⟩
    · obtain ⟨l, rfl⟩ := Option.ne_none_iff_exists'.mp hl
      exact ⟨l.toNat, .inl ⟨l, rfl, by omega⟩⟩
    · exact ⟨(c - cycles).toNat, .inr ⟨c, hc, hlt, by omega⟩⟩
  exact ⟨Nat.find hne, Nat.find_spec hne, fun n hn => Nat.find_min' hne hn⟩

private theorem horizon_eq {cycles : Int} {n : Nat} (hn : IsLeast (ends none o cycles) n) :
    horizon (some o) cycles = n := by
  have hmem (k : Nat) : k ∈ ends none o cycles ↔
      k ∈ ((([o.stopAt, o.resetAt].filterMap id).map (· - cycles)).filter (0 < ·)).map
        Int.toNat := by
    have hacts (c : Int) : c ∈ [o.stopAt, o.resetAt].filterMap id ↔ o.Acts c := by
      simp [List.mem_filterMap, Observer.Acts, eq_comm]
    simp only [List.mem_map, List.mem_filter, hacts, decide_eq_true_eq]
    constructor
    · rintro (⟨l, hl, _⟩ | ⟨c, hc, hlt, hk⟩)
      · cases hl
      · exact ⟨c - cycles, ⟨⟨c, hc, rfl⟩, by omega⟩, by omega⟩
    · rintro ⟨_, ⟨⟨c, hc, rfl⟩, hpos⟩, rfl⟩
      exact .inr ⟨c, hc, by omega, by omega⟩
  have hleast : leastPositive (([o.stopAt, o.resetAt].filterMap id).map (· - cycles)) = some n := by
    rw [leastPositive, List.min?_eq_some_iff]
    exact ⟨(hmem n).mp hn.1, fun k hk => hn.2 ((hmem k).mpr hk)⟩
  simp only [horizon, Option.elim_some, hleast, Option.getD_some]

private theorem acts_of_end {cycles c : Int} {n : Nat} (hc : o.Acts c) (hlt : cycles < c)
    (heq : (n : Int) = c - cycles) : 0 < n ∧ o.Acts (cycles + n) := by
  refine ⟨by omega, ?_⟩
  rwa [show cycles + n = c by omega]

private theorem fuel_eq {limit : Option Int} {cycles : Int} {n : Nat}
    (hn : IsLeast (ends limit o cycles) n) :
    ∃ more, limit.elim (horizon (some o) cycles) Int.toNat = more + n ∧
      (more = 0 ∨ 0 < n ∧ o.Acts (cycles + n)) := by
  cases limit with
  | none => exact ⟨0, (horizon_eq hn).trans (Nat.zero_add n).symm, .inl rfl⟩
  | some l =>
    have hle : n ≤ l.toNat := hn.2 (.inl ⟨l, rfl, by omega⟩)
    refine ⟨l.toNat - n, (Nat.sub_add_cancel hle).symm, ?_⟩
    rcases hn.1 with ⟨l', hl, hl'⟩ | ⟨c, hc, hlt, heq⟩
    · obtain rfl : l = l' := Option.some.inj hl
      exact .inl (by omega)
    · exact .inr (acts_of_end hc hlt heq)

/-- The run before its first step: whoever asked for a halt before is not heard. -/
def started (r : Runner) : Runner := { r with machine := { r.machine with haltRequested := false } }

theorem run_answer {limit : Option Int} (hw : ∀ l ∈ limit, Numeral.isWritable l = true)
    {observer : Option Observer} {trace : Trace} {r' : Runner} {events : List Event}
    (hp : proceed observer {} [] (limit.elim (horizon observer r.machine.cycles) Int.toNat)
      r.started = ⟨.ok trace, r', events⟩) :
    (run limit observer r).answer = .ok trace ∧ (run limit observer r).state = r' := by
  cases limit with
  | none =>
    simp only [Option.elim_none, started] at hp
    simp [run, onMachine, hp]
  | some l =>
    simp only [Option.elim_some, started] at hp
    simp [run, onMachine, writeDecimal, hw l rfl, Except.map, hp]

private theorem run_refused (o : Option Observer) (r : Runner) {l : Int}
    (hw : Numeral.isWritable l = false) :
    (run (some l) o r).answer = .error (.tooManyDigits (Nat.toDigits 10 l.natAbs).length) ∧
      (run (some l) o r).state = r.started := by
  simp [run, started, onMachine, writeDecimal, hw, Except.map]

private theorem sights_setHalt (h : r.machine.InRange) (hv : r.machine.variant.Sound) (n : Nat) :
    sights r.started.machine n = sights r.machine n := by
  refine List.map_congr_left fun k _ => ?_
  have hs := congrArg Machine.snapshot (h.after_setHalt hv false (k + 1))
  exact hs

private theorem finished_eq (h : r.machine.InRange) (hv : r.machine.variant.Sound) (n : Nat) :
    (if n = 0 then r.started.machine else o.left (r.started.machine.after n)) =
      finished o r.machine n := by
  have hafter : r.started.machine.after n = { r.machine.after n with haltRequested := false } :=
    h.after_setHalt hv false n
  have hvariant := (h.after hv n).2
  have hcycles := h.after_cycles hv n
  cases n with
  | zero => rfl
  | succ n =>
    rw [if_neg n.succ_ne_zero, hafter, Observer.left, finished]
    simp only [hcycles, hvariant, Nat.succ_pos, true_and]
    split
    · rfl
    · split <;> simp_all

private theorem finished_halted {m : Machine} {n : Nat} (h : 0 < n ∧ o.Acts (m.cycles + n)) :
    (finished o m n).haltRequested = true := by
  obtain ⟨hpos, hacts⟩ := h
  rw [finished]
  by_cases hreset : o.resetAt = some (m.cycles + n)
  · rw [if_pos ⟨hpos, hreset⟩]
  · rw [if_neg fun hr => hreset hr.2]
    exact decide_eq_true ⟨hpos, hacts.resolve_right hreset⟩

private theorem quiet_before {cycles : Int} {limit : Option Int} {n k : Nat}
    (hn : IsLeast (ends limit o cycles) n) (hpos : 0 < k) (hk : k < n) :
    ¬ o.Acts (cycles + k) := by
  intro hacts
  have hle : n ≤ k := hn.2 (.inr ⟨_, hacts, by omega, by omega⟩)
  omega

theorem proceed_finished (ho : o.speedUpAt = none) (h : r.machine.InRange)
    (hv : r.machine.variant.Sound) {limit : Option Int} {n more : Nat}
    (hn : IsLeast (ends limit o r.machine.cycles) n)
    (hm : more = 0 ∨ 0 < n ∧ o.Acts (r.machine.cycles + n)) :
    ∃ events, proceed (some o) {} [] (more + n) r.started =
      ⟨.ok ⟨n, (sights r.machine n).reverse, waits r.clock n⟩,
        { r with machine := finished o r.machine n }, events⟩ := by
  have hrange : r.started.machine.InRange := h.setHalt false
  have hcycles (k : Nat) : (r.started.machine.after k).cycles = r.machine.cycles + k :=
    hrange.after_cycles hv k
  have hquiet (k : Nat) (hk : k + 1 < n) : ¬ o.Acts (r.started.machine.after (k + 1)).cycles := by
    rw [hcycles]
    exact quiet_before hn k.succ_pos hk
  rw [← hcycles] at hm
  obtain ⟨events, he⟩ := proceed_run ho hrange hv rfl n more hquiet hm
  refine ⟨events, he.trans ?_⟩
  rw [finished_eq h hv, progress, sights_setHalt h hv]
  rfl

private theorem run_finished (ho : o.speedUpAt = none) (h : r.machine.InRange)
    (hv : r.machine.variant.Sound) {limit : Option Int} {n : Nat}
    (hn : IsLeast (ends limit o r.machine.cycles) n)
    (hw : ∀ l ∈ limit, Numeral.isWritable l = true) :
    (run limit (some o) r).answer = .ok ⟨n, (sights r.machine n).reverse, waits r.clock n⟩ ∧
      (run limit (some o) r).state = { r with machine := finished o r.machine n } := by
  obtain ⟨more, hfuel, hm⟩ := fuel_eq hn
  obtain ⟨events, he⟩ := proceed_finished ho h hv hn hm
  exact run_answer hw (hfuel ▸ he)

/-- A run of a machine in range under an observer that stops or resets it. The run takes as many
steps as the least of its ends; its observer sees the machine of each step, and the machine ends as
those steps leave it. An unlimited run ends by itself: it does not matter how much farther it would
be followed. A limit of too many digits cannot be reported, and such a run takes no step. -/
theorem run_refines_steps (r : Runner) (hv : r.machine.variant.Sound) (h : r.machine.InRange)
    (limit stopAt resetAt : Option Int)
    (hb : limit ≠ none ∨ ∃ c, (stopAt = some c ∨ resetAt = some c) ∧ r.machine.cycles < c) :
    let o : Observer := { stopAt, resetAt }
    let outcome := run limit (some o) r
    ∃ n, IsLeast (ends limit o r.machine.cycles) n ∧
      ((∀ l ∈ limit, Numeral.isWritable l = true) →
        outcome.answer = .ok ⟨n, (sights r.machine n).reverse, waits r.clock n⟩ ∧
        outcome.state = { r with machine := finished o r.machine n }) ∧
      (sights r.machine n).map Snapshot.cycles =
        (List.range n).map (fun k => r.machine.cycles + (k + 1 : Nat)) ∧
      (limit = none → ∀ more,
        proceed (some o) {} [] (n + more) r.started = proceed (some o) {} [] n r.started) ∧
      (∀ l ∈ limit, Numeral.isWritable l = false →
        outcome.answer = .error (.tooManyDigits (Nat.toDigits 10 l.natAbs).length) ∧
        outcome.state = r.started) := by
  intro o outcome
  obtain ⟨n, hn⟩ := exists_least (o := o) hb
  refine ⟨n, hn, run_finished rfl h hv hn, ?_, ?_, ?_⟩
  · rw [sights, List.map_map]
    exact List.map_congr_left fun k _ => h.after_cycles hv (k + 1)
  · rintro rfl more
    have hacts : 0 < n ∧ o.Acts (r.machine.cycles + n) := by
      rcases hn.1 with ⟨l, hl, _⟩ | ⟨c, hc, hlt, heq⟩
      · cases hl
      · exact acts_of_end hc hlt heq
    obtain ⟨events, he⟩ := proceed_finished rfl h hv hn (.inl rfl)
    rw [Nat.zero_add] at he
    rw [he]
    exact proceed_more n more he (finished_halted hacts)
  · rintro l rfl hw
    exact run_refused (some o) r hw

private def fresh256 : Runner := ⟨Machine.fresh .nv256, Clock.standard⟩

private theorem fresh256_sound : fresh256.machine.variant.Sound :=
  Variant.builtin_sound .nv256 (by decide)

private theorem fresh256_inRange : fresh256.machine.InRange := Machine.fresh_inRange fresh256_sound

/-- The observer stops this run before its limit, and a reset in the past is never made. -/
theorem run_stopped_at_three :
    fresh256.machine.variant.Sound ∧ fresh256.machine.InRange ∧
      let outcome := run (some 7) (some { stopAt := some 3, resetAt := some (-2) }) fresh256
      outcome.answer = .ok ⟨3, (sights fresh256.machine 3).reverse, waits fresh256.clock 3⟩ ∧
        outcome.state.machine = { fresh256.machine.after 3 with haltRequested := true } := by
  refine ⟨fresh256_sound, fresh256_inRange, ?_⟩
  obtain ⟨n, hn, hrun, -⟩ := run_refines_steps fresh256 fresh256_sound fresh256_inRange (some 7)
    (some 3) (some (-2)) (.inl (Option.some_ne_none 7))
  have hthree : IsLeast (ends (some 7) { stopAt := some 3, resetAt := some (-2) } 0) 3 := by
    refine ⟨.inr ⟨3, .inl rfl, by decide, by decide⟩, ?_⟩
    rintro k (⟨l, hl, hk⟩ | ⟨c, hc | hc, hlt, hk⟩)
    · obtain rfl : 7 = l := Option.some.inj hl
      omega
    · obtain rfl : 3 = c := Option.some.inj hc
      omega
    · obtain rfl : -2 = c := Option.some.inj hc
      omega
  obtain rfl : n = 3 := Nat.le_antisymm (hn.2 hthree.1) (hthree.2 hn.1)
  have hw : ∀ l ∈ some (7 : Int), Numeral.isWritable l = true := by
    intro l hl
    obtain rfl : 7 = l := Option.some.inj hl
    exact Numeral.isWritable_of_lt (by decide)
  have hf : finished { stopAt := some 3, resetAt := some (-2) } fresh256.machine 3 =
      { fresh256.machine.after 3 with haltRequested := true } := by
    have hc : fresh256.machine.cycles = 0 := rfl
    simp [finished, hc]
  obtain ⟨ha, hs⟩ := hrun hw
  refine ⟨ha, ?_⟩
  rw [hs]
  exact hf

/-- A machine that its observer resets does not end as its steps have left it, and a limit may have
too many digits for the run to begin. -/
theorem run_reset_forgets_step :
    fresh256.machine.variant.Sound ∧ fresh256.machine.InRange ∧
      (let outcome := run none (some { resetAt := some 1 }) fresh256
      (∃ trace, outcome.answer = .ok trace ∧ trace.steps = 1) ∧
        ∀ halt, outcome.state.machine ≠ { fresh256.machine.after 1 with haltRequested := halt }) ∧
      let long : Int := Nat.pow 10 Numeral.maxDigits
      ∀ trace, (run (some long) (some { stopAt := some 1 }) fresh256).answer ≠ .ok trace := by
  have hone : IsLeast (ends none { resetAt := some 1 } 0) 1 := by
    refine ⟨.inr ⟨1, .inr rfl, by decide, by decide⟩, ?_⟩
    rintro k (⟨l, hl, _⟩ | ⟨c, hc | hc, hlt, hk⟩)
    · cases hl
    · cases hc
    · omega
  obtain ⟨ha, hs⟩ := run_finished rfl fresh256_inRange fresh256_sound hone (fun l hl => by cases hl)
  refine ⟨fresh256_sound, fresh256_inRange, ⟨⟨_, ha, rfl⟩, fun halt he => ?_⟩, fun trace ht => ?_⟩
  · have hreset : finished { resetAt := some 1 } fresh256.machine 1 =
        { Machine.fresh .nv256 with haltRequested := true } := if_pos ⟨Nat.one_pos, rfl⟩
    have hafter := fresh256_inRange.after_cycles fresh256_sound 1
    rw [hs, hreset] at he
    have hc := congrArg Machine.cycles he
    simp only [hafter] at hc
    exact absurd hc (by decide)
  · have hw : Numeral.isWritable (Nat.pow 10 Numeral.maxDigits) = false := by
      rw [Bool.eq_false_iff, Ne, Numeral.isWritable_iff, Int.natAbs_natCast]
      exact Nat.lt_irrefl _
    rw [(run_refused _ fresh256 hw).1] at ht
    cases ht

end Runner
end FourBit
