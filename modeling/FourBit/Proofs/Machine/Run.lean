import Mathlib.Logic.Function.Iterate
import FourBit.Proofs.Machine.Invariant

/-! Runs: steps taken one after the other.
On a machine within bounds every step is taken, so a run is the next machine again and again. -/
namespace FourBit.Machine
variable {m : Machine} {limit reach : Int}

def after (m : Machine) (n : Nat) : Machine := (fun m => (step m).state)^[n] m

theorem after_zero (m : Machine) : m.after 0 = m := rfl

theorem after_succ_step (m : Machine) (n : Nat) : m.after (n + 1) = (step (m.after n)).state := by
  rw [after, Function.iterate_succ_apply', after]

theorem Bounded.after_succ (h : m.Bounded limit reach) (hb : m.variant.Bounds limit reach)
    (n : Nat) : m.after (n + 1) = m.next.after n := by
  rw [Machine.after, Function.iterate_succ_apply, h.step_run hb, Machine.after]

theorem Bounded.after (h : m.Bounded limit reach) (hb : m.variant.Bounds limit reach) (n : Nat) :
    (m.after n).Bounded limit reach ∧ (m.after n).variant = m.variant := by
  induction n generalizing m with
  | zero => exact ⟨h, rfl⟩
  | succ n ih =>
    have hs := next_variant m
    rw [h.after_succ hb]
    obtain ⟨hr, he⟩ := ih (h.next hb) (hs ▸ hb)
    exact ⟨hr, he.trans hs⟩

theorem InRange.step_state (h : m.InRange) (hv : m.variant.Sound) : (step m).state = m.next := by
  rw [h.step_run hv]

theorem InRange.after_succ (h : m.InRange) (hv : m.variant.Sound) (n : Nat) :
    m.after (n + 1) = m.next.after n := h.bounded.after_succ (inRange_bounds hv) n

theorem InRange.after (h : m.InRange) (hv : m.variant.Sound) (n : Nat) :
    (m.after n).InRange ∧ (m.after n).variant = m.variant := by
  obtain ⟨hr, hs⟩ := h.bounded.after (inRange_bounds hv) n
  refine ⟨hr.inRange ?_, hs⟩
  rw [capacity, capacity, hs]
  exact Int.sub_lt_self _ Int.one_pos

theorem InRange.after_succ' (h : m.InRange) (hv : m.variant.Sound) (n : Nat) :
    m.after (n + 1) = (m.after n).next := by
  obtain ⟨hr, hs⟩ := h.after hv n
  rw [after_succ_step]
  exact hr.step_state (hs ▸ hv)

theorem InRange.after_answer (h : m.InRange) (hv : m.variant.Sound) (n : Nat) :
    (step (m.after n)).answer = .ok () := by
  obtain ⟨hr, hs⟩ := h.after hv n
  rw [hr.step_run (hs ▸ hv)]

theorem next_cycles (m : Machine) : m.next.cycles = m.cycles + 1 := by
  change (m.started.performed m.current).cycles + 1 = _
  rw [performed_cycles]
  rfl

theorem InRange.after_cycles (h : m.InRange) (hv : m.variant.Sound) (n : Nat) :
    (m.after n).cycles = m.cycles + n := by
  induction n with
  | zero => exact (Int.add_zero _).symm
  | succ n ih =>
    rw [h.after_succ' hv, next_cycles, ih]
    omega

theorem next_setHalt (m : Machine) (halt : Bool) :
    { m with haltRequested := halt }.next = { m.next with haltRequested := halt } := by
  have hp := performed_setHalt m.started halt m.current
  exact congrArg (fun m' : Machine => { m' with cycles := m'.cycles + 1 }) hp

theorem InRange.after_setHalt (h : m.InRange) (hv : m.variant.Sound) (halt : Bool) (n : Nat) :
    { m with haltRequested := halt }.after n = { m.after n with haltRequested := halt } := by
  induction n generalizing m with
  | zero => rfl
  | succ n ih =>
    rw [(h.setHalt halt).after_succ hv, h.after_succ hv, next_setHalt]
    exact ih (h.next hv) ((next_variant m) ▸ hv)

theorem InRange.after_haltRequested (h : m.InRange) (hv : m.variant.Sound) (n : Nat) :
    (m.after n).haltRequested = m.haltRequested := by
  have hs := congrArg Machine.haltRequested (h.after_setHalt hv m.haltRequested n)
  exact hs

end FourBit.Machine
