import FourBit.Proofs.Runner.Quiet

/-! What a run records for debugging.
Under an observer that only looks on, each step records the instruction that it has fetched, with
the address of that, and nothing else is recorded at that level. -/
namespace FourBit

namespace Machine
variable {m : Machine}

def fetches (m : Machine) (n : Nat) : List Event :=
  (List.range n).map fun k => .fetched (m.after k).pc (m.after k).current

theorem length_fetches (m : Machine) (n : Nat) : (m.fetches n).length = n := by
  rw [fetches, List.length_map, List.length_range]

theorem eq_of_getElem?_fetches {n k : Nat} {e : Event} (h : (m.fetches n)[k]? = some e) :
    e = .fetched (m.after k).pc (m.after k).current := by
  obtain ⟨hlt, he⟩ := List.getElem?_eq_some_iff.mp h
  simp only [fetches, List.getElem_map, List.getElem_range] at he
  exact he.symm

theorem InRange.fetches_succ (h : m.InRange) (hv : m.variant.Sound) (n : Nat) :
    m.fetches (n + 1) = .fetched m.pc m.current :: m.next.fetches n := by
  rw [fetches, List.range_succ_eq_map, List.map_cons, List.map_map, fetches]
  congr 1
  refine List.map_congr_left fun k _ => ?_
  rw [Function.comp_apply, Nat.succ_eq_add_one, h.after_succ hv]

theorem InRange.fetches_setHalt (h : m.InRange) (hv : m.variant.Sound) (halt : Bool) (n : Nat) :
    { m with haltRequested := halt }.fetches n = m.fetches n := by
  refine List.map_congr_left fun k _ => ?_
  rw [h.after_setHalt hv]
  rfl

theorem InRange.step_debug (h : m.InRange) (hv : m.variant.Sound) :
    (step m).events.filter (·.level = .debug) = [.fetched m.pc m.current] := by
  rw [h.step_run hv, Int.emod_eq_of_lt h.pc_cell.1 h.pc_cell.2]
  cases m.started.fault? m.current with
  | none => rfl
  | some fault => cases fault <;> rfl

end Machine

namespace Runner
variable {r : Runner}

theorem length_sights (m : Machine) (n : Nat) : (sights m n).length = n := by
  rw [sights, List.length_map, List.length_range]

theorem eq_of_getElem?_sights {m : Machine} {n k : Nat} {s : Snapshot}
    (h : (sights m n)[k]? = some s) : s = (m.after (k + 1)).snapshot := by
  obtain ⟨hlt, hs⟩ := List.getElem?_eq_some_iff.mp h
  simp only [sights, List.getElem_map, List.getElem_range] at hs
  exact hs.symm

private theorem proceed_debug (h : r.machine.InRange) (hv : r.machine.variant.Sound)
    (hr : r.machine.haltRequested = false) (trace : Trace) (events : List Event) (n : Nat) :
    (proceed (some {}) trace events n r).events.filter (·.level = .debug) =
      events.reverse.filter (·.level = .debug) ++ r.machine.fetches n := by
  induction n generalizing r trace events with
  | zero => exact (List.append_nil _).symm
  | succ n ih =>
    have hstep := h.step_run hv
    have htick : tick (some {}) r = ⟨.ok [r.machine.next.snapshot],
        { r with machine := r.machine.next }, (Machine.step r.machine).events⟩ := by
      simp [tick, observe, onMachine, hstep]
    have hhalt : r.machine.next.haltRequested = false := by
      have hafter := h.after_haltRequested hv 1
      rw [h.after_succ hv] at hafter
      exact hafter.trans hr
    rw [proceed, if_neg (Bool.eq_false_iff.mp hr), htick]
    dsimp only
    rw [ih (h.next hv) ((Machine.next_variant r.machine) ▸ hv) hhalt, List.reverse_append,
      List.reverse_reverse, List.filter_append, h.step_debug hv, List.append_assoc,
      h.fetches_succ hv]
    rfl

theorem run_debug (h : r.machine.InRange) (hv : r.machine.variant.Sound) {n : Nat}
    (hw : Numeral.isWritable n = true) :
    (run (some n) (some {}) r).events.filter (·.level = .debug) = r.machine.fetches n := by
  have hloop := proceed_debug (r := r.started) (h.setHalt false) hv rfl {} [] n
  rw [List.reverse_nil, List.filter_nil, List.nil_append] at hloop
  have hfetches : r.started.machine.fetches n = r.machine.fetches n := h.fetches_setHalt hv false n
  rw [hfetches] at hloop
  rcases hp : proceed (some {}) {} [] n r.started with ⟨answer, r', events⟩
  rw [hp] at hloop
  simp only [started] at hp
  cases answer <;>
    simpa [run, onMachine, writeDecimal, hw, Except.map, hp, Event.level] using hloop

end Runner
end FourBit
