import FourBit.Proofs.Machine.Frame

/-! Calls and returns through the stack.
A call pushes the program counter and a return pops it. Only the low nibble of its distance from the
origin is kept in between, so a return does not reach further than fifteen cells from the origin,
wherever the call was made. -/
namespace FourBit.Machine
variable {m : Machine}

/-- The next instruction pushes the program counter and is not refused. -/
structure Calls (m : Machine) : Prop where
  pushes : m.current.secondary? = some .pushPc
  room : m.sp < m.variant.stackBoundary

/-- The next instruction pops the program counter and is not refused. -/
structure Returns (m : Machine) : Prop where
  pops : m.current.secondary? = some .popPc
  filled : m.sp ≠ 0

/-- After a call and `n` more steps there is a return, with the stack pointer behind the cell that
the call has written and no other step has. -/
structure ReturnsAfter (m : Machine) (n : Nat) : Prop where
  spared : ∀ k < n, ¬ (m.after (k + 1)).Writes m.sp.toNat
  pops : (m.after (n + 1)).current.secondary? = some .popPc
  pointer : (m.after (n + 1)).sp = m.sp + 1

private theorem Calls.next_cell (hc : m.Calls) (h : m.InRange) :
    m.next.memory[m.sp.toNat]? = some ((m.fetched.pc - m.origin) % 16) := by
  have hlength := h.memory_length
  have hsp := h.sp_cell
  have hf : m.started.stackFault? .pushPc = none := if_neg (Int.not_le.mpr hc.room)
  rw [next_granted h (by decide) hc.pushes hf]
  exact List.getElem?_set_self (show m.sp.toNat < m.memory.length by omega)

private theorem Returns.next_eq (hr : m.Returns) (h : m.InRange) :
    m.next.sp = m.sp - 1 ∧ m.next.pc = (m.top + m.origin) % m.capacity := by
  have hf : m.started.stackFault? .popPc = none := if_neg hr.filled
  rw [next_granted h (by decide) hr.pops hf]
  exact ⟨rfl, rfl⟩

private theorem Returns.next_pc (hr : m.Returns) (h : m.InRange)
    (hv : m.variant ∈ Variant.builtin) : m.next.pc = m.origin + m.top := by
  have hroom : m.origin + 16 ≤ m.capacity :=
    (by decide : ∀ v ∈ Variant.builtin, v.programOrigin + 16 ≤ v.capacity) _ hv
  have horigin : 0 ≤ m.origin := (Variant.builtin_sound _ hv).origin_nonneg
  have htop : 0 ≤ m.top ∧ m.top < 16 :=
    h.bounded.top (inRange_bounds (Variant.builtin_sound _ hv)) hr.filled
  rw [(hr.next_eq h).2, Int.add_comm]
  exact Int.emod_eq_of_lt (by omega) (by omega)

private theorem ReturnsAfter.top_eq {n : Nat} (ha : m.ReturnsAfter n) (hc : m.Calls)
    (h : m.InRange) (hv : m.variant.Sound) :
    (m.after (n + 1)).top = (m.fetched.pc - m.origin) % 16 := by
  have hv' : m.next.variant.Sound := (next_variant m).symm ▸ hv
  have hspared : ∀ k < n, ¬ (m.next.after k).Writes m.sp.toNat := by
    intro k hk
    rw [← h.after_succ hv]
    exact ha.spared k hk
  have hcell := ((h.next hv).after_cell hv' n hspared).trans (hc.next_cell h)
  rw [← h.after_succ hv] at hcell
  rw [top, ha.pointer, Int.add_sub_cancel, cell, List.getD_eq_getElem?_getD, hcell,
    Option.getD_some]

/-- A return of a built-in machine goes to one of the sixteen cells from the origin on, in any run.
After a call it goes to the one that is as far behind the instruction after the call as the sixteen
divide, if no step in between has written the cell of the call; so it goes to that instruction just
when this is one of the sixteen. -/
theorem return_near_origin (m : Machine) (hv : m.variant ∈ Variant.builtin) (h : m.InRange) :
    (m.Calls → ∀ n, m.ReturnsAfter n →
      (∀ k < n + 2, (step (m.after k)).answer = .ok ()) ∧
      (m.after (n + 2)).sp = m.sp ∧
      (m.after (n + 2)).pc = m.origin + (m.fetched.pc - m.origin) % 16 ∧
      ((m.after (n + 2)).pc = m.fetched.pc ↔
        m.origin ≤ m.fetched.pc ∧ m.fetched.pc ≤ m.origin + 15)) ∧
    ∀ n, (m.after n).Returns →
      m.origin ≤ (m.after (n + 1)).pc ∧ (m.after (n + 1)).pc ≤ m.origin + 15 := by
  have hsound := Variant.builtin_sound _ hv
  refine ⟨fun hc n ha => ?_, fun n hr => ?_⟩
  · obtain ⟨hrange, hvariant⟩ := h.after hsound (n + 1)
    have horigin : (m.after (n + 1)).origin = m.origin := congrArg (·.programOrigin) hvariant
    have hr : (m.after (n + 1)).Returns := by
      refine ⟨ha.pops, ?_⟩
      have := h.sp_cell
      rw [ha.pointer]
      omega
    have hpc : (m.after (n + 2)).pc = m.origin + (m.fetched.pc - m.origin) % 16 := by
      rw [h.after_succ' hsound, hr.next_pc hrange (hvariant ▸ hv), horigin, ha.top_eq hc h hsound]
    refine ⟨fun k _ => h.after_answer hsound k, ?_, hpc, ?_⟩
    · rw [h.after_succ' hsound, (hr.next_eq hrange).1, ha.pointer, Int.add_sub_cancel]
    · rw [hpc]
      omega
  · obtain ⟨hrange, hvariant⟩ := h.after hsound n
    have horigin : (m.after n).origin = m.origin := congrArg (·.programOrigin) hvariant
    have htop := hrange.bounded.top (inRange_bounds (hvariant ▸ hsound)) hr.filled
    rw [h.after_succ' hsound, hr.next_pc hrange (hvariant ▸ hv), horigin]
    omega

/-- Calls right in front of the last cell, with a value on the stack, jumps, and returns. -/
private def calling : Machine :=
  { Machine.fresh .nv32 with
    memory := 2 :: List.replicate 16 0 ++ [10, 5, 0, 4] ++ List.replicate 9 0 ++ [3, 11]
    pc := 29
    sp := 1 }

/-- The instruction after the call is at the last cell, so the return goes to the origin. -/
theorem return_near_origin_of_calling :
    calling.variant ∈ Variant.builtin ∧ calling.InRange ∧ calling.Calls ∧ calling.ReturnsAfter 2 ∧
      (calling.after 3).Returns ∧ calling.fetched.pc = 31 ∧ (calling.after 4).pc = 15 ∧
      (calling.after 4).sp = 1 := by
  have hv : calling.variant ∈ Variant.builtin := by decide
  have hr : calling.InRange := { fresh_inRange (Variant.builtin_sound _ hv) with
    memory_length := by decide
    memory_nibble := by decide
    pc_cell := by decide
    sp_cell := by decide }
  have hc : calling.Calls := ⟨by decide, by decide⟩
  have ha : calling.ReturnsAfter 2 := ⟨by decide +kernel, by decide +kernel, by decide +kernel⟩
  have hreturns : (calling.after 3).Returns := ⟨by decide +kernel, by decide +kernel⟩
  obtain ⟨hcall, -⟩ := return_near_origin calling hv hr
  obtain ⟨-, hsp, hpc, -⟩ := hcall hc 2 ha
  exact ⟨hv, hr, hc, ha, hreturns, by decide, hpc.trans (by decide), hsp⟩

end FourBit.Machine
