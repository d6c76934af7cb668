import FourBit.Proofs.Machine.Load

/-! Sessions: operations on one machine in any order, each whatever the one before it answered.
A fresh machine stays in range for ever, and only loading can fail. -/
namespace FourBit.Machine

/-- What can be asked of a machine from outside. -/
inductive Operation where
  | load (program : Value)
  | step
  | fetch
  | execute (i : Instruction)
  | reset
  | requestHalt
  | write (r : Register) (value : Int)
  | assign (values : List (Register × Int))

namespace Operation

def action : Operation → Action Machine Unit
  | load program => Machine.load program
  | step => Machine.step
  | fetch => discard Machine.fetch
  | execute i => Machine.execute i
  | reset => Machine.reset
  | requestHalt => Machine.requestHalt
  | write r value => modify (·.writeRegister r value)
  | assign values => modify (·.writeRegisters values)

/-- Whether the opcode of an instruction from outside can be named in a report. -/
def Reportable : Operation → Prop
  | execute i => Numeral.isWritable i.opcode = true
  | _ => True

/-- An operation on a machine of a variant ends well: the machine is in range, no operation but
loading has failed, and no step has met an unknown opcode. -/
structure Safe (v : Variant) (x : Operation) (outcome : Outcome Machine Unit) : Prop where
  variant : outcome.state.variant = v
  in_range : outcome.state.InRange
  answer : (∀ program, x ≠ load program) → outcome.answer = .ok ()
  known_opcode : x = step → outcome.state.lastFault ≠ some .invalidOpcode ∧
    ∀ opcode, .badOpcode opcode ∉ outcome.events

end Operation

/-- The outcomes of operations that are performed one after the other. -/
def session : List Operation → Machine → List (Operation × Outcome Machine Unit)
  | [], _ => []
  | x :: rest, m => (x, x.action m) :: session rest (x.action m).state

variable {m : Machine}

theorem writeRegisters_others (m : Machine) (values : List (Register × Int)) :
    (m.writeRegisters values).memory = m.memory ∧ (m.writeRegisters values).cycles = m.cycles ∧
      (m.writeRegisters values).haltRequested = m.haltRequested := by
  induction values generalizing m with
  | nil => exact ⟨rfl, rfl, rfl⟩
  | cons entry rest ih =>
    have hone : (m.writeRegister entry.1 entry.2).memory = m.memory ∧
        (m.writeRegister entry.1 entry.2).cycles = m.cycles ∧
        (m.writeRegister entry.1 entry.2).haltRequested = m.haltRequested := by
      cases entry.1 <;> exact ⟨rfl, rfl, rfl⟩
    obtain ⟨hmemory, hcycles, hhalt⟩ := ih (m.writeRegister entry.1 entry.2)
    exact ⟨hmemory.trans hone.1, hcycles.trans hone.2.1, hhalt.trans hone.2.2⟩

theorem writeRegisters_inRange (h : m.InRange) (values : List (Register × Int)) :
    (m.writeRegisters values).InRange ∧ (m.writeRegisters values).variant = m.variant := by
  induction values generalizing m with
  | nil => exact ⟨h, rfl⟩
  | cons entry rest ih =>
    obtain ⟨hr, hv⟩ := ih (h.writeRegister entry.1 entry.2)
    exact ⟨hr, hv.trans (writeRegister_variant m entry.1 entry.2)⟩

theorem action_safe (h : m.InRange) (hv : m.variant.Sound) {x : Operation} (hx : x.Reportable) :
    x.Safe m.variant (x.action m) := by
  cases x with
  | load program =>
    refine ⟨?_, ?_, fun hl => absurd rfl (hl program), nofun⟩
    · rcases load_cases program m with ⟨-, hs⟩ | ⟨nibbles, -, -, hs⟩ <;>
        rw [Operation.action, hs]
      rfl
    · rcases load_cases program m with ⟨-, hs⟩ | ⟨nibbles, -, hn, hs⟩ <;> rw [Operation.action, hs]
      · exact h
      · exact h.place hv hn
  | step =>
    have hrun : Operation.step.action m = _ := h.step_run hv
    have hf : m.started.fault? m.current ≠ some .invalidOpcode :=
      fault?_ne_invalidOpcode h.current_opcode
    rw [hrun]
    refine ⟨next_variant m, h.next hv, fun _ => rfl, fun _ => ⟨?_, ?_⟩⟩
    · rw [next_lastFault]
      exact hf
    · intro opcode hmem
      rcases List.mem_cons.mp hmem with hc | hc
      · cases hc
      · obtain ⟨fault, hfault, he⟩ := List.mem_map.mp hc
        rw [Option.mem_toList] at hfault
        cases fault with
        | invalidOpcode => exact hf hfault
        | _ => cases he
  | fetch =>
    have hrun : Operation.fetch.action m = ⟨.ok (), m.fetched, []⟩ := by
      rw [Operation.action, Action.discard_run, fetch_run h.memory_length h.pc_cell]
      rfl
    rw [hrun]
    exact ⟨rfl, h.fetched, fun _ => rfl, nofun⟩
  | execute i =>
    have hrun : (Operation.execute i).action m = _ := execute_run (h.ready hv) hx
    rw [hrun]
    exact ⟨performed_variant m i, h.performed hv i, fun _ => rfl, nofun⟩
  | reset => exact ⟨rfl, (fresh_inRange hv).setHalt true, fun _ => rfl, nofun⟩
  | requestHalt => exact ⟨rfl, h.setHalt true, fun _ => rfl, nofun⟩
  | write r value =>
    exact ⟨writeRegister_variant m r value, h.writeRegister r value, fun _ => rfl, nofun⟩
  | assign values =>
    obtain ⟨hr, hs⟩ := writeRegisters_inRange h values
    exact ⟨hs, hr, fun _ => rfl, nofun⟩

private theorem session_safe_from (h : m.InRange) (hv : m.variant.Sound)
    {operations : List Operation} (hx : ∀ x ∈ operations, x.Reportable) :
    ∀ p ∈ session operations m, p.1.Safe m.variant p.2 := by
  induction operations generalizing m with
  | nil => simp [session]
  | cons x rest ih =>
    have hs := action_safe h hv (hx x List.mem_cons_self)
    have hrest := ih hs.in_range (by rw [hs.variant]; exact hv)
      (fun y hy => hx y (List.mem_cons_of_mem x hy))
    intro p hp
    rcases List.mem_cons.mp hp with rfl | hp
    · exact hs
    · exact hs.variant ▸ hrest p hp

/-- A fresh machine of sound constants is in range, and so it is after every operation of every
session, where no operation but loading fails and no step meets an unknown opcode. -/
theorem session_safe (v : Variant) (hv : v.Sound) (operations : List Operation)
    (hx : ∀ x ∈ operations, x.Reportable) :
    (fresh v).InRange ∧ ∀ p ∈ session operations (fresh v), p.1.Safe v p.2 :=
  ⟨fresh_inRange hv, session_safe_from (fresh_inRange hv) hv hx⟩

private def mixedSession : List Operation :=
  [.load (.str "0x0\n0x1 ; push\n0x2"), .write .sp (-1), .step, .execute ⟨-7, 300⟩,
    .assign [(.pc, 255), (.f, -2)], .fetch, .load (.list [.bool true]), .step, .reset, .step]

/-- Both built-in variants qualify, and a session may mix failures, odd opcodes and wide values. -/
theorem session_safe_sample :
    (Variant.nv256.Sound ∧ Variant.nv32.Sound ∧ ∀ x ∈ mixedSession, x.Reportable) ∧
      (∀ p ∈ session mixedSession (fresh .nv256), p.1.Safe .nv256 p.2) ∧
      ∀ p ∈ session mixedSession (fresh .nv32), p.1.Safe .nv32 p.2 := by
  have hwide := Variant.builtin_sound .nv256 (by decide)
  have hsmall := Variant.builtin_sound .nv32 (by decide)
  have hx : ∀ x ∈ mixedSession, x.Reportable := by
    have hw : Numeral.isWritable (-7) = true := Numeral.isWritable_of_lt (by decide)
    simp [mixedSession, Operation.Reportable, hw]
  exact ⟨⟨hwide, hsmall, hx⟩, (session_safe .nv256 hwide mixedSession hx).2,
    (session_safe .nv32 hsmall mixedSession hx).2⟩

end FourBit.Machine
