import FourBit.Proofs.Machine.Run

/-! The stack of a machine: the cells below its stack pointer.
Steps work on them as on a bounded list that grows and shrinks at its end. An instruction may also
move the stack pointer or write below it; a run without those leaves the list to its pushes and
pops. -/
namespace FourBit

/-- What may be asked of a list that grows and shrinks at its end. -/
inductive StackRequest where
  | idle
  | push (value : Int)
  | pop
  deriving DecidableEq, Repr

inductive StackReply where
  | idle
  | pushed
  | full
  | popped (value : Int)
  | empty
  deriving DecidableEq, Repr

def serve (bound : Nat) (stack : List Int) : StackRequest → List Int × StackReply
  | .idle => (stack, .idle)
  | .push value =>
    if stack.length < bound then (stack ++ [value], .pushed) else (stack, .full)
  | .pop =>
    match stack.getLast? with
    | some value => (stack.dropLast, .popped value)
    | none => (stack, .empty)

def serveAll (bound : Nat) (stack : List Int) : List StackRequest → List Int × List StackReply
  | [] => (stack, [])
  | request :: rest =>
    let served := serve bound stack request
    let others := serveAll bound served.1 rest
    (others.1, served.2 :: others.2)

def Secondary.UsesStack (s : Secondary) : Prop :=
  s = .pushA ∨ s = .popA ∨ s = .pushPc ∨ s = .popPc

instance (s : Secondary) : Decidable s.UsesStack := inferInstanceAs (Decidable (_ ∨ _))

namespace Machine
variable {m : Machine}

def stack (m : Machine) : List Int := m.memory.take m.sp.toNat

def bound (m : Machine) : Nat := m.variant.stackBoundary.toNat

def request (m : Machine) : StackRequest :=
  match m.current.secondary? with
  | some .pushA => .push m.a
  | some .pushPc => .push ((m.fetched.pc - m.origin) % 16)
  | some .popA | some .popPc => .pop
  | _ => .idle

/-- The next instruction neither sets the stack pointer nor writes below it. -/
structure SparesStack (m : Machine) : Prop where
  not_lsp : Primary.ofCode? m.current.opcode ≠ some .lsp
  sta_above : Primary.ofCode? m.current.opcode = some .sta → m.sp ≤ m.current.operand

instance (m : Machine) : Decidable m.SparesStack :=
  decidable_of_iff (Primary.ofCode? m.current.opcode ≠ some .lsp ∧
    (Primary.ofCode? m.current.opcode = some .sta → m.sp ≤ m.current.operand))
    ⟨fun h => ⟨h.1, h.2⟩, fun h => ⟨h.1, h.2⟩⟩

def Delivers (m m' : Machine) : StackReply → Prop
  | .idle => m'.lastFault ≠ some .stackOverflow ∧ m'.lastFault ≠ some .stackUnderflow
  | .pushed => m'.lastFault = none ∧ m'.a = m.a ∧ m'.pc = m.fetched.pc
  | .full => m'.lastFault = some .stackOverflow ∧ m'.a = m.a ∧ m'.pc = m.fetched.pc
  | .popped value =>
    m'.lastFault = none ∧
      (m.current.secondary? = some .popA → m'.a = value ∧ m'.pc = m.fetched.pc) ∧
      (m.current.secondary? = some .popPc →
        m'.a = m.a ∧ m'.pc = (value + m.origin) % m.capacity)
  | .empty => m'.lastFault = some .stackUnderflow ∧ m'.a = m.a ∧ m'.pc = m.fetched.pc

/-- What a run shows, step by step. -/
def along {α : Type} (m : Machine) (n : Nat) (shown : Machine → Machine → Option α) : List α :=
  (List.range n).filterMap fun k => shown (m.after k) (m.after (k + 1))

def requests (m : Machine) (n : Nat) : List StackRequest := m.along n fun m _ => some m.request

def traffic (m : Machine) (n : Nat) : List Secondary :=
  m.along n fun m _ => m.current.secondary?.filter (·.UsesStack)

def pushedAs (m : Machine) (n : Nat) : List Int :=
  m.along n fun m _ => if m.current.secondary? = some .pushA then some m.a else none

def poppedAs (m : Machine) (n : Nat) : List Int :=
  m.along n fun m m' => if m.current.secondary? = some .popA then some m'.a else none

private theorem eq_place {α : Type} {all : List α} (hall : all.Nodup) {code : Int} {x : α} {n : Nat}
    (hn : all[n]? = some x) (h : (if 0 ≤ code then all[code.toNat]? else none) = some x) :
    code = n := by
  split at h
  · have hlt : n < all.length := (List.getElem?_eq_some_iff.mp hn).1
    have hplace : n = code.toNat := (List.getElem?_inj hlt hall).mp (hn.trans h.symm)
    omega
  · contradiction

theorem code_of_ofCode? {code : Int} {p : Primary} {n : Nat} (hn : Primary.all[n]? = some p)
    (h : Primary.ofCode? code = some p) : code = n :=
  eq_place (by decide) hn h

theorem secondary?_eq_some_iff {i : Instruction} {s : Secondary} {n : Nat}
    (hn : Secondary.all[n]? = some s) : i.secondary? = some s ↔ i = ⟨0, n⟩ := by
  constructor
  · intro h
    unfold Instruction.secondary? at h
    split at h
    · rename_i hz
      rw [Instruction.isSecondary, beq_iff_eq] at hz
      have hoperand : i.operand = n := eq_place (by decide) hn h
      rw [← hz, ← hoperand]
    · contradiction
  · rintro rfl
    exact hn

theorem ofCode?_secondary {code : Int} : Primary.ofCode? code = some .secondary ↔ code = 0 := by
  constructor
  · exact code_of_ofCode? (n := 0) rfl
  · rintro rfl
    rfl

theorem InRange.operand_eq (h : m.InRange) :
    (lowNibble m.current.operand : Int) = m.current.operand :=
  lowNibble_of_lt (h.cell (m.emod_capacity (m.pc % m.capacity + 1)))

theorem secondary?_of_select {v : Variant} {i : Instruction} {s : Secondary}
    (ho : (lowNibble i.operand : Int) = i.operand)
    (hp : Primary.ofCode? i.opcode = some .secondary)
    (hs : selectSecondary v (lowNibble i.operand) = some s) : i.secondary? = some s := by
  obtain ⟨hcode, -⟩ := Option.filter_eq_some_iff.mp hs
  rw [ho] at hcode
  simp [Instruction.secondary?, Instruction.isSecondary, ofCode?_secondary.mp hp, hcode]

theorem InRange.secondary?_of_select (h : m.InRange) {s : Secondary}
    (hp : Primary.ofCode? m.current.opcode = some .secondary)
    (hs : selectSecondary m.variant (lowNibble m.current.operand) = some s) :
    m.current.secondary? = some s := Machine.secondary?_of_select h.operand_eq hp hs

theorem InRange.select_of_secondary? (h : m.InRange) {s : Secondary} (hu : s.UsesStack)
    (hs : m.current.secondary? = some s) :
    Primary.ofCode? m.current.opcode = some .secondary ∧
      selectSecondary m.variant (lowNibble m.current.operand) = some s := by
  unfold Instruction.secondary? at hs
  split at hs
  · rename_i hz
    rw [Instruction.isSecondary, beq_iff_eq] at hz
    refine ⟨ofCode?_secondary.mpr hz, Option.filter_eq_some_iff.mpr ⟨?_, ?_⟩⟩
    · rw [h.operand_eq, hs]
    · obtain rfl | rfl | rfl | rfl := hu <;> simp
  · contradiction

private theorem started_eq (h : m.InRange) {s : Secondary} (hu : s.UsesStack)
    (hs : m.current.secondary? = some s) :
    m.started.fault? m.current = m.started.stackFault? s ∧
      m.started.done m.current = m.started.secondaryDone s := by
  obtain ⟨hp, hsel⟩ := h.select_of_secondary? hu hs
  have hsel' : selectSecondary m.started.variant (lowNibble m.current.operand) = some s := hsel
  constructor
  · rw [fault?, hp]
    simp only [hsel']
  · rw [done, hp, Option.map_some, Option.getD_some, primaryDone, hsel', Option.map_some,
      Option.getD_some]

private theorem next_refused (h : m.InRange) {s : Secondary} (hu : s.UsesStack)
    (hs : m.current.secondary? = some s) {fault : Fault}
    (hf : m.started.stackFault? s = some fault) :
    m.next = { m.started.faulted fault with cycles := (m.started.faulted fault).cycles + 1 } := by
  rw [next, performed_of_some ((started_eq h hu hs).1.trans hf)]

theorem next_granted (h : m.InRange) {s : Secondary} (hu : s.UsesStack)
    (hs : m.current.secondary? = some s) (hf : m.started.stackFault? s = none) :
    m.next =
      { m.started.secondaryDone s with cycles := (m.started.secondaryDone s).cycles + 1 } := by
  rw [next, performed_of_none ((started_eq h hu hs).1.trans hf), (started_eq h hu hs).2]

theorem InRange.length_stack (h : m.InRange) : (m.stack.length : Int) = m.sp := by
  have := h.memory_length
  have := h.sp_cell
  rw [stack, List.length_take]
  omega

theorem lt_bound_iff (h : m.InRange) :
    m.stack.length < m.bound ↔ ¬ m.variant.stackBoundary ≤ m.sp := by
  have := h.length_stack
  have := m.variant.boundary_pos
  unfold bound
  omega

private theorem stack_pushed (h : m.InRange) (value : Int) :
    (m.pushed value).stack = m.stack ++ [value % 16] := by
  have hlength := h.memory_length
  have hsp := h.sp_cell
  have hlt : m.sp.toNat < m.memory.length := by omega
  have hsucc : (m.sp + 1).toNat = m.sp.toNat + 1 := by omega
  rw [stack, pushed, setCell]
  simp only
  rw [hsucc, List.take_succ_eq_append_getElem (by rwa [List.length_set]), List.getElem_set_self,
    List.take_set_of_le (Nat.le_refl _), stack]

private theorem stack_popped (h : m.InRange) (hz : m.sp ≠ 0) :
    m.stack = m.popped.stack ++ [m.top] := by
  have hlength := h.memory_length
  have hsp := h.sp_cell
  have hlt : (m.sp - 1).toNat < m.memory.length := by omega
  have hsucc : m.sp.toNat = (m.sp - 1).toNat + 1 := by omega
  rw [stack, hsucc, List.take_succ_eq_append_getElem hlt, top, cell,
    List.getD_eq_getElem?_getD, List.getElem?_eq_getElem hlt]
  rfl

private theorem serve_push (h : m.InRange) {s : Secondary} (hu : s.UsesStack)
    (hs : m.current.secondary? = some s) {value : Int}
    (hf : m.started.stackFault? s =
      if m.variant.stackBoundary ≤ m.sp then some .stackOverflow else none)
    (hd : m.started.secondaryDone s = m.started.pushed value) :
    ∃ reply, serve m.bound m.stack (.push (value % 16)) = (m.next.stack, reply) ∧
      m.Delivers m.next reply := by
  by_cases hb : m.variant.stackBoundary ≤ m.sp
  · have hnext := next_refused h hu hs (hf.trans (if_pos hb))
    refine ⟨.full, ?_, ?_⟩
    · rw [serve, if_neg (mt (lt_bound_iff h).mp (not_not_intro hb)), hnext]
      rfl
    · rw [Delivers, hnext]
      exact ⟨rfl, rfl, rfl⟩
  · have hnext := next_granted h hu hs (hf.trans (if_neg hb))
    rw [hd] at hnext
    have hstack := stack_pushed h value
    refine ⟨.pushed, ?_, ?_⟩
    · rw [serve, if_pos ((lt_bound_iff h).mpr hb), ← hstack, hnext]
      rfl
    · rw [Delivers, hnext]
      exact ⟨rfl, rfl, rfl⟩

private theorem serve_pop (h : m.InRange) {s : Secondary} (hs : m.current.secondary? = some s)
    (hu : s = .popA ∨ s = .popPc) :
    ∃ reply, serve m.bound m.stack .pop = (m.next.stack, reply) ∧ m.Delivers m.next reply := by
  have hu' : s.UsesStack := hu.elim (fun hs => .inr (.inl hs)) fun hs => .inr (.inr (.inr hs))
  have hf : m.started.stackFault? s = if m.sp = 0 then some .stackUnderflow else none := by
    obtain rfl | rfl := hu <;> rfl
  by_cases hz : m.sp = 0
  · have hnext := next_refused h hu' hs (hf.trans (if_pos hz))
    have hempty : m.stack = [] := by
      rw [stack, hz]
      rfl
    refine ⟨.empty, ?_, ?_⟩
    · rw [hempty, hnext]
      exact congrArg (·, StackReply.empty) hempty.symm
    · rw [Delivers, hnext]
      exact ⟨rfl, rfl, rfl⟩
  · have hnext := next_granted h hu' hs (hf.trans (if_neg hz))
    have hstack := stack_popped h hz
    have hrest : m.next.stack = m.popped.stack := by
      rw [hnext]
      obtain rfl | rfl := hu <;> rfl
    refine ⟨.popped m.top, ?_, ?_⟩
    · rw [hstack, serve, List.getLast?_concat, List.dropLast_concat, hrest]
    · rw [Delivers, hnext, hs]
      obtain rfl | rfl := hu
      · exact ⟨rfl, fun _ => ⟨rfl, rfl⟩, fun hc => by cases hc⟩
      · exact ⟨rfl, (fun hc => by cases hc), fun _ => ⟨rfl, rfl⟩⟩

private theorem stack_secondaryDone {s : Secondary} (hu : ¬ s.UsesStack) :
    (m.secondaryDone s).stack = m.stack := by
  have hskip (f : Flag) : (m.skipped f).stack = m.stack := by
    rw [skipped_eq]
    rfl
  cases s with
  | pushA | popA | pushPc | popPc => exact absurd (by decide) hu
  | skipCarry | skipNegative | skipEqual => exact hskip _
  | _ => rfl

private theorem stack_primaryDone {operand : Nat} {p : Primary} (hp : p ≠ .secondary)
    (hlsp : p ≠ .lsp) (hsta : p = .sta → m.sp ≤ operand) :
    (m.primaryDone operand p).stack = m.stack := by
  cases p with
  | secondary | lsp => contradiction
  | sta =>
    have hle : m.sp.toNat ≤ operand := by
      have := hsta rfl
      omega
    exact List.take_set_of_le hle
  | _ => rfl

private theorem stack_performed (h : m.InRange) (hs : m.SparesStack)
    (hu : ∀ s, m.current.secondary? = some s → ¬ s.UsesStack) : m.next.stack = m.stack := by
  change (m.started.performed m.current).stack = m.stack
  cases hf : m.started.fault? m.current with
  | some fault =>
    rw [performed_of_some hf]
    cases fault <;> rfl
  | none =>
    rw [performed_of_none hf]
    refine done_cases (motive := fun m' => m'.stack = m.stack) hf ?_ ?_
    · intro s hp hsel _
      exact stack_secondaryDone (hu s (h.secondary?_of_select hp hsel))
    · intro p hp hne
      refine stack_primaryDone hne (fun hl => hs.not_lsp (hl ▸ hp)) fun ht => ?_
      rw [h.operand_eq]
      exact hs.sta_above (ht ▸ hp)

private theorem fault?_of_unused (h : m.InRange)
    (hu : ∀ s, m.current.secondary? = some s → ¬ s.UsesStack) :
    m.started.fault? m.current ≠ some .stackOverflow ∧
      m.started.fault? m.current ≠ some .stackUnderflow := by
  unfold fault?
  cases hp : Primary.ofCode? m.current.opcode with
  | none => simp
  | some p =>
    by_cases hsec : p = .secondary
    · subst hsec
      cases hsel : selectSecondary m.started.variant (lowNibble m.current.operand) with
      | none => simp
      | some s =>
        have hno := hu s (h.secondary?_of_select hp hsel)
        have hq : m.started.stackFault? s = none := by
          cases s with
          | pushA | popA | pushPc | popPc => exact absurd (by decide) hno
          | _ => rfl
        simp [hq]
    · cases p <;> simp_all

private theorem request_idle (hu : ∀ s, m.current.secondary? = some s → ¬ s.UsesStack) :
    m.request = .idle := by
  unfold request
  split
  · exact absurd (.inl rfl) (hu _ ‹_›)
  · exact absurd (.inr (.inr (.inl rfl))) (hu _ ‹_›)
  · exact absurd (.inr (.inl rfl)) (hu _ ‹_›)
  · exact absurd (.inr (.inr (.inr rfl))) (hu _ ‹_›)
  · rfl

private theorem serve_next (h : m.InRange) (hs : m.SparesStack) :
    ∃ reply, serve m.bound m.stack m.request = (m.next.stack, reply) ∧ m.Delivers m.next reply := by
  by_cases hu : ∃ s, m.current.secondary? = some s ∧ s.UsesStack
  · obtain ⟨s, hsec, huse⟩ := hu
    obtain rfl | rfl | rfl | rfl := huse
    · have ha : m.a % 16 = m.a := Int.emod_eq_of_lt h.a_nibble.1 h.a_nibble.2
      have hr : m.request = .push (m.a % 16) := by rw [request, hsec, ha]
      rw [hr]
      exact serve_push h (.inl rfl) hsec rfl rfl
    · have hr : m.request = .pop := by rw [request, hsec]
      rw [hr]
      exact serve_pop h hsec (.inl rfl)
    · have hr : m.request = .push ((m.fetched.pc - m.origin) % 16) := by rw [request, hsec]
      rw [hr]
      exact serve_push h (.inr (.inr (.inl rfl))) hsec rfl rfl
    · have hr : m.request = .pop := by rw [request, hsec]
      rw [hr]
      exact serve_pop h hsec (.inr rfl)
  · have hno : ∀ s, m.current.secondary? = some s → ¬ s.UsesStack := fun s hsec huse =>
      hu ⟨s, hsec, huse⟩
    refine ⟨.idle, ?_, ?_⟩
    · rw [request_idle hno, serve, stack_performed h hs hno]
    · rw [Delivers, next_lastFault]
      exact fault?_of_unused h hno

theorem along_succ {α : Type} (m : Machine) (n : Nat) (shown : Machine → Machine → Option α) :
    m.along (n + 1) shown = m.along n shown ++ (shown (m.after n) (m.after (n + 1))).toList := by
  rw [along, List.range_succ, List.filterMap_append, along]
  congr 1

private theorem serveAll_concat (bound : Nat) (stack : List Int) (rest : List StackRequest)
    (last : StackRequest) :
    serveAll bound stack (rest ++ [last]) =
      ((serve bound (serveAll bound stack rest).1 last).1,
        (serveAll bound stack rest).2 ++ [(serve bound (serveAll bound stack rest).1 last).2]) := by
  induction rest generalizing stack with
  | nil => rfl
  | cons request rest ih =>
    rw [List.cons_append, serveAll, ih]
    rfl

private theorem serveAll_requests (h : m.InRange) (hv : m.variant.Sound) (n : Nat)
    (hs : ∀ k < n, (m.after k).SparesStack) :
    ∃ replies, serveAll m.bound m.stack (m.requests n) = ((m.after n).stack, replies) ∧
      replies.length = n ∧
      ∀ k reply, replies[k]? = some reply → (m.after k).Delivers (m.after (k + 1)) reply := by
  induction n with
  | zero => exact ⟨[], rfl, rfl, fun k reply hk => by cases hk⟩
  | succ n ih =>
    obtain ⟨replies, hrun, hlength, hall⟩ := ih fun k hk => hs k (Nat.lt_succ_of_lt hk)
    obtain ⟨hrange, hvariant⟩ := h.after hv n
    obtain ⟨reply, hserve, hreply⟩ := serve_next hrange (hs n n.lt_succ_self)
    have hbound : (m.after n).bound = m.bound := by rw [bound, hvariant, bound]
    rw [hbound, ← h.after_succ' hv] at hserve
    rw [← h.after_succ' hv] at hreply
    refine ⟨replies ++ [reply], ?_, by rw [List.length_append, hlength]; rfl, ?_⟩
    · rw [requests, along_succ, Option.toList_some, serveAll_concat, ← requests, hrun, hserve]
    · intro k r hk
      rcases Nat.lt_trichotomy k n with hlt | rfl | hgt
      · rw [List.getElem?_append_left (hlength ▸ hlt)] at hk
        exact hall k r hk
      · rw [List.getElem?_append_right (Nat.le_of_eq hlength), hlength, Nat.sub_self] at hk
        exact Option.some.inj hk ▸ hreply
      · rw [List.getElem?_eq_none (by rw [List.length_append, hlength]; exact hgt)] at hk
        cases hk

private theorem next_stack_push (h : m.InRange) (hs : m.SparesStack)
    (hsec : m.current.secondary? = some .pushA) (hq : m.next.lastFault ≠ some .stackOverflow) :
    m.next.stack = m.stack ++ [m.a] := by
  obtain ⟨reply, hserve, hreply⟩ := serve_next h hs
  rw [request, hsec] at hserve
  simp only [serve] at hserve
  split at hserve
  · exact (congrArg Prod.fst hserve).symm
  · obtain rfl := congrArg Prod.snd hserve
    exact absurd hreply.1 hq

private theorem next_stack_pop (h : m.InRange) (hs : m.SparesStack)
    (hsec : m.current.secondary? = some .popA) {rest : List Int} {value : Int}
    (hstack : m.stack = rest ++ [value]) : m.next.stack = rest ∧ m.next.a = value := by
  obtain ⟨reply, hserve, hreply⟩ := serve_next h hs
  rw [request, hsec, hstack] at hserve
  simp only [serve, List.getLast?_concat, List.dropLast_concat] at hserve
  obtain rfl := congrArg Prod.snd hserve
  exact ⟨(congrArg Prod.fst hserve).symm, (hreply.2.1 hsec).1⟩

/-- So many values have been pushed and popped, and what has been popped could be put back. -/
private structure Balanced (m : Machine) (n pushes pops : Nat) : Prop where
  stack_eq : (m.after n).stack ++ (m.poppedAs n).reverse = m.stack ++ m.pushedAs n
  pushed : (m.pushedAs n).length = pushes
  popped : (m.poppedAs n).length = pops

private theorem Balanced.idle {n pushes pops : Nat} (hb : m.Balanced n pushes pops)
    (hpush : (m.after n).current.secondary? ≠ some .pushA)
    (hpop : (m.after n).current.secondary? ≠ some .popA)
    (hstack : (m.after (n + 1)).stack = (m.after n).stack) : m.Balanced (n + 1) pushes pops := by
  have hpushed : m.pushedAs (n + 1) = m.pushedAs n := by
    rw [pushedAs, along_succ, if_neg hpush]
    exact List.append_nil _
  have hpopped : m.poppedAs (n + 1) = m.poppedAs n := by
    rw [poppedAs, along_succ, if_neg hpop]
    exact List.append_nil _
  exact ⟨by rw [hpushed, hpopped, hstack, hb.stack_eq], by rw [hpushed, hb.pushed],
    by rw [hpopped, hb.popped]⟩

private theorem Balanced.push {n pushes : Nat} (hb : m.Balanced n pushes 0)
    (hsec : (m.after n).current.secondary? = some .pushA)
    (hstack : (m.after (n + 1)).stack = (m.after n).stack ++ [(m.after n).a]) :
    m.Balanced (n + 1) (pushes + 1) 0 := by
  have hnil : m.poppedAs n = [] := List.length_eq_zero_iff.mp hb.popped
  have hpushed : m.pushedAs (n + 1) = m.pushedAs n ++ [(m.after n).a] := by
    rw [pushedAs, along_succ, if_pos hsec]
    rfl
  have hpopped : m.poppedAs (n + 1) = [] := by
    rw [poppedAs, along_succ, if_neg (by simp [hsec]), ← poppedAs, hnil]
    rfl
  have hb' := hb.stack_eq
  rw [hnil, List.reverse_nil, List.append_nil] at hb'
  refine ⟨?_, ?_, ?_⟩
  · rw [hpushed, hpopped, hstack, hb', List.reverse_nil, List.append_nil, List.append_assoc]
  · rw [hpushed, List.length_append, hb.pushed]
    rfl
  · rw [hpopped]
    rfl

private theorem Balanced.pop {n pushes pops : Nat} (hb : m.Balanced n pushes pops)
    (hsec : (m.after n).current.secondary? = some .popA)
    (hstack : (m.after n).stack = (m.after (n + 1)).stack ++ [(m.after (n + 1)).a]) :
    m.Balanced (n + 1) pushes (pops + 1) := by
  have hpushed : m.pushedAs (n + 1) = m.pushedAs n := by
    rw [pushedAs, along_succ, if_neg (by simp [hsec])]
    exact List.append_nil _
  have hpopped : m.poppedAs (n + 1) = m.poppedAs n ++ [(m.after (n + 1)).a] := by
    rw [poppedAs, along_succ, if_pos hsec]
    rfl
  refine ⟨?_, by rw [hpushed, hb.pushed], ?_⟩
  · rw [hpushed, hpopped, ← hb.stack_eq, hstack, List.reverse_concat, List.append_assoc]
    rfl
  · rw [hpopped, List.length_append, hb.popped]
    rfl

private theorem balanced_of_traffic (h : m.InRange) (hv : m.variant.Sound) (n : Nat)
    (hs : ∀ k < n, (m.after k).SparesStack)
    (hq : ∀ k < n, (m.after (k + 1)).lastFault ≠ some .stackOverflow) {pushes pops : Nat}
    (hle : pops ≤ pushes)
    (ht : m.traffic n = List.replicate pushes .pushA ++ List.replicate pops .popA) :
    m.Balanced n pushes pops := by
  induction n generalizing pushes pops with
  | zero =>
    have hlength := congrArg List.length ht
    rw [List.length_append, List.length_replicate, List.length_replicate] at hlength
    change 0 = pushes + pops at hlength
    obtain ⟨rfl, rfl⟩ : pushes = 0 ∧ pops = 0 := by omega
    exact ⟨rfl, rfl, rfl⟩
  | succ n ih =>
    have hrange := (h.after hv n).1
    have hspare := hs n n.lt_succ_self
    have hquiet := hq n n.lt_succ_self
    have hs' : ∀ k < n, (m.after k).SparesStack := fun k hk => hs k (Nat.lt_succ_of_lt hk)
    have hq' : ∀ k < n, (m.after (k + 1)).lastFault ≠ some .stackOverflow := fun k hk =>
      hq k (Nat.lt_succ_of_lt hk)
    rw [traffic, along_succ, ← traffic] at ht
    rw [h.after_succ' hv] at hquiet
    cases hu : (m.after n).current.secondary?.filter (·.UsesStack) with
    | none =>
      have hno (s : Secondary) (hsec : (m.after n).current.secondary? = some s) :
          ¬ s.UsesStack := by simpa using Option.filter_eq_none_iff.mp hu s hsec
      rw [hu, Option.toList_none, List.append_nil] at ht
      refine (ih hs' hq' hle ht).idle (fun hsec => hno _ hsec (by decide))
        (fun hsec => hno _ hsec (by decide)) ?_
      rw [h.after_succ' hv, stack_performed hrange hspare hno]
    | some s =>
      obtain ⟨hsec, -⟩ := Option.filter_eq_some_iff.mp hu
      rw [hu, Option.toList_some] at ht
      cases pops with
      | zero =>
        cases pushes with
        | zero => simp at ht
        | succ pushes =>
          rw [List.replicate_zero, List.append_nil, List.replicate_succ'] at ht
          obtain ⟨hrest, hlast⟩ := List.append_inj' ht rfl
          obtain rfl : s = .pushA := List.singleton_inj.mp hlast
          have hb := ih hs' hq' (Nat.zero_le pushes) (hrest.trans (List.append_nil _).symm)
          refine hb.push hsec ?_
          rw [h.after_succ' hv, next_stack_push hrange hspare hsec hquiet]
      | succ pops =>
        rw [List.replicate_succ', ← List.append_assoc] at ht
        obtain ⟨hrest, hlast⟩ := List.append_inj' ht rfl
        obtain rfl : s = .popA := List.singleton_inj.mp hlast
        have hb := ih hs' hq' (Nat.le_of_succ_le hle) hrest
        refine hb.pop hsec ?_
        have hlength := congrArg List.length hb.stack_eq
        rw [List.length_append, List.length_append, List.length_reverse, hb.pushed,
          hb.popped] at hlength
        rcases List.eq_nil_or_concat (m.after n).stack with hnil | ⟨rest, value, hstack⟩
        · rw [hnil] at hlength
          simp only [List.length_nil] at hlength
          omega
        · rw [List.concat_eq_append] at hstack
          obtain ⟨hnext, ha⟩ := next_stack_pop hrange hspare hsec hstack
          rw [h.after_succ' hv, hnext, ha, hstack]

/-- The stack of a run that neither sets the stack pointer nor writes below it. Each step succeeds,
and the stack serves what the steps ask of it just as the bounded list does, with what its replies
mean for A, the program counter and the fault. What a run has pushed from A without an overflow
comes back to A in reverse when as many values are popped, and the stack is as before. -/
theorem run_refines_list (m : Machine) (hv : m.variant.Sound) (h : m.InRange) (n : Nat)
    (hs : ∀ k < n, (m.after k).SparesStack) :
    (∀ k < n, (step (m.after k)).answer = .ok ()) ∧
    (∃ replies, serveAll m.bound m.stack (m.requests n) = ((m.after n).stack, replies) ∧
      replies.length = n ∧
      ∀ k reply, replies[k]? = some reply → (m.after k).Delivers (m.after (k + 1)) reply) ∧
    ∀ pairs,
      m.traffic n = List.replicate pairs .pushA ++ List.replicate pairs .popA →
      (∀ k < n, (m.after (k + 1)).lastFault ≠ some .stackOverflow) →
        (m.pushedAs n).length = pairs ∧ m.poppedAs n = (m.pushedAs n).reverse ∧
          (m.after n).sp = m.sp ∧ (m.after n).stack = m.stack := by
  refine ⟨fun k _ => ?_, serveAll_requests h hv n hs, fun pairs ht hq => ?_⟩
  · obtain ⟨hrange, hvariant⟩ := h.after hv k
    rw [hrange.step_run (hvariant ▸ hv)]
  · have hb := balanced_of_traffic h hv n hs hq (Nat.le_refl pairs) ht
    have hlength : (m.poppedAs n).reverse.length = (m.pushedAs n).length := by
      rw [List.length_reverse, hb.popped, hb.pushed]
    obtain ⟨hstack, hpopped⟩ := List.append_inj' hb.stack_eq hlength
    refine ⟨hb.pushed, ?_, ?_, hstack⟩
    · rw [← hpopped, List.reverse_reverse]
    · rw [← (h.after hv n).1.length_stack, hstack, h.length_stack]

/-- Loads two values into A, pushes each, and pops them again. -/
private def pushPop : Machine :=
  { Machine.fresh .nv32 with
    memory := List.replicate 15 0 ++ [10, 5, 0, 1, 10, 9, 0, 1, 0, 2, 0, 2] ++ List.replicate 5 0 }

theorem run_refines_list_of_pushPop :
    pushPop.variant.Sound ∧ pushPop.InRange ∧ (∀ k < 6, (pushPop.after k).SparesStack) ∧
      pushPop.pushedAs 6 = [5, 9] ∧ pushPop.poppedAs 6 = [9, 5] ∧
      (pushPop.after 6).stack = pushPop.stack := by
  have hv : pushPop.variant.Sound := Variant.builtin_sound .nv32 (by decide)
  have hr : pushPop.InRange := { fresh_inRange hv with
    memory_length := by decide
    memory_nibble := by decide }
  have hs : ∀ k < 6, (pushPop.after k).SparesStack := by decide +kernel
  obtain ⟨-, -, hpairs⟩ := run_refines_list pushPop hv hr 6 hs
  have hpushed : pushPop.pushedAs 6 = [5, 9] := by decide +kernel
  obtain ⟨-, hpopped, -, hstack⟩ := hpairs 2 (by decide +kernel) (by decide +kernel)
  rw [hpushed] at hpopped
  exact ⟨hv, hr, hs, hpushed, hpopped, hstack⟩

end Machine
end FourBit
