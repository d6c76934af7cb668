import FourBit.Machine.Load
import FourBit.Proofs.Machine.Invariant

/-! What loading makes of a machine: nothing, unless the program can be read and fits.
A program that fits keeps a machine within bounds, and its nibbles stand in memory one after the
other from the origin on. Nothing else is changed. -/
namespace FourBit.Machine
variable {m : Machine} {limit reach : Int}

/-- A machine that has received a program: the nibbles stand in memory from the origin on, all other
cells are as before, and so is everything else. -/
structure Received (m : Machine) (nibbles : List Nibble) (m' : Machine) : Prop where
  only_memory : m' = { m with memory := m'.memory }
  length : m'.memory.length = m.capacity
  stands : ∀ i (hi : i < nibbles.length),
    m'.memory[m.origin.toNat + i]? = some (nibbles[i].val : Int)
  others : ∀ i : Nat, ¬ (m.origin ≤ i ∧ i < m.origin + nibbles.length) →
    m'.memory[i]? = m.memory[i]?

private theorem readProgram_state (program : Value) (m : Machine) :
    (readProgram program m).state = m := by
  cases program with
  | str text => cases h : Program.parse text <;> simp [readProgram, h]
  | _ => rfl

private theorem room_of_fits (h : m.memory.length = m.capacity) {nibbles : List Nibble}
    (hn : nibbles.length ≤ m.variant.programSpace) :
    m.origin + (nibbles.map fun n => (n.val : Int)).length ≤ m.memory.length := by
  rw [h, List.length_map]
  simp only [Variant.programSpace] at hn
  change m.variant.programOrigin + nibbles.length ≤ m.variant.capacity
  omega

theorem length_place (h : m.memory.length = m.capacity) (ho : 0 ≤ m.origin) {nibbles : List Nibble}
    (hn : nibbles.length ≤ m.variant.programSpace) :
    (place nibbles m).memory.length = m.capacity := by
  have hlength := Cells.length_splice ho (room_of_fits h hn)
  rw [List.length_map] at hlength
  exact (congrArg Nat.cast hlength).trans h

theorem Bounded.place (h : m.Bounded limit reach)
    (hb : m.variant.Bounds limit reach) (ho : 0 ≤ m.variant.programOrigin) {nibbles : List Nibble}
    (hn : nibbles.length ≤ m.variant.programSpace) : (place nibbles m).Bounded limit reach := by
  refine { h with memory_length := length_place h.memory_length ho hn, memory_value := ?_ }
  intro i hi
  rcases Cells.mem_splice hi with hi | hi
  · exact h.memory_value i hi
  · obtain ⟨n, _, rfl⟩ := List.mem_map.mp hi
    have := hb.limit_ge
    omega

theorem InRange.place (h : m.InRange) (hv : m.variant.Sound) {nibbles : List Nibble}
    (hn : nibbles.length ≤ m.variant.programSpace) : (place nibbles m).InRange :=
  (h.bounded.place (inRange_bounds hv) hv.origin_nonneg hn).inRange (Int.sub_lt_self _ Int.one_pos)

private theorem memory_place (h : m.memory.length = m.capacity) (ho : 0 ≤ m.origin)
    {nibbles : List Nibble} (hn : nibbles.length ≤ m.variant.programSpace) :
    (m.memory.take m.origin.toNat).length = m.origin.toNat ∧
      (place nibbles m).memory = m.memory.take m.origin.toNat ++
        (nibbles.map (fun n => (n.val : Int)) ++
          m.memory.drop (m.origin.toNat + nibbles.length)) := by
  have hroom := room_of_fits h hn
  have hsplice := Cells.splice_eq ho hroom
  rw [List.length_map] at hsplice hroom
  constructor
  · rw [List.length_take]
    omega
  · rw [← List.append_assoc, ← hsplice]
    rfl

theorem getElem?_place (h : m.memory.length = m.capacity) (ho : 0 ≤ m.origin)
    {nibbles : List Nibble} (hn : nibbles.length ≤ m.variant.programSpace) {i : Nat}
    (hi : i < nibbles.length) :
    (place nibbles m).memory[m.origin.toNat + i]? = some (nibbles[i].val : Int) := by
  obtain ⟨hfront, hmemory⟩ := memory_place h ho hn
  rw [hmemory, List.getElem?_append_right (by omega), hfront, Nat.add_sub_cancel_left,
    List.getElem?_append_left (by rwa [List.length_map]), List.getElem?_map,
    List.getElem?_eq_getElem hi]
  rfl

theorem getElem?_place_of_lt (h : m.memory.length = m.capacity) {nibbles : List Nibble}
    (hn : nibbles.length ≤ m.variant.programSpace) {i : Nat} (hi : i < m.origin.toNat) :
    (place nibbles m).memory[i]? = m.memory[i]? := by
  obtain ⟨hfront, hmemory⟩ := memory_place h (by omega) hn
  rw [hmemory, List.getElem?_append_left (by omega), List.getElem?_take_of_lt hi]

theorem getElem?_place_of_ge (h : m.memory.length = m.capacity) (ho : 0 ≤ m.origin)
    {nibbles : List Nibble} (hn : nibbles.length ≤ m.variant.programSpace) {i : Nat}
    (hi : m.origin.toNat + nibbles.length ≤ i) :
    (place nibbles m).memory[i]? = m.memory[i]? := by
  obtain ⟨hfront, hmemory⟩ := memory_place h ho hn
  rw [hmemory, List.getElem?_append_right (by omega), hfront,
    List.getElem?_append_right (by rw [List.length_map]; omega), List.length_map,
    List.getElem?_drop]
  congr 1
  omega

theorem received_place (h : m.memory.length = m.capacity) (ho : 0 ≤ m.origin)
    {nibbles : List Nibble} (hn : nibbles.length ≤ m.variant.programSpace) :
    m.Received nibbles (place nibbles m) where
  only_memory := rfl
  length := length_place h ho hn
  stands _ hi := getElem?_place h ho hn hi
  others i hi := by
    by_cases hlt : i < m.origin.toNat
    · exact getElem?_place_of_lt h hn hlt
    · exact getElem?_place_of_ge h ho hn (by omega)

theorem readProgram_answer (program : Value) (m m' : Machine) :
    (readProgram program m).answer = (readProgram program m').answer := by
  cases program with
  | str text => cases h : Program.parse text <;> simp [readProgram, h]
  | _ => rfl

theorem load_eq (program : Value) (m : Machine) :
    ((load program m).answer, (load program m).state) =
      match (readProgram program m).answer with
      | .error e => (.error e, m)
      | .ok nibbles =>
        if m.variant.programSpace < nibbles.length then
          (.error (.overfull nibbles.length m.variant.programSpace), m)
        else (.ok (), place nibbles m) := by
  have hs := readProgram_state program m
  rw [load, Action.bind_run]
  rcases hr : readProgram program m with ⟨answer, state, events⟩
  rw [hr] at hs
  subst hs
  cases answer with
  | error e => rfl
  | ok nibbles =>
    by_cases hn : state.variant.programSpace < nibbles.length <;> simp [loadNibbles, hn]

theorem load_of_fits {program : Value} {nibbles : List Nibble}
    (hread : (readProgram program m).answer = .ok nibbles)
    (hn : nibbles.length ≤ m.variant.programSpace) :
    (load program m).answer = .ok () ∧ (load program m).state = place nibbles m := by
  have heq := load_eq program m
  rw [hread] at heq
  exact Prod.mk.inj (heq.trans (if_neg (Int.not_lt.mpr hn)))

theorem load_of_overfull {program : Value} {nibbles : List Nibble}
    (hread : (readProgram program m).answer = .ok nibbles)
    (hn : m.variant.programSpace < nibbles.length) :
    (load program m).answer = .error (.overfull nibbles.length m.variant.programSpace) ∧
      (load program m).state = m := by
  have heq := load_eq program m
  rw [hread] at heq
  exact Prod.mk.inj (heq.trans (if_pos hn))

theorem load_cases (program : Value) (m : Machine) :
    ((∃ e, (load program m).answer = .error e) ∧ (load program m).state = m) ∨
      ∃ nibbles : List Nibble, (readProgram program m).answer = .ok nibbles ∧
        nibbles.length ≤ m.variant.programSpace ∧ (load program m).state = place nibbles m := by
  cases hread : (readProgram program m).answer with
  | error e =>
    have heq := load_eq program m
    rw [hread] at heq
    obtain ⟨hanswer, hstate⟩ := Prod.mk.inj heq
    exact .inl ⟨⟨e, hanswer⟩, hstate⟩
  | ok nibbles =>
    by_cases hn : m.variant.programSpace < nibbles.length
    · obtain ⟨hanswer, hstate⟩ := load_of_overfull hread hn
      exact .inl ⟨⟨_, hanswer⟩, hstate⟩
    · have hfits := Int.not_lt.mp hn
      exact .inr ⟨nibbles, rfl, hfits, (load_of_fits hread hfits).2⟩

private theorem checkNibble_eq_ok {position : Int} {v : Value} {n : Nibble}
    (h : Program.checkNibble position v = .ok n) : v = .int n.val := by
  cases v with
  | int i =>
    rw [Program.checkNibble] at h
    split at h
    · rename_i hi
      obtain rfl := Except.ok.inj h
      exact congrArg Value.int (Int.toNat_of_nonneg hi.1).symm
    · obtain ⟨_, -, hthrow⟩ := ok_of_bind h
      cases hthrow
  | _ =>
    obtain ⟨_, -, hthrow⟩ := ok_of_bind h
    cases hthrow

private theorem checkNibbles_eq_ok_iff {position : Int} {values : List Value}
    {nibbles : List Nibble} :
    Program.checkNibbles position values = .ok nibbles ↔
      values = nibbles.map fun n => .int n.val := by
  constructor
  · intro h
    induction values generalizing position nibbles with
    | nil =>
      obtain rfl := Except.ok.inj h
      rfl
    | cons v values ih =>
      obtain ⟨n, hn, hrest⟩ := ok_of_bind h
      obtain ⟨rest, hvalues, hcons⟩ := ok_of_bind hrest
      obtain rfl := Except.ok.inj hcons
      rw [List.map_cons, checkNibble_eq_ok hn, ih hvalues]
  · rintro rfl
    induction nibbles generalizing position with
    | nil => rfl
    | cons n nibbles ih =>
      have hn : Program.checkNibble position (.int n.val) = .ok n := by
        have hlt : 0 ≤ (n.val : Int) ∧ (n.val : Int) < 16 := by omega
        simp [Program.checkNibble, hlt, pure, Except.pure]
      rw [List.map_cons, Program.checkNibbles, hn]
      simp [ih, bind, Except.bind, pure, Except.pure]

theorem readProgram_eq_ok_iff {program : Value} (ht : ∀ text, program ≠ .str text)
    {nibbles : List Nibble} :
    (readProgram program m).answer = .ok nibbles ↔
      program.elements? = some (nibbles.map fun n => .int n.val) := by
  have hread : (readProgram program m).answer = Program.ofValue program := by
    cases program with
    | str text => exact absurd rfl (ht text)
    | _ => rfl
  rw [hread, Program.ofValue]
  cases program.elements? with
  | none => exact ⟨nofun, nofun⟩
  | some values => rw [Option.some_inj, ← @checkNibbles_eq_ok_iff 1]

theorem load_nibbles {m : Machine} {nibbles : List Nibble}
    (hn : nibbles.length ≤ m.variant.programSpace) :
    load (.list (nibbles.map fun n => .int n.val)) m =
      ⟨.ok (), place nibbles m, [.loaded nibbles.length m.origin]⟩ := by
  have hcheck : Program.checkNibbles 1 (nibbles.map fun n => .int n.val) = .ok nibbles :=
    checkNibbles_eq_ok_iff.mpr rfl
  have hread : readProgram (.list (nibbles.map fun n => .int n.val)) m = ⟨.ok nibbles, m, []⟩ := by
    simp [readProgram, Program.ofValue, Value.elements?, hcheck]
  simp [load, hread, loadNibbles, Int.not_lt.mpr hn]

/-- Loading is all or nothing. If it fails, the machine is as before. If it succeeds, the program
could be read and fits between the origin and the end of memory, its nibbles stand from the origin
on, and nothing else has changed. A program that can be read is refused if and only if it does not
fit, with its length and the room that there is; one that is no text can be read if and only if its
elements are nibbles, and these are what it says. -/
theorem load_all_or_nothing (m : Machine) (h : m.memory.length = m.capacity) (ho : 0 ≤ m.origin)
    (program : Value) :
    (∀ e, (load program m).answer = .error e → (load program m).state = m) ∧
    ((load program m).answer = .ok () → ∃ nibbles : List Nibble,
      (readProgram program m).answer = .ok nibbles ∧
        nibbles.length ≤ m.variant.programSpace ∧
          m.Received nibbles (load program m).state) ∧
    (∀ nibbles, (readProgram program m).answer = .ok nibbles →
      ((load program m).answer = .error (.overfull nibbles.length m.variant.programSpace) ↔
        m.variant.programSpace < nibbles.length) ∧
      ((load program m).answer = .ok () ↔ nibbles.length ≤ m.variant.programSpace)) ∧
    ((∀ text, program ≠ .str text) → ∀ nibbles : List Nibble,
      (readProgram program m).answer = .ok nibbles ↔
        program.elements? = some (nibbles.map fun n => .int n.val)) := by
  refine ⟨fun e he => ?_, fun hok => ?_, fun nibbles hread => ?_, fun ht nibbles =>
    readProgram_eq_ok_iff ht⟩
  · rcases load_cases program m with ⟨-, hs⟩ | ⟨nibbles, hread, hn, -⟩
    · exact hs
    · rw [(load_of_fits hread hn).1] at he
      cases he
  · rcases load_cases program m with ⟨⟨e, he⟩, -⟩ | ⟨nibbles, hread, hn, hs⟩
    · rw [hok] at he
      cases he
    · exact ⟨nibbles, hread, hn, hs ▸ received_place h ho hn⟩
  · rcases Int.lt_or_le m.variant.programSpace nibbles.length with hlt | hle
    · have hanswer := (load_of_overfull hread hlt).1
      rw [hanswer]
      exact ⟨⟨fun _ => hlt, fun _ => rfl⟩, nofun, fun hle => absurd hlt (Int.not_lt.mpr hle)⟩
    · have hanswer := (load_of_fits hread hle).1
      rw [hanswer]
      exact ⟨⟨nofun, fun hlt => absurd hlt (Int.not_lt.mpr hle)⟩, fun _ => hle, fun _ => rfl⟩

/-- A machine in the midst of something, with values that are no nibbles. -/
private def midway : Machine :=
  { fresh .nv32 with
    memory := List.replicate 32 200
    a := 77
    pc := 40
    cycles := 9
    lastFault := some .stackOverflow }

private def ones (n : Nat) : Value := .list (List.replicate n (.int 1))

/-- Seventeen nibbles fill the machine, one more does not fit, and a text with a line that is no
number is no program. -/
theorem load_all_or_nothing_of_midway :
    midway.memory.length = midway.capacity ∧ 0 ≤ midway.origin ∧
      (load (ones 17) midway).answer = .ok () ∧
      midway.Received (List.replicate 17 1) (load (ones 17) midway).state ∧
      (load (ones 18) midway).answer = .error (.overfull 18 17) ∧
      (load (ones 18) midway).state = midway ∧
      (load (.str "1\nx") midway).answer = .error (.badLine 2 "x" .notLiteral) ∧
      (load (.str "1\nx") midway).state = midway := by
  have h : midway.memory.length = midway.capacity := by decide
  have ho : 0 ≤ midway.origin := by decide
  obtain ⟨-, hreceived, hanswer, hread⟩ := load_all_or_nothing midway h ho (ones 17)
  obtain ⟨hkept, -, hanswer', hread'⟩ := load_all_or_nothing midway h ho (ones 18)
  obtain ⟨htext, -⟩ := load_all_or_nothing midway h ho (.str "1\nx")
  have hones := (hread nofun (List.replicate 17 1)).mpr rfl
  have hones' := (hread' nofun (List.replicate 18 1)).mpr rfl
  have hok := (hanswer _ hones).2.mpr (by decide)
  have hover := (hanswer' _ hones').1.mpr (by decide)
  have hline : (load (.str "1\nx") midway).answer = .error (.badLine 2 "x" .notLiteral) := rfl
  obtain ⟨nibbles, hsame, -, hstands⟩ := hreceived hok
  obtain rfl := Except.ok.inj (hones.symm.trans hsame)
  exact ⟨h, ho, hok, hstands, hover, hkept _ hover, hline, htext _ hline⟩

end FourBit.Machine
