import FourBit.Proofs.Store.Record
import FourBit.Snapshot
import FourBit.Value.Equality

/-! Snapshots that are stored and read again.
A snapshot is stored as a record of its class, with texts, integers and lists of integers in its
fields. Whatever the texts say, they are read as the texts they are, unless a pair of surrogates in
them stands for a character. -/
namespace FourBit.Store
open Numeral CodeText

variable {τ : Type} [CodeText τ]

structure Writable (s : Snapshot τ) : Prop where
  registers : ∀ i ∈ [s.a, s.b, s.c, s.pc, s.sp, s.cycles], isWritable i = true
  flags : ∀ i ∈ s.flags, isWritable i = true
  memory : ∀ i ∈ s.memory, isWritable i = true

structure Legible (s : Snapshot τ) : Prop where
  variant : Unpaired s.variant
  fault : ∀ t ∈ s.fault, Unpaired t

theorem legible_string (s : Snapshot) : Legible s :=
  ⟨unpaired_string s.variant, fun t _ => unpaired_string t⟩

private theorem plain_integers {is : List Int} (h : ∀ i ∈ is, isWritable i = true) :
    Plain (.list (is.map .int) : Value τ) := by
  refine .list fun v hv => ?_
  obtain ⟨i, hi, rfl⟩ := List.mem_map.mp hv
  exact .int (h i hi)

private theorem plain_fault {fault : Option τ} (h : ∀ t ∈ fault, Unpaired t) :
    Plain (fault.elim .null .str : Value τ) := by
  cases fault with
  | none => exact .null
  | some t => exact .str (h t rfl)

private theorem same_str (s t : τ) : Value.same (.str s) (.str t) = .ok (decide (s = t)) := by
  simp [Value.same, Value.sameAtom, beq_eq_decide]

private theorem same_integer (i j : Int) :
    Value.same (.int i : Value τ) (.int j) = .ok (decide (i = j)) := by
  simp [Value.same, Value.sameAtom, Value.asInt?, beq_eq_decide]

private theorem both_parts (b c : Bool) :
    (do if ← (.ok b : Except Error Bool) then .ok c else return false) = .ok (b && c) := by
  cases b <;> rfl

private theorem sameItems_integers (is js : List Int) :
    Value.sameItems (is.map .int : List (Value τ)) (js.map .int) = .ok (decide (is = js)) := by
  induction is generalizing js with
  | nil => cases js <;> simp [Value.sameItems]
  | cons i is ih =>
    cases js with
    | nil => simp [Value.sameItems]
    | cons j js =>
      rw [List.map_cons, List.map_cons, Value.sameItems, same_integer, ih, both_parts]
      simp

private theorem same_integers (is js : List Int) :
    Value.same (.list (is.map .int) : Value τ) (.list (js.map .int)) = .ok (decide (is = js)) := by
  rw [Value.same]
  split
  · exact sameItems_integers is js
  · rename_i hlength
    have hne : is ≠ js := by
      rintro rfl
      exact hlength rfl
    rw [decide_eq_false hne]

private theorem same_fault (f g : Option τ) :
    Value.same (f.elim .null .str) (g.elim .null .str) = .ok (decide (f = g)) := by
  cases f <;> cases g <;> simp [Value.same, Value.sameAtom, Value.asInt?, beq_eq_decide]

theorem toValue_same (s t : Snapshot τ) : s.toValue.same t.toValue = .ok (decide (s = t)) := by
  rw [Snapshot.toValue, Snapshot.toValue, Value.same, if_neg (by decide), if_pos (by decide)]
  cases s
  cases t
  simp [Snapshot.fields, Value.sameFields, lookup_ofString, same_str, same_integer, same_integers,
    same_fault, both_parts, -pure_bind]

private theorem findBinding_ofString (home name : String) :
    findBinding (.str (home : τ)) (.str (name : τ)) =
      findBinding (.str (ofString home : String)) (.str (ofString name : String)) := by
  simp only [findBinding, points_ofString, chars_ofString, toString_ofString]
  cases findNamespace home <;> simp only [toString_ofString]

private theorem restorable_fields (s : Snapshot τ) : Restorable .snapshot s.fields where
  concrete := rfl
  found := (findBinding_ofString _ _).trans rfl
  nodup := by
    have hnodup : ["_class", "_module", "variant", "A", "B", "C", "PC", "SP", "F", "memory",
        "cycles", "fault"].Nodup := by decide
    exact nodup_map_ofString hnodup
  unmarked := by simp [Snapshot.fields, marks]
  unpaired := by simp [Snapshot.fields, unpaired_ofString]

private theorem serialize_free (s : Snapshot τ) : field? "serialize" s.fields = none := by
  simp [Snapshot.fields]

private theorem plain_fields {s : Snapshot τ} (h : Writable s) (htexts : Legible s) :
    ∀ f ∈ s.fields, Plain f.2 := by
  have hregisters := h.registers
  simp only [Snapshot.fields, List.forall_mem_cons] at hregisters ⊢
  obtain ⟨ha, hb, hc, hpc, hsp, hcycles, -⟩ := hregisters
  exact ⟨.str htexts.variant, .int ha, .int hb, .int hc, .int hpc, .int hsp,
    plain_integers h.flags, plain_integers h.memory, .int hcycles, plain_fault htexts.fault,
    List.forall_mem_nil _⟩

theorem toValue_same_self (s : Snapshot τ) : s.toValue.same s.toValue = .ok true := by
  rw [toValue_same, decide_eq_true rfl]

theorem snapshot_restored {s : Snapshot τ} (h : Writable s) (htexts : Legible s) :
    ∃ members : List (τ × Json τ),
      writeRecord s.toValue = .ok (recordDocument .snapshot members).write ∧
      ∀ {σ : Type} (state : σ),
        readRecord .snapshot (recordDocument .snapshot members).write state =
          ⟨.ok s.toValue, state, []⟩ := by
  have hfields : ∀ f ∈ s.fields, RoundTrips f.2 :=
    fun f hf => (plain_fields h htexts f hf).roundTrips
  exact record_round_trip (restorable_fields s) hfields (by decide) (serialize_free s)

/-- A snapshot of integers that can be written and texts without pairs of surrogates has a text
under which it is stored, which starts with its class and the home of that. Reading it gives a
snapshot with the same attributes in the same order, which therefore equals the one that was stored,
and reports nothing. -/
theorem snapshot_round_trip (s : Snapshot τ) (h : Writable s) (htexts : Legible s) :
    ∃ members : List (τ × Json τ),
      let text := (Json.object (("_class", .str "MachineSnapshot") ::
        ("_module", .str "nibblevm.state.snapshot") :: members) : Json τ).write
      writeRecord s.toValue = .ok text ∧
      findBinding (.str "nibblevm.state.snapshot" : Value τ) (.str "MachineSnapshot") =
        .ok (.ok (.type .snapshot)) ∧
      (∀ {σ : Type} (state : σ), readRecord .snapshot text state = ⟨.ok s.toValue, state, []⟩) ∧
      s.toValue.same s.toValue = .ok true := by
  obtain ⟨members, hwrite, hread⟩ := snapshot_restored h htexts
  exact ⟨members, hwrite, (findBinding_ofString _ _).trans rfl, hread, toValue_same_self s⟩

private theorem exists_ok_bind {ε α β : Type} {x : Except ε α} {f : α → Except ε β} :
    (∃ b, (x >>= f) = .ok b) ↔ ∃ a, x = .ok a ∧ ∃ b, f a = .ok b := by
  constructor
  · rintro ⟨b, hb⟩
    obtain ⟨a, ha, hfa⟩ := ok_of_bind hb
    exact ⟨a, ha, b, hfa⟩
  · rintro ⟨a, rfl, b, hb⟩
    exact ⟨b, hb⟩

private theorem integer_stored_iff {i : Int} :
    (∃ j, encode (.int i : Value τ) = .ok j) ↔ isWritable i = true := by
  constructor
  · rintro ⟨j, hj⟩
    obtain ⟨_, hi, -⟩ := ok_of_bind hj
    cases hw : isWritable i with
    | true => rfl
    | false =>
      rw [writeDecimal, if_neg (Bool.eq_false_iff.mp hw)] at hi
      cases hi
  · intro h
    obtain ⟨j, hj, -⟩ := @stored_integer τ _ (fun _ _ => True) i h trivial
    exact ⟨j, hj⟩

private theorem exists_ok_both {ε α β γ : Type} {x : Except ε α} {y : Except ε β} {f : α → β → γ} :
    (∃ c, (do return f (← x) (← y)) = .ok c) ↔ (∃ a, x = .ok a) ∧ ∃ b, y = .ok b := by
  rw [exists_ok_bind]
  constructor
  · rintro ⟨a, ha, hrest⟩
    obtain ⟨b, hb, -⟩ := exists_ok_bind.mp hrest
    exact ⟨⟨a, ha⟩, b, hb⟩
  · rintro ⟨⟨a, ha⟩, b, hb⟩
    exact ⟨a, ha, exists_ok_bind.mpr ⟨b, hb, _, rfl⟩⟩

private theorem items_stored_iff {is : List Int} :
    (∃ js, encodeItems (is.map .int : List (Value τ)) = .ok js) ↔
      ∀ i ∈ is, isWritable i = true := by
  induction is with
  | nil => exact ⟨fun _ => List.forall_mem_nil _, fun _ => ⟨[], rfl⟩⟩
  | cons i is ih =>
    rw [List.map_cons, encodeItems, exists_ok_both, List.forall_mem_cons, integer_stored_iff, ih]

private theorem integers_stored_iff {is : List Int} :
    (∃ j, encode (.list (is.map .int) : Value τ) = .ok j) ↔ ∀ i ∈ is, isWritable i = true := by
  rw [← @items_stored_iff τ, encode, exists_ok_bind]
  exact exists_congr fun js => and_iff_left ⟨_, rfl⟩

private theorem fields_stored_iff {fields : List (τ × Value τ)} :
    (∃ members, encodeFields fields = .ok members) ↔ ∀ f ∈ fields, ∃ j, encode f.2 = .ok j := by
  induction fields with
  | nil => exact ⟨fun _ => List.forall_mem_nil _, fun _ => ⟨[], rfl⟩⟩
  | cons f fields ih => rw [encodeFields, exists_ok_both, List.forall_mem_cons, ih]

private theorem fault_stored (fault : Option τ) :
    ∃ j, encode (fault.elim .null .str : Value τ) = .ok j := by
  cases fault <;> exact ⟨_, rfl⟩

theorem snapshot_stored_iff (s : Snapshot τ) :
    (∃ text, writeRecord s.toValue = .ok text) ↔ Writable s := by
  have hwrite : writeRecord s.toValue = (do
      return (Json.object (recordMembers .snapshot (← encodeFields s.fields))).write) := by
    rw [Snapshot.toValue, writeRecord_eq_write (by decide) (serialize_free s), write, encode]
    simp
  have hstored : (∃ text, writeRecord s.toValue = .ok text) ↔
      ∀ f ∈ s.fields, ∃ j, encode f.2 = .ok j := by
    rw [← fields_stored_iff, hwrite, exists_ok_bind]
    exact exists_congr fun _ => and_iff_left ⟨_, rfl⟩
  rw [hstored]
  simp only [Snapshot.fields, List.forall_mem_cons, integer_stored_iff, integers_stored_iff]
  constructor
  · rintro ⟨-, ha, hb, hc, hpc, hsp, hflags, hmemory, hcycles, -⟩
    exact ⟨by simp [ha, hb, hc, hpc, hsp, hcycles], hflags, hmemory⟩
  · intro h
    have hregisters := h.registers
    simp only [List.forall_mem_cons] at hregisters
    obtain ⟨ha, hb, hc, hpc, hsp, hcycles, -⟩ := hregisters
    exact ⟨⟨_, rfl⟩, ha, hb, hc, hpc, hsp, h.flags, h.memory, hcycles, fault_stored s.fault,
      List.forall_mem_nil _⟩

/-- Texts that look like documents and marks, surrogates the wrong way round, numbers out of all
bounds, and no flags. -/
private def oddSnapshot : Snapshot RawText where
  variant := ("\x7b\"_list\": [1]\x7d\n\\😀" : String)
  a := -1
  b := 16
  c := 99
  pc := -42
  sp := 0
  flags := []
  memory := [-7, 0, 15, 16]
  cycles := -3
  fault := some ⟨[.ofNat 0xDE00, .ofNat 0xD83D]⟩

private theorem writable_odd : Writable oddSnapshot := by
  have hsmall {is : List Int} (h : ∀ i ∈ is, i.natAbs < 100) : ∀ i ∈ is, isWritable i = true :=
    fun i hi => isWritable_of_lt (h i hi)
  exact ⟨hsmall (by decide), hsmall (by decide), hsmall (by decide)⟩

private theorem legible_odd : Legible oddSnapshot := by
  refine ⟨unpaired_ofString _, fun t ht => ?_⟩
  cases ht
  exact .cons_cons (by decide) (.singleton _)

theorem snapshot_round_trip_odd :
    Writable oddSnapshot ∧ Legible oddSnapshot ∧ ∃ members : List (RawText × Json RawText),
      let text := (Json.object (("_class", .str "MachineSnapshot") ::
        ("_module", .str "nibblevm.state.snapshot") :: members) : Json RawText).write
      writeRecord oddSnapshot.toValue = .ok text ∧
      ∀ {σ : Type} (state : σ),
        readRecord .snapshot text state = ⟨.ok oddSnapshot.toValue, state, []⟩ := by
  obtain ⟨members, hwrite, -, hread, -⟩ := snapshot_round_trip oddSnapshot writable_odd legible_odd
  exact ⟨writable_odd, legible_odd, members, hwrite, hread⟩

/-- The text of a record is read as this value. -/
def RestoredAs (v w : Value τ) : Prop :=
  ∃ text, writeRecord v = .ok text ∧
    ∀ {σ : Type} (state : σ), readRecord .snapshot text state = ⟨.ok w, state, []⟩

private theorem restoredAs_unique {u v w : Value τ} (hv : RestoredAs u v) (hw : RestoredAs u w) :
    v = w := by
  obtain ⟨text, hwrite, hread⟩ := hv
  obtain ⟨text', hwrite', hread'⟩ := hw
  have htext : text = text' := Except.ok.inj (hwrite.symm.trans hwrite')
  have hread := hread ()
  rw [htext, hread'] at hread
  injection hread with h
  exact (Except.ok.inj h).symm

/-- A machine at rest whose last fault has this name. -/
private def resting (memory : List Int) (fault : Option RawText) : Snapshot RawText where
  variant := ("nv32" : String)
  a := 0
  b := 0
  c := 0
  pc := 0
  sp := 0
  flags := [0, 0, 0, 0]
  memory := memory
  fault := fault

/-- Faults that are written alike cannot be told apart in the text of a snapshot. -/
private theorem writeRecord_fault {f g : τ} (h : Json.writeString f = Json.writeString g)
    (s : Snapshot τ) : writeRecord { s with fault := some f }.toValue =
      writeRecord { s with fault := some g }.toValue := by
  rw [Snapshot.toValue, Snapshot.toValue, writeRecord_eq_write (by decide) (serialize_free _),
    writeRecord_eq_write (by decide) (serialize_free _), write, write, encode, encode]
  simp only [Snapshot.fields, encodeFields, bind_assoc, pure_bind]
  -- all fields in front of the fault are the same, and fail in the same way
  repeat refine bind_congr fun _ => ?_
  refine congrArg Except.ok ?_
  simp [recordMembers, putField, Json.write, Json.chars, Json.memberChars, h]

/-- A pair of surrogates in a fault is read as the character that it stands for, and a cell of
4301 digits cannot be stored. -/
theorem snapshot_not_restored :
    let pair := resting [] (some ⟨[.ofNat 0xD83D, .ofNat 0xDE00]⟩)
    let joined := resting [] (some ⟨[.ofNat 0x1F600]⟩)
    let long := resting [Nat.pow 10 maxDigits] none
    (Writable pair ∧ RestoredAs pair.toValue joined.toValue ∧
        ¬ RestoredAs pair.toValue pair.toValue) ∧
      Legible long ∧ ∀ v, ¬ RestoredAs long.toValue v := by
  intro pair joined long
  have hwritable (fault : Option RawText) : Writable (resting [] fault) := by
    have hzero {is : List Int} (h : ∀ i ∈ is, i = 0) : ∀ i ∈ is, isWritable i = true := by
      intro i hi
      rw [h i hi]
      exact isWritable_of_lt (by decide)
    exact ⟨hzero (by simp [resting]), hzero (by simp [resting]), hzero nofun⟩
  have hvariant (memory : List Int) (fault : Option RawText) :
      Unpaired (resting memory fault).variant := unpaired_ofString "nv32"
  have hjoined : RestoredAs pair.toValue joined.toValue := by
    have hlegible : Legible joined := by
      refine ⟨hvariant _ _, fun t ht => ?_⟩
      cases ht
      exact .singleton _
    obtain ⟨members, hwrite, hread⟩ := snapshot_restored (hwritable _) hlegible
    exact ⟨_, (writeRecord_fault (by decide) (resting [] none)).trans hwrite, hread⟩
  refine ⟨⟨hwritable _, hjoined, fun hpair => ?_⟩, ⟨hvariant _ _, nofun⟩, ?_⟩
  · have hsame := restoredAs_unique hjoined hpair
    simp [pair, joined, Snapshot.toValue, Snapshot.fields, resting] at hsame
  · rintro v ⟨text, hwrite, -⟩
    have hcell := ((snapshot_stored_iff long).mp ⟨text, hwrite⟩).memory _ List.mem_cons_self
    rw [isWritable_iff, Int.natAbs_natCast] at hcell
    exact Nat.lt_irrefl _ hcell

end FourBit.Store
