import FourBit.Proofs.Store.RoundTrip

/-! Records that are stored and read again.
The class of a record is stored in front of its fields. It is found again in the namespace that
defines it, and no field is mistaken for a mark if none has the name of one. -/
namespace FourBit.Store
open CodeText

variable {τ : Type} [CodeText τ]

private theorem encodeFields_eq (fields : List (τ × Value τ)) :
    encodeFields fields = encodeEntries (fields.map fun f => (.str f.1, f.2)) := by
  induction fields with
  | nil => rfl
  | cons f fields ih =>
    rw [encodeFields, List.map_cons, encodeEntries, ih]
    rfl

private theorem withoutField_head {name : String} {v : Value τ} {fields : List (τ × Value τ)}
    (h : (name : τ) ∉ fields.map (·.1)) :
    withoutField name (((name : τ), v) :: fields) = fields := by
  have hkept : ∀ f ∈ fields, (f.1 != ofString name) = true := by
    intro f hf
    have hne : f.1 ≠ ofString name := fun he => h (List.mem_map.mpr ⟨f, hf, he⟩)
    simpa using hne
  rw [withoutField, List.filter_cons_of_neg (by simp), List.filter_eq_self.mpr hkept]

section
variable {c : Class} {fields : List (τ × Value τ)}

def recordFields (c : Class) (fields : List (τ × Value τ)) : List (τ × Value τ) :=
  ("_class", .str c.name) :: ("_module", .str c.home) :: fields

def recordDocument (c : Class) (members : List (τ × Json τ)) : Json τ :=
  .object (("_class", .str c.name) :: ("_module", .str c.home) :: members)

/-- The class of a record is found in its home, and its fields are told from all marks. -/
structure Restorable (c : Class) (fields : List (τ × Value τ)) : Prop where
  concrete : c.isAbstract = false
  found : findBinding (.str (ofString c.home) : Value τ) (.str (ofString c.name)) =
    .ok (.ok (.type c))
  nodup : ((recordFields c fields).map (·.1)).Nodup
  unmarked : ∀ f ∈ fields, f.1 ∉ marks
  unpaired : ∀ f ∈ fields, Unpaired f.1

private theorem Restorable.restore_eq {σ : Type} {s : σ} (h : Restorable c fields) :
    restore (recordFields c fields) s = ⟨.ok (.record c fields), s, []⟩ := by
  obtain ⟨hclass, hrest⟩ := List.nodup_cons.mp h.nodup
  obtain ⟨hmodule, -⟩ := List.nodup_cons.mp hrest
  have htail : withoutField "_class" (recordFields c fields) =
      (ofString "_module", Value.str (ofString c.home)) :: fields := withoutField_head hclass
  have hfields : withoutField "_module"
      ((ofString "_module", Value.str (ofString c.home)) :: fields) = fields :=
    withoutField_head hmodule
  have hmake : makeRecord (.type c) fields = .ok (.record c fields) := by
    rw [makeRecord, if_neg (by simp [h.concrete])]
  have hname : field? "_class" (recordFields c fields) = some (.str (ofString c.name)) := by
    simp [recordFields]
  have hlist : field? "_list" (recordFields c fields) = none := by
    simp [recordFields, @field?_mark _ _ _ h.unmarked "_list" (by simp [marks])]
  have hdict : field? "_dict" (recordFields c fields) = none := by
    simp [recordFields, @field?_mark _ _ _ h.unmarked "_dict" (by simp [marks])]
  simp [restore, restoreRecord, hlist, hdict, hname, htail, hfields, h.found, hmake]

theorem stored_record (h : Restorable c fields) (hall : ∀ f ∈ fields, RoundTrips f.2) :
    ∃ members, encode (.record c fields) = .ok (recordDocument c members) ∧
      (recordDocument c members).Exact ∧ Revives (recordDocument c members) (.record c fields) := by
  obtain ⟨members, hencode, hexact, hrevive⟩ := stored_fields h.unpaired hall
  have hput : Json.object (recordMembers c members) = recordDocument c members := by
    refine congrArg Json.object (foldl_putField ?_)
    have hnames := RevivesMembers.names_eq hrevive
    have hnodup := h.nodup
    rwa [recordFields, List.map_cons, List.map_cons, ← hnames] at hnodup
  refine ⟨members, ?_, ?_, fun s => ?_⟩
  · rw [encode, encodeFields_eq, encodeEntries_eq, hencode, ← hput]
    rfl
  · have htext {name text : String} : Json.ExactMember ((name : τ), .str (text : τ)) :=
      ⟨unpaired_ofString name, .str (unpaired_ofString text)⟩
    exact .of_members (List.forall_mem_cons.mpr ⟨htext, List.forall_mem_cons.mpr ⟨htext, hexact⟩⟩)
  · have hhead : @RevivesMembers τ _
        (("_class", .str c.name) :: ("_module", .str c.home) :: members) (recordFields c fields) :=
      .cons ⟨rfl, fun _ => rfl⟩ (.cons ⟨rfl, fun _ => rfl⟩ hrevive)
    rw [recordDocument, revive_object hhead h.nodup, h.restore_eq]

theorem writeRecord_eq_write (hstorable : c.isStorable = true)
    (hfree : field? "serialize" fields = none) :
    writeRecord (.record c fields) = write (.record c fields) := by
  have hfield : (Value.record c fields).checkOperation "serialize" = .ok () := by
    simp [Value.checkOperation, hfree]
  simp only [writeRecord, hfield, hstorable, if_true]
  rfl

/-- Every record of a class that mixes in storing has a text, and reading that text gives the
record itself, with its fields in their order, and reports nothing. -/
theorem record_round_trip (h : Restorable c fields) (hall : ∀ f ∈ fields, RoundTrips f.2)
    (hstorable : c.isStorable = true) (hfree : field? "serialize" fields = none) :
    ∃ members : List (τ × Json τ),
      writeRecord (.record c fields) = .ok (recordDocument c members).write ∧
      ∀ {σ : Type} (s : σ), readRecord c (recordDocument c members).write s =
        ⟨.ok (.record c fields), s, []⟩ := by
  obtain ⟨members, hencode, hexact, hrevive⟩ := stored_record h hall
  refine ⟨members, ?_, fun s => ?_⟩
  · rw [writeRecord_eq_write hstorable hfree, write, hencode]
    rfl
  · have hread : read (recordDocument c members).write s = ⟨.ok (.record c fields), s, []⟩ := by
      rw [read, Json.read_write hexact]
      exact hrevive s
    simp [readRecord, hstorable, hread, c.refines_self]

end

end FourBit.Store
