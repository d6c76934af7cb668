import FourBit.Proofs.Json.RoundTrip
import FourBit.Store.Encode
import Mathlib.Data.List.Forall2

/-! Documents under which values are stored.
What the document of a container tells of its items is what their documents tell, item by item and
member by member, whatever way documents are read. -/
namespace FourBit.Store
open CodeText

variable {τ : Type} [CodeText τ]

def marks : List τ := ["_list", "_dict", "_class"]

/-- A value is written as an exact document that tells it, in a way of reading documents. -/
def StoredAs (store : Value τ → Except Error (Json τ)) (tells : Json τ → Value τ → Prop)
    (v : Value τ) : Prop :=
  ∃ j, store v = .ok j ∧ j.Exact ∧ tells j v

/-- The members of the object for a list whose items have the given documents. -/
def listMembers (items : List (Value τ)) (js : List (Json τ)) : List (τ × Json τ) :=
  ("_list", .array js) :: typeMark "_type" items

def tupleMembers (items : List (Value τ)) (js : List (Json τ)) : List (τ × Json τ) :=
  listMembers items js ++ ([("_tuple", .bool true)] : List (τ × Json τ))

def dictMembers (keys : List (Value τ)) (members : List (τ × Json τ)) : List (τ × Json τ) :=
  ("_dict", .object members) :: typeMark "_key_type" keys

def storeEntry (store : Value τ → Except Error (Json τ)) (e : Value τ × Value τ) :
    Except Error (τ × Json τ) := do
  return (← keyText e.1, ← store e.2)

variable {store : Value τ → Except Error (Json τ)} {tells : Json τ → Value τ → Prop}

theorem stored_integer {i : Int} (h : Numeral.isWritable i = true) (ht : tells (.int i) (.int i)) :
    StoredAs encodeAtom tells (.int i) := by
  refine ⟨.int i, ?_, .int h, ht⟩
  rw [encodeAtom, writeDecimal, if_pos h]
  rfl

theorem stored_items {items : List (Value τ)} (h : ∀ v ∈ items, StoredAs store tells v) :
    ∃ js, items.mapM store = .ok js ∧ (∀ j ∈ js, j.Exact) ∧ List.Forall₂ tells js items := by
  induction items with
  | nil => exact ⟨[], rfl, List.forall_mem_nil _, .nil⟩
  | cons v items ih =>
    obtain ⟨⟨j, hj, hexact, htell⟩, hrest⟩ := List.forall_mem_cons.mp h
    obtain ⟨js, hjs, hall, htells⟩ := ih hrest
    refine ⟨j :: js, ?_, List.forall_mem_cons.mpr ⟨hexact, hall⟩, .cons htell htells⟩
    rw [List.mapM_cons, hj, hjs]
    rfl

theorem stored_entries {α : Type} {key : α → Value τ} {name : α → τ}
    {entries : List (α × Value τ)}
    (hk : ∀ e ∈ entries, keyText (key e.1) = .ok (name e.1) ∧ Unpaired (name e.1))
    (h : ∀ e ∈ entries, StoredAs store tells e.2) :
    ∃ members, (entries.map fun e => (key e.1, e.2)).mapM (storeEntry store) = .ok members ∧
      (∀ p ∈ members, Json.ExactMember p) ∧
      List.Forall₂ (fun p f => p.1 = f.1 ∧ tells p.2 f.2) members
        (entries.map fun e => (name e.1, e.2)) := by
  induction entries with
  | nil => exact ⟨[], rfl, List.forall_mem_nil _, .nil⟩
  | cons e entries ih =>
    obtain ⟨⟨hname, hunpaired⟩, hk⟩ := List.forall_mem_cons.mp hk
    obtain ⟨⟨j, hj, hexact, htell⟩, hrest⟩ := List.forall_mem_cons.mp h
    obtain ⟨members, hm, hall, htells⟩ := ih hk hrest
    refine ⟨(name e.1, j) :: members, ?_, List.forall_mem_cons.mpr ⟨⟨hunpaired, hexact⟩, hall⟩,
      .cons ⟨rfl, htell⟩ htells⟩
    rw [List.map_cons, List.mapM_cons, storeEntry, hname, hj, hm]
    rfl

theorem stored_fields {fields : List (τ × Value τ)} (hk : ∀ f ∈ fields, Unpaired f.1)
    (h : ∀ f ∈ fields, StoredAs store tells f.2) :
    ∃ members, (fields.map fun f => (.str f.1, f.2)).mapM (storeEntry store) = .ok members ∧
      (∀ p ∈ members, Json.ExactMember p) ∧
      List.Forall₂ (fun p f => p.1 = f.1 ∧ tells p.2 f.2) members fields := by
  obtain ⟨members, hmembers, hexact, htells⟩ :=
    @stored_entries _ _ _ _ _ Value.str id fields (fun f hf => ⟨rfl, hk f hf⟩) h
  have hfields : fields.map (fun f => (id f.1, f.2)) = fields := List.map_id fields
  exact ⟨members, hmembers, hexact, hfields ▸ htells⟩

private theorem exact_typeMark (mark : String) (values : List (Value τ)) :
    ∀ p ∈ typeMark mark values, Json.ExactMember p := by
  intro p hp
  obtain ⟨type, -, rfl⟩ := List.mem_map.mp hp
  exact ⟨unpaired_ofString mark, .str (unpaired_ofString type)⟩

private theorem exact_listMembers (items : List (Value τ)) {js : List (Json τ)}
    (h : ∀ j ∈ js, j.Exact) : ∀ p ∈ listMembers items js, Json.ExactMember p :=
  List.forall_mem_cons.mpr ⟨⟨unpaired_ofString _, .array h⟩, exact_typeMark _ _⟩

theorem encodeItems_eq (items : List (Value τ)) : encodeItems items = items.mapM encode := by
  induction items with
  | nil => rfl
  | cons v items ih => rw [encodeItems, List.mapM_cons, ih]

theorem plainItems_eq (items : List (Value τ)) : plainItems items = items.mapM plainJson := by
  induction items with
  | nil => rfl
  | cons v items ih => rw [plainItems, List.mapM_cons, ih]

theorem encodeEntries_eq (entries : List (Value τ × Value τ)) :
    encodeEntries entries = entries.mapM (storeEntry encode) := by
  induction entries with
  | nil => rfl
  | cons e entries ih =>
    rw [encodeEntries, List.mapM_cons, ih]
    simp [storeEntry]

theorem plainEntries_eq (entries : List (Value τ × Value τ)) :
    plainEntries entries = entries.mapM (storeEntry plainJson) := by
  induction entries with
  | nil => rfl
  | cons e entries ih =>
    rw [plainEntries, List.mapM_cons, ih]
    simp [storeEntry]

theorem stored_list {items : List (Value τ)} (h : ∀ v ∈ items, StoredAs encode tells v) :
    ∃ js, encode (.list items) = .ok (.object (listMembers items js)) ∧
      (Json.object (listMembers items js)).Exact ∧ List.Forall₂ tells js items := by
  obtain ⟨js, hjs, hall, htells⟩ := stored_items h
  refine ⟨js, ?_, ?_, htells⟩
  · rw [encode, encodeItems_eq, hjs]
    rfl
  · exact .of_members (exact_listMembers items hall)

theorem stored_tuple {items : List (Value τ)} (h : ∀ v ∈ items, StoredAs encode tells v) :
    ∃ js, encode (.tuple items) = .ok (.object (tupleMembers items js)) ∧
      (Json.object (tupleMembers items js)).Exact ∧ List.Forall₂ tells js items := by
  obtain ⟨js, hjs, hall, htells⟩ := stored_items h
  refine ⟨js, ?_, ?_, htells⟩
  · rw [encode, encodeItems_eq, hjs]
    rfl
  · exact .of_members (List.forall_mem_append.mpr ⟨exact_listMembers items hall,
      List.forall_mem_singleton.mpr ⟨unpaired_ofString _, .bool true⟩⟩)

theorem stored_dict {entries : List (Value τ × Value τ)} {members : List (τ × Json τ)}
    (hmark : isMarked entries = false)
    (hencode : entries.mapM (storeEntry encode) = .ok members)
    (hexact : ∀ p ∈ members, Json.ExactMember p) :
    encode (.dict entries) = .ok (.object (dictMembers (entries.map (·.1)) members)) ∧
      (Json.object (dictMembers (entries.map (·.1)) members)).Exact := by
  constructor
  · rw [encode, hmark, encodeEntries_eq, hencode]
    rfl
  · exact .of_members (List.forall_mem_cons.mpr
      ⟨⟨unpaired_ofString _, .of_members hexact⟩, exact_typeMark _ _⟩)

theorem isMarked_named {entries : List (τ × Value τ)}
    (h : ∀ mark ∈ marks, entries.map (·.1) ≠ [mark]) :
    isMarked (entries.map fun e => (.str e.1, e.2)) = false := by
  match entries, h with
  | [], _ => rfl
  | [e], h =>
    have hkey : e.1 ∉ marks := fun hmark => h e.1 hmark rfl
    simp only [marks, List.mem_cons, List.not_mem_nil, or_false, not_or] at hkey
    simp [isMarked, hkey]
  | _ :: _ :: _, _ => rfl

end FourBit.Store
