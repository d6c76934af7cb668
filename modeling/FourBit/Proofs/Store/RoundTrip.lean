import FourBit.Proofs.Store.Stored
import FourBit.Store.Decode

/-! Values that are stored and read again.
A container is stored as an object whose marks tell its type, and the members of a dictionary as an
object of their own, which has no marks and is a dictionary of texts until the marks around it are
seen. -/
namespace FourBit.Store
open Numeral CodeText

section
variable {τ : Type}

private theorem foldl_new {γ δ : Type} {put : List δ → γ → List δ} {f : γ → δ} {all : List γ}
    (h : ∀ seen e rest, seen ++ e :: rest = all → put (seen.map f) e = seen.map f ++ [f e])
    (seen rest : List γ) (ha : seen ++ rest = all) : rest.foldl put (seen.map f) = all.map f := by
  induction rest generalizing seen with
  | nil => rw [← ha, List.append_nil, List.foldl_nil]
  | cons e rest ih =>
    have hmap : seen.map f ++ [f e] = (seen ++ [e]).map f := by rw [List.map_append]; rfl
    rw [List.foldl_cons, h seen e rest ha, hmap]
    exact ih (seen ++ [e]) (by rw [List.append_assoc, List.singleton_append, ha])

private theorem not_mem_seen {γ κ : Type} {key : γ → κ} {seen rest : List γ} {e : γ}
    (h : ((seen ++ e :: rest).map key).Nodup) : key e ∉ seen.map key := by
  rw [List.map_append, List.map_cons, List.nodup_append] at h
  intro hm
  exact h.2.2 _ hm _ List.mem_cons_self rfl

private theorem putField_new {α : Type} [DecidableEq τ] {name : τ} {v : α} {fields : List (τ × α)}
    (h : name ∉ fields.map (·.1)) : putField name v fields = fields ++ [(name, v)] := by
  induction fields with
  | nil => rfl
  | cons f fields ih =>
    rw [List.map_cons, List.mem_cons, not_or] at h
    rw [putField, if_neg fun hf => h.1 hf.symm, ih h.2, List.cons_append]

theorem foldl_putField {α : Type} [DecidableEq τ] {before members : List (τ × α)}
    (h : ((before ++ members).map (·.1)).Nodup) :
    members.foldl (fun fields e => putField e.1 e.2 fields) before = before ++ members := by
  have hput := @foldl_new _ _ (fun fields e => putField e.1 e.2 fields) id (before ++ members) ?_
    before members rfl
  · rwa [List.map_id, List.map_id] at hput
  · intro seen e rest ha
    rw [← ha] at h
    rw [List.map_id]
    exact putField_new (not_mem_seen h)

private theorem commonType?_map {α : Type} {key : α → Value τ} (type : String)
    (h : ∀ a, (key a).typeName = type) (entries : List (α × Value τ)) :
    commonType? ((entries.map fun e => (key e.1, e.2)).map (·.1)) =
      if entries.isEmpty then none else some type := by
  cases entries with
  | nil => rfl
  | cons e entries => simp [commonType?, h]

variable [CodeText τ]

/-- Values of plain containers, whose dictionaries have integers for keys, or texts but no marks. -/
inductive Plain : Value τ → Prop where
  | null : Plain .null
  | bool (b : Bool) : Plain (.bool b)
  | int {i : Int} (h : isWritable i = true) : Plain (.int i)
  | str {s : τ} (h : Unpaired s) : Plain (.str s)
  | list {items : List (Value τ)} (h : ∀ v ∈ items, Plain v) : Plain (.list items)
  | tuple {items : List (Value τ)} (h : ∀ v ∈ items, Plain v) : Plain (.tuple items)
  | named {entries : List (τ × Value τ)} (keys : ∀ e ∈ entries, e.1 ∉ marks)
    (unpaired : ∀ e ∈ entries, Unpaired e.1) (nodup : (entries.map (·.1)).Nodup)
    (h : ∀ e ∈ entries, Plain e.2) : Plain (.dict (entries.map fun e => (.str e.1, e.2)))
  | numbered {entries : List (Int × Value τ)} (keys : ∀ e ∈ entries, isWritable e.1 = true)
    (nodup : (entries.map (·.1)).Nodup) (h : ∀ e ∈ entries, Plain e.2) :
    Plain (.dict (entries.map fun e => (.int e.1, e.2)))

/-- A document stands for a value, and reviving it has no effects. -/
def Revives (j : Json τ) (v : Value τ) : Prop :=
  ∀ {σ : Type} (s : σ), revive j s = ⟨.ok v, s, []⟩

/-- A value is stored exactly, and it is what the document stands for. -/
def RoundTrips (v : Value τ) : Prop := StoredAs encode Revives v

def RevivesMembers : List (τ × Json τ) → List (τ × Value τ) → Prop :=
  List.Forall₂ fun p f => p.1 = f.1 ∧ Revives p.2 f.2

variable {σ : Type} {s : σ}

private theorem reviveItems_eq {js : List (Json τ)} {items : List (Value τ)}
    (h : List.Forall₂ Revives js items) : reviveItems js s = ⟨.ok items, s, []⟩ := by
  induction h with
  | nil => rfl
  | cons hj _ ih => simp [reviveItems, hj s, ih]

theorem RevivesMembers.run {members : List (τ × Json τ)} {fields : List (τ × Value τ)}
    (h : RevivesMembers members fields) : reviveMembers members s = ⟨.ok fields, s, []⟩ := by
  induction h with
  | nil => rfl
  | cons hp _ ih =>
    obtain ⟨hname, hj⟩ := hp
    simp [reviveMembers, hj s, ih, hname]

theorem RevivesMembers.names_eq {members : List (τ × Json τ)} {fields : List (τ × Value τ)}
    (h : RevivesMembers members fields) : members.map (·.1) = fields.map (·.1) := by
  induction h with
  | nil => rfl
  | cons hp _ ih => rw [List.map_cons, List.map_cons, hp.1, ih]

private theorem byName_eq {fields : List (τ × Value τ)} (h : (fields.map (·.1)).Nodup) :
    byName fields = fields :=
  foldl_putField h

private theorem same_int (i j : Int) : Value.same (.int i : Value τ) (.int j) = .ok (i == j) := rfl

private theorem putEntry_new {i : Int} {v : Value τ} {entries : List (Int × Value τ)}
    (h : i ∉ entries.map (·.1)) :
    Value.putEntry (.int i) v (entries.map fun e => (.int e.1, e.2)) =
      entries.map (fun e => (.int e.1, e.2)) ++ [(.int i, v)] := by
  induction entries with
  | nil => rfl
  | cons e entries ih =>
    rw [List.map_cons, List.mem_cons, not_or] at h
    have hne : ¬ ((Value.same (.int e.1 : Value τ) (.int i)).toOption == some true) = true := by
      simp [same_int, Except.toOption, Ne.symm h.1]
    rw [List.map_cons, Value.putEntry, if_neg hne, ih h.2, List.cons_append]

private theorem ofEntries_eq {entries : List (Int × Value τ)} (h : (entries.map (·.1)).Nodup) :
    Value.ofEntries (entries.map fun e => (.int e.1, e.2)) =
      .dict (entries.map fun e => (.int e.1, e.2)) := by
  rw [Value.ofEntries, List.foldl_map]
  refine congrArg Value.dict (foldl_new (fun seen e rest ha => ?_) [] entries rfl)
  rw [← ha] at h
  exact putEntry_new (not_mem_seen h)

theorem revive_object {members : List (τ × Json τ)} {fields : List (τ × Value τ)}
    (hm : RevivesMembers members fields) (hn : (fields.map (·.1)).Nodup) :
    revive (.object members) s = restore fields s := by
  simp [revive, hm.run, byName_eq hn]

theorem field?_mark {fields : List (τ × Value τ)} (hk : ∀ f ∈ fields, f.1 ∉ marks)
    {mark : String} (hmark : (mark : τ) ∈ marks) : field? mark fields = none := by
  rw [field?, List.lookup_eq_none_iff]
  intro f hf
  have hne : (mark : τ) ≠ f.1 := fun he => hk f hf (he ▸ hmark)
  simpa using hne

private theorem restore_unmarked {fields : List (τ × Value τ)}
    (hk : ∀ f ∈ fields, f.1 ∉ marks) : restore fields s = ⟨.ok (namedDict fields), s, []⟩ := by
  have hlist : field? "_list" fields = none := field?_mark hk (by simp [marks])
  have hdict : field? "_dict" fields = none := field?_mark hk (by simp [marks])
  have hclass : field? "_class" fields = none := field?_mark hk (by simp [marks])
  rw [restore, hlist, hdict, hclass]
  rfl

private def typeField (mark : String) (values : List (Value τ)) : List (τ × Value τ) :=
  (commonType? values).toList.map fun (type : String) => ((mark : τ), .str type)

private def listFields (items : List (Value τ)) : List (τ × Value τ) :=
  ("_list", .list items) :: typeField "_type" items

private def tupleFields (items : List (Value τ)) : List (τ × Value τ) :=
  listFields items ++ ([("_tuple", .bool true)] : List (τ × Value τ))

private def dictFields (keys : List (Value τ)) (entries : Value τ) : List (τ × Value τ) :=
  ("_dict", entries) :: typeField "_key_type" keys

private theorem revives_typeMark (mark : String) (values : List (Value τ)) :
    RevivesMembers (typeMark mark values) (typeField mark values) := by
  unfold typeMark typeField
  cases commonType? values with
  | none => exact .nil
  | some type => exact .cons ⟨rfl, fun _ => rfl⟩ .nil

private theorem revives_list {items : List (Value τ)} {js : List (Json τ)}
    (h : List.Forall₂ Revives js items) :
    RevivesMembers (listMembers items js) (listFields items) := by
  have hitems : Revives (.array js) (.list items) := fun s => by simp [revive, reviveItems_eq h]
  exact .cons ⟨rfl, hitems⟩ (revives_typeMark "_type" items)

private theorem nodup_tupleFields (items : List (Value τ)) :
    ((tupleFields items).map (·.1)).Nodup := by
  unfold tupleFields listFields typeField
  cases commonType? items <;> simp

private theorem nodup_listFields (items : List (Value τ)) :
    ((listFields items).map (·.1)).Nodup := by
  have hnodup := nodup_tupleFields items
  rw [tupleFields, List.map_append] at hnodup
  exact (List.nodup_append.mp hnodup).1

private theorem nodup_dictFields (keys : List (Value τ)) (entries : Value τ) :
    ((dictFields keys entries).map (·.1)).Nodup := by
  unfold dictFields typeField
  cases commonType? keys <;> simp

private theorem restore_list (items : List (Value τ)) :
    restore (listFields items) s = ⟨.ok (.list items), s, []⟩ := by
  unfold listFields typeField
  cases commonType? items <;> simp [restore, restoreList]

private theorem restore_tuple (items : List (Value τ)) :
    restore (tupleFields items) s = ⟨.ok (.tuple items), s, []⟩ := by
  unfold tupleFields listFields typeField
  cases commonType? items <;> simp [restore, restoreList, Value.truthy, Value.elements?]

private theorem restore_dict (keys : List (Value τ)) (entries : Value τ) :
    restore (dictFields keys entries) s =
      ⟨restoreDict entries ((commonType? keys).any ("int" == ·)), s, []⟩ := by
  unfold dictFields typeField
  cases commonType? keys <;> simp [restore, Value.sameAtom, beq_eq_decide]

private theorem list_roundTrips {items : List (Value τ)} (h : ∀ v ∈ items, RoundTrips v) :
    RoundTrips (.list items) := by
  obtain ⟨js, hencode, hexact, hrevive⟩ := stored_list h
  refine ⟨_, hencode, hexact, fun s => ?_⟩
  rw [revive_object (revives_list hrevive) (nodup_listFields items), restore_list]

private theorem tuple_roundTrips {items : List (Value τ)} (h : ∀ v ∈ items, RoundTrips v) :
    RoundTrips (.tuple items) := by
  obtain ⟨js, hencode, hexact, hrevive⟩ := stored_tuple h
  refine ⟨_, hencode, hexact, fun s => ?_⟩
  have hmembers : RevivesMembers (tupleMembers items js) (tupleFields items) :=
    List.rel_append (revives_list hrevive) (.cons ⟨rfl, fun _ => rfl⟩ .nil)
  rw [revive_object hmembers (nodup_tupleFields items), restore_tuple]

private theorem dict_roundTrips {entries : List (Value τ × Value τ)}
    {members : List (τ × Json τ)} {fields : List (τ × Value τ)}
    (hmark : isMarked entries = false) (hencode : entries.mapM (storeEntry encode) = .ok members)
    (hexact : ∀ p ∈ members, Json.ExactMember p) (hrevive : RevivesMembers members fields)
    (hnodup : (fields.map (·.1)).Nodup) (hkeys : ∀ f ∈ fields, f.1 ∉ marks)
    (hrestore : restoreDict (namedDict fields)
      ((commonType? (entries.map (·.1))).any ("int" == ·)) = .ok (.dict entries)) :
    RoundTrips (.dict entries) := by
  obtain ⟨hdocument, hdocumentExact⟩ := stored_dict hmark hencode hexact
  refine ⟨_, hdocument, hdocumentExact, fun s => ?_⟩
  have hinner : Revives (.object members) (namedDict fields) := fun s => by
    rw [revive_object hrevive hnodup, restore_unmarked hkeys]
  have hmembers : RevivesMembers (dictMembers (entries.map (·.1)) members)
      (dictFields (entries.map (·.1)) (namedDict fields)) :=
    .cons ⟨rfl, hinner⟩ (revives_typeMark "_key_type" _)
  rw [revive_object hmembers (nodup_dictFields _ _), restore_dict, hrestore]

private theorem named_roundTrips {entries : List (τ × Value τ)}
    (hkeys : ∀ e ∈ entries, e.1 ∉ marks) (hunpaired : ∀ e ∈ entries, Unpaired e.1)
    (hnodup : (entries.map (·.1)).Nodup)
    (h : ∀ e ∈ entries, RoundTrips e.2) :
    RoundTrips (.dict (entries.map fun e => (.str e.1, e.2))) := by
  obtain ⟨members, hencode, hexact, hrevive⟩ := stored_fields hunpaired h
  have hmark : isMarked (entries.map fun e => (.str e.1, e.2)) = false := by
    refine isMarked_named fun mark hmark heq => ?_
    obtain ⟨e, he, rfl⟩ := List.mem_map.mp (heq ▸ List.mem_singleton_self mark)
    exact hkeys e he hmark
  refine dict_roundTrips hmark hencode hexact hrevive hnodup hkeys ?_
  rw [commonType?_map "str" fun _ => rfl]
  cases entries <;> rfl

private def keyName (i : Int) : τ := (decimal.write i : String)

private theorem readInteger_keyName {i : Int} (h : isWritable i = true) :
    readInteger .decimal (chars (keyName i : τ)) = .ok i := by
  have hchars : chars (keyName i : τ) = decimal.chars i := by
    rw [keyName, chars_ofString, Format.write, String.toList_ofList]
  rw [hchars, readInteger_decimal h]

private theorem decimal_names {entries : List (Int × Value τ)}
    (hkeys : ∀ e ∈ entries, isWritable e.1 = true) (hnodup : (entries.map (·.1)).Nodup) :
    (∀ f ∈ entries.map (fun e => ((keyName e.1 : τ), e.2)), f.1 ∉ marks) ∧
      ((entries.map fun e => ((keyName e.1 : τ), e.2)).map (·.1)).Nodup := by
  constructor
  · intro f hf hmark
    obtain ⟨e, he, rfl⟩ := List.mem_map.mp hf
    have hnone : ∀ m ∈ ["_list", "_dict", "_class"],
        (readInteger .decimal m.toList).toOption = none := by decide
    obtain ⟨m, hm, heq⟩ : ∃ m ∈ ["_list", "_dict", "_class"], (keyName e.1 : τ) = (m : τ) := by
      simpa [marks] using hmark
    have hread := @readInteger_keyName τ _ e.1 (hkeys e he)
    rw [heq, chars_ofString] at hread
    have hnot := hnone m hm
    rw [hread] at hnot
    cases hnot
  · rw [List.map_map]
    refine List.pairwise_map.mpr ((List.pairwise_map.mp hnodup).imp_of_mem ?_)
    intro e e' he he' hne heq
    have hread := @readInteger_keyName τ _ e.1 (hkeys e he)
    have heq : (keyName e.1 : τ) = keyName e'.1 := heq
    rw [heq, readInteger_keyName (hkeys e' he')] at hread
    exact hne (Except.ok.inj hread).symm

private theorem integerKey_keyName {i : Int} (h : isWritable i = true) :
    integerKey (.str (keyName i : τ)) = .ok (.int i) := by
  rw [integerKey, readInteger_keyName h]

private theorem mapM_numbered {read : Value τ × Value τ → Except Error (Value τ × Value τ)}
    (hread : ∀ i v, isWritable i = true → read (.str (keyName i), v) = .ok (.int i, v))
    {entries : List (Int × Value τ)} (hkeys : ∀ e ∈ entries, isWritable e.1 = true) :
    (entries.map fun e => (.str (keyName e.1), e.2)).mapM read =
      .ok (entries.map fun e => (.int e.1, e.2)) := by
  induction entries with
  | nil => rfl
  | cons e entries ih =>
    have hrest := ih fun e' he => hkeys e' (List.mem_cons_of_mem e he)
    rw [List.map_cons, List.mapM_cons, hread _ _ (hkeys e List.mem_cons_self), hrest]
    rfl

private theorem restoreDict_numbered {entries : List (Int × Value τ)}
    (hkeys : ∀ e ∈ entries, isWritable e.1 = true) (hnodup : (entries.map (·.1)).Nodup) :
    restoreDict (namedDict (entries.map fun e => ((keyName e.1 : τ), e.2))) true =
      .ok (.dict (entries.map fun e => (.int e.1, e.2))) := by
  rw [namedDict, List.map_map, restoreDict, if_pos rfl]
  simp only [Function.comp_def]
  rw [mapM_numbered (fun i v h => by rw [integerKey_keyName h]; rfl) hkeys]
  exact congrArg Except.ok (ofEntries_eq hnodup)

private theorem isMarked_numbered (entries : List (Int × Value τ)) :
    isMarked (entries.map fun e => (.int e.1, e.2)) = false := by
  match entries with
  | [] | [_] | _ :: _ :: _ => rfl

private theorem numbered_roundTrips {entries : List (Int × Value τ)}
    (hkeys : ∀ e ∈ entries, isWritable e.1 = true) (hnodup : (entries.map (·.1)).Nodup)
    (h : ∀ e ∈ entries, RoundTrips e.2) :
    RoundTrips (.dict (entries.map fun e => (.int e.1, e.2))) := by
  have hname : ∀ e ∈ entries, keyText (.int e.1 : Value τ) = .ok (keyName e.1) ∧
      Unpaired (keyName e.1 : τ) := by
    intro e he
    rw [keyText, writeDecimal, if_pos (hkeys e he)]
    exact ⟨rfl, unpaired_ofString _⟩
  obtain ⟨members, hencode, hexact, hrevive⟩ :=
    @stored_entries _ _ _ _ _ Value.int keyName entries hname h
  obtain ⟨hunmarked, hdistinct⟩ := decimal_names hkeys hnodup
  have hrestore := restoreDict_numbered hkeys hnodup
  refine dict_roundTrips (isMarked_numbered entries) hencode hexact hrevive hdistinct hunmarked ?_
  rw [commonType?_map "int" fun _ => rfl]
  cases entries with
  | nil => rfl
  | cons e entries => exact hrestore

theorem Plain.roundTrips {v : Value τ} (h : Plain v) : RoundTrips v := by
  induction h with
  | null => exact ⟨.null, rfl, .null, fun s => rfl⟩
  | bool b => exact ⟨.bool b, rfl, .bool b, fun s => rfl⟩
  | int h => exact stored_integer h fun s => rfl
  | str h => exact ⟨.str _, rfl, .str h, fun s => rfl⟩
  | list _ ih => exact list_roundTrips ih
  | tuple _ ih => exact tuple_roundTrips ih
  | named keys unpaired nodup _ ih => exact named_roundTrips keys unpaired nodup ih
  | numbered keys nodup _ ih => exact numbered_roundTrips keys nodup ih

/-- Every plain value has a text under which it is stored, and reading that text gives the value
itself, with its types and the order of its keys, and reports nothing. -/
theorem plain_round_trip (v : Value τ) (h : Plain v) :
    ∃ text, write v = .ok text ∧ ∀ {σ : Type} (s : σ), read text s = ⟨.ok v, s, []⟩ := by
  obtain ⟨j, hencode, hexact, hrevive⟩ := h.roundTrips
  refine ⟨j.write, ?_, fun s => ?_⟩
  · rw [write, hencode]
    rfl
  · rw [read, Json.read_write hexact]
    exact hrevive s

end

private def nested : Value :=
  .list [.dict [(.int (-3), .tuple []), (.int 10, .list [.bool true, .int 1])],
    .dict [(.str "_type", .null), (.str "", .str "é\n😀")]]

private theorem plain_nested : Plain nested := by
  have hint {i : Int} (h : i.natAbs < 100) : isWritable i = true := isWritable_of_lt h
  have hempty : Plain (.tuple []) := .tuple fun v hv => absurd hv List.not_mem_nil
  have hitems : Plain (.list [.bool true, .int 1]) :=
    .list (List.forall_mem_cons.mpr
      ⟨.bool true, List.forall_mem_singleton.mpr (.int (hint (by decide)))⟩)
  have hnumbered := @Plain.numbered String _ [(-3, .tuple []), (10, .list [.bool true, .int 1])]
    (List.forall_mem_cons.mpr ⟨hint (by decide), List.forall_mem_singleton.mpr (hint (by decide))⟩)
    (by decide) (List.forall_mem_cons.mpr ⟨hempty, List.forall_mem_singleton.mpr hitems⟩)
  have hnamed := @Plain.named String _ [("_type", .null), ("", .str "é\n😀")] (by decide)
    (fun _ _ => unpaired_string _) (by decide)
    (List.forall_mem_cons.mpr ⟨.null, List.forall_mem_singleton.mpr (.str (unpaired_string _))⟩)
  exact .list (List.forall_mem_cons.mpr ⟨hnumbered, List.forall_mem_singleton.mpr hnamed⟩)

/-- Keys may be negative integers or look like other marks, and texts may need two units. -/
theorem plain_round_trip_nested :
    Plain nested ∧ ∃ text, write nested = .ok text ∧
      ∀ {σ : Type} (s : σ), read text s = ⟨.ok nested, s, []⟩ :=
  ⟨plain_nested, plain_round_trip nested plain_nested⟩

end FourBit.Store
