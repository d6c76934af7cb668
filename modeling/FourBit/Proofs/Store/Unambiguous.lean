import FourBit.Proofs.Store.Stored

/-! Values that have their texts to themselves.
A container is told by its marks, which stand apart from the keys of dictionaries. A dictionary that
has a mark for its only key is written as it is, and what it holds without marks: so its key can be
taken for a mark, and a tuple in it for a list. -/
namespace FourBit.Store
open Numeral CodeText

variable {τ : Type}

/-- Texts, integers and containers of such, whose dictionaries have texts for keys. Among the
containers are tuples if these are allowed. -/
inductive Nested (legible : τ → Prop) (tuples : Prop) : Value τ → Prop where
  | null : Nested legible tuples .null
  | bool (b : Bool) : Nested legible tuples (.bool b)
  | int {i : Int} (h : isWritable i = true) : Nested legible tuples (.int i)
  | str {s : τ} (h : legible s) : Nested legible tuples (.str s)
  | list {items : List (Value τ)} (h : ∀ v ∈ items, Nested legible tuples v) :
    Nested legible tuples (.list items)
  | tuple {items : List (Value τ)} (allowed : tuples) (h : ∀ v ∈ items, Nested legible tuples v) :
    Nested legible tuples (.tuple items)
  | dict {entries : List (τ × Value τ)} (keys : ∀ e ∈ entries, legible e.1)
    (h : ∀ e ∈ entries, Nested legible tuples e.2) :
    Nested legible tuples (.dict (entries.map fun e => (.str e.1, e.2)))

theorem Nested.mono {legible legible' : τ → Prop} {tuples tuples' : Prop} {v : Value τ}
    (hlegible : ∀ s, legible s → legible' s) (htuples : tuples → tuples')
    (h : Nested legible tuples v) : Nested legible' tuples' v := by
  induction h with
  | null => exact .null
  | bool b => exact .bool b
  | int h => exact .int h
  | str h => exact .str (hlegible _ h)
  | list _ ih => exact .list ih
  | tuple allowed _ ih => exact .tuple (htuples allowed) ih
  | dict keys _ ih => exact .dict (fun e he => hlegible _ (keys e he)) ih

mutual

/-- The value, free of tuples, that is written as this document without marks. -/
def unplain : Json τ → Value τ
  | .null => .null
  | .bool b => .bool b
  | .int i => .int i
  | .float x => .float x
  | .str s => .str s
  | .array items => .list (unplainItems items)
  | .object members => .dict (unplainMembers members)
termination_by structural j => j

def unplainItems : List (Json τ) → List (Value τ)
  | [] => []
  | j :: rest => unplain j :: unplainItems rest
termination_by structural items => items

def unplainMembers : List (τ × Json τ) → List (Value τ × Value τ)
  | [] => []
  | (name, j) :: rest => (.str name, unplain j) :: unplainMembers rest
termination_by structural members => members

end

private theorem unplainItems_eq {js : List (Json τ)} {items : List (Value τ)}
    (h : List.Forall₂ (unplain · = ·) js items) : unplainItems js = items := by
  induction h with
  | nil => rfl
  | cons hj _ ih => rw [unplainItems, hj, ih]

private theorem unplainMembers_eq {members : List (τ × Json τ)} {fields : List (τ × Value τ)}
    (h : List.Forall₂ (fun p f => p.1 = f.1 ∧ unplain p.2 = f.2) members fields) :
    unplainMembers members = fields.map fun f => (.str f.1, f.2) := by
  induction h with
  | nil => rfl
  | cons hp _ ih => rw [unplainMembers, hp.1, hp.2, ih, List.map_cons]

variable [CodeText τ]

/-- The documents of the items of a list without a common type, which is stored under a mark
alone. -/
def Untyped (js : List (Json τ)) : Prop :=
  ∃ items : List (Value τ), (∀ v ∈ items, Nested Unpaired True v) ∧ commonType? items = none ∧
    encodeItems items = .ok js

/-- Nested values that are told from each other. What a dictionary has under a mark, if that is its
only key, holds no tuples; nor is it written like what the encoder itself puts under a mark alone,
which is a list without a common type or an empty dictionary. -/
inductive Told : Value τ → Prop where
  | null : Told .null
  | bool (b : Bool) : Told (.bool b)
  | int {i : Int} (h : isWritable i = true) : Told (.int i)
  | str {s : τ} (h : Unpaired s) : Told (.str s)
  | list {items : List (Value τ)} (h : ∀ v ∈ items, Told v) : Told (.list items)
  | tuple {items : List (Value τ)} (h : ∀ v ∈ items, Told v) : Told (.tuple items)
  | dict {entries : List (τ × Value τ)} (keys : ∀ mark ∈ marks, entries.map (·.1) ≠ [mark])
    (unpaired : ∀ e ∈ entries, Unpaired e.1) (h : ∀ e ∈ entries, Told e.2) :
    Told (.dict (entries.map fun e => (.str e.1, e.2)))
  | marked {mark : τ} {v : Value τ} (hmark : mark ∈ marks) (h : Nested Unpaired False v)
    (hlist : mark = "_list" → ∀ js, plainJson v = .ok (.array js) → ¬ Untyped js)
    (hdict : mark = "_dict" → v ≠ .dict []) : Told (.dict [(.str mark, v)])

private theorem unpaired_mark {mark : τ} (h : mark ∈ marks) : Unpaired mark := by
  simp only [marks, List.mem_cons, List.not_mem_nil, or_false] at h
  rcases h with rfl | rfl | rfl <;> exact unpaired_ofString _

theorem Told.nested {v : Value τ} (h : Told v) : Nested Unpaired True v := by
  induction h with
  | null => exact .null
  | bool b => exact .bool b
  | int h => exact .int h
  | str h => exact .str h
  | list _ ih => exact .list ih
  | tuple _ ih => exact .tuple trivial ih
  | dict _ unpaired _ ih => exact .dict unpaired ih
  | @marked mark v hmark h =>
    exact @Nested.dict τ Unpaired True [(mark, v)]
      (List.forall_mem_singleton.mpr (unpaired_mark hmark))
      (List.forall_mem_singleton.mpr (h.mono (fun _ => id) False.elim))

section
open scoped Classical

mutual

/-- The value that is told by this document. A member alone is a mark in front of a list without a
common type or of an empty dictionary, or else the only key of a dictionary; the first one of
several is the mark of a container. -/
noncomputable def unmark : Json τ → Value τ
  | .object [(name, .array js)] =>
    if name = "_list" ∧ Untyped js then .list (unmarkItems js)
    else .dict [(.str name, .list (unplainItems js))]
  | .object [(name, .object [])] =>
    if name = "_dict" then .dict [] else .dict [(.str name, .dict [])]
  | .object [(name, j)] => .dict [(.str name, unplain j)]
  | .object ((_, .array js) :: rest) =>
    if (field? "_tuple" rest).isSome then .tuple (unmarkItems js) else .list (unmarkItems js)
  | .object ((_, .object members) :: _) => .dict (unmarkMembers members)
  | j => unplain j
termination_by structural j => j

noncomputable def unmarkItems : List (Json τ) → List (Value τ)
  | [] => []
  | j :: rest => unmark j :: unmarkItems rest
termination_by structural items => items

noncomputable def unmarkMembers : List (τ × Json τ) → List (Value τ × Value τ)
  | [] => []
  | (name, j) :: rest => (.str name, unmark j) :: unmarkMembers rest
termination_by structural members => members

end

end

private theorem unmarkItems_eq {js : List (Json τ)} {items : List (Value τ)}
    (h : List.Forall₂ (unmark · = ·) js items) : unmarkItems js = items := by
  induction h with
  | nil => rfl
  | cons hj _ ih => rw [unmarkItems, hj, ih]

private theorem unmarkMembers_eq {members : List (τ × Json τ)} {fields : List (τ × Value τ)}
    (h : List.Forall₂ (fun p f => p.1 = f.1 ∧ unmark p.2 = f.2) members fields) :
    unmarkMembers members = fields.map fun f => (.str f.1, f.2) := by
  induction h with
  | nil => rfl
  | cons hp _ ih => rw [unmarkMembers, hp.1, hp.2, ih, List.map_cons]

private theorem Nested.storedPlain {v : Value τ} (h : Nested Unpaired False v) :
    StoredAs plainJson (unplain · = ·) v := by
  induction h with
  | null => exact ⟨.null, rfl, .null, rfl⟩
  | bool b => exact ⟨.bool b, rfl, .bool b, rfl⟩
  | int h => exact stored_integer h rfl
  | str h => exact ⟨.str _, rfl, .str h, rfl⟩
  | list _ ih =>
    obtain ⟨js, hjs, hexact, htells⟩ := stored_items ih
    refine ⟨.array js, ?_, .array hexact, congrArg Value.list (unplainItems_eq htells)⟩
    rw [plainJson, plainItems_eq, hjs]
    rfl
  | tuple allowed => exact allowed.elim
  | @dict entries keys _ ih =>
    obtain ⟨members, hmembers, hexact, htells⟩ := stored_fields keys ih
    refine ⟨.object members, ?_, .of_members hexact, ?_⟩
    · rw [plainJson, plainEntries_eq, hmembers]
      rfl
    · exact congrArg Value.dict (unplainMembers_eq htells)

private theorem unmark_list {items : List (Value τ)} {js : List (Json τ)}
    (h : List.Forall₂ (unmark · = ·) js items) (huntyped : commonType? items = none → Untyped js) :
    unmark (.object (listMembers items js)) = .list items := by
  rw [listMembers, typeMark]
  cases htype : commonType? items with
  | none => simp [unmark, unmarkItems_eq h, huntyped htype]
  | some type => simp [unmark, unmarkItems_eq h]

private theorem unmark_tuple {items : List (Value τ)} {js : List (Json τ)}
    (h : List.Forall₂ (unmark · = ·) js items) :
    unmark (.object (tupleMembers items js)) = .tuple items := by
  rw [tupleMembers, listMembers, typeMark]
  cases commonType? items with
  | none => simp [unmark, unmarkItems_eq h]
  | some type => simp [unmark, unmarkItems_eq h]

private theorem unmark_dict {fields : List (τ × Value τ)} {members : List (τ × Json τ)}
    (h : List.Forall₂ (fun p f => p.1 = f.1 ∧ unmark p.2 = f.2) members fields) :
    unmark (.object (dictMembers ((fields.map fun f => (Value.str f.1, f.2)).map (·.1)) members)) =
      .dict (fields.map fun f => (.str f.1, f.2)) := by
  cases h with
  | nil => simp [dictMembers, typeMark, commonType?, unmark]
  | @cons p f members fields hp hrest =>
    have hentries := unmarkMembers_eq (.cons hp hrest)
    have htype : commonType? (((f :: fields).map fun f => (Value.str f.1, f.2)).map (·.1)) =
        some "str" := by
      simp [commonType?, Value.typeName]
    rw [dictMembers, typeMark, htype]
    exact congrArg Value.dict hentries

private theorem unmark_marked {mark : τ} {v : Value τ} {j : Json τ} (hj : unplain j = v)
    (hlist : mark = "_list" → ∀ js, j = .array js → ¬ Untyped js)
    (hdict : mark = "_dict" → v ≠ .dict []) :
    unmark (.object [(mark, j)]) = .dict [(.str mark, v)] := by
  subst hj
  match j with
  | .array js =>
    have hmark : ¬ (mark = "_list" ∧ Untyped js) := fun h => hlist h.1 js rfl h.2
    rw [unmark, if_neg hmark, unplain]
  | .object [] =>
    have hmark : mark ≠ "_dict" := fun he => hdict he rfl
    rw [unmark, if_neg hmark]
    rfl
  | .object (_ :: _) | .null | .bool _ | .int _ | .float _ | .str _ => rfl

private theorem encodeItems_of_list {items : List (Value τ)} {js : List (Json τ)}
    (h : encode (.list items) = .ok (.object (listMembers items js))) :
    encodeItems items = .ok js := by
  rw [encode] at h
  obtain ⟨js', hjs, h⟩ := ok_of_bind h
  rw [hjs]
  cases h
  rfl

private theorem Told.stored {v : Value τ} (h : Told v) : StoredAs encode (unmark · = ·) v := by
  induction h with
  | null => exact ⟨.null, rfl, .null, rfl⟩
  | bool b => exact ⟨.bool b, rfl, .bool b, rfl⟩
  | int h => exact stored_integer h rfl
  | str h => exact ⟨.str _, rfl, .str h, rfl⟩
  | @list items h ih =>
    obtain ⟨js, hencode, hexact, htells⟩ := stored_list ih
    exact ⟨_, hencode, hexact, unmark_list htells fun htype =>
      ⟨items, fun v hv => (h v hv).nested, htype, encodeItems_of_list hencode⟩⟩
  | tuple _ ih =>
    obtain ⟨js, hencode, hexact, htells⟩ := stored_tuple ih
    exact ⟨_, hencode, hexact, unmark_tuple htells⟩
  | @dict entries keys unpaired _ ih =>
    obtain ⟨members, hencode, hexact, htells⟩ := stored_fields unpaired ih
    obtain ⟨hdocument, hdocumentExact⟩ := stored_dict (isMarked_named keys) hencode hexact
    exact ⟨_, hdocument, hdocumentExact, unmark_dict htells⟩
  | @marked mark v hmark h hlist hdict =>
    obtain ⟨j, hj, hexact, hunplain⟩ := h.storedPlain
    have hmarked : isMarked [(.str mark, v)] = true := by
      simpa [isMarked, marks, or_assoc] using hmark
    refine ⟨.object [(mark, j)], ?_, ?_, unmark_marked hunplain ?_ hdict⟩
    · rw [encode, if_pos hmarked, plainEntries, keyText, hj]
      rfl
    · exact .of_members (List.forall_mem_singleton.mpr ⟨unpaired_mark hmark, hexact⟩)
    · rintro he js rfl
      exact hlist he js hj

/-- No two values that are told from each other have the same text, not even two that differ in
their types or in the order of their keys alone. -/
theorem text_determines_value {v w : Value τ} (hv : Told v) (hw : Told w) {text : String}
    (htext : write v = .ok text) (htext' : write w = .ok text) : v = w := by
  obtain ⟨j, hencode, hexact, hv⟩ := hv.stored
  obtain ⟨k, hencode', hexact', hw⟩ := hw.stored
  rw [write, hencode] at htext
  rw [write, hencode', ← htext] at htext'
  have hdocument : k = j := Json.write_injective hexact' hexact (Except.ok.inj htext')
  rw [← hw, ← hv, hdocument]

private theorem encode_object_or_unplain {v : Value τ} {j : Json τ} (h : encode v = .ok j) :
    (∃ members, j = .object members) ∨ unplain j = v := by
  cases v with
  | null | bool | float | str =>
    cases h
    exact .inr rfl
  | int =>
    obtain ⟨_, -, h⟩ := ok_of_bind h
    cases h
    exact .inr rfl
  | bytes | set => cases h
  | list | tuple | record =>
    rw [encode] at h
    obtain ⟨_, -, h⟩ := ok_of_bind h
    cases h
    exact .inl ⟨_, rfl⟩
  | dict =>
    rw [encode] at h
    split at h <;>
    · obtain ⟨_, -, h⟩ := ok_of_bind h
      cases h
      exact .inl ⟨_, rfl⟩

private theorem unplain_of_encode {items : List (Value τ)} {js : List (Json τ)}
    (h : encodeItems items = .ok js) (hdict : ∀ v ∈ unplainItems js, v.typeName ≠ "dict") :
    unplainItems js = items := by
  induction items generalizing js with
  | nil =>
    cases h
    rfl
  | cons v items ih =>
    obtain ⟨j, hj, h⟩ := ok_of_bind h
    obtain ⟨js, hjs, h⟩ := ok_of_bind h
    cases h
    obtain ⟨hhead, hrest⟩ := List.forall_mem_cons.mp hdict
    rcases encode_object_or_unplain hj with ⟨members, rfl⟩ | hv
    · exact absurd rfl hhead
    · rw [unplainItems, hv, ih hjs hrest]

omit [CodeText τ] in
private theorem typeName_of_commonType? {items : List (Value τ)} {type : String}
    (h : commonType? items = some type) : ∀ v ∈ items, v.typeName = type := by
  cases items with
  | nil => cases h
  | cons v items =>
    rw [commonType?] at h
    split at h
    · rename_i hall
      cases h
      have hrest : ∀ w ∈ items, w.typeName = v.typeName :=
        fun w hw => beq_iff_eq.mp (List.all_eq_true.mp hall w hw)
      exact List.forall_mem_cons.mpr ⟨rfl, hrest⟩
    · cases h

/-- Under the mark for lists, only lists of dictionaries and lists without a common type can be
taken for what the encoder puts there. -/
theorem Told.of_commonType {items : List (Value τ)} {type : String}
    (h : ∀ v ∈ items, Nested Unpaired False v) (htype : commonType? items = some type)
    (hdict : type ≠ "dict") : Told (.dict [(.str ("_list" : τ), .list items)]) := by
  refine .marked (by simp [marks]) (.list h) ?_ (by simp)
  rintro - js hjs ⟨others, -, hnone, hothers⟩
  obtain ⟨js', hjs', -, htells⟩ := stored_items fun v hv => (h v hv).storedPlain
  have hdocument : js' = js := by
    rw [plainJson, plainItems_eq, hjs'] at hjs
    cases hjs
    rfl
  have hitems : unplainItems js = items := hdocument ▸ unplainItems_eq htells
  have hsame : unplainItems js = others := unplain_of_encode hothers fun v hv => by
    rw [hitems] at hv
    rw [typeName_of_commonType? htype v hv]
    exact hdict
  rw [← hsame, hitems, htype] at hnone
  cases hnone

/-- Marks for keys beside each other, in front of a truth value and of a list of integers, and
inside of what is under a mark alone. -/
private def manyMarks : Value :=
  .list [.dict [(.str "_list", .tuple [.int 1]), (.str "_tuple", .bool true)],
    .dict [(.str "_list", .bool false)],
    .dict [(.str "_list", .list [.int 1, .int 2])],
    .dict [(.str "_class", .dict [(.str "_dict", .dict [])])]]

private theorem told_manyMarks : Told manyMarks := by
  have hone {legible : String → Prop} : Nested legible False (.int 1) :=
    .int (isWritable_of_lt (by decide))
  have htwo {legible : String → Prop} : Nested legible False (.int 2) :=
    .int (isWritable_of_lt (by decide))
  have hbeside := @Told.dict String _
    [("_list", .tuple [.int 1]), ("_tuple", .bool true)] (by simp) (fun _ _ => unpaired_string _)
    (List.forall_mem_cons.mpr ⟨.tuple (List.forall_mem_singleton.mpr
      (.int (isWritable_of_lt (by decide)))), List.forall_mem_singleton.mpr (.bool true)⟩)
  have hfalse : Told (.dict [(.str "_list", .bool false)]) :=
    .marked (by decide) (.bool false) nofun nofun
  have hlist : Told (.dict [(.str "_list", .list [.int 1, .int 2])]) :=
    .of_commonType (List.forall_mem_cons.mpr ⟨hone, List.forall_mem_singleton.mpr htwo⟩) rfl
      (by decide)
  have hempty : Nested Unpaired False (.dict []) :=
    @Nested.dict String _ _ [] (List.forall_mem_nil _) (List.forall_mem_nil _)
  have hinner : Nested Unpaired False (.dict [(.str "_dict", .dict [])]) :=
    @Nested.dict String _ _ [("_dict", .dict [])] (fun _ _ => unpaired_string _)
      (List.forall_mem_singleton.mpr hempty)
  have hclass : Told (.dict [(.str "_class", .dict [(.str "_dict", .dict [])])]) :=
    .marked (by decide) hinner nofun nofun
  exact .list (List.forall_mem_cons.mpr ⟨hbeside, List.forall_mem_cons.mpr
    ⟨hfalse, List.forall_mem_cons.mpr ⟨hlist, List.forall_mem_singleton.mpr hclass⟩⟩⟩)

theorem text_determines_manyMarks :
    Told manyMarks ∧ ∃ text, write manyMarks = .ok text ∧
      ∀ w, Told w → write w = .ok text → w = manyMarks := by
  obtain ⟨j, hencode, -⟩ := told_manyMarks.stored
  have hwrite : write manyMarks = .ok j.write := by
    rw [write, hencode]
    rfl
  exact ⟨told_manyMarks, _, hwrite, fun w hw h => text_determines_value hw told_manyMarks h hwrite⟩

/-- Two nested values that differ and have the same text. -/
def Clash (v w : Value τ) : Prop :=
  Nested (fun _ => True) True v ∧ Nested (fun _ => True) True w ∧ v ≠ w ∧
    ∃ text, write v = .ok text ∧ write w = .ok text

/-- Whichever mark is the only key of a dictionary, the text can be that of another value: of a
list, of the empty dictionary, or of a dictionary with a list in place of a tuple. Wherever texts
stand, a pair of surrogates is written like the character that it stands for. -/
theorem lone_marks_clash :
    let pair : RawText := ⟨[.ofNat 0xD83D, .ofNat 0xDE00]⟩
    let joined : RawText := ⟨[.ofNat 0x1F600]⟩
    Clash (.dict [(.str "_list", .list [])] : Value) (.list []) ∧
      Clash (.dict [(.str "_list", .list [.dict [(.str "_dict", .dict [])], .null])] : Value)
        (.list [.dict [], .null]) ∧
      Clash (.dict [(.str "_dict", .dict [])] : Value) (.dict []) ∧
      Clash (.dict [(.str "_class", .tuple [])] : Value) (.dict [(.str "_class", .list [])]) ∧
      Clash (.str pair) (.str joined) ∧
      Clash (.dict [(.str pair, .null)]) (.dict [(.str joined, .null)]) := by
  intro pair joined
  have hdict {τ : Type} {key : τ} {v : Value τ} (hv : Nested (fun _ => True) True v) :
      Nested (fun _ => True) True (.dict [(.str key, v)]) :=
    @Nested.dict τ _ _ [(key, v)] (fun _ _ => trivial) (List.forall_mem_singleton.mpr hv)
  have hlist : Nested (fun _ => True) True (.list [] : Value) := .list (List.forall_mem_nil _)
  have htuple : Nested (fun _ => True) True (.tuple [] : Value) :=
    .tuple trivial (List.forall_mem_nil _)
  have hempty : Nested (fun _ => True) True (.dict [] : Value) :=
    @Nested.dict String _ _ [] (List.forall_mem_nil _) (List.forall_mem_nil _)
  have hpair {v : Value} (hv : Nested (fun _ => True) True v) :
      Nested (fun _ => True) True (.list [v, .null]) :=
    .list (List.forall_mem_cons.mpr ⟨hv, List.forall_mem_singleton.mpr .null⟩)
  have hne : pair ≠ joined := by decide
  have hsame : Json.writeString pair = Json.writeString joined := by decide
  have hkeys : write (.dict [(.str pair, .null)]) = write (.dict [(.str joined, .null)]) := by
    have hmark : isMarked [(.str pair, (.null : Value RawText))] = false := by decide
    have hmark' : isMarked [(.str joined, (.null : Value RawText))] = false := by decide
    rw [write, write, encode, encode, hmark, hmark']
    refine congrArg Except.ok ?_
    simp [Json.write, Json.chars, Json.memberChars, hsame, typeMark, commonType?, Value.typeName]
  exact ⟨⟨hdict hlist, hlist, by simp, _, rfl, rfl⟩,
    ⟨hdict (hpair (hdict hempty)), hpair hempty, by simp, _, rfl, rfl⟩,
    ⟨hdict hempty, hempty, by simp, _, rfl, rfl⟩,
    ⟨hdict htuple, hdict hlist, by simp, _, rfl, rfl⟩,
    ⟨.str trivial, .str trivial, by simp [hne], _, rfl,
      congrArg (fun cs => Except.ok (String.ofList cs)) hsame.symm⟩,
    ⟨hdict .null, hdict .null, by simp [hne], _, rfl, hkeys.symm⟩⟩

end FourBit.Store
