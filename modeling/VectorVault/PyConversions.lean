import VectorVault.PyObjects

/-! What conversion keeps.

Each component is a float nearest to the number given. Metadata comes back as the
dict it was, up to the order of its items, and what comes back converts again to
what is stored. -/

namespace VectorVault.Python

open FloatWidths

section Vectors

/-- An item that is a number, with the double it becomes. -/
def Denotes (item : PyObject) (value : F64) : Prop :=
  isNumeric item = true ∧ asDouble item = some value

theorem toComponents_ok {index : Nat} {items : List PyObject} {out : List F32}
    (converted : toComponents index items = .ok out) :
    List.Forall₂ (fun item component => ∃ value, Denotes item value ∧ component = narrow value)
      items out := by
  induction items generalizing index out with
  | nil =>
      cases converted
      exact .nil
  | cons item rest ih =>
      unfold toComponents at converted
      split at converted
      · next numeric =>
          split at converted
          · next value known =>
              rcases bind_ok converted with ⟨later, others, result⟩
              cases result
              exact .cons ⟨value, ⟨numeric, known⟩, rfl⟩ (ih others)
          · cases converted
      · cases converted

theorem toComponents_error {index : Nat} {items : List PyObject} {raised : Raised}
    (failed : toComponents index items = .error raised) :
    ∃ before bad after, items = before ++ bad :: after ∧
      (∀ item ∈ before, ∃ value, Denotes item value) ∧ (¬ ∃ value, Denotes bad value) ∧
      raised = notANumber (index + before.length) := by
  induction items generalizing index with
  | nil => cases failed
  | cons item rest ih =>
      have here : (¬ ∃ value, Denotes item value) → raised = notANumber index →
          ∃ before bad after, item :: rest = before ++ bad :: after ∧
            (∀ other ∈ before, ∃ value, Denotes other value) ∧ (¬ ∃ value, Denotes bad value) ∧
            raised = notANumber (index + before.length) := by
        intro bad named
        exact ⟨[], item, rest, rfl, fun _ none => absurd none List.not_mem_nil, bad, named⟩
      unfold toComponents at failed
      split at failed
      · next numeric =>
          split at failed
          · next value known =>
              cases later : toComponents (index + 1) rest with
              | ok out =>
                  rw [later] at failed
                  cases failed
              | error other =>
                  rw [later] at failed
                  cases failed
                  rcases ih later with ⟨before, bad, after, same, numbers, first, named⟩
                  refine ⟨item :: before, bad, after, ?_, ?_, first, ?_⟩
                  · rw [same, List.cons_append]
                  · intro other member
                    rcases List.mem_cons.mp member with isItem | earlier
                    · rw [isItem]
                      exact ⟨value, numeric, known⟩
                    · exact numbers other earlier
                  · rw [named, List.length_cons]
                    congr 1
                    omega
          · next unknown =>
              apply here _ (by cases failed; rfl)
              rintro ⟨value, _, known⟩
              rw [unknown] at known
              cases known
      · next other =>
          apply here _ (by cases failed; rfl)
          rintro ⟨value, numeric, _⟩
          exact other numeric

theorem toComponents_widened (index : Nat) (vector : List F32)
    (finite : ∀ component ∈ vector, Finite32 component) :
    toComponents index (vector.map (fun component => .float (widen component))) = .ok vector := by
  induction vector generalizing index with
  | nil => rfl
  | cons component rest ih =>
      have later := ih (index + 1)
        (fun other member => finite other (List.mem_cons_of_mem _ member))
      have same := narrow_widen (finite component List.mem_cons_self)
      simp only [List.map_cons, toComponents, isNumeric, asDouble, if_true, later, bind,
        Except.bind, same]
      rfl

theorem toFloatVector_fromFloatVector (vector : List F32)
    (finite : ∀ component ∈ vector, Finite32 component) :
    toFloatVector (fromFloatVector vector) = .ok vector :=
  toComponents_widened 0 vector finite

theorem finite_of_isFinite {component : F32} (finite : component.isFinite = true) :
    Finite32 component := by
  by_contra large
  have size := component.toNat_lt
  have field : component.toNat >>> 23 % 2 ^ 8 = 255 := by
    unfold Finite32 code32 infinity32 at large
    rw [Nat.shiftRight_eq_div_pow]
    omega
  have same : (component >>> 23) &&& 0xFF = 0xFF := by
    apply UInt32.toNat_inj.mp
    rw [UInt32.toNat_and, UInt32.toNat_shiftRight]
    calc component.toNat >>> ((23 : UInt32).toNat % 32) &&& (0xFF : UInt32).toNat
        = component.toNat >>> 23 &&& (2 ^ 8 - 1) := rfl
      _ = component.toNat >>> 23 % 2 ^ 8 := Nat.and_two_pow_sub_one_eq_mod _ 8
      _ = (0xFF : UInt32).toNat := field
  rw [F32.isFinite, same] at finite
  exact absurd finite (by decide)

end Vectors

section Metadata

def Textual (bytes : Bytes) : Prop := ∃ value, encode value = bytes

def TextualValue : MetadataValue → Prop
  | .string value => Textual value
  | _ => True

def TextualMetadata (metadata : Metadata) : Prop :=
  ∀ entry ∈ metadata.entries, Textual entry.1 ∧ TextualValue entry.2

def Named (name : PyObject) (key : Bytes) : Prop := ∃ value, name = .str value ∧ key = encode value

theorem named_biUnique : Relator.BiUnique Named := by
  constructor
  · rintro first second key ⟨value, isFirst, same⟩ ⟨other, isSecond, sameToo⟩
    rw [isFirst, isSecond, encode_injective (same.symm.trans sameToo)]
  · rintro name first second ⟨value, isName, same⟩ ⟨other, isNameToo, sameToo⟩
    rw [isName, PyObject.str.injEq] at isNameToo
    rw [same, sameToo, isNameToo]

structure Stores (item : PyObject × PyObject) (entry : Bytes × MetadataValue) : Prop where
  key : Named item.1 entry.1
  value : toValue entry.1 item.2 = .ok entry.2

theorem toValue_textual {key : Bytes} {object : PyObject} {value : MetadataValue}
    (converted : toValue key object = .ok value) : TextualValue value := by
  unfold toValue at converted
  split at converted
  · cases converted
    trivial
  · split at converted
    · cases converted
      trivial
    · cases converted
  · cases converted
    trivial
  · next text_ =>
      cases converted
      exact ⟨text_, rfl⟩
  · cases converted

theorem fromValue_toValue {key : Bytes} {object : PyObject} {value : MetadataValue}
    (converted : toValue key object = .ok value) : fromValue value = .ok object := by
  unfold toValue at converted
  split at converted
  · cases converted
    rfl
  · next number =>
      split at converted
      · next inside =>
          cases converted
          rw [fromValue, Int64.toInt_ofInt_of_le inside.1 inside.2]
          rfl
      · cases converted
  · cases converted
    rfl
  · cases converted
    rw [fromValue, decode_encode]
    rfl
  · cases converted

theorem toValue_fromValue {value : MetadataValue} (textual : TextualValue value) (key : Bytes) :
    ∃ object, fromValue value = .ok object ∧ toValue key object = .ok value := by
  cases value with
  | bool value => exact ⟨.bool value, rfl, rfl⟩
  | int64 value =>
      refine ⟨.int value.toInt, rfl, ?_⟩
      have low := Int64.le_toInt value
      have high := Int64.toInt_lt value
      rw [toValue, if_pos ⟨low, high⟩, Int64.ofInt_toInt]
      rfl
  | double value => exact ⟨.float value, rfl, rfl⟩
  | string value =>
      rcases textual with ⟨text_, same⟩
      refine ⟨.str text_, ?_, ?_⟩
      · rw [fromValue, ← same, decode_encode]
        rfl
      · rw [toValue, same]
        rfl

theorem toMetadata_ok {items : List (PyObject × PyObject)} {start metadata : Metadata}
    (converted : toMetadata items start = .ok metadata) :
    ∃ entries, List.Forall₂ Stores items entries ∧
      metadata = entries.foldl (fun built entry => built.insert entry.1 entry.2) start := by
  induction items generalizing start with
  | nil =>
      cases converted
      exact ⟨[], .nil, rfl⟩
  | cons item rest ih =>
      unfold toMetadata at converted
      split at converted
      · next empty => cases empty
      · next key value others same =>
          cases same
          rcases bind_ok converted with ⟨stored, valued, later⟩
          rcases ih later with ⟨entries, stores, result⟩
          exact ⟨(encode key, stored) :: entries, .cons ⟨⟨key, rfl, rfl⟩, valued⟩ stores, result⟩
      · cases converted

theorem toMetadata_of_stores {items : List (PyObject × PyObject)}
    {entries : List (Bytes × MetadataValue)} (stores : List.Forall₂ Stores items entries)
    (start : Metadata) :
    toMetadata items start =
      .ok (entries.foldl (fun built entry => built.insert entry.1 entry.2) start) := by
  induction stores generalizing start with
  | nil => rfl
  | @cons item entry items entries here _ ih =>
      rcases item with ⟨name, object⟩
      rcases here with ⟨⟨key, isKey, same⟩, valued⟩
      simp only at isKey valued
      rw [isKey, toMetadata, ← same, valued]
      exact ih _

theorem fromEntries_of_stores {items : List (PyObject × PyObject)}
    {entries : List (Bytes × MetadataValue)} (stores : List.Forall₂ Stores items entries) :
    fromEntries entries = .ok items := by
  induction stores with
  | nil => rfl
  | @cons item entry items entries here _ ih =>
      rcases item with ⟨name, object⟩
      rcases entry with ⟨bytes, value⟩
      rcases here with ⟨⟨key, isKey, same⟩, valued⟩
      simp only at isKey same valued
      simp only [fromEntries, same, decode_encode, fromValue_toValue valued, ih, bind, Except.bind,
        isKey]
      rfl

theorem stores_of_textual {entries : List (Bytes × MetadataValue)}
    (textual : ∀ entry ∈ entries, Textual entry.1 ∧ TextualValue entry.2) :
    ∃ items, List.Forall₂ Stores items entries := by
  induction entries with
  | nil => exact ⟨[], .nil⟩
  | cons entry rest ih =>
      rcases ih (fun other member => textual other (List.mem_cons_of_mem _ member)) with
        ⟨items, stores⟩
      rcases textual entry List.mem_cons_self with ⟨⟨key, same⟩, value⟩
      rcases toValue_fromValue value entry.1 with ⟨object, _, back⟩
      exact ⟨(.str key, object) :: items, .cons ⟨⟨key, rfl, same.symm⟩, back⟩ stores⟩

theorem fromMetadata_ok {metadata : Metadata} (textual : TextualMetadata metadata) :
    ∃ items, fromMetadata metadata = .ok (.dict items) ∧
      toMetadata items OrderedMap.empty = .ok metadata := by
  rcases stores_of_textual textual with ⟨items, stores⟩
  refine ⟨items, ?_, ?_⟩
  · rw [fromMetadata, fromEntries_of_stores stores]
    rfl
  · rw [toMetadata_of_stores stores, OrderedMap.foldl_insert_entries]

theorem mem_foldl_insert (entries : List (Bytes × MetadataValue)) (start : Metadata)
    {entry : Bytes × MetadataValue} (member : entry ∈
      (entries.foldl (fun built other => built.insert other.1 other.2) start).entries) :
    entry ∈ start.entries ∨ entry ∈ entries := by
  induction entries generalizing start with
  | nil => exact Or.inl member
  | cons first rest ih =>
      rcases ih _ member with inserted | later
      · have found := (OrderedMap.find_eq_some_iff _ entry.1 entry.2).mpr inserted
        rw [OrderedMap.find_insert] at found
        split at found
        · next same =>
            right
            rw [Option.some.injEq] at found
            rw [show entry = first from Prod.ext same found.symm]
            exact List.mem_cons_self
        · exact Or.inl ((OrderedMap.find_eq_some_iff _ entry.1 entry.2).mp found)
      · exact Or.inr (List.mem_cons_of_mem _ later)

theorem toMetadata_textual {items : List (PyObject × PyObject)} {metadata : Metadata}
    (converted : toMetadata items OrderedMap.empty = .ok metadata) : TextualMetadata metadata := by
  rcases toMetadata_ok converted with ⟨entries, stores, result⟩
  intro entry member
  rw [result] at member
  rcases mem_foldl_insert entries _ member with none | inside
  · cases none
  · rcases List.mem_iff_getElem.mp inside with ⟨i, bound, same⟩
    have here := stores.get (by rw [stores.length_eq]; exact bound) bound
    rw [List.get_eq_getElem, List.get_eq_getElem, same] at here
    rcases here.key with ⟨key, _, named⟩
    exact ⟨⟨key, named.symm⟩, toValue_textual here.value⟩

theorem fromMetadata_perm {items : List (PyObject × PyObject)} {metadata : Metadata}
    (distinct : (items.map Prod.fst).Nodup)
    (converted : toMetadata items OrderedMap.empty = .ok metadata) :
    ∃ items', fromMetadata metadata = .ok (.dict items') ∧ items'.Perm items := by
  rcases toMetadata_ok converted with ⟨entries, stores, result⟩
  have keys : List.Forall₂ Named (items.map Prod.fst) (entries.map Prod.fst) := by
    rw [List.forall₂_map_left_iff, List.forall₂_map_right_iff]
    exact stores.imp (fun _ _ here => here.key)
  have apart : (entries.map Prod.fst).Nodup := (List.rel_nodup named_biUnique keys).mp distinct
  -- The map holds the converted entries, in the order of its keys.
  have same : metadata.entries.Perm entries := by
    apply (List.perm_ext_iff_of_nodup (OrderedMap.nodup_keys metadata).of_map apart.of_map).mpr
    rintro ⟨key, value⟩
    rw [← OrderedMap.find_eq_some_iff, result, OrderedMap.foldl_insert_iff entries apart]
  rcases List.perm_comp_forall₂ same stores.flip with ⟨items', stores', permuted⟩
  refine ⟨items', ?_, permuted⟩
  rw [fromMetadata, fromEntries_of_stores stores'.flip]
  rfl

end Metadata

end VectorVault.Python
