import AasSign.Codec.Text

/-! # JSON values

The values that the authentication code reads and writes. The JSON library is
not part of the repository: its reader and writer are parameters.
-/

namespace AasSign

inductive Json where
  | null
  | boolean (value : Bool)
  | number (literal : Bytes)
  | string (value : Bytes)
  | array (items : List Json)
  | object (fields : List (Bytes × Json))

namespace Json

def typeName : Json → Bytes
  | null => ascii "null"
  | boolean _ => ascii "boolean"
  | number _ => ascii "number"
  | string _ => ascii "string"
  | array _ => ascii "array"
  | object _ => ascii "object"

/-- `j.value(key, "")`: the field as a string, empty when it is missing. -/
def value (j : Json) (key : Bytes) : Except Bytes Bytes :=
  match j with
  | object fields =>
      match fields.lookup key with
      | none => .ok []
      | some (string s) => .ok s
      | some other =>
          .error (ascii "[json.exception.type_error.302] type must be string, but is " ++
            other.typeName)
  | other =>
      .error (ascii "[json.exception.type_error.306] cannot use value() with " ++ other.typeName)

/-- `std::map` assignment: the keys stay sorted. -/
def assign (key : Bytes) (value : Json) : List (Bytes × Json) → List (Bytes × Json)
  | [] => [(key, value)]
  | (k, v) :: rest =>
      if k = key then (key, value) :: rest
      else if key < k then (key, value) :: (k, v) :: rest
      else (k, v) :: assign key value rest

/-- `j[key] = value` on an object, or on the null value that becomes one. -/
def set (j : Json) (key : Bytes) (value : Json) : Json :=
  match j with
  | object fields => object (assign key value fields)
  | null => object [(key, value)]
  | other => other

end Json

namespace Json

/-- The fields of an object, a field under each key at most. -/
def field (j : Json) (key : Bytes) : Option Json :=
  match j with
  | object fields => fields.lookup key
  | _ => none

def IsObject (j : Json) : Prop := ∃ fields, j = object fields

theorem lookup_cons_eq (key k : Bytes) (value : Json) (fields : List (Bytes × Json)) :
    ((key, value) :: fields).lookup k = if k = key then some value else fields.lookup k := by
  by_cases hk : k = key
  · simp [hk]
  · rw [List.lookup_cons, beq_false_of_ne hk, if_neg hk]

theorem lookup_assign (key k : Bytes) (value : Json) (fields : List (Bytes × Json)) :
    (assign key value fields).lookup k = if k = key then some value else fields.lookup k := by
  induction fields with
  | nil => rw [assign, lookup_cons_eq]
  | cons head rest ih =>
      obtain ⟨name, held⟩ := head
      by_cases hname : name = key
      · rw [assign, if_pos hname, lookup_cons_eq, lookup_cons_eq]
        split
        · rfl
        next hk => rw [if_neg (hname ▸ hk)]
      · rw [assign, if_neg hname]
        split
        · rw [lookup_cons_eq]
        · rw [lookup_cons_eq, lookup_cons_eq, ih]
          by_cases hk : k = name
          · rw [if_pos hk, if_pos hk, if_neg (hk ▸ hname)]
          · rw [if_neg hk, if_neg hk]

theorem mem_assign {key : Bytes} {value : Json} {fields : List (Bytes × Json)}
    {field : Bytes × Json} (h : field ∈ assign key value fields) :
    field = (key, value) ∨ field ∈ fields := by
  induction fields with
  | nil => exact .inl (List.mem_singleton.mp h)
  | cons head rest ih =>
      obtain ⟨k, v⟩ := head
      rw [assign] at h
      split_ifs at h
      · exact (List.mem_cons.mp h).imp_right (List.mem_cons_of_mem _)
      · exact List.mem_cons.mp h
      · rcases List.mem_cons.mp h with hhead | hrest
        · exact .inr (List.mem_cons.mpr (.inl hhead))
        · exact (ih hrest).imp_right (List.mem_cons_of_mem _)

theorem field_set {j : Json} (hobject : j.IsObject) (key k : Bytes) (value : Json) :
    (j.set key value).field k = if k = key then some value else j.field k := by
  obtain ⟨fields, rfl⟩ := hobject
  exact lookup_assign key k value fields

theorem isObject_set {j : Json} (hobject : j.IsObject) (key : Bytes) (value : Json) :
    (j.set key value).IsObject := by
  obtain ⟨fields, rfl⟩ := hobject
  exact ⟨_, rfl⟩

theorem value_set (fields : List (Bytes × Json)) (key k s : Bytes) :
    ((object fields).set key (string s)).value k =
      if k = key then .ok s else (object fields).value k := by
  simp only [set, value, lookup_assign]
  by_cases hk : k = key
  · rw [if_pos hk, if_pos hk]
  · rw [if_neg hk, if_neg hk]

/-- A non-empty string is read exactly if the value is an object with it under the key. -/
theorem value_eq_ok {j : Json} {key s : Bytes} (hs : s ≠ []) :
    j.value key = .ok s ↔ j.field key = some (string s) := by
  cases j with
  | object fields =>
      simp only [value, field]
      cases hfield : fields.lookup key with
      | none => simpa using fun h : [] = s => hs h.symm
      | some held =>
          cases held <;> simp
  | _ => simp [value, field]

/-- A value without an exception is a field's string, or empty for want of the field. -/
theorem field_of_value {j : Json} {key s : Bytes} (h : j.value key = .ok s) :
    j.IsObject ∧ (j.field key = some (string s) ∨ j.field key = none ∧ s = []) := by
  cases j with
  | object fields =>
      refine ⟨⟨fields, rfl⟩, ?_⟩
      simp only [value, field] at h ⊢
      cases hfield : fields.lookup key with
      | none =>
          rw [hfield] at h
          exact .inr ⟨rfl, (Except.ok.inj h).symm⟩
      | some held =>
          rw [hfield] at h
          cases held <;> simp_all
  | _ => simp [value] at h

end Json

/-- The reader and the writer of the JSON library, with the texts of their
exceptions. -/
structure JsonLibrary where
  /-- `json::parse`. -/
  parse : Bytes → Except Bytes Json
  /-- `stream >> j`, which stops after the first value. -/
  extract : Bytes → Except Bytes Json
  /-- `j.dump(2)`. -/
  dump : Json → Except Bytes Bytes

end AasSign
