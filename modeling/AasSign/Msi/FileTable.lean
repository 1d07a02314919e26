import AasSign.Msi.Cabinet

/-! # The file table of a cabinet

The records that a walk over the file table goes through: sixteen octets of
fixed fields, a name, and a zero. What holds of such a table is stated about
the octets, apart from the functions that read or patch them.
-/

namespace AasSign

open Foundation

structure TableEntry where
  name : Bytes
  size : Nat
  date : Nat
  time : Nat
  attributes : Nat
  deriving DecidableEq, Repr

/-- The record at the cursor, and where the next one is. -/
def RecordAt (file : Bytes) (cursor : Nat) (entry : TableEntry) (next : Nat) : Prop :=
  ∃ fixed : Bytes, fixed.length = 16 ∧ OccursAt (fixed ++ (entry.name ++ [0])) file cursor ∧
    0 ∉ entry.name ∧ entry.size = u32 fixed 0 ∧ entry.date = u16 fixed 10 ∧
    entry.time = u16 fixed 12 ∧ entry.attributes = u16 fixed 14 ∧
    next = cursor + 17 + entry.name.length

/-- The table from `start` lists the entries and ends at `finish`. -/
inductive FileTable (file : Bytes) (start : Nat) : List TableEntry → Nat → Prop where
  | nil : FileTable file start [] start
  | snoc {entries : List TableEntry} {cursor : Nat} {entry : TableEntry} {next : Nat}
      (before : FileTable file start entries cursor) (record : RecordAt file cursor entry next) :
      FileTable file start (entries ++ [entry]) next

section Words

variable {p : Bytes}

theorem getD_toNat_lt (i : Nat) : (p.getD i 0).toNat < 2 ^ 8 := UInt8.toNat_lt _

theorem u16_eq (i : Nat) :
    u16 p i = (p.getD i 0).toNat + 2 ^ 8 * (p.getD (i + 1) 0).toNat := by
  rw [u16, Nat.or_comm, ← Nat.shiftLeft_add_eq_or_of_lt (getD_toNat_lt i), Nat.shiftLeft_eq]
  ring

theorem u16_lt (i : Nat) : u16 p i < 2 ^ 16 := by
  have hlow := getD_toNat_lt (p := p) i
  have hhigh := getD_toNat_lt (p := p) (i + 1)
  rw [u16_eq]
  omega

theorem u32_eq (i : Nat) : u32 p i = u16 p i + 2 ^ 16 * u16 p (i + 2) := by
  rw [u32, Nat.or_comm, ← Nat.shiftLeft_add_eq_or_of_lt (u16_lt i), Nat.shiftLeft_eq]
  ring

theorem u32_lt (i : Nat) : u32 p i < 2 ^ 32 := by
  have hlow := u16_lt (p := p) i
  have hhigh := u16_lt (p := p) (i + 2)
  rw [u32_eq]
  omega

/-- A word depends on its own octets only. -/
theorem u16_congr {q : Bytes} {i j : Nat} (h : ∀ k < 2, p[i + k]? = q[j + k]?) :
    u16 p i = u16 q j := by
  simp [u16, List.getD_eq_getElem?_getD, show p[i]? = q[j]? from h 0 (by omega),
    h 1 (by omega)]

theorem u32_congr {q : Bytes} {i j : Nat} (h : ∀ k < 4, p[i + k]? = q[j + k]?) :
    u32 p i = u32 q j := by
  have hlow : u16 p i = u16 q j := u16_congr fun k hk => h k (by omega)
  have hhigh : u16 p (i + 2) = u16 q (j + 2) := by
    apply u16_congr
    intro k hk
    simpa only [Nat.add_assoc] using h (2 + k) (by omega)
  rw [u32, u32, hlow, hhigh]

theorem getElem?_take_zero {n i : Nat} (h : i < n) : (p.take n)[i]? = p[i]? :=
  List.getElem?_take_of_lt h

end Words

section Table

variable {file file' : Bytes} {start cursor next finish : Nat} {entry : TableEntry}
  {entries : List TableEntry}

theorem RecordAt.bound (h : RecordAt file cursor entry next) : next ≤ file.length := by
  obtain ⟨fixed, hfixed, hoccurs, -, -, -, -, -, rfl⟩ := h
  have hbound := hoccurs.bound
  simp only [List.length_append, List.length_singleton, hfixed] at hbound
  omega

theorem RecordAt.lt (h : RecordAt file cursor entry next) : cursor < next := by
  obtain ⟨fixed, -, -, -, -, -, -, -, rfl⟩ := h
  omega

theorem FileTable.le (h : FileTable file start entries finish) : start ≤ finish := by
  induction h with
  | nil => exact le_rfl
  | snoc _ record ih => exact ih.trans record.lt.le

/-- A record depends on the octets up to the next one only. -/
theorem RecordAt.congr (h : RecordAt file cursor entry next)
    (hsame : ∀ i, cursor ≤ i → i < next → file'[i]? = file[i]?) (hlength : file'.length = file.length) :
    RecordAt file' cursor entry next := by
  have hbound := h.bound
  obtain ⟨fixed, hfixed, hoccurs, hname, hsize, hdate, htime, hattributes, rfl⟩ := h
  refine ⟨fixed, hfixed, hoccurs.congr ?_ ?_, hname, hsize, hdate, htime, hattributes, rfl⟩
  · intro i hi
    simp only [List.length_append, List.length_singleton, hfixed] at hi
    exact hsame _ (by omega) (by omega)
  · simp only [List.length_append, List.length_singleton, hfixed]
    omega

/-- A table depends on the octets up to its end only. -/
theorem FileTable.congr (h : FileTable file start entries finish)
    (hsame : ∀ i, start ≤ i → i < finish → file'[i]? = file[i]?)
    (hlength : file'.length = file.length) : FileTable file' start entries finish := by
  induction h with
  | nil => exact .nil
  | snoc before record ih =>
      refine .snoc (ih fun i hstart hi => hsame i hstart (hi.trans record.lt)) ?_
      exact record.congr (fun i hi hnext => hsame i (before.le.trans hi) hnext) hlength

end Table

/-! ## One way to read a table -/

section Unique

variable {file : Bytes} {start cursor next next' finish finish' : Nat} {entry entry' : TableEntry}
  {entries entries' : List TableEntry}

theorem append_zero_unique {name name' rest rest' : Bytes} (hname : 0 ∉ name) (hname' : 0 ∉ name')
    (h : name ++ 0 :: rest = name' ++ 0 :: rest') : name = name' := by
  induction name generalizing name' with
  | nil =>
      cases name' with
      | nil => rfl
      | cons c name' =>
          obtain ⟨rfl, -⟩ := List.cons.inj h
          exact absurd List.mem_cons_self hname'
  | cons c name ih =>
      cases name' with
      | nil =>
          obtain ⟨rfl, -⟩ := List.cons.inj h
          exact absurd List.mem_cons_self hname
      | cons c' name' =>
          obtain ⟨rfl, hrest⟩ := List.cons.inj h
          rw [ih (fun hmem => hname (List.mem_cons_of_mem _ hmem))
            (fun hmem => hname' (List.mem_cons_of_mem _ hmem)) hrest]

theorem OccursAt.zero_unique {name name' : Bytes} (hname : 0 ∉ name) (hname' : 0 ∉ name')
    (h : OccursAt (name ++ [0]) file start) (h' : OccursAt (name' ++ [0]) file start) :
    name = name' := by
  obtain ⟨before, after, rfl, rfl⟩ := h
  obtain ⟨before', after', heq, hlength⟩ := h'
  have hrest := (List.append_inj heq hlength.symm).2
  exact append_zero_unique hname hname'
    (show name ++ 0 :: after = name' ++ 0 :: after' by simpa using hrest)

theorem RecordAt.unique (h : RecordAt file cursor entry next)
    (h' : RecordAt file cursor entry' next') : entry = entry' ∧ next = next' := by
  obtain ⟨fixed, hfixed, hoccurs, hname, hsize, hdate, htime, hattributes, rfl⟩ := h
  obtain ⟨fixed', hfixed', hoccurs', hname', hsize', hdate', htime', hattributes', rfl⟩ := h'
  obtain rfl : fixed = fixed' := hoccurs.left.unique hoccurs'.left (by rw [hfixed, hfixed'])
  have hnames := OccursAt.zero_unique hname hname' hoccurs.right hoccurs'.right
  refine ⟨?_, by rw [hnames]⟩
  cases entry
  cases entry'
  simp_all

theorem FileTable.unique (h : FileTable file start entries finish)
    (h' : FileTable file start entries' finish') (hlength : entries.length = entries'.length) :
    entries = entries' ∧ finish = finish' := by
  induction h generalizing entries' finish' with
  | nil =>
      cases h' with
      | nil => exact ⟨rfl, rfl⟩
      | snoc => simp at hlength
  | snoc before record ih =>
      cases h' with
      | nil => simp at hlength
      | snoc before' record' =>
          obtain ⟨rfl, rfl⟩ := ih before' (by simpa using hlength)
          obtain ⟨rfl, rfl⟩ := record.unique record'
          exact ⟨rfl, rfl⟩

end Unique

/-! ## Reading a record -/

section Read

variable {path : Path} {file : Bytes} {reason : String} {offset len cursor : Nat}

theorem readAt_of_bound (h : offset + len ≤ file.length) :
    readAt path file offset len = .ok ((file.drop offset).take len) := by
  simp [readAt, h]

theorem safe_invalidIf {condition : Prop} [Decidable condition] {Q : Unit → Prop} :
    Safe (invalidIf condition reason) Q ↔ (¬ condition → Q ()) := safe_throwIf

theorem invalidIf_safe {condition : Prop} [Decidable condition] :
    Safe (invalidIf condition reason) fun _ => ¬ condition :=
  safe_invalidIf.mpr id

/-- The name at the cursor, if it ends inside the file and is short enough. -/
theorem readName_safe (hcursor : cursor ≤ file.length) :
    Safe (readName path file reason cursor) fun named =>
      OccursAt (named.1 ++ [0]) file cursor ∧ 0 ∉ named.1 ∧ named.1.length ≤ 255 ∧
        named.2 = cursor + named.1.length + 1 := by
  unfold readName
  apply loop_sat (fun state => 256 - state.1.length)
    (fun state => OccursAt state.1 file cursor ∧ 0 ∉ state.1 ∧ state.1.length ≤ 256 ∧
      state.2 = cursor + state.1.length)
  · rintro ⟨name, at_⟩ ⟨hname, hzero, hlength, hat⟩
    dsimp only at hname hzero hlength hat ⊢
    subst hat
    change Safe _ _
    rw [safe_bind, safe_invalidIf]
    intro hroom
    simp only [not_or, Nat.not_le, Nat.not_lt] at hroom
    rw [safe_bind, readAt_of_bound (by omega), safe_ok]
    have hone : (file.drop (cursor + name.length)).take 1 = [file[cursor + name.length]] := by
      rw [List.drop_eq_getElem_cons hroom.1]
      rfl
    have hnext : OccursAt [file[cursor + name.length]] file (cursor + name.length) := by
      rw [← hone]
      exact OccursAt.of_bound (by omega)
    rw [hone, safe_ite]
    constructor
    · intro hch
      rw [hch] at hnext
      exact ⟨hname.append hnext, hzero, hroom.2, rfl⟩
    · intro hch
      refine ⟨⟨hname.append hnext, ?_, ?_, ?_⟩, ?_⟩
      · simpa [hzero, eq_comm] using hch
      · simp only [List.length_append, List.length_singleton]
        omega
      · simp only [List.length_append, List.length_singleton]
        omega
      · simp only [List.length_append, List.length_singleton]
        omega
  · exact ⟨OccursAt.nil hcursor, by simp, by simp, by simp⟩
  · simp

end Read

end AasSign
