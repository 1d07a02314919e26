import AasSign.Foundation.Octets
import AasSign.Foundation.Outcome

/-! # Exceptions, unsigned arithmetic, and pointers

The parts of the C++ runtime that the parsers rely on. Reading past a buffer,
wrapping an unsigned subtraction, and looping forever are outcomes of their own,
so that a result saying they never happen has something to rule out.
-/

namespace AasSign

open Foundation

abbrev Bytes := List UInt8

instance : LawfulBEq Bytes := inferInstance

/-- A defect of the execution, as opposed to an exception the code throws. -/
inductive Fault where
  | outOfBounds
  | underflow
  | diverges
  deriving DecidableEq, Repr

/-- How a computation ends when it does not return. -/
inductive Exn where
  | error (what : String)
  | fault (kind : Fault)
  deriving DecidableEq, Repr

/-- The exception is one that the code throws. -/
def Exn.Thrown : Exn → Prop
  | .error _ => True
  | .fault _ => False

@[simp] theorem Exn.thrown_error (what : String) : (Exn.error what).Thrown := trivial

@[simp] theorem Exn.thrown_fault (kind : Fault) : ¬ (Exn.fault kind).Thrown := id

/-- The computation returns a value with `Q`, or throws; it has no fault. -/
def Safe {α : Type} (x : Except Exn α) (Q : α → Prop) : Prop := Sat x Q Exn.Thrown

section Safe

variable {α β : Type} {Q : α → Prop}

@[simp] theorem safe_ok {a : α} : Safe (.ok a) Q ↔ Q a := Iff.rfl

@[simp] theorem safe_pure {a : α} : Safe (pure a) Q ↔ Q a := Iff.rfl

@[simp] theorem safe_error {e : Exn} : Safe (.error e) Q ↔ e.Thrown := Iff.rfl

@[simp] theorem safe_throw {e : Exn} : Safe (throw e) Q ↔ e.Thrown := Iff.rfl

@[simp] theorem safe_bind {x : Except Exn α} {f : α → Except Exn β} {R : β → Prop} :
    Safe (x >>= f) R ↔ Safe x fun a => Safe (f a) R := sat_bind

theorem safe_ite {c : Prop} [Decidable c] {x y : Except Exn α} :
    Safe (if c then x else y) Q ↔ (c → Safe x Q) ∧ (¬ c → Safe y Q) := sat_ite

theorem Safe.mono {x : Except Exn α} {Q' : α → Prop} (h : Safe x Q) (hQ : ∀ a, Q a → Q' a) :
    Safe x Q' := Sat.mono h hQ fun _ => id

theorem Safe.bind {x : Except Exn α} {f : α → Except Exn β} {R : β → Prop} (hx : Safe x Q)
    (hf : ∀ a, Q a → Safe (f a) R) : Safe (x >>= f) R := Sat.bind hx hf

theorem Safe.of_ok {x : Except Exn α} {a : α} (h : Safe x Q) (hx : x = .ok a) : Q a :=
  Sat.of_ok h hx

theorem Safe.and_ok {x : Except Exn α} (h : Safe x Q) : Safe x fun a => Q a ∧ x = .ok a := by
  cases x with
  | ok a => exact ⟨h, rfl⟩
  | error e => exact h

end Safe

/-- `a - b` on unsigned integers, with the wrap-around as a fault. -/
def usub (a b : Nat) : Except Exn Nat :=
  if b ≤ a then .ok (a - b) else .error (.fault .underflow)

theorem usub_of_le {a b : Nat} (h : b ≤ a) : usub a b = .ok (a - b) := by
  simp [usub, h]

theorem usub_eq_ok {a b c : Nat} : usub a b = .ok c ↔ b ≤ a ∧ c = a - b := by
  unfold usub
  split <;> simp_all [eq_comm]

/-- `if (condition) throw std::runtime_error(what);` -/
def throwIf (condition : Prop) [Decidable condition] (what : String) : Except Exn Unit :=
  if condition then .error (.error what) else .ok ()

theorem throwIf_eq_ok {condition : Prop} [Decidable condition] {what : String} {u : Unit} :
    throwIf condition what = .ok u ↔ ¬ condition := by
  unfold throwIf
  split <;> simp_all

@[simp] theorem throwIf_of_not {condition : Prop} [Decidable condition] {what : String}
    (h : ¬ condition) : throwIf condition what = .ok () := by
  simp [throwIf, h]

@[simp] theorem throwIf_of {condition : Prop} [Decidable condition] {what : String}
    (h : condition) : throwIf condition what = .error (.error what) := by
  simp [throwIf, h]

@[simp] theorem safe_throwIf {condition : Prop} [Decidable condition] {what : String}
    {Q : Unit → Prop} : Safe (throwIf condition what) Q ↔ (¬ condition → Q ()) := by
  unfold throwIf
  split <;> simp_all

/-! ## Pointers into a buffer -/

/-- A `const uint8_t *`: the buffer it points into and its offset there. -/
structure Ptr where
  buf : Bytes
  off : Nat
  deriving DecidableEq, Repr

/-- `v.data()` of a byte vector. -/
def Ptr.data (buf : Bytes) : Ptr := ⟨buf, 0⟩

/-- `p + n`. -/
def Ptr.add (p : Ptr) (n : Nat) : Ptr := ⟨p.buf, p.off + n⟩

/-- `p[i]`, a fault outside the buffer. -/
def Ptr.read (p : Ptr) (i : Nat) : Except Exn UInt8 :=
  match p.buf[p.off + i]? with
  | some b => .ok b
  | none => .error (.fault .outOfBounds)

/-- `Bytes(p, p + n)`, a fault when the range leaves the buffer. -/
def Ptr.copy (p : Ptr) (n : Nat) : Except Exn Bytes :=
  if p.off + n ≤ p.buf.length then .ok ((p.buf.drop p.off).take n)
  else .error (.fault .outOfBounds)

/-- The bytes `l` lie at the pointer. -/
def Ptr.Sees (p : Ptr) (l : Bytes) : Prop := OccursAt l p.buf p.off

namespace Ptr.Sees

variable {p : Ptr} {l r : Bytes}

theorem data (buf : Bytes) : (Ptr.data buf).Sees buf := OccursAt.self buf

theorem left (h : p.Sees (l ++ r)) : p.Sees l := OccursAt.left h

theorem right (h : p.Sees (l ++ r)) : (p.add l.length).Sees r := OccursAt.right h

theorem unique (h : p.Sees l) (h' : p.Sees r) (hlength : l.length = r.length) : l = r :=
  OccursAt.unique h h' hlength

theorem read (h : p.Sees l) {i : Nat} (hi : i < l.length) : p.read i = .ok l[i] := by
  simp [Ptr.read, OccursAt.getElem? h hi, List.getElem?_eq_getElem hi]

theorem copy (h : p.Sees l) : p.copy l.length = .ok l := by
  rw [Ptr.copy, if_pos (OccursAt.bound h), ← OccursAt.eq_take_drop h]

end Ptr.Sees

end AasSign
