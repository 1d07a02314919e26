import AasSign.Der.Read

/-! # The field cursor

`DerFields` of `cms.cpp`: a cursor over the content of a constructed element
that hands out one field after another. A cursor covers a string when its
pointer sees the string and its counter is the length; taking a field from a
covered string takes its first element and covers the rest.
-/

namespace AasSign

open Foundation

structure DerFields where
  p : Ptr
  remaining : Nat
  deriving DecidableEq, Repr

namespace DerFields

/-- The constructor, from the view of an element. -/
def ofView (view : TlvView) : DerFields := ⟨view.content, view.contentLen⟩

def take (fields : DerFields) (tag : UInt8) : Except Exn (TlvView × DerFields) := do
  let v ← derReadTlv fields.p fields.remaining
  throwIf (v.tag ≠ tag) "unexpected CMS DER field"
  let remaining ← usub fields.remaining v.totalLen
  return (v, ⟨fields.p.add v.totalLen, remaining⟩)

def empty (fields : DerFields) : Bool := fields.remaining == 0

def next (fields : DerFields) : Except Exn UInt8 :=
  if fields.empty then .ok 0 else fields.p.read 0

/-- `end()`. -/
def finish (fields : DerFields) : Except Exn Unit :=
  throwIf (fields.empty = false) "trailing CMS DER fields"

/-- The cursor stands at the start of `l` and will read exactly `l`. -/
structure Covers (fields : DerFields) (l : Bytes) : Prop where
  sees : fields.p.Sees l
  length : fields.remaining = l.length

variable {fields : DerFields} {l : Bytes}

theorem covers_ofView {data : Ptr} {e : Element} {rest : Bytes} (h : data.Sees (e.raw ++ rest)) :
    (ofView (TlvView.of e data)).Covers e.content :=
  ⟨h.content, rfl⟩

/-- The cursor after the first element of what it covers. -/
def after (fields : DerFields) (e : Element) : DerFields :=
  ⟨fields.p.add e.raw.length, fields.remaining - e.raw.length⟩

theorem Covers.after {e : Element} {rest : Bytes} (h : fields.Covers (e.raw ++ rest)) :
    (fields.after e).Covers rest := by
  refine ⟨h.sees.right, ?_⟩
  simp only [DerFields.after, h.length, List.length_append, Nat.add_sub_cancel_left]

theorem Covers.inner {e : Element} {rest : Bytes} (h : fields.Covers (e.raw ++ rest)) :
    (ofView (TlvView.of e fields.p)).Covers e.content := covers_ofView h.sees

/-- Reading at a cursor that covers a string reads its first element. -/
theorem Covers.read_safe {p : Ptr} {remaining : Nat} (h : Covers ⟨p, remaining⟩ l) :
    Safe (derReadTlv p remaining) fun v =>
      ∃ e rest, l = Element.raw e ++ rest ∧ v = TlvView.of e p := by
  have hread := derReadTlv_safe h.sees
  rwa [← h.length] at hread

theorem Covers.read_raw {p : Ptr} {remaining : Nat} {e : Element} {rest : Bytes}
    (h : Covers ⟨p, remaining⟩ (e.raw ++ rest)) :
    derReadTlv p remaining = .ok (TlvView.of e p) := by
  have hread := derReadTlv_raw h.sees
  rwa [← h.length] at hread

theorem Covers.copy_raw {p : Ptr} {remaining : Nat} {e : Element} {rest : Bytes}
    (h : Covers ⟨p, remaining⟩ (e.raw ++ rest)) :
    p.copy e.raw.length = .ok e.raw := h.sees.left.copy

theorem Covers.usub_raw {p : Ptr} {remaining : Nat} {e : Element} {rest : Bytes}
    (h : Covers ⟨p, remaining⟩ (e.raw ++ rest)) :
    usub remaining e.raw.length = .ok (remaining - e.raw.length) := by
  have hlength : remaining = (e.raw ++ rest).length := h.length
  apply usub_of_le
  rw [hlength, List.length_append]
  exact Nat.le_add_right _ _

theorem take_raw {e : Element} {rest : Bytes} (h : fields.Covers (e.raw ++ rest)) :
    fields.take e.tag = .ok (TlvView.of e fields.p, fields.after e) := by
  simp only [take, h.read_raw, ok_bind, TlvView.of_totalLen, h.usub_raw]
  rw [throwIf_of_not (by simp)]
  rfl

/-- A field taken from a covered string is its first element. -/
theorem take_safe (h : fields.Covers l) (tag : UInt8) :
    Safe (fields.take tag) fun (v, next) => ∃ e rest, l = Element.raw e ++ rest ∧ e.tag = tag ∧
      v = TlvView.of e fields.p ∧ next = fields.after e := by
  rw [take]
  apply h.read_safe.bind
  rintro v ⟨e, rest, rfl, rfl⟩
  rw [safe_bind, safe_throwIf]
  intro htag
  rw [TlvView.of_totalLen, h.usub_raw]
  exact ⟨e, rest, rfl, by simpa using htag, rfl, rfl⟩

/-- `take_raw` with the tag as the caller writes it. -/
theorem take_tag {e : Element} {rest : Bytes} {tag : UInt8} (h : fields.Covers (e.raw ++ rest))
    (htag : e.tag = tag) :
    fields.take tag = .ok (TlvView.of e fields.p, fields.after e) := htag ▸ take_raw h

theorem take_remaining {tag : UInt8} {v : TlvView} {next : DerFields}
    (h : fields.take tag = .ok (v, next)) : next.remaining + 2 ≤ fields.remaining := by
  simp only [take, bind_eq_ok, throwIf_eq_ok, pure, Except.pure, Except.ok.injEq,
    Prod.mk.injEq] at h
  obtain ⟨v, hread, _, _, remaining, hsub, rfl, rfl⟩ := h
  obtain ⟨hlow, hhigh⟩ := derReadTlv_totalLen hread
  rw [usub_of_le hhigh] at hsub
  cases hsub
  dsimp only
  omega

theorem empty_iff (h : fields.Covers l) : fields.empty = true ↔ l = [] := by
  simp [empty, h.length]

theorem next_eq (h : fields.Covers l) : fields.next = .ok (l.headD 0) := by
  unfold next
  cases l with
  | nil => simp [(empty_iff h).mpr rfl]
  | cons b rest =>
      have hempty : fields.empty = false := by simp [empty, h.length]
      rw [hempty, h.sees.read (i := 0) (by simp)]
      rfl

theorem finish_eq_ok (h : fields.Covers l) {u : Unit} : fields.finish = .ok u ↔ l = [] := by
  rw [finish, throwIf_eq_ok, Bool.not_eq_false, empty_iff h]

theorem finish_nil (h : fields.Covers []) : fields.finish = .ok () := (finish_eq_ok h).mpr rfl

theorem not_empty_raw {e : Element} {rest : Bytes} (h : fields.Covers (e.raw ++ rest)) :
    fields.empty = false := by
  rw [Bool.eq_false_iff, ne_eq, empty_iff h]
  simp [e.raw_ne_nil]

theorem next_raw {e : Element} {rest : Bytes} (h : fields.Covers (e.raw ++ rest)) :
    fields.next = .ok e.tag := by
  rw [next_eq h]
  rfl

/-! ## Loops over fields

A loop that takes one element from its cursor in each pass, until the cursor is
empty, folds its step over the elements that the cursor covers.
-/

section Loops

variable {σ α : Type} {body : σ → Except Exn (Pass σ α)} (cursor : σ → DerFields)
  (accepts : Element → Prop) (step : σ → Element → σ) (result : σ → α)

theorem loop_safe
    (hleave : ∀ state, (cursor state).Covers [] → body state = .ok (.leave (result state)))
    (hagain : ∀ state l, l ≠ [] → (cursor state).Covers l → Safe (body state) fun pass =>
      ∃ e rest, l = Element.raw e ++ rest ∧ accepts e ∧ pass = .again (step state e))
    (hcursor : ∀ state e, cursor (step state e) = (cursor state).after e)
    {state : σ} (h : (cursor state).Covers l) :
    Safe (loop body (.fault .diverges) ((cursor state).remaining + 1) state) fun a =>
      ∃ es, l = rawAll es ∧ (∀ e ∈ es, accepts e) ∧ a = result (es.foldl step state) := by
  apply loop_sat (fun state => (cursor state).remaining) fun current => ∃ es rest,
    l = rawAll es ++ rest ∧ (∀ e ∈ es, accepts e) ∧ current = es.foldl step state ∧
    (cursor current).Covers rest
  · rintro current ⟨es, rest, hl, hes, hcurrent, hcovers⟩
    change Safe _ _
    by_cases hrest : rest = []
    · rw [hleave current (hrest ▸ hcovers)]
      exact ⟨es, by rw [hl, hrest, List.append_nil], hes, by rw [hcurrent]⟩
    · apply (hagain current rest hrest hcovers).mono
      rintro _ ⟨e, rest, rfl, he, rfl⟩
      refine ⟨⟨es ++ [e], rest, by simp [hl, rawAll_append], ?_, by simp [hcurrent], ?_⟩, ?_⟩
      · intro e' he'
        rcases List.mem_append.mp he' with he' | he'
        · exact hes e' he'
        · rw [List.mem_singleton.mp he']
          exact he
      · rw [hcursor]
        exact hcovers.after
      · have hraw := e.two_le_raw_length
        have hlength := hcovers.length
        rw [List.length_append] at hlength
        simp only [hcursor, DerFields.after]
        omega
  · exact ⟨[], l, rfl, by simp, rfl, h⟩
  · exact Nat.lt_succ_self _

theorem loop_rawAll
    (hleave : ∀ state, (cursor state).Covers [] → body state = .ok (.leave (result state)))
    (hagain : ∀ state e rest, (cursor state).Covers (Element.raw e ++ rest) → accepts e →
      body state = .ok (.again (step state e)))
    (hcursor : ∀ state e, cursor (step state e) = (cursor state).after e)
    {es : List Element} {state : σ} (h : (cursor state).Covers (rawAll es))
    (hes : ∀ e ∈ es, accepts e) :
    loop body (.fault .diverges) ((cursor state).remaining + 1) state =
      .ok (result (es.foldl step state)) := by
  have hfuel : es.length < (cursor state).remaining + 1 := by
    rw [h.length]
    exact Nat.lt_succ_of_le (length_le_rawAll_length es)
  generalize (cursor state).remaining + 1 = fuel at hfuel
  induction es generalizing state fuel with
  | nil =>
      obtain ⟨fuel, rfl⟩ := Nat.exists_eq_succ_of_ne_zero (Nat.ne_of_gt hfuel)
      exact loop_leave (hleave state h)
  | cons e es ih =>
      obtain ⟨fuel, rfl⟩ := Nat.exists_eq_succ_of_ne_zero (Nat.ne_of_gt (Nat.zero_lt_of_lt hfuel))
      rw [rawAll_cons] at h
      rw [loop_again (hagain state e _ h (hes e List.mem_cons_self)), List.foldl_cons]
      apply ih
      · rw [hcursor]
        exact h.after
      · exact fun e' he' => hes e' (List.mem_cons_of_mem e he')
      · simp only [List.length_cons] at hfuel
        omega

end Loops

end DerFields

end AasSign
