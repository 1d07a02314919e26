import AasSign.Der.Write
import AasSign.X509.SplitCerts

/-! # Reading back what was written

The reader inverts the writer, whatever follows the element, and so do the loops
that read a concatenation of elements.
-/

namespace AasSign

open Foundation DerFields

/-- The view holds an element with the tag and the content. -/
structure TlvView.Holds (view : TlvView) (tag : UInt8) (content : Bytes) : Prop where
  tagged : view.tag = tag
  copied : view.content.copy view.contentLen = .ok content
  totalLen : view.totalLen = (derWrap tag content).length

section Single

variable {tag : UInt8} {content : Bytes}

/-- No definite form of a length is shorter than the one that is written. -/
theorem writeLength_shortest {n : Nat} {octets : Bytes} (h : LengthOctets n octets) :
    (writeLength n).length ≤ octets.length := by
  cases h with
  | short lead hlead => simp [writeLength, hlead]
  | long lead digits hlead hpos hmax =>
      have hlt := bigEndian_lt digits
      rw [List.length_cons]
      unfold writeLength
      -- A count of digits bounds the length, so the length class cannot need more of them.
      obtain hone | htwo | hthree | hfour : digits.length = 1 ∨ digits.length = 2 ∨
          digits.length = 3 ∨ digits.length = 4 := by omega
      · rw [hone] at hlt ⊢
        split_ifs <;> simp_all
      · rw [htwo] at hlt ⊢
        split_ifs <;> simp_all
      · rw [hthree] at hlt ⊢
        split_ifs <;> simp_all
      · rw [hfour]
        split_ifs <;> simp

theorem derWrap_shortest {e : Element} (htag : e.tag = tag) (hcontent : e.content = content) :
    (derWrap tag content).length ≤ e.raw.length := by
  have hshortest := writeLength_shortest e.wellFormed
  subst htag hcontent
  rw [derWrap_length, Element.raw_length, Element.header, List.length_cons]
  omega

theorem holds_of_wrapped {data : Ptr} {rest : Bytes} (h : content.length < 2 ^ 32)
    (hdata : data.Sees (derWrap tag content ++ rest)) :
    (TlvView.of (wrapped tag content h) data).Holds tag content := by
  rw [← wrapped_raw h] at hdata
  exact ⟨rfl, hdata.content.copy, congrArg List.length (wrapped_raw h)⟩

theorem derReadTlv_derWrap (h : content.length < 2 ^ 32) (rest : Bytes) :
    ∃ view, derReadTlv (Ptr.data (derWrap tag content ++ rest))
      (derWrap tag content ++ rest).length = .ok view ∧ view.Holds tag content := by
  have hdata := Ptr.Sees.data (derWrap tag content ++ rest)
  have hread := hdata
  rw [← wrapped_raw h] at hread
  have hok := derReadTlv_raw hread
  rw [wrapped_raw h] at hok
  exact ⟨_, hok, holds_of_wrapped h hdata⟩

end Single

/-! ## Lists of elements -/

/-- Take one field after another, with these tags. -/
def DerFields.takeAll (fields : DerFields) : List UInt8 → Except Exn (List TlvView × DerFields)
  | [] => .ok ([], fields)
  | tag :: tags => do
      let (view, next) ← fields.take tag
      let (views, last) ← next.takeAll tags
      return (view :: views, last)

/-- Elements one after the other, each written from a tag and a content. -/
def wrapAll (items : List (UInt8 × Bytes)) : List Bytes :=
  items.map fun item => derWrap item.1 item.2

section Lists

variable {items : List (UInt8 × Bytes)}

theorem takeAll_wrapAll {fields : DerFields} (hitems : ∀ item ∈ items, item.2.length < 2 ^ 32)
    (h : fields.Covers (derCat (wrapAll items))) :
    ∃ views last, fields.takeAll (items.map Prod.fst) = .ok (views, last) ∧
      List.Forall₂ (fun view item => TlvView.Holds view item.1 item.2) views items ∧
      last.Covers [] := by
  induction items generalizing fields with
  | nil => exact ⟨[], fields, rfl, .nil, h⟩
  | cons item items ih =>
      obtain ⟨tag, content⟩ := item
      have hcontent : content.length < 2 ^ 32 := hitems _ List.mem_cons_self
      have hcovers : fields.Covers ((wrapped tag content hcontent).raw ++
          derCat (wrapAll items)) := by
        rw [wrapped_raw]
        exact h
      obtain ⟨views, last, htake, hviews, hlast⟩ :=
        ih (fun item hitem => hitems item (List.mem_cons_of_mem _ hitem)) hcovers.after
      refine ⟨_, last, ?_, .cons (holds_of_wrapped hcontent h.sees) hviews, hlast⟩
      have hfirst : fields.take tag = .ok (TlvView.of (wrapped tag content hcontent) fields.p,
          fields.after (wrapped tag content hcontent)) := take_tag hcovers rfl
      rw [List.map_cons, takeAll, hfirst, ok_bind]
      dsimp only
      rw [htake]
      rfl

theorem exists_wrapAll (hitems : ∀ item ∈ items, item.2.length < 2 ^ 32) :
    ∃ es : List Element, es.map Element.raw = wrapAll items := by
  induction items with
  | nil => exact ⟨[], rfl⟩
  | cons item items ih =>
      obtain ⟨es, hes⟩ := ih fun other hother => hitems other (List.mem_cons_of_mem _ hother)
      refine ⟨wrapped item.1 item.2 (hitems _ List.mem_cons_self) :: es, ?_⟩
      rw [List.map_cons, wrapped_raw, hes]
      rfl

/-- Every element that is written is read back, whatever follows it, and no element
with its tag and content is shorter; a concatenation of them is read back as the
list, field by field and by the splitting loop, with nothing left. -/
theorem derReadTlv_derWrap_all (items : List (UInt8 × Bytes))
    (hitems : ∀ item ∈ items, item.2.length < 2 ^ 32) :
    (∀ item ∈ items, ∀ rest : Bytes,
      ∃ view, derReadTlv (Ptr.data (derWrap item.1 item.2 ++ rest))
        (derWrap item.1 item.2 ++ rest).length = .ok view ∧ view.Holds item.1 item.2) ∧
    (∀ item ∈ items, ∀ e : Element, e.tag = item.1 → e.content = item.2 →
      (derWrap item.1 item.2).length ≤ e.raw.length) ∧
    (∃ views last, DerFields.takeAll ⟨Ptr.data (derCat (wrapAll items)),
        (derCat (wrapAll items)).length⟩ (items.map Prod.fst) = .ok (views, last) ∧
      List.Forall₂ (fun view item => TlvView.Holds view item.1 item.2) views items ∧
      last.empty = true) ∧
    splitConcatenated (derCat (wrapAll items)) = .ok (wrapAll items) := by
  refine ⟨fun item hitem => derReadTlv_derWrap (hitems item hitem), fun _ _ _ =>
    derWrap_shortest, ?_, ?_⟩
  · have hcovers : DerFields.Covers ⟨Ptr.data (derCat (wrapAll items)),
        (derCat (wrapAll items)).length⟩ (derCat (wrapAll items)) := ⟨Ptr.Sees.data _, rfl⟩
    obtain ⟨views, last, htake, hviews, hlast⟩ := takeAll_wrapAll hitems hcovers
    exact ⟨views, last, htake, hviews, (empty_iff hlast).mpr rfl⟩
  · obtain ⟨es, hes⟩ := exists_wrapAll hitems
    rw [← hes]
    exact splitConcatenated_rawAll es

theorem sampleItems_roundTrip :
    splitConcatenated (derCat (wrapAll [(0x04, [1, 2]), (0x05, [])])) =
      .ok [[0x04, 0x02, 1, 2], [0x05, 0x00]] :=
  (derReadTlv_derWrap_all [(0x04, [1, 2]), (0x05, [])] (by decide)).2.2.2

end Lists

end AasSign
