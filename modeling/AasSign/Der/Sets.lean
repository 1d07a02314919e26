import Mathlib.Data.List.Perm.Basic
import AasSign.Der.Integer
import AasSign.Der.RoundTrip

/-! # Sets

`der_set` sorts its members before it writes them, so that what it writes says which
members there are and how often, and nothing about the order they were given in.
-/

namespace AasSign

open Foundation DerFields

/-- The members of a set that is short enough to be written. -/
structure SetMembers where
  items : List (UInt8 × Bytes)
  fits : (derCat (wrapAll items)).length < 2 ^ 32

theorem derWrap_pair_injective :
    Function.Injective fun item : UInt8 × Bytes => derWrap item.1 item.2 := by
  rintro ⟨tag, content⟩ ⟨tag', content'⟩ h
  obtain rfl : tag = tag' := (List.cons.inj h).1
  exact congrArg (Prod.mk tag) (derWrap_injective h)

section Sorting

variable {items items' : List (UInt8 × Bytes)}

theorem wrapAll_perm : (wrapAll items).Perm (wrapAll items') ↔ items.Perm items' :=
  List.map_perm_map_iff derWrap_pair_injective

theorem sortParts_perm (parts : List Bytes) : (sortParts parts).Perm parts :=
  List.perm_insertionSort _ parts

theorem sortParts_eq_iff {parts parts' : List Bytes} :
    sortParts parts = sortParts parts' ↔ parts.Perm parts' := by
  constructor
  · intro h
    have hleft := sortParts_perm parts
    rw [h] at hleft
    exact hleft.symm.trans (sortParts_perm parts')
  · intro h
    have hsorted := ((sortParts_perm parts).trans h).trans (sortParts_perm parts').symm
    exact hsorted.eq_of_pairwise' (List.pairwise_insertionSort _ _) (List.pairwise_insertionSort _ _)

/-- The items in the order in which their elements are written. -/
def sortItems (items : List (UInt8 × Bytes)) : List (UInt8 × Bytes) :=
  items.insertionSort fun a b => derWrap a.1 a.2 ≤ derWrap b.1 b.2

theorem sortItems_perm (items : List (UInt8 × Bytes)) : (sortItems items).Perm items :=
  List.perm_insertionSort _ items

theorem wrapAll_sortItems (items : List (UInt8 × Bytes)) :
    wrapAll (sortItems items) = sortParts (wrapAll items) :=
  List.map_insertionSort _ _ _ _ fun _ _ _ _ => Iff.rfl

end Sorting

namespace SetMembers

variable (members : SetMembers)

theorem content_lt : ∀ item ∈ members.items, item.2.length < 2 ^ 32 := by
  intro item hitem
  have hpart : derWrap item.1 item.2 ∈ wrapAll members.items := List.mem_map_of_mem hitem
  have hlength := (List.sublist_flatten_of_mem hpart).length_le
  exact length_lt_derWrap_length.trans (hlength.trans_lt members.fits)

/-- The members in the order in which they are written. -/
def sorted : SetMembers where
  items := sortItems members.items
  fits := by
    have hperm := wrapAll_perm.mpr (sortItems_perm members.items)
    rw [derCat, hperm.flatten.length_eq]
    exact members.fits

theorem derSet_eq :
    derSet (wrapAll members.items) = derWrap derSetTag (derCat (wrapAll members.sorted.items)) := by
  rw [derSet, ← wrapAll_sortItems]
  rfl

theorem derSet_eq_iff (members' : SetMembers) :
    derSet (wrapAll members.items) = derSet (wrapAll members'.items) ↔
      members.items.Perm members'.items := by
  rw [← wrapAll_perm, ← sortParts_eq_iff]
  constructor
  · intro h
    rw [members.derSet_eq, members'.derSet_eq] at h
    have hcontent := derWrap_injective h
    obtain ⟨es, hes⟩ := exists_wrapAll members.sorted.content_lt
    obtain ⟨es', hes'⟩ := exists_wrapAll members'.sorted.content_lt
    rw [← hes, ← hes'] at hcontent
    have hsame : es = es' := rawAll_injective hcontent
    rw [← wrapAll_sortItems, ← wrapAll_sortItems]
    exact hes.symm.trans ((congrArg (List.map Element.raw) hsame).trans hes')
  · intro h
    exact congrArg (fun parts => derWrap derSetTag (derCat parts)) h

theorem sorted_pairwise : (wrapAll members.sorted.items).Pairwise (· ≤ ·) := by
  have hsorted := wrapAll_sortItems members.items
  change (wrapAll (sortItems members.items)).Pairwise (· ≤ ·)
  rw [hsorted]
  exact List.pairwise_insertionSort _ _

end SetMembers

/-- Two sets are written alike exactly when they have the same members, each as often; and
what is written is read back as those members, the encodings in ascending order. -/
theorem derSet_canonical (members : SetMembers) :
    (∀ members' : SetMembers, derSet (wrapAll members.items) = derSet (wrapAll members'.items) ↔
      members.items.Perm members'.items) ∧
    (∀ rest : Bytes, ∃ set, derReadTlv (Ptr.data (derSet (wrapAll members.items) ++ rest))
        (derSet (wrapAll members.items) ++ rest).length = .ok set ∧ set.tag = derSetTag ∧
      ∃ ordered : List (UInt8 × Bytes), ordered.Perm members.items ∧
        (wrapAll ordered).Pairwise (· ≤ ·) ∧
        ∃ views last, (ofView set).takeAll (ordered.map Prod.fst) = .ok (views, last) ∧
          List.Forall₂ (fun view item => TlvView.Holds view item.1 item.2) views ordered ∧
          last.empty = true) := by
  refine ⟨members.derSet_eq_iff, fun rest => ?_⟩
  have hfits := members.sorted.fits
  have hdata := Ptr.Sees.data (derWrap derSetTag (derCat (wrapAll members.sorted.items)) ++ rest)
  rw [← wrapped_raw hfits] at hdata
  have hread := derReadTlv_raw hdata
  have hcovers := covers_ofView hdata
  rw [wrapped_content] at hcovers
  rw [wrapped_raw] at hread
  obtain ⟨views, last, htake, hviews, hlast⟩ := takeAll_wrapAll members.sorted.content_lt hcovers
  rw [members.derSet_eq]
  exact ⟨_, hread, rfl, members.sorted.items, sortItems_perm members.items,
    members.sorted_pairwise, views, last, htake, hviews, (empty_iff hlast).mpr rfl⟩

end AasSign
