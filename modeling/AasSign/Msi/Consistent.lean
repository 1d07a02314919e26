import Mathlib.Data.List.Pairwise
import AasSign.Msi.OneToOne
import AasSign.Msi.Turns

/-! # The database follows the payloads

What the revision of the database holds while payloads are being signed: rows and
streams of signed payloads say what the files now hold, everything else has no
new value. A cabinet may be behind while its members have their turns.
-/

namespace AasSign

open Foundation Program

/-- The staging files of the payloads, in the order of their turns. -/
def Plan.paths (plan : Plan) : List Path :=
  plan.members.map CabinetMember.path ++ plan.binaries.map Prod.snd

/-- Members, cabinets, streams and staging files have names of their own. -/
structure Plan.Distinct (plan : Plan) : Prop where
  paths : plan.paths.Nodup
  members : (plan.members.map CabinetMember.name).Nodup
  cabinets : (plan.cabinets.map Cabinet.name).Nodup
  binaries : (plan.binaries.map Prod.fst).Nodup

section Distinct

variable {plan : Plan} {cabinet cabinet' : Cabinet} {member member' : CabinetMember}
  {binary : Bytes × Path}

theorem Plan.mem_members (hcabinet : cabinet ∈ plan.cabinets) (hmember : member ∈ cabinet.members) :
    member ∈ plan.members :=
  List.mem_flatMap.mpr ⟨cabinet, hcabinet, hmember⟩

theorem Plan.member_path (hmember : member ∈ plan.members) : member.path ∈ plan.paths :=
  List.mem_append_left _ (List.mem_map_of_mem hmember)

theorem Plan.binary_path (hbinary : binary ∈ plan.binaries) : binary.2 ∈ plan.paths :=
  List.mem_append_right _ (List.mem_map_of_mem hbinary)

theorem Plan.Numbered.payload {workspace count : Nat} {path : Path}
    (h : plan.Numbered workspace count) (hpath : path ∈ plan.paths) :
    ∃ n, path = payloadPath workspace n := by
  rcases List.mem_append.mp hpath with hmem | hmem
  · obtain ⟨member, hmember, rfl⟩ := List.mem_map.mp hmem
    obtain ⟨cabinet, hcabinet, hmember⟩ := List.mem_flatMap.mp hmember
    obtain ⟨-, n, -, hn⟩ := h.members cabinet hcabinet member hmember
    exact ⟨n, hn⟩
  · obtain ⟨binary, hbinary, rfl⟩ := List.mem_map.mp hmem
    obtain ⟨n, -, hn⟩ := h.binaries binary hbinary
    exact ⟨n, hn⟩

variable (h : plan.Distinct)

include h

theorem Plan.Distinct.member_eq (hmember : member ∈ plan.members)
    (hmember' : member' ∈ plan.members) (hpath : member.path = member'.path) : member = member' :=
  List.inj_on_of_nodup_map (List.nodup_append.mp h.paths).1 hmember hmember' hpath

theorem Plan.Distinct.member_path_ne (hmember : member ∈ plan.members)
    (hbinary : binary ∈ plan.binaries) : member.path ≠ binary.2 :=
  (List.nodup_append.mp h.paths).2.2 _ (List.mem_map_of_mem hmember) _
    (List.mem_map_of_mem hbinary)

/-- A member is in one cabinet only. -/
theorem Plan.Distinct.cabinet_eq (hcabinet : cabinet ∈ plan.cabinets)
    (hcabinet' : cabinet' ∈ plan.cabinets) (hmember : member ∈ cabinet.members)
    (hmember' : member ∈ cabinet'.members) : cabinet = cabinet' := by
  by_contra hne
  have hnodup : (plan.cabinets.flatMap Cabinet.members).Nodup := h.members.of_map
  have hpairwise := (List.nodup_flatMap.mp hnodup).2
  have hsymm : Std.Symm (Function.onFun List.Disjoint Cabinet.members) :=
    ⟨fun _ _ hdisjoint _ hmember hother => hdisjoint hother hmember⟩
  exact hpairwise.forall hcabinet hcabinet' hne hmember hmember'

end Distinct

theorem nodup_of_filter {names : List Bytes}
    (h : ∀ name ∈ names, (names.filter fun other => other = name).length ≤ 1) : names.Nodup := by
  rw [List.nodup_iff_count_le_one]
  intro name
  by_cases hname : name ∈ names
  · rw [List.count, List.countP_eq_length_filter]
    refine le_of_eq_of_le (congrArg List.length (List.filter_congr fun other _ => ?_)) (h name hname)
    rw [Bool.eq_iff_iff]
    simp
  · rw [List.count_eq_zero_of_not_mem hname]
    exact Nat.zero_le 1

theorem Staged.distinct {lib : MsiLibrary} {c : MsiContents} {workspace : Nat} {plan : Plan}
    {s : Rewrite} (hplan : plan.Complete c workspace)
    (h : Staged lib c workspace plan.cabinets plan.binaries s) : plan.Distinct := by
  refine ⟨h.paths_nodup, hplan.names, hplan.media.names, ?_⟩
  rw [hplan.binaries, MsiContents.binaryRows, MsiContents.rowsIf]
  split
  swap
  · exact List.nodup_nil
  next htable =>
    apply nodup_of_filter
    intro name hname
    have hmem : name ∈ plan.binaries.map Prod.fst := by
      rwa [hplan.binaries, MsiContents.binaryRows, MsiContents.rowsIf, if_pos htable]
    obtain ⟨binary, hbinary, rfl⟩ := List.mem_map.mp hmem
    obtain ⟨data, hselect, -⟩ := h.eachBinary binary hbinary
    have hlength := congrArg List.length hselect
    rw [MsiContents.select, List.length_map, List.length_singleton] at hlength
    rw [List.filter_map, List.length_map]
    exact hlength.le

/-! ## Rows and streams -/

/-- Nothing new for a member, unless it is signed: then what its file says. -/
structure MemberRevised (lib : MsiLibrary) (plan : Plan) (r : Revision) (s : Rewrite)
    (member : CabinetMember) : Prop where
  signed : SignedAt s.events member.path → ∃ data, s.world.files member.path = some data ∧
    data.length < 2 ^ 31 ∧ r.sizes member.name = some data.length ∧
    r.hashes member.name =
      if member.name ∈ plan.hashRows ∧ plan.version member.name = some [] then
        some (msiFileHash lib data)
      else none
  unsigned : ¬ SignedAt s.events member.path → r.sizes member.name = none ∧
    r.hashes member.name = none

/-- A cabinet has a new stream if it has a signed member, and only then. -/
structure CabinetRevised (lib : MsiLibrary) (r : Revision) (s : Rewrite) (cabinet : Cabinet) :
    Prop where
  changed : (∃ member ∈ cabinet.members, SignedAt s.events member.path) →
    ∃ raw, r.streams cabinet.name = some raw ∧ Rebuilt lib s.world cabinet.members raw
  unchanged : (∀ member ∈ cabinet.members, ¬ SignedAt s.events member.path) →
    r.streams cabinet.name = none

structure BinaryRevised (r : Revision) (s : Rewrite) (binary : Bytes × Path) : Prop where
  signed : SignedAt s.events binary.2 → ∃ data, s.world.files binary.2 = some data ∧
    r.binaries binary.1 = some data
  unsigned : ¬ SignedAt s.events binary.2 → r.binaries binary.1 = none

/-- The database is the one of the start, revised; cabinets at work may be behind. -/
structure Revised (lib : MsiLibrary) (c : MsiContents) (plan : Plan) (busy : Cabinet → Prop)
    (r : Revision) (s : Rewrite) : Prop where
  db : s.db = c.revise r
  members : ∀ member ∈ plan.members, MemberRevised lib plan r s member
  cabinets : ∀ cabinet ∈ plan.cabinets, ¬ busy cabinet → CabinetRevised lib r s cabinet
  binaries : ∀ binary ∈ plan.binaries, BinaryRevised r s binary
  otherRows : ∀ name, name ∉ plan.members.map CabinetMember.name →
    r.sizes name = none ∧ r.hashes name = none
  otherStreams : ∀ name, name ∉ plan.cabinets.map Cabinet.name → r.streams name = none
  otherBinaries : ∀ name, name ∉ plan.binaries.map Prod.fst → r.binaries name = none

/-- A payload that the steps in between were not about. -/
structure SameAt (s s' : Rewrite) (path : Path) : Prop where
  signedAt : SignedAt s'.events path ↔ SignedAt s.events path
  file : s'.world.files path = s.world.files path

section Rows

variable {lib : MsiLibrary} {c : MsiContents} {plan : Plan} {r r' : Revision} {s s' s'' : Rewrite}
  {cabinet : Cabinet} {member : CabinetMember} {binary : Bytes × Path} {busy : Cabinet → Prop}
  {data : Bytes} {path : Path}

theorem SameAt.trans (h : SameAt s s' path) (h' : SameAt s' s'' path) : SameAt s s'' path :=
  ⟨h'.signedAt.trans h.signedAt, h'.file.trans h.file⟩

theorem MemberRevised.congr (h : MemberRevised lib plan r s member)
    (hsame : SameAt s s' member.path) (hsizes : r'.sizes member.name = r.sizes member.name)
    (hhashes : r'.hashes member.name = r.hashes member.name) :
    MemberRevised lib plan r' s' member := by
  refine ⟨fun hsigned => ?_, fun hunsigned => ?_⟩
  · obtain ⟨data, hdata, hlength, hrow⟩ := h.signed (hsame.signedAt.mp hsigned)
    exact ⟨data, hsame.file.trans hdata, hlength, by rwa [hsizes, hhashes]⟩
  · rw [hsizes, hhashes]
    exact h.unsigned (mt hsame.signedAt.mpr hunsigned)

theorem CabinetRevised.congr (h : CabinetRevised lib r s cabinet)
    (hsame : ∀ member ∈ cabinet.members, SameAt s s' member.path)
    (hstreams : r'.streams cabinet.name = r.streams cabinet.name) :
    CabinetRevised lib r' s' cabinet := by
  refine ⟨?_, fun hunsigned => ?_⟩
  · rintro ⟨member, hmember, hsigned⟩
    obtain ⟨raw, hraw, hbuilt⟩ :=
      h.changed ⟨member, hmember, (hsame member hmember).signedAt.mp hsigned⟩
    exact ⟨raw, hstreams.trans hraw, hbuilt.congr fun other hother => (hsame other hother).file⟩
  · exact hstreams.trans (h.unchanged fun member hmember =>
      mt (hsame member hmember).signedAt.mpr (hunsigned member hmember))

theorem BinaryRevised.congr (h : BinaryRevised r s binary) (hsame : SameAt s s' binary.2)
    (hbinaries : r'.binaries binary.1 = r.binaries binary.1) : BinaryRevised r' s' binary := by
  refine ⟨fun hsigned => ?_, fun hunsigned => ?_⟩
  · obtain ⟨data, hdata, hrow⟩ := h.signed (hsame.signedAt.mp hsigned)
    exact ⟨data, hsame.file.trans hdata, hbinaries.trans hrow⟩
  · exact hbinaries.trans (h.unsigned (mt hsame.signedAt.mpr hunsigned))

theorem Revised.congr (h : Revised lib c plan busy r s) (hdb : s'.db = s.db)
    (hsame : ∀ path ∈ plan.paths, SameAt s s' path) : Revised lib c plan busy r s' := by
  refine ⟨hdb.trans h.db, fun member hmember => ?_, fun cabinet hcabinet hbusy => ?_,
    fun binary hbinary => ?_, h.otherRows, h.otherStreams, h.otherBinaries⟩
  · exact (h.members member hmember).congr (hsame _ (Plan.member_path hmember)) rfl rfl
  · exact (h.cabinets cabinet hcabinet hbusy).congr (fun member hmember =>
      hsame _ (Plan.member_path (Plan.mem_members hcabinet hmember))) rfl
  · exact (h.binaries binary hbinary).congr (hsame _ (Plan.binary_path hbinary)) rfl

/-- Before the first turn. -/
theorem revised_none (hdb : s.db = c) (hunsigned : ∀ path, ¬ SignedAt s.events path) :
    Revised lib c plan busy .none s where
  db := hdb.trans MsiContents.revise_none.symm
  members := fun _ _ => ⟨fun hsigned => absurd hsigned (hunsigned _), fun _ => ⟨rfl, rfl⟩⟩
  cabinets := fun _ _ _ => ⟨fun hsigned =>
    absurd hsigned fun ⟨_, _, hsigned⟩ => hunsigned _ hsigned, fun _ => rfl⟩
  binaries := fun _ _ => ⟨fun hsigned => absurd hsigned (hunsigned _), fun _ => rfl⟩
  otherRows := fun _ _ => ⟨rfl, rfl⟩
  otherStreams := fun _ _ => rfl
  otherBinaries := fun _ _ => rfl

/-! ## A signed member -/

theorem withMember_sizes :
    (r.withMember lib plan member data).sizes =
      Function.update r.sizes member.name (some data.length) := by
  unfold Revision.withMember
  split <;> rfl

theorem withMember_hashes :
    (r.withMember lib plan member data).hashes =
      if member.name ∈ plan.hashRows ∧ plan.version member.name = some [] then
        Function.update r.hashes member.name (some (msiFileHash lib data))
      else r.hashes := by
  unfold Revision.withMember
  split <;> rfl

theorem withMember_hashes_ne {name : Bytes} (hname : name ≠ member.name) :
    (r.withMember lib plan member data).hashes name = r.hashes name := by
  rw [withMember_hashes]
  split
  · exact Function.update_of_ne hname _ _
  · rfl

theorem withMember_streams : (r.withMember lib plan member data).streams = r.streams := by
  unfold Revision.withMember
  split <;> rfl

theorem withMember_binaries : (r.withMember lib plan member data).binaries = r.binaries := by
  unfold Revision.withMember
  split <;> rfl

theorem Revised.signedMember (hdistinct : plan.Distinct) (h : Revised lib c plan (· = cabinet) r s)
    (hcabinet : cabinet ∈ plan.cabinets) (hmember : member ∈ cabinet.members)
    (hunsigned : ¬ SignedAt s.events member.path)
    (hdb : s'.db = c.revise (r.withMember lib plan member data))
    (hsigned : SignedAt s'.events member.path) (hdata : s'.world.files member.path = some data)
    (hlength : data.length < 2 ^ 31)
    (hothers : ∀ path ∈ plan.paths, path ≠ member.path → SameAt s s' path) :
    Revised lib c plan (· = cabinet) (r.withMember lib plan member data) s' := by
  have hmem : member ∈ plan.members := Plan.mem_members hcabinet hmember
  constructor
  case db => exact hdb
  case members =>
    intro other hother
    by_cases hpath : other.path = member.path
    · obtain rfl := hdistinct.member_eq hother hmem hpath
      refine ⟨fun _ => ⟨data, hdata, hlength, ?_, ?_⟩, fun hnot => absurd hsigned hnot⟩
      · rw [withMember_sizes, Function.update_self]
      · rw [withMember_hashes]
        split
        · exact Function.update_self ..
        · exact ((h.members other hmem).unsigned hunsigned).2
    · have hname : other.name ≠ member.name := fun hname => hpath
        (congrArg CabinetMember.path (List.inj_on_of_nodup_map hdistinct.members hother hmem hname))
      refine (h.members other hother).congr (hothers _ (Plan.member_path hother) hpath) ?_
        (withMember_hashes_ne hname)
      rw [withMember_sizes, Function.update_of_ne hname]
  case cabinets =>
    intro other hother hbusy
    refine (h.cabinets other hother hbusy).congr (fun member' hmember' => ?_)
      (congrFun withMember_streams _)
    have hmem' : member' ∈ plan.members := Plan.mem_members hother hmember'
    refine hothers _ (Plan.member_path hmem') fun hpath => hbusy ?_
    obtain rfl := hdistinct.member_eq hmem' hmem hpath
    exact hdistinct.cabinet_eq hother hcabinet hmember' hmember
  case binaries =>
    intro other hother
    refine (h.binaries other hother).congr (hothers _ (Plan.binary_path hother) ?_)
      (congrFun withMember_binaries _)
    exact (hdistinct.member_path_ne hmem hother).symm
  case otherRows =>
    intro name hname
    have hne : name ≠ member.name := by
      rintro rfl
      exact hname (List.mem_map_of_mem hmem)
    obtain ⟨hsizes, hhashes⟩ := h.otherRows name hname
    refine ⟨?_, (withMember_hashes_ne hne).trans hhashes⟩
    rw [withMember_sizes, Function.update_of_ne hne, hsizes]
  case otherStreams =>
    rw [withMember_streams]
    exact h.otherStreams
  case otherBinaries =>
    rw [withMember_binaries]
    exact h.otherBinaries

/-! ## A cabinet that is done -/

theorem Revised.rebuilt {raw : Bytes} (hdistinct : plan.Distinct)
    (h : Revised lib c plan (· = cabinet) r s) (hcabinet : cabinet ∈ plan.cabinets)
    (hsigned : ∃ member ∈ cabinet.members, SignedAt s.events member.path)
    (hbuilt : Rebuilt lib s.world cabinet.members raw)
    (hdb : s'.db = c.revise (r.update (.stream raw cabinet.name)))
    (hsame : ∀ path ∈ plan.paths, SameAt s s' path) :
    Revised lib c plan (fun _ => False) (r.update (.stream raw cabinet.name)) s' := by
  have hmembers (other : Cabinet) (hother : other ∈ plan.cabinets) :
      ∀ member ∈ other.members, SameAt s s' member.path := fun member hmember =>
    hsame _ (Plan.member_path (Plan.mem_members hother hmember))
  refine ⟨hdb, fun member hmember => ?_, fun other hother _ => ?_, fun binary hbinary => ?_,
    h.otherRows, fun name hname => ?_, h.otherBinaries⟩
  · exact (h.members member hmember).congr (hsame _ (Plan.member_path hmember)) rfl rfl
  · by_cases hname : other.name = cabinet.name
    · obtain rfl := List.inj_on_of_nodup_map hdistinct.cabinets hother hcabinet hname
      refine ⟨fun _ => ⟨raw, Function.update_self .., ?_⟩, fun hnone => ?_⟩
      · exact hbuilt.congr fun member hmember => (hmembers other hother member hmember).file
      · obtain ⟨member, hmember, hmemberSigned⟩ := hsigned
        exact absurd ((hmembers other hother member hmember).signedAt.mpr hmemberSigned)
          (hnone member hmember)
    · have hbusy : ¬ other = cabinet := fun heq => hname (congrArg Cabinet.name heq)
      exact (h.cabinets other hother hbusy).congr (hmembers other hother)
        (Function.update_of_ne hname _ _)
  · exact (h.binaries binary hbinary).congr (hsame _ (Plan.binary_path hbinary)) rfl
  · have hne : name ≠ cabinet.name := by
      rintro rfl
      exact hname (List.mem_map_of_mem hcabinet)
    exact (Function.update_of_ne hne _ _).trans (h.otherStreams name hname)

theorem Revised.unchanged (h : Revised lib c plan (· = cabinet) r s)
    (hunsigned : ∀ member ∈ cabinet.members, ¬ SignedAt s.events member.path)
    (hstream : r.streams cabinet.name = none) : Revised lib c plan (fun _ => False) r s := by
  refine ⟨h.db, h.members, fun other hother _ => ?_, h.binaries, h.otherRows, h.otherStreams,
    h.otherBinaries⟩
  by_cases hbusy : other = cabinet
  · subst hbusy
    exact ⟨fun hsigned => absurd hsigned fun ⟨member, hmember, hmemberSigned⟩ =>
      hunsigned member hmember hmemberSigned, fun _ => hstream⟩
  · exact h.cabinets other hother hbusy

/-! ## A signed stream -/

theorem Revised.signedBinary (hdistinct : plan.Distinct) (h : Revised lib c plan (fun _ => False) r s)
    (hbinary : binary ∈ plan.binaries)
    (hdb : s'.db = c.revise (r.update (.binary data binary.1)))
    (hsigned : SignedAt s'.events binary.2) (hdata : s'.world.files binary.2 = some data)
    (hothers : ∀ path ∈ plan.paths, path ≠ binary.2 → SameAt s s' path) :
    Revised lib c plan (fun _ => False) (r.update (.binary data binary.1)) s' := by
  have hmembers (member : CabinetMember) (hmember : member ∈ plan.members) :
      SameAt s s' member.path :=
    hothers _ (Plan.member_path hmember) (hdistinct.member_path_ne hmember hbinary)
  refine ⟨hdb, fun member hmember => ?_, fun cabinet hcabinet hbusy => ?_, fun other hother => ?_,
    h.otherRows, h.otherStreams, fun name hname => ?_⟩
  · exact (h.members member hmember).congr (hmembers member hmember) rfl rfl
  · exact (h.cabinets cabinet hcabinet hbusy).congr (fun member hmember =>
      hmembers member (Plan.mem_members hcabinet hmember)) rfl
  · by_cases hname : other.1 = binary.1
    · obtain rfl := List.inj_on_of_nodup_map hdistinct.binaries hother hbinary hname
      exact ⟨fun _ => ⟨data, hdata, Function.update_self ..⟩, fun hnot => absurd hsigned hnot⟩
    · have hpath : other.2 ≠ binary.2 := by
        intro hpath
        have hnodup := (List.nodup_append.mp hdistinct.paths).2.1
        exact hname (congrArg Prod.fst (List.inj_on_of_nodup_map hnodup hother hbinary hpath))
      exact (h.binaries other hother).congr (hothers _ (Plan.binary_path hother) hpath)
        (Function.update_of_ne hname _ _)
  · have hne : name ≠ binary.1 := by
      rintro rfl
      exact hname (List.mem_map_of_mem hbinary)
    exact (Function.update_of_ne hne _ _).trans (h.otherBinaries name hname)

end Rows

end AasSign
