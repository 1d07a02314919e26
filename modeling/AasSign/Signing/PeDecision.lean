import AasSign.Signing.PeSignature

/-! # What counts as a signed image

The headers and the certificate table of an image, stated about the octets of the
file, and the answer of `pe_has_signature`: true when the table is tiled by signed
certificates, false when there is no table, an exception on every other file.
-/

namespace AasSign

open Foundation

/-! ## Words -/

section Words

variable {file : Bytes} {pos len i : Nat}

theorem le32_eq_u32 : le32 = u32 := by
  funext p i
  rw [le32, u32, u16, u16, Nat.shiftLeft_or_distrib, ← Nat.shiftLeft_add, ← Nat.or_assoc]

theorem le16_part (h : i + 2 ≤ len) : le16 ((file.drop pos).take len) i = le16 file (pos + i) :=
  u16_part h

theorem le32_part (h : i + 4 ≤ len) : le32 ((file.drop pos).take len) i = le32 file (pos + i) := by
  rw [le32_eq_u32]
  exact u32_part h

theorem le32_head (h : 4 ≤ len) : le32 ((file.drop pos).take len) 0 = le32 file pos :=
  le32_part h

theorem le32_lt : le32 file i < 2 ^ 32 := by
  rw [le32_eq_u32]
  exact u32_lt i

/-- Rounding with a mask is rounding with a division. -/
theorem align8_eq {n : Nat} (h : n < 2 ^ 32) : align8 n = (n + 7) / 8 * 8 := by
  have hmask : 0xfffffffffffffff8 = (2 ^ 61 - 1) <<< 3 := rfl
  have hshift : (n + 7) / 8 * 8 = ((n + 7) >>> 3) <<< 3 := by
    rw [Nat.shiftLeft_eq, Nat.shiftRight_eq_div_pow]
  rw [align8, hmask, hshift]
  apply Nat.eq_of_testBit_eq
  intro i
  rw [Nat.testBit_and, Nat.testBit_shiftLeft, Nat.testBit_shiftLeft, Nat.testBit_shiftRight,
    Nat.testBit_two_pow_sub_one]
  by_cases hi : 3 ≤ i
  · by_cases hhigh : i < 64
    · simp [hi, show i - 3 < 61 by omega, Nat.add_sub_of_le hi]
    · -- The mask ends here, and so does the number.
      have hzero : (n + 7).testBit i = false := by
        apply Nat.testBit_lt_two_pow
        calc n + 7 < 2 ^ 33 := by omega
          _ ≤ 2 ^ i := Nat.pow_le_pow_right (by decide) (by omega)
      simp [hi, hzero, Nat.add_sub_of_le hi]
  · simp [hi]

end Words

/-! ## Headers -/

/-- The headers, as far as the count of the data directories. -/
structure PeHeader.Says (header : PeHeader) (file : Bytes) : Prop where
  long : 64 ≤ file.length
  dos : file.take 2 = dosMagic
  pe : header.pe = le32 file 60
  inside : header.pe + 26 ≤ file.length
  magic : OccursAt peMagic file header.pe
  optLen : header.optLen = le16 file (header.pe + 20)
  format : le16 file (header.pe + 24) = 0x10b ∧ header.directories = 96 ∨
    le16 file (header.pe + 24) = 0x20b ∧ header.directories = 112
  room : header.directories ≤ header.optLen
  counted : header.pe + 24 + header.directories ≤ file.length
  count : header.count = le32 file (header.pe + 24 + header.directories - 4)

/-- The security directory is there, and says this. -/
structure PeHeader.Directory (header : PeHeader) (file : Bytes) (offset length : Nat) : Prop where
  count : 4 < header.count
  room : header.directories + 40 ≤ header.optLen
  inside : header.pe + 24 + header.directories + 40 ≤ file.length
  offset : offset = le32 file (header.pe + 24 + header.directories + 32)
  length : length = le32 file (header.pe + 24 + header.directories + 36)

/-- The certificates lie where they may. -/
structure PeHeader.Table (header : PeHeader) (file : Bytes) (offset length : Nat) : Prop where
  present : offset ≠ 0
  notEmpty : length ≠ 0
  aligned : offset % 8 = 0
  behind : header.pe + 24 + header.optLen ≤ offset
  inside : offset + length ≤ file.length

/-! ## Certificates -/

/-- The length of a certificate and the signature in it. -/
structure PeCertificate where
  length : Nat
  signature : Bytes

structure PeCertificate.At (certificate : PeCertificate) (file : Bytes) (offset : Nat) : Prop where
  inside : offset + 8 ≤ file.length
  length : certificate.length = le32 file offset
  revision : le16 file (offset + 4) = 0x200
  type : le16 file (offset + 6) = 2
  limit : certificate.length ≤ maxCms
  /-- Behind the signature there are zeros only. -/
  data : ∃ padding, OccursAt (certificate.signature ++ padding) file (offset + 8) ∧
    (∀ c ∈ padding, c = 0) ∧
    certificate.length = 8 + (certificate.signature ++ padding).length
  tlv : ∃ e : Element, certificate.signature = e.raw
  signed : ∃ signers, HasSigners certificate.signature signers ∧ signers ≠ []

/-- Certificates that follow each other on multiples of eight; the last may end
with the range. -/
inductive Tiles (file : Bytes) (finish : Nat) : Nat → List PeCertificate → Prop where
  | nil : Tiles file finish finish []
  | last {certificate : PeCertificate} {offset : Nat} (here : certificate.At file offset)
      (stop : offset + certificate.length = finish) : Tiles file finish offset [certificate]
  | cons {certificate : PeCertificate} {offset : Nat} {rest : List PeCertificate}
      (here : certificate.At file offset)
      (next : Tiles file finish (offset + (certificate.length + 7) / 8 * 8) rest) :
      Tiles file finish offset (certificate :: rest)

/-- An image with a certificate table, all of it signed. -/
def SignedImage (file : Bytes) : Prop :=
  ∃ header : PeHeader, header.Says file ∧ ∃ offset length, header.Directory file offset length ∧
    header.Table file offset length ∧
    ∃ certificates, certificates ≠ [] ∧ Tiles file (offset + length) offset certificates

/-- An image without a certificate table. -/
def UnsignedImage (file : Bytes) : Prop :=
  ∃ header : PeHeader, header.Says file ∧
    (header.count ≤ 4 ∨ header.Directory file 0 0)

/-! ## Reading the headers -/

section Reading

variable {path : Path} {file : Bytes} {offset length : Nat}

theorem directoriesAt_eq {format : Nat} (h : directoriesAt format ≠ 0) :
    format = 0x10b ∧ directoriesAt format = 96 ∨ format = 0x20b ∧ directoriesAt format = 112 := by
  unfold directoriesAt at h ⊢
  split at h
  next hformat => exact .inl ⟨hformat, by rw [if_pos hformat]⟩
  next hformat =>
    split at h
    next hformat' => exact .inr ⟨hformat', by rw [if_neg hformat, if_pos hformat']⟩
    next => exact absurd rfl h

theorem directoriesAt_of {format directories : Nat}
    (h : format = 0x10b ∧ directories = 96 ∨ format = 0x20b ∧ directories = 112) :
    directoriesAt format = directories ∧ directories ≠ 0 := by
  rcases h with ⟨rfl, rfl⟩ | ⟨rfl, rfl⟩ <;> exact ⟨rfl, by decide⟩

theorem take_drop_eq_iff (part : Bytes) {pos len : Nat} (hlen : pos + len ≤ file.length)
    (hpart : part.length ≤ len) :
    ((file.drop pos).take len).take part.length = part ↔ OccursAt part file pos := by
  rw [List.take_take, min_eq_left hpart]
  constructor
  · intro h
    rw [← h]
    exact OccursAt.of_bound (by omega)
  · exact fun h => h.eq_take_drop.symm

theorem readPeHeader_eq_ok {header : PeHeader} :
    readPeHeader path file = .ok header ↔ header.Says file := by
  have hdos {pos : Nat} (h : pos + 26 ≤ file.length) : ((file.drop pos).take 26).take 4 = peMagic ↔
      OccursAt peMagic file pos := take_drop_eq_iff peMagic h (by decide)
  have hmz : ((file.drop 0).take 64).take 2 = file.take 2 := by
    rw [List.take_take, List.drop_zero]
    rfl
  unfold readPeHeader
  simp only [bind_eq_ok, throwIf_eq_ok, readAt_eq_ok_iff (show 64 ≠ 0 by decide),
    readAt_eq_ok_iff (show 26 ≠ 0 by decide), readAt_eq_ok_iff (show 4 ≠ 0 by decide), not_or,
    not_not, Nat.not_lt, ne_eq]
  constructor
  · rintro ⟨dos, ⟨hlong, rfl⟩, _, hdosMagic, data, ⟨hinside, rfl⟩, _, hmagic, _, ⟨hne, hroom⟩,
      count, ⟨hcounted, rfl⟩, hheader⟩
    rw [le32_part (by omega), Nat.zero_add] at hinside hmagic hne hroom hcounted hheader
    rw [le16_part (by omega)] at hne hroom hcounted hheader
    rw [le16_part (by omega)] at hroom hheader
    have hformat := directoriesAt_eq hne
    rw [hmz] at hdosMagic
    cases hheader
    refine ⟨hlong, hdosMagic, rfl, hinside, (hdos hinside).mp hmagic, rfl, hformat, hroom, ?_, ?_⟩
    · dsimp only
      omega
    · exact le32_part (by omega)
  · rintro ⟨hlong, hdosMagic, hpe, hinside, hmagic, hopt, hformat, hroom, hcounted, hcount⟩
    obtain ⟨hdirectories, hne⟩ := directoriesAt_of hformat
    refine ⟨_, ⟨hlong, rfl⟩, (), hmz.trans hdosMagic, _, ⟨?_, rfl⟩, (), ?_, (), ?_, _, ⟨?_, rfl⟩, ?_⟩
    all_goals rw [le32_part (by omega), Nat.zero_add, ← hpe]
    · exact hinside
    · exact (hdos hinside).mpr hmagic
    · rw [le16_part (by omega), hdirectories, le16_part (by omega), ← hopt]
      exact ⟨hne, hroom⟩
    · rw [le16_part (by omega), hdirectories]
      omega
    · rw [le16_part (by omega), le16_part (by omega), hdirectories, ← hopt,
        le32_part (by omega), Nat.add_zero, ← hcount]
      rfl

/-- The headers of a file are what is read. -/
theorem PeHeader.Says.unique {header header' : PeHeader} (h : header.Says file)
    (h' : header'.Says file) : header = header' := by
  have hread : readPeHeader (.user []) file = .ok header := readPeHeader_eq_ok.mpr h
  rw [readPeHeader_eq_ok.mpr h'] at hread
  exact (Except.ok.inj hread).symm

/-- The directory as read: what it says, or nothing when it is absent or empty. -/
def PeHeader.Finds (header : PeHeader) (file : Bytes) : Option (Nat × Nat) → Prop
  | none => header.count ≤ 4 ∨ header.Directory file 0 0
  | some (offset, length) => header.Directory file offset length ∧ header.Table file offset length

theorem securityDirectory_eq_ok {header : PeHeader} {found : Option (Nat × Nat)} :
    securityDirectory path file header = .ok found ↔ header.Finds file found := by
  unfold securityDirectory
  split
  next hcount =>
    cases found with
    | none => simpa [PeHeader.Finds, pure, Except.pure] using .inl hcount
    | some range =>
        simp only [PeHeader.Finds, pure, Except.pure, Except.ok.injEq, reduceCtorEq, false_iff,
          not_and]
        intro hdirectory
        exact absurd hdirectory.count (Nat.not_lt.mpr hcount)
  next hcount =>
    simp only [bind_eq_ok, throwIf_eq_ok, readAt_eq_ok_iff (show 8 ≠ 0 by decide), Nat.not_lt]
    -- In this branch the header has room for the fifth directory entry.
    have hdirectory {offset length : Nat} : header.Directory file offset length ↔
        header.directories + 40 ≤ header.optLen ∧
          header.pe + 24 + header.directories + 32 + 8 ≤ file.length ∧
          offset = le32 file (header.pe + 24 + header.directories + 32) ∧
          length = le32 file (header.pe + 24 + header.directories + 32 + 4) := by
      constructor
      · rintro ⟨-, hroom, hinside, hoffset, hlength⟩
        exact ⟨hroom, hinside, hoffset, hlength⟩
      · rintro ⟨hroom, hinside, hoffset, hlength⟩
        exact ⟨Nat.lt_of_not_le hcount, hroom, hinside, hoffset, hlength⟩
    constructor
    · rintro ⟨_, hroom, entry, ⟨hinside, rfl⟩, hrest⟩
      rw [le32_part (by omega), le32_part (by omega), Nat.add_zero] at hrest
      have hread := hdirectory.mpr ⟨hroom, hinside, rfl, rfl⟩
      generalize le32 file (header.pe + 24 + header.directories + 32) = offset at hrest hread
      generalize le32 file (header.pe + 24 + header.directories + 32 + 4) = length at hrest hread
      split at hrest
      next hempty =>
        obtain ⟨rfl, rfl⟩ := hempty
        cases hrest
        exact .inr hread
      next =>
        simp only [bind_eq_ok, throwIf_eq_ok, usub_eq_ok, not_or, not_not, Nat.not_lt] at hrest
        obtain ⟨_, ⟨hoffset, hlength, haligned, hbehind, hle⟩, _, ⟨-, rfl⟩, _, hfits, hfound⟩ :=
          hrest
        cases hfound
        exact ⟨hread, hoffset, hlength, haligned, hbehind, by omega⟩
    · intro hfinds
      cases found with
      | none =>
          obtain hfew | hread := hfinds
          · exact absurd hfew hcount
          · obtain ⟨hroom, hinside, hoffset, hlength⟩ := hdirectory.mp hread
            refine ⟨(), hroom, _, ⟨hinside, rfl⟩, ?_⟩
            rw [le32_part (by omega), le32_part (by omega), Nat.add_zero, ← hoffset, ← hlength,
              if_pos ⟨rfl, rfl⟩]
            rfl
      | some range =>
          obtain ⟨offset, length⟩ := range
          obtain ⟨hread, htable⟩ := hfinds
          obtain ⟨hroom, hinside, hoffset, hlength⟩ := hdirectory.mp hread
          refine ⟨(), hroom, _, ⟨hinside, rfl⟩, ?_⟩
          rw [le32_part (by omega), le32_part (by omega), Nat.add_zero, ← hoffset, ← hlength,
            if_neg fun hempty => htable.present hempty.1]
          have hfits := htable.inside
          simp only [bind_eq_ok, throwIf_eq_ok, usub_eq_ok, not_or, not_not, Nat.not_lt]
          exact ⟨(), ⟨htable.present, htable.notEmpty, htable.aligned, htable.behind, by omega⟩, _,
            ⟨by omega, rfl⟩, (), by omega, rfl⟩

/-! ## Reading the certificates -/

theorem forall_zero_iff {l : Bytes} : (¬ ∃ c ∈ l, c ≠ 0) ↔ ∀ c ∈ l, c = 0 := by
  simp

/-- A signature that `cms_has_signer` accepts, with zeros behind it. -/
theorem readSignature_iff {pkcs7 : Bytes} :
    (∃ der, derReadTlv (Ptr.data pkcs7) pkcs7.length = .ok der ∧
      (∀ c ∈ pkcs7.drop der.totalLen, c = 0) ∧
      cmsHasSigner (pkcs7.take der.totalLen) = .ok true) ↔
    ∃ signature padding, pkcs7 = signature ++ padding ∧ (∀ c ∈ padding, c = 0) ∧
      (∃ e : Element, signature = e.raw) ∧
      ∃ signers, HasSigners signature signers ∧ signers ≠ [] := by
  simp only [derReadTlv_eq_ok (Ptr.Sees.data pkcs7), (cmsHasSigner_decides _).1]
  constructor
  · rintro ⟨_, ⟨e, rest, rfl, rfl⟩, hpadding, hsigned⟩
    rw [TlvView.of_totalLen, List.drop_left] at hpadding
    rw [TlvView.of_totalLen, List.take_left] at hsigned
    exact ⟨e.raw, rest, rfl, hpadding, ⟨e, rfl⟩, hsigned⟩
  · rintro ⟨_, padding, rfl, hpadding, ⟨e, rfl⟩, hsigned⟩
    refine ⟨_, ⟨e, padding, rfl, rfl⟩, ?_, ?_⟩
    · rwa [TlvView.of_totalLen, List.drop_left]
    · rwa [TlvView.of_totalLen, List.take_left]

theorem inspectCertificate_eq_ok {n : Nat} (hinside : offset + length ≤ file.length) :
    inspectCertificate path file offset length = .ok n ↔
      ∃ certificate : PeCertificate, certificate.At file offset ∧ certificate.length = n ∧
        n ≤ length := by
  unfold inspectCertificate
  simp only [bind_eq_ok, throwIf_eq_ok, readAt_eq_ok_iff (show 8 ≠ 0 by decide), usub_eq_ok, not_or,
    not_not, Nat.not_lt, forall_zero_iff, Bool.not_eq_false]
  constructor
  · rintro ⟨_, hlength, cert, ⟨hcert, rfl⟩, _, ⟨hn, hfits, hlimit, hrevision, htype⟩, size,
      ⟨-, rfl⟩, pkcs7, hread, der, hder, _, hpadding, signer, hsigner, _, rfl, hresult⟩
    rw [le32_head (by omega)] at hn hfits hlimit hread hresult
    rw [le16_part (by omega)] at hrevision htype
    cases hresult
    rw [readAt_of_bound (by omega)] at hread
    cases hread
    have hdata : OccursAt ((file.drop (offset + 8)).take (le32 file offset - 8)) file (offset + 8) :=
      OccursAt.of_bound (by omega)
    -- What is read is the whole certificate; the signature and its padding share it.
    have hsize : ((file.drop (offset + 8)).take (le32 file offset - 8)).length =
        le32 file offset - 8 := by
      rw [List.length_take, List.length_drop]
      omega
    obtain ⟨signature, padding, hsplit, hzeros, htlv, hsigned⟩ :=
      readSignature_iff.mp ⟨der, hder, hpadding, hsigner⟩
    rw [hsplit] at hdata hsize
    refine ⟨⟨le32 file offset, signature⟩, ⟨hcert, rfl, hrevision, htype, hlimit,
      ⟨padding, hdata, hzeros, ?_⟩, htlv, hsigned⟩, rfl, hfits⟩
    rw [hsize]
    dsimp only
    omega
  · rintro ⟨⟨_, signature⟩, ⟨hcert, hword, hrevision, htype, hlimit, ⟨padding, hdata, hzeros, hsize⟩,
      htlv, hsigned⟩, rfl, hfits⟩
    dsimp only at hword hlimit hdata hsize htlv hsigned hfits
    subst hword
    have hpkcs7 : (file.drop (offset + 8)).take (le32 file offset - 8) = signature ++ padding := by
      rw [hsize, Nat.add_sub_cancel_left]
      exact hdata.eq_take_drop.symm
    obtain ⟨der, hder, hpadding, hsigner⟩ :=
      readSignature_iff.mpr ⟨signature, padding, rfl, hzeros, htlv, hsigned⟩
    refine ⟨(), by omega, _, ⟨by omega, rfl⟩, (), ?_, le32 file offset - 8, ?_, signature ++ padding,
      ?_, der, hder, (), hpadding, true, hsigner, (), rfl, ?_⟩
    · rw [le32_head (by omega), le16_part (by omega), le16_part (by omega)]
      exact ⟨by omega, hfits, hlimit, hrevision, htype⟩
    · rw [le32_head (by omega)]
      omega
    · rw [readAt_of_bound (by omega), hpkcs7]
    · rw [le32_head (by omega)]
      rfl

theorem PeCertificate.At.length_lt {certificate : PeCertificate} (h : certificate.At file offset) :
    8 ≤ certificate.length ∧ certificate.length < 2 ^ 32 := by
  obtain ⟨padding, -, -, hsize⟩ := h.data
  have hword := h.length
  have hlt : le32 file offset < 2 ^ 32 := le32_lt
  omega

/-- One pass goes on behind the certificate, or stops at the end of the table. -/
theorem certificatePass_eq_ok {found : Bool} {walk : CertificateWalk}
    (hinside : offset + length ≤ file.length) (hlength : length ≠ 0) :
    certificatePass path file ⟨offset, length, found⟩ = .ok (.again walk) ↔
      ∃ certificate : PeCertificate, certificate.At file offset ∧ certificate.length ≤ length ∧
        ((certificate.length + 7) / 8 * 8 ≤ length ∧
            walk = ⟨offset + (certificate.length + 7) / 8 * 8,
              length - (certificate.length + 7) / 8 * 8, true⟩ ∨
          length < (certificate.length + 7) / 8 * 8 ∧ certificate.length = length ∧
            walk = ⟨offset + length, 0, true⟩) := by
  unfold certificatePass
  rw [if_neg hlength]
  simp only [bind_eq_ok, inspectCertificate_eq_ok hinside]
  constructor
  · rintro ⟨_, ⟨certificate, hat, rfl, hfits⟩, hrest⟩
    refine ⟨certificate, hat, hfits, ?_⟩
    rw [align8_eq hat.length_lt.2] at hrest
    split at hrest
    next hover =>
      simp only [bind_eq_ok, throwIf_eq_ok, usub_eq_ok, not_not, ne_eq] at hrest
      obtain ⟨_, hstop, _, ⟨-, rfl⟩, hwalk⟩ := hrest
      cases hwalk
      exact .inr ⟨hover, hstop, by rw [hstop, Nat.sub_self]⟩
    next hover =>
      simp only [bind_eq_ok, usub_eq_ok] at hrest
      obtain ⟨_, ⟨hle, rfl⟩, hwalk⟩ := hrest
      cases hwalk
      exact .inl ⟨hle, rfl⟩
  · rintro ⟨certificate, hat, hfits, hnext⟩
    refine ⟨_, ⟨certificate, hat, rfl, hfits⟩, ?_⟩
    rw [align8_eq hat.length_lt.2]
    rcases hnext with ⟨hle, rfl⟩ | ⟨hover, hstop, rfl⟩
    · rw [if_neg (Nat.not_lt.mpr hle), usub_of_le hle]
      rfl
    · rw [if_pos hover, hstop, throwIf_of_not (not_not.mpr rfl), ok_bind, usub_of_le le_rfl,
        Nat.sub_self]
      rfl

theorem certificatePass_leave {found answer : Bool} :
    certificatePass path file ⟨offset, length, found⟩ = .ok (.leave answer) ↔
      length = 0 ∧ answer = found := by
  unfold certificatePass
  split
  next hlength =>
    dsimp only at hlength
    simp [hlength, eq_comm]
  next hlength =>
    simp only [bind_eq_ok, hlength, false_and, iff_false]
    rintro ⟨n, -, hrest⟩
    split at hrest
    all_goals
      simp only [bind_eq_ok, pure, Except.pure, Except.ok.injEq, reduceCtorEq, and_false,
        exists_false] at hrest

theorem Tiles.le {finish : Nat} {certificates : List PeCertificate}
    (h : Tiles file finish offset certificates) : offset ≤ finish := by
  induction h with
  | nil => exact le_rfl
  | last _ stop => omega
  | cons _ _ ih => omega

/-- What tiles a range is nothing, or a certificate and what tiles the rest. -/
theorem tiles_iff {certificates : List PeCertificate} :
    Tiles file (offset + length) offset certificates ↔ length = 0 ∧ certificates = [] ∨
      ∃ certificate rest, certificates = certificate :: rest ∧ certificate.At file offset ∧
        certificate.length ≤ length ∧
        ((certificate.length + 7) / 8 * 8 ≤ length ∧
            Tiles file (offset + length) (offset + (certificate.length + 7) / 8 * 8) rest ∨
          length < (certificate.length + 7) / 8 * 8 ∧ certificate.length = length ∧ rest = []) := by
  constructor
  · intro h
    generalize hfinish : offset + length = finish at h
    cases h with
    | nil => exact .inl ⟨by omega, rfl⟩
    | @last certificate _ here stop =>
        obtain rfl : certificate.length = length := by omega
        refine .inr ⟨certificate, [], rfl, here, le_rfl, ?_⟩
        by_cases hround : (certificate.length + 7) / 8 * 8 ≤ certificate.length
        · refine .inl ⟨hround, ?_⟩
          rw [show offset + (certificate.length + 7) / 8 * 8 = finish by omega]
          exact .nil
        · exact .inr ⟨by omega, rfl, rfl⟩
    | cons here next =>
        have hle := next.le
        exact .inr ⟨_, _, rfl, here, by omega, .inl ⟨by omega, next⟩⟩
  · rintro (⟨rfl, rfl⟩ | ⟨certificate, rest, rfl, here, -, ⟨-, next⟩ | ⟨-, rfl, rfl⟩⟩)
    · exact .nil
    · exact .cons here next
    · exact .last here rfl

/-- The loop over the certificates. -/
theorem certificateLoop_eq_ok {found answer : Bool} {fuel : Nat} (hfuel : length < fuel)
    (hinside : offset + length ≤ file.length) :
    loop (certificatePass path file) (.fault .diverges) fuel ⟨offset, length, found⟩ = .ok answer ↔
      ∃ certificates, Tiles file (offset + length) offset certificates ∧
        answer = (found || !certificates.isEmpty) := by
  induction fuel generalizing offset length found with
  | zero => omega
  | succ fuel ih =>
      rw [loop_succ_eq_ok, certificatePass_leave]
      constructor
      · rintro (⟨rfl, rfl⟩ | ⟨walk, hpass, hrest⟩)
        · exact ⟨[], .nil, by simp⟩
        · have hlength : length ≠ 0 := by
            rintro rfl
            simp [certificatePass] at hpass
          obtain ⟨certificate, hat, hfits, ⟨hle, rfl⟩ | ⟨hover, hstop, rfl⟩⟩ :=
            (certificatePass_eq_ok hinside hlength).mp hpass
          · have hpos := hat.length_lt.1
            obtain ⟨rest, htiles, hanswer⟩ := (ih (by omega) (by omega)).mp hrest
            rw [Nat.add_assoc, Nat.add_sub_of_le hle] at htiles
            exact ⟨certificate :: rest, .cons hat htiles, by simpa using hanswer⟩
          · obtain ⟨rest, -, hanswer⟩ := (ih (by omega) (by omega)).mp hrest
            exact ⟨[certificate], .last hat (by rw [hstop]), by simpa using hanswer⟩
      · rintro ⟨certificates, htiles, rfl⟩
        rcases tiles_iff.mp htiles with ⟨rfl, rfl⟩ | ⟨certificate, rest, rfl, hat, hfits, hnext⟩
        · exact .inl ⟨rfl, by simp⟩
        · have hpos := hat.length_lt.1
          have hpass (walk : CertificateWalk) :
              certificatePass path file ⟨offset, length, found⟩ = .ok (.again walk) ↔ _ :=
            certificatePass_eq_ok hinside (by omega)
          rcases hnext with ⟨hle, hrest⟩ | ⟨hover, hstop, rfl⟩
          · refine .inr ⟨_, (hpass _).mpr ⟨certificate, hat, hfits, .inl ⟨hle, rfl⟩⟩, ?_⟩
            rw [ih (by omega) (by omega), Nat.add_assoc, Nat.add_sub_of_le hle]
            exact ⟨rest, hrest, by simp⟩
          · refine .inr ⟨_, (hpass _).mpr ⟨certificate, hat, hfits, .inr ⟨hover, hstop, rfl⟩⟩, ?_⟩
            rw [ih (by omega) (by omega)]
            exact ⟨[], .nil, by simp⟩

theorem peHasSignature_eq_ok {answer : Bool} : peHasSignature path file = .ok answer ↔
    if answer then SignedImage file else UnsignedImage file := by
  unfold peHasSignature
  simp only [bind_eq_ok, readPeHeader_eq_ok, securityDirectory_eq_ok]
  constructor
  · rintro ⟨header, hread, found, hfinds, hanswer⟩
    cases found with
    | none =>
        cases hanswer
        exact ⟨header, hread, hfinds⟩
    | some range =>
        obtain ⟨hdirectory, htable⟩ := hfinds
        obtain ⟨certificates, htiles, rfl⟩ :=
          (certificateLoop_eq_ok (Nat.lt_succ_self _) htable.inside).mp hanswer
        have hne : certificates ≠ [] := by
          rintro rfl
          obtain ⟨hempty, -⟩ | ⟨_, _, ⟨⟩, -⟩ := tiles_iff.mp htiles
          exact htable.notEmpty hempty
        rw [Bool.false_or, if_pos (by simpa using hne)]
        exact ⟨header, hread, range.1, range.2, hdirectory, htable, certificates, hne, htiles⟩
  · intro h
    cases answer with
    | false =>
        obtain ⟨header, hread, hnone⟩ := h
        exact ⟨header, hread, none, hnone, rfl⟩
    | true =>
        obtain ⟨header, hread, offset, length, hdirectory, htable, certificates, hne, htiles⟩ := h
        refine ⟨header, hread, some (offset, length), ⟨hdirectory, htable⟩, ?_⟩
        refine (certificateLoop_eq_ok (Nat.lt_succ_self _) htable.inside).mpr
          ⟨certificates, htiles, ?_⟩
        simpa using hne

/-! ## The answer -/

theorem readPeHeader_safe : Safe (readPeHeader path file) fun _ => True := by
  unfold readPeHeader
  apply readAt_safe.bind
  intro dos _
  rw [safe_bind, safe_throwIf]
  intro _
  apply readAt_safe.bind
  intro header _
  rw [safe_bind, safe_throwIf]
  intro _
  rw [safe_bind, safe_throwIf]
  intro _
  exact readAt_safe.bind fun _ _ => trivial

theorem securityDirectory_safe {header : PeHeader} :
    Safe (securityDirectory path file header) fun found => header.Finds file found := by
  suffices h : Safe (securityDirectory path file header) fun _ => True from
    h.and_ok.mono fun _ hfound => securityDirectory_eq_ok.mp hfound.2
  refine safe_ite.mpr ⟨fun _ => trivial, fun _ => ?_⟩
  rw [safe_bind, safe_throwIf]
  intro _
  apply readAt_safe.bind
  intro entry _
  refine safe_ite.mpr ⟨fun _ => trivial, fun _ => ?_⟩
  rw [safe_bind, safe_throwIf]
  intro hplace
  rw [safe_bind, usub_of_le (by omega), safe_ok, safe_bind, safe_throwIf]
  exact fun _ => trivial

theorem inspectCertificate_safe (hinside : offset + length ≤ file.length) :
    Safe (inspectCertificate path file offset length) fun n =>
      8 ≤ n ∧ n ≤ length ∧ n < 2 ^ 32 := by
  suffices h : Safe (inspectCertificate path file offset length) fun _ => True by
    apply h.and_ok.mono
    rintro _ ⟨-, hok⟩
    obtain ⟨certificate, hat, rfl, hfits⟩ := (inspectCertificate_eq_ok hinside).mp hok
    exact ⟨hat.length_lt.1, hfits, hat.length_lt.2⟩
  unfold inspectCertificate
  rw [safe_bind, safe_throwIf]
  intro _
  apply readAt_safe.bind
  intro cert _
  rw [safe_bind, safe_throwIf]
  intro hchecked
  rw [safe_bind, usub_of_le (by omega), safe_ok]
  apply readAt_safe.bind
  intro pkcs7 _
  apply (derReadTlv_safe (Ptr.Sees.data pkcs7)).bind
  intro der _
  rw [safe_bind, safe_throwIf]
  intro _
  apply (cmsHasSigner_safe _).bind
  intro signer _
  rw [safe_bind, safe_throwIf]
  exact fun _ => trivial

/-- Each pass takes a certificate off the table. -/
theorem certificatePass_safe {walk : CertificateWalk}
    (hinside : walk.offset + walk.length ≤ file.length) :
    Safe (certificatePass path file walk) fun
      | .again next => next.offset + next.length ≤ file.length ∧ next.length < walk.length
      | .leave _ => True := by
  refine safe_ite.mpr ⟨fun _ => trivial, fun hlength => ?_⟩
  apply (inspectCertificate_safe hinside).bind
  rintro n ⟨hn, hfits, hlt⟩
  rw [align8_eq hlt, safe_ite]
  constructor
  · intro hover
    rw [safe_bind, safe_throwIf]
    intro hstop
    rw [safe_bind, usub_of_le hfits, safe_ok]
    constructor
    · dsimp only
      omega
    · dsimp only
      omega
  · intro hround
    rw [safe_bind, usub_of_le (Nat.le_of_not_lt hround), safe_ok]
    constructor
    · dsimp only
      omega
    · dsimp only
      omega

theorem peHasSignature_safe : Safe (peHasSignature path file) fun _ => True := by
  unfold peHasSignature
  apply readPeHeader_safe.bind
  intro header _
  apply securityDirectory_safe.bind
  intro found hfinds
  cases found with
  | none => trivial
  | some range =>
      apply loop_sat CertificateWalk.length fun walk => walk.offset + walk.length ≤ file.length
      · intro walk hwalk
        apply (certificatePass_safe hwalk).mono
        rintro (next | answer) hpass
        · exact hpass
        · trivial
      · exact hfinds.2.inside
      · exact Nat.lt_succ_self _

/-- An image with something in its security directory. -/
def HasCertificateTable (file : Bytes) : Prop :=
  ∃ header : PeHeader, header.Says file ∧ ∃ offset length, header.Directory file offset length ∧
    (offset ≠ 0 ∨ length ≠ 0)

theorem HasCertificateTable.not_unsigned (h : HasCertificateTable file) : ¬ UnsignedImage file := by
  rintro ⟨header', hread', hnone⟩
  obtain ⟨header, hread, offset, length, hdirectory, hne⟩ := h
  obtain rfl := hread.unique hread'
  rcases hnone with hfew | hempty
  · exact absurd hdirectory.count (Nat.not_lt.mpr hfew)
  · rw [hdirectory.offset, hdirectory.length, ← hempty.offset, ← hempty.length] at hne
    simp at hne

/-- On every file the inspector ends: with true on an image whose certificate table
is tiled by signed certificates, with false on an image that has no such table, and
with an exception otherwise. So it is never false where there is a table. -/
theorem peHasSignature_classifies (path : Path) (file : Bytes) :
    (peHasSignature path file = .ok true ↔ SignedImage file) ∧
    (peHasSignature path file = .ok false ↔ UnsignedImage file) ∧
    (¬ SignedImage file → ¬ UnsignedImage file → Throws (peHasSignature path file)) ∧
    (HasCertificateTable file → peHasSignature path file ≠ .ok false) := by
  refine ⟨peHasSignature_eq_ok, peHasSignature_eq_ok, fun hsigned hunsigned => ?_, fun htable h => ?_⟩
  · apply peHasSignature_safe.throws
    intro answer hok
    have hanswer := peHasSignature_eq_ok.mp hok
    cases answer with
    | false => exact hunsigned hanswer
    | true => exact hsigned hanswer
  · exact htable.not_unsigned (peHasSignature_eq_ok.mp h)

end Reading

end AasSign
