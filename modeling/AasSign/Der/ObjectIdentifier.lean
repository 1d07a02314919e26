import AasSign.Der.Integer
import AasSign.Foundation.Base128

/-! # Object identifiers

What `der_oid` writes for a dotted identifier, against the rules for reading the
content of an OBJECT IDENTIFIER. The writer keeps one octet for the first two arcs.
-/

namespace AasSign

open Foundation

/-- A decimal number as it is written. -/
structure Numeral where
  digits : List Char
  ne_nil : digits ≠ []
  isDigit : ∀ c ∈ digits, c.isDigit

def Numeral.value (n : Numeral) : Nat :=
  n.digits.foldl (fun value c => value * 10 + (c.toNat - 48)) 0

/-- The numbers with single dots between them. -/
def dotted : List Numeral → List Char
  | [] => []
  | [n] => n.digits
  | n :: m :: rest => n.digits ++ '.' :: dotted (m :: rest)

/-- A dotted object identifier whose numbers fit `unsigned long`. -/
structure DottedOid where
  first : Numeral
  second : Numeral
  rest : List Numeral
  first_le : first.value ≤ 2
  second_lt : first.value < 2 → second.value < 40
  second_fits : 80 + second.value ≤ ulongMax
  rest_fits : ∀ n ∈ rest, n.value ≤ ulongMax

namespace DottedOid

def text (oid : DottedOid) : String := String.ofList (dotted (oid.first :: oid.second :: oid.rest))

/-- The numbers of the identifier. -/
def arcs (oid : DottedOid) : List Nat :=
  oid.first.value :: oid.second.value :: oid.rest.map Numeral.value

/-- The number that stands for the first two arcs. -/
def root (oid : DottedOid) : Nat := 40 * oid.first.value + oid.second.value

end DottedOid

/-- The first two arcs are read off the first number: 40 for each step of the first arc, and
only the arc 2 has a second arc of 40 or more. -/
def splitRoot (root : Nat) : Nat × Nat :=
  if root < 40 then (0, root) else if root < 80 then (1, root - 40) else (2, root - 80)

/-- The arcs that the content of an OBJECT IDENTIFIER stands for. -/
def readOid (content : Bytes) : Option (List Nat) :=
  match readBase128 none content with
  | some (root :: rest) => some ((splitRoot root).1 :: (splitRoot root).2 :: rest)
  | _ => none

/-! ## Reading the dotted form -/

section Parsing

variable {n : Numeral} {stop : List Char}

theorem isSpace_of_isDigit {c : Char} (h : c.isDigit) : isSpace c = false := by
  simp only [Char.isDigit, ge_iff_le, Bool.and_eq_true, decide_eq_true_eq, UInt32.le_iff_toNat_le]
    at h
  have hspace : c ≠ ' ' := by
    rintro rfl
    exact absurd h.1 (by decide)
  have hcode : ¬(9 ≤ c.toNat ∧ c.toNat ≤ 13) := by
    have hlow : 48 ≤ c.toNat := h.1
    omega
  simp only [isSpace, hspace, hcode, or_self, decide_false]

theorem strtoul_numeral (h : n.value ≤ ulongMax) (hstop : ∀ c ∈ stop.head?, ¬c.isDigit) :
    strtoul (n.digits ++ stop) = (n.value, stop) := by
  obtain ⟨digits, hne, hdigits⟩ := n
  cases digits with
  | nil => exact absurd rfl hne
  | cons d ds =>
      have hd : d.isDigit := hdigits d List.mem_cons_self
      have htake : (d :: ds ++ stop).takeWhile Char.isDigit = d :: ds := by
        rw [List.takeWhile_append_of_pos hdigits]
        cases stop with
        | nil => simp
        | cons c rest => simp [hstop c rfl]
      have hdrop : (d :: ds ++ stop).dropWhile Char.isDigit = stop := by
        rw [List.dropWhile_append_of_pos hdigits]
        cases stop with
        | nil => rfl
        | cons c rest => simp [hstop c rfl]
      have hspace : (d :: ds ++ stop).dropWhile isSpace = d :: ds ++ stop := by
        rw [List.cons_append, List.dropWhile_cons_of_neg (by simp [isSpace_of_isDigit hd])]
      -- A digit is no sign, so the text that is converted is the whole text.
      have hplain : ∀ rest, d :: ds ++ stop ≠ '-' :: rest ∧ d :: ds ++ stop ≠ '+' :: rest := by
        intro rest
        constructor <;> intro heq <;>
          exact absurd hd (by rw [(List.cons.inj heq).1]; decide)
      unfold strtoul
      rw [hspace]
      dsimp only
      split
      next heq => exact absurd heq (hplain _).1
      next heq => exact absurd heq (hplain _).2
      next =>
        have hnot : ¬(d :: ds).foldl (fun value c => value * 10 + (c.toNat - 48)) 0 > ulongMax :=
          Nat.not_lt.mpr h
        simp only [htake, hdrop]
        rw [if_neg (List.cons_ne_nil d ds), if_neg hnot]
        rfl

/-- The text behind a dot, if there is one. -/
def skipDot : List Char → List Char
  | '.' :: rest => rest
  | stop => stop

theorem componentPass_numeral (h : n.value ≤ ulongMax) (stop : List Char)
    (hstop : ∀ c ∈ stop.head?, ¬c.isDigit) (components : List Nat) :
    componentPass (n.digits ++ stop, components) =
      .ok (.again (skipDot stop, components ++ [n.value])) := by
  obtain ⟨c, rest, htext⟩ : ∃ c rest, n.digits ++ stop = c :: rest :=
    List.exists_cons_of_ne_nil fun hnil => n.ne_nil (List.append_eq_nil_iff.mp hnil).1
  rw [htext]
  simp only [componentPass]
  rw [← htext, strtoul_numeral h hstop]
  rfl

theorem loop_dotted {numerals : List Numeral} (hfits : ∀ n ∈ numerals, n.value ≤ ulongMax)
    {fuel : Nat} (hfuel : numerals.length < fuel) (components : List Nat) :
    loop componentPass (.fault .diverges) fuel (dotted numerals, components) =
      .ok (components ++ numerals.map Numeral.value) := by
  induction numerals generalizing fuel components with
  | nil =>
      obtain ⟨fuel, rfl⟩ : ∃ less, fuel = less + 1 := ⟨fuel - 1, by omega⟩
      rw [dotted, loop_leave rfl, List.map_nil, List.append_nil]
  | cons n rest ih =>
      obtain ⟨hn, hrest⟩ := List.forall_mem_cons.mp hfits
      rw [List.length_cons] at hfuel
      obtain ⟨fuel, rfl⟩ : ∃ less, fuel = less + 1 := ⟨fuel - 1, by omega⟩
      have hlater := ih hrest (show rest.length < fuel by omega) (components ++ [n.value])
      cases rest with
      | nil =>
          have hpass := componentPass_numeral hn [] (by simp) components
          rw [List.append_nil] at hpass
          rw [dotted, loop_again hpass]
          simpa [skipDot, dotted] using hlater
      | cons m rest =>
          have hpass := componentPass_numeral hn ('.' :: dotted (m :: rest)) (by simp) components
          rw [dotted, loop_again hpass]
          simpa [skipDot] using hlater

theorem length_le_dotted_length (numerals : List Numeral) :
    numerals.length ≤ (dotted numerals).length := by
  fun_induction dotted numerals with
  | case1 => exact Nat.le_refl _
  | case2 n => exact List.length_pos_of_ne_nil n.ne_nil
  | case3 n m rest ih =>
      rw [List.length_append, List.length_cons, List.length_cons (a := '.')]
      omega

theorem oidComponents_dotted {numerals : List Numeral}
    (hfits : ∀ n ∈ numerals, n.value ≤ ulongMax) :
    oidComponents (dotted numerals) = .ok (numerals.map Numeral.value) := by
  have hfuel : numerals.length < (dotted numerals).length + 1 :=
    Nat.lt_succ_of_le (length_le_dotted_length numerals)
  rw [oidComponents, loop_dotted hfits hfuel, List.nil_append]

end Parsing

/-! ## The components -/

theorem base128Digits_eq {room v : Nat} (h : v < 128 ^ room) (hpos : 0 < v) :
    base128Digits room v = (Nat.digits 128 v).map UInt8.ofNat := by
  induction room generalizing v with
  | zero =>
      rw [Nat.pow_zero] at h
      omega
  | succ room ih =>
      have hlow : v &&& 0x7f = v % 128 := Nat.and_two_pow_sub_one_eq_mod v 7
      have hhigh : v >>> 7 = v / 128 := Nat.shiftRight_eq_div_pow v 7
      rw [base128Digits, Nat.digits_def' (by decide) hpos, List.map_cons, hlow, hhigh]
      split
      next hmore => rw [ih (Nat.div_lt_of_lt_mul (by rwa [pow_succ'] at h)) hmore]
      next hlast => simp [show v / 128 = 0 by omega]

theorem or_0x80 {digit : Nat} (h : digit < 128) :
    UInt8.ofNat digit ||| 0x80 = UInt8.ofNat (digit + 128) := by
  have hbits : ∀ digit < 128, UInt8.ofNat digit ||| 0x80 = UInt8.ofNat (digit + 128) := by
    decide +kernel
  exact hbits digit h

/-- Ten octets have room for every component. -/
theorem oidComponentOctets_eq {v : Nat} (h : v ≤ ulongMax) : oidComponentOctets v = base128 v := by
  have hroom : v < 128 ^ 10 := h.trans_lt (by decide)
  rcases Nat.eq_zero_or_pos v with rfl | hpos
  · rfl
  · rw [oidComponentOctets, base128Digits_eq hroom hpos, Nat.digits_def' (by decide) hpos,
      List.map_cons, base128]
    dsimp only
    rw [← List.map_reverse, List.map_map]
    congr 1
    apply List.map_congr_left
    intro digit hdigit
    exact or_0x80 (Nat.digits_lt_base (by decide) (List.mem_reverse.mp hdigit))

/-! ## The content -/

namespace DottedOid

/-- The content that `der_oid` wraps. -/
def content (oid : DottedOid) : Bytes :=
  UInt8.ofNat oid.root :: (oid.rest.map Numeral.value).flatMap base128

variable (oid oid' : DottedOid)

theorem numerals_fit : ∀ n ∈ oid.first :: oid.second :: oid.rest, n.value ≤ ulongMax := by
  have hfirst := oid.first_le
  have hsecond := oid.second_fits
  simp only [List.mem_cons, forall_eq_or_imp]
  exact ⟨hfirst.trans (by decide), by omega, oid.rest_fits⟩

theorem derOid_text : derOid oid.text = .ok (derWrap 0x06 oid.content) := by
  have hrest : (oid.rest.map Numeral.value).map oidComponentOctets =
      (oid.rest.map Numeral.value).map base128 := by
    apply List.map_congr_left
    intro v hv
    obtain ⟨n, hn, rfl⟩ := List.mem_map.mp hv
    exact oidComponentOctets_eq (oid.rest_fits n hn)
  rw [derOid, text, String.toList_ofList, oidComponents_dotted oid.numerals_fit, ok_bind]
  simp only [List.map_cons, hrest]
  rfl

theorem splitRoot_root : splitRoot oid.root = (oid.first.value, oid.second.value) := by
  have hfirst := oid.first_le
  have hsecond := oid.second_lt
  unfold splitRoot root
  split_ifs <;> simp only [Prod.mk.injEq] <;> omega

theorem content_length :
    oid.content.length = 1 + (oid.rest.map fun n => base128Width n.value).sum := by
  simp only [content, List.length_cons, List.length_flatMap, List.map_map, Function.comp_def,
    base128_length]
  omega

theorem readOid_content (h : oid.root < 128) : readOid oid.content = some oid.arcs := by
  rw [readOid, content, readBase128_last h, readBase128_flatMap]
  simp [splitRoot_root, arcs]

end DottedOid

theorem splitRoot_sum (root : Nat) : 40 * (splitRoot root).1 + (splitRoot root).2 = root := by
  unfold splitRoot
  split_ifs <;> simp only <;> omega

/-- The content does not stand for the arcs once the first two arcs overflow seven bits:
an octet below 0x80 is another number, and one from 0x80 on swallows the next number. -/
theorem DottedOid.root_lt_of_readOid (oid : DottedOid)
    (h : readOid oid.content = some oid.arcs) : oid.root < 128 := by
  by_contra hlarge
  rcases Nat.lt_or_ge (oid.root % 256) 128 with hlow | hhigh
  · have hoctet : UInt8.ofNat oid.root = UInt8.ofNat (oid.root % 256) := by
      rw [← UInt8.toNat_inj, UInt8.toNat_ofNat', UInt8.toNat_ofNat', Nat.mod_mod]
    rw [readOid, content, hoctet, readBase128_last hlow, readBase128_flatMap] at h
    simp only [Option.map_some, Option.some.injEq, arcs, List.cons.injEq] at h
    have hsum := splitRoot_sum (none.getD 0 * 128 + oid.root % 256)
    rw [h.1, h.2.1] at hsum
    have hroot : oid.root = 40 * oid.first.value + oid.second.value := rfl
    simp only [Option.getD_none] at hsum
    omega
  · unfold readOid at h
    split at h
    next root rest hread =>
      have hcount := countP_of_readBase128 hread
      have hhead : ¬(UInt8.ofNat oid.root).toNat < 128 := by
        rw [UInt8.toNat_ofNat']
        omega
      rw [content, List.countP_cons_of_neg (by simpa using hhead), countP_flatMap_base128] at hcount
      have hlength := congrArg List.length (Option.some.inj h)
      simp only [arcs, List.length_cons, List.length_map] at hlength hcount
      omega
    next => cases h

/-- `raw` is an OBJECT IDENTIFIER whose content stands for the arcs. -/
def IsOid (arcs : List Nat) (raw : Bytes) : Prop :=
  ∃ content, IsTlv 0x06 content raw ∧ readOid content = some arcs

theorem derOid_eq_iff (oid oid' : DottedOid) :
    derOid oid.text = derOid oid'.text ↔ oid.root % 256 = oid'.root % 256 ∧
      oid.rest.map Numeral.value = oid'.rest.map Numeral.value := by
  have hoctets : UInt8.ofNat oid.root = UInt8.ofNat oid'.root ↔ oid.root % 256 = oid'.root % 256 := by
    rw [← UInt8.toNat_inj, UInt8.toNat_ofNat', UInt8.toNat_ofNat']
  rw [oid.derOid_text, oid'.derOid_text, Except.ok.injEq, ← hoctets]
  constructor
  · intro hwritten
    obtain ⟨hroot, hrest⟩ := List.cons.inj (derWrap_injective hwritten)
    exact ⟨hroot, flatMap_base128_injective hrest⟩
  · rintro ⟨hroot, hrest⟩
    rw [DottedOid.content, DottedOid.content, hroot, hrest]

theorem isOid_iff (oid : DottedOid) :
    (∃ raw, derOid oid.text = .ok raw ∧ IsOid oid.arcs raw) ↔ oid.root < 128 ∧
      1 + (oid.rest.map fun n => base128Width n.value).sum < 2 ^ 32 := by
  rw [oid.derOid_text, ← oid.content_length]
  constructor
  · rintro ⟨raw, hraw, content, htlv, hread⟩
    obtain rfl := Except.ok.inj hraw
    obtain ⟨-, rfl, hlt⟩ := isTlv_derWrap.mp htlv
    exact ⟨oid.root_lt_of_readOid hread, hlt⟩
  · rintro ⟨hroot, hlt⟩
    exact ⟨_, rfl, oid.content, isTlv_derWrap.mpr ⟨rfl, rfl, hlt⟩, oid.readOid_content hroot⟩

def Numeral.ofDigits (digits : List Char) (ne_nil : digits ≠ [])
    (isDigit : digits.all Char.isDigit) : Numeral where
  digits
  ne_nil
  isDigit := List.all_eq_true.mp isDigit

/-- The identifiers `2.48`, `2.176` and `0.0`. -/
def oid248 : DottedOid where
  first := .ofDigits ['2'] (by simp) rfl
  second := .ofDigits ['4', '8'] (by simp) rfl
  rest := []
  first_le := by decide
  second_lt := by decide
  second_fits := by decide
  rest_fits := by simp

def oid2176 : DottedOid where
  first := .ofDigits ['2'] (by simp) rfl
  second := .ofDigits ['1', '7', '6'] (by simp) rfl
  rest := []
  first_le := by decide
  second_lt := by decide
  second_fits := by decide
  rest_fits := by simp

def oid00 : DottedOid where
  first := .ofDigits ['0'] (by simp) rfl
  second := .ofDigits ['0'] (by simp) rfl
  rest := []
  first_le := by decide
  second_lt := by decide
  second_fits := by decide
  rest_fits := by simp

/-- `2.48` is written as a content that stands for nothing, `2.176` as `0.0` is. -/
theorem oid248_misread :
    (oid248.text = "2.48" ∧ ¬∃ raw, derOid "2.48" = .ok raw ∧ IsOid oid248.arcs raw) ∧
    (oid2176.text = "2.176" ∧ oid00.text = "0.0" ∧ derOid "2.176" = derOid "0.0" ∧
      oid2176.arcs ≠ oid00.arcs) := by
  have htext : oid248.text = "2.48" := by decide
  have htext' : oid2176.text = "2.176" := by decide
  have htext'' : oid00.text = "0.0" := by decide
  refine ⟨⟨htext, ?_⟩, htext', htext'', ?_, by decide⟩
  · rw [← htext, isOid_iff]
    exact fun hfits => absurd hfits.1 (by decide)
  · rw [← htext', ← htext'', derOid_eq_iff]
    decide

/-- The written identifier stands for the arcs exactly if the number of the first two arcs fits
seven bits and the content fits the four length octets. Two identifiers are written alike
exactly if these numbers agree modulo 256 and the further arcs agree, so among those of
seven bits only for equal arcs. -/
theorem derOid_stands_for_arcs (oid oid' : DottedOid) :
    ((∃ raw, derOid oid.text = .ok raw ∧ IsOid oid.arcs raw) ↔
      oid.root < 128 ∧ 1 + (oid.rest.map fun n => base128Width n.value).sum < 2 ^ 32) ∧
    (derOid oid.text = derOid oid'.text ↔ oid.root % 256 = oid'.root % 256 ∧
      oid.rest.map Numeral.value = oid'.rest.map Numeral.value) ∧
    (oid.root < 128 → oid'.root < 128 →
      (derOid oid.text = derOid oid'.text ↔ oid.arcs = oid'.arcs)) := by
  refine ⟨isOid_iff oid, derOid_eq_iff oid oid', fun hroot hroot' => ?_⟩
  rw [derOid_eq_iff, Nat.mod_eq_of_lt (by omega), Nat.mod_eq_of_lt (by omega)]
  have hsplit := oid.splitRoot_root
  have hsplit' := oid'.splitRoot_root
  constructor
  · rintro ⟨hsame, hrest⟩
    rw [hsame, hsplit'] at hsplit
    obtain ⟨hfirst, hsecond⟩ := Prod.mk.inj hsplit
    rw [DottedOid.arcs, DottedOid.arcs, hfirst, hsecond, hrest]
  · intro harcs
    obtain ⟨hfirst, hrest⟩ := List.cons.inj harcs
    obtain ⟨hsecond, hrest⟩ := List.cons.inj hrest
    exact ⟨by rw [DottedOid.root, DottedOid.root, hfirst, hsecond], hrest⟩

/-- The identifier of SHA-256. -/
def oidOfSha256 : DottedOid where
  first := .ofDigits ['2'] (by simp) rfl
  second := .ofDigits ['1', '6'] (by simp) rfl
  rest := [.ofDigits ['8', '4', '0'] (by simp) rfl, .ofDigits ['1'] (by simp) rfl,
    .ofDigits ['1', '0', '1'] (by simp) rfl, .ofDigits ['3'] (by simp) rfl,
    .ofDigits ['4'] (by simp) rfl, .ofDigits ['2'] (by simp) rfl,
    .ofDigits ['1'] (by simp) rfl]
  first_le := by decide
  second_lt := by decide
  second_fits := by decide
  rest_fits := by decide

theorem oidOfSha256_isOid :
    (∃ raw, derOid oidOfSha256.text = .ok raw ∧ IsOid [2, 16, 840, 1, 101, 3, 4, 2, 1] raw) ∧
      (derOid oidOfSha256.text = derOid oid00.text ↔ oidOfSha256.arcs = oid00.arcs) :=
  ⟨(derOid_stands_for_arcs oidOfSha256 oid00).1.mpr (by decide +kernel),
    (derOid_stands_for_arcs oidOfSha256 oid00).2.2 (by decide) (by decide)⟩

end AasSign
