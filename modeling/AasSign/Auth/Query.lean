import AasSign.Auth.Login
import AasSign.Foundation.Search

/-! # Query strings

`parse_query` with its indices, on any target, and the round trip through
`form_encode`.
-/

namespace AasSign

open Foundation

/-! ## The loops -/

/-- `v[i]`, a fault at the end of the value and past it. -/
def octetAt (v : Bytes) (i : Nat) : Except Exn UInt8 :=
  match v[i]? with
  | some c => .ok c
  | none => .error (.fault .outOfBounds)

/-- One pass of the loop that decodes a value. -/
def decodePass (v : Bytes) (state : Nat × Bytes) : Except Exn (Pass (Nat × Bytes) Bytes) := do
  let (i, decoded) := state
  if i < v.length then
    let c ← octetAt v i
    if c = 43 then
      return .again (i + 1, decoded ++ [32])
    else if c = 37 ∧ i + 2 < v.length then
      let high ← octetAt v (i + 1)
      let low ← octetAt v (i + 2)
      return .again (i + 3, decoded ++ [queryDigit high <<< 4 ||| queryDigit low])
    else
      return .again (i + 1, decoded ++ [c])
  else
    return .leave decoded

def decodeValue (v : Bytes) : Except Exn Bytes :=
  loop (decodePass v) (.fault .diverges) (v.length + 1) (0, [])

/-- The key and the value of a pair; without a `=` the pair is the key. -/
def splitPair (pair : Bytes) : Except Exn (Bytes × Bytes) :=
  match findFrom [61] pair 0 with
  | none => .ok (pair, [])
  | some eq => do
      let k ← substr pair 0 eq
      let v ← substr pair (eq + 1) pair.length
      return (k, v)

/-- One pass of the loop over the pairs. The map is the list of its assignments, latest first. -/
def pairPass (qs : Bytes) (state : Nat × List (Bytes × Bytes)) :
    Except Exn (Pass (Nat × List (Bytes × Bytes)) (List (Bytes × Bytes))) := do
  let (p, q) := state
  if p < qs.length then
    let amp := (findFrom [38] qs p).getD qs.length
    let pair ← substr qs p (← usub amp p)
    let (k, v) ← splitPair pair
    let decoded ← decodeValue v
    return .again (amp + 1, (k, decoded) :: q)
  else
    return .leave q

/-- `parse_query`, loop by loop. -/
def parseQueryLoops (target : Bytes) : Except Exn (List (Bytes × Bytes)) :=
  match findFrom [63] target 0 with
  | none => .ok []
  | some qpos => do
      let qs ← substr target (qpos + 1) target.length
      loop (pairPass qs) (.fault .diverges) (qs.length + 1) (0, [])

/-! ## Decoding a value -/

section Decoding

variable {v pair : Bytes} {i : Nat}

theorem octetAt_of_lt (h : i < v.length) : octetAt v i = .ok v[i] := by
  rw [octetAt, List.getElem?_eq_getElem h]

theorem decodeQueryValue_plain {c : UInt8} {rest : Bytes} (hplus : c ≠ 43)
    (hescape : ¬(c = 37 ∧ 2 ≤ rest.length)) :
    decodeQueryValue (c :: rest) = c :: decodeQueryValue rest := by
  rw [decodeQueryValue.eq_3]
  · exact hplus
  · rintro high low rest' rfl rfl
    exact hescape ⟨rfl, by simp⟩

/-- What is decoded so far, and what stands from the index on. -/
def DecodesTo (v : Bytes) (state : Nat × Bytes) : Prop :=
  state.1 ≤ v.length ∧ state.2 ++ decodeQueryValue (v.drop state.1) = decodeQueryValue v

theorem decodePass_sat {state : Nat × Bytes} (h : DecodesTo v state) :
    Returns (decodePass v state) fun
      | .again next => DecodesTo v next ∧ v.length - next.1 < v.length - state.1
      | .leave result => result = decodeQueryValue v := by
  obtain ⟨i, decoded⟩ := state
  obtain ⟨hi, hinv⟩ := h
  dsimp only at hi hinv
  have advance {next : Nat} {octet : UInt8} (hnext : i < next ∧ next ≤ v.length)
      (hdecode : decodeQueryValue (v.drop i) = octet :: decodeQueryValue (v.drop next)) :
      DecodesTo v (next, decoded ++ [octet]) ∧ v.length - next < v.length - i := by
    rw [hdecode] at hinv
    exact ⟨⟨hnext.2, by rw [List.append_assoc]; exact hinv⟩, by omega⟩
  simp only [decodePass]
  split
  next hlt =>
    have hdrop := List.drop_eq_getElem_cons hlt
    rw [octetAt_of_lt hlt, ok_bind]
    split
    next hplus =>
      refine advance (by omega) ?_
      rw [hdrop, hplus, decodeQueryValue]
    next hplus =>
      split
      next hescape =>
        obtain ⟨hpercent, hroom⟩ := hescape
        have hone : i + 1 < v.length := by omega
        rw [octetAt_of_lt hone, octetAt_of_lt hroom, ok_bind, ok_bind]
        refine advance (by omega) ?_
        rw [hdrop, hpercent, List.drop_eq_getElem_cons hone, List.drop_eq_getElem_cons hroom,
          decodeQueryValue]
      next hescape =>
        refine advance (by omega) ?_
        rw [hdrop, decodeQueryValue_plain hplus]
        rw [List.length_drop]
        exact fun hshort => hescape ⟨hshort.1, by omega⟩
  next hend =>
    rw [List.drop_eq_nil_of_le (by omega), decodeQueryValue, List.append_nil] at hinv
    exact hinv

theorem decodeValue_eq (v : Bytes) : decodeValue v = .ok (decodeQueryValue v) := by
  have hloop : Returns (decodeValue v) fun result => result = decodeQueryValue v :=
    loop_sat (fun state => v.length - state.1) (DecodesTo v)
      (fun state h => (decodePass_sat h).mono (fun pass hpass => by cases pass <;> exact hpass)
        fun _ => id)
      ⟨Nat.zero_le _, rfl⟩ (Nat.lt_succ_self _)
  obtain ⟨result, hresult, rfl⟩ := returns_iff.mp hloop
  exact hresult

theorem splitPair_eq (pair : Bytes) : splitPair pair =
    .ok (pair.takeWhile (· ≠ 61), (pair.dropWhile (· ≠ 61)).drop 1) := by
  rw [splitPair, findFrom_symbol_from (Nat.zero_le _), List.drop_zero]
  split_ifs with hmem
  · obtain ⟨front, back, rfl, -, htake, hdrop⟩ := exists_first_symbol hmem
    have hbound : front.length + 1 ≤ (front ++ 61 :: back).length := by simp
    rw [htake, hdrop, Nat.zero_add]
    dsimp only
    rw [substr_of_le (Nat.zero_le _), substr_of_le hbound, ok_bind, ok_bind, List.drop_zero,
      List.take_left, ← List.drop_drop, List.drop_left, List.drop_succ_cons, List.drop_zero,
      List.take_of_length_le (by simp; omega)]
    rfl
  · obtain ⟨htake, hdrop⟩ := takeWhile_ne_of_not_mem hmem
    rw [htake, hdrop]
    rfl

end Decoding

/-! ## The pairs -/

section Pairs

variable {qs front back : Bytes}

theorem queryPairs_nil : queryPairs [] = [] := by
  decide

theorem queryPairs_single (hne : front ≠ []) (h : 38 ∉ front) : queryPairs front = [front] := by
  rw [queryPairs, List.splitOn_eq_singleton h]
  cases front with
  | nil => exact absurd rfl hne
  | cons c rest => rfl

theorem queryPairs_cons (h : 38 ∉ front) :
    queryPairs (front ++ 38 :: back) = front :: queryPairs back := by
  have hsplit : (front ++ 38 :: back).splitOn 38 = front :: back.splitOn 38 := by
    rw [List.splitOn_append_cons_self, List.splitOn_eq_singleton h]
    rfl
  obtain ⟨init, last, hlast⟩ := List.eq_nil_or_concat (back.splitOn 38) |>.resolve_left
    (List.splitOn_ne_nil 38 back)
  rw [queryPairs, queryPairs, hsplit, hlast]
  cases last with
  | nil => simp
  | cons c rest => simp

/-- The first pair ends at the first separator or at the end. -/
theorem queryPairs_of_ne_nil (hne : qs ≠ []) : queryPairs qs =
    qs.takeWhile (· ≠ 38) :: queryPairs (qs.drop ((qs.takeWhile (· ≠ 38)).length + 1)) := by
  by_cases hmem : 38 ∈ qs
  · obtain ⟨front, back, rfl, hfront, htake, -⟩ := exists_first_symbol hmem
    rw [htake, queryPairs_cons hfront, ← List.drop_drop, List.drop_left]
    rfl
  · rw [(takeWhile_ne_of_not_mem hmem).1, queryPairs_single hne hmem,
      List.drop_eq_nil_of_le (Nat.le_succ _), queryPairs_nil]

/-- What the assignment of one pair adds to the map. -/
def assignPair (q : List (Bytes × Bytes)) (pair : Bytes) : List (Bytes × Bytes) :=
  (pair.takeWhile (· ≠ 61), decodeQueryValue ((pair.dropWhile (· ≠ 61)).drop 1)) :: q

/-- The assignments so far and those for what stands from the index on are all of them. -/
def AssignsTo (qs : Bytes) (state : Nat × List (Bytes × Bytes)) : Prop :=
  (queryPairs (qs.drop state.1)).foldl assignPair state.2 = (queryPairs qs).foldl assignPair []

theorem pairPass_sat {state : Nat × List (Bytes × Bytes)} (h : AssignsTo qs state) :
    Returns (pairPass qs state) fun
      | .again next => AssignsTo qs next ∧ qs.length - next.1 < qs.length - state.1
      | .leave result => result = (queryPairs qs).foldl assignPair [] := by
  obtain ⟨p, q⟩ := state
  simp only [pairPass]
  split
  next hlt =>
    have hle : p ≤ qs.length := hlt.le
    rw [findFrom_symbol_getD hle]
    generalize hfront : (qs.drop p).takeWhile (· ≠ 38) = front
    have hpair : (qs.drop p).take front.length = front := by
      rw [← hfront]
      exact (List.prefix_iff_eq_take.mp (List.takeWhile_prefix _)).symm
    rw [usub_of_le (Nat.le_add_right p _), Nat.add_sub_cancel_left, ok_bind, substr_of_le hle,
      ok_bind, hpair, splitPair_eq, ok_bind]
    dsimp only
    rw [decodeValue_eq, ok_bind]
    have hne : qs.drop p ≠ [] := by simpa using hlt
    have hstep := queryPairs_of_ne_nil hne
    rw [hfront, List.drop_drop, ← Nat.add_assoc] at hstep
    refine ⟨?_, by omega⟩
    rw [AssignsTo, hstep] at h
    exact h
  next hend =>
    rw [AssignsTo, List.drop_eq_nil_of_le (by omega), queryPairs_nil] at h
    exact h

theorem parseQueryLoops_eq (target : Bytes) :
    parseQueryLoops target = .ok (parseQuery target) := by
  rw [parseQueryLoops, findFrom_symbol_from (Nat.zero_le _), List.drop_zero, parseQuery]
  split_ifs with hmem
  · obtain ⟨front, back, rfl, -, htake, hdrop⟩ := exists_first_symbol hmem
    have hbound : front.length + 1 ≤ (front ++ 63 :: back).length := by simp
    have hqs : substr (front ++ 63 :: back) (front.length + 1) (front ++ 63 :: back).length =
        .ok back := by
      rw [substr_of_le hbound, ← List.drop_drop, List.drop_left, List.drop_succ_cons,
        List.drop_zero, List.take_of_length_le (by simp; omega)]
    rw [htake, hdrop, Nat.zero_add]
    dsimp only
    rw [hqs, ok_bind]
    have hloop : Returns (loop (pairPass back) (.fault .diverges) (back.length + 1) (0, []))
        fun result => result = (queryPairs back).foldl assignPair [] :=
      loop_sat (fun state => back.length - state.1) (AssignsTo back)
        (fun state h => (pairPass_sat h).mono (fun pass hpass => by cases pass <;> exact hpass)
          fun _ => id)
        rfl (Nat.lt_succ_self _)
    obtain ⟨result, hresult, rfl⟩ := returns_iff.mp hloop
    exact hresult
  · rw [(takeWhile_ne_of_not_mem hmem).2]

end Pairs

/-! ## The round trip -/

/-- Unreserved characters, and `%` with two upper-case hexadecimal digits. -/
inductive PercentEncoded : Bytes → Prop where
  | nil : PercentEncoded []
  | plain {rest : Bytes} (c : UInt8) (hc : isUnreserved c) (h : PercentEncoded rest) :
      PercentEncoded (c :: rest)
  | escape {rest : Bytes} (high low : UInt8) (hhigh : high ∈ hexDigits) (hlow : low ∈ hexDigits)
      (h : PercentEncoded rest) : PercentEncoded (37 :: high :: low :: rest)

section RoundTrip

variable {s : Bytes}

theorem low_nibble_lt (digit : UInt8) : (digit &&& 0xf).toNat < 16 := by
  rw [UInt8.toNat_and]
  exact Nat.and_lt_two_pow (n := 4) _ (by decide)

theorem hexDigit_mem (digit : UInt8) : hexDigit digit ∈ hexDigits := by
  have hlength : (digit &&& 0xf).toNat < hexDigits.length := low_nibble_lt digit
  rw [hexDigit, List.getD_eq_getElem?_getD, List.getElem?_eq_getElem hlength, Option.getD_some]
  exact List.getElem_mem hlength

theorem urlEncode_cons (c : UInt8) (rest : Bytes) : urlEncode (c :: rest) =
    (if isUnreserved c then [c] else [37, hexDigit (c >>> 4), hexDigit c]) ++ urlEncode rest :=
  List.flatMap_cons

theorem percentEncoded_urlEncode (s : Bytes) : PercentEncoded (urlEncode s) := by
  induction s with
  | nil => exact .nil
  | cons c rest ih =>
      rw [urlEncode_cons]
      split_ifs with hc
      · exact .plain c hc ih
      · exact .escape _ _ (hexDigit_mem _) (hexDigit_mem _) ih

theorem queryDigit_hexDigit (digit : UInt8) : queryDigit (hexDigit digit) = digit &&& 0xf := by
  have htable : ∀ n < 16, queryDigit (hexDigits.getD n 0) = UInt8.ofNat n := by decide +kernel
  rw [hexDigit, htable _ (low_nibble_lt digit), UInt8.ofNat_toNat]

/-- Both digits of an octet are read back. -/
theorem nibbles_eq (c : UInt8) : ((c >>> 4) &&& 0xf) <<< 4 ||| (c &&& 0xf) = c := by
  have hbits : ∀ n < 256, ((UInt8.ofNat n >>> 4) &&& 0xf) <<< 4 ||| (UInt8.ofNat n &&& 0xf) =
      UInt8.ofNat n := by decide +kernel
  simpa using hbits c.toNat c.toNat_lt

theorem decodeQueryValue_urlEncode (s : Bytes) : decodeQueryValue (urlEncode s) = s := by
  induction s with
  | nil => rfl
  | cons c rest ih =>
      rw [urlEncode_cons]
      split_ifs with hc
      · have hplain : c ≠ 43 ∧ c ≠ 37 := by
          constructor <;> rintro rfl <;> exact absurd hc (by decide)
        rw [List.singleton_append,
          decodeQueryValue_plain hplain.1 fun hescape => hplain.2 hescape.1, ih]
      · rw [List.cons_append, List.cons_append, List.cons_append, List.nil_append,
          decodeQueryValue, queryDigit_hexDigit, queryDigit_hexDigit, nibbles_eq, ih]

theorem PercentEncoded.not_mem (h : PercentEncoded s) : 38 ∉ s := by
  have hdigits : 38 ∉ hexDigits := by decide +kernel
  induction h with
  | nil => exact List.not_mem_nil
  | plain c hc _ ih =>
      refine List.not_mem_cons_of_ne_of_not_mem ?_ ih
      rintro rfl
      exact absurd hc (by decide)
  | escape high low hhigh hlow _ ih =>
      refine List.not_mem_cons_of_ne_of_not_mem (by decide) ?_
      refine List.not_mem_cons_of_ne_of_not_mem (ne_of_mem_of_not_mem hhigh hdigits).symm ?_
      exact List.not_mem_cons_of_ne_of_not_mem (ne_of_mem_of_not_mem hlow hdigits).symm ih

/-- A pair as `form_encode` writes it. -/
def formItem (pair : Bytes × Bytes) : Bytes := pair.1 ++ [61] ++ urlEncode pair.2

theorem formEncode_eq (pairs : List (Bytes × Bytes)) :
    formEncode pairs = ((pairs.map formItem).intersperse [38]).flatten := rfl

theorem formItem_not_mem {pair : Bytes × Bytes} (h : 38 ∉ pair.1) : 38 ∉ formItem pair := by
  have hvalue := (percentEncoded_urlEncode pair.2).not_mem
  simp [formItem, h, hvalue]

theorem formItem_ne_nil (pair : Bytes × Bytes) : formItem pair ≠ [] := by
  simp [formItem]

theorem queryPairs_formEncode {pairs : List (Bytes × Bytes)} (h : ∀ pair ∈ pairs, 38 ∉ pair.1) :
    queryPairs (formEncode pairs) = pairs.map formItem := by
  induction pairs with
  | nil => exact queryPairs_nil
  | cons pair rest ih =>
      obtain ⟨hpair, hrest⟩ := List.forall_mem_cons.mp h
      cases rest with
      | nil =>
          rw [formEncode_eq, List.map_singleton, List.intersperse_singleton, List.flatten_singleton,
            queryPairs_single (formItem_ne_nil pair) (formItem_not_mem hpair)]
      | cons next rest =>
          have hcons : formEncode (pair :: next :: rest) =
              formItem pair ++ 38 :: formEncode (next :: rest) := rfl
          rw [hcons, queryPairs_cons (formItem_not_mem hpair), ih hrest]
          rfl

theorem assignPair_formItem (q : List (Bytes × Bytes)) {pair : Bytes × Bytes} (h : 61 ∉ pair.1) :
    assignPair q (formItem pair) = pair :: q := by
  have hmem : (61 : UInt8) ∈ formItem pair := by simp [formItem]
  have hpass : ∀ c ∈ pair.1, decide (c ≠ 61) = true := fun c hc =>
    decide_eq_true (ne_of_mem_of_not_mem hc h)
  have htake : (formItem pair).takeWhile (· ≠ 61) = pair.1 := by
    rw [formItem, List.append_assoc, List.takeWhile_append_of_pos hpass]
    simp
  have hdrop : (formItem pair).dropWhile (· ≠ 61) = 61 :: urlEncode pair.2 := by
    rw [formItem, List.append_assoc, List.dropWhile_append_of_pos hpass]
    simp
  rw [assignPair, htake, hdrop, List.drop_succ_cons, List.drop_zero, decodeQueryValue_urlEncode]

theorem foldl_assignPair {pairs : List (Bytes × Bytes)} (h : ∀ pair ∈ pairs, 61 ∉ pair.1)
    (q : List (Bytes × Bytes)) :
    (pairs.map formItem).foldl assignPair q = pairs.reverse ++ q := by
  induction pairs generalizing q with
  | nil => rfl
  | cons pair rest ih =>
      obtain ⟨hpair, hrest⟩ := List.forall_mem_cons.mp h
      rw [List.map_cons, List.foldl_cons, assignPair_formItem q hpair, ih hrest,
        List.reverse_cons, List.append_assoc]
      rfl

/-- With distinct keys the latest assignment of a key is the only one. -/
theorem lookup_reverse {pairs : List (Bytes × Bytes)} (h : (pairs.map Prod.fst).Nodup)
    (key : Bytes) : pairs.reverse.lookup key = pairs.lookup key := by
  induction pairs with
  | nil => rfl
  | cons pair rest ih =>
      obtain ⟨hpair, hrest⟩ := List.nodup_cons.mp h
      rw [List.reverse_cons, List.lookup_append, ih hrest]
      by_cases hkey : key = pair.1
      · have hnone : rest.lookup key = none := by
          rw [List.lookup_eq_none_iff]
          intro other hother
          rw [bne_iff_ne, hkey]
          exact (ne_of_mem_of_not_mem (List.mem_map_of_mem hother) hpair).symm
        rw [hnone, List.lookup_cons, List.lookup_cons, hkey, beq_self_eq_true]
        rfl
      · have hbeq : (key == pair.1) = false := beq_eq_false_iff_ne.mpr hkey
        rw [List.lookup_cons, List.lookup_cons, hbeq]
        exact Option.or_none

theorem parseQuery_formEncode {pairs : List (Bytes × Bytes)} {path : Bytes}
    (hamp : ∀ pair ∈ pairs, 38 ∉ pair.1) (heq : ∀ pair ∈ pairs, 61 ∉ pair.1) (hpath : 63 ∉ path) :
    parseQuery (path ++ 63 :: formEncode pairs) = pairs.reverse := by
  have hpass : ∀ c ∈ path, decide (c ≠ 63) = true := fun c hc =>
    decide_eq_true (ne_of_mem_of_not_mem hc hpath)
  have hdrop : (path ++ 63 :: formEncode pairs).dropWhile (· ≠ 63) = 63 :: formEncode pairs := by
    rw [List.dropWhile_append_of_pos hpass]
    simp
  rw [parseQuery, hdrop]
  exact (congrArg _ (queryPairs_formEncode hamp)).trans
    ((foldl_assignPair heq []).trans (List.append_nil _))

/-- Every target is parsed without a fault, by the map of its pairs. A form with distinct keys
comes back as the map of its pairs, and the values are written in unreserved characters
and `%XX` triples. -/
theorem parseQueryLoops_roundTrip :
    (∀ (pairs : List (Bytes × Bytes)) (path : Bytes), (pairs.map Prod.fst).Nodup →
      (∀ pair ∈ pairs, 38 ∉ pair.1 ∧ 61 ∉ pair.1) → 63 ∉ path →
      ∃ q, parseQueryLoops (path ++ 63 :: formEncode pairs) = .ok q ∧
        ∀ key, q.lookup key = pairs.lookup key) ∧
    (∀ s : Bytes, PercentEncoded (urlEncode s)) ∧
    (∀ target : Bytes, parseQueryLoops target = .ok (parseQuery target)) := by
  refine ⟨fun pairs path hnodup hkeys hpath => ?_, percentEncoded_urlEncode, parseQueryLoops_eq⟩
  refine ⟨pairs.reverse, ?_, lookup_reverse hnodup⟩
  rw [parseQueryLoops_eq, parseQuery_formEncode (fun pair hpair => (hkeys pair hpair).1)
    (fun pair hpair => (hkeys pair hpair).2) hpath]

/-- `/?a=%26` and a second key with an empty value. -/
theorem sampleForm_roundTrip : ∃ q,
    parseQueryLoops ([47] ++ 63 :: formEncode [([97], [38]), ([98], [])]) = .ok q ∧
      ∀ key, q.lookup key = [(([97] : Bytes), ([38] : Bytes)), ([98], [])].lookup key :=
  parseQueryLoops_roundTrip.1 [([97], [38]), ([98], [])] [47] (by decide) (by decide) (by decide)

end RoundTrip

end AasSign
