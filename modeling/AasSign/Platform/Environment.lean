import Mathlib.Data.List.Forall2
import AasSign.Foundation.Entries
import AasSign.Foundation.Search
import AasSign.Platform.CommandLine

/-! # The environment of a child

`run_process` hands the companion its own environment without the entries that hold
secrets: on POSIX an array of strings, on Windows a block of strings with a NUL
behind each and one more at the end.
-/

namespace AasSign

open Foundation

/-! ## POSIX -/

/-- `private_environment`. -/
def privateEnvironment (name : Bytes) : Bool :=
  (ascii "AZURE_").isPrefixOf name || (ascii "ACTIONS_ID_TOKEN_").isPrefixOf name ||
    name == ascii "GH_TOKEN" || name == ascii "GITHUB_TOKEN" || name == ascii "INPUT_TOKEN" ||
    name == ascii "GH_ENTERPRISE_TOKEN" || name == ascii "GITHUB_ENTERPRISE_TOKEN"

/-- `value.substr(0, value.find('='))`. -/
def environmentName (value : Bytes) : Bytes :=
  match findFrom [61] value 0 with
  | none => value
  | some separator => value.take separator

/-- The strings of `envp`; `none` is the null pointer at the end of the array. -/
def childEnvp (environ : Option (List Bytes)) : List (Option Bytes) :=
  let environment := (environ.getD []).foldl (fun environment value =>
    if !privateEnvironment (environmentName value) then environment ++ [value] else environment) []
  environment.map some ++ [none]

/-- The entries of an array up to the null pointer. -/
def readEnvp (envp : List (Option Bytes)) : List Bytes := (envp.takeWhile (·.isSome)).filterMap id

/-! ## Windows -/

def wide (literal : String) : Wide := literal.toList.map fun c => UInt16.ofNat c.toNat

/-- `std::towupper` in the "C" locale, which the program does not change. -/
def towupper (c : UInt16) : UInt16 := if 97 ≤ c.toNat ∧ c.toNat ≤ 122 then c - 32 else c

def privateWideName (name : Wide) : Bool :=
  (wide "AZURE_").isPrefixOf name || (wide "ACTIONS_ID_TOKEN_").isPrefixOf name ||
    name == wide "GH_TOKEN" || name == wide "GITHUB_TOKEN" || name == wide "INPUT_TOKEN" ||
    name == wide "GH_ENTERPRISE_TOKEN" || name == wide "GITHUB_ENTERPRISE_TOKEN"

/-- `entry[i]`, a fault outside the block. -/
def wideAt (block : Wide) (i : Nat) : Except Exn UInt16 :=
  match block[i]? with
  | some c => .ok c
  | none => .error (.fault .outOfBounds)

/-- `std::wcslen`, a fault when no NUL follows. -/
def wcslen (block : Wide) (entry : Nat) : Except Exn Nat :=
  match findFrom [0] block entry with
  | some stop => .ok (stop - entry)
  | none => .error (.fault .outOfBounds)

/-- The name of an entry. A drive entry starts with the `=` of its name. -/
def wideName (value : Wide) : Wide :=
  match findFrom [61] value (if value.head? = some 61 then 1 else 0) with
  | none => value
  | some separator => value.take separator

/-- One pass of the loop over the block. -/
def environmentPass (block : Wide) (state : Nat × Wide) : Except Exn (Pass (Nat × Wide) Wide) := do
  let (entry, filtered) := state
  let front ← wideAt block entry
  if front = 0 then
    return .leave filtered
  else
    let len ← wcslen block entry
    let value := (block.drop entry).take len
    if privateWideName ((wideName value).map towupper) then
      return .again (entry + len + 1, filtered)
    else
      return .again (entry + len + 1, filtered ++ value ++ [0])

/-- `child_environment`. -/
def childEnvironment (strings : Option Wide) (winError : String) : Except Exn Wide :=
  match strings with
  | none => .error (.error ("GetEnvironmentStringsW: " ++ winError))
  | some block => do
      let filtered ← loop (environmentPass block) (.fault .diverges) (block.length + 1) (0, [])
      let filtered := if filtered = [] then [0] else filtered
      return filtered ++ [0]

/-! ## What is secret -/

def secretPrefixes : List String := ["AZURE_", "ACTIONS_ID_TOKEN_"]

def secretNames : List String :=
  ["GH_TOKEN", "GITHUB_TOKEN", "INPUT_TOKEN", "GH_ENTERPRISE_TOKEN", "GITHUB_ENTERPRISE_TOKEN"]

/-- An entry of a variable that holds a secret. -/
def SecretEntry (value : Bytes) : Prop :=
  (∃ p ∈ secretPrefixes, ascii p <+: value.takeWhile (· ≠ 61)) ∨
    ∃ name ∈ secretNames, value.takeWhile (· ≠ 61) = ascii name

instance (value : Bytes) : Decidable (SecretEntry value) := inferInstanceAs (Decidable (_ ∨ _))

/-- The same letter, or the two cases of one. -/
def SameLetter (c d : UInt16) : Prop :=
  c = d ∨ (97 ≤ c.toNat ∧ c.toNat ≤ 122 ∧ d.toNat + 32 = c.toNat) ∨
    (97 ≤ d.toNat ∧ d.toNat ≤ 122 ∧ c.toNat + 32 = d.toNat)

instance (c d : UInt16) : Decidable (SameLetter c d) := inferInstanceAs (Decidable (_ ∨ _))

abbrev SameIgnoringCase (name other : Wide) : Prop := List.Forall₂ SameLetter name other

/-- The name before the `=`, which for a drive entry is not the first character. -/
def wideEntryName : Wide → Wide
  | [] => []
  | c :: rest => c :: rest.takeWhile (· ≠ 61)

/-- An entry of a variable that holds a secret, in any case. -/
def SecretWideEntry (value : Wide) : Prop :=
  (∃ p ∈ secretPrefixes, SameIgnoringCase ((wideEntryName value).take p.length) (wide p)) ∨
    ∃ name ∈ secretNames, SameIgnoringCase (wideEntryName value) (wide name)

/-! ## The filters -/

section Filters

theorem environmentName_eq (value : Bytes) : environmentName value = value.takeWhile (· ≠ 61) := by
  rw [environmentName, findFrom_symbol_from (Nat.zero_le _), List.drop_zero]
  split_ifs with hmem
  · dsimp only
    rw [Nat.zero_add]
    exact (List.prefix_iff_eq_take.mp (List.takeWhile_prefix _)).symm
  · exact (takeWhile_ne_of_not_mem hmem).1.symm

theorem privateEnvironment_iff (value : Bytes) :
    privateEnvironment (environmentName value) ↔ SecretEntry value := by
  rw [environmentName_eq, SecretEntry]
  simp [privateEnvironment, secretPrefixes, secretNames, or_assoc]

theorem childEnvp_eq (environ : List Bytes) :
    childEnvp (some environ) = (environ.filter fun value => ¬SecretEntry value).map some ++ [none] := by
  have hloop (environ environment : List Bytes) : environ.foldl (fun environment value =>
      if !privateEnvironment (environmentName value) then environment ++ [value] else environment)
        environment = environment ++ environ.filter fun value => ¬SecretEntry value := by
    induction environ generalizing environment with
    | nil => exact (List.append_nil _).symm
    | cons value rest ih =>
        rw [List.foldl_cons, ih, List.filter_cons]
        by_cases hsecret : SecretEntry value
        · simp [(privateEnvironment_iff value).mpr hsecret, hsecret]
        · have hprivate : privateEnvironment (environmentName value) = false := by
            simpa [← privateEnvironment_iff] using hsecret
          simp [hprivate, hsecret]
  rw [childEnvp, Option.getD_some, hloop, List.nil_append]

theorem readEnvp_map (entries : List Bytes) : readEnvp (entries.map some ++ [none]) = entries := by
  induction entries with
  | nil => rfl
  | cons entry rest ih =>
      rw [List.map_cons, List.cons_append, readEnvp, List.takeWhile_cons_of_pos rfl]
      exact congrArg _ ih

theorem towupper_toNat (c : UInt16) : (towupper c).toNat =
    if 97 ≤ c.toNat ∧ c.toNat ≤ 122 then c.toNat - 32 else c.toNat := by
  have hc := c.toNat_lt
  unfold towupper
  split_ifs with hlower
  · rw [UInt16.toNat_sub]
    simp only [UInt16.toNat_ofNat]
    omega
  · rfl

theorem towupper_eq_iff (c d : UInt16) : towupper c = towupper d ↔ SameLetter c d := by
  rw [← UInt16.toNat_inj, towupper_toNat, towupper_toNat, SameLetter, ← UInt16.toNat_inj]
  split_ifs <;> omega

theorem map_towupper_eq_iff (name other : Wide) :
    name.map towupper = other.map towupper ↔ SameIgnoringCase name other := by
  induction name generalizing other with
  | nil => cases other <;> simp [SameIgnoringCase, List.forall₂_nil_left_iff]
  | cons c rest ih =>
      cases other with
      | nil => simp [SameIgnoringCase, List.forall₂_nil_right_iff]
      | cons d others =>
          rw [List.map_cons, List.map_cons, List.cons.injEq, towupper_eq_iff, ih]
          exact List.forall₂_cons.symm

theorem privateWideName_eq (name : Wide) : privateWideName name ↔
    (∃ p ∈ secretPrefixes, wide p <+: name) ∨ ∃ other ∈ secretNames, name = wide other := by
  simp [privateWideName, secretPrefixes, secretNames, or_assoc]

theorem privateWideName_iff (name : Wide) : privateWideName (name.map towupper) ↔
    (∃ p ∈ secretPrefixes, SameIgnoringCase (name.take p.length) (wide p)) ∨
      ∃ other ∈ secretNames, SameIgnoringCase name (wide other) := by
  have hupper : ∀ literal ∈ secretPrefixes ++ secretNames,
      (wide literal).map towupper = wide literal ∧ (wide literal).length = literal.length := by
    decide +kernel
  rw [privateWideName_eq]
  refine or_congr (exists_congr fun p => and_congr_right fun hp => ?_)
    (exists_congr fun other => and_congr_right fun hother => ?_)
  · obtain ⟨hmap, hlength⟩ := hupper p (List.mem_append_left _ hp)
    rw [List.prefix_iff_eq_take, ← List.map_take, hlength, ← map_towupper_eq_iff, hmap, eq_comm]
  · rw [← map_towupper_eq_iff, (hupper other (List.mem_append_right _ hother)).1]

theorem wideName_eq {value : Wide} (hne : value ≠ []) : wideName value = wideEntryName value := by
  cases value with
  | nil => exact absurd rfl hne
  | cons c rest =>
      -- The first character is never taken for the separator: it is skipped or is another.
      have hfind : findFrom [61] (c :: rest) (if (c :: rest).head? = some 61 then 1 else 0) =
          if 61 ∈ rest then some (1 + (rest.takeWhile (· ≠ 61)).length) else none := by
        rw [List.head?_cons]
        by_cases hdrive : c = 61
        · rw [if_pos (congrArg some hdrive), findFrom_symbol_from (by simp), List.drop_one,
            List.tail_cons]
        · have hmem : 61 ∈ c :: rest ↔ 61 ∈ rest := by simp [Ne.symm hdrive]
          rw [if_neg (fun hsome => hdrive (Option.some.inj hsome)),
            findFrom_symbol_from (Nat.zero_le _), List.drop_zero,
            List.takeWhile_cons_of_pos (by simpa using hdrive), List.length_cons, Nat.zero_add,
            Nat.add_comm]
          simp only [hmem]
      have hprefix : c :: rest.takeWhile (· ≠ 61) <+: c :: rest :=
        List.cons_prefix_cons.mpr ⟨rfl, List.takeWhile_prefix _⟩
      have htake := List.prefix_iff_eq_take.mp hprefix
      rw [wideEntryName, wideName, hfind]
      split_ifs with hmem
      · rw [List.length_cons, Nat.add_comm] at htake
        exact htake.symm
      · rw [(takeWhile_ne_of_not_mem hmem).1]

instance (value : Wide) : Decidable (SecretWideEntry value) :=
  decidable_of_iff _ (privateWideName_iff (wideEntryName value))

end Filters

/-! ## The block -/

/-- What can be an entry of a block. -/
def IsWideEntry (value : Wide) : Prop := value ≠ [] ∧ 0 ∉ value

section Block

variable {before after value filtered : Wide} {entries : List Wide}

theorem environmentPass_entry (h : IsWideEntry value) :
    environmentPass (before ++ (value ++ 0 :: after)) (before.length, filtered) =
      .ok (.again (before.length + value.length + 1,
        if SecretWideEntry value then filtered else filtered ++ value ++ [0])) := by
  obtain ⟨hne, hzero⟩ := h
  have hbound : before.length ≤ (before ++ (value ++ 0 :: after)).length := by simp
  have hdrop : (before ++ (value ++ 0 :: after)).drop before.length = value ++ 0 :: after :=
    List.drop_left
  have hlen : wcslen (before ++ (value ++ 0 :: after)) before.length = .ok value.length := by
    obtain ⟨htake, -⟩ := takeWhile_symbol hzero after
    rw [wcslen, findFrom_symbol_from hbound, hdrop, htake, if_pos (by simp)]
    exact congrArg Except.ok (Nat.add_sub_cancel_left _ _)
  obtain ⟨front, rest, rfl⟩ := List.exists_cons_of_ne_nil hne
  have hfront : front ≠ 0 := fun heq => hzero (heq ▸ List.mem_cons_self)
  have hat : wideAt (before ++ (front :: rest ++ 0 :: after)) before.length = .ok front := by
    simp [wideAt]
  simp only [environmentPass, hat, hlen, hdrop, ok_bind, if_neg hfront, List.take_left,
    wideName_eq hne]
  have hprivate := privateWideName_iff (wideEntryName (front :: rest))
  by_cases hsecret : SecretWideEntry (front :: rest)
  · rw [if_pos (hprivate.mpr hsecret), if_pos hsecret]
    rfl
  · rw [if_neg (fun htrue => hsecret (hprivate.mp htrue)), if_neg hsecret]
    rfl

theorem environmentPass_end :
    environmentPass (before ++ 0 :: after) (before.length, filtered) = .ok (.leave filtered) := by
  have hat : wideAt (before ++ 0 :: after) before.length = .ok 0 := by simp [wideAt]
  simp only [environmentPass, hat, ok_bind, if_true]
  rfl

/-- The loop keeps the entries that are not secret, with their terminators. -/
theorem loop_environmentPass (hentries : ∀ value ∈ entries, IsWideEntry value) {fuel : Nat}
    (hfuel : entries.length < fuel) (before after filtered : Wide) :
    loop (environmentPass (before ++ (terminated 0 entries ++ 0 :: after))) (.fault .diverges) fuel
      (before.length, filtered) =
      .ok (filtered ++ terminated 0 (entries.filter fun value => ¬SecretWideEntry value)) := by
  induction entries generalizing fuel before filtered with
  | nil =>
      obtain ⟨fuel, rfl⟩ : ∃ less, fuel = less + 1 := ⟨fuel - 1, by simp at hfuel; omega⟩
      have hnil : terminated 0 ([] : List Wide) = [] := rfl
      rw [hnil, List.nil_append, loop_leave environmentPass_end, List.filter_nil, hnil,
        List.append_nil]
  | cons value rest ih =>
      obtain ⟨hvalue, hrest⟩ := List.forall_mem_cons.mp hentries
      rw [List.length_cons] at hfuel
      obtain ⟨fuel, rfl⟩ : ∃ less, fuel = less + 1 := ⟨fuel - 1, by omega⟩
      have hblock : terminated 0 (value :: rest) ++ 0 :: after =
          value ++ 0 :: (terminated 0 rest ++ 0 :: after) := by
        rw [terminated_cons, List.append_assoc, List.cons_append]
      have hlater : before ++ (value ++ 0 :: (terminated 0 rest ++ 0 :: after)) =
          (before ++ value ++ [0]) ++ (terminated 0 rest ++ 0 :: after) := by simp
      have hlength : before.length + value.length + 1 = (before ++ value ++ [0]).length := by
        simp [Nat.add_assoc]
      rw [hblock, loop_again (environmentPass_entry hvalue), hlater, hlength,
        ih hrest (by omega)]
      by_cases hsecret : SecretWideEntry value
      · simp [hsecret]
      · simp [hsecret, terminated_cons]

theorem length_le_terminated (entries : List Wide) :
    entries.length ≤ (terminated 0 entries).length := by
  induction entries with
  | nil => exact Nat.zero_le _
  | cons value rest ih =>
      rw [terminated_cons, List.length_append, List.length_cons, List.length_cons]
      omega

theorem childEnvironment_eq (hentries : ∀ value ∈ entries, IsWideEntry value) (after : Wide)
    (winError : String) :
    childEnvironment (some (terminated 0 entries ++ 0 :: after)) winError =
      .ok (let filtered := terminated 0 (entries.filter fun value => ¬SecretWideEntry value)
        (if filtered = [] then [0] else filtered) ++ [0]) := by
  have hfuel : entries.length < (terminated 0 entries ++ 0 :: after).length + 1 := by
    have hlength := length_le_terminated entries
    rw [List.length_append]
    omega
  have hloop := loop_environmentPass hentries hfuel [] after []
  rw [List.nil_append, List.nil_append, List.length_nil] at hloop
  simp only [childEnvironment]
  rw [hloop]
  rfl

/-- The block that is handed over ends in two NULs and holds what is not secret. -/
theorem readTerminated_childEnvironment (hentries : ∀ value ∈ entries, IsWideEntry value)
    (after : Wide) (winError : String) :
    ∃ block, childEnvironment (some (terminated 0 entries ++ 0 :: after)) winError = .ok block ∧
      [0, 0] <:+ block ∧
      readTerminated 0 block = entries.filter fun value => ¬SecretWideEntry value := by
  refine ⟨_, childEnvironment_eq hentries after winError, ?_⟩
  generalize hkept : (entries.filter fun value => ¬SecretWideEntry value) = kept
  have hvalid : ∀ value ∈ kept, value ≠ [] ∧ 0 ∉ value := by
    intro value hvalue
    exact hentries value (List.mem_of_mem_filter (hkept ▸ hvalue))
  dsimp only
  cases hlast : kept.getLast? with
  | none =>
      obtain rfl := List.getLast?_eq_none_iff.mp hlast
      exact ⟨List.suffix_refl _, readTerminated_end [0]⟩
  | some last =>
      obtain ⟨init, rfl⟩ := List.getLast?_eq_some_iff.mp hlast
      have hblock : terminated 0 (init ++ [last]) = terminated 0 init ++ last ++ [0] := by
        simp [terminated]
      rw [if_neg (by simp [hblock])]
      refine ⟨⟨terminated 0 init ++ last, by simp [hblock]⟩, ?_⟩
      exact readTerminated_terminated hvalid []

end Block

/-! ## No secret is handed over -/

theorem childEnvironment_congr {entries entries' : List Wide}
    (hentries : ∀ value ∈ entries, IsWideEntry value)
    (hentries' : ∀ value ∈ entries', IsWideEntry value)
    (h : DifferIn SecretWideEntry entries entries') (after after' : Wide) (winError : String) :
    childEnvironment (some (terminated 0 entries ++ 0 :: after)) winError =
      childEnvironment (some (terminated 0 entries' ++ 0 :: after')) winError := by
  rw [childEnvironment_eq hentries, childEnvironment_eq hentries', h.filter_eq]

/-- On both platforms the child has the entries of the parent that are not secret, in order,
and what it is handed does not depend on the secret entries. -/
theorem childEnvironment_private :
    (∀ environ : Option (List Bytes), readEnvp (childEnvp environ) =
      (environ.getD []).filter fun value => ¬SecretEntry value) ∧
    (∀ environ environ' : List Bytes, DifferIn SecretEntry environ environ' →
      childEnvp (some environ) = childEnvp (some environ')) ∧
    (∀ (entries : List Wide) (after : Wide) (winError : String),
      (∀ value ∈ entries, IsWideEntry value) →
      ∃ block, childEnvironment (some (terminated 0 entries ++ 0 :: after)) winError = .ok block ∧
        [0, 0] <:+ block ∧
        readTerminated 0 block = entries.filter fun value => ¬SecretWideEntry value) ∧
    (∀ (entries entries' : List Wide) (after after' : Wide) (winError : String),
      (∀ value ∈ entries, IsWideEntry value) → (∀ value ∈ entries', IsWideEntry value) →
      DifferIn SecretWideEntry entries entries' →
      childEnvironment (some (terminated 0 entries ++ 0 :: after)) winError =
        childEnvironment (some (terminated 0 entries' ++ 0 :: after')) winError) := by
  refine ⟨fun environ => ?_, fun environ environ' hdiffer => ?_, fun _ after winError hentries =>
    readTerminated_childEnvironment hentries after winError,
    fun _ _ after after' winError hentries hentries' hdiffer =>
      childEnvironment_congr hentries hentries' hdiffer after after' winError⟩
  · have hsome : childEnvp environ = childEnvp (some (environ.getD [])) := rfl
    rw [hsome, childEnvp_eq, readEnvp_map]
  · rw [childEnvp_eq, childEnvp_eq, hdiffer.filter_eq]

/-- A block of a secret alone becomes the empty block, and is what the empty block becomes. -/
theorem lowerCaseToken_private :
    (∃ block, childEnvironment (some (terminated 0 [wide "gh_Token=x"] ++ [0])) "" = .ok block ∧
      [0, 0] <:+ block ∧ readTerminated 0 block = []) ∧
    childEnvironment (some (terminated 0 [wide "gh_Token=x"] ++ [0])) "" =
      childEnvironment (some (terminated 0 [] ++ [0])) "" ∧
    childEnvp (some [ascii "AZURE_X=y"]) = childEnvp (some []) :=
  have hentry : ∀ value ∈ [wide "gh_Token=x"], IsWideEntry value := by
    simp only [List.mem_singleton, forall_eq]
    exact ⟨by decide +kernel, by decide +kernel⟩
  have hsecret : SecretWideEntry (wide "gh_Token=x") := by decide +kernel
  have hfilter : ([wide "gh_Token=x"].filter fun value => ¬SecretWideEntry value) = [] := by
    simp [hsecret]
  ⟨hfilter ▸ childEnvironment_private.2.2.1 [wide "gh_Token=x"] [] "" hentry,
    childEnvironment_private.2.2.2 [wide "gh_Token=x"] [] [] [] "" hentry (by simp)
      (.left _ hsecret .nil),
    childEnvironment_private.2.1 [ascii "AZURE_X=y"] [] (.left _ (by decide +kernel) .nil)⟩

end AasSign
