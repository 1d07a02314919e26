import AasSign.Auth.LoginEffects
import AasSign.Main.Sign

/-! # The signing defaults

`config_main` writes the defaults of a signer to `config.json`, and `sign_main` fills in from there
what its arguments leave out. What the one has saved the other finds.
-/

namespace AasSign

open Foundation Program

/-! ## `config` -/

/-- An option of `config` that takes a value: those of `login` that name the signer. -/
def LoginOptions.withConfigFlag (o : LoginOptions) (arg value : Bytes) : Option LoginOptions :=
  if arg = ascii "--tenant" ∨ arg = ascii "--client-id" then none else o.withFlag arg value

/-- The arguments behind `config`. The last one is never an option that takes a value. -/
def parseConfigArgs (o : LoginOptions) : List Bytes → Except ArgsStop LoginOptions
  | [] => .ok o
  | [arg] => o.withArg arg
  | arg :: value :: rest =>
      match o.withConfigFlag arg value with
      | some o' => parseConfigArgs o' rest
      | none =>
          match o.withArg arg with
          | .error stop => .error stop
          | .ok o' => parseConfigArgs o' (value :: rest)

def nothingToDo : Bytes :=
  ascii ("aas-sign config: nothing to do; pass REGION:ACCOUNT:PROFILE" ++
    " or at least one of --endpoint, --account, --profile\n")

/-- `config_main`; `args` are the arguments behind `config`. -/
def configMain (env : LoginEnv) (args : List Bytes) : AuthProgram Int :=
  match parseConfigArgs .default args with
  | .error .help => do
      let dir ← lift env.configDir
      record (.toldUsage dir)
      return 0
  | .error (.unknown arg) => do
      record (.told (ascii "aas-sign config: unknown option: " ++ arg ++ ascii "\n"))
      return 1
  | .ok options =>
      match options.defaults with
      | .error what => do
          record (.told (ascii "aas-sign config: " ++ what ++ ascii "\n"))
          return 1
      | .ok defaults =>
          if defaults.endpoint = [] ∧ defaults.account = [] ∧ defaults.profile = [] then do
            record (.told nothingToDo)
            return 1
          else do
            saveSigningDefaults env defaults
            return 0

/-! ## What is stored -/

/-- Each field of the first signer, or that of the second where the first has none. -/
def SignerTuple.over (front back : SignerTuple) : SignerTuple where
  endpoint := if front.endpoint = [] then back.endpoint else front.endpoint
  account := if front.account = [] then back.account else front.account
  profile := if front.profile = [] then back.profile else front.profile

/-- The value holds the signer in its fields, as far as another signer leaves fields out. -/
structure Json.Completes (j : Json) (signer stored : SignerTuple) : Prop where
  endpoint : signer.endpoint = [] → j.value (ascii "endpoint") = .ok stored.endpoint
  account : signer.account = [] → j.value (ascii "account") = .ok stored.account
  profile : signer.profile = [] → j.value (ascii "profile") = .ok stored.profile

section Stored

variable {env : AuthEnv} {j cfg : Json} {signer stored defaults filled : SignerTuple}
  {path contents : Bytes}

/-- A field is read only if it is left out, and what is read takes its place. -/
theorem fillField_run {key : String} {get : SignerTuple → Bytes}
    {put : Bytes → SignerTuple → SignerTuple} {value : Bytes}
    (h : get signer = [] → j.value (ascii key) = .ok value)
    (hput : filled = if get signer = [] then put value signer else signer) :
    fillField j key get put signer = (.ok (), filled) := by
  have hcurrent : (current : Program SignerTuple Bytes SignerTuple) signer = (.ok signer, signer) := rfl
  rw [fillField, run_bind hcurrent]
  by_cases hempty : get signer = []
  · have hread : (lift (j.value (ascii key)) : Program SignerTuple Bytes Bytes) signer =
        (.ok value, signer) := by rw [h hempty]; rfl
    rw [if_pos hempty, run_bind hread, hput, if_pos hempty]
    rfl
  · rw [if_neg hempty, hput, if_neg hempty]
    rfl

/-- A configuration that completes the signer is read without an exception. -/
theorem fillSigner_completes (hdir : env.configDir = .ok path)
    (hextract : env.json.extract contents = .ok j) (h : j.Completes signer stored) :
    fillSigner env (some contents) signer = (.ok (), signer.over stored) := by
  have hread : fillSigner env (some contents) signer = (do
      fillField j "endpoint" (·.endpoint) fun value signer => { signer with endpoint := value }
      fillField j "account" (·.account) fun value signer => { signer with account := value }
      fillField j "profile" (·.profile) fun value signer => { signer with profile := value } :
        Program SignerTuple Bytes Unit) signer := by
    simp only [fillSigner, hdir, hextract, Bind.bind, lift]
  have hendpoint : fillField j "endpoint" (·.endpoint)
      (fun value signer => { signer with endpoint := value }) signer =
        (.ok (), { signer with endpoint := (signer.over stored).endpoint }) := by
    refine fillField_run h.endpoint ?_
    by_cases hempty : signer.endpoint = [] <;> simp [SignerTuple.over, hempty]
  have haccount : fillField j "account" (·.account)
      (fun value signer => { signer with account := value })
      { signer with endpoint := (signer.over stored).endpoint } =
        (.ok (), { signer.over stored with profile := signer.profile }) := by
    refine fillField_run h.account ?_
    by_cases hempty : signer.account = [] <;> simp [SignerTuple.over, hempty]
  have hprofile : fillField j "profile" (·.profile)
      (fun value signer => { signer with profile := value })
      { signer.over stored with profile := signer.profile } = (.ok (), signer.over stored) := by
    refine fillField_run h.profile ?_
    by_cases hempty : signer.profile = [] <;> simp [SignerTuple.over, hempty]
  rw [hread, run_bind hendpoint, run_bind haccount, hprofile]

theorem value_setUnlessEmpty (hobject : cfg.IsObject) (key k value : Bytes) :
    (cfg.setUnlessEmpty key value).value k =
      if k = key ∧ value ≠ [] then .ok value else cfg.value k := by
  obtain ⟨fields, rfl⟩ := hobject
  by_cases hempty : value = []
  · rw [Json.setUnlessEmpty, if_pos hempty, if_neg fun h => h.2 hempty]
  · rw [Json.setUnlessEmpty, if_neg hempty]
    rw [Json.value_set]
    by_cases hkey : k = key
    · rw [if_pos hkey, if_pos ⟨hkey, hempty⟩]
    · rw [if_neg hkey, if_neg fun h => hkey h.1]

theorem value_mergeDefaults (hobject : cfg.IsObject) (key : Bytes) :
    (mergeDefaults cfg defaults).value key =
      if key = ascii "profile" ∧ defaults.profile ≠ [] then .ok defaults.profile
      else if key = ascii "account" ∧ defaults.account ≠ [] then .ok defaults.account
      else if key = ascii "endpoint" ∧ defaults.endpoint ≠ [] then .ok defaults.endpoint
      else cfg.value key := by
  have hendpoint := isObject_setUnlessEmpty hobject (ascii "endpoint") defaults.endpoint
  have haccount := isObject_setUnlessEmpty hendpoint (ascii "account") defaults.account
  rw [mergeDefaults, value_setUnlessEmpty haccount, value_setUnlessEmpty hendpoint,
    value_setUnlessEmpty hobject]

/-- Defaults that are merged into a configuration come before what it holds. -/
theorem completes_mergeDefaults (hobject : cfg.IsObject)
    (h : cfg.Completes (signer.over defaults) stored) :
    (mergeDefaults cfg defaults).Completes signer (defaults.over stored) := by
  have hother : ascii "endpoint" ≠ ascii "profile" ∧ ascii "endpoint" ≠ ascii "account" ∧
      ascii "account" ≠ ascii "profile" := by decide
  constructor
  · intro hsigner
    rw [value_mergeDefaults hobject, if_neg (fun h => hother.1 h.1), if_neg (fun h => hother.2.1 h.1)]
    by_cases hempty : defaults.endpoint = []
    · have hvalue := h.endpoint (by simp [SignerTuple.over, hsigner, hempty])
      rw [if_neg fun h => h.2 hempty, hvalue, SignerTuple.over, if_pos hempty]
    · rw [if_pos ⟨rfl, hempty⟩, SignerTuple.over, if_neg hempty]
  · intro hsigner
    rw [value_mergeDefaults hobject, if_neg (fun h => hother.2.2 h.1)]
    by_cases hempty : defaults.account = []
    · have hvalue := h.account (by simp [SignerTuple.over, hsigner, hempty])
      rw [if_neg fun h => h.2 hempty, if_neg fun h => hother.2.1 h.1.symm, hvalue, SignerTuple.over]
      dsimp only
      rw [if_pos hempty]
    · rw [if_pos ⟨rfl, hempty⟩, SignerTuple.over]
      dsimp only
      rw [if_neg hempty]
  · intro hsigner
    rw [value_mergeDefaults hobject]
    by_cases hempty : defaults.profile = []
    · have hvalue := h.profile (by simp [SignerTuple.over, hsigner, hempty])
      rw [if_neg fun h => h.2 hempty, if_neg fun h => hother.2.2 h.1.symm,
        if_neg fun h => hother.1 h.1.symm, hvalue, SignerTuple.over]
      dsimp only
      rw [if_pos hempty]
    · rw [if_pos ⟨rfl, hempty⟩, SignerTuple.over]
      dsimp only
      rw [if_neg hempty]

end Stored

/-! ## What `config` does -/

/-- A text that was written for these defaults over what was there before, and what `sign`
makes of it. -/
structure SavedFor (env : LoginEnv) (args : List Bytes) (config : Option Bytes) (text : Bytes)
    (s' : AuthState) (defaults : SignerTuple) (before written : Json) : Prop where
  named : ∃ options, parseConfigArgs .default args = .ok options ∧ options.defaults = .ok defaults
  held : ConfigHeld env.json config before
  merged : Merged before defaults written
  dumped : env.json.dump written = .ok text
  /-- If the library reads what it has written, a later `sign` takes what its arguments leave out
  from the defaults, and what these leave out from what was there. -/
  found : env.json.extract text = .ok written →
    ∀ signer stored, before.Completes (signer.over defaults) stored →
      fillSigner env.toAuthEnv s'.config signer = (.ok (), signer.over (defaults.over stored))

/-- What `config` from the files `cache` and `config` does to them. -/
structure Configured (env : LoginEnv) (args : List Bytes) (cache config : Option Bytes)
    (outcome : Except Bytes Int) (s' : AuthState) : Prop where
  /-- Nobody is asked. -/
  quiet : ∀ event ∈ s'.log, event.Quiet ∨ ∃ text, event = .wroteConfig text
  cache : s'.cache = cache
  kept : (∀ text, .wroteConfig text ∉ s'.log) → s'.config = config
  saved : ∀ text, .wroteConfig text ∈ s'.log → outcome = .ok 0 ∧ s'.config = some text ∧
    ∃ defaults before written, SavedFor env args config text s' defaults before written

section Configured

variable {env : LoginEnv} {args : List Bytes} {cache config : Option Bytes}
  {outcome : Except Bytes Int} {s' : AuthState}

/-- A run that leaves the files alone. -/
theorem configured_of_leavesFiles (h : LeavesFiles ⟨cache, config, []⟩ s') :
    Configured env args cache config outcome s' := by
  obtain ⟨hcache, hconfig, events, hlog, hquiet⟩ := h
  rw [List.nil_append] at hlog
  subst hlog
  exact ⟨fun event hevent => .inl (hquiet event hevent), hcache, fun _ => hconfig,
    fun text hmem => (hquiet _ hmem).elim⟩

/-- What the command saves, it saves whole, with a note behind it. -/
theorem ends_save {defaults : SignerTuple} {options : LoginOptions}
    (hsome : ¬ (defaults.endpoint = [] ∧ defaults.account = [] ∧ defaults.profile = []))
    (hparse : parseConfigArgs .default args = .ok options) (hdefaults : options.defaults = .ok defaults) :
    Ends (saveSigningDefaults env defaults >>= fun _ => (pure 0 : AuthProgram Int))
      ⟨cache, config, []⟩ (fun code s' => Configured env args cache config (.ok code) s')
      fun what s' => Configured env args cache config (.error what) s' := by
  have hsame : LeavesFiles ⟨cache, config, []⟩ ⟨cache, config, []⟩ := refl_of LeavesFiles _
  rw [ends_bind, saveSigningDefaults, if_neg hsome]
  refine ends_lift_bind (fun dir hdir => ?_) fun _ => configured_of_leavesFiles hsame
  rw [ends_bind, ends_current]
  refine ends_lift_bind (fun text hdump => ?_) fun _ => configured_of_leavesFiles hsame
  split
  · exact configured_of_leavesFiles hsame
  · rw [ends_bind, ends_change, record, ends_change, ends_pure]
    have hmem : ∀ event : AuthEvent, event ∈ ([] ++ [.wroteConfig text] ++
        [.told (ascii "Saved signing defaults to " ++ dir ++ ascii "/config.json\n")] :
          List AuthEvent) → event = .wroteConfig text ∨ event.Quiet := by
      intro event hevent
      simp only [List.nil_append, List.cons_append, List.mem_cons, List.not_mem_nil, or_false] at hevent
      rcases hevent with rfl | rfl
      · exact .inl rfl
      · exact .inr trivial
    refine ⟨fun event hevent => ?_, rfl, fun hnone => ?_, fun other hother => ?_⟩
    · rcases hmem event hevent with rfl | hquiet
      · exact .inr ⟨text, rfl⟩
      · exact .inl hquiet
    · exact absurd (by simp [AuthState.record]) (hnone text)
    · rcases hmem _ hother with heq | hquiet
      · cases heq
        have hobject := @readConfig_isObject env.json config
        refine ⟨rfl, rfl, defaults, _, _, ⟨options, hparse, hdefaults⟩, configHeld_iff.mpr rfl,
          merged_mergeDefaults hobject defaults, hdump, ?_⟩
        intro hextract signer stored hstored
        exact fillSigner_completes hdir hextract (completes_mergeDefaults hobject hstored)
      · exact hquiet.elim

/-- `config` asks nobody and leaves the token cache alone. Where it writes the configuration it
returns 0, and `sign` fills in from the file what its arguments leave out: from the defaults first,
then from what the file held before. -/
theorem configMain_configured (env : LoginEnv) (args : List Bytes) (cache config : Option Bytes) :
    Configured env args cache config (configMain env args ⟨cache, config, []⟩).1
      (configMain env args ⟨cache, config, []⟩).2 := by
  refine (ends_outcome (P := fun outcome s' => Configured env args cache config outcome s')).mp ?_
  have hquiet : ∀ m : AuthProgram Int, Moves LeavesFiles m → Ends m ⟨cache, config, []⟩
      (fun code s' => Configured env args cache config (.ok code) s')
      fun what s' => Configured env args cache config (.error what) s' :=
    fun m hm => (hm _).mono (fun _ _ => configured_of_leavesFiles) fun _ _ => configured_of_leavesFiles
  unfold configMain
  split
  next =>
    exact hquiet _ ((moves_lift _).bind fun _ => (leavesFiles_record (by trivial)).bind fun _ =>
      moves_pure _)
  next => exact hquiet _ ((leavesFiles_record (by trivial)).bind fun _ => moves_pure _)
  next options hparse =>
    split
    next => exact hquiet _ ((leavesFiles_record (by trivial)).bind fun _ => moves_pure _)
    next defaults hdefaults =>
      split
      next => exact hquiet _ ((leavesFiles_record (by trivial)).bind fun _ => moves_pure _)
      next hsome => exact ends_save hsome hparse hdefaults

end Configured

end AasSign
