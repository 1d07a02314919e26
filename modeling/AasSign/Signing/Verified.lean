import AasSign.Signing.SigningRules

/-! # Verified files

A file replaces another one only after the companion has extracted its signature
and its data again. What these questions and their answers were is in the trace.
-/

namespace AasSign

open Foundation Program

/-- The event happened between the two worlds. -/
def Adds (event : Event) (w w' : World) : Prop :=
  ∃ events, w'.trace = w.trace ++ events ∧ event ∈ events

/-- The companion did what it was asked to do with a file, and left the contents. -/
def Answered (command : String) (input output : Option Bytes) (w w' : World) : Prop :=
  ∃ args result, args.head? = some (arg command) ∧ result.exitCode = 0 ∧
    Adds (.companion args input (.ok result) output) w w'

/-- The signature of the file has a signer, and signs what is extracted from the file. -/
def Rechecked (w w' : World) (file : Option Bytes) (indirectData : Bytes) : Prop :=
  (∃ cms, Answered "extract-signature" file (some cms) w w' ∧ cmsHasSigner cms = .ok true ∧
    cmsExtractIndirectData cms = .ok indirectData) ∧
  ∃ content, Answered "extract-data" file (some content) w w' ∧
    cmsExtractIndirectData content = .ok indirectData

/-- The signer has signed the hash of the attributes over the indirect data. -/
def SignedOver (sha256 : Bytes → Digest) (w w' : World) (indirectData : Bytes) : Prop :=
  ∃ digest result, cmsAuthAttrsHash sha256 indirectData = .ok digest ∧
    Adds (.digestSigned digest.1 (.ok result)) w w'

/-- The file is what was signed in this run. -/
def Verified (sha256 : Bytes → Digest) (w w' : World) (file : Bytes) : Prop :=
  ∃ indirectData, SignedOver sha256 w w' indirectData ∧ Rechecked w w' (some file) indirectData

section Adds

variable {event : Event} {may : Path → Prop} {emits : Event → Prop} {w w' w₀ w₁ : World}
  {command : String} {input output : Option Bytes} {indirectData : Bytes} {sha256 : Bytes → Digest}
  {file : Bytes}

theorem Frame.grows (h : Frame may emits w w') : w.trace <+: w'.trace := by
  obtain ⟨events, htrace, -⟩ := h.trace
  exact ⟨events, htrace.symm⟩

theorem Adds.between (h : Adds event w w') (hbefore : w₀.trace <+: w.trace)
    (hafter : w'.trace <+: w₁.trace) : Adds event w₀ w₁ := by
  obtain ⟨events, htrace, hevent⟩ := h
  obtain ⟨before, hbefore⟩ := hbefore
  obtain ⟨after, hafter⟩ := hafter
  refine ⟨before ++ events ++ after, ?_, by simp [hevent]⟩
  rw [← hafter, htrace, ← hbefore]
  simp only [List.append_assoc]

theorem Answered.between (h : Answered command input output w w')
    (hbefore : w₀.trace <+: w.trace) (hafter : w'.trace <+: w₁.trace) :
    Answered command input output w₀ w₁ := by
  obtain ⟨args, result, hcommand, hexit, hadds⟩ := h
  exact ⟨args, result, hcommand, hexit, hadds.between hbefore hafter⟩

theorem Rechecked.between (h : Rechecked w w' input indirectData)
    (hbefore : w₀.trace <+: w.trace) (hafter : w'.trace <+: w₁.trace) :
    Rechecked w₀ w₁ input indirectData := by
  obtain ⟨⟨cms, hsignature, hcms⟩, content, hdata, hcontent⟩ := h
  exact ⟨⟨cms, hsignature.between hbefore hafter, hcms⟩, content,
    hdata.between hbefore hafter, hcontent⟩

theorem SignedOver.between (h : SignedOver sha256 w w' indirectData)
    (hbefore : w₀.trace <+: w.trace) (hafter : w'.trace <+: w₁.trace) :
    SignedOver sha256 w₀ w₁ indirectData := by
  obtain ⟨digest, result, hdigest, hadds⟩ := h
  exact ⟨digest, result, hdigest, hadds.between hbefore hafter⟩

theorem Verified.between (h : Verified sha256 w w' file)
    (hbefore : w₀.trace <+: w.trace) (hafter : w'.trace <+: w₁.trace) :
    Verified sha256 w₀ w₁ file := by
  obtain ⟨indirectData, hsigned, hrechecked⟩ := h
  exact ⟨indirectData, hsigned.between hbefore hafter, hrechecked.between hbefore hafter⟩

end Adds

/-! ## The companion -/

section Checks

variable {env : Env} {sha256 : Bytes → Digest} {options : SigningOptions} {enhanced : Bool}
  {work : Nat} {ext : Bytes} {source output path : Path} {command : String} {args : List Arg}
  {w : World} {indirectData : Bytes} {kind : Kind}

/-- What a successful command leaves. -/
def World.answered (w : World) (args : List Arg) (source output : Path) (result : ProcessResult)
    (left : Option Bytes) : World :=
  ((w.set output left).record
    (.companion args (w.files source) (.ok result) ((w.set output left).files output))).tick

theorem checked_ends (hin : fileAfter (arg "-in") (arg command :: args) = some source)
    (hout : fileAfter (arg "-out") (arg command :: args) = some output) :
    Ends (checked env options command args) w (fun _ w' => ∃ result left,
      result.exitCode = 0 ∧ w' = w.answered (arg command :: args) source output result left)
      fun _ _ => True := by
  rw [checked, ends_bind]
  have hrun : Ends (invoke env options (arg command :: args)) w (fun result w' => ∃ left,
      w' = w.answered (arg command :: args) source output result left) fun _ _ => True := by
    unfold Ends invoke runProcess
    simp only [hin, hout, Option.bind_some]
    cases hresult : (env.companion w.clock options.osslsigncode (arg command :: args) w.files).result with
    | error what => exact trivial
    | ok result => exact ⟨_, rfl⟩
  apply hrun.mono
  swap
  · exact fun _ _ _ => trivial
  rintro result _ ⟨left, rfl⟩
  apply ends_lift_of
  swap
  · exact fun _ => trivial
  intro _ hexit
  rw [throwIf_eq_ok, not_not] at hexit
  exact ⟨result, left, hexit, rfl⟩

theorem World.answered_adds {result : ProcessResult} {left : Option Bytes} :
    Adds (.companion args (w.files source) (.ok result)
      ((w.answered args source output result left).files output)) w
      (w.answered args source output result left) :=
  ⟨_, rfl, List.mem_singleton_self _⟩

theorem World.files_answered_ne {result : ProcessResult} {left : Option Bytes} (h : path ≠ output) :
    (w.answered args source output result left).files path = w.files path :=
  World.files_set_ne h

/-- A command on one file that leaves another one. -/
theorem checked_answers (hin : fileAfter (arg "-in") (arg command :: args) = some source)
    (hout : fileAfter (arg "-out") (arg command :: args) = some output) :
    Ends (checked env options command args) w (fun _ w' =>
      Answered command (w.files source) (w'.files output) w w' ∧ w.trace <+: w'.trace ∧
      ∀ path, path ≠ output → w'.files path = w.files path) fun _ _ => True := by
  apply (checked_ends hin hout).mono
  · rintro _ _ ⟨result, left, hexit, rfl⟩
    exact ⟨⟨_, result, rfl, hexit, World.answered_adds⟩, ⟨_, rfl⟩,
      fun path => World.files_answered_ne⟩
  · exact fun _ _ => id

theorem ends_readBlob {Q : Bytes → World → Prop} {E : Exn → World → Prop}
    (hQ : ∀ data, w.files path = some data → Q data w.tick) (hE : ∀ e, E e w.tick) :
    Ends (readBlob env path) w Q E := by
  rw [readBlob, ends_bind]
  apply ends_readFile
  · exact fun data hdata => ends_lift_bind (fun _ _ => hQ data hdata) hE
  · exact fun _ => hE _

theorem extractData_answers :
    Ends (extractData env options enhanced source output) w (fun indirectData w' =>
      (∃ content, Answered "extract-data" (w.files source) (some content) w w' ∧
        cmsExtractIndirectData content = .ok indirectData) ∧ w.trace <+: w'.trace ∧
      ∀ path, path ≠ output → w'.files path = w.files path) fun _ _ => True := by
  have hin : fileAfter (arg "-in") (arg "extract-data" :: formatArgs enhanced
      [arg "-in", .file source, arg "-out", .file output]) = some source := by
    cases enhanced <;> rfl
  have hout : fileAfter (arg "-out") (arg "extract-data" :: formatArgs enhanced
      [arg "-in", .file source, arg "-out", .file output]) = some output := by
    cases enhanced <;> rfl
  rw [extractData]
  apply (checked_answers hin hout).bind
  intro _ w₁ ⟨hanswered, hgrows, hfiles⟩
  rw [ends_bind]
  apply ends_readBlob
  · intro content hcontent
    apply ends_lift_of
    · intro indirectData hdata
      rw [hcontent] at hanswered
      exact ⟨⟨content, hanswered, hdata⟩, hgrows, hfiles⟩
    · exact fun _ => trivial
  · exact fun _ => trivial

/-- The name differs in its first letter from those of the files for the checks. -/
theorem SignedOutput.ne {name : Bytes} (h : SignedOutput work ext path)
    (hname : name.head? = some 102 ∨ name.head? = some 114) : path ≠ .temp work name := by
  rintro rfl
  cases h <;> simp [ascii] at hname

theorem verify_ends (houtput : SignedOutput work ext output) :
    Ends (verify env options enhanced work output indirectData) w (fun _ w' =>
      Rechecked w w' (w.files output) indirectData ∧ w'.files output = w.files output)
      fun _ _ => True := by
  rw [verify]
  apply (checked_answers rfl rfl).bind
  intro _ w₁ ⟨hsignature, hgrows₁, hfiles₁⟩
  have hsame₁ : w₁.files output = w.files output := hfiles₁ output (houtput.ne (.inl rfl))
  rw [ends_bind]
  apply ends_readBlob
  swap
  · exact fun _ => trivial
  intro cms hcms
  refine ends_lift_bind (fun signer hcmsSigner => ?_) fun _ => trivial
  refine ends_lift_bind (fun _ hsome => ?_) fun _ => trivial
  refine ends_lift_bind (fun found hfound => ?_) fun _ => trivial
  refine ends_lift_bind (fun _ hsigned => ?_) fun _ => trivial
  apply extractData_answers.bind
  intro again w₂ ⟨⟨content, hdata, hagain⟩, hgrows₂, hfiles₂⟩
  refine ends_lift_bind (fun _ hsame => ?_) fun _ => trivial
  have hsigner : signer = true := by simpa [throwIf_eq_ok] using hsome
  rw [throwIf_eq_ok, not_not] at hsigned hsame
  subst hsigner hsigned hsame
  rw [hcms] at hsignature
  rw [World.files_tick, hsame₁] at hdata
  exact ⟨⟨⟨cms, hsignature.between (List.prefix_refl _) hgrows₂, hcmsSigner, hfound⟩,
    content, hdata.between hgrows₁ (List.prefix_refl _), hagain⟩,
    (hfiles₂ output (houtput.ne (.inr rfl))).trans hsame₁⟩

theorem ends_signDigest {digest : Bytes} :
    Ends (signDigest env digest) w
      (fun result w' => w' = (w.record (.digestSigned digest (.ok result))).tick)
      fun _ _ => True := by
  unfold Ends signDigest
  cases env.signDigest w.clock digest with
  | error what => exact trivial
  | ok result => exact rfl

end Checks

/-! ## A signing in its workspace -/

section Signing

variable {env : Env} {sha256 : Bytes → Digest} {options : SigningOptions} {enhanced : Bool}
  {work : Nat} {ext : Bytes} {source path : Path} {w : World} {indirectData : Bytes} {kind : Kind}

/-- Files change, and events are added. -/
abbrev Later : World → World → Prop := Frame (fun _ => True) (Event.On fun _ => True)

theorem attach_signs :
    Ends (attach env sha256 options enhanced work ext source indirectData) w
      (fun _ w' => SignedOver sha256 w w' indirectData) fun _ _ => True := by
  rw [attach]
  refine ends_lift_bind (fun digest hdigest => ?_) fun _ => trivial
  rw [ends_bind]
  apply ends_log
  swap
  · exact fun _ => trivial
  apply ends_signDigest.bind
  rintro result _ rfl
  have hsigned : SignedOver sha256 w
      (w.tick.record (.digestSigned digest.1 (.ok result))).tick indirectData :=
    ⟨digest, result, hdigest, _, rfl, List.mem_singleton_self _⟩
  refine (Moves.ends (R := Later) ?_ _).mono
    (fun _ _ hlater => hsigned.between (List.prefix_refl _) hlater.grows) fun _ _ _ => trivial
  exact (moves_lift _).bind fun _ => (moves_writeFile trivial).bind fun _ =>
    (moves_checked fun _ _ => ⟨trivial, trivial⟩).bind fun _ => moves_pure _

/-- What replaces the file has been signed, and checked since. -/
theorem signIn_ends (hpath : w.Holds path) :
    Ends (signIn env sha256 path kind options work) w
      (fun _ w' => ∃ file, w'.files path = some file ∧ Verified sha256 w w' file)
      fun _ _ => True := by
  have hany : ∀ path : Path, path.In work → Given (fun _ => True) (fun _ => True) path :=
    fun _ _ => ⟨trivial, trivial⟩
  have hunsigned : Moves Later (unsignedSource env path kind options work) :=
    (yields_unsignedSource hany ⟨trivial, trivial⟩).moves
  have hextract (source : Path) :
      Moves Later (extractData env options (decide (kind = .msi) && options.msiDse) source
        (.temp work (ascii "content.der"))) :=
    moves_extractData ⟨trivial, trivial⟩ ⟨trivial, trivial⟩
  have hattach (source : Path) (indirectData : Bytes) :
      Yields Later (SignedOutput work (extension path)) (attach env sha256 options
        (decide (kind = .msi) && options.msiDse) work (extension path) source indirectData) :=
    yields_attach hany ⟨trivial, trivial⟩
  have htimestamp {signed : Path} (hsigned : SignedOutput work (extension path) signed) :
      Yields Later (SignedOutput work (extension path)) (timestamp env options
        (decide (kind = .msi) && options.msiDse) work (extension path) signed) :=
    yields_timestamp hany hsigned
  have hverify {output : Path} (houtput : SignedOutput work (extension path) output)
      (indirectData : Bytes) : Moves Later (verify env options
        (decide (kind = .msi) && options.msiDse) work output indirectData) :=
    moves_verify hany (houtput.given hany)
  rw [signIn]
  refine hunsigned.bind_ends (fun source w₁ h₁ => ?_) fun _ _ _ => trivial
  refine (hextract source).bind_ends (fun indirectData w₂ h₂ => ?_) fun _ _ _ => trivial
  apply (attach_signs.both (hattach source indirectData w₂)).bind
  intro signed w₃ ⟨hsigned, h₃, houtput⟩
  refine (htimestamp houtput).bind_ends (fun output w₄ h₄ houtput => ?_) fun _ _ _ => trivial
  apply ((verify_ends houtput).both (hverify houtput indirectData w₄)).bind
  intro finalCms w₅ ⟨⟨hrechecked, hsame⟩, h₅⟩
  -- Events are only ever added, so what the earlier steps noted is still there.
  have hlater : Later w w₅ :=
    trans_of Later (trans_of Later (trans_of Later h₁ h₂) (trans_of Later h₃ h₄)) h₅
  have hverified {file : Bytes} (hfile : w₅.files output = some file) :
      Verified sha256 w w₅ file := by
    refine ⟨indirectData, ?_, ?_⟩
    · exact hsigned.between (h₁.grows.trans h₂.grows) (h₄.grows.trans h₅.grows)
    · rw [hsame.symm.trans hfile] at hrechecked
      exact hrechecked.between (h₁.grows.trans (h₂.grows.trans (h₃.grows.trans h₄.grows)))
        (List.prefix_refl _)
  have hreplace {w₆ : World} (h₆ : Later w₅ w₆) (hfiles : w₆.files output = w₅.files output) :
      Ends (atomicReplaceFile env output path) w₆
        (fun _ w' => ∃ file, w'.files path = some file ∧ Verified sha256 w w' file)
        fun _ _ => True := by
    apply ends_atomicReplaceFile
    · intro file hfile _ hne
      have hholds : w₆.Holds path := (hpath.mono hlater.nextDir).mono h₆.nextDir
      exact ⟨file, World.files_replace_self hfile hholds hne,
        (hverified (hfiles.symm.trans hfile)).between (List.prefix_refl _)
          (h₆.grows.trans ⟨_, rfl⟩)⟩
    · exact fun _ => trivial
    · exact fun _ _ => trivial
  -- The dump may be any file of the user, never the output in the workspace.
  have htemp : output ≠ .user options.dumpCms := by
    cases houtput <;> exact Path.noConfusion
  split
  · rw [ends_bind]
    apply ends_writeFile
    · exact fun _ => hreplace (Frame.set trivial).tick (World.files_set_ne htemp)
    · exact fun _ _ => trivial
  · exact hreplace (refl_of Later w₅) rfl

/-- Signing a staged copy leaves it verified. -/
theorem signStaged_ends (hpath : w.Holds path) :
    Ends (signStaged env sha256 path kind options) w
      (fun _ w' => ∃ file, w'.files path = some file ∧ Verified sha256 w w' file)
      fun _ _ => True := by
  rw [signStaged, withTempDir, ends_bind]
  apply ends_attempt
  swap
  · exact fun _ => trivial
  rw [ends_bind, ends_current, ends_bind, ends_change, ends_cleanly]
  apply (signIn_ends (hpath.mono (Nat.le_succ _))).mono
  swap
  · exact fun _ _ _ => trivial
  rintro _ w' ⟨file, hfile, hverified⟩
  refine ⟨file, ?_, hverified.between (List.prefix_refl _) (World.trace_endDir ▸ List.prefix_refl _)⟩
  exact (World.files_endDir (World.not_in_nextDir hpath)).trans hfile

end Signing

end AasSign
