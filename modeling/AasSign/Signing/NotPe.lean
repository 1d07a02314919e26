import AasSign.Msi.Spared
import AasSign.Signing.PeDecision
import AasSign.Signing.SigningRules

/-! # Payloads that are not images

Two recognizers decide what is an image: a look at the first two octets before the
callback, and the headers inside it, where anything unexpected is an exception.
Contents without those octets pass through a recursive run; contents that have
them and are no image end it.
-/

namespace AasSign

open Foundation Program

/-- There is no "MZ" at the front, or no PE signature where the headers put it. -/
def NotPe (file : Bytes) : Prop :=
  ¬ (file.take 2 = dosMagic ∧ 64 ≤ file.length ∧ OccursAt peMagic file (le32 file 60))

section Recognizers

variable {file : Bytes}

theorem PeHeader.Says.not_notPe {header : PeHeader} (h : header.Says file) : ¬ NotPe file :=
  fun hnot => hnot ⟨h.dos, h.long, h.pe ▸ h.magic⟩

theorem NotPe.throws (h : NotPe file) (path : Path) : Throws (peHasSignature path file) := by
  apply peHasSignature_safe.throws
  intro answer hok
  have hanswer := peHasSignature_eq_ok.mp hok
  cases answer with
  | false =>
      obtain ⟨header, hheader, -⟩ := hanswer
      exact hheader.not_notPe h
  | true =>
      obtain ⟨header, hheader, -⟩ := hanswer
      exact hheader.not_notPe h

theorem peCandidate_iff : peCandidate file = true ↔ file.take 2 = dosMagic :=
  decide_eq_true_iff

end Recognizers

/-! ## One payload -/

section Visit

variable {env : Env} {sha256 : Bytes → Digest} {options : SigningOptions} {workspace : Nat}
  {container : MsiStream} {path : Path} {name file : Bytes} {s : Rewrite} {w : World}

theorem ends_readFile_calm {Q : Bytes → World → Prop} {E : Exn → World → Prop}
    (hfile : w.files path = some file) (hQ : Q file w.tick) :
    Ends (readFile calmEnv path) w Q E :=
  ends_readFile_of hfile (fun _ => hQ) fun _ hfails => nomatch hfails

/-- Contents that only look like an image end the run. -/
theorem NotPe.stops (hnot : NotPe file) (hfile : s.world.files path = some file)
    (hcandidate : file.take 2 = dosMagic) :
    Ends (sign calmEnv workspace (signIfUnsigned calmEnv sha256 options) container path name) s
      (fun _ _ => False) fun e _ => e.Thrown := by
  obtain ⟨what, hwhat⟩ := hnot.throws path
  rw [sign, ends_bind, ends_onWorld]
  apply ends_readFile_calm hfile
  rw [if_pos (peCandidate_iff.mpr hcandidate), ends_bind, ends_onWorld]
  apply ends_readFile_calm (w := s.world.tick) hfile
  rw [ends_bind, ends_note, ends_bind, ends_onWorld, signIfUnsigned, ends_bind, inspectPe, ends_bind]
  apply ends_readFile_calm (w := s.world.tick.tick) hfile
  rw [ends_lift, hwhat]
  exact trivial

end Visit

/-! ## Recursive signing -/

section Recursive

variable {env : Env} {lib : MsiLibrary} {sha256 : Bytes → Digest} {options : SigningOptions}
  {staged path : Path} {w : World} {plan : Plan} {s : Rewrite} {file : Bytes}

theorem signIfUnsigned_confined :
    (signIfUnsigned env sha256 (payloadOptions options)).Confined := by
  intro path name
  have hmoves : Moves (Frame (· = path) (Event.On fun _ => True))
      (signIfUnsigned env sha256 (payloadOptions options) path name) :=
    moves_signIfUnsigned (fun _ _ => trivial) ⟨rfl, trivial⟩ rfl
  exact hmoves.mono fun _ _ hframe => hframe.mono (fun _ => id) fun _ _ => trivial

/-- The callback of `sign_file` changes its own payload, and none that it preserves. -/
theorem signIfUnsigned_honest : (signIfUnsigned env sha256 (payloadOptions options)).Honest := by
  refine ⟨signIfUnsigned_confined, fun path name w => ?_⟩
  rw [signIfUnsigned, ends_bind, inspectPe, ends_bind]
  apply ends_readFile
  swap
  · exact fun _ => trivial
  intro file _
  apply ends_lift_of
  swap
  · exact fun _ => trivial
  intro signed _
  cases signed with
  | true =>
      rw [if_pos rfl, ends_bind]
      exact ends_log (fun _ => rfl) fun _ => trivial
  | false =>
      rw [if_neg Bool.false_ne_true, ends_bind]
      apply ends_log ?_ fun _ => trivial
      rw [ends_bind]
      exact ends_of_forall (fun _ _ htrue => absurd htrue.symm Bool.false_ne_true) fun _ _ => trivial

/-- The payload that holds the contents is not acted on when its turn comes. Every
recursive run leaves it as it was, on disk and in the installer, and none fails because
of it. -/
structure PassesUntouched (file : Bytes) : Prop where
  visit : ∀ env sha256 options workspace container path name s, s.world.files path = some file →
    Passes env (signIfUnsigned env sha256 (payloadOptions options)) workspace container path name s
  run : ∀ env lib sha256 options staged w plan s path, lib.Inverse →
    preflightRun env lib staged w = (.ok plan, s) → path ∈ plan.paths →
    s.world.files path = some file →
    Ends (rewriteMsiPayload env lib staged (signIfUnsigned env sha256 (payloadOptions options)))
      (.start w) (fun result s' => PassedOver lib staged w plan path file result s') fun e s' =>
        FailedElsewhere env lib staged w (signIfUnsigned env sha256 (payloadOptions options)) plan path
          s e s'

/-- The filter before the callback and the inspector inside it agree on the contents. -/
def RecognizersAgree (file : Bytes) : Prop :=
  ∀ path, peCandidate file = true → ¬ Throws (peHasSignature path file)

/-- A world with one file. -/
def World.only (path : Path) (file : Bytes) (hpath : ¬ path.IsTemp) : World where
  files other := if other = path then some file else none
  nextDir := 0
  clock := 0
  trace := []
  unmade := by
    intro dir name _
    rw [if_neg]
    rintro rfl
    exact hpath trivial

def plainOptions : SigningOptions where
  osslsigncode := []
  timestampUrl := []
  dumpCms := []
  caBundle := []
  noTimestamp := true
  msiDse := false
  recursive := true
  insecure := false

def zeroDigest (_ : Bytes) : Digest := ⟨List.replicate 32 0, rfl⟩

theorem NotPe.not_passes (hnot : NotPe file) (hcandidate : file.take 2 = dosMagic) :
    ¬ PassesUntouched file := by
  intro hpasses
  have hfile : (Rewrite.start (.only (.user []) file id)).world.files (.user []) = some file := by
    simp [Rewrite.start, World.only]
  have hvisit := (hpasses.visit calmEnv zeroDigest plainOptions 0 (.binary []) _ [] _ hfile).and
    (hnot.stops hfile hcandidate)
  unfold Ends at hvisit
  split at hvisit
  · exact hvisit.2
  · -- Nothing fails outside, so the exception is the inspector's.
    obtain ⟨⟨-, what, hwhat, -⟩, -⟩ := hvisit
    cases hwhat

/-- An installer, as far as its first octets tell. -/
def sampleInstaller : World :=
  .only (.user (ascii "a.msi")) compoundMagic id

end Recursive

end AasSign
