import AasSign.Platform.FileRules
import AasSign.Signing.SignFile

/-! # What signing touches

Signing a staged file changes that file and what is in its own workspace, and the
companion is given files in temporary directories only. The signature may be kept
in one file that the user names.
-/

namespace AasSign

open Foundation Program

/-- The companion is given such files only, and one such file replaces another. -/
def Event.On (ok : Path → Prop) : Event → Prop
  | .companion args _ _ _ => ∀ path, Arg.file path ∈ args → ok path
  | .digestSigned _ _ => True
  | .replaced staged destination => ok staged ∧ ok destination

theorem mem_of_fileAfter {flag : Arg} {args : List Arg} {path : Path}
    (h : fileAfter flag args = some path) : Arg.file path ∈ args := by
  fun_induction fileAfter flag args with
  | case1 other rest =>
      cases h
      simp
  | case2 given other rest hgiven ih =>
      exact List.mem_cons_of_mem _ (List.mem_cons_of_mem _ (ih h))
  | case3 given rest hrest ih => exact List.mem_cons_of_mem _ (ih h)
  | case4 => cases h

theorem Path.In.isTemp {dir : Nat} {path : Path} (h : path.In dir) : path.IsTemp := by
  cases path with
  | user name => exact h
  | temp other name => trivial

/-- The file in the workspace that has been given the signature. -/
inductive SignedOutput (work : Nat) (ext : Bytes) : Path → Prop
  | signed : SignedOutput work ext (.temp work (ascii "signed" ++ ext))
  | timestamped : SignedOutput work ext (.temp work (ascii "timestamped" ++ ext))

section Frames

variable {env : Env} {sha256 : Bytes → Digest} {options : SigningOptions} {may ok : Path → Prop}
  {path source output : Path} {kind : Kind} {enhanced : Bool} {work : Nat} {ext : Bytes}

/-- A file that may be changed and given to the companion. -/
def Given (may ok : Path → Prop) (path : Path) : Prop := may path ∧ ok path

theorem given_temp {name : Bytes} (h : ∀ path : Path, path.In work → Given may ok path) :
    Given may ok (.temp work name) := h _ rfl

theorem SignedOutput.given (h : SignedOutput work ext output)
    (hwork : ∀ path : Path, path.In work → Given may ok path) : Given may ok output := by
  cases h with
  | signed => exact given_temp hwork
  | timestamped => exact given_temp hwork

theorem moves_invoke {args : List Arg} (h : ∀ path, Arg.file path ∈ args → Given may ok path) :
    Moves (Frame may (Event.On ok)) (invoke env options args) :=
  moves_runProcess (fun path hpath => (h path (mem_of_fileAfter hpath)).1)
    fun _ _ _ path hpath => (h path hpath).2

theorem moves_checked {command : String} {args : List Arg}
    (h : ∀ path, Arg.file path ∈ args → Given may ok path) :
    Moves (Frame may (Event.On ok)) (checked env options command args) := by
  refine (moves_invoke fun path hpath => ?_).bind fun _ => moves_lift _
  simp only [List.mem_cons, arg, reduceCtorEq, false_or] at hpath
  exact h path hpath

theorem mem_formatArgs {args : List Arg} :
    Arg.file path ∈ formatArgs enhanced args ↔ Arg.file path ∈ args := by
  cases enhanced <;> simp [formatArgs, arg]

theorem moves_readBlob {emits : Event → Prop} : Moves (Frame may emits) (readBlob env path) :=
  moves_readFile.bind fun _ => (moves_lift _).bind fun _ => moves_pure _

/-- The companion is given an input and an output. -/
theorem given_inOut (hsource : Given may ok source) (houtput : Given may ok output) :
    ∀ path, Arg.file path ∈ [arg "-in", .file source, arg "-out", .file output] →
      Given may ok path := by
  simp only [arg, List.mem_cons, reduceCtorEq, Arg.file.injEq, List.not_mem_nil, or_false, false_or]
  rintro path (rfl | rfl)
  · exact hsource
  · exact houtput

theorem moves_extractExisting (hpath : Given may ok path) (houtput : Given may ok output) :
    Moves (Frame may (Event.On ok)) (extractExisting env path output kind options) := by
  refine (moves_invoke fun other hother => ?_).bind fun result => moves_ite (fun _ => ?_) fun _ => ?_
  · exact given_inOut hpath houtput other (by simpa [arg] using hother)
  · exact moves_readBlob.bind fun _ => (moves_lift _).bind fun _ => (moves_lift _).bind fun _ =>
      moves_pure _
  · exact (moves_lift _).bind fun _ => moves_pure _

variable (hwork : ∀ path : Path, path.In work → Given may ok path)

include hwork

theorem yields_unsignedSource (hpath : Given may ok path) :
    Yields (Frame may (Event.On ok)) (Given may ok) (unsignedSource env path kind options work) := by
  refine (moves_extractExisting hpath (given_temp hwork)).yields.bind fun signedInput _ => ?_
  cases signedInput with
  | true =>
      exact (moves_checked (given_inOut hpath (given_temp hwork))).yields.bind fun _ _ =>
        yields_pure (given_temp hwork)
  | false => exact yields_pure hpath

omit hwork in
theorem moves_extractData (hsource : Given may ok source) (houtput : Given may ok output) :
    Moves (Frame may (Event.On ok)) (extractData env options enhanced source output) := by
  refine (moves_checked fun path hpath => ?_).bind fun _ => moves_readBlob.bind fun _ => moves_lift _
  exact given_inOut hsource houtput path (mem_formatArgs.mp hpath)

theorem yields_attach {indirectData : Bytes} (hsource : Given may ok source) :
    Yields (Frame may (Event.On ok)) (SignedOutput work ext)
      (attach env sha256 options enhanced work ext source indirectData) := by
  refine (moves_lift _).yields.bind fun digest _ => moves_log.yields.bind fun _ _ =>
    (moves_signDigest fun _ => trivial).yields.bind fun result _ => (moves_lift _).yields.bind
      fun cms _ => (moves_writeFile (given_temp hwork).1).yields.bind fun _ _ =>
        (moves_checked fun path hpath => ?_).yields.bind fun _ _ => yields_pure .signed
  simp only [mem_formatArgs, arg, List.mem_cons, reduceCtorEq, Arg.file.injEq, List.not_mem_nil,
    or_false, false_or] at hpath
  rcases hpath with rfl | rfl | rfl
  · exact given_temp hwork
  · exact hsource
  · exact given_temp hwork

theorem yields_timestamp (houtput : SignedOutput work ext output) :
    Yields (Frame may (Event.On ok)) (SignedOutput work ext)
      (timestamp env options enhanced work ext output) := by
  unfold timestamp
  split
  · exact yields_pure houtput
  · refine moves_log.yields.bind fun _ _ => (moves_checked fun path hpath => ?_).yields.bind
      fun _ _ => yields_pure .timestamped
    have hmem : Arg.file path ∈ [arg "-in", .file output, arg "-out",
        .file (.temp work (ascii "timestamped" ++ ext))] := by
      simpa [mem_formatArgs, arg, apply_ite (Arg.file path ∈ ·)] using hpath
    exact given_inOut (houtput.given hwork) (given_temp hwork) path hmem

theorem moves_verify {indirectData : Bytes} (houtput : Given may ok output) :
    Moves (Frame may (Event.On ok)) (verify env options enhanced work output indirectData) :=
  (moves_checked (given_inOut houtput (given_temp hwork))).bind fun _ => moves_readBlob.bind fun _ =>
    (moves_lift _).bind fun _ => (moves_lift _).bind fun _ => (moves_lift _).bind fun _ =>
      (moves_lift _).bind fun _ => (moves_extractData houtput (given_temp hwork)).bind fun _ =>
        (moves_lift _).bind fun _ => moves_pure _

/-- Signing in a workspace changes the file, the workspace, and the kept signature. -/
theorem moves_signIn (hpath : Given may ok path)
    (hdump : options.dumpCms ≠ [] → may (.user options.dumpCms)) :
    Moves (Frame may (Event.On ok)) (signIn env sha256 path kind options work) := by
  refine (yields_unsignedSource hwork hpath).bind_moves fun source hsource =>
    (moves_extractData hsource (given_temp hwork)).bind fun indirectData =>
      (yields_attach hwork hsource).bind_moves fun signed hsigned =>
        (yields_timestamp hwork hsigned).bind_moves fun output houtput =>
          (moves_verify hwork (houtput.given hwork)).bind fun finalCms => ?_
  have hreplace : Moves (Frame may (Event.On ok)) (atomicReplaceFile env output path) :=
    moves_atomicReplaceFile (houtput.given hwork).1 hpath.1 ⟨(houtput.given hwork).2, hpath.2⟩
  split
  next hkeep => exact (moves_writeFile (hdump hkeep)).bind fun _ => hreplace
  next => exact hreplace

end Frames

section Staged

variable {env : Env} {sha256 : Bytes → Digest} {options : SigningOptions} {may ok : Path → Prop}
  {path : Path} {kind : Kind}

variable (htemp : ∀ path : Path, path.IsTemp → ok path)

include htemp

theorem moves_signStaged (hpath : Given may ok path)
    (hdump : options.dumpCms ≠ [] → may (.user options.dumpCms)) :
    Moves (Frame may (Event.On ok)) (signStaged env sha256 path kind options) :=
  moves_withTempDir fun _ => moves_signIn (fun path hin => ⟨.inr hin, htemp path hin.isTemp⟩)
    ⟨.inl hpath.1, hpath.2⟩
    fun hkeep => .inl (hdump hkeep)

omit htemp in
theorem moves_inspectPe {emits : Event → Prop} : Moves (Frame may emits) (inspectPe env path) :=
  moves_readFile.bind fun _ => moves_lift _

/-- The callback changes the payload it is given. -/
theorem moves_signIfUnsigned {displayName : Bytes} (hpath : Given may ok path)
    (hdump : options.dumpCms = []) :
    Moves (Frame may (Event.On ok)) (signIfUnsigned env sha256 options path displayName) := by
  refine moves_inspectPe.bind fun signed => ?_
  cases signed with
  | true => exact moves_log.bind fun _ => moves_pure _
  | false =>
      exact moves_log.bind fun _ => (moves_signStaged htemp hpath fun h => absurd hdump h).bind fun _ =>
        moves_pure _

end Staged

end AasSign
