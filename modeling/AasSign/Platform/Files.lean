import AasSign.Codec.Text
import AasSign.Foundation.Program

/-! # Files, companion processes and staging

The platform that signing runs on: a map from paths to contents, the temporary
directories made so far, and what the companion and the signer were asked. What
the outside does at each point is given by functions of a clock, so that any
sequence of successes, failures and answers can be met.
-/

namespace AasSign

open Foundation Program

/-- A file: one that the user names, or one in a directory made by `mkdtemp`. -/
inductive Path where
  | user (name : Bytes)
  | temp (dir : Nat) (name : Bytes)
  deriving DecidableEq, Repr

namespace Path

def name : Path → Bytes
  | user name => name
  | temp _ name => name

def IsTemp : Path → Prop
  | user _ => False
  | temp _ _ => True

@[simp] theorem isTemp_temp {dir : Nat} {name : Bytes} : (temp dir name).IsTemp := trivial

@[simp] theorem not_isTemp_user {name : Bytes} : ¬ (user name).IsTemp := id

/-- The file is in the directory. -/
def In (dir : Nat) : Path → Prop
  | user _ => False
  | temp other _ => other = dir

instance (dir : Nat) : DecidablePred (In dir)
  | user _ => inferInstanceAs (Decidable False)
  | temp other _ => inferInstanceAs (Decidable (other = dir))

/-- `path + suffix`. -/
def append (suffix : Bytes) : Path → Path
  | user name => user (name ++ suffix)
  | temp dir name => temp dir (name ++ suffix)

def text (path : Path) : String := latin1 path.name

end Path

/-- `std::filesystem::path::extension`. -/
def fileExtension (name : Bytes) : Bytes :=
  let file := (name.reverse.takeWhile (· ≠ 47)).reverse
  let last := file.reverse.takeWhile (· ≠ 46)
  -- A name without a dot, or with its only dot in front, has no extension.
  if file = [46, 46] ∨ file.length ≤ last.length + 1 then [] else 46 :: last.reverse

def extension (path : Path) : Bytes := (fileExtension path.name).map toLower

/-! ## What the outside can see and do -/

inductive Arg where
  | text (value : Bytes)
  | file (path : Path)
  deriving DecidableEq, Repr

/-- A literal argument. -/
def arg (value : String) : Arg := .text (ascii value)

structure ProcessResult where
  exitCode : Int
  output : Bytes
  deriving DecidableEq, Repr

structure AzureSignResult where
  signature : Bytes
  certChainDer : Bytes
  deriving DecidableEq, Repr

inductive Event where
  | companion (args : List Arg) (input : Option Bytes) (result : Except String ProcessResult)
      (output : Option Bytes)
  | digestSigned (digest : Bytes) (result : Except String AzureSignResult)
  | replaced (staged destination : Path)

structure World where
  files : Path → Option Bytes
  nextDir : Nat
  clock : Nat
  trace : List Event
  /-- A directory that `mkdtemp` has yet to make holds nothing. -/
  unmade : ∀ dir name, nextDir ≤ dir → files (.temp dir name) = none

/-- What a run of the companion does; it changes the file after `-out` only. -/
structure CompanionRun where
  result : Except String ProcessResult
  left : Option Bytes

/-- The sizes of the reads that empty a stream into a buffer of 64 KiB. -/
structure StreamReads (length : Nat) where
  sizes : List Nat
  bounded : ∀ n ∈ sizes, 0 < n ∧ n ≤ 65536
  total : sizes.sum = length

structure Env where
  /-- The operation fails, with a text. -/
  fails : Nat → Option String
  /-- What a failed write makes of the file. -/
  leftover : Nat → Option Bytes → Option Bytes
  /-- A replacement that fails has replaced the file before that. -/
  commits : Nat → Bool
  companion : Nat → Bytes → List Arg → (Path → Option Bytes) → CompanionRun
  signDigest : Nat → Bytes → Except String AzureSignResult
  streamReads : Nat → (length : Nat) → StreamReads length

abbrev Prog := Program World Exn

namespace World

/-- The directory of the file exists. -/
def Holds (w : World) : Path → Prop
  | .user _ => True
  | .temp dir _ => dir < w.nextDir

instance (w : World) : DecidablePred w.Holds
  | .user _ => inferInstanceAs (Decidable True)
  | .temp dir _ => inferInstanceAs (Decidable (dir < w.nextDir))

theorem holds_of_file {w : World} {path : Path} {data : Bytes} (h : w.files path = some data) :
    w.Holds path := by
  cases path with
  | user name => trivial
  | temp dir name =>
      by_contra hdir
      rw [w.unmade dir name (Nat.le_of_not_lt hdir)] at h
      cases h

/-- Give the file its contents, or remove it, if its directory exists. -/
def set (w : World) (path : Path) (contents : Option Bytes) : World :=
  { w with
    files := fun other => if other = path ∧ w.Holds path then contents else w.files other
    unmade := by
      intro dir name hdir
      split
      next h =>
        obtain ⟨rfl, hholds⟩ := h
        exact absurd hholds (Nat.not_lt.mpr hdir)
      next => exact w.unmade dir name hdir }

def tick (w : World) : World := { w with clock := w.clock + 1 }

def record (w : World) (event : Event) : World := { w with trace := w.trace ++ [event] }

def makeDir (w : World) : World :=
  { w with
    nextDir := w.nextDir + 1
    unmade := fun dir name h => w.unmade dir name (Nat.le_of_succ_le h) }

/-- `remove_all` of a directory. -/
def removeDir (w : World) (dir : Nat) : World :=
  { w with
    files := fun other => if other.In dir then none else w.files other
    unmade := by
      intro other name hother
      split
      next => rfl
      next => exact w.unmade other name hother }

section Fields

variable {w : World} {path other : Path} {contents : Option Bytes} {event : Event} {dir : Nat}

theorem files_set : (w.set path contents).files other =
    if other = path ∧ w.Holds path then contents else w.files other := rfl

theorem files_set_self (h : w.Holds path) : (w.set path contents).files path = contents := by
  simp [files_set, h]

theorem files_set_ne (h : other ≠ path) : (w.set path contents).files other = w.files other := by
  simp [files_set, h]

@[simp] theorem nextDir_set : (w.set path contents).nextDir = w.nextDir := rfl

@[simp] theorem trace_set : (w.set path contents).trace = w.trace := rfl

@[simp] theorem files_tick : w.tick.files = w.files := rfl

@[simp] theorem nextDir_tick : w.tick.nextDir = w.nextDir := rfl

@[simp] theorem trace_tick : w.tick.trace = w.trace := rfl

@[simp] theorem files_record : (w.record event).files = w.files := rfl

@[simp] theorem nextDir_record : (w.record event).nextDir = w.nextDir := rfl

@[simp] theorem trace_record : (w.record event).trace = w.trace ++ [event] := rfl

@[simp] theorem files_makeDir : w.makeDir.files = w.files := rfl

@[simp] theorem nextDir_makeDir : w.makeDir.nextDir = w.nextDir + 1 := rfl

@[simp] theorem trace_makeDir : w.makeDir.trace = w.trace := rfl

theorem files_removeDir : (w.removeDir dir).files other =
    if other.In dir then none else w.files other := rfl

@[simp] theorem nextDir_removeDir : (w.removeDir dir).nextDir = w.nextDir := rfl

@[simp] theorem trace_removeDir : (w.removeDir dir).trace = w.trace := rfl

end Fields

end World

/-! ## Operations -/

section Operations

variable (env : Env)

/-- An operation that may fail and changes no file. -/
def attempt : Prog Unit := fun w =>
  match env.fails w.clock with
  | some what => (.error (.error what), w.tick)
  | none => (.ok (), w.tick)

/-- `File(path)`, with its size and its contents. -/
def readFile (path : Path) : Prog Bytes := do
  attempt env
  let w ← current
  match w.files path with
  | some data => return data
  | none => raise (.error ("open " ++ path.text ++ ": No such file or directory"))

/-- A file is created, or truncated, and written. -/
def writeFile (path : Path) (data : Bytes) : Prog Unit := fun w =>
  match env.fails w.clock with
  | some what =>
      (.error (.error what), (w.set path (env.leftover w.clock (w.files path))).tick)
  | none =>
      if w.Holds path then (.ok (), (w.set path (some data)).tick)
      else (.error (.error ("open(write) " ++ path.text ++ ": No such file or directory")), w.tick)

/-- A file that must not exist yet is written, and removed again if that fails. -/
def createFile (path : Path) (data : Bytes) : Prog Unit := fun w =>
  if (w.files path).isSome then
    (.error (.error ("create(copy) " ++ path.text ++ ": File exists")), w.tick)
  else
    match env.fails w.clock with
    | some what => (.error (.error what), w.tick)
    | none =>
        if w.Holds path then (.ok (), (w.set path (some data)).tick)
        else (.error (.error ("create(copy) " ++ path.text ++ ": No such file or directory")),
          w.tick)

def copyFile (source destination : Path) : Prog Unit := do
  createFile env destination (← readFile env source)

/-- `same_file`; false if one of the two is absent. -/
def sameFile (first second : Path) : Prog Bool := do
  attempt env
  let w ← current
  return (w.files first).isSome ∧ (w.files second).isSome ∧ first = second

/-- The rename at the end of a replacement. -/
def World.replace (w : World) (staged destination : Path) : World :=
  ((w.set destination (w.files staged)).set staged none).record (.replaced staged destination)

/-- `atomic_replace_file`: the destination stays as it is, or it is replaced whole. -/
def atomicReplaceFile (staged destination : Path) : Prog Unit := fun w =>
  if w.files staged = none ∨ w.files destination = none ∨ staged = destination then
    (.error (.error ("replace " ++ destination.text)), w.tick)
  else
    match env.fails w.clock with
    | some what =>
        (.error (.error what),
          (if env.commits w.clock then w.replace staged destination else w).tick)
    | none => (.ok (), (w.replace staged destination).tick)

/-- The file that follows a flag. -/
def fileAfter (flag : Arg) : List Arg → Option Path
  | given :: .file path :: rest => if given = flag then some path else fileAfter flag rest
  | _ :: rest => fileAfter flag rest
  | [] => none

def runProcess (executable : Bytes) (args : List Arg) : Prog ProcessResult := fun w =>
  let run := env.companion w.clock executable args w.files
  let output := fileAfter (arg "-out") args
  let w' := match output with
    | some path => w.set path run.left
    | none => w
  let event := Event.companion args ((fileAfter (arg "-in") args).bind w.files) run.result
    (output.bind w'.files)
  (run.result.mapError .error, (w'.record event).tick)

/-- The `DigestSigner` callback. -/
def signDigest (digest : Bytes) : Prog AzureSignResult := fun w =>
  let result := env.signDigest w.clock digest
  (result.mapError .error, (w.record (.digestSigned digest result)).tick)

/-- The `SigningLogger` callback. -/
def log (_text : Bytes) : Prog Unit := attempt env

/-- The end of a `TempDir`; that the removal fails, nobody is told. -/
def World.endDir (w : World) (dir : Nat) : World :=
  if (env.fails w.clock).isSome then w.tick else (w.removeDir dir).tick

/-- `TempDir`: the body has a directory of its own. -/
def withTempDir {α : Type} (body : Nat → Prog α) : Prog α := do
  attempt env
  let w ← current
  change World.makeDir
  (body w.nextDir).cleanly fun w' => w'.endDir env w.nextDir

end Operations

end AasSign
