import AasSign.Foundation.Outcome
import AasSign.Foundation.Search
import AasSign.Platform.Files

/-! # The companion executable

`find_executable`, and how `resolve_osslsigncode` settles on a companion: the one that is named,
else the one next to the program, else the first on the search path; and only one that knows
the commands that signing needs.
-/

namespace AasSign

open Foundation

/-- What the platform says of files and of the program itself. -/
structure CompanionEnv where
  /-- A regular file that may be executed. -/
  isExecutable : Bytes → Bool
  absolutePath : Bytes → Except Bytes Bytes
  /-- `getenv("PATH")`. -/
  pathVariable : Option Bytes
  /-- `executable_path()`. -/
  executablePath : Except Bytes Bytes
  /-- `run_process(resolved, {"--help"})`. -/
  help : Bytes → Except Bytes ProcessResult

section Find

variable (env : CompanionEnv)

/-- The file that an element of the path stands for; an empty one is the working directory. -/
def pathCandidate (name dir : Bytes) : Bytes := (if dir = [] then [46] else dir) ++ [47] ++ name

def notOnPath (name : Bytes) : Bytes := ascii "find executable " ++ name ++ ascii ": not found on PATH"

/-- `find_executable`. -/
def findExecutable (name : Bytes) : Except Bytes Bytes :=
  if name = [] ∨ 0 ∈ name then .error (ascii "find executable: empty or invalid name")
  else if 47 ∈ name then
    if env.isExecutable name then env.absolutePath name
    else .error (ascii "find executable " ++ name ++ ascii ": not an executable file")
  else
    let path := env.pathVariable.getD (ascii "/usr/bin:/bin")
    let visit dir := Option.guard env.isExecutable (pathCandidate name dir)
    match searchParts 58 visit path (path.length + 1) 0 with
    | some candidate => env.absolutePath candidate
    | none => .error (notOnPath name)

end Find

/-! ## The companion of a program -/

/-- `path.parent_path()`. -/
def parentPath (path : Bytes) : Bytes :=
  let dir := (path.reverse.dropWhile (· ≠ 47)).reverse
  let stripped := (dir.reverse.dropWhile (· = 47)).reverse
  if stripped = [] then dir.take 1 else stripped

/-- `dir / name` for a name that is no path of its own. -/
def joinPath (dir name : Bytes) : Bytes :=
  if dir = [] ∨ dir.getLast? = some 47 then dir ++ name else dir ++ [47] ++ name

/-- The commands that the help text must mention. -/
def companionCommands : List Bytes :=
  [ascii "extract-data", ascii "attach-signature", ascii "extract-signature",
    ascii "remove-signature", ascii "-ts"]

section Resolve

variable (env : CompanionEnv)

/-- The name of the companion of a program. -/
def companionName (self : Bytes) : Bytes :=
  ascii "osslsigncode" ++ if fileExtension self = ascii ".exe" then ascii ".exe" else []

/-- The companion next to the program. -/
def siblingCompanion (self : Bytes) : Bytes := joinPath (parentPath self) (companionName self)

/-- The executable that is asked for its help text. -/
def companionPath (explicit : Bytes) : Except Bytes Bytes :=
  if explicit ≠ [] then findExecutable env explicit
  else do
    let self ← env.executablePath
    match findExecutable env (siblingCompanion self) with
    | .ok resolved => return resolved
    | .error _ => findExecutable env (companionName self)

/-- What `resolve_osslsigncode` makes of a help text. -/
def checkCompanion (resolved : Bytes) (help : ProcessResult) : Except Bytes Bytes := do
  if help.exitCode ≠ 0 then throw (ascii "cannot query osslsigncode: " ++ help.output)
  match companionCommands.find? fun command => findFrom command help.output 0 = none with
  | some command => throw (ascii "incompatible osslsigncode; missing " ++ command)
  | none => return resolved

/-- `resolve_osslsigncode`. -/
def resolveOsslsigncode (explicit : Bytes) : Except Bytes Bytes := do
  let resolved ← companionPath env explicit
  let help ← env.help resolved
  checkCompanion resolved help

end Resolve

/-! ## What is found -/

section Found

variable {env : CompanionEnv} {name path resolved : Bytes}

/-- The candidates of a name: the name itself, if it says where the file is, or one for each
element of the path. -/
def CompanionEnv.candidates (env : CompanionEnv) (name : Bytes) : List Bytes :=
  if 47 ∈ name then [name]
  else ((env.pathVariable.getD (ascii "/usr/bin:/bin")).splitOn 58).map (pathCandidate name)

/-- The first candidate of the name that is an executable file lies at this path. -/
def CompanionEnv.Locates (env : CompanionEnv) (name resolved : Bytes) : Prop :=
  name ≠ [] ∧ 0 ∉ name ∧ ∃ candidate, (env.candidates name).find? env.isExecutable = some candidate ∧
    env.absolutePath candidate = .ok resolved

/-- The loop over the path finds the first candidate that is an executable file. -/
theorem searchPath_eq : searchParts 58 (fun dir => Option.guard env.isExecutable (pathCandidate name dir))
    path (path.length + 1) 0 = ((path.splitOn 58).map (pathCandidate name)).find? env.isExecutable := by
  rw [searchParts_eq (Nat.zero_le _) (by omega), List.drop_zero, ← List.findSome?_guard,
    List.findSome?_map]
  rfl

theorem findExecutable_eq_ok : findExecutable env name = .ok resolved ↔ env.Locates name resolved := by
  unfold findExecutable CompanionEnv.Locates CompanionEnv.candidates
  by_cases hname : name = [] ∨ 0 ∈ name
  · rw [if_pos hname]
    refine iff_of_false nofun ?_
    rintro ⟨hne, hzero, -⟩
    exact hname.elim hne hzero
  · obtain ⟨hne, hzero⟩ := not_or.mp hname
    rw [if_neg hname]
    split_ifs with hslash hexecutable
    · simp [hne, hzero, hexecutable]
    · simp [hexecutable]
    · dsimp only
      rw [searchPath_eq]
      cases hfound : (((env.pathVariable.getD (ascii "/usr/bin:/bin")).splitOn 58).map
          (pathCandidate name)).find? env.isExecutable with
      | none => simp
      | some candidate => simp [hne, hzero]

/-- Which companion is chosen: the named one, else the one next to the program, and only
without that one the one on the search path. -/
def CompanionEnv.Chooses (env : CompanionEnv) (explicit resolved : Bytes) : Prop :=
  explicit ≠ [] ∧ env.Locates explicit resolved ∨
    explicit = [] ∧ ∃ self, env.executablePath = .ok self ∧
      (env.Locates (siblingCompanion self) resolved ∨
        (∀ other, ¬ env.Locates (siblingCompanion self) other) ∧
          env.Locates (companionName self) resolved)

theorem companionPath_eq_ok {explicit : Bytes} :
    companionPath env explicit = .ok resolved ↔ env.Chooses explicit resolved := by
  unfold companionPath CompanionEnv.Chooses
  by_cases hexplicit : explicit = []
  · rw [if_neg (not_not.mpr hexplicit), bind_eq_ok]
    simp only [hexplicit, ne_eq, not_true_eq_false, false_and, false_or, true_and]
    refine exists_congr fun self => and_congr_right fun _ => ?_
    cases hsibling : findExecutable env (siblingCompanion self) with
    | ok found =>
        have hfound := findExecutable_eq_ok.mp hsibling
        rw [← findExecutable_eq_ok, hsibling]
        exact (or_iff_left fun h => h.1 found hfound).symm
    | error what =>
        have hnone (other : Bytes) : ¬ env.Locates (siblingCompanion self) other := by
          rw [← findExecutable_eq_ok, hsibling]
          nofun
        dsimp only
        rw [findExecutable_eq_ok, or_iff_right (hnone resolved), and_iff_right hnone]
  · rw [if_pos hexplicit, findExecutable_eq_ok]
    simp [hexplicit]

theorem checkCompanion_eq_ok {found : Bytes} {help : ProcessResult} :
    checkCompanion found help = .ok resolved ↔
      found = resolved ∧ help.exitCode = 0 ∧ ∀ command ∈ companionCommands, command <:+: help.output := by
  unfold checkCompanion
  by_cases hexit : help.exitCode = 0
  · rw [if_neg (not_not.mpr hexit)]
    cases hmissing : companionCommands.find? fun command => decide (findFrom command help.output 0 = none) with
    | some command =>
        refine iff_of_false (fun hok => by cases hok) ?_
        rintro ⟨-, -, hall⟩
        have hnone : findFrom command help.output 0 = none := by simpa using List.find?_some hmissing
        have hsome := findFrom_isSome.mpr (hall command (List.mem_of_find?_eq_some hmissing))
        rw [hnone] at hsome
        cases hsome
    | none =>
        have hall : ∀ command ∈ companionCommands, command <:+: help.output := by
          intro command hcommand
          have hfound := List.find?_eq_none.mp hmissing command hcommand
          rw [decide_eq_true_eq] at hfound
          exact findFrom_isSome.mp (Option.isSome_iff_ne_none.mpr hfound)
        constructor
        · intro hok
          exact ⟨Except.ok.inj hok, hexit, hall⟩
        · rintro ⟨rfl, -⟩
          rfl
  · rw [if_pos hexit]
    exact iff_of_false (fun hok => by cases hok) fun h => hexit h.2.1

end Found

/-- The companion that is settled on is the one that is chosen, and it has answered that it
knows the commands; otherwise there is none. -/
theorem resolveOsslsigncode_iff (env : CompanionEnv) (explicit resolved : Bytes) :
    resolveOsslsigncode env explicit = .ok resolved ↔ env.Chooses explicit resolved ∧
      ∃ help, env.help resolved = .ok help ∧ help.exitCode = 0 ∧
        ∀ command ∈ companionCommands, command <:+: help.output := by
  rw [resolveOsslsigncode, bind_eq_ok]
  simp only [bind_eq_ok, checkCompanion_eq_ok, companionPath_eq_ok]
  constructor
  · rintro ⟨found, hchosen, help, hhelp, rfl, hexit, hall⟩
    exact ⟨hchosen, help, hhelp, hexit, hall⟩
  · rintro ⟨hchosen, help, hhelp, hexit, hall⟩
    exact ⟨resolved, hchosen, help, hhelp, rfl, hexit, hall⟩

end AasSign
