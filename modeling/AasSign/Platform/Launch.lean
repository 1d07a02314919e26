import AasSign.Foundation.Search
import AasSign.Platform.ConfigDir
import AasSign.Platform.Environment

/-! # What a child is started with on Windows

`run_process` on Windows before its first handle: the executable that is found, the command line
that stands for the arguments, and the environment without what is private.
-/

namespace AasSign

open Foundation

namespace Win32

/-- What the platform says of files and of the environment. -/
structure LaunchEnv where
  /-- A file that is not a directory. -/
  isExecutable : Wide → Bool
  /-- `path(name).extension()`. -/
  extension : Wide → Wide
  /-- `absolute_wpath`. -/
  absolutePath : Wide → Except Exn Wide
  /-- `GetEnvironmentVariableW(L"PATH")`. -/
  pathVariable : Option Wide
  /-- `GetEnvironmentStringsW`. -/
  strings : Option Wide
  /-- The text of the last error. -/
  winError : String

/-- `from_wide`. -/
def fromWide (winError : String) (s : Wide) : Except Exn Bytes := do
  throwIf (utf16 (readUtf16 s) ≠ s) ("UTF-16 -> UTF-8: " ++ winError)
  return utf8 (readUtf16 s)

/-- An element of the path may be in quotes. -/
def unquote (dir : Wide) : Wide :=
  if 2 ≤ dir.length ∧ dir.head? = some 34 ∧ dir.getLast? = some 34 then
    (dir.drop 1).take (dir.length - 2)
  else dir

/-- The file that an element of the path stands for, if it is not empty. -/
def pathCandidate (filename dir : Wide) : Option Wide :=
  if unquote dir = [] then none else some (unquote dir ++ [92] ++ filename)

/-- `name.find_first_of("/\\:") != npos`. -/
def namesPlace (name : Bytes) : Bool := name.any fun c => c = 47 ∨ c = 92 ∨ c = 58

section Launching

variable (env : LaunchEnv)

def executableFile (name : Bytes) : Except Exn Wide := do
  let filename ← utf8ToWide name
  return filename ++ if env.extension filename = [] then utf16 ".exe".toList else []

def resolvedPath (candidate : Wide) : Except Exn Bytes := do
  let path ← env.absolutePath candidate
  fromWide env.winError path

/-- `find_executable`. -/
def findExecutable (name : Bytes) : Except Exn Bytes := do
  throwIf (name = [] ∨ 0 ∈ name) "find executable: empty or invalid name"
  let filename ← executableFile env name
  if namesPlace name then
    throwIf (!env.isExecutable filename)
      ("find executable " ++ latin1 name ++ ": not an executable file")
    resolvedPath env filename
  else
    match env.pathVariable with
    | none => throw (.error ("find executable " ++ latin1 name ++ ": PATH is empty"))
    | some path => do
        throwIf (path = []) ("read PATH: " ++ env.winError)
        let visit dir := (pathCandidate filename dir).bind (Option.guard env.isExecutable)
        match searchParts 59 visit path (path.length + 1) 0 with
        | some candidate => resolvedPath env candidate
        | none => throw (.error ("find executable " ++ latin1 name ++ ": not found on PATH"))

/-- What `CreateProcessW` is given of a child. -/
structure Launch where
  application : Wide
  command : Wide
  environment : Wide

/-- `run_process`, up to the first handle. -/
def launch (executable : Bytes) (args : List Bytes) : Except Exn Launch := do
  let resolved ← findExecutable env executable
  let command ← commandLine utf8ToWide executable resolved args
  let application ← utf8ToWide resolved
  let environment ← childEnvironment env.strings env.winError
  return ⟨application, command, environment⟩

end Launching

/-! ## What is started -/

/-- The files that a name may stand for, in the order in which they are tried. -/
def LaunchEnv.candidates (env : LaunchEnv) (name : Bytes) (filename : Wide) : List Wide :=
  if namesPlace name then [filename]
  else ((env.pathVariable.getD []).splitOn 59).filterMap (pathCandidate filename)

/-- The first of the files that is an executable lies at this path. -/
def LaunchEnv.Locates (env : LaunchEnv) (name : Bytes) (path : Wide) : Prop :=
  name ≠ [] ∧ 0 ∉ name ∧ ∃ filename candidate, executableFile env name = .ok filename ∧
    (env.candidates name filename).find? env.isExecutable = some candidate ∧
    env.absolutePath candidate = .ok path

/-- What a child is started with, as the child sees it. -/
structure Launched (env : LaunchEnv) (executable : Bytes) (args : List Bytes) (l : Launch) : Prop where
  application : env.Locates executable l.application
  program : ∃ text, l.application = utf16 text ∧ 0 ∉ utf8 text
  /-- Behind the name of the program the C runtime finds the text of every argument. -/
  arguments : ∃ texts : List (List Char), args = texts.map utf8 ∧ (∀ text ∈ texts, 0 ∉ utf8 text) ∧
    l.command = quoteWide l.application ++ argumentTail (texts.map utf16) ∧
    crtArguments (argumentTail (texts.map utf16)) = texts.map utf16
  short : l.command.length < 32767
  environment : childEnvironment env.strings env.winError = .ok l.environment
  /-- It is the environment of the caller without what is private. -/
  filtered : ∀ entries after, (∀ value ∈ entries, IsWideEntry value) →
    env.strings = some (terminated 0 entries ++ 0 :: after) →
    readTerminated 0 l.environment = entries.filter fun value => ¬SecretWideEntry value

/-! ## Texts -/

section Texts

variable {text : List Char} {texts : List (List Char)} {winError : String} {path units : Wide}
  {resolved : Bytes}

theorem utf8ToWide_eq_ok {s : Bytes} (h : utf8ToWide s = .ok units) :
    ∃ text, s = utf8 text ∧ units = utf16 text := by
  rw [utf8ToWide] at h
  split_ifs at h with hempty
  · exact ⟨[], hempty, (Except.ok.inj h).symm⟩
  · obtain ⟨_, -, h⟩ := bind_eq_ok.mp h
    cases htext : readUtf8 s with
    | none => simp [htext] at h
    | some text =>
        rw [htext] at h
        exact ⟨text, readUtf8_eq_some.mp htext, (Except.ok.inj h).symm⟩

/-- What fits into a command line is converted. -/
theorem utf8ToWide_of_short (h : (utf16 text).length < 32767) :
    utf8ToWide (utf8 text) = .ok (utf16 text) := by
  have hlength := utf8_length_le text
  exact utf8ToWide_utf8 (by omega)

theorem fromWide_eq_ok :
    fromWide winError path = .ok resolved ↔ ∃ text, path = utf16 text ∧ resolved = utf8 text := by
  constructor
  · intro h
    obtain ⟨_, hvalid, hutf8⟩ := bind_eq_ok.mp h
    exact ⟨readUtf16 path, (not_not.mp (throwIf_eq_ok.mp hvalid)).symm, (Except.ok.inj hutf8).symm⟩
  · rintro ⟨text, rfl, rfl⟩
    rw [fromWide, readUtf16_utf16, throwIf_of_not (not_not.mpr rfl)]
    rfl

theorem utf8_injective {first second : List Char} (h : utf8 first = utf8 second) : first = second := by
  have hread := congrArg readUtf8 h
  rw [readUtf8_utf8, readUtf8_utf8] at hread
  exact Option.some.inj hread

/-- An argument is a text without a NUL, and it is quoted as such. -/
theorem quoteArgument_text {arg : Bytes} {quoted : Wide} (h : quoteArgument utf8ToWide arg = .ok quoted) :
    ∃ text, arg = utf8 text ∧ 0 ∉ utf8 text ∧ quoted = quoteWide (utf16 text) := by
  obtain ⟨hzero, units, hunits, rfl⟩ := quoteArgument_eq_ok.mp h
  obtain ⟨text, rfl, rfl⟩ := utf8ToWide_eq_ok hunits
  exact ⟨text, rfl, hzero, rfl⟩

theorem quoteArgument_of_text (hzero : 0 ∉ utf8 text) (hshort : (utf16 text).length < 32767) :
    quoteArgument utf8ToWide (utf8 text) = .ok (quoteWide (utf16 text)) :=
  quoteArgument_eq_ok.mpr ⟨hzero, _, utf8ToWide_of_short hshort, rfl⟩

/-- What is written behind the name of the program reads as the arguments. -/
theorem crtArguments_texts (h : ∀ text ∈ texts, 0 ∉ utf8 text) :
    crtArguments (argumentTail (texts.map utf16)) = texts.map utf16 := by
  have hnul : 0 ∉ argumentTail (texts.map utf16) := by
    refine argumentTail_noNul (List.forall_mem_map.mpr fun text htext hzero => ?_)
    exact h text htext (zero_mem_utf8_of_utf16 hzero)
  have hline : (argumentTail (texts.map utf16)).takeWhile (· ≠ 0) = argumentTail (texts.map utf16) := by
    refine List.takeWhile_eq_self_iff.mpr fun c hc => ?_
    simpa using fun hzero : c = 0 => hnul (hzero ▸ hc)
  rw [crtArguments, hline, foldl_argumentTail rfl rfl]
  rfl

end Texts

/-! ## The length of a command line -/

section Length

variable {input : Wide}

theorem length_foldl_quoteStep (input : Wide) (state : QuoteState) :
    state.result.length + state.slashes + input.length ≤
      (input.foldl quoteStep state).result.length + (input.foldl quoteStep state).slashes := by
  induction input generalizing state with
  | nil => exact Nat.le_refl _
  | cons c input ih =>
      refine Nat.le_trans ?_ (ih (quoteStep state c))
      rw [quoteStep, List.length_cons]
      split_ifs with hslash hquote
      · dsimp only
        omega
      · simp only [List.length_append, List.length_replicate, List.length_singleton]
        omega
      · simp only [List.length_append, List.length_replicate, List.length_singleton]
        omega

theorem length_le_quoteWide (input : Wide) : input.length ≤ (quoteWide input).length := by
  have hfold := length_foldl_quoteStep input { slashes := 0, result := [34] }
  simp only [List.length_singleton] at hfold
  simp only [quoteWide, List.length_append, List.length_replicate, List.length_singleton]
  omega

theorem length_le_argumentTail {wides : List Wide} (h : input ∈ wides) :
    input.length ≤ (argumentTail wides).length := by
  obtain ⟨before, after, rfl⟩ := List.append_of_mem h
  have hquoted := length_le_quoteWide input
  simp only [argumentTail, List.flatMap_append, List.flatMap_cons, List.length_append, List.length_cons]
  omega

end Length

section Launches

variable {env : LaunchEnv} {name executable resolved : Bytes} {args : List Bytes} {path : Wide}

/-! ## The executable -/

theorem searchPath_eq {filename : Wide} :
    searchParts 59 (fun dir => (pathCandidate filename dir).bind (Option.guard env.isExecutable)) path
      (path.length + 1) 0 =
      ((path.splitOn 59).filterMap (pathCandidate filename)).find? env.isExecutable := by
  rw [searchParts_eq (Nat.zero_le _) (by omega), List.drop_zero]
  induction path.splitOn 59 with
  | nil => rfl
  | cons dir rest ih =>
      rw [List.findSome?_cons, List.filterMap_cons, ih]
      cases pathCandidate filename dir with
      | none => rfl
      | some candidate =>
          rw [Option.bind_some, List.find?_cons]
          cases hexecutable : env.isExecutable candidate <;> simp [Option.guard, hexecutable]

/-- An empty `PATH` stands for no file. -/
theorem candidates_empty (filename : Wide) :
    (([] : Wide).splitOn 59).filterMap (pathCandidate filename) = [] := rfl

theorem resolvedPath_eq_ok {candidate : Wide} : resolvedPath env candidate = .ok resolved ↔
    ∃ path, env.absolutePath candidate = .ok path ∧ fromWide env.winError path = .ok resolved :=
  bind_eq_ok

/-- The executable that is found is the first of the files that the name may stand for. -/
theorem findExecutable_eq_ok : findExecutable env name = .ok resolved ↔
    ∃ path, env.Locates name path ∧ fromWide env.winError path = .ok resolved := by
  constructor
  · intro h
    rw [findExecutable, bind_eq_ok] at h
    obtain ⟨_, hvalid, h⟩ := h
    obtain ⟨hne, hzero⟩ := not_or.mp (throwIf_eq_ok.mp hvalid)
    obtain ⟨filename, hfilename, h⟩ := bind_eq_ok.mp h
    suffices hfound : ∃ candidate, (env.candidates name filename).find? env.isExecutable = some candidate ∧
        resolvedPath env candidate = .ok resolved by
      obtain ⟨candidate, hcandidate, hresolved⟩ := hfound
      obtain ⟨path, hpath, htext⟩ := resolvedPath_eq_ok.mp hresolved
      exact ⟨path, ⟨hne, hzero, filename, candidate, hfilename, hcandidate, hpath⟩, htext⟩
    rw [LaunchEnv.candidates]
    split_ifs at h ⊢ with hplace
    · obtain ⟨_, hexecutable, h⟩ := bind_eq_ok.mp h
      have hfile := throwIf_eq_ok.mp hexecutable
      exact ⟨filename, by simpa using hfile, h⟩
    · cases hpath : env.pathVariable with
      | none => simp [hpath] at h
      | some path =>
          rw [hpath] at h
          obtain ⟨_, -, h⟩ := bind_eq_ok.mp h
          dsimp only at h
          rw [searchPath_eq] at h
          rw [Option.getD_some]
          cases hfound : ((path.splitOn 59).filterMap (pathCandidate filename)).find? env.isExecutable with
          | none => simp [hfound] at h
          | some candidate =>
              rw [hfound] at h
              exact ⟨candidate, rfl, h⟩
  · rintro ⟨path, ⟨hne, hzero, filename, candidate, hfilename, hcandidate, hpath⟩, htext⟩
    have hresolved := resolvedPath_eq_ok.mpr ⟨path, hpath, htext⟩
    rw [findExecutable, throwIf_of_not (not_or.mpr ⟨hne, hzero⟩), ok_bind, hfilename, ok_bind]
    rw [LaunchEnv.candidates] at hcandidate
    split_ifs at hcandidate ⊢ with hplace
    · obtain rfl := List.mem_singleton.mp (List.mem_of_find?_eq_some hcandidate)
      have hexecutable := List.find?_some hcandidate
      rw [throwIf_of_not (by simp [hexecutable]), ok_bind]
      exact hresolved
    · cases hvariable : env.pathVariable with
      | none =>
          rw [hvariable, Option.getD_none, candidates_empty] at hcandidate
          cases hcandidate
      | some paths =>
          rw [hvariable, Option.getD_some] at hcandidate
          have hpaths : paths ≠ [] := by
            rintro rfl
            rw [candidates_empty] at hcandidate
            cases hcandidate
          dsimp only
          rw [throwIf_of_not hpaths, ok_bind, searchPath_eq, hcandidate]
          exact hresolved

/-! ## The command line -/

/-- The arguments that are quoted one after the other are texts. -/
theorem foldlM_quoteArgument_texts {program command : Wide}
    (h : args.foldlM (fun command arg => do
      let quoted ← quoteArgument utf8ToWide arg
      return command ++ (32 :: quoted)) program = .ok command) :
    ∃ texts : List (List Char), args = texts.map utf8 ∧ (∀ text ∈ texts, 0 ∉ utf8 text) ∧
      command = program ++ argumentTail (texts.map utf16) := by
  induction args generalizing program with
  | nil => exact ⟨[], rfl, by simp, by simpa [argumentTail] using (Except.ok.inj h).symm⟩
  | cons arg args ih =>
      rw [List.foldlM_cons, bind_eq_ok] at h
      obtain ⟨next, hnext, h⟩ := h
      obtain ⟨quoted, hquoted, hnext⟩ := bind_eq_ok.mp hnext
      obtain ⟨text, rfl, hzero, rfl⟩ := quoteArgument_text hquoted
      obtain ⟨texts, rfl, htexts, rfl⟩ := ih h
      refine ⟨text :: texts, rfl, List.forall_mem_cons.mpr ⟨hzero, htexts⟩, ?_⟩
      rw [← Except.ok.inj hnext, List.map_cons, argumentTail, argumentTail, List.flatMap_cons,
        List.append_assoc]

theorem foldlM_quoteArgument_of_texts {texts : List (List Char)} (program : Wide)
    (h : ∀ text ∈ texts, 0 ∉ utf8 text ∧ (utf16 text).length < 32767) :
    (texts.map utf8).foldlM (fun command arg => do
      let quoted ← quoteArgument utf8ToWide arg
      return command ++ (32 :: quoted)) program = .ok (program ++ argumentTail (texts.map utf16)) := by
  induction texts generalizing program with
  | nil => exact congrArg Except.ok (List.append_nil program).symm
  | cons text texts ih =>
      obtain ⟨⟨hzero, hshort⟩, htexts⟩ := List.forall_mem_cons.mp h
      rw [List.map_cons, List.foldlM_cons, quoteArgument_of_text hzero hshort, ok_bind, pure_bind,
        ih _ htexts]
      rw [List.map_cons, argumentTail, argumentTail, List.flatMap_cons, List.append_assoc]

/-- `run_process` starts a child exactly if the name stands for an executable and the arguments are
texts that fit into a command line, and then with these. -/
theorem launch_iff (env : LaunchEnv) (executable : Bytes) (args : List Bytes) (l : Launch) :
    launch env executable args = .ok l ↔ Launched env executable args l := by
  constructor
  · intro h
    obtain ⟨resolved, hresolved, h⟩ := bind_eq_ok.mp h
    obtain ⟨command, hcommand, h⟩ := bind_eq_ok.mp h
    obtain ⟨application, happlication, h⟩ := bind_eq_ok.mp h
    obtain ⟨environment, henvironment, h⟩ := bind_eq_ok.mp h
    obtain rfl := Except.ok.inj h
    obtain ⟨path, hlocated, hpath⟩ := findExecutable_eq_ok.mp hresolved
    obtain ⟨text, rfl, rfl⟩ := fromWide_eq_ok.mp hpath
    obtain ⟨text', htext, rfl⟩ := utf8ToWide_eq_ok happlication
    obtain rfl := utf8_injective htext
    simp only [commandLine, bind_eq_ok] at hcommand
    obtain ⟨program, hprogram, command', hargs, _, hshort, hcommand⟩ := hcommand
    obtain rfl := Except.ok.inj hcommand
    obtain ⟨text', htext, hzero, rfl⟩ := quoteArgument_text hprogram
    obtain rfl := utf8_injective htext
    obtain ⟨texts, htexts, hzeros, rfl⟩ := foldlM_quoteArgument_texts hargs
    exact {
      application := hlocated
      program := ⟨text, rfl, hzero⟩
      arguments := ⟨texts, htexts, hzeros, rfl, crtArguments_texts hzeros⟩
      short := Nat.not_le.mp (throwIf_eq_ok.mp hshort)
      environment := henvironment
      filtered := fun entries after hentries hstrings => by
        obtain ⟨block, hblock, -, hread⟩ := readTerminated_childEnvironment hentries after env.winError
        rw [hstrings, hblock] at henvironment
        rw [← Except.ok.inj henvironment, hread] }
  · intro h
    obtain ⟨application, command, environment⟩ := l
    obtain ⟨text, rfl, hzero⟩ := h.program
    obtain ⟨texts, rfl, hzeros, hline, -⟩ := h.arguments
    obtain rfl : command = quoteWide (utf16 text) ++ argumentTail (texts.map utf16) := hline
    have hshort : (quoteWide (utf16 text)).length + (argumentTail (texts.map utf16)).length < 32767 := by
      simpa using h.short
    have hprogram : (utf16 text).length < 32767 := by
      have := length_le_quoteWide (utf16 text)
      omega
    have htexts : ∀ text ∈ texts, 0 ∉ utf8 text ∧ (utf16 text).length < 32767 := by
      intro text' htext
      have := length_le_argumentTail (List.mem_map_of_mem (f := utf16) htext)
      exact ⟨hzeros text' htext, by omega⟩
    have hresolved : findExecutable env executable = .ok (utf8 text) :=
      findExecutable_eq_ok.mpr ⟨_, h.application, fromWide_eq_ok.mpr ⟨text, rfl, rfl⟩⟩
    have hcommand : commandLine utf8ToWide executable (utf8 text) (texts.map utf8) =
        .ok (quoteWide (utf16 text) ++ argumentTail (texts.map utf16)) := by
      rw [commandLine, quoteArgument_of_text hzero hprogram, ok_bind,
        foldlM_quoteArgument_of_texts _ htexts, ok_bind, throwIf_of_not (Nat.not_le.mpr h.short)]
      rfl
    rw [launch, hresolved, ok_bind, hcommand, ok_bind, utf8ToWide_of_short hprogram, ok_bind,
      h.environment]
    rfl

end Launches

end Win32

end AasSign
