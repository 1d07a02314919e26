import AasSign.Foundation.Unicode
import AasSign.Platform.CommandLine

/-! # The configuration directory on Windows

`config_dir` makes the directory under a wide path that it widens octet by octet;
the files in it are opened under wide paths that are converted from UTF-8.
-/

namespace AasSign

open Foundation

/-- `utf8_to_wide`. -/
def utf8ToWide (s : Bytes) : Except Exn Wide := do
  if s = [] then return []
  throwIf (s.length > 2 ^ 31 - 1) "UTF-8 -> UTF-16: input exceeds Windows limit"
  match readUtf8 s with
  | none => throw (.error "UTF-8 -> UTF-16 conversion failed")
  | some text => return utf16 text

/-- A `char` as a `wchar_t`; a `char` is signed. -/
def widenChar (c : UInt8) : UInt16 :=
  if c.toNat < 0x80 then UInt16.ofNat c.toNat else UInt16.ofNat (0xff00 + c.toNat)

/-- `ERROR_ALREADY_EXISTS`. -/
def errorAlreadyExists : Nat := 183

/-- What the system answers: the folder, or the code of an error. -/
structure ConfigSystem where
  appData : Except Nat Wide
  createDirectory : Wide → Except Nat Unit
  winError : Nat → String

/-- `config_dir`: the path that `CreateDirectoryW` is called with, and the outcome. -/
def configDir (sys : ConfigSystem) : Option Wide × Except Exn Bytes :=
  match sys.appData with
  | .error hr => (none, .error (.error ("SHGetFolderPathW failed: " ++ sys.winError hr)))
  | .ok wbuf =>
      let base := utf8 (readUtf16 wbuf)
      let dir := base ++ ascii "\\aas-sign"
      let wdir := dir.map widenChar
      match sys.createDirectory wdir with
      | .ok () => (some wdir, .ok dir)
      | .error err =>
          if err = errorAlreadyExists then (some wdir, .ok dir)
          else (some wdir, .error (.error
            ("CreateDirectoryW " ++ latin1 dir ++ ": " ++ sys.winError err)))

/-- The temporary file that `atomic_write_private_file` opens, and the file it moves it to. -/
def atomicWritePaths (utf8Path : Bytes) : Except Exn (Wide × Wide) := do
  let wtmp ← utf8ToWide (utf8Path ++ ascii ".tmp")
  let wfinal ← utf8ToWide utf8Path
  return (wtmp, wfinal)

/-- The file that `remove_file` deletes. -/
def removePath (utf8Path : Bytes) : Except Exn Wide := utf8ToWide utf8Path

/-- The text of `%APPDATA%`, as long as the buffer for it. -/
structure AppData where
  text : List Char
  fits : (utf16 text).length < 260

def configFiles : List String := ["/token-cache.json", "/config.json"]

/-- The directory that is made is the one of the UTF-8 path, and the one the files are in. -/
def OneDirectory (app : AppData) : Prop :=
  ∀ sys : ConfigSystem, sys.appData = .ok (utf16 app.text) → ∀ dir, (configDir sys).2 = .ok dir →
    ∃ wdir, (configDir sys).1 = some wdir ∧ utf8ToWide dir = .ok wdir ∧
      ∀ file ∈ configFiles,
        atomicWritePaths (dir ++ ascii file) =
          .ok (wdir ++ utf16 (file ++ ".tmp").toList, wdir ++ utf16 file.toList) ∧
        removePath (dir ++ ascii file) = .ok (wdir ++ utf16 file.toList)

section Paths

variable {text : List Char}

theorem utf8ToWide_utf8 (h : (utf8 text).length ≤ 2 ^ 31 - 1) :
    utf8ToWide (utf8 text) = .ok (utf16 text) := by
  rw [utf8ToWide]
  split_ifs with hempty
  · have hlength := utf16_length_le text
    rw [hempty, List.length_nil, Nat.le_zero, List.length_eq_zero_iff] at hlength
    rw [hlength]
    rfl
  · rw [throwIf_of_not (Nat.not_lt.mpr h), readUtf8_utf8]
    rfl

theorem ascii_eq_utf8 {literal : String} (h : ∀ c ∈ literal.toList, c.toNat < 0x80) :
    ascii literal = utf8 literal.toList := (utf8_ascii h).symm

/-- Widening octet by octet is the conversion exactly on ASCII. -/
theorem widen_utf8_iff : (utf8 text).map widenChar = utf16 text ↔ ∀ c ∈ text, c.toNat < 0x80 := by
  constructor
  · intro hsame
    by_contra hlarge
    simp only [not_forall, not_lt] at hlarge
    obtain ⟨c, hc, hlarge⟩ := hlarge
    have hlength := congrArg List.length hsame
    have hlt := utf16_length_lt ⟨c, hc, hlarge⟩
    rw [List.length_map] at hlength
    omega
  · intro hascii
    rw [utf8_ascii hascii, utf16_ascii hascii, List.map_map]
    apply List.map_congr_left
    intro c hc
    have hsmall := hascii c hc
    have hoctet : (UInt8.ofNat c.toNat).toNat = c.toNat := by
      rw [UInt8.toNat_ofNat']
      omega
    simp only [Function.comp_apply, widenChar, hoctet, if_pos hsmall]

end Paths

namespace AppData

variable (app : AppData)

/-- The text of the directory. -/
def dirText : List Char := app.text ++ "\\aas-sign".toList

theorem ascii_of_all {text : List Char} (h : text.all fun c => c.toNat < 0x80) :
    ∀ c ∈ text, c.toNat < 0x80 :=
  fun c hc => of_decide_eq_true (List.all_eq_true.mp h c hc)

theorem ascii_suffix : ∀ c ∈ "\\aas-sign".toList, c.toNat < 0x80 :=
  ascii_of_all (by decide +kernel)

theorem configDir_eq {sys : ConfigSystem} (hsys : sys.appData = .ok (utf16 app.text)) :
    (configDir sys).1 = some ((utf8 app.dirText).map widenChar) ∧
      ∀ dir, (configDir sys).2 = .ok dir → dir = utf8 app.dirText := by
  have hdir : utf8 (readUtf16 (utf16 app.text)) ++ ascii "\\aas-sign" = utf8 app.dirText := by
    rw [readUtf16_utf16, ascii_eq_utf8 ascii_suffix, dirText, utf8_append]
  simp only [configDir, hsys, hdir]
  split
  · simp [eq_comm]
  · split_ifs
    · simp [eq_comm]
    · simp

theorem dirText_fits {file : List Char} (hfile : (utf16 file).length ≤ 100) :
    (utf8 (app.dirText ++ file)).length ≤ 2 ^ 31 - 1 := by
  have hsuffix : (utf16 "\\aas-sign".toList).length = 9 := by decide +kernel
  have hfits := app.fits
  have hbound := utf8_length_le (app.dirText ++ file)
  have hlength : (utf16 (app.dirText ++ file)).length =
      (utf16 app.text).length + 9 + (utf16 file).length := by
    rw [utf16_append, dirText, utf16_append, List.length_append, List.length_append, hsuffix]
  omega

/-- A path below the directory is converted as the directory and the rest of the path are. -/
theorem utf8ToWide_below {file : List Char} (hfile : (utf16 file).length ≤ 100) :
    utf8ToWide (utf8 app.dirText ++ utf8 file) = .ok (utf16 app.dirText ++ utf16 file) := by
  rw [← utf8_append, utf8ToWide_utf8 (app.dirText_fits hfile), utf16_append]

theorem utf8ToWide_dir : utf8ToWide (utf8 app.dirText) = .ok (utf16 app.dirText) := by
  have hbelow : utf8ToWide (utf8 app.dirText ++ utf8 []) = .ok (utf16 app.dirText ++ utf16 []) :=
    app.utf8ToWide_below (by decide)
  simpa [utf8, utf16] using hbelow

theorem dirText_ascii_iff :
    (∀ c ∈ app.dirText, c.toNat < 0x80) ↔ ∀ c ∈ app.text, c.toNat < 0x80 := by
  rw [dirText, List.forall_mem_append]
  exact and_iff_left ascii_suffix

theorem configFile_paths {file : String} (hfile : file ∈ configFiles) :
    atomicWritePaths (utf8 app.dirText ++ ascii file) =
        .ok (utf16 app.dirText ++ utf16 (file ++ ".tmp").toList,
          utf16 app.dirText ++ utf16 file.toList) ∧
      removePath (utf8 app.dirText ++ ascii file) = .ok (utf16 app.dirText ++ utf16 file.toList) := by
  have hliteral : ∀ file ∈ configFiles, (file.toList.all fun c => c.toNat < 0x80) ∧
      (utf16 file.toList).length ≤ 100 ∧ (utf16 (file ++ ".tmp").toList).length ≤ 100 ∧
      ascii file ++ ascii ".tmp" = utf8 (file ++ ".tmp").toList := by decide +kernel
  obtain ⟨hascii, hshort, hshort', htmp⟩ := hliteral file hfile
  rw [atomicWritePaths, List.append_assoc, htmp, app.utf8ToWide_below hshort', ok_bind,
    ascii_eq_utf8 (ascii_of_all hascii), removePath, app.utf8ToWide_below hshort]
  exact ⟨rfl, rfl⟩

end AppData

theorem oneDirectory_iff_dirText (app : AppData) :
    OneDirectory app ↔ (utf8 app.dirText).map widenChar = utf16 app.dirText := by
  constructor
  · intro hone
    -- A system on which the directory can be made.
    let sys : ConfigSystem := ⟨.ok (utf16 app.text), fun _ => .ok (), fun _ => ""⟩
    have hsys : sys.appData = .ok (utf16 app.text) := rfl
    obtain ⟨hpassed, hreturned⟩ := app.configDir_eq hsys
    obtain ⟨dir, hdir⟩ : ∃ dir, (configDir sys).2 = .ok dir := ⟨_, rfl⟩
    obtain ⟨wdir, hwdir, hwide, -⟩ := hone sys hsys dir hdir
    rw [hreturned dir hdir, app.utf8ToWide_dir] at hwide
    rw [hpassed] at hwdir
    exact (Option.some.inj hwdir).trans (Except.ok.inj hwide).symm
  · intro hsame sys hsys dir hdir
    obtain ⟨hpassed, hreturned⟩ := app.configDir_eq hsys
    obtain rfl := hreturned dir hdir
    refine ⟨_, hpassed, ?_, ?_⟩
    · rw [hsame, app.utf8ToWide_dir]
    · intro file hfile
      rw [hsame]
      exact app.configFile_paths hfile

/-- `C:\Users\é`. -/
def accentedHome : AppData where
  text := ['C', ':', '\\', 'U', 's', 'e', 'r', 's', '\\', 'é']
  fits := by decide

theorem accentedHome_split : ¬OneDirectory accentedHome := by
  rw [oneDirectory_iff_dirText, widen_utf8_iff, AppData.dirText_ascii_iff]
  have hlast : 'é' ∈ accentedHome.text := List.mem_append_right
    ['C', ':', '\\', 'U', 's', 'e', 'r', 's', '\\'] (List.mem_singleton_self 'é')
  intro hascii
  exact absurd (hascii 'é' hlast) (by decide)

/-- The directory that is made is the one the files are in exactly if the path is ASCII. -/
theorem configDir_oneDirectory_iff (app : AppData) :
    OneDirectory app ↔ ∀ c ∈ app.text, c.toNat < 0x80 := by
  rw [oneDirectory_iff_dirText, widen_utf8_iff, AppData.dirText_ascii_iff]

end AasSign
