import AasSign.Msi.Preflight

/-! # Plans that are returned

Where no operation fails, the preflight returns the plan that the checks accept.
-/

namespace AasSign

open Foundation Program

/-- No operation of the platform fails. -/
def Env.Calm (env : Env) : Prop := ∀ n, env.fails n = none

section Rules

variable {env : Env} {workspace : Nat} {s : Rewrite} {w : World} {path : Path} {data : Bytes}

theorem Env.Calm.ends_attempt (hcalm : env.Calm) {Q : Unit → World → Prop} {E : Exn → World → Prop} :
    Ends (attempt env) w Q E ↔ Q () w.tick := by
  simp only [Ends, attempt, hcalm w.clock]

theorem Env.Calm.ends_readFile (hcalm : env.Calm) (hdata : w.files path = some data)
    {Q : Bytes → World → Prop} {E : Exn → World → Prop} :
    Ends (readFile env path) w Q E ↔ Q data w.tick := by
  rw [readFile, ends_bind, hcalm.ends_attempt, ends_bind, ends_current, World.files_tick, hdata]
  exact Iff.rfl

theorem Env.Calm.ends_writeFile (hcalm : env.Calm) (hholds : w.Holds path) {Q : Unit → World → Prop}
    {E : Exn → World → Prop} :
    Ends (writeFile env path data) w Q E ↔ Q () (w.set path (some data)).tick := by
  simp only [Ends, writeFile, hcalm w.clock, hholds, if_true]

theorem Env.Calm.ends_query (hcalm : env.Calm) {Row : Type} {q : MsiQuery}
    {rows : MsiContents → List Row} (hfew : (rows s.db).length ≤ 65535)
    {Q : List Row → Rewrite → Prop} {E : Exn → Rewrite → Prop} :
    Ends (query env workspace q rows) s Q E ↔
      Q (rows s.db) ({ s with world := s.world.tick }.noted workspace (.queried q)) := by
  rw [query, ends_bind, ends_onWorld, hcalm.ends_attempt, ends_bind, ends_current, ends_bind,
    ends_lift, throwIf, if_neg (Nat.not_lt.mpr hfew)]
  exact Iff.rfl

theorem Env.Calm.ends_extractStream (hcalm : env.Calm) {stream : MsiStream} {output : Path} {limit : Nat}
    (hselect : s.db.select stream = [data]) (hlimit : data.length ≤ limit)
    (hholds : s.world.Holds output) {Q : Nat → Rewrite → Prop} {E : Exn → Rewrite → Prop} :
    Ends (extractStream env stream output limit) s Q E ↔
      Q data.length { s with world := (s.world.tick.set output (some data)).tick } := by
  have hholds : s.world.tick.Holds output := hholds
  rw [extractStream, ends_bind, ends_onWorld, hcalm.ends_attempt, ends_bind, ends_current]
  dsimp only
  rw [hselect]
  dsimp only
  rw [ends_bind, ends_lift, copyLimited_eq, if_pos hlimit, sat_ok, ends_bind, ends_onWorld,
    hcalm.ends_writeFile hholds, ends_bind, ends_lift]
  exact Iff.rfl

/-! ## Unpacking -/

theorem Env.Calm.ends_writeTargets (hcalm : env.Calm) {targets : List (Path × Bytes)}
    (hholds : ∀ target ∈ targets, w.Holds target.1) :
    Ends (foldItems (fun _ target => writeFile env target.1 target.2) () targets) w
      (fun _ _ => True) fun _ _ => False := by
  have hfold := ends_foldItems (f := fun _ target => writeFile env target.1 target.2)
    (l := targets) (s := w) (b := ()) (E := fun _ _ => False)
    (fun _ _ w' => w'.nextDir = w.nextDir)
    (fun done target rest _ w' hsplit hdir => by
      have htarget : target ∈ targets := by simp [hsplit]
      rw [hcalm.ends_writeFile ((hholds target htarget).mono hdir.ge)]
      exact hdir)
    rfl
  exact hfold.mono (fun _ _ _ => trivial) fun _ _ => id

/-- A cabinet unpacks into staging files that there is room for. -/
theorem Env.Calm.ends_extractCabinet (hcalm : env.Calm) {lib : MsiLibrary}
    {members : List CabinetMember} {files : List UnpackedFile} (hdata : w.files path = some data)
    (hunpack : lib.unpack data = .ok files) (h : Unpacks members files)
    (hnames : (members.map CabinetMember.name).Nodup)
    (hholds : ∀ member ∈ members, w.Holds member.path) :
    Ends (extractCabinet env lib path members) w (fun _ _ => True) fun _ _ => False := by
  rw [extractCabinet, ends_bind, hcalm.ends_readFile hdata, ends_bind, ends_lift, hunpack]
  change Ends _ _ _ _
  rw [ends_bind, ends_lift]
  have hreturns : Returns (matchFiles path members files) fun _ => True := h.matched hnames
  obtain ⟨targets, htargets, -⟩ := returns_iff.mp hreturns
  obtain ⟨hmatched, -⟩ := matchFiles_safe.of_ok htargets
  rw [htargets, sat_ok]
  apply hcalm.ends_writeTargets
  intro target htarget
  obtain ⟨file, -, member, hmember, -, rfl⟩ := hmatched.targets target htarget
  exact hholds member hmember

theorem Env.Calm.ends_checkSizes (hcalm : env.Calm) {members : List CabinetMember}
    (hdata : ∀ member ∈ members, ∃ data, w.files member.path = some data ∧
      data.length = member.size) :
    Ends (foldItems (checkSize env) () members) w (fun _ _ => True) fun _ _ => False := by
  have hfold := ends_foldItems (f := checkSize env) (l := members) (s := w) (b := ())
    (E := fun _ _ => False) (fun _ _ w' => w'.files = w.files)
    (fun done member rest _ w' hsplit hfiles => by
      have hmember : member ∈ members := by simp [hsplit]
      obtain ⟨data, hread, hsize⟩ := hdata member hmember
      rw [← hfiles] at hread
      rw [checkSize, ends_bind, hcalm.ends_readFile hread, ends_lift]
      simp [invalidIf, hsize, hfiles])
    rfl
  exact hfold.mono (fun _ _ _ => trivial) fun _ _ => id

end Rules

/-! ## The steps of an accepted plan -/

section Steps

variable {env : Env} {lib : MsiLibrary} {c : MsiContents} {workspace expanded : Nat} {s : Rewrite}
  {cabinets : List Cabinet} {binaries : List (Bytes × Path)} {files : List FileRow}
  {names : List Bytes} {cabinet : Cabinet}

/-- A cabinet that the checks accept is staged. -/
theorem preflightCabinet_returns (hcalm : env.Calm)
    (h : Staged lib c workspace cabinets [] s)
    (hpath : ∃ i, cabinet.path = cabinetPath workspace i)
    (haccepted : AcceptedCabinet lib c cabinet expanded)
    (hnumbers : cabinet.members.map CabinetMember.path =
      (List.range cabinet.members.length).map fun i => payloadPath workspace (s.count + i))
    (hcount : s.count + cabinet.members.length ≤ memberLimit)
    (hlimit : s.expanded + expanded ≤ expansionLimit) (hfiles : (files.map FileRow.name).Nodup)
    (hnames : (names ++ cabinet.members.map CabinetMember.name).Nodup)
    (htakes : ∀ member ∈ cabinet.members, ∃ row ∈ files, Takes cabinet member row) :
    Ends (preflightCabinet env lib workspace (cabinets, marked files names) cabinet.unopened) s
      (fun scan s' => scan = (cabinets ++ [cabinet],
          marked files (names ++ cabinet.members.map CabinetMember.name)) ∧
        Staged lib c workspace (cabinets ++ [cabinet]) [] s' ∧ s'.expanded = s.expanded + expanded)
      fun _ _ => False := by
  obtain ⟨raw, hselect, hpasses⟩ := haccepted
  obtain ⟨unpacked, hunpack, hunpacks⟩ := hpasses.unpacked
  have hmade := h.made
  have hheld : s.world.Holds cabinet.path := by
    obtain ⟨i, hi⟩ := hpath
    rw [hi]
    exact hmade
  have hdistinct : (cabinet.members.map CabinetMember.name).Nodup := (List.nodup_append.mp hnames).2.1
  have hpaths : (cabinet.members.map CabinetMember.path).Nodup := nodup_of_numbers hnumbers
  have hroom : ∀ member ∈ cabinet.members, s.world.Holds member.path := by
    intro member hmember
    obtain ⟨n, -, -, hn⟩ := number_of_mem hnumbers (List.mem_map_of_mem hmember)
    rw [hn]
    exact hmade
  -- That nothing stops is shown alone; what is staged then follows from the rule for any run.
  have hreturns : Ends (preflightCabinet env lib workspace (cabinets, marked files names)
      cabinet.unopened) s
      (fun scan s' => scan = (cabinets ++ [cabinet],
          marked files (names ++ cabinet.members.map CabinetMember.name)) ∧
        s'.expanded = s.expanded + expanded)
      fun _ _ => False := by
    rw [preflightCabinet, ends_bind]
    refine (hcalm.ends_extractStream (h.db ▸ hselect) hpasses.length_le hheld).mpr ?_
    have hread : (s.world.tick.set cabinet.path (some raw)).tick.files cabinet.path = some raw :=
      World.files_set_self hheld
    rw [ends_bind, ends_note, ends_bind, ends_onWorld]
    refine (hcalm.ends_readFile hread).mpr ?_
    have hinspected : inspectCabinet cabinet.path cabinet.name raw workspace s.expanded s.count =
        .ok ⟨cabinet.members, s.expanded + expanded, s.count + cabinet.members.length⟩ :=
      hpasses.inspected hnumbers hcount hlimit
    have hmapped : mapMembers cabinet.unopened (marked files names) cabinet.members =
        .ok (marked files (names ++ cabinet.members.map CabinetMember.name)) :=
      mapMembers_takes hfiles hnames htakes
    rw [ends_bind, ends_current, ends_bind, ends_lift]
    refine (congrArg (Sat · _ _) hinspected).mpr ?_
    rw [sat_ok, ends_bind, ends_change, ends_bind, ends_note, ends_bind, ends_lift]
    refine (congrArg (Sat · _ _) hmapped).mpr ?_
    rw [sat_ok, ends_bind, ends_onWorld]
    have hunpacked : (s.world.tick.set cabinet.path (some raw)).tick.tick.files cabinet.path =
        some raw := hread
    apply ((hcalm.ends_extractCabinet hunpacked hunpack hunpacks hdistinct hroom).and
      (ends_extractCabinet hdistinct hpaths)).mono
    swap
    · exact fun _ _ => And.left
    rintro _ w ⟨-, raw', unpacked', hraw', hunpack', -, -, hdata, -⟩
    cases hunpacked.symm.trans hraw'
    cases hunpack.symm.trans hunpack'
    rw [ends_bind, ends_onWorld]
    apply (hcalm.ends_checkSizes fun member hmember => ?_).mono
    · rintro _ w' -
      rw [ends_bind, ends_note, ends_pure]
      exact ⟨rfl, rfl⟩
    · exact fun _ _ => id
    · obtain ⟨file, hfile, hname, -, hwritten⟩ := hdata member hmember
      obtain ⟨given, hgiven, hgivenName, hsize⟩ := hunpacks.given member hmember
      obtain rfl : given = file :=
        List.inj_on_of_nodup_map hunpacks.names hgiven hfile (hgivenName.trans hname.symm)
      exact ⟨given.data, hwritten, hsize⟩
  apply (hreturns.and (preflightCabinet_ends h (List.nodup_append.mp hnames).1 hpath)).mono
  swap
  · exact fun _ _ => And.left
  rintro scan s' ⟨⟨rfl, hexpanded⟩, members, hscan, hstaged, -⟩
  have hcabinets := List.append_cancel_left (congrArg Prod.fst hscan)
  rw [List.singleton_inj] at hcabinets
  rw [← hcabinets] at hstaged
  exact ⟨rfl, hstaged, hexpanded⟩

/-- The members of a cabinet take the numbers behind those of the cabinets before it. -/
theorem numbers_of_split {opened rest : List Cabinet} {n : Nat}
    (h : ((opened ++ cabinet :: rest).flatMap Cabinet.members).map CabinetMember.path =
      (List.range n).map (payloadPath workspace)) :
    (cabinet.members.map CabinetMember.path = (List.range cabinet.members.length).map fun i =>
        payloadPath workspace ((opened.flatMap Cabinet.members).length + i)) ∧
      (opened.flatMap Cabinet.members).length + cabinet.members.length ≤ n := by
  have hlength := congrArg List.length h
  simp only [List.flatMap_append, List.flatMap_cons, List.map_append, List.length_append,
    List.length_map, List.length_range] at hlength
  obtain rfl := hlength
  rw [List.flatMap_append, List.flatMap_cons, List.map_append, List.map_append, List.range_add,
    List.map_append, List.range_add, List.map_append, List.map_append, List.map_map, List.map_map]
    at h
  have hmembers := List.append_inj_right h (by simp)
  exact ⟨List.append_inj_left hmembers (by simp), by omega⟩

theorem preflightCabinets_returns (hcalm : env.Calm) {opened rest : List Cabinet}
    {sizes : List Nat} {n : Nat} (h : Staged lib c workspace opened [] s)
    (hpaths : ∀ cabinet ∈ rest, ∃ i, cabinet.path = cabinetPath workspace i)
    (haccepted : List.Forall₂ (AcceptedCabinet lib c) rest sizes)
    (hnumbers : ((opened ++ rest).flatMap Cabinet.members).map CabinetMember.path =
      (List.range n).map (payloadPath workspace))
    (hcount : n ≤ memberLimit) (hlimit : s.expanded + sizes.sum ≤ expansionLimit)
    (hfiles : (files.map FileRow.name).Nodup)
    (hnames : (((opened ++ rest).flatMap Cabinet.members).map CabinetMember.name).Nodup)
    (htakes : ∀ cabinet ∈ rest, ∀ member ∈ cabinet.members, ∃ row ∈ files,
      Takes cabinet member row) :
    Ends (foldItems (preflightCabinet env lib workspace) (opened, marked files
        ((opened.flatMap Cabinet.members).map CabinetMember.name)) (rest.map Cabinet.unopened)) s
      (fun scan s' => scan = (opened ++ rest, marked files
          (((opened ++ rest).flatMap Cabinet.members).map CabinetMember.name)) ∧
        Staged lib c workspace (opened ++ rest) [] s' ∧ s'.expanded = s.expanded + sizes.sum)
      fun _ _ => False := by
  induction haccepted generalizing opened s with
  | nil =>
      rw [List.append_nil]
      exact ⟨rfl, h, rfl⟩
  | @cons cabinet size rest sizes hcabinet _ ih =>
      obtain ⟨hmembers, hroom⟩ := numbers_of_split hnumbers
      have hnext : opened ++ cabinet :: rest = (opened ++ [cabinet]) ++ rest := by simp
      have hopened : ((opened ++ [cabinet]).flatMap Cabinet.members).map CabinetMember.name =
          (opened.flatMap Cabinet.members).map CabinetMember.name ++
            cabinet.members.map CabinetMember.name := by simp
      rw [List.sum_cons] at hlimit ⊢
      rw [hnext] at hnumbers hnames ⊢
      rw [List.map_cons, foldItems, ends_bind]
      have hdistinct : ((opened.flatMap Cabinet.members).map CabinetMember.name ++
          cabinet.members.map CabinetMember.name).Nodup := by
        rw [List.flatMap_append, List.map_append, hopened] at hnames
        exact (List.nodup_append.mp hnames).1
      have hstart : s.count = (opened.flatMap Cabinet.members).length := h.count_eq
      rw [← hstart] at hmembers hroom
      apply (preflightCabinet_returns hcalm h (hpaths cabinet List.mem_cons_self) hcabinet hmembers
        (by omega) (by omega) hfiles hdistinct (htakes cabinet List.mem_cons_self)).mono
      swap
      · exact fun _ _ => id
      rintro _ s' ⟨rfl, hstaged, hexpanded⟩
      rw [← hopened, ← Nat.add_assoc, ← hexpanded]
      exact ih hstaged (fun other hother => hpaths other (List.mem_cons_of_mem _ hother)) hnumbers
        (by omega) hnames fun other hother => htakes other (List.mem_cons_of_mem _ hother)

theorem preflightBinary_returns (hcalm : env.Calm) {row : Bytes × Bytes} {data : Bytes}
    (h : Staged lib c workspace cabinets binaries s) (hselect : c.select (.binary row.1) = [data])
    (hcount : s.count < memberLimit) (hlimit : s.expanded + data.length ≤ expansionLimit) :
    Ends (preflightBinary env workspace binaries row) s
      (fun binaries' s' => binaries' = binaries ++ [(row.1, payloadPath workspace s.count)] ∧
        Staged lib c workspace cabinets binaries' s' ∧ s'.expanded = s.expanded + data.length)
      fun _ _ => False := by
  have hheld : s.world.Holds (payloadPath workspace s.count) := h.made
  have hreturns : Ends (preflightBinary env workspace binaries row) s
      (fun binaries' s' => binaries' = binaries ++ [(row.1, payloadPath workspace s.count)] ∧
        s'.expanded = s.expanded + data.length)
      fun _ _ => False := by
    rw [preflightBinary, ends_bind, ends_current, ends_bind, ends_lift, invalidIf, throwIf,
      if_neg (Nat.not_le.mpr hcount)]
    change Ends _ _ _ _
    rw [ends_bind, ends_change, ends_bind, ends_lift, usub_of_le h.budget.limit, sat_ok, ends_bind]
    rw [← h.db] at hselect
    have hselect : ({ s with count := s.count + 1 } : Rewrite).db.select (.binary row.1) =
      [data] := hselect
    have hfits : data.length ≤ expansionLimit - s.expanded := by omega
    refine (hcalm.ends_extractStream hselect hfits hheld).mpr ?_
    exact ⟨rfl, rfl⟩
  apply (hreturns.and (preflightBinary_ends h)).mono
  · rintro binaries' s' ⟨⟨hbinaries, hexpanded⟩, -, hstaged, -⟩
    exact ⟨hbinaries, hstaged, hexpanded⟩
  · exact fun _ _ => And.left

/-- What stands behind `xs` in a numbering has the number of their count. -/
theorem numbered_behind {α : Type} {f : Nat → α} {n : Nat} {xs ys : List α} {y : α}
    (h : xs ++ y :: ys = (List.range n).map f) : y = f xs.length ∧ xs.length < n := by
  have hlength := congrArg List.length h
  simp only [List.length_append, List.length_cons, List.length_map, List.length_range] at hlength
  have hlt : xs.length < n := by omega
  have hget := congrArg (fun items => items[xs.length]?) h
  simp only [List.getElem?_append_right le_rfl, Nat.sub_self,
    List.getElem?_cons_zero, List.getElem?_map, List.getElem?_range hlt, Option.map_some,
    Option.some.injEq] at hget
  exact ⟨hget, hlt⟩

theorem preflightBinaries_returns (hcalm : env.Calm) {rest : List (Bytes × Path)}
    {rows : List (Bytes × Bytes)} {sizes : List Nat} {n : Nat}
    (h : Staged lib c workspace cabinets binaries s)
    (haccepted : List.Forall₂ (AcceptedBinary c) rest sizes)
    (hrows : rest.map Prod.fst = rows.map Prod.fst)
    (hnumbers : (cabinets.flatMap Cabinet.members).map CabinetMember.path ++
      (binaries ++ rest).map Prod.snd = (List.range n).map (payloadPath workspace))
    (hcount : n ≤ memberLimit) (hlimit : s.expanded + sizes.sum ≤ expansionLimit) :
    Ends (foldItems (preflightBinary env workspace) binaries rows) s
      (fun binaries' s' => binaries' = binaries ++ rest ∧
        Staged lib c workspace cabinets binaries' s')
      fun _ _ => False := by
  induction haccepted generalizing binaries rows s with
  | nil =>
      obtain rfl := List.map_eq_nil_iff.mp hrows.symm
      exact ⟨(List.append_nil binaries).symm, h⟩
  | @cons binary size rest sizes hbinary _ ih =>
      obtain ⟨row, rows, rfl, hname, hrest⟩ := List.map_eq_cons_iff.mp hrows.symm
      obtain ⟨data, hselect, rfl⟩ := hbinary
      have hsplit := hnumbers
      rw [List.map_append, List.map_cons, ← List.append_assoc, h.numbers] at hsplit
      obtain ⟨hpath, hroom⟩ := numbered_behind hsplit
      rw [List.length_map, List.length_range] at hpath hroom
      rw [List.sum_cons] at hlimit
      rw [foldItems, ends_bind]
      rw [← hname] at hselect
      apply (preflightBinary_returns hcalm h hselect (by omega) (by omega)).mono
      swap
      · exact fun _ _ => id
      rintro _ s' ⟨rfl, hstaged, hexpanded⟩
      have hnext : binaries ++ binary :: rest =
          (binaries ++ [(row.1, payloadPath workspace s.count)]) ++ rest := by
        rw [hname, ← hpath]
        simp
      rw [hnext] at hnumbers ⊢
      exact ih hstaged hrest.symm hnumbers (by omega)

end Steps

/-! ## The whole preflight -/

section Preflight

variable {env : Env} {lib : MsiLibrary} {c : MsiContents} {workspace : Nat} {s : Rewrite}
  {cabinets : List Cabinet} {binaries : List (Bytes × Path)} {plan : Plan}

theorem query_returns (hcalm : env.Calm) {Row : Type} {q : MsiQuery}
    {rows : MsiContents → List Row} {Q : List Row → Rewrite → Prop} {E : Exn → Rewrite → Prop}
    (h : Staged lib c workspace cabinets binaries s) (hfew : (rows c).length ≤ 65535)
    (hQ : ∀ s', Staged lib c workspace cabinets binaries s' → s'.expanded = s.expanded →
      Q (rows c) s') :
    Ends (query env workspace q rows) s Q E := by
  obtain rfl := h.db
  rw [hcalm.ends_query hfew]
  exact hQ _ ((h.withWorld (w := s.world.tick) (fun n => rfl) rfl).noted _) rfl

theorem queryIf_returns (hcalm : env.Calm) {Row : Type} {table : String} {q : MsiQuery}
    {rows : MsiContents → List Row} {Q : List Row → Rewrite → Prop} {E : Exn → Rewrite → Prop}
    (h : Staged lib c workspace cabinets binaries s)
    (hfew : (c.rowsIf table (rows c)).length ≤ 65535)
    (hQ : ∀ s', Staged lib c workspace cabinets binaries s' → s'.expanded = s.expanded →
      Q (c.rowsIf table (rows c)) s') :
    Ends (queryIf env workspace (ascii table ∈ c.tables) q rows) s Q E := by
  unfold queryIf MsiContents.rowsIf at *
  by_cases hpresent : ascii table ∈ c.tables
  · simp only [hpresent, decide_true, if_true] at hfew hQ ⊢
    exact query_returns hcalm h hfew hQ
  · simp only [hpresent, decide_false, if_false] at hQ ⊢
    exact hQ s h rfl

theorem found_marked {files : List FileRow} {names : List Bytes}
    (h : ∀ row ∈ files, row.name ∈ names) : ∀ row ∈ marked files names, row.found = true := by
  intro row hrow
  obtain ⟨origin, horigin, rfl⟩ := List.mem_map.mp hrow
  exact decide_eq_true (h origin horigin)

theorem Plan.Accepted.cabinet_path {start finish : Nat}
    (h : plan.Accepted lib c workspace start finish) :
    ∀ cabinet ∈ plan.cabinets, ∃ i, cabinet.path = cabinetPath workspace i := by
  intro cabinet hcabinet
  have hpaths := (mediaCabinets_safe.of_ok h.media).paths
  have hmem : cabinet.path ∈ (plan.cabinets.map Cabinet.unopened).map Cabinet.path := by
    rw [List.map_map]
    exact List.mem_map.mpr ⟨cabinet, hcabinet, rfl⟩
  rw [hpaths, List.mem_map] at hmem
  obtain ⟨i, -, hi⟩ := hmem
  exact ⟨i, hi.symm⟩

theorem Plan.Accepted.memberNumbers {start finish : Nat}
    (h : plan.Accepted lib c workspace start finish) :
    plan.members.map CabinetMember.path =
      (List.range plan.members.length).map (payloadPath workspace) := by
  have hnumbers := h.numbers
  rw [List.range_add, List.map_append] at hnumbers
  refine List.append_inj_left hnumbers ?_
  rw [List.length_map, List.length_map, List.length_range]

/-- A plan that the checks accept is returned, but for the rows. -/
theorem preflight_returns (hcalm : env.Calm) {finish : Nat} (h : Staged lib c workspace [] [] s)
    (haccepted : plan.Accepted lib c workspace s.expanded finish) :
    Ends (preflight env lib workspace) s
      (fun plan' _ => plan'.cabinets = plan.cabinets ∧ plan'.binaries = plan.binaries)
      fun _ _ => False := by
  obtain ⟨files, hfiles, htakes, hfound⟩ := haccepted.rows
  obtain ⟨sizes, sizes', hsizes, hsizes', hfinish⟩ := haccepted.spends
  obtain ⟨hread, hfresh⟩ := fileRows_safe.of_ok hfiles
  have hlimit := haccepted.limit
  rw [preflight, ends_bind]
  apply query_returns hcalm h haccepted.few.storages
  intro s₁ h₁ hexpanded₁
  rw [haccepted.noStorages, ends_bind, ends_lift, invalidIf, throwIf, if_neg (not_not.mpr rfl)]
  change Ends _ _ _ _
  rw [ends_bind]
  apply query_returns hcalm h₁ haccepted.few.tables
  intro s₂ h₂ hexpanded₂
  rw [ends_bind, ends_onWorld, hcalm.ends_attempt]
  replace h₂ := h₂.withWorld (w := s₂.world.tick) (fun n => rfl) rfl
  rw [ends_bind, ends_current, ends_bind]
  apply queryIf_returns hcalm h₂ haccepted.few.media
  intro s₃ h₃ hexpanded₃
  rw [ends_bind, ends_lift]
  refine (congrArg (Sat · _ _) haccepted.media).mpr ?_
  rw [sat_ok, ends_bind]
  apply queryIf_returns hcalm h₃ haccepted.few.file
  intro s₄ h₄ hexpanded₄
  rw [ends_bind, ends_lift]
  have hdb : s₂.db = c := h₂.db
  refine (congrArg (Sat · _ _) ((congrArg (fun db : MsiContents =>
    fileRows (db.wordCount.testBit 1) c.fileRows) hdb).trans hfiles)).mpr ?_
  rw [sat_ok, ends_bind]
  -- Queries spend nothing, so the cabinets start from the budget of the plan.
  have hstart : s₄.expanded = s.expanded :=
    hexpanded₄.trans (hexpanded₃.trans (hexpanded₂.trans hexpanded₁))
  have hcabinets : Ends (foldItems (preflightCabinet env lib workspace) ([], files)
      (plan.cabinets.map Cabinet.unopened)) s₄
      (fun scan s' => scan = (plan.cabinets, marked files (plan.members.map CabinetMember.name)) ∧
        Staged lib c workspace plan.cabinets [] s' ∧ s'.expanded = s₄.expanded + sizes.sum)
      fun _ _ => False := by
    have hall := preflightCabinets_returns hcalm h₄ haccepted.cabinet_path hsizes
      haccepted.memberNumbers ((Nat.le_add_right _ _).trans haccepted.count) (by omega) hread.names
      haccepted.names htakes
    rw [List.flatMap_nil, List.map_nil, marked_nil hfresh] at hall
    exact hall
  apply hcabinets.mono
  swap
  · exact fun _ _ => id
  rintro _ s₅ ⟨rfl, h₅, hexpanded₅⟩
  dsimp only
  rw [ends_bind, ends_lift, checkFound_all (found_marked hfound), sat_ok, ends_bind, ends_note,
    ends_bind]
  apply queryIf_returns hcalm (h₅.noted .mapped) haccepted.few.binary
  intro s₆ h₆ hexpanded₆
  rw [expanded_noted] at hexpanded₆
  rw [ends_bind]
  apply (preflightBinaries_returns hcalm h₆ hsizes' haccepted.binaries haccepted.numbers
    haccepted.count (by omega)).mono
  swap
  · exact fun _ _ => id
  rintro _ s₇ ⟨rfl, h₇⟩
  rw [ends_bind]
  apply queryIf_returns hcalm h₇ haccepted.few.fileHash
  intro s₈ _ _
  rw [ends_bind, ends_lift]
  refine (congrArg (Sat · _ _) haccepted.hashRows).mpr ?_
  rw [sat_ok, ends_bind, ends_note, ends_pure]
  exact ⟨rfl, rfl⟩

end Preflight

end AasSign
