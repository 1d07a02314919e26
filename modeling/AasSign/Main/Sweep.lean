import Mathlib.Data.List.Induction
import AasSign.Codec.Text

/-! # The global flags

The loop of `aas_sign_main` that takes `--insecure` and `--cacert PATH` out of `argv`, moving
what follows down in place. What is left is what the same pass over a list keeps.
-/

namespace AasSign

/-! ## In place -/

/-- `argv` and `argc`; a cell without a text is null. -/
structure Argv where
  cells : List (Option Bytes)
  argc : Nat
  deriving DecidableEq

/-- `argv[i]`. -/
def Argv.get (v : Argv) (i : Nat) : Option Bytes := v.cells[i]?.join

/-- `for (int j = from; j + n < argc; j++) argv[j] = argv[j + n];`, with the number of passes. -/
def shiftDown (n : Nat) : Nat → Nat → List (Option Bytes) → List (Option Bytes)
  | 0, _, cells => cells
  | count + 1, j, cells => shiftDown n count (j + 1) (cells.set j cells[j + n]?.join)

/-- `for (int k = 0; k < n; k++) argv[--argc] = nullptr;` -/
def clearLast : Nat → Argv → Argv
  | 0, v => v
  | n + 1, v => clearLast n { cells := v.cells.set (v.argc - 1) none, argc := v.argc - 1 }

/-- `erase_argv(from, n)`. -/
def eraseArgv (v : Argv) (start n : Nat) : Argv :=
  clearLast n { v with cells := shiftDown n (v.argc - (start + n)) start v.cells }

/-- The variables of the loop. -/
structure Sweep where
  argv : Argv
  i : Nat
  caBundle : Bytes
  insecure : Bool
  /-- How often it was warned that certificates are not verified. -/
  warnings : Nat
  deriving DecidableEq

/-- The loop, with a bound on its passes. -/
def sweepLoop : Nat → Sweep → Sweep
  | 0, s => s
  | fuel + 1, s =>
      match s.argv.get s.i with
      | none => s
      | some arg =>
          if s.argv.argc ≤ s.i then s
          else if arg = ascii "--insecure" then
            sweepLoop fuel { s with
              insecure := true, warnings := s.warnings + 1, argv := eraseArgv s.argv s.i 1 }
          else if arg = ascii "--cacert" ∧ s.i + 1 < s.argv.argc then
            sweepLoop fuel { s with
              caBundle := (s.argv.get (s.i + 1)).getD [], argv := eraseArgv s.argv s.i 2 }
          else sweepLoop fuel { s with i := s.i + 1 }

/-- The loop on the arguments of a program. -/
def sweepArgv (args : List Bytes) : Sweep :=
  sweepLoop args.length ⟨⟨args.map some ++ [none], args.length⟩, 1, [], false, 0⟩

/-! ## On a list -/

/-- What is kept of a list of arguments, and what the flags say. -/
structure Swept where
  rest : List Bytes
  caBundle : Bytes
  insecure : Bool
  warnings : Nat
  deriving DecidableEq

def Swept.keep (arg : Bytes) (swept : Swept) : Swept := { swept with rest := arg :: swept.rest }

/-- The pass over a list, with what was said before. -/
def sweepArgs (caBundle : Bytes) (insecure : Bool) (warnings : Nat) : List Bytes → Swept
  | [] => ⟨[], caBundle, insecure, warnings⟩
  | [arg] =>
      if arg = ascii "--insecure" then ⟨[], caBundle, true, warnings + 1⟩
      else ⟨[arg], caBundle, insecure, warnings⟩
  | arg :: value :: rest =>
      if arg = ascii "--insecure" then sweepArgs caBundle true (warnings + 1) (value :: rest)
      else if arg = ascii "--cacert" then sweepArgs value insecure warnings rest
      else (sweepArgs caBundle insecure warnings (value :: rest)).keep arg

/-! ## Erasing -/

/-- What follows is moved over what goes, in its order. -/
theorem shiftDown_eq (front gone back rest : List (Option Bytes)) (hgone : gone ≠ []) :
    ∃ left : List (Option Bytes),
    left.length = gone.length ∧
      shiftDown gone.length back.length front.length (front ++ (gone ++ (back ++ rest))) =
        front ++ (back ++ (left ++ rest)) := by
  induction back generalizing front gone with
  | nil => exact ⟨gone, rfl, rfl⟩
  | cons b back ih =>
      obtain ⟨g, gs, rfl⟩ := List.exists_cons_of_ne_nil hgone
      obtain ⟨left, hlength, heq⟩ := ih (front ++ [b]) (gs ++ [b]) (by simp)
      refine ⟨left, by simpa using hlength, ?_⟩
      have hread : (front ++ (g :: gs ++ (b :: back ++ rest)))[front.length + (g :: gs).length]?.join = b := by
        rw [List.getElem?_append_right (Nat.le_add_right _ _), Nat.add_sub_cancel_left,
          List.getElem?_append_right le_rfl, Nat.sub_self]
        rfl
      have hset : (front ++ (g :: gs ++ (b :: back ++ rest))).set front.length b =
          front ++ [b] ++ (gs ++ [b] ++ (back ++ rest)) := by
        rw [List.set_append_right _ _ le_rfl, Nat.sub_self]
        simp
      have hcount : (gs ++ [b]).length = (g :: gs).length := by simp
      rw [show (b :: back).length = back.length + 1 from rfl, shiftDown, hread, hset, ← hcount]
      have hfront : (front ++ [b]).length = front.length + 1 := by simp
      rw [hfront] at heq
      rw [heq]
      simp

/-- The last cells are null, and no longer counted. -/
theorem clearLast_eq (kept gone rest : List (Option Bytes)) : clearLast gone.length
    ⟨kept ++ (gone ++ rest), kept.length + gone.length⟩ =
      ⟨kept ++ (List.replicate gone.length none ++ rest), kept.length⟩ := by
  induction gone using List.reverseRecOn generalizing rest with
  | nil => rfl
  | append_singleton gone g ih =>
      have hset : (kept ++ (gone ++ [g] ++ rest)).set (kept.length + gone.length) none =
          kept ++ (gone ++ (none :: rest)) := by
        rw [List.set_append_right _ _ (Nat.le_add_right _ _), Nat.add_sub_cancel_left,
          List.append_assoc, List.set_append_right _ _ le_rfl, Nat.sub_self]
        rfl
      rw [List.length_append, List.length_singleton, clearLast]
      dsimp only
      rw [← Nat.add_assoc, Nat.add_sub_cancel, hset, ih, List.replicate_succ']
      simp

/-- `erase_argv` takes the arguments out, and leaves null cells behind the last one. -/
theorem eraseArgv_eq (front gone back rest : List (Option Bytes)) (hgone : gone ≠ []) :
    eraseArgv ⟨front ++ (gone ++ (back ++ rest)), front.length + (gone.length + back.length)⟩
      front.length gone.length =
    ⟨front ++ (back ++ (List.replicate gone.length none ++ rest)), front.length + back.length⟩ := by
  obtain ⟨left, hlength, heq⟩ := shiftDown_eq front gone back rest hgone
  have hcount : front.length + (gone.length + back.length) - (front.length + gone.length) =
      back.length := by omega
  have hlast := clearLast_eq (front ++ back) left rest
  rw [eraseArgv, hcount, heq, ← hlength]
  rw [List.length_append, List.append_assoc, List.append_assoc] at hlast
  rw [← hlast]
  congr 2
  dsimp only
  omega

/-! ## The loop and the list -/

section Loop

variable {kept args : List Bytes} {rest : List (Option Bytes)} {caBundle : Bytes} {insecure : Bool}
  {warnings : Nat}

/-- The loop stands at the first of the arguments that are left. -/
def Sweep.at (kept args : List Bytes) (rest : List (Option Bytes)) (caBundle : Bytes)
    (insecure : Bool) (warnings : Nat) : Sweep :=
  ⟨⟨kept.map some ++ (args.map some ++ rest), kept.length + args.length⟩, kept.length, caBundle,
    insecure, warnings⟩

theorem get_at {arg : Bytes} :
    (Sweep.at kept (arg :: args) rest caBundle insecure warnings).argv.get kept.length = some arg := by
  simp [Sweep.at, Argv.get]

theorem get_next {arg value : Bytes} :
    (Sweep.at kept (arg :: value :: args) rest caBundle insecure warnings).argv.get (kept.length + 1) =
      some value := by
  simp [Sweep.at, Argv.get]

/-- Taking the first arguments out leaves the loop at the next one. -/
theorem erase_at (kept args : List Bytes) (rest : List (Option Bytes)) {gone : List Bytes}
    (hgone : gone ≠ []) :
    eraseArgv ⟨kept.map some ++ ((gone ++ args).map some ++ rest), kept.length + (gone ++ args).length⟩
      kept.length gone.length =
    ⟨kept.map some ++ (args.map some ++ (List.replicate gone.length none ++ rest)),
      kept.length + args.length⟩ := by
  have herase := eraseArgv_eq (kept.map some) (gone.map some) (args.map some) rest
    (by simpa using hgone)
  simpa using herase

/-- The loop at its end. -/
theorem sweepLoop_nil {fuel : Nat} : sweepLoop fuel (Sweep.at kept [] rest caBundle insecure warnings) =
    Sweep.at kept [] rest caBundle insecure warnings := by
  cases fuel with
  | zero => rfl
  | succ fuel =>
      rw [sweepLoop]
      cases (Sweep.at kept [] rest caBundle insecure warnings).argv.get
          (Sweep.at kept [] rest caBundle insecure warnings).i with
      | none => rfl
      | some arg => exact if_pos le_rfl

theorem sweepLoop_insecure {fuel : Nat} {arg : Bytes} (harg : arg = ascii "--insecure") :
    sweepLoop (fuel + 1) (Sweep.at kept (arg :: args) rest caBundle insecure warnings) =
      sweepLoop fuel (Sweep.at kept args (none :: rest) caBundle true (warnings + 1)) := by
  have herase := erase_at kept args rest (List.cons_ne_nil arg [])
  rw [sweepLoop, show (Sweep.at kept (arg :: args) rest caBundle insecure warnings).i = kept.length from rfl,
    get_at]
  dsimp only
  rw [if_neg (by simp [Sweep.at]), if_pos harg]
  exact congrArg (fun argv => sweepLoop fuel ⟨argv, kept.length, caBundle, true, warnings + 1⟩) herase

theorem sweepLoop_cacert {fuel : Nat} {arg value : Bytes} (hne : arg ≠ ascii "--insecure")
    (harg : arg = ascii "--cacert") :
    sweepLoop (fuel + 1) (Sweep.at kept (arg :: value :: args) rest caBundle insecure warnings) =
      sweepLoop fuel (Sweep.at kept args (none :: none :: rest) value insecure warnings) := by
  have herase := erase_at kept args rest (List.cons_ne_nil arg [value])
  rw [sweepLoop, show (Sweep.at kept (arg :: value :: args) rest caBundle insecure warnings).i =
    kept.length from rfl, get_at]
  dsimp only
  rw [if_neg (by simp [Sweep.at]), if_neg hne, if_pos ⟨harg, by simp [Sweep.at]⟩, get_next,
    Option.getD_some]
  exact congrArg (fun argv => sweepLoop fuel ⟨argv, kept.length, value, insecure, warnings⟩) herase

theorem sweepLoop_keep {fuel : Nat} {arg : Bytes} (hne : arg ≠ ascii "--insecure")
    (harg : arg = ascii "--cacert" → args = []) :
    sweepLoop (fuel + 1) (Sweep.at kept (arg :: args) rest caBundle insecure warnings) =
      sweepLoop fuel (Sweep.at (kept ++ [arg]) args rest caBundle insecure warnings) := by
  have hlast : ¬ (arg = ascii "--cacert" ∧
      kept.length + 1 < (Sweep.at kept (arg :: args) rest caBundle insecure warnings).argv.argc) := by
    rintro ⟨hcacert, hless⟩
    rw [harg hcacert] at hless
    exact lt_irrefl _ hless
  rw [sweepLoop, show (Sweep.at kept (arg :: args) rest caBundle insecure warnings).i = kept.length from rfl,
    get_at]
  dsimp only
  rw [if_neg (by simp [Sweep.at]), if_neg hne, if_neg hlast]
  congr 1
  simp [Sweep.at, Nat.add_comm, Nat.add_left_comm]

theorem sweepArgs_sublist (caBundle : Bytes) (insecure : Bool) (warnings : Nat) (args : List Bytes) :
    (sweepArgs caBundle insecure warnings args).rest.Sublist args := by
  fun_induction sweepArgs caBundle insecure warnings args with
  | case1 => exact .slnil
  | case2 => exact List.nil_sublist _
  | case3 => exact List.Sublist.refl _
  | case4 caBundle insecure warnings value rest ih => exact ih.cons _
  | case5 caBundle insecure warnings value rest hne ih => exact (ih.cons _).cons _
  | case6 caBundle insecure warnings arg value rest harg hcacert ih => exact ih.cons_cons _

theorem replicate_append {n k : Nat} (cells : List (Option Bytes)) :
    List.replicate n none ++ (List.replicate k none ++ cells) = List.replicate (n + k) none ++ cells := by
  rw [← List.append_assoc, List.replicate_append_replicate]

/-- At the end the loop has kept what the pass over the list keeps, and the cells that are no
longer counted are null. -/
theorem sweepLoop_at (kept : List Bytes) (rest : List (Option Bytes)) (caBundle : Bytes)
    (insecure : Bool) (warnings : Nat) {fuel : Nat} (hfuel : args.length ≤ fuel) :
    sweepLoop fuel (Sweep.at kept args rest caBundle insecure warnings) =
      let swept := sweepArgs caBundle insecure warnings args
      Sweep.at (kept ++ swept.rest) [] (List.replicate (args.length - swept.rest.length) none ++ rest)
        swept.caBundle swept.insecure swept.warnings := by
  fun_induction sweepArgs caBundle insecure warnings args generalizing kept rest fuel with
  | case1 => simpa using sweepLoop_nil
  | case2 caBundle insecure warnings =>
      obtain ⟨fuel, rfl⟩ : ∃ n, fuel = n + 1 := Nat.exists_eq_add_of_le' hfuel
      rw [sweepLoop_insecure rfl, sweepLoop_nil]
      simp
  | case3 caBundle insecure warnings arg harg =>
      obtain ⟨fuel, rfl⟩ : ∃ n, fuel = n + 1 := Nat.exists_eq_add_of_le' hfuel
      rw [sweepLoop_keep harg fun _ => rfl, sweepLoop_nil]
      simp
  | case4 caBundle insecure warnings value args ih =>
      obtain ⟨fuel, rfl⟩ : ∃ n, fuel = n + 1 := Nat.exists_eq_add_of_le' (Nat.one_le_of_lt hfuel)
      have hlength := (sweepArgs_sublist caBundle true (warnings + 1) (value :: args)).length_le
      rw [sweepLoop_insecure rfl, ih _ _ (Nat.le_of_succ_le_succ hfuel)]
      dsimp only
      rw [show none :: rest = List.replicate 1 none ++ rest from rfl, replicate_append,
        List.length_cons (a := ascii "--insecure"), Nat.sub_add_comm hlength]
  | case5 caBundle insecure warnings value args hne ih =>
      obtain ⟨fuel, rfl⟩ : ∃ n, fuel = n + 1 := Nat.exists_eq_add_of_le' (Nat.one_le_of_lt hfuel)
      have hlength := (sweepArgs_sublist value insecure warnings args).length_le
      rw [sweepLoop_cacert hne rfl, ih _ _ (Nat.le_of_succ_le_succ (Nat.le_of_succ_le hfuel))]
      dsimp only
      rw [show none :: none :: rest = List.replicate 2 none ++ rest from rfl, replicate_append,
        show (ascii "--cacert" :: value :: args).length = args.length + 2 from rfl,
        Nat.sub_add_comm hlength]
  | case6 caBundle insecure warnings arg value args harg hcacert ih =>
      obtain ⟨fuel, rfl⟩ : ∃ n, fuel = n + 1 := Nat.exists_eq_add_of_le' (Nat.one_le_of_lt hfuel)
      rw [sweepLoop_keep harg fun h => absurd h hcacert, ih _ _ (Nat.le_of_succ_le_succ hfuel)]
      simp [Swept.keep]

end Loop

/-! ## What the flags say -/

/-- What an argument, or a flag with its value, is taken for. -/
inductive GlobalItem where
  | insecure
  | cacert (path : Bytes)
  | handedOn (arg : Bytes)
  deriving DecidableEq

namespace GlobalItem

/-- The arguments of an item. -/
def args : GlobalItem → List Bytes
  | insecure => [ascii "--insecure"]
  | cacert path => [ascii "--cacert", path]
  | handedOn arg => [arg]

/-- The argument that a subcommand sees of an item. -/
def seen : GlobalItem → Option Bytes
  | handedOn arg => some arg
  | _ => none

def path : GlobalItem → Option Bytes
  | cacert path => some path
  | _ => none

/-- What is handed on is no flag, unless it is the last argument and lacks its value. -/
inductive Readable : List GlobalItem → Prop where
  | nil : Readable []
  | insecure {items : List GlobalItem} (h : Readable items) : Readable (insecure :: items)
  | cacert {items : List GlobalItem} (path : Bytes) (h : Readable items) :
      Readable (cacert path :: items)
  | handedOn {items : List GlobalItem} (arg : Bytes) (hinsecure : arg ≠ ascii "--insecure")
      (hcacert : arg = ascii "--cacert" → items = []) (h : Readable items) :
      Readable (handedOn arg :: items)

/-- What the items say after what was said before. -/
def summary (items : List GlobalItem) (caBundle : Bytes) (insecure : Bool) (warnings : Nat) : Swept where
  rest := items.filterMap seen
  caBundle := (items.filterMap path).getLastD caBundle
  insecure := insecure || decide (GlobalItem.insecure ∈ items)
  warnings := warnings + items.count GlobalItem.insecure

section Summary

variable (items : List GlobalItem) (caBundle : Bytes) (warned : Bool) (warnings : Nat)

theorem summary_insecure : summary (insecure :: items) caBundle warned warnings =
    summary items caBundle true (warnings + 1) := by
  have hrest : (insecure :: items).filterMap seen = items.filterMap seen :=
    List.filterMap_cons_none rfl
  have hpath : (insecure :: items).filterMap path = items.filterMap path :=
    List.filterMap_cons_none rfl
  simp [summary, hrest, hpath, Nat.add_comm, Nat.add_left_comm]

theorem summary_cacert (value : Bytes) : summary (cacert value :: items) caBundle warned warnings =
    summary items value warned warnings := by
  have hrest : (cacert value :: items).filterMap seen = items.filterMap seen :=
    List.filterMap_cons_none rfl
  have hpath : (cacert value :: items).filterMap path = value :: items.filterMap path :=
    List.filterMap_cons_some rfl
  have hmem : decide (insecure ∈ cacert value :: items) = decide (insecure ∈ items) := by simp
  have hcount : (cacert value :: items).count insecure = items.count insecure := by simp
  rw [summary, hrest, hpath, List.getLastD_cons, hmem, hcount, summary]

theorem summary_handedOn (arg : Bytes) : summary (handedOn arg :: items) caBundle warned warnings =
    (summary items caBundle warned warnings).keep arg := by
  have hrest : (handedOn arg :: items).filterMap seen = arg :: items.filterMap seen :=
    List.filterMap_cons_some rfl
  have hpath : (handedOn arg :: items).filterMap path = items.filterMap path :=
    List.filterMap_cons_none rfl
  simp [summary, Swept.keep, hrest, hpath]

end Summary

end GlobalItem

open GlobalItem in
/-- The pass over the list reads the arguments as items. -/
theorem exists_items (caBundle : Bytes) (insecure : Bool) (warnings : Nat) (args : List Bytes) :
    ∃ items, Readable items ∧ items.flatMap GlobalItem.args = args ∧
      sweepArgs caBundle insecure warnings args = summary items caBundle insecure warnings := by
  fun_induction sweepArgs caBundle insecure warnings args with
  | case1 caBundle insecure warnings => exact ⟨[], .nil, rfl, by simp [summary]⟩
  | case2 caBundle insecure warnings =>
      exact ⟨[.insecure], .insecure .nil, rfl, by simp [summary, seen, path]⟩
  | case3 caBundle insecure warnings arg harg =>
      exact ⟨[.handedOn arg], .handedOn arg harg (fun _ => rfl) .nil, rfl, by simp [summary, seen, path]⟩
  | case4 caBundle insecure warnings value args ih =>
      obtain ⟨items, hreadable, hargs, hsummary⟩ := ih
      refine ⟨.insecure :: items, .insecure hreadable, ?_, ?_⟩
      · rw [List.flatMap_cons, hargs]
        rfl
      · rw [hsummary, summary_insecure]
  | case5 caBundle insecure warnings value args hne ih =>
      obtain ⟨items, hreadable, hargs, hsummary⟩ := ih
      refine ⟨.cacert value :: items, .cacert value hreadable, ?_, ?_⟩
      · rw [List.flatMap_cons, hargs]
        rfl
      · rw [hsummary, summary_cacert]
  | case6 caBundle insecure warnings arg value args harg hcacert ih =>
      obtain ⟨items, hreadable, hargs, hsummary⟩ := ih
      refine ⟨.handedOn arg :: items, .handedOn arg harg (fun h => absurd h hcacert) hreadable, ?_, ?_⟩
      · rw [List.flatMap_cons, hargs]
        rfl
      · rw [hsummary, summary_handedOn]

open GlobalItem in
/-- The loop in place reads the arguments of a program as items: the cells of `argv` are those
of the program and of what is handed on, in order, and null behind them; the trust is what the
last `--cacert` names, and certificates are not verified exactly if `--insecure` is among them,
which is warned of each time. -/
theorem sweepArgv_items (program : Bytes) (args : List Bytes) : ∃ items, Readable items ∧
    items.flatMap GlobalItem.args = args ∧
    (sweepArgv (program :: args)).argv =
      ⟨(program :: items.filterMap seen).map some ++
        List.replicate (args.length - (items.filterMap seen).length + 1) none,
        (items.filterMap seen).length + 1⟩ ∧
    (sweepArgv (program :: args)).caBundle = (items.filterMap path).getLastD [] ∧
    ((sweepArgv (program :: args)).insecure = true ↔ GlobalItem.insecure ∈ items) ∧
    (sweepArgv (program :: args)).warnings = items.count GlobalItem.insecure := by
  obtain ⟨items, hreadable, hargs, hsummary⟩ := exists_items [] false 0 args
  have hloop := sweepLoop_at [program] [none] [] false 0 (Nat.le_succ args.length)
  have hstart : Sweep.at [program] args [none] [] false 0 =
      ⟨⟨(program :: args).map some ++ [none], (program :: args).length⟩, 1, [], false, 0⟩ := by
    simp [Sweep.at, Nat.add_comm]
  rw [hstart, hsummary] at hloop
  have hsweep : sweepArgv (program :: args) = _ := hloop
  rw [hsweep]
  refine ⟨items, hreadable, hargs, ?_, rfl, ?_, ?_⟩
  · have hnulls : List.replicate (args.length - (items.filterMap seen).length) (none : Option Bytes) ++
        [none] = List.replicate (args.length - (items.filterMap seen).length + 1) none :=
      List.replicate_succ'.symm
    simp [Sweep.at, summary, hnulls]
  · simp [Sweep.at, summary]
  · simp [Sweep.at, summary]

end AasSign
