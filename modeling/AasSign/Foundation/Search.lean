import Mathlib.Data.List.Basic
import Mathlib.Data.List.Infix
import AasSign.Foundation.Octets

/-! # Searching an octet string

The first occurrence of one string in another from a given place on, and the
occurrences in a string that a separator splits.
-/

namespace Foundation

universe u

variable {α : Type u} [DecidableEq α]

/-- The first offset from `pos` on at which `needle` occurs. -/
def findFrom (needle whole : List α) (pos : Nat) : Option Nat :=
  (List.range (whole.length + 1)).find? fun i => decide (pos ≤ i ∧ needle <+: whole.drop i)

section FindFrom

variable {needle whole : List α} {pos i : Nat}

omit [DecidableEq α] in
theorem occursAt_iff : OccursAt needle whole i ↔ i ≤ whole.length ∧ needle <+: whole.drop i := by
  constructor
  · rintro ⟨before, after, rfl, rfl⟩
    simp
  · rintro ⟨hbound, after, hafter⟩
    exact ⟨whole.take i, after, by rw [hafter, List.take_append_drop], List.length_take_of_le hbound⟩

theorem findFrom_eq_some : findFrom needle whole pos = some i ↔
    pos ≤ i ∧ OccursAt needle whole i ∧ ∀ j, pos ≤ j → j < i → ¬ OccursAt needle whole j := by
  rw [findFrom, List.find?_range_eq_some]
  simp only [decide_eq_true_eq, List.mem_range, Nat.lt_succ_iff, Bool.not_eq_eq_eq_not,
    Bool.not_true, decide_eq_false_iff_not, occursAt_iff]
  constructor
  · rintro ⟨⟨hpos, hhere⟩, hbound, hfirst⟩
    exact ⟨hpos, ⟨hbound, hhere⟩, fun j hj hlt hoccurs => hfirst j hlt ⟨hj, hoccurs.2⟩⟩
  · rintro ⟨hpos, ⟨hbound, hhere⟩, hfirst⟩
    exact ⟨⟨hpos, hhere⟩, hbound, fun j hlt hj => hfirst j hj.1 hlt ⟨by omega, hj.2⟩⟩

theorem findFrom_eq_none :
    findFrom needle whole pos = none ↔ ∀ j, pos ≤ j → ¬ OccursAt needle whole j := by
  rw [findFrom, List.find?_range_eq_none]
  simp only [Nat.lt_succ_iff, Bool.not_eq_eq_eq_not, Bool.not_true, decide_eq_false_iff_not,
    occursAt_iff]
  constructor
  · exact fun h j hj hoccurs => h j hoccurs.1 ⟨hj, hoccurs.2⟩
  · exact fun h j hbound hj => h j hj.1 ⟨hbound, hj.2⟩

omit [DecidableEq α] in
theorem exists_occursAt : (∃ i, OccursAt needle whole i) ↔ needle <:+: whole := by
  constructor
  · rintro ⟨i, before, after, hwhole, -⟩
    exact ⟨before, after, by rw [hwhole, List.append_assoc]⟩
  · rintro ⟨before, after, hwhole⟩
    exact ⟨before.length, before, after, by rw [← hwhole, List.append_assoc], rfl⟩

theorem findFrom_isSome : (findFrom needle whole 0).isSome ↔ needle <:+: whole := by
  rw [Option.isSome_iff_ne_none, Ne, findFrom_eq_none, ← exists_occursAt]
  simp

end FindFrom

/-- The first place of a symbol is behind a string without it. -/
theorem findFrom_symbol {a : α} {front back : List α} (ha : a ∉ front) :
    findFrom [a] (front ++ a :: back) 0 = some front.length := by
  rw [findFrom_eq_some]
  refine ⟨Nat.zero_le _, ⟨front, back, rfl, rfl⟩, ?_⟩
  intro j _ hj hoccurs
  have hsymbol := hoccurs.getElem? (i := 0) (by simp)
  rw [Nat.add_zero, List.getElem?_append_left hj] at hsymbol
  exact ha (List.mem_of_getElem? hsymbol)

theorem takeWhile_symbol {a : α} {front : List α} (hfront : a ∉ front) (back : List α) :
    (front ++ a :: back).takeWhile (· ≠ a) = front ∧
      (front ++ a :: back).dropWhile (· ≠ a) = a :: back := by
  have hpass : ∀ b ∈ front, decide (b ≠ a) = true := fun b hb =>
    decide_eq_true (ne_of_mem_of_not_mem hb hfront)
  rw [List.takeWhile_append_of_pos hpass, List.dropWhile_append_of_pos hpass]
  simp

/-- A string is cut at the first place of a symbol in one way. -/
theorem split_at_symbol {a : α} {front front' back back' : List α} (hfront : a ∉ front)
    (hfront' : a ∉ front') (h : front ++ a :: back = front' ++ a :: back') :
    front = front' ∧ back = back' := by
  obtain ⟨htake, hdrop⟩ := takeWhile_symbol hfront back
  obtain ⟨htake', hdrop'⟩ := takeWhile_symbol hfront' back'
  rw [h] at htake hdrop
  exact ⟨htake.symm.trans htake', (List.cons.inj (hdrop.symm.trans hdrop')).2⟩

/-- The part of a string before a symbol, and what the symbol is followed by. -/
theorem exists_first_symbol {a : α} {whole : List α} (ha : a ∈ whole) :
    ∃ front back, whole = front ++ a :: back ∧ a ∉ front ∧ whole.takeWhile (· ≠ a) = front ∧
      whole.dropWhile (· ≠ a) = a :: back := by
  obtain ⟨front, back, rfl, hfront⟩ := List.eq_append_cons_of_mem ha
  exact ⟨front, back, rfl, hfront, takeWhile_symbol hfront back⟩

theorem takeWhile_ne_of_not_mem {a : α} {whole : List α} (ha : a ∉ whole) :
    whole.takeWhile (· ≠ a) = whole ∧ whole.dropWhile (· ≠ a) = [] := by
  have hpass : ∀ b ∈ whole, decide (b ≠ a) = true := by
    intro b hb
    exact decide_eq_true (ne_of_mem_of_not_mem hb ha)
  have htake : (whole ++ []).takeWhile (· ≠ a) = whole ++ [] := List.takeWhile_append_of_pos hpass
  have hdrop : (whole ++ []).dropWhile (· ≠ a) = [] := List.dropWhile_append_of_pos hpass
  rw [List.append_nil] at htake hdrop
  exact ⟨htake, hdrop⟩

/-- From a place on, a symbol is found behind the symbols that differ from it. -/
theorem findFrom_symbol_from {a : α} {whole : List α} {pos : Nat} (hpos : pos ≤ whole.length) :
    findFrom [a] whole pos = if a ∈ whole.drop pos then
      some (pos + ((whole.drop pos).takeWhile (· ≠ a)).length) else none := by
  split
  next ha =>
    obtain ⟨front, back, hdrop, hfront, htake, -⟩ := exists_first_symbol ha
    have hwhole : whole = whole.take pos ++ (front ++ a :: back) := by
      rw [← hdrop, List.take_append_drop]
    have hlength : (whole.take pos).length = pos := List.length_take_of_le hpos
    rw [htake, findFrom_eq_some]
    refine ⟨Nat.le_add_right _ _, ⟨whole.take pos ++ front, back, ?_, ?_⟩, ?_⟩
    · rw [List.append_assoc]
      exact hwhole
    · rw [List.length_append, hlength]
    · intro j hj hlt hoccurs
      have hsymbol := hoccurs.getElem? (i := 0) (by simp)
      rw [Nat.add_zero, hwhole, List.getElem?_append_right (by omega), hlength,
        List.getElem?_append_left (by omega)] at hsymbol
      exact hfront (List.mem_of_getElem? hsymbol)
  next ha =>
    rw [findFrom_eq_none]
    intro j hj hoccurs
    have hsymbol := hoccurs.getElem? (i := 0) (by simp)
    obtain ⟨i, rfl⟩ := Nat.exists_eq_add_of_le hj
    rw [Nat.add_zero, ← List.getElem?_drop] at hsymbol
    exact ha (List.mem_of_getElem? hsymbol)

/-- The part of a split string that begins at a place, and what is behind its separator. -/
theorem splitOn_drop {a : α} {whole : List α} {first : Nat} (hfirst : first ≤ whole.length) :
    (whole.drop first).splitOn a =
      match findFrom [a] whole first with
      | none => [whole.drop first]
      | some last =>
          (whole.drop first).take (last - first) :: (whole.drop (last + 1)).splitOn a := by
  rw [findFrom_symbol_from hfirst]
  split_ifs with hmem
  · obtain ⟨front, back, hdrop, hfree, htake, -⟩ := exists_first_symbol hmem
    dsimp only
    rw [Nat.add_sub_cancel_left, htake, hdrop, List.splitOn_append_cons_self,
      List.splitOn_eq_singleton hfree, List.take_left, Nat.add_assoc, ← List.drop_drop, hdrop,
      List.drop_length_add_append]
    rfl
  · exact List.splitOn_eq_singleton hmem

/-- A loop over the parts of a string between separators, up to the first one that has what is
sought, with a bound on its passes. -/
def searchParts {β : Type*} (separator : α) (visit : List α → Option β) (whole : List α) :
    Nat → Nat → Option β
  | 0, _ => none
  | fuel + 1, first =>
      let last := findFrom [separator] whole first
      let part :=
        match last with
        | none => whole.drop first
        | some last => (whole.drop first).take (last - first)
      match visit part with
      | some found => some found
      | none =>
          match last with
          | none => none
          | some last => searchParts separator visit whole fuel (last + 1)

/-- The loop visits the parts of the split string in turn. -/
theorem searchParts_eq {β : Type*} {separator : α} {visit : List α → Option β} {whole : List α}
    {fuel first : Nat} (hfirst : first ≤ whole.length) (hfuel : whole.length < first + fuel) :
    searchParts separator visit whole fuel first =
      ((whole.drop first).splitOn separator).findSome? visit := by
  induction fuel generalizing first with
  | zero => omega
  | succ fuel ih =>
      rw [searchParts, splitOn_drop hfirst]
      cases hlast : findFrom [separator] whole first with
      | none =>
          dsimp only
          rw [List.findSome?_cons]
          cases visit (whole.drop first) <;> rfl
      | some last =>
          dsimp only
          rw [List.findSome?_cons]
          cases visit ((whole.drop first).take (last - first)) with
          | some found => rfl
          | none =>
              obtain ⟨hafter, hoccurs, -⟩ := findFrom_eq_some.mp hlast
              have hbound := hoccurs.bound
              rw [List.length_singleton] at hbound
              exact ih hbound (by omega)

/-- Where nothing is found the end stands for it. -/
theorem findFrom_symbol_getD {a : α} {whole : List α} {pos : Nat} (hpos : pos ≤ whole.length) :
    (findFrom [a] whole pos).getD whole.length =
      pos + ((whole.drop pos).takeWhile (· ≠ a)).length := by
  rw [findFrom_symbol_from hpos]
  split
  next => rfl
  next ha =>
    rw [(takeWhile_ne_of_not_mem ha).1, List.length_drop, Option.getD_none]
    omega

/-! ## Strings with a separator -/

section Separator

omit [DecidableEq α]

variable {needle left right : List α} {separator : α}

theorem prefix_of_separator (left : List α) (hneedle : separator ∉ needle)
    (h : needle <+: left ++ separator :: right) : needle <+: left := by
  have hleft : left ++ [separator] <+: left ++ separator :: right := ⟨right, by simp⟩
  rcases List.prefix_or_prefix_of_prefix h hleft with hshort | hlong
  · rcases List.prefix_concat_iff.mp hshort with heq | hprefix
    · exact absurd (by simp [heq]) hneedle
    · exact hprefix
  · exact absurd (hlong.subset (by simp)) hneedle

/-- A string without the separator does not reach across it. -/
theorem infix_separator (left : List α) (hneedle : separator ∉ needle) :
    needle <:+: left ++ separator :: right ↔ needle <:+: left ∨ needle <:+: right := by
  constructor
  · intro h
    induction left with
    | nil =>
        rcases List.infix_cons_iff.mp h with hprefix | hright
        · exact .inl (prefix_of_separator [] hneedle hprefix).isInfix
        · exact .inr hright
    | cons a left ih =>
        rcases List.infix_cons_iff.mp h with hprefix | hrest
        · exact .inl (prefix_of_separator (a :: left) hneedle hprefix).isInfix
        · exact (ih hrest).imp (·.trans (List.infix_cons (List.infix_refl left))) id
  · rintro (hleft | hright)
    · exact hleft.trans (List.prefix_append left _).isInfix
    · exact hright.trans ((List.suffix_cons separator right).trans (List.suffix_append left _)).isInfix

end Separator

/-! ## Lines

Lines that end in a mark of two different symbols.
-/

section Lines

omit [DecidableEq α]

variable {a b : α} {line whole rest : List α} {j : Nat}

theorem occursAt_pair : OccursAt [a, b] whole j ↔ whole[j]? = some a ∧ whole[j + 1]? = some b := by
  constructor
  · intro h
    exact ⟨h.getElem? (i := 0) (by simp), h.getElem? (i := 1) (by simp)⟩
  · rintro ⟨hfirst, hsecond⟩
    obtain ⟨hj, rfl⟩ := List.getElem?_eq_some_iff.mp hfirst
    obtain ⟨hj', rfl⟩ := List.getElem?_eq_some_iff.mp hsecond
    refine ⟨whole.take j, whole.drop (j + 2), ?_, List.length_take_of_le hj.le⟩
    rw [List.cons_append, List.cons_append, List.nil_append, List.getElem_cons_drop,
      List.getElem_cons_drop, List.take_append_drop]

theorem occursAt_append_right {needle front back : List α} :
    OccursAt needle (front ++ back) (front.length + j) ↔ OccursAt needle back j := by
  rw [occursAt_iff, occursAt_iff, List.length_append, List.drop_length_add_append]
  simp

/-- Where the mark occurs in a line and what follows it. -/
theorem occursAt_line (hab : a ≠ b) (hline : ¬ [a, b] <:+: line) :
    OccursAt [a, b] (line ++ a :: b :: rest) j ↔
      j = line.length ∨ ∃ k, j = line.length + (2 + k) ∧ OccursAt [a, b] rest k := by
  rcases Nat.lt_or_ge j line.length with hj | hj
  · -- In the line itself there is no mark, and one that starts at its last symbol is not one.
    have hnone : ¬ OccursAt [a, b] (line ++ a :: b :: rest) j := by
      rw [occursAt_pair]
      rintro ⟨hfirst, hsecond⟩
      rw [List.getElem?_append_left hj] at hfirst
      rcases Nat.lt_or_ge (j + 1) line.length with hnext | hnext
      · rw [List.getElem?_append_left hnext] at hsecond
        exact hline (exists_occursAt.mp ⟨j, occursAt_pair.mpr ⟨hfirst, hsecond⟩⟩)
      · rw [show j + 1 = line.length by omega, List.getElem?_append_right (Nat.le_refl _)] at hsecond
        exact hab (by simpa using hsecond)
    refine iff_of_false hnone ?_
    rintro (rfl | ⟨k, rfl, -⟩) <;> omega
  · obtain ⟨k, rfl⟩ := Nat.exists_eq_add_of_le hj
    rw [occursAt_append_right]
    match k with
    | 0 => simp [occursAt_pair]
    | 1 => simpa [occursAt_pair, hab.symm] using fun k (hk : 1 = 2 + k) => by omega
    | k + 2 =>
        rw [show a :: b :: rest = [a, b] ++ rest from rfl, Nat.add_comm k 2,
          show (2 : Nat) = [a, b].length from rfl, occursAt_append_right]
        simp only [List.length_cons, List.length_nil]
        constructor
        · exact fun h => .inr ⟨k, rfl, h⟩
        · rintro (h | ⟨k', hk', h⟩)
          · omega
          · rwa [show k = k' by omega]

/-- Two marks in a row. -/
theorem occursAt_twice {mark : List α} :
    OccursAt (mark ++ mark) whole j ↔
      OccursAt mark whole j ∧ OccursAt mark whole (j + mark.length) :=
  ⟨fun h => ⟨h.left, h.right⟩, fun h => h.1.append h.2⟩

/-- The lines of a block, each with its mark. -/
def block (mark : List α) (lines : List (List α)) : List α := lines.flatMap (· ++ mark)

@[simp] theorem block_nil (mark : List α) : block mark [] = [] := rfl

@[simp] theorem block_cons (mark line : List α) (lines : List (List α)) :
    block mark (line :: lines) = line ++ (mark ++ block mark lines) := by
  simp [block]

theorem block_eq_intercalate (mark first : List α) (lines : List (List α)) :
    block mark (first :: lines) = mark.intercalate (first :: lines) ++ mark := by
  induction lines generalizing first with
  | nil => simp
  | cons line lines ih =>
      rw [block_cons, ih, List.intercalate_cons_cons, List.append_assoc, List.append_assoc]

/-- The first place with two marks in a row is the end of the lines, if only the first line may
be empty. -/
theorem not_occursAt_lines {first : List α} {lines : List (List α)} (hab : a ≠ b)
    (hfirst : ¬ [a, b] <:+: first) (hlines : ∀ line ∈ lines, ¬ [a, b] <:+: line ∧ line ≠ [])
    (hj : j < ([a, b].intercalate (first :: lines)).length) :
    ¬ OccursAt ([a, b] ++ [a, b]) ([a, b].intercalate (first :: lines) ++ ([a, b] ++ rest)) j := by
  induction lines generalizing first j with
  | nil =>
      rw [List.intercalate_singleton] at hj ⊢
      rw [occursAt_twice]
      intro h
      rcases (occursAt_line hab hfirst).mp h.1 with rfl | ⟨k, rfl, -⟩ <;> omega
  | cons line lines ih =>
      obtain ⟨⟨hline, hnonempty⟩, htail⟩ := List.forall_mem_cons.mp hlines
      rw [List.intercalate_cons_cons, List.append_assoc, List.append_assoc]
      intro h
      rcases (occursAt_line hab hfirst).mp (occursAt_twice.mp h).1 with rfl | ⟨k, rfl, -⟩
      · -- The line after the first mark would have to be empty.
        have hsecond := (occursAt_twice.mp h).2
        rw [occursAt_append_right, show ([a, b] : List α).length = [a, b].length + 0 from rfl,
          occursAt_append_right] at hsecond
        cases lines with
        | nil =>
            rw [List.intercalate_singleton] at hsecond
            rcases (occursAt_line hab hline).mp hsecond with hzero | ⟨k, hzero, -⟩
            · exact hnonempty (List.eq_nil_of_length_eq_zero hzero.symm)
            · omega
        | cons line' lines =>
            rw [List.intercalate_cons_cons, List.append_assoc, List.append_assoc] at hsecond
            rcases (occursAt_line hab hline).mp hsecond with hzero | ⟨k, hzero, -⟩
            · exact hnonempty (List.eq_nil_of_length_eq_zero hzero.symm)
            · omega
      · rw [occursAt_append_right, show (2 : Nat) = [a, b].length from rfl,
          occursAt_append_right] at h
        refine ih hline htail ?_ h
        simp only [List.intercalate_cons_cons, List.length_append, List.length_cons, List.length_nil] at hj
        omega

/-- A mark does not begin in a text without its first symbol. -/
theorem infix_pair_append {front back : List α} (hfront : a ∉ front)
    (h : [a, b] <:+: front ++ back) : [a, b] <:+: back := by
  induction front with
  | nil => exact h
  | cons c front ih =>
      obtain ⟨hc, htail⟩ := not_or.mp (List.mem_cons.not.mp hfront)
      rcases List.infix_cons_iff.mp h with hprefix | hrest
      · exact absurd (List.cons_prefix_cons.mp hprefix).1 hc
      · exact ih htail hrest

variable [DecidableEq α]

/-- The search for the mark from the start of a line finds its end. -/
theorem findFrom_line (front : List α) (hab : a ≠ b) (hline : ¬ [a, b] <:+: line) :
    findFrom [a, b] (front ++ (line ++ a :: b :: rest)) front.length =
      some (front.length + line.length) := by
  rw [findFrom_eq_some]
  refine ⟨Nat.le_add_right _ _, ?_, ?_⟩
  · rw [occursAt_append_right, occursAt_line hab hline]
    exact .inl rfl
  · intro j hfront hbefore hoccurs
    obtain ⟨k, rfl⟩ := Nat.exists_eq_add_of_le hfront
    rw [occursAt_append_right, occursAt_line hab hline] at hoccurs
    rcases hoccurs with rfl | ⟨k', rfl, -⟩ <;> omega

/-- The search for two marks in a row finds the end of the lines. -/
theorem findFrom_lines {first : List α} {lines : List (List α)} (hab : a ≠ b)
    (hfirst : ¬ [a, b] <:+: first) (hlines : ∀ line ∈ lines, ¬ [a, b] <:+: line ∧ line ≠ []) :
    findFrom ([a, b] ++ [a, b]) ([a, b].intercalate (first :: lines) ++ ([a, b] ++ ([a, b] ++ rest))) 0 =
      some ([a, b].intercalate (first :: lines)).length := by
  rw [findFrom_eq_some]
  refine ⟨Nat.zero_le _, ⟨_, rest, by rw [List.append_assoc], rfl⟩, ?_⟩
  intro j _ hj
  exact not_occursAt_lines hab hfirst hlines hj

end Lines

end Foundation
