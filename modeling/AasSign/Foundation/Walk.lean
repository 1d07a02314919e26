import AasSign.Foundation.Outcome

/-! # Walks over a table

A table is walked record by record, each record found from the place that the one
before ends at. A loop that counts its passes and reads one record in each is a
walk of that many records.
-/

namespace Foundation

universe u v w

/-- The records found from `start` on, in order, and the place behind them. A step
may look at the records found so far. -/
inductive Walk {ι : Type u} {σ : Type v} (step : List ι → σ → ι → σ → Prop) (start : σ) :
    List ι → σ → Prop where
  | nil : Walk step start [] start
  | snoc {items : List ι} {s : σ} {item : ι} {s' : σ} (before : Walk step start items s)
      (next : step items s item s') : Walk step start (items ++ [item]) s'

section Walk

variable {ι : Type u} {σ : Type v} {step step' : List ι → σ → ι → σ → Prop} {start s : σ}
  {items : List ι}

theorem walk_nil : Walk step start [] s ↔ s = start := by
  constructor
  · intro h
    generalize hitems : ([] : List ι) = items at h
    cases h with
    | nil => rfl
    | snoc => simp at hitems
  · rintro rfl
    exact .nil

theorem walk_snoc {item : ι} {s' : σ} :
    Walk step start (items ++ [item]) s' ↔ ∃ s, Walk step start items s ∧ step items s item s' := by
  constructor
  · intro h
    generalize hitems : items ++ [item] = all at h
    cases h with
    | nil => simp at hitems
    | snoc before next =>
        obtain ⟨rfl, heq⟩ := List.append_inj' hitems rfl
        obtain rfl := (List.cons.inj heq).1
        exact ⟨_, before, next⟩
  · rintro ⟨s, before, next⟩
    exact .snoc before next

theorem Walk.mono (h : Walk step start items s)
    (hstep : ∀ items s item s', step items s item s' → step' items s item s') :
    Walk step' start items s := by
  induction h with
  | nil => exact .nil
  | snoc _ next ih => exact ih.snoc (hstep _ _ _ _ next)

/-- A property of the places that every step keeps. -/
theorem Walk.invariant {I : List ι → σ → Prop} (h : Walk step start items s)
    (hstart : I [] start)
    (hstep : ∀ items s item s', I items s → step items s item s' → I (items ++ [item]) s') :
    I items s := by
  induction h with
  | nil => exact hstart
  | snoc _ next ih => exact hstep _ _ _ _ ih next

/-- A counted loop whose passes are the steps of a walk. -/
theorem foldlM_range_eq_ok {ε : Type w} {τ : Type v} {f : τ → Except ε τ} {g : List ι → σ → τ}
    (hstep : ∀ items s t, Walk step start items s → (f (g items s) = .ok t ↔
      ∃ item s', step items s item s' ∧ t = g (items ++ [item]) s'))
    (n : Nat) {t : τ} : (List.range n).foldlM (fun t _ => f t) (g [] start) = .ok t ↔
      ∃ items s, items.length = n ∧ Walk step start items s ∧ t = g items s := by
  induction n generalizing t with
  | zero =>
      constructor
      · intro h
        exact ⟨[], start, rfl, .nil, (Except.ok.inj h).symm⟩
      · rintro ⟨items, s, hlength, hwalk, rfl⟩
        obtain rfl := List.eq_nil_of_length_eq_zero hlength
        rw [walk_nil.mp hwalk]
        rfl
  | succ n ih =>
      rw [List.range_succ, List.foldlM_append, bind_eq_ok]
      simp only [ih, List.foldlM_cons, List.foldlM_nil, bind_pure]
      constructor
      · rintro ⟨_, ⟨items, s, hlength, hwalk, rfl⟩, hlast⟩
        obtain ⟨item, s', hnext, rfl⟩ := (hstep items s t hwalk).mp hlast
        exact ⟨items ++ [item], s', by simp [hlength], hwalk.snoc hnext, rfl⟩
      · rintro ⟨all, s', hlength, hwalk, rfl⟩
        obtain ⟨items, item, rfl⟩ : ∃ items item, all = items ++ [item] := by
          rcases List.eq_nil_or_concat all with rfl | ⟨items, item, rfl⟩
          · simp at hlength
          · exact ⟨items, item, List.concat_eq_append⟩
        obtain ⟨s, hbefore, hnext⟩ := walk_snoc.mp hwalk
        exact ⟨_, ⟨items, s, by simpa using hlength, hbefore, rfl⟩,
          (hstep items s _ hbefore).mpr ⟨item, s', hnext, rfl⟩⟩

end Walk

end Foundation
