import Mathlib.Tactic.Common

/-! # Simulations

Commands are run one after the other, and each of them shows a label that an abstract relation
takes. A relation between the states that every command keeps carries over to any list of them.
-/

namespace Foundation

/-- The labels are taken one after the other. -/
inductive TakesLabels {τ ℓ : Type} (step : τ → ℓ → τ → Prop) : τ → List ℓ → τ → Prop where
  | nil (t : τ) : TakesLabels step t [] t
  | cons {t t' t'' : τ} {label : ℓ} {rest : List ℓ} (hstep : step t label t')
      (hrest : TakesLabels step t' rest t'') : TakesLabels step t (label :: rest) t''

/-- The commands are run one after the other, and each shows its label where it runs. -/
inductive Shown {σ κ ℓ : Type} (run : κ → σ → σ) (label : κ → σ → σ → ℓ → Prop) :
    σ → List κ → List ℓ → σ → Prop where
  | nil (s : σ) : Shown run label s [] [] s
  | cons {s s' : σ} {command : κ} {commands : List κ} {shown : ℓ} {rest : List ℓ}
      (hshown : label command s (run command s) shown)
      (hrest : Shown run label (run command s) commands rest s') :
      Shown run label s (command :: commands) (shown :: rest) s'

section Simulations

variable {σ τ κ ℓ : Type} {run : κ → σ → σ} {label : κ → σ → σ → ℓ → Prop} {step : τ → ℓ → τ → Prop}
  {s s' : σ} {t t' t'' : τ} {commands : List κ} {labels rest : List ℓ}

theorem takes_append : TakesLabels step t (labels ++ rest) t'' ↔
    ∃ t', TakesLabels step t labels t' ∧ TakesLabels step t' rest t'' := by
  constructor
  · intro h
    induction labels generalizing t with
    | nil => exact ⟨t, .nil t, h⟩
    | cons label labels ih =>
        cases h with
        | cons hstep hrest =>
            obtain ⟨t', htaken, hrest⟩ := ih hrest
            exact ⟨t', .cons hstep htaken, hrest⟩
  · rintro ⟨t', h, h'⟩
    induction h with
    | nil t => exact h'
    | cons hstep _ ih => exact .cons hstep (ih h')

/-- What every step keeps, knowing the labels before it, holds behind all of them. -/
theorem TakesLabels.invariant (inv : List ℓ → τ → Prop) (h : TakesLabels step t labels t')
    (hkeep : ∀ before t label t', inv before t → step t label t' → inv (before ++ [label]) t')
    (hstart : inv [] t) : inv labels t' := by
  suffices hgeneral : ∀ before, inv before t → inv (before ++ labels) t' from hgeneral [] hstart
  clear hstart
  induction h with
  | nil t =>
      intro before hbefore
      rwa [List.append_nil]
  | cons hstep _ ih =>
      intro before hbefore
      rw [List.append_cons]
      exact ih _ (hkeep _ _ _ _ hbefore hstep)

/-- The commands that are shown are those that run. -/
theorem Shown.final (h : Shown run label s commands labels s') :
    s' = commands.foldl (fun s command => run command s) s := by
  induction h with
  | nil s => rfl
  | cons _ _ ih => exact ih

/-- A relation that every command keeps is kept by every list of commands. -/
theorem simulation (related : σ → τ → Prop)
    (hstep : ∀ command s t, related s t → ∃ shown t', label command s (run command s) shown ∧
      step t shown t' ∧ related (run command s) t')
    (h : related s t) (commands : List κ) : ∃ labels s' t', Shown run label s commands labels s' ∧
      TakesLabels step t labels t' ∧ related s' t' := by
  induction commands generalizing s t with
  | nil => exact ⟨[], s, t, .nil s, .nil t, h⟩
  | cons command commands ih =>
      obtain ⟨shown, t', hshown, htaken, hrelated⟩ := hstep command s t h
      obtain ⟨labels, s', t'', hrest, htakes, hend⟩ := ih hrelated
      exact ⟨shown :: labels, s', t'', .cons hshown hrest, .cons htaken htakes, hend⟩

end Simulations

end Foundation
