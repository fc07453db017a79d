import Mathlib.Data.List.Basic

/-!
# Runs of labelled transition systems

`Run step s tr t` says that the steps of a labelled transition relation lead from `s` to `t` with
the labels `tr`.
-/

namespace Xv6

variable {σ ℓ : Type}

inductive Run (step : σ → ℓ → σ → Prop) : σ → List ℓ → σ → Prop where
  | refl (s : σ) : Run step s [] s
  | cons {s t u : σ} {l : ℓ} {tr : List ℓ} (h : step s l t) (hr : Run step t tr u) :
      Run step s (l :: tr) u

variable {step : σ → ℓ → σ → Prop} {s t u : σ} {tr tr' : List ℓ} {l : ℓ}

lemma Run.trans (h : Run step s tr t) (h' : Run step t tr' u) : Run step s (tr ++ tr') u := by
  induction h with
  | refl => exact h'
  | cons hs _ ih => exact .cons hs (ih h')

lemma Run.split (h : Run step s (tr ++ tr') u) : ∃ t, Run step s tr t ∧ Run step t tr' u := by
  induction tr generalizing s with
  | nil => exact ⟨s, .refl s, h⟩
  | cons l tr ih =>
    cases h with
    | cons hs hr =>
      obtain ⟨t, h1, h2⟩ := ih hr
      exact ⟨t, .cons hs h1, h2⟩

lemma Run.uncons (h : Run step s (l :: tr) u) : ∃ t, step s l t ∧ Run step t tr u := by
  cases h with
  | cons hs hr => exact ⟨_, hs, hr⟩

lemma Run.invariant {I : σ → Prop} (hI : ∀ s l t, step s l t → I s → I t) (h : Run step s tr t)
    (hs : I s) : I t := by
  induction h with
  | refl => exact hs
  | cons hstep _ ih => exact ih (hI _ _ _ hstep hs)

lemma Run.stable {I N : σ → Prop} {ok : ℓ → Prop} (hI : ∀ s l t, step s l t → I s → I t)
    (hN : ∀ s l t, step s l t → I s → ok l → N s → N t) (h : Run step s tr t) (hs : I s)
    (hok : ∀ l ∈ tr, ok l) (hn : N s) : N t := by
  induction h with
  | refl => exact hn
  | cons hstep _ ih =>
    exact ih (hI _ _ _ hstep hs) (fun l hl => hok l (List.mem_cons_of_mem _ hl))
      (hN _ _ _ hstep hs (hok _ List.mem_cons_self) hn)

/-! ## Explicit runs of functional steps -/

def stepBy {κ : Type} (next : σ → κ → Option (ℓ × σ)) : σ → ℓ → σ → Prop :=
  fun s l t => ∃ c, next s c = some (l, t)

def follow {κ : Type} (next : σ → κ → Option (ℓ × σ)) : σ → List κ → Option (List ℓ × σ)
  | s, [] => some ([], s)
  | s, c :: cs =>
    match next s c with
    | none => none
    | some (l, t) =>
      match follow next t cs with
      | none => none
      | some (tr, u) => some (l :: tr, u)

lemma Run.of_follow {κ : Type} {next : σ → κ → Option (ℓ × σ)} {cs : List κ}
    (h : follow next s cs = some (tr, u)) : Run (stepBy next) s tr u := by
  induction cs generalizing s tr with
  | nil =>
    simp only [follow, Option.some.injEq, Prod.mk.injEq] at h
    obtain ⟨rfl, rfl⟩ := h
    exact .refl s
  | cons c cs ih =>
    simp only [follow] at h
    split at h
    · cases h
    rename_i l t hnext
    split at h
    · cases h
    · rename_i tr' u' hfollow
      cases h
      exact .cons ⟨c, hnext⟩ (ih hfollow)

end Xv6
