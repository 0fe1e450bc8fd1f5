/-
EpicsTcl.Library.Simulation — one system that follows another.

`Follows R` says that every allowed step of the first system is matched by a
run of the second one, so that the states stay related by `R`. The rule
`Run.followed` carries this over to whole runs.

`Run.single`, `Run.pair` and `Run.of_runAll` make the short runs of which a
matching run is put together.
-/
import EpicsTcl.Library.Runs

namespace EpicsTcl.Library

variable {σ τ α β : Type*} {step : σ → α → Option σ} {ok : σ → α → Prop}
  {step' : τ → β → Option τ} {ok' : τ → β → Prop} {R : σ → τ → Prop}

/-! ## Short runs -/

namespace Run

variable {s t u : σ} {a b : α} {as : List α}

theorem single (hok : ok s a) (h : step s a = some t) : Run step ok s [a] t :=
  .snoc .nil hok h

theorem pair (ha : ok s a) (hs : step s a = some t) (hb : ok t b) (ht : step t b = some u) :
    Run step ok s [a, b] u :=
  (single ha hs).trans (single hb ht)

/-- A replay of actions that the side condition always allows. -/
theorem of_runAll (h : runAll step s as = some t) (hok : ∀ a ∈ as, ∀ s, ok s a) :
    Run step ok s as t :=
  (run_iff_runAll.mpr h).of_mem hok

end Run

/-! ## Simulation -/

/-- Every allowed step of the first system is a run of the second one. -/
def Follows (step : σ → α → Option σ) (ok : σ → α → Prop) (step' : τ → β → Option τ)
    (ok' : τ → β → Prop) (R : σ → τ → Prop) : Prop :=
  ∀ s a s' t, R s t → ok s a → step s a = some s' →
    ∃ bs t', Run step' ok' t bs t' ∧ R s' t'

/-- **Simulation rule**: so is every run. -/
theorem Run.followed {as : List α} {s₀ s : σ} {t₀ : τ} (h : Run step ok s₀ as s)
    (hsim : Follows step ok step' ok' R) (hstart : R s₀ t₀) :
    ∃ bs t, Run step' ok' t₀ bs t ∧ R s t := by
  induction h with
  | nil => exact ⟨[], t₀, .nil, hstart⟩
  | snoc _ hok hstep ih =>
    obtain ⟨bs, t, hrun, hrel⟩ := ih
    obtain ⟨cs, t', hrun', hrel'⟩ := hsim _ _ _ t hrel hok hstep
    exact ⟨bs ++ cs, t', hrun.trans hrun', hrel'⟩

end EpicsTcl.Library
