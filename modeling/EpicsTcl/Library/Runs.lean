/-
EpicsTcl.Library.Runs — runs of a partial step function, and the rules by
which a property of one step becomes a property of a whole run.

A system is a function `step : σ → α → Option σ`: an action either cannot
happen in a state (`none`) or leads to exactly one next state; choices of
the environment are part of the action. `Run step ok s₀ as s` says that
the actions `as`, taken in this order from `s₀`, lead to `s`, and that each
of them satisfied `ok` in the state in which it was taken. With
`ok := Always` this is every run.

The rules:

* `Run.invariant` — what holds initially and is preserved by every allowed
  step holds at the end of every run;
* `Run.mono` — a run under a stronger side condition is a run under a weaker
  one, `Run.of_mem` if the actions meet it anyway; `Run.congr_of_invariant` —
  under two that agree as long as an invariant holds, the runs are the same;
* `Run.trans` — runs compose; `Run.of_snoc` — a run without its last step;
* `Run.length_le` — a run is no longer than what each of its steps uses up;
* `Run.iff_each` — a run meets a side condition if each of its actions does
  in the state that the actions before it lead to;
* `runAll` and `run_iff_runAll` — the executable form, so that a concrete
  run can be replayed.
-/
import Mathlib.Data.List.Induction

namespace EpicsTcl.Library

variable {σ α : Type*}

/-- The side condition that every step meets. -/
def Always (_ : σ) (_ : α) : Prop := True

/-- The actions `as` lead from `s₀` to `s`, each allowed by `ok` where it
was taken. -/
inductive Run (step : σ → α → Option σ) (ok : σ → α → Prop) (s₀ : σ) :
    List α → σ → Prop where
  | nil : Run step ok s₀ [] s₀
  | snoc {as : List α} {a : α} {s s' : σ} :
      Run step ok s₀ as s → ok s a → step s a = some s' → Run step ok s₀ (as ++ [a]) s'

namespace Run

variable {step : σ → α → Option σ} {ok ok' : σ → α → Prop} {s₀ s s' : σ} {as bs : List α}

/-- **Invariant rule**: initially true and preserved by every allowed step. -/
theorem invariant (h : Run step ok s₀ as s) (Inv : σ → Prop) (init : Inv s₀)
    (preserve : ∀ s a s', Inv s → ok s a → step s a = some s' → Inv s') : Inv s := by
  induction h with
  | nil => exact init
  | snoc _ hok hstep ih => exact preserve _ _ _ ih hok hstep

/-- **Progress rule**: every step uses up some of the work. -/
theorem length_le (h : Run step ok s₀ as s) (Inv : σ → Prop) (init : Inv s₀)
    (preserve : ∀ s a s', Inv s → ok s a → step s a = some s' → Inv s') (work : σ → Nat)
    (less : ∀ s a s', Inv s → ok s a → step s a = some s' → work s' < work s) :
    as.length + work s ≤ work s₀ := by
  induction h with
  | nil => simp
  | @snoc as a t t' hrun hok hstep ih =>
    have hless := less t a t' (hrun.invariant Inv init preserve) hok hstep
    simp only [List.length_append, List.length_singleton]
    omega

/-- A stronger side condition allows fewer runs. -/
theorem mono (h : Run step ok s₀ as s) (weaken : ∀ s a, ok s a → ok' s a) :
    Run step ok' s₀ as s := by
  induction h with
  | nil => exact .nil
  | snoc _ hok hstep ih => exact .snoc ih (weaken _ _ hok) hstep

/-- A side condition that is weaker where an invariant holds. -/
theorem mono_of_invariant (h : Run step ok s₀ as s) (Inv : σ → Prop) (init : Inv s₀)
    (preserve : ∀ s a s', Inv s → ok s a → step s a = some s' → Inv s')
    (weaken : ∀ s a s', Inv s → step s a = some s' → ok s a → ok' s a) :
    Run step ok' s₀ as s := by
  induction h with
  | nil => exact .nil
  | @snoc as a t t' hrun hok hstep ih =>
    have ht : Inv t := hrun.invariant Inv init preserve
    exact .snoc ih (weaken t a t' ht hstep hok) hstep

/-- Two side conditions that agree where an invariant holds have the same runs. -/
theorem congr_of_invariant (Inv : σ → Prop) (init : Inv s₀)
    (preserve : ∀ s a s', Inv s → ok s a → step s a = some s' → Inv s')
    (agree : ∀ s a s', Inv s → step s a = some s' → (ok s a ↔ ok' s a)) :
    Run step ok s₀ as s ↔ Run step ok' s₀ as s := by
  constructor
  · intro h
    exact h.mono_of_invariant Inv init preserve fun s a s' hs hstep => (agree s a s' hs hstep).mp
  · intro h
    refine h.mono_of_invariant Inv init ?_ fun s a s' hs hstep => (agree s a s' hs hstep).mpr
    intro s a s' hs hok hstep
    exact preserve s a s' hs ((agree s a s' hs hstep).mpr hok) hstep

/-- A side condition that the actions meet in every state. -/
theorem of_mem (h : Run step ok s₀ as s) (meets : ∀ a ∈ as, ∀ s, ok' s a) :
    Run step ok' s₀ as s := by
  induction h with
  | nil => exact .nil
  | @snoc as a t t' _ _ hstep ih =>
    refine .snoc (ih fun b hb => meets b (List.mem_append_left [a] hb)) ?_ hstep
    exact meets a (List.mem_append_right as (List.mem_singleton_self a)) t

/-- The same actions lead to the same state. -/
theorem unique (h : Run step ok s₀ as s) (h' : Run step ok' s₀ as s') : s = s' := by
  induction h generalizing s' with
  | nil =>
    generalize hnil : ([] : List α) = as at h'
    cases h' with
    | nil => rfl
    | snoc => simp at hnil
  | @snoc as a t u _ _ hstep ih =>
    generalize hsnoc : as ++ [a] = bs at h'
    cases h' with
    | nil => simp at hsnoc
    | snoc hrun _ hstep' =>
      obtain ⟨rfl, hlast⟩ := List.append_inj' hsnoc rfl
      cases hlast
      rw [ih hrun, hstep'] at hstep
      exact (Option.some.inj hstep).symm

/-- No actions lead nowhere else. -/
theorem of_nil (h : Run step ok s₀ [] s) : s = s₀ := by
  have hnil : Run step ok s₀ [] s₀ := .nil
  exact h.unique hnil

/-- Runs compose. -/
theorem trans (h : Run step ok s₀ as s) (h' : Run step ok s bs s') :
    Run step ok s₀ (as ++ bs) s' := by
  induction h' with
  | nil => simpa using h
  | snoc _ hok hstep ih =>
    rw [← List.append_assoc]
    exact .snoc ih hok hstep

/-- The last step of a run. -/
theorem of_snoc {a : α} (h : Run step ok s₀ (as ++ [a]) s') :
    ∃ s, Run step ok s₀ as s ∧ ok s a ∧ step s a = some s' := by
  generalize hsnoc : as ++ [a] = bs at h
  cases h with
  | nil => simp at hsnoc
  | snoc hrun hok hstep =>
    obtain ⟨rfl, hlast⟩ := List.append_inj' hsnoc rfl
    cases hlast
    exact ⟨_, hrun, hok, hstep⟩

/-- The side condition, action by action. -/
theorem iff_each (h : Run step Always s₀ as s) :
    Run step ok s₀ as s ↔ ∀ before a after, as = before ++ a :: after →
      ∃ t t', Run step Always s₀ before t ∧ step t a = some t' ∧ ok t a := by
  constructor
  · intro hok
    induction hok with
    | nil => simp
    | @snoc as b t t' hrun hb hstep ih =>
      have hbefore : Run step Always s₀ as t := hrun.mono fun _ _ _ => trivial
      intro before a after heq
      rcases List.eq_nil_or_concat after with rfl | ⟨after, c, rfl⟩
      · obtain ⟨rfl, hlast⟩ := List.append_inj' heq rfl
        cases hlast
        exact ⟨t, t', hbefore, hstep, hb⟩
      · rw [List.concat_eq_append, ← List.cons_append, ← List.append_assoc] at heq
        exact ih hbefore before a after (List.append_inj' heq rfl).1
  · intro heach
    induction h with
    | nil => exact .nil
    | @snoc as a t t' hrun _ hstep ih =>
      have hrun' : Run step ok s₀ as t := ih fun before b after heq =>
        heach before b (after ++ [a]) (by simp [heq])
      obtain ⟨u, -, hu, -, hok⟩ := heach as a [] rfl
      obtain rfl : u = t := hu.unique hrun
      exact .snoc hrun' hok hstep

end Run

/-! ## Replaying a run -/

/-- Take the actions in order; `none` as soon as one cannot happen. -/
def runAll (step : σ → α → Option σ) : σ → List α → Option σ
  | s, [] => some s
  | s, a :: as => (step s a).bind fun s' => runAll step s' as

theorem runAll_snoc (step : σ → α → Option σ) (s : σ) (as : List α) (a : α) :
    runAll step s (as ++ [a]) = (runAll step s as).bind fun s' => step s' a := by
  induction as generalizing s with
  | nil => cases h : step s a <;> simp [runAll, h]
  | cons b bs ih =>
    simp only [List.cons_append, runAll]
    cases step s b with
    | none => rfl
    | some s' => exact ih s'

/-- A run without side condition is exactly a successful replay. -/
theorem run_iff_runAll {step : σ → α → Option σ} {s₀ s : σ} {as : List α} :
    Run step Always s₀ as s ↔ runAll step s₀ as = some s := by
  constructor
  · intro h
    induction h with
    | nil => rfl
    | snoc _ _ hstep ih => rw [runAll_snoc, ih]; exact hstep
  · induction as using List.reverseRecOn generalizing s with
    | nil =>
      intro h
      cases h
      exact .nil
    | append_singleton as a ih =>
      intro h
      rw [runAll_snoc] at h
      cases hs : runAll step s₀ as with
      | none => simp [hs] at h
      | some s' =>
        rw [hs] at h
        exact .snoc (ih hs) trivial h

/-- A replay that checks the side condition at every step. -/
def runChecked (step : σ → α → Option σ) (ok : σ → α → Prop) [∀ s a, Decidable (ok s a)] :
    σ → List α → Option σ :=
  runAll fun s a => if ok s a then step s a else none

/-- What a checked replay reaches, a run under the side condition reaches. -/
theorem run_of_runChecked {step : σ → α → Option σ} {ok : σ → α → Prop}
    [∀ s a, Decidable (ok s a)] {s₀ s : σ} (as : List α)
    (h : runChecked step ok s₀ as = some s) : Run step ok s₀ as s := by
  have hrun := run_iff_runAll.mpr h
  clear h
  induction hrun with
  | nil => exact .nil
  | @snoc as a t t' _ _ hstep ih =>
    by_cases hok : ok t a
    · rw [if_pos hok] at hstep
      exact .snoc ih hok hstep
    · rw [if_neg hok] at hstep
      cases hstep

end EpicsTcl.Library
