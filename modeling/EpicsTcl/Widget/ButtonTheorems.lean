/-
EpicsTcl.Widget.ButtonTheorems — the two modalities of an on/off control.

`OnoffButton.Looks` is the invariant: what the buttons show is what goes with
the state, and of a pair exactly the button is enabled that flips it. Every
method keeps it (`looks_call`), so a press can only run the command that goes
with the other state (`press_flipping`, `press_other`).

Whatever a program does with a pair, it could do with a single button, and
the other way round (`pair_like_single`). The exception is `invoke`: on a pair
that is off it calls a method that does not exist.
-/
import EpicsTcl.Library.Simulation
import EpicsTcl.Widget.Buttons

namespace EpicsTcl.Widget

open EpicsTcl.Library

variable {γ : Type} {color : String}

/-! ## What is shown -/

namespace OnoffButton

/-- The buttons show the state. A pair that has not been on still has the
color that Tk gave to its button for off. -/
def Looks (color : String) : OnoffButton γ → Prop
  | single w =>
    match w.state with
    | .on => w.b = ⟨w.options.offlabel, w.options.oncolor, w.options.oncolor, false⟩
    | .off => w.b = ⟨w.options.onlabel, w.options.offcolor, w.options.offcolor, false⟩
  | pair w =>
    match w.state with
    | .on =>
      w.winOn = ⟨w.options.onlabel, color, color, true⟩ ∧
        w.winOff = ⟨w.options.offlabel, w.options.oncolor, w.options.oncolor, false⟩
    | .off =>
      w.winOn = ⟨w.options.onlabel, w.options.offcolor, w.options.offcolor, false⟩ ∧
        w.winOff.text = w.options.offlabel ∧ w.winOff.disabled = true

variable {w : OnoffButton γ}

theorem looks_single (options : OnoffOptions γ) :
    (single (OnoffSingleButton.construct options)).Looks color := rfl

theorem looks_pair (options : OnoffOptions γ) :
    (pair (OnoffButtonPair.construct options)).Looks color := ⟨rfl, rfl, rfl⟩

theorem looks_single_on {b : OnoffSingleButton γ} (h : (single b).Looks color) :
    (single b.on).Looks color := by
  obtain ⟨options, state, b⟩ := b
  cases state <;> simp [Looks] at h <;> simp [Looks, OnoffSingleButton.on, h]

theorem looks_single_off {b : OnoffSingleButton γ} (h : (single b).Looks color) :
    (single b.off).Looks color := by
  obtain ⟨options, state, b⟩ := b
  cases state <;> simp [Looks] at h <;> simp [Looks, OnoffSingleButton.off, h]

theorem looks_pair_on {b : OnoffButtonPair γ} (h : (pair b).Looks color) :
    (pair (b.on color)).Looks color := by
  obtain ⟨options, state, winOn, winOff⟩ := b
  cases state <;> simp [Looks] at h <;> simp [Looks, OnoffButtonPair.on, h]

theorem looks_pair_off {b : OnoffButtonPair γ} (h : (pair b).Looks color) :
    (pair (b.off color)).Looks color := by
  obtain ⟨options, state, winOn, winOff⟩ := b
  cases state <;> simp [Looks] at h <;> simp [Looks, OnoffButtonPair.off, h]

/-- **Every method keeps the look.** -/
theorem looks_call (h : w.Looks color) (m : ButtonMethod) : (w.call color m).2.Looks color := by
  cases w with
  | single b =>
    cases m with
    | on => exact looks_single_on h
    | off => exact looks_single_off h
    | toggle =>
      simp only [call, OnoffSingleButton.toggle]
      cases b.state with
      | on => exact looks_single_off h
      | off => exact looks_single_on h
    | invoke => exact h
  | pair b =>
    cases m with
    | on => exact looks_pair_on h
    | off => exact looks_pair_off h
    | toggle =>
      simp only [call, OnoffButtonPair.toggle]
      cases b.state with
      | on => exact looks_pair_off h
      | off => exact looks_pair_on h
    | invoke => exact h

@[simp] theorem call_options (w : OnoffButton γ) (m : ButtonMethod) :
    (w.call color m).2.options = w.options := by
  cases w with
  | single b =>
    cases m with
    | toggle => cases h : b.state <;> simp [call, options, OnoffSingleButton.toggle, h] <;> rfl
    | _ => rfl
  | pair b =>
    cases m with
    | toggle => cases h : b.state <;> simp [call, options, OnoffButtonPair.toggle, h] <;> rfl
    | _ => rfl

/-- The state after a call, for both modalities. -/
theorem call_state (w : OnoffButton γ) (m : ButtonMethod) :
    (w.call color m).2.state =
      match m with
      | .on => .on
      | .off => .off
      | .toggle => w.flipping
      | .invoke => w.state := by
  cases w with
  | single b =>
    cases m with
    | toggle =>
      cases h : b.state <;> simp [call, state, flipping, OnoffSingleButton.toggle, h] <;> rfl
    | _ => rfl
  | pair b =>
    cases m with
    | toggle =>
      cases h : b.state <;> simp [call, state, flipping, OnoffButtonPair.toggle, h] <;> rfl
    | _ => rfl

/-! ## Presses -/

/-- The button that flips the state runs the command of the other state. -/
theorem press_flipping (h : w.Looks color) : w.press w.flipping = w.opposite := by
  cases w with
  | single b => rfl
  | pair b =>
    obtain ⟨options, state, winOn, winOff⟩ := b
    cases state with
    | on => simp [Looks] at h; simp [press, flipping, opposite, OnoffButtonPair.press, h]; rfl
    | off => simp [Looks] at h; simp [press, flipping, opposite, OnoffButtonPair.press, h]; rfl

/-- The other button of a pair is disabled. -/
theorem press_other {b : OnoffButtonPair γ} (h : (pair b).Looks color) {which : OnOff}
    (hne : which ≠ (pair b).flipping) : (pair b).press which = none := by
  obtain ⟨options, state, winOn, winOff⟩ := b
  cases state with
  | on =>
    cases which with
    | on => simp [Looks] at h; simp [press, OnoffButtonPair.press, h]
    | off => exact absurd rfl hne
  | off =>
    cases which with
    | on => exact absurd rfl hne
    | off => simp [Looks] at h; simp [press, OnoffButtonPair.press, h]

/-- A press runs that command or none. -/
theorem press_cases (h : w.Looks color) (which : OnOff) :
    w.press which = w.opposite ∨ w.press which = none := by
  by_cases hw : which = w.flipping
  · rw [hw, press_flipping h]
    exact .inl rfl
  · cases w with
    | single b => exact .inl rfl
    | pair b => exact .inr (press_other h hw)

/-- On a pair that is off, and only there, `invoke` raises an error. -/
theorem invoke_error (w : OnoffButton γ) :
    (w.call color .invoke).1 = .error ⟨"offOn"⟩ ↔
      (∃ b, w = pair b) ∧ w.state = .off := by
  cases w with
  | single b => simp [call]
  | pair b => cases h : b.state <;> simp [call, OnoffButtonPair.invoke, state, h]

/-- Elsewhere it evaluates the command of the other state. -/
theorem invoke_ok (color : String) (h : w.state = .on ∨ ∃ b, w = single b) :
    (w.call color .invoke).1 = .ok w.opposite := by
  cases w with
  | single b => rfl
  | pair b =>
    have hon : b.state = .on := by
      rcases h with h | h
      · exact h
      · obtain ⟨b', hb'⟩ := h
        cases hb'
    simp [call, OnoffButtonPair.invoke, opposite, state, hon]
    rfl

end OnoffButton

/-! ## One modality for the other -/

/-- What happens to a button. -/
inductive ButtonEvent where
  | call (m : ButtonMethod)
  | press (which : OnOff)
  deriving DecidableEq, Repr

/-- A button and the scripts it has evaluated. -/
structure ButtonHistory (γ : Type) where
  widget : OnoffButton γ
  evaluated : List γ := []

namespace ButtonHistory

def step (color : String) (s : ButtonHistory γ) : ButtonEvent → Option (ButtonHistory γ)
  | .call m =>
    match s.widget.call color m with
    | (.ok script, widget) => some { widget, evaluated := s.evaluated ++ script.toList }
    | (.error _, widget) => some { s with widget }
  | .press which => some { s with evaluated := s.evaluated ++ (s.widget.press which).toList }

def single (options : OnoffOptions γ) : ButtonHistory γ :=
  { widget := .single (.construct options) }

def pair (options : OnoffOptions γ) : ButtonHistory γ :=
  { widget := .pair (.construct options) }

/-- The same state, and the same scripts so far; both show what they have to. -/
structure Alike (color : String) (s t : ButtonHistory γ) : Prop where
  looks : s.widget.Looks color
  looks' : t.widget.Looks color
  options : s.widget.options = t.widget.options
  state : s.widget.state = t.widget.state
  evaluated : s.evaluated = t.evaluated

variable {s t : ButtonHistory γ}

theorem Alike.opposite (h : Alike color s t) : s.widget.opposite = t.widget.opposite := by
  simp [OnoffButton.opposite, h.state, h.options]

/-- A call of `on`, `off` or `toggle`. -/
theorem step_call (s : ButtonHistory γ) {m : ButtonMethod} (hm : m ≠ .invoke) :
    s.step color (.call m) = some { s with widget := (s.widget.call color m).2 } := by
  cases m with
  | invoke => exact absurd rfl hm
  | _ => cases hw : s.widget <;> simp [step, OnoffButton.call, hw]

theorem Alike.call (h : Alike color s t) (m : ButtonMethod) :
    Alike color { s with widget := (s.widget.call color m).2 }
      { t with widget := (t.widget.call color m).2 } where
  looks := OnoffButton.looks_call h.looks m
  looks' := OnoffButton.looks_call h.looks' m
  options := by simpa using h.options
  state := by
    rw [OnoffButton.call_state, OnoffButton.call_state]
    simp [OnoffButton.flipping, h.state]
  evaluated := h.evaluated

/-- Both evaluate the command of the other state. -/
theorem Alike.press (h : Alike color s t) :
    Alike color { s with evaluated := s.evaluated ++ s.widget.opposite.toList }
      { t with evaluated := t.evaluated ++ t.widget.opposite.toList } :=
  { h with evaluated := by simp [h.evaluated, h.opposite] }

theorem step_flipping (h : s.widget.Looks color) :
    s.step color (.press s.widget.flipping) =
      some { s with evaluated := s.evaluated ++ s.widget.opposite.toList } := by
  simp [step, OnoffButton.press_flipping h]

theorem step_invoke (color : String) (h : s.widget.state = .on ∨ ∃ b, s.widget = .single b) :
    s.step color (.call .invoke) =
      some { s with evaluated := s.evaluated ++ s.widget.opposite.toList } := by
  have hinvoke : s.widget.call color .invoke = (.ok s.widget.opposite, s.widget) := by
    refine Prod.ext (OnoffButton.invoke_ok color h) ?_
    cases s.widget <;> rfl
  simp [step, hinvoke]

/-! The kind of button never changes. -/

def IsPair (s : ButtonHistory γ) : Prop := ∃ b, s.widget = .pair b

def IsSingle (s : ButtonHistory γ) : Prop := ∃ b, s.widget = .single b

theorem IsPair.call (h : s.IsPair) (color : String) (m : ButtonMethod) :
    IsPair { s with widget := (s.widget.call color m).2 } := by
  obtain ⟨b, hb⟩ := h
  cases m <;> simp [IsPair, hb, OnoffButton.call]

theorem IsSingle.call (h : s.IsSingle) (color : String) (m : ButtonMethod) :
    IsSingle { s with widget := (s.widget.call color m).2 } := by
  obtain ⟨b, hb⟩ := h
  cases m <;> simp [IsSingle, hb, OnoffButton.call]

/-- `invoke` is not called on a pair that is off. -/
def NoFault (s : ButtonHistory γ) : ButtonEvent → Prop
  | .call .invoke => s.widget.state = .on ∨ s.IsSingle
  | _ => True

/-- A single button follows a pair. -/
theorem single_follows :
    Follows (step color) NoFault (step color) Always
      fun (s : ButtonHistory γ) t => Alike color s t ∧ s.IsPair ∧ t.IsSingle := by
  intro s e s' t hst hok hstep
  obtain ⟨h, hpair, hsingle⟩ := hst
  cases e with
  | call m =>
    by_cases hm : m = .invoke
    · subst hm
      rw [step_invoke color hok] at hstep
      cases hstep
      have ht := step_invoke color (.inr hsingle)
      exact ⟨_, _, .single trivial ht, h.press, hpair, hsingle⟩
    · rw [step_call s hm] at hstep
      cases hstep
      exact ⟨_, _, .single trivial (step_call t hm), h.call m, hpair.call color m,
        hsingle.call color m⟩
  | press which =>
    by_cases hw : which = s.widget.flipping
    · subst hw
      rw [step_flipping h.looks] at hstep
      cases hstep
      exact ⟨_, _, .single trivial (step_flipping h.looks'), h.press, hpair, hsingle⟩
    · -- the button that is disabled does nothing
      obtain ⟨b, hb⟩ := hpair
      have hnone : s.widget.press which = none := by
        have hlooks := h.looks
        rw [hb] at hlooks hw ⊢
        exact OnoffButton.press_other hlooks hw
      simp only [step, hnone, Option.toList_none, List.append_nil, Option.some.injEq] at hstep
      subst hstep
      exact ⟨[], t, .nil, h, ⟨b, hb⟩, hsingle⟩

/-- A pair follows a single button: for `invoke` its button is pressed. -/
theorem pair_follows :
    Follows (step color) Always (step color) NoFault
      fun (s : ButtonHistory γ) t => Alike color s t ∧ s.IsSingle ∧ t.IsPair := by
  intro s e s' t hst _ hstep
  obtain ⟨h, hsingle, hpair⟩ := hst
  have hpress : Run (step color) NoFault t [.press t.widget.flipping]
      { t with evaluated := t.evaluated ++ t.widget.opposite.toList } :=
    .single trivial (step_flipping h.looks')
  cases e with
  | call m =>
    by_cases hm : m = .invoke
    · subst hm
      rw [step_invoke color (.inr hsingle)] at hstep
      cases hstep
      exact ⟨_, _, hpress, h.press, hsingle, hpair⟩
    · have hok : t.NoFault (.call m) := by
        cases m with
        | invoke => exact absurd rfl hm
        | _ => trivial
      rw [step_call s hm] at hstep
      cases hstep
      exact ⟨_, _, .single hok (step_call t hm), h.call m, hsingle.call color m,
        hpair.call color m⟩
  | press which =>
    obtain ⟨b, hb⟩ := hsingle
    have hopposite : s.widget.press which = s.widget.opposite := by
      rw [hb]
      rfl
    simp only [step, hopposite, Option.some.injEq] at hstep
    subst hstep
    exact ⟨_, _, hpress, h.press, ⟨b, hb⟩, hpair⟩

theorem alike_start (options : OnoffOptions γ) :
    Alike color (pair options) (single options) where
  looks := OnoffButton.looks_pair options
  looks' := OnoffButton.looks_single options
  options := rfl
  state := rfl
  evaluated := rfl

theorem Alike.symm (h : Alike color s t) : Alike color t s where
  looks := h.looks'
  looks' := h.looks
  options := h.options.symm
  state := h.state.symm
  evaluated := h.evaluated.symm

/-- **The modalities can stand for each other.** As long as `invoke` is not
called on a pair that is off, everything that happens to a pair can happen to
a single button, with the same states and the same scripts, and everything
that happens to a single button can happen to a pair. `invoke` on a pair
raises an error exactly when the pair is off. -/
theorem pair_like_single (options : OnoffOptions γ) (color : String) :
    (∀ es s, Run (step color) NoFault (pair options) es s →
      ∃ fs t, Run (step color) Always (single options) fs t ∧ Alike color s t) ∧
    (∀ es s, Run (step color) Always (single options) es s →
      ∃ fs t, Run (step color) NoFault (pair options) fs t ∧ Alike color s t) ∧
    (∀ es s, Run (step color) Always (pair options) es s →
      ((s.widget.call color .invoke).1 = .error ⟨"offOn"⟩ ↔ s.widget.state = .off)) := by
  refine ⟨fun es s hrun => ?_, fun es s hrun => ?_, fun es s hrun => ?_⟩
  · obtain ⟨fs, t, hfs, hst, -, -⟩ := hrun.followed single_follows
      ⟨alike_start options, ⟨_, rfl⟩, ⟨_, rfl⟩⟩
    exact ⟨fs, t, hfs, hst⟩
  · obtain ⟨fs, t, hfs, hst, -, -⟩ := hrun.followed pair_follows
      ⟨(alike_start options).symm, ⟨_, rfl⟩, ⟨_, rfl⟩⟩
    exact ⟨fs, t, hfs, hst⟩
  · have hpair : s.IsPair := by
      refine hrun.invariant IsPair ⟨_, rfl⟩ ?_
      intro s e s' h _ hstep
      cases e with
      | call m =>
        have hcall := h.call color m
        simp only [step] at hstep
        split at hstep <;> next heq => cases hstep; rw [heq] at hcall; exact hcall
      | press which =>
        cases hstep
        exact h
    rw [OnoffButton.invoke_error]
    exact and_iff_right hpair

end ButtonHistory

end EpicsTcl.Widget
