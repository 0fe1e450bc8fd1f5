/-
EpicsTcl.Widget.NeedleTheorems — the linear needle over runs of a meter.

The linear height divides by `valueRange`, a variable that the constructor and
the handlers of `-from` and `-to` set to `to - from`, and every logarithmic
height to the number of decades. The handler of `-log` does not set it: back
on a linear scale the needle is scaled by the decades.

§1 is the statement, §2 the range, §3 one step, §4 runs (`needle_right`).
-/
import EpicsTcl.Library.Runs
import EpicsTcl.Widget.RedrawTheorems

namespace EpicsTcl.Widget

open EpicsTcl.Library EpicsTcl.Library.Script

/-- What a script does with a meter. -/
inductive Operation (K : Type) where
  | configure (option : Configuration K)
  | set (value : TclValue K)

namespace Meter

/-! ## §1 Statement -/

section Statement

variable {K : Type} [Field K] [LinearOrder K]

/-- An operation that leaves the linear scale with a range that is not its
own: `-log` is turned off and `valueRange` still counts the decades. -/
def TurnsStale (s : Meter K) (a : Nat × Operation K) : Prop :=
  ∃ v f t, a.2 = .configure (.log v) ∧ v.equal s.log = false ∧
    truth s.log.text ≠ some false ∧ truth v.text = some false ∧
    s.optFrom.number = some f ∧ s.optTo.number = some t ∧ f < t ∧
    s.valueRange ≠ t - f ∧ s.topY ≠ s.bottomY

def Obeys (s : Meter K) (a : Nat × Operation K) : Prop := ¬ TurnsStale s a

variable [FloorRing K] [IsStrictOrderedRing K]

def operate (A : Arithmetic K) (n : Nat) : Operation K → Method K Unit
  | .configure option => onconfigure A n option
  | .set value => setValue A value

/-- An operation that returns, with so many rounds for the loop over the ticks. -/
def step (A : Arithmetic K) (s : Meter K) (a : Nat × Operation K) : Option (Meter K) :=
  match operate A a.1 a.2 s with
  | (.ok (), t) => some t
  | (.error _, _) => none

/-- On a linear scale, the needle is at the height of the number limited to
the range. -/
def NeedleRight (A : Arithmetic K) (s : Meter K) : Prop :=
  truth s.log.text = some false → ∀ f t, s.optFrom.number = some f → s.optTo.number = some t →
    f < t → ∀ (v : TclValue K) x, v.number = some x →
      (computeHeight A v s).1 =
        .ok (.finite (s.bottomY - (Scale.clip f t x - f) * (s.bottomY - s.topY) / (t - f)))

end Statement

/-! ## §2 The range -/

section Range

variable {K : Type} [Field K] [LinearOrder K]

/-- With this range, a linear scale is right. -/
def RangeFits (s : Meter K) (range : K) : Prop :=
  truth s.log.text = some false → ∀ f t, s.optFrom.number = some f → s.optTo.number = some t →
    f < t → range ≠ 0 ∧ (range = t - f ∨ s.topY = s.bottomY)

theorem rangeFits_settings {s t : Meter K} (h : settings t = settings s) (range : K) :
    RangeFits t range ↔ RangeFits s range := by
  have hlog := log_of_settings h
  obtain ⟨hfrom, hto⟩ := ends_of_settings h
  obtain ⟨htop, hbottom⟩ := frame_of_settings h
  rw [RangeFits, RangeFits, hlog, hfrom, hto, htop, hbottom]

variable [FloorRing K] [IsStrictOrderedRing K]

/-- The needle is right exactly if `valueRange` is. -/
theorem needleRight_iff (A : Arithmetic K) (s : Meter K) :
    NeedleRight A s ↔ RangeFits s s.valueRange := by
  constructor
  · intro hright hlog f t hfrom hto hft
    have hrange : s.valueRange ≠ 0 := by
      intro hzero
      have hheight := hright hlog f t hfrom hto hft (A.value f) f rfl
      rw [computeHeight_linear A hlog, computeLinearHeight_raises hfrom hto rfl hft.le hzero]
        at hheight
      cases hheight
    have hheight := hright hlog f t hfrom hto hft (A.value t) t rfl
    rw [computeHeight_linear A hlog, computeLinearHeight_returns hfrom hto rfl fun _ _ => hrange]
      at hheight
    have heq := Extended.finite.inj (Except.ok.inj hheight)
    rw [linearHeight, if_neg (lt_irrefl t), if_neg hft.not_gt,
      Scale.clip_of_mem ⟨hft.le, le_rfl⟩, sub_right_inj] at heq
    refine ⟨hrange, ?_⟩
    by_cases hframe : s.topY = s.bottomY
    · exact .inr hframe
    · have hne : (t - f) * (s.bottomY - s.topY) ≠ 0 :=
        mul_ne_zero (sub_pos.mpr hft).ne' (sub_ne_zero.mpr (Ne.symm hframe))
      rw [div_eq_div_iff hrange (sub_pos.mpr hft).ne'] at heq
      exact .inl (mul_left_cancel₀ hne heq).symm
  · intro hfits hlog f t hfrom hto hft v x hv
    obtain ⟨hrange, hright⟩ := hfits hlog f t hfrom hto hft
    rw [computeHeight_linear A hlog, computeLinearHeight_returns hfrom hto hv fun _ _ => hrange]
    rcases hright with hright | hframe
    · rw [linearHeight_eq hft.le hft.ne hright]
      rfl
    · simp [linearHeight, hframe]

/-- Drawing a linear scale that is not empty divides by its range. -/
theorem range_ne_zero_of_draws {A : Arithmetic K} {s u : Meter K} {f t : K} {n : Nat}
    (hlog : truth s.log.text = some false) (hfrom : s.optFrom.number = some f)
    (hto : s.optTo.number = some t) (hft : f ≤ t) (h : drawTicks A n s = (.ok (), u)) :
    s.valueRange ≠ 0 := by
  intro hzero
  have hdraw := (drawTicks_linear A hlog n).symm.trans h
  by_cases hneeds : ∃ major minorticks, s.majorticks.number = some major ∧
      s.minorticks.number = some minorticks ∧ (minorticks + 1 ≠ 0 ∨ major ≠ 0)
  · obtain ⟨major, minorticks, hmajor, hminor, hne⟩ := hneeds
    cases n with
    | zero =>
      rw [drawLinearTicks_apply A 0 hmajor hminor hne] at hdraw
      cases hdraw
    | succ n =>
      rw [drawLinearTicks_raises A hlog hfrom hto hmajor hminor hne hft hzero] at hdraw
      cases hdraw
  · obtain ⟨e, hraises⟩ := drawLinearTicks_needs A n hneeds
    rw [hraises] at hdraw
    cases hdraw

end Range

/-! ## §3 One step -/

section Step

variable {K : Type} [Field K] {s u : Meter K}

/-- A meter with the settings of another one. -/
theorem stage_of_settings (h : settings u = settings s) :
    u.hasCanvas = s.hasCanvas ∧ u.constructing = s.constructing := by
  have hcanvas := congrArg Meter.hasCanvas h
  have hready := congrArg Meter.constructing h
  exact ⟨hcanvas, hready⟩

variable [LinearOrder K]

theorem obeys_of_option {option : Configuration K} {n : Nat} (h : ∀ v, option ≠ .log v) :
    Obeys s (n, .configure option) := by
  rintro ⟨v, f, t, heq, -⟩
  exact h v (by injection heq)

/-- The invariant of a constructed meter. -/
structure Good (s : Meter K) : Prop where
  canvas : s.hasCanvas = true
  ready : s.constructing = false
  range : RangeFits s s.valueRange

/-- A quiet command keeps the range right. -/
theorem Good.quiet (h : Good s) (hquiet : Meter.quiet.rel s u) : Good u := by
  obtain ⟨hcanvas, hready⟩ := stage_of_settings hquiet.1
  refine ⟨hcanvas.trans h.canvas, hready.trans h.ready, ?_⟩
  rw [rangeFits_settings hquiet.1]
  intro hlog
  rw [hquiet.2 hlog]
  exact h.range hlog

/-- A range that has just been computed. -/
theorem rangeFits_of_eq {f t : K} (hfrom : s.optFrom.number = some f)
    (hto : s.optTo.number = some t) {range : K} (hrange : range = t - f) :
    RangeFits s range := by
  intro _ f' t' hfrom' hto' hft
  rw [hfrom] at hfrom'
  rw [hto] at hto'
  cases hfrom'
  cases hto'
  exact ⟨by rw [hrange]; exact sub_ne_zero.mpr hft.ne', .inl hrange⟩

variable [FloorRing K] [IsStrictOrderedRing K] {A : Arithmetic K} {v : TclValue K} {n : Nat}

/-- `-from` and `-to` leave the range of their numbers. -/
theorem good_of_redraw {f t : K} (hcanvas : s.hasCanvas = true) (hready : s.constructing = false)
    (hfrom : s.optFrom.number = some f) (hto : s.optTo.number = some t)
    (hrange : s.valueRange = t - f) (h : redraw A n s = (.ok (), u)) : Good u := by
  have hgood : Good s := ⟨hcanvas, hready, rangeFits_of_eq hfrom hto hrange⟩
  exact hgood.quiet ((quiet_redraw A n).of_eq h)

theorem good_of_configureFrom (hs : Good s) (h : configureFrom A n v s = (.ok (), u)) :
    Good u := by
  by_cases htext : s.optTo.number = none ∨ v.number = none
  · obtain ⟨e, hraises⟩ := configureFrom_text A n hs.canvas htext
    rw [hraises] at h
    cases h
  · obtain ⟨hto, hv⟩ := not_or.mp htext
    obtain ⟨t, hto⟩ := Option.ne_none_iff_exists'.mp hto
    obtain ⟨f, hv⟩ := Option.ne_none_iff_exists'.mp hv
    rw [configureFrom_numbers A n hs.canvas hto hv] at h
    exact good_of_redraw (s := { s.erased with optFrom := v, valueRange := t - f }) hs.canvas
      hs.ready hv hto rfl h

theorem good_of_configureTo (hs : Good s) (h : configureTo A n v s = (.ok (), u)) : Good u := by
  by_cases htext : s.optFrom.number = none ∨ v.number = none
  · obtain ⟨e, hraises⟩ := configureTo_text A n hs.canvas htext
    rw [hraises] at h
    cases h
  · obtain ⟨hfrom, hv⟩ := not_or.mp htext
    obtain ⟨f, hfrom⟩ := Option.ne_none_iff_exists'.mp hfrom
    obtain ⟨t, hv⟩ := Option.ne_none_iff_exists'.mp hv
    rw [configureTo_numbers A n hs.canvas hfrom hv] at h
    exact good_of_redraw (s := { s.erased with optTo := v, valueRange := t - f }) hs.canvas
      hs.ready hfrom hv rfl h

/-- The options of the ticks do not concern the range. -/
theorem good_of_configureTicks {set : Meter K → Meter K} (hcanvas : (set s).hasCanvas = true)
    (hset : Good (set s).erased) (h : configureTicks A n set s = (.ok (), u)) : Good u := by
  rw [configureTicks_apply A n hcanvas] at h
  exact hset.quiet ((quiet_drawTicks A n).of_eq h)

/-- A change of `-log` redraws with the range as it was. -/
theorem fits_of_redraw_log (hs : Good s) (hequal : v.equal s.log = false) {f t : K}
    (h : redraw A n (withDecades A f t { s.erased with log := v }) = (.ok (), u)) :
    RangeFits u u.valueRange ↔ Obeys s (n, .configure (.log v)) := by
  have hquiet := (quiet_redraw A n).of_eq h
  obtain ⟨⟨⟩, w, hdraw, -⟩ := of_bind_ok h
  rw [rangeFits_settings hquiet.1]
  constructor
  · rintro hfits ⟨v', f', t', heq, -, -, hoff, hfrom', hto', hft, hstale, hframe⟩
    cases heq
    have hrange : u.valueRange = s.valueRange := hquiet.2 hoff
    rcases (hfits hoff f' t' hfrom' hto' hft).2 with hright | hframe'
    · exact hstale (hrange.symm.trans hright)
    · exact hframe hframe'
  · intro hobeys hoff f' t' hfrom' hto' hft
    have hrange : u.valueRange = s.valueRange := hquiet.2 hoff
    rw [hrange]
    refine ⟨range_ne_zero_of_draws (s := withDecades A f t { s.erased with log := v })
      hoff hfrom' hto' hft.le hdraw, ?_⟩
    by_cases hlinear : truth s.log.text = some false
    · exact (hs.range hlinear f' t' hfrom' hto' hft).2
    · by_contra hnot
      obtain ⟨hstale, hframe⟩ := not_or.mp hnot
      exact hobeys ⟨v, f', t', rfl, hequal, hlinear, hoff, hfrom', hto', hft, hstale, hframe⟩

theorem fits_of_configureLog (hs : Good s) (h : configureLog A n v s = (.ok (), u)) :
    u.hasCanvas = true ∧ u.constructing = false ∧
      (RangeFits u u.valueRange ↔ Obeys s (n, .configure (.log v))) := by
  cases hequal : v.equal s.log with
  | true =>
    rw [configureLog_same A n hequal] at h
    cases h
    refine ⟨hs.canvas, hs.ready, iff_of_true hs.range ?_⟩
    rintro ⟨v', f, t, heq, hnew, -⟩
    cases heq
    rw [hequal] at hnew
    cases hnew
  | false =>
    cases hboolean : isBoolean v.text with
    | false =>
      rw [configureLog_rejected A n hequal hboolean] at h
      cases h
    | true =>
      by_cases hrange : ∃ f t, s.optFrom.number = some f ∧ s.optTo.number = some t ∧ 0 < f ∧ 0 < t
      · obtain ⟨f, t, hfrom, hto, hf, ht⟩ := hrange
        rw [configureLog_accepted A n hequal hboolean hs.ready hfrom hto hf ht] at h
        obtain ⟨hcanvas, hready⟩ := stage_of_settings ((quiet_redraw A n).of_eq h).1
        exact ⟨hcanvas.trans hs.canvas, hready.trans hs.ready,
          fits_of_redraw_log hs hequal h⟩
      · obtain ⟨e, hraises⟩ := configureLog_raises (A := A) n hequal hboolean hs.ready
          fun f t hfrom hto hf ht => hrange ⟨f, t, hfrom, hto, hf, ht⟩
        rw [hraises] at h
        cases h

theorem step_returns {a : Nat × Operation K} (h : operate A a.1 a.2 s = (.ok (), u)) :
    step A s a = some u := by
  rw [step, h]

theorem operate_of_step {a : Nat × Operation K} (h : step A s a = some u) :
    operate A a.1 a.2 s = (.ok (), u) := by
  unfold step at h
  split at h
  · next heq =>
    cases h
    exact heq
  · cases h

/-- **One step**: the range stays right exactly if `-log` is not turned off
with a range that is not its own. -/
theorem fits_of_step {a : Nat × Operation K} (hs : Good s) (h : step A s a = some u) :
    u.hasCanvas = true ∧ u.constructing = false ∧ (RangeFits u u.valueRange ↔ Obeys s a) := by
  have hreturns := operate_of_step h
  have hgood (hu : Good u) (hobeys : Obeys s a) :
      u.hasCanvas = true ∧ u.constructing = false ∧ (RangeFits u u.valueRange ↔ Obeys s a) :=
    ⟨hu.canvas, hu.ready, iff_of_true hu.range hobeys⟩
  obtain ⟨n, operation⟩ := a
  cases operation with
  | set value =>
    refine hgood (hs.quiet ((quiet_setValue A value).of_eq hreturns)) ?_
    rintro ⟨v, f, t, heq, -⟩
    cases heq
  | configure option =>
    cases option with
    | optFrom value =>
      exact hgood (good_of_configureFrom hs hreturns) (obeys_of_option fun _ heq => by cases heq)
    | optTo value =>
      exact hgood (good_of_configureTo hs hreturns) (obeys_of_option fun _ heq => by cases heq)
    | log value => exact fits_of_configureLog hs hreturns
    | majorticks value =>
      have hset : Good { s.erased with majorticks := value } := ⟨hs.canvas, hs.ready, hs.range⟩
      refine hgood (good_of_configureTicks hs.canvas hset hreturns) ?_
      exact obeys_of_option fun _ heq => by cases heq
    | minorticks value =>
      have hset : Good { s.erased with minorticks := value } := ⟨hs.canvas, hs.ready, hs.range⟩
      refine hgood (good_of_configureTicks hs.canvas hset hreturns) ?_
      exact obeys_of_option fun _ heq => by cases heq
    | _ =>
      refine hgood (hs.quiet (Within.of_eq ?_ hreturns))
        (obeys_of_option fun _ heq => by cases heq)
      refine Within.bind (Within.modify fun _ => ⟨rfl, fun _ => rfl⟩) fun _ => ?_
      refine Within.bind (Within.reads _) fun _ => ?_
      split
      · exact quiet_variableChanged A
      · exact Within.pure _

end Step

/-! ## §4 Runs -/

section Runs

variable {K : Type} [Field K] [LinearOrder K] [FloorRing K] [IsStrictOrderedRing K]
  {A : Arithmetic K} {s₀ s : Meter K}

/-- Before there is a canvas, the handlers only set their options. -/
theorem configure_fresh (A : Arithmetic K) (n : Nat) (options : List (Configuration K)) :
    Within (Effect.keeps fun s : Meter K =>
      s.hasCanvas = false ∧ s.constructing = true ∧ s.canvas = [] ∧ s.tickIds = [])
      (configure A n options) := by
  refine Within.forEach fun option _ s hs => ?_
  cases option with
  | log value =>
    simp only [onconfigure, configureLog, bind_apply, reads_apply]
    split
    · exact hs
    · split
      · exact hs
      · simpa [hs.2.1, bind_apply] using hs
  | _ => simpa [onconfigure, configureFrom, configureTo, configureMajorticks, configureMinorticks,
      configureTicks, configureVariable, bind_apply, hs.1] using hs

/-- A meter whose canvas has just been made. -/
def withCanvas (geometry : Geometry K) (range : K) (s : Meter K) : Meter K :=
  { s with
    valueRange := range, hasCanvas := true, nextId := s.nextId + 1, width := geometry.width
    meterLeft := geometry.leftmargin, topY := geometry.vmargin
    bottomY := geometry.height - geometry.vmargin }

/-- A constructor that returns. -/
theorem build_returns {n : Nat} {geometry : Geometry K} {options : List (Configuration K)}
    {globals : String → Option (TclValue K)} {scaled u w : Meter K} {f t : K} {y : Extended K}
    (hconfigure : configure A n options (fresh globals) = (.ok (), s))
    (hto : s.optTo.number = some t) (hfrom : s.optFrom.number = some f)
    (hheight : computeHeight A (A.value ((t + f) / 2)) (withCanvas geometry (t - f) s) =
      (.ok y, scaled))
    (hdraw : drawTicks A n { scaled with needle := y, nextId := scaled.nextId + 1 } = (.ok (), u))
    (hfollow : (if u.variableName ≠ "" then variableChanged A else pure () : Method K Unit) u =
      (.ok (), w)) :
    build A n geometry options (fresh globals) = (.ok (), { w with constructing := false }) := by
  refine (bind_ok hconfigure).trans ((bind_ok (reads_apply _ _)).trans ?_)
  refine (bind_ok (operand_number hto _)).trans ((bind_ok (reads_apply _ _)).trans ?_)
  refine (bind_ok (operand_number hfrom _)).trans ((bind_ok (modify_apply _ _)).trans ?_)
  refine (bind_ok hheight).trans ((bind_ok (modify_apply _ _)).trans ((bind_ok hdraw).trans ?_))
  refine (bind_ok (reads_apply _ _)).trans ?_
  by_cases hname : u.variableName ≠ ""
  · rw [if_pos hname] at hfollow ⊢
    exact bind_ok hfollow
  · rw [if_neg hname] at hfollow ⊢
    cases hfollow
    rfl

/-- What a constructor that has returned has done, after its options. -/
theorem quiet_of_build {n : Nat} {geometry : Geometry K} {options : List (Configuration K)}
    {globals : String → Option (TclValue K)}
    (h : build A n geometry options (fresh globals) = (.ok (), s₀)) :
    ∃ s f t u, configure A n options (fresh globals) = (.ok (), s) ∧
      s.optFrom.number = some f ∧ s.optTo.number = some t ∧
      Meter.quiet.rel (withCanvas geometry (t - f) s) u ∧
        s₀ = { u with constructing := false } := by
  obtain ⟨⟨⟩, s, hoptions, h⟩ := of_bind_ok h
  replace h := (bind_ok (reads_apply _ _)).symm.trans h
  obtain ⟨t, hto, h⟩ := of_operand_ok h
  replace h := (bind_ok (reads_apply _ _)).symm.trans h
  obtain ⟨f, hfrom, h⟩ := of_operand_ok h
  replace h := (bind_ok (modify_apply _ _)).symm.trans h
  obtain ⟨y, scaled, hheight, h⟩ := of_bind_ok h
  have hscaled := (quiet_computeHeight A (A.value ((t + f) / 2))).of_eq hheight
  obtain ⟨⟨⟩, pointed, hpoint, h⟩ := of_bind_ok h
  have hpointed : Meter.quiet.rel scaled pointed := by
    cases hpoint
    exact ⟨rfl, fun _ => rfl⟩
  obtain ⟨⟨⟩, ticked, hdraw, h⟩ := of_bind_ok h
  have hticked := (quiet_drawTicks A n).of_eq hdraw
  have hsofar := Meter.quiet.trans hscaled (Meter.quiet.trans hpointed hticked)
  replace h := (bind_ok (reads_apply _ _)).symm.trans h
  by_cases hname : ticked.variableName ≠ ""
  · rw [if_pos hname] at h
    obtain ⟨⟨⟩, followed, hvariable, h⟩ := of_bind_ok h
    have hfollowed := (quiet_variableChanged A).of_eq hvariable
    cases h
    exact ⟨s, f, t, followed, hoptions, hfrom, hto, Meter.quiet.trans hsofar hfollowed, rfl⟩
  · rw [if_neg hname] at h
    cases h
    exact ⟨s, f, t, ticked, hoptions, hfrom, hto, hsofar, rfl⟩

/-- A constructed meter has the range of its options. -/
theorem good_of_build {n : Nat} {geometry : Geometry K} {options : List (Configuration K)}
    {globals : String → Option (TclValue K)}
    (h : build A n geometry options (fresh globals) = (.ok (), s₀)) : Good s₀ := by
  obtain ⟨s, f, t, u, -, hfrom, hto, hrel, rfl⟩ := quiet_of_build h
  have hframed : RangeFits (withCanvas geometry (t - f) s) (t - f) :=
    rangeFits_of_eq (s := withCanvas geometry (t - f) s) hfrom hto rfl
  have hu : RangeFits u u.valueRange := by
    rw [rangeFits_settings hrel.1]
    intro hlog
    rw [hrel.2 hlog]
    exact hframed hlog
  exact ⟨(stage_of_settings hrel.1).1, rfl, hu⟩

/-- **The needle over a run** of a constructed meter. In every state reached the
needle is right, and after the next step it is exactly if the step obeys. -/
theorem needle_right {n : Nat} {geometry : Geometry K} {options : List (Configuration K)}
    {globals : String → Option (TclValue K)} {as : List (Nat × Operation K)}
    (hbuild : build A n geometry options (fresh globals) = (.ok (), s₀))
    (hrun : Run (step A) Obeys s₀ as s) :
    NeedleRight A s ∧ ∀ a t, step A s a = some t → (NeedleRight A t ↔ Obeys s a) := by
  have hgood : Good s := by
    refine hrun.invariant Good (good_of_build hbuild) fun s a t hs hobeys hstep => ?_
    obtain ⟨hcanvas, hready, hfits⟩ := fits_of_step hs hstep
    exact ⟨hcanvas, hready, hfits.mpr hobeys⟩
  refine ⟨(needleRight_iff A s).mpr hgood.range, fun a t hstep => ?_⟩
  rw [needleRight_iff]
  exact (fits_of_step hgood hstep).2.2

end Runs

/-- Numbers whose texts and logarithms are not looked at. -/
def plain : Arithmetic ℚ := ⟨fun _ => "", fun _ => "", fun _ => 0⟩

/-- A meter in a small window. -/
def small : Except (Stop MeterError) Unit × Meter ℚ :=
  build plain 9 ⟨100, 110, 10, 5⟩ [] (fresh fun _ => none)

/-- A new end, a value and the other end. -/
def moves : List (Nat × Operation ℚ) :=
  [(9, .configure (.optTo ⟨"3", some 3⟩)), (9, .set ⟨"2", some 2⟩),
    (9, .configure (.optFrom ⟨"0", some 0⟩))]

theorem needle_right_moved :
    ∃ s, Run (step plain) Obeys small.2 moves s ∧ NeedleRight plain s ∧
      ∀ a t, step plain s a = some t → (NeedleRight plain t ↔ Obeys s a) := by
  have hbuild : small = (.ok (), small.2) := Prod.ext (by decide +kernel) rfl
  have hmoves : (runAll (step plain) small.2 moves).isSome = true := by decide +kernel
  obtain ⟨s, hs⟩ := Option.isSome_iff_exists.mp hmoves
  have hrun : Run (step plain) Obeys small.2 moves s := by
    refine (run_iff_runAll.mpr hs).of_mem fun a ha t => ?_
    rintro ⟨v, f, t, heq, -⟩
    simp only [moves, List.mem_cons, List.not_mem_nil, or_false] at ha
    rcases ha with rfl | rfl | rfl <;> cases heq
  exact ⟨s, hrun, needle_right hbuild hrun⟩

/-- Real numbers that are not written. -/
noncomputable def bare : Arithmetic ℝ := realArithmetic (fun _ => "") fun _ => ""

theorem firstDecade_one : firstDecade bare 1 = 0 := by
  have hlog : bare.log10 1 = 0 := Real.logb_one
  rw [firstDecade, hlog, lowDecade, int, towardZero]
  norm_num

theorem lastDecade_thousand : lastDecade bare 1 1000 = 3 := by
  have hlog : bare.log10 1000 = 3 := by
    have hpow := logb_zpow_ten 3
    norm_num at hpow
    exact hpow
  rw [lastDecade, firstDecade_one, hlog]
  norm_num

/-- Three decades. -/
noncomputable def threeDecades : Meter ℝ :=
  { fresh (fun _ => none) with
    optFrom := ⟨"1", some 1⟩, optTo := ⟨"1000", some (1000 : ℕ)⟩, log := ⟨"true", none⟩
    valueRange := (1000 : ℕ) - 1, hasCanvas := true, nextId := 2, width := 1, meterLeft := 0
    topY := 0, bottomY := 1 - 0 }

/-- A meter that has been constructed with a logarithmic scale. -/
theorem build_logarithmic :
    ∃ s₀, build bare 1001 ⟨1, 1, 0, 0⟩
        [.optFrom ⟨"1", some 1⟩, .optTo ⟨"1000", some 1000⟩, .log ⟨"true", none⟩]
        (fresh fun _ => none) = (.ok (), s₀) ∧
      settings s₀ = { settings threeDecades with constructing := false } ∧ s₀.valueRange = 3 ∧
      s₀.lastValue.number = some 0 := by
  have hdecades : firstDecade bare 1 < lastDecade bare 1 1000 := by
    rw [firstDecade_one, lastDecade_thousand]
    norm_num
  have hrange : logRange bare 1 1000 = 3 := by
    refine (logRange_real (fun _ => "") (fun _ => "") 1 1000).trans ?_
    show (lastDecade bare 1 1000 - firstDecade bare 1 : ℝ) = 3
    rw [firstDecade_one, lastDecade_thousand]
    norm_num
  have hlog : truth threeDecades.log.text = some true := by decide
  have hheight := (computeHeight_log bare hlog (bare.value ((1000 + 1) / 2 : ℝ))).trans
    (computeLogHeight_real (s := threeDecades) rfl rfl (by norm_num) (by norm_num) rfl hdecades)
  have hdraw (u : Meter ℝ) (hlog : truth u.log.text = some true)
      (hfrom : u.optFrom.number = some 1) (hto : u.optTo.number = some 1000) :=
    (drawTicks_logarithmic bare hlog 1001).trans
      (drawLogTicks_returns bare hfrom hto (by norm_num) (by norm_num) hdecades)
  have hconfigure : configure bare 1001
      [.optFrom ⟨"1", some 1⟩, .optTo ⟨"1000", some 1000⟩, .log ⟨"true", none⟩]
      (fresh fun _ => none) = (.ok (), { fresh (fun _ => none) with
        optFrom := ⟨"1", some 1⟩, optTo := ⟨"1000", some 1000⟩, log := ⟨"true", none⟩ }) := rfl
  exact ⟨_, build_returns hconfigure rfl rfl hheight
    (hdraw _ hlog rfl rfl) rfl, rfl, hrange, rfl⟩

/-- Turned off, the logarithmic scale leaves its range behind. -/
theorem log_off_stale :
    ¬ ∀ (n : Nat) (geometry : Geometry ℝ) (options : List (Configuration ℝ)) (s₀ s : Meter ℝ)
      (as : List (Nat × Operation ℝ)),
        build bare n geometry options (fresh fun _ => none) = (.ok (), s₀) →
          Run (step bare) Always s₀ as s → NeedleRight bare s := by
  intro hall
  obtain ⟨s₀, hbuild, hsettings, hrange, hlast⟩ := build_logarithmic
  have hfrom : s₀.optFrom = ⟨"1", some 1⟩ := congrArg Meter.optFrom hsettings
  have hto : s₀.optTo = ⟨"1000", some 1000⟩ := congrArg Meter.optTo hsettings
  have hlog : s₀.log = ⟨"true", none⟩ := congrArg Meter.log hsettings
  have hready : s₀.constructing = false := congrArg Meter.constructing hsettings
  have hmajor : s₀.majorticks = ⟨"1.0", some 1⟩ := congrArg Meter.majorticks hsettings
  have hminor : s₀.minorticks = ⟨"4", some 4⟩ := congrArg Meter.minorticks hsettings
  have htop : s₀.topY = 0 := congrArg Meter.topY hsettings
  have hbottom : s₀.bottomY = 1 - 0 := congrArg Meter.bottomY hsettings
  have hstep : ∃ s, step bare s₀ (1001, .configure (.log ⟨"false", none⟩)) = some s := by
    have hequal : TclValue.equal ⟨"false", none⟩ s₀.log = false := by
      rw [hlog]
      decide
    have hconfigure := configureLog_accepted bare 1001 hequal (by decide) hready
      (congrArg TclValue.number hfrom) (congrArg TclValue.number hto) (by norm_num) (by norm_num)
    have hlinear : Linear (withDecades bare 1 1000 { s₀.erased with log := ⟨"false", none⟩ })
        1 1000 := by
      have hoff : truth "false" = some false := by decide
      refine ⟨hoff, congrArg TclValue.number hfrom, congrArg TclValue.number hto, fun _ => ?_⟩
      show s₀.valueRange ≠ 0
      rw [hrange]
      norm_num
    have hcount : tickCount (1 : ℝ) 1000 1 < 1001 := by
      unfold tickCount
      norm_num
    obtain ⟨u, hredraw⟩ := redraw_linear hlinear bare (congrArg TclValue.number hmajor)
      (congrArg TclValue.number hminor) (.inr one_ne_zero) one_pos hcount hlast
    exact ⟨u, step_returns (hconfigure.trans hredraw)⟩
  obtain ⟨s, hstep⟩ := hstep
  have hright := hall _ _ _ s₀ s _ hbuild (.snoc .nil trivial hstep)
  have hobeys := (fits_of_step (good_of_build hbuild) hstep).2.2.mp
    ((needleRight_iff bare s).mp hright)
  refine hobeys ⟨_, 1, 1000, rfl, ?_, ?_, ?_, ?_, ?_, ?_, ?_, ?_⟩
  · rw [hlog]
    decide
  · rw [hlog]
    decide
  · decide
  · rw [hfrom]
  · rw [hto]
  · norm_num
  · rw [hrange]
    norm_num
  · rw [htop, hbottom]
    norm_num

end Meter

end EpicsTcl.Widget
