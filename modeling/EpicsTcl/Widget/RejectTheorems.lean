/-
EpicsTcl.Widget.RejectTheorems — what a configuration that fails leaves behind.

The handlers of `-from`, `-to` and `-log` set their option and erase the ticks
before anything is checked; only a value of `-log` that is not boolean is
rejected first. So a configuration that raises an error has, in general, lost
the meter (`Harmless` says when it has not).

§1 are heights, §2 ticks that can be drawn, §3 a redraw, §4 the handlers
(`rejected_configuration`).
-/
import EpicsTcl.Widget.RedrawTheorems

namespace EpicsTcl.Widget

open EpicsTcl.Library EpicsTcl.Library.Script

/-- A change of the scale. -/
inductive Rescaling (K : Type) where
  | optFrom (value : TclValue K)
  | optTo (value : TclValue K)
  | log (value : TclValue K)

def Rescaling.option {K : Type} : Rescaling K → Configuration K
  | .optFrom value => .optFrom value
  | .optTo value => .optTo value
  | .log value => .log value

namespace Meter

/-! ## §1 Heights -/

/-- A logarithmic scale of at least two decades. -/
structure Logarithmic (A : Arithmetic ℝ) (s : Meter ℝ) (f t : ℝ) : Prop where
  log : truth s.log.text = some true
  from_number : s.optFrom.number = some f
  to_number : s.optTo.number = some t
  from_pos : 0 < f
  to_pos : 0 < t
  decades : firstDecade A f < lastDecade A f t

/-- The value is beyond an end of a linear scale, or its height is a quotient. -/
def Beside (s : Meter ℝ) (v : TclValue ℝ) : Prop :=
  s.optTo.less v = true ∨ v.less s.optFrom = true ∨
    ∃ x f, v.number = some x ∧ s.optFrom.number = some f ∧
      (s.valueRange ≠ 0 ∨ (x - f) * (s.bottomY - s.topY) ≠ 0)

/-- There is a scale to place the value on. -/
inductive HasHeight (A : Arithmetic ℝ) (s : Meter ℝ) (v : TclValue ℝ) : Prop where
  | linear (log : truth s.log.text = some false) (place : Beside s v)
  | log {f t : ℝ} (scale : Logarithmic A s f t)
      (place : (limit (decade (firstDecade A f)) (decade (lastDecade A f t)) v).number ≠ none)

/-- Every number has a height. -/
def Placed (A : Arithmetic ℝ) (s : Meter ℝ) : Prop :=
  ∀ (v : TclValue ℝ) x, v.number = some x → HasHeight A s v

section Heights

variable {A : Arithmetic ℝ} {s u : Meter ℝ} {v : TclValue ℝ} {f t : ℝ}

theorem logRange_exact (hA : A.log10 = Real.logb 10) (f t : ℝ) :
    logRange A f t = lastDecade A f t - firstDecade A f := by
  rw [logRange, hA, Nat.cast_ofNat, logb_zpow_ten, logb_zpow_ten]

/-- A limited value is positive if it is a number. -/
theorem limit_pos {c : ℝ}
    (h : (limit (decade (firstDecade A f)) (decade (lastDecade A f t)) v).number = some c) :
    0 < c := by
  cases hv : v.number with
  | some x =>
    rw [number_limit rfl rfl hv (decades_le A f t)] at h
    cases h
    exact (ten_zpow_pos _).trans_le (Scale.clip_mem (decades_le A f t) x).1
  | none =>
    rcases limit_cases (decade (firstDecade A f)) (decade (lastDecade A f t)) v with
      hlow | hhigh | hsame
    · rw [hlow] at h
      cases h
      exact ten_zpow_pos _
    · rw [hhigh] at h
      cases h
      exact ten_zpow_pos _
    · rw [hsame, hv] at h
      cases h

/-- Between the ends, the height of a number is a quotient. -/
theorem beside_iff {x : ℝ} (hhigh : ¬ s.optTo.less v = true) (hlow : ¬ v.less s.optFrom = true)
    (hv : v.number = some x) (hfrom : s.optFrom.number = some f) :
    Beside s v ↔ Extended.quotient ((x - f) * (s.bottomY - s.topY)) s.valueRange ≠ none := by
  rw [Extended.quotient_ne_none_iff]
  constructor
  · rintro (h | h | ⟨x', f', hv', hfrom', h⟩)
    · exact absurd h hhigh
    · exact absurd h hlow
    · rw [hv] at hv'
      rw [hfrom] at hfrom'
      cases hv'
      cases hfrom'
      exact h
  · exact fun h => .inr (.inr ⟨x, f, hv, hfrom, h⟩)

/-- What the linear computation can do. -/
theorem computeLinearHeight_cases (s : Meter ℝ) (v : TclValue ℝ) :
    Beside s v ∧ (∃ y, computeLinearHeight v s = (.ok y, s)) ∨
      ¬ Beside s v ∧ ∃ e, computeLinearHeight v s = (.error (.raised e), s) := by
  simp only [computeLinearHeight, bind_apply, reads_apply]
  by_cases hhigh : s.optTo.less v = true
  · simp [Beside, hhigh]
  · by_cases hlow : v.less s.optFrom = true
    · simp [Beside, hhigh, hlow]
    · cases hv : v.number with
      | none => simp [Beside, hhigh, hlow, hv, bind_apply, operand_none hv]
      | some x =>
        cases hfrom : s.optFrom.number with
        | none =>
          simp [Beside, hhigh, hlow, hfrom, bind_apply, operand_number hv, operand_none hfrom]
        | some f =>
          rw [beside_iff hhigh hlow hv hfrom]
          have hdivide := divide_eq ((x - f) * (s.bottomY - s.topY)) s.valueRange s
          cases hquotient : Extended.quotient ((x - f) * (s.bottomY - s.topY)) s.valueRange with
          | none =>
            rw [hquotient] at hdivide
            simp [hhigh, hlow, bind_apply, operand_number hv, operand_number hfrom, hdivide]
          | some q =>
            rw [hquotient] at hdivide
            simp [hhigh, hlow, bind_apply, operand_number hv, operand_number hfrom, hdivide]

theorem height_returns (hA : A.log10 = Real.logb 10) (h : HasHeight A s v) :
    ∃ y w, computeHeight A v s = (.ok y, w) := by
  cases h with
  | linear log place =>
    rcases computeLinearHeight_cases s v with ⟨-, y, hreturns⟩ | ⟨hnot, -⟩
    · exact ⟨y, s, (computeHeight_linear A log v).trans hreturns⟩
    · exact absurd place hnot
  | log scale place =>
    rw [computeHeight_log A scale.log]
    obtain ⟨c, hc⟩ := Option.ne_none_iff_exists'.mp place
    refine ⟨_, _, computeLogHeight_returns scale.from_number scale.to_number scale.from_pos
      scale.to_pos hc (limit_pos hc) ?_⟩
    rw [logRange_exact hA, sub_ne_zero]
    exact_mod_cast scale.decades.ne'

theorem height_raises (h : ¬ HasHeight A s v) :
    ∃ e w, computeHeight A v s = (.error (.raised e), w) := by
  cases hlog : truth s.log.text with
  | none =>
    refine ⟨.notBoolean s.log.text, s, ?_⟩
    simp [computeHeight, condition, bind_apply, hlog, error]
  | some b =>
    cases b with
    | false =>
      rw [computeHeight_linear A hlog]
      rcases computeLinearHeight_cases s v with ⟨hplace, -⟩ | ⟨-, e, hraises⟩
      · exact absurd (.linear hlog hplace) h
      · exact ⟨e, s, hraises⟩
    | true =>
      rw [computeHeight_log A hlog]
      rcases computeDecades_cases A s with ⟨f, t, hfrom, hto, hf, ht, -⟩ | ⟨-, e, hraises⟩
      · cases hlimit : (limit (decade (firstDecade A f)) (decade (lastDecade A f t)) v).number with
        | none =>
          obtain ⟨e, hraises⟩ := computeLogHeight_raises A hfrom hto hf ht hlimit
          exact ⟨e, _, hraises⟩
        | some c =>
          have hsame : ¬ firstDecade A f < lastDecade A f t := fun hless =>
            h (.log ⟨hlog, hfrom, hto, hf, ht, hless⟩ (by simp [hlimit]))
          have hle : firstDecade A f ≤ lastDecade A f t := le_max_left _ _
          have hsingle : lastDecade A f t = firstDecade A f := by omega
          exact ⟨_, _, computeLogHeight_single hfrom hto hf ht hsingle hlimit⟩
      · exact ⟨e, s, bind_error hraises⟩

theorem quiet_symm (h : quiet.rel s u) : quiet.rel u s :=
  ⟨h.1.symm, fun hlog => (h.2 ((log_of_settings h.1) ▸ hlog)).symm⟩

theorem Logarithmic.congr (h : Logarithmic A s f t) (hlog : u.log = s.log)
    (hfrom : u.optFrom = s.optFrom) (hto : u.optTo = s.optTo) : Logarithmic A u f t :=
  ⟨hlog ▸ h.log, hfrom ▸ h.from_number, hto ▸ h.to_number, h.from_pos, h.to_pos, h.decades⟩

/-- A quiet command does not matter. -/
theorem HasHeight.quiet (h : HasHeight A s v) (hquiet : Meter.quiet.rel s u) :
    HasHeight A u v := by
  have hlog := log_of_settings hquiet.1
  obtain ⟨hfrom, hto⟩ := ends_of_settings hquiet.1
  cases h with
  | linear log place =>
    obtain ⟨htop, hbottom⟩ := frame_of_settings hquiet.1
    refine .linear (hlog ▸ log) ?_
    rw [Beside, hfrom, hto, hquiet.2 log, htop, hbottom]
    exact place
  | log scale place => exact .log (scale.congr hlog hfrom hto) place

theorem quiet_remember (v : TclValue ℝ) (s : Meter ℝ) :
    Meter.quiet.rel s { s with lastValue := v } := ⟨rfl, fun _ => rfl⟩

theorem needleTo_raises (h : ¬ HasHeight A s v) :
    ∃ e w, needleTo A v s = (.error (.raised e), w) := by
  obtain ⟨e, w, hraises⟩ := height_raises fun hheight : HasHeight A { s with lastValue := v } v =>
    h (hheight.quiet (quiet_symm (quiet_remember v s)))
  exact ⟨e, w, (bind_ok (modify_apply _ _)).trans (bind_error hraises)⟩

theorem needleTo_iff (hA : A.log10 = Real.logb 10) (v : TclValue ℝ) (s : Meter ℝ) :
    (needleTo A v s).1 = .ok () ↔ HasHeight A s v := by
  constructor
  · intro hreturns
    by_contra hnot
    obtain ⟨e, w, hraises⟩ := needleTo_raises hnot
    rw [hraises] at hreturns
    cases hreturns
  · intro h
    obtain ⟨y, w, hreturns⟩ := height_returns hA (h.quiet (quiet_remember v s))
    rw [needleTo_returns hreturns]

/-- `set` moves the needle, directly or by the trace of the variable. -/
theorem setValue_moves (A : Arithmetic ℝ) (v : TclValue ℝ) (s : Meter ℝ) :
    ∃ w, setValue A v s = needleTo A v w ∧ Meter.quiet.rel s w := by
  by_cases hname : s.variableName = ""
  · refine ⟨s, ?_, Meter.quiet.refl s⟩
    rw [setValue, bind_ok (reads_apply _ _), if_neg (not_not_intro hname)]
  · refine ⟨{ s with
      globals := fun other => if other = s.variableName then some v else s.globals other },
      ?_, rfl, fun _ => rfl⟩
    simp [setValue, variableChanged, bind_apply, hname]

/-- `set` works exactly if the value has a height. -/
theorem setValue_iff (hA : A.log10 = Real.logb 10) (v : TclValue ℝ) (s : Meter ℝ) :
    (setValue A v s).1 = .ok () ↔ HasHeight A s v := by
  obtain ⟨w, hmoves, hquiet⟩ := setValue_moves A v s
  rw [hmoves, needleTo_iff hA]
  exact ⟨fun h => h.quiet (quiet_symm hquiet), fun h => h.quiet hquiet⟩

end Heights

/-! ## §2 Ticks that can be drawn -/

/-- A scale from `f` to `t` that has ticks. -/
inductive Drawable (A : Arithmetic ℝ) (s : Meter ℝ) (f t : ℝ) : Prop where
  | linear {major minorticks : ℝ} (scale : Linear s f t)
      (major_number : s.majorticks.number = some major)
      (minor_number : s.minorticks.number = some minorticks)
      (divisor : minorticks + 1 ≠ 0 ∨ major ≠ 0)
  | log (scale : Logarithmic A s f t)

section Ticks

variable {A : Arithmetic ℝ} {s w : Meter ℝ} {v : TclValue ℝ} {f t x : ℝ} {n : Nat}

/-- Every number is somewhere on a scale. -/
theorem Drawable.placed (h : Drawable A s f t) : Placed A s := by
  intro v x hv
  cases h with
  | linear scale _ _ _ =>
    refine .linear scale.log ?_
    by_cases hhigh : t < x
    · exact .inl (by simp [TclValue.less_numbers scale.to_number hv, hhigh])
    · by_cases hlow : x < f
      · exact .inr (.inl (by simp [TclValue.less_numbers hv scale.from_number, hlow]))
      · refine .inr (.inr ⟨x, f, hv, scale.from_number, .inl (scale.range ?_)⟩)
        exact (not_lt.mp hlow).trans (not_lt.mp hhigh)
  | log scale =>
    refine .log scale ?_
    rw [number_limit rfl rfl hv (decades_le A f t)]
    exact Option.some_ne_none _

/-- Drawing does not raise an error. -/
theorem Drawable.draws (h : Drawable A s f t) (n : Nat) :
    (∃ u, drawTicks A n s = (.ok (), u) ∧ u.lastValue = s.lastValue) ∨
      (drawTicks A n s).1 = .error .running := by
  cases h with
  | linear scale hmajor hminor hdivide =>
    rw [drawTicks_linear A scale.log]
    rcases drawLinearTicks_cases scale A hmajor hminor hdivide n with ⟨-, hdraw⟩ | hrunning
    · exact .inl ⟨_, hdraw, rfl⟩
    · exact .inr hrunning
  | log scale =>
    rw [drawTicks_logarithmic A scale.log]
    exact .inl ⟨_, drawLogTicks_returns A scale.from_number scale.to_number scale.from_pos
      scale.to_pos scale.decades, rfl⟩

/-- Without a linear scale, drawing raises an error, at the latest at the first
tick. -/
theorem draw_raises (hfrom : s.optFrom.number = some f) (hto : s.optTo.number = some t)
    (hlog : truth s.log.text ≠ some true) (h : ¬ Drawable A s f t) (n : Nat) :
    (∃ e u, drawTicks A n s = (.error (.raised e), u)) ∨
      n = 0 ∧ (drawTicks A n s).1 = .error .running := by
  cases htruth : truth s.log.text with
  | none =>
    refine .inl ⟨.notBoolean s.log.text, s, ?_⟩
    simp [drawTicks, condition, bind_apply, htruth, error]
  | some b =>
    cases b with
    | true => exact absurd htruth hlog
    | false =>
      rw [drawTicks_linear A htruth]
      by_cases hneeds : ∃ major minorticks, s.majorticks.number = some major ∧
          s.minorticks.number = some minorticks ∧ (minorticks + 1 ≠ 0 ∨ major ≠ 0)
      · obtain ⟨major, minorticks, hmajor, hminor, hdivide⟩ := hneeds
        cases n with
        | zero => exact .inr ⟨rfl, by rw [drawLinearTicks_apply A 0 hmajor hminor hdivide]; rfl⟩
        | succ n =>
          have hrange : f ≤ t ∧ s.valueRange = 0 := by
            by_contra hnot
            exact h (.linear ⟨htruth, hfrom, hto, fun hft hzero => hnot ⟨hft, hzero⟩⟩ hmajor
              hminor hdivide)
          exact .inl ⟨_, _, drawLinearTicks_raises A htruth hfrom hto hmajor hminor hdivide
            hrange.1 hrange.2 n⟩
      · obtain ⟨e, hraises⟩ := drawLinearTicks_needs A n hneeds
        exact .inl ⟨e, s, hraises⟩

/-- What has been drawn can be drawn, on a linear scale. -/
theorem drawable_of_draws {u : Meter ℝ} (hfrom : s.optFrom.number = some f)
    (hto : s.optTo.number = some t) (hlog : truth s.log.text ≠ some true)
    (h : drawTicks A n s = (.ok (), u)) : Drawable A s f t := by
  by_contra hnot
  rcases draw_raises hfrom hto hlog hnot n with ⟨e, w, hraises⟩ | ⟨-, hrunning⟩
  · rw [hraises] at h
    cases h
  · rw [h] at hrunning
    cases hrunning

/-- A single decade can be drawn, but has no place for any value. -/
theorem Drawable.of_height (hlog : truth s.log.text = some true)
    (hfrom : s.optFrom.number = some f) (hto : s.optTo.number = some t)
    (h : HasHeight A s v) : Drawable A s f t := by
  cases h with
  | linear hlinear _ => simp [hlog] at hlinear
  | log scale _ =>
    have hf := hfrom.symm.trans scale.from_number
    have ht := hto.symm.trans scale.to_number
    cases hf
    cases ht
    exact .log scale

/-- The same scale, in another meter. -/
theorem Drawable.congr (h : Drawable A s f t) (hlog : w.log = s.log)
    (hmajor : w.majorticks = s.majorticks) (hminor : w.minorticks = s.minorticks)
    (hfrom : w.optFrom = s.optFrom) (hto : w.optTo = s.optTo)
    (hrange : truth s.log.text = some false → w.valueRange = s.valueRange) :
    Drawable A w f t := by
  cases h with
  | linear scale major_number minor_number divisor =>
    have hscale : Linear w f t := ⟨hlog ▸ scale.log, hfrom ▸ scale.from_number,
      hto ▸ scale.to_number, hrange scale.log ▸ scale.range⟩
    exact .linear hscale (hmajor ▸ major_number) (hminor ▸ minor_number) divisor
  | log scale => exact .log (scale.congr hlog hfrom hto)

theorem Drawable.quiet (h : Drawable A s f t) (hquiet : Meter.quiet.rel s w) :
    Drawable A w f t := by
  obtain ⟨hmajor, hminor⟩ := ticks_of_settings hquiet.1
  obtain ⟨hfrom, hto⟩ := ends_of_settings hquiet.1
  exact h.congr (log_of_settings hquiet.1) hmajor hminor hfrom hto hquiet.2

theorem Drawable.after {u : Meter ℝ} (h : Drawable A s f t)
    (hdraw : drawTicks A n s = (.ok (), u)) :
    Meter.quiet.rel s u ∧ u.lastValue = s.lastValue := by
  refine ⟨(quiet_drawTicks A n).of_eq hdraw, ?_⟩
  rcases h.draws n with ⟨u', hdraw', hlast⟩ | hrunning
  · rw [hdraw] at hdraw'
    cases hdraw'
    exact hlast
  · rw [hdraw] at hrunning
    cases hrunning

end Ticks

/-! ## §3 A redraw -/

/-- What a configuration must not lose: the options of the scale, what has been
computed from them, and what is drawn. -/
def display (s : Meter ℝ) :=
  (s.optFrom, s.optTo, s.log, s.valueRange, s.decadeLow, s.decadeHigh, s.needle,
    s.canvas.map Prod.snd)

/-- The loop over the ticks of `w` never ends, or what it draws is what `s`
displays already. -/
inductive Idle (A : Arithmetic ℝ) (s w : Meter ℝ) (f t : ℝ) : Prop where
  | endless {major : ℝ} (log : truth w.log.text = some false)
      (major_number : w.majorticks.number = some major) (range : f ≤ t) (interval : major ≤ 0)
  | linear {major minorticks : ℝ} (log : truth w.log.text = some false)
      (major_number : w.majorticks.number = some major)
      (minor_number : w.minorticks.number = some minorticks)
      (same : display (w.drawn (linearHeight w f t)
        (linearMarks A f major minorticks (tickCount f t major))) = display s)
  | log (log : truth w.log.text = some true)
      (same : display (logScaled A f t (w.addTicks
        (decadeItems A (.finite (decadeInterval A w f t)) w.majorRight w.minorRight
          (decades A f t) (.finite w.bottomY)))) = display s)

/-- The ticks and the needle of `w` can be drawn. -/
def Redraws (A : Arithmetic ℝ) (s w : Meter ℝ) (f t : ℝ) : Prop :=
  Drawable A w f t ∧ (HasHeight A w w.lastValue ∨ Idle A s w f t)

/-- The meter is as it was, and works. -/
def Keeps (A : Arithmetic ℝ) (s u : Meter ℝ) : Prop :=
  display u = display s ∧ ∀ (v : TclValue ℝ) x, v.number = some x → (setValue A v u).1 = .ok ()

section Redraw

variable {A : Arithmetic ℝ} {s w u : Meter ℝ} {v : TclValue ℝ} {f t : ℝ} {n : Nat}

/-- An error of the needle comes after the range has been set. -/
theorem needle_lost (h : Drawable A u f t) (hnot : ¬ HasHeight A u v) :
    ∃ e w, needleTo A v u = (.error (.raised e), w) ∧
      display w = display (if truth u.log.text = some true then logScaled A f t u else u) := by
  cases h with
  | linear scale _ _ _ =>
    have hlog : truth u.log.text = some false := scale.log
    rcases computeLinearHeight_cases { u with lastValue := v } v with ⟨hplace, -⟩ | ⟨-, e, hraises⟩
    · exact absurd (.linear hlog hplace) hnot
    · refine ⟨e, { u with lastValue := v }, (bind_ok (modify_apply _ _)).trans (bind_error ?_), ?_⟩
      · exact (computeHeight_linear (s := { u with lastValue := v }) A hlog v).trans hraises
      · simp [hlog, display]
  | log scale =>
    have hlog : truth u.log.text = some true := scale.log
    have hlimit : (limit (decade (firstDecade A f)) (decade (lastDecade A f t)) v).number =
        none := by
      by_contra hplace
      exact hnot (.log scale hplace)
    obtain ⟨e, hraises⟩ := computeLogHeight_raises (s := { u with lastValue := v }) A
      scale.from_number scale.to_number scale.from_pos scale.to_pos hlimit
    refine ⟨e, logScaled A f t { u with lastValue := v },
      (bind_ok (modify_apply _ _)).trans (bind_error ?_), ?_⟩
    · exact (computeHeight_log (s := { u with lastValue := v }) A hlog v).trans hraises
    · rw [if_pos hlog]
      rfl

/-- On a linear scale with a positive interval the ticks are drawn, and then the
needle if its value can be placed. -/
theorem redraw_placed {major minorticks : ℝ} (scale : Linear w f t) (A : Arithmetic ℝ)
    (hmajor : w.majorticks.number = some major)
    (hminor : w.minorticks.number = some minorticks) (hpos : 0 < major)
    (hn : tickCount f t major < n) (hplace : Beside w w.lastValue) :
    ∃ y, redraw A n w = (.ok (), { w.drawn (linearHeight w f t)
      (linearMarks A f major minorticks (tickCount f t major)) with needle := y }) := by
  have hdraw := (drawTicks_linear A scale.log n).trans
    (drawLinearTicks_returns scale A hmajor hminor (.inr hpos.ne') hpos hn)
  rcases computeLinearHeight_cases (w.drawn (linearHeight w f t)
    (linearMarks A f major minorticks (tickCount f t major))) w.lastValue with
    ⟨-, y, hheight⟩ | ⟨hnot, -⟩
  · refine ⟨y, (bind_ok hdraw).trans ((bind_ok (reads_apply _ _)).trans ?_)⟩
    exact needleTo_returns
      ((computeHeight_linear A (scale.drawn _ _).log w.lastValue).trans hheight)
  · exact absurd hplace hnot

theorem redraw_unplaced {major minorticks : ℝ} (scale : Linear w f t) (A : Arithmetic ℝ)
    (hmajor : w.majorticks.number = some major)
    (hminor : w.minorticks.number = some minorticks) (hpos : 0 < major)
    (hn : tickCount f t major < n) (hplace : ¬ Beside w w.lastValue) :
    ∃ e u, redraw A n w = (.error (.raised e), u) := by
  have hdraw := (drawTicks_linear A scale.log n).trans
    (drawLinearTicks_returns scale A hmajor hminor (.inr hpos.ne') hpos hn)
  have hnot : ¬ HasHeight A (w.drawn (linearHeight w f t)
      (linearMarks A f major minorticks (tickCount f t major))) w.lastValue := by
    rintro (⟨-, hbeside⟩ | ⟨hlog, -⟩)
    · exact hplace hbeside
    · have hlinear : truth w.log.text = some true := hlog.log
      simp [scale.log] at hlinear
  obtain ⟨e, u, hraises⟩ := needleTo_raises hnot
  exact ⟨e, u, (bind_ok hdraw).trans ((bind_ok (reads_apply _ _)).trans hraises)⟩

/-- A linear scale: what is drawn, if the loop ends. -/
theorem idle_linear {major minorticks : ℝ} (scale : Linear w f t)
    (hmajor : w.majorticks.number = some major)
    (hminor : w.minorticks.number = some minorticks)
    (hdivide : minorticks + 1 ≠ 0 ∨ major ≠ 0) :
    Idle A s w f t ↔
      ∀ n u, drawLinearTicks A n w = (.ok (), u) → display u = display s := by
  constructor
  · intro hidle n u hdraw
    rcases drawLinearTicks_cases scale A hmajor hminor hdivide n with ⟨hpos, hall⟩ | hrunning
    · rw [hdraw] at hall
      cases hall
      cases hidle with
      | endless _ hmajor' hrange hinterval =>
        rw [hmajor] at hmajor'
        cases hmajor'
        exact absurd (hpos hrange) (not_lt.mpr hinterval)
      | linear _ hmajor' hminor' hsame =>
        rw [hmajor] at hmajor'
        rw [hminor] at hminor'
        cases hmajor'
        cases hminor'
        exact hsame
      | log hlog _ => simp [scale.log] at hlog
    · rw [hdraw] at hrunning
      cases hrunning
  · intro hsame
    by_cases hpos : f ≤ t → 0 < major
    · obtain ⟨n, hdraw⟩ := drawLinearTicks_ends scale A hmajor hminor hdivide hpos
      exact .linear scale.log hmajor hminor (hsame n _ hdraw)
    · obtain ⟨hrange, hinterval⟩ := Classical.not_imp.mp hpos
      exact .endless scale.log hmajor hrange (not_lt.mp hinterval)

/-- The limits that drawing sets are set again by the needle. -/
theorem idle_log (scale : Logarithmic A w f t) :
    Idle A s w f t ↔
      ∀ u, drawLogTicks A w = (.ok (), u) → display (logScaled A f t u) = display s := by
  rw [drawLogTicks_returns A scale.from_number scale.to_number scale.from_pos scale.to_pos
    scale.decades]
  constructor
  · rintro hidle u ⟨⟩
    cases hidle with
    | endless hlog _ _ _ => simp [scale.log] at hlog
    | linear hlog _ _ _ => simp [scale.log] at hlog
    | log _ hsame => exact hsame
  · intro hsame
    have hdrawn := hsame _ rfl
    exact .log scale.log hdrawn

/-- What is drawn, if drawing ends at all. -/
theorem idle_iff (h : Drawable A w f t) :
    Idle A s w f t ↔ ∀ n u, drawTicks A n w = (.ok (), u) →
      display (if truth w.log.text = some true then logScaled A f t u else u) = display s := by
  cases h with
  | linear scale hmajor hminor hdivide =>
    simp only [idle_linear scale hmajor hminor hdivide, drawTicks_linear A scale.log, scale.log]
    simp
  | log scale =>
    simp only [idle_log scale, drawTicks_logarithmic A scale.log, if_pos scale.log]
    exact ⟨fun h _ u => h u, fun h u => h 0 u⟩

/-- Without a scale, a redraw raises an error: the ticks do, or the needle. -/
theorem redraw_raises (hfrom : w.optFrom.number = some f) (hto : w.optTo.number = some t)
    (h : ¬ Drawable A w f t) : ∃ e u, redraw A 1 w = (.error (.raised e), u) := by
  by_cases hlog : truth w.log.text = some true
  · have hticks : ∃ u, drawTicks A 1 w = (.ok (), u) ∨
        ∃ e, drawTicks A 1 w = (.error (.raised e), u) := by
      rw [drawTicks_logarithmic A hlog]
      rcases computeDecades_cases A w with ⟨f', t', hfrom', hto', hf, ht, -⟩ | ⟨-, e, hraises⟩
      · exact drawLogTicks_ends A hfrom' hto' hf ht
      · exact ⟨w, .inr ⟨e, bind_error hraises⟩⟩
    obtain ⟨u, hdraw | ⟨e, hdraw⟩⟩ := hticks
    · have hquiet := (quiet_drawTicks A 1).of_eq hdraw
      obtain ⟨e, z, hraises⟩ := needleTo_raises fun hheight : HasHeight A u u.lastValue =>
        h (.of_height hlog hfrom hto (hheight.quiet (quiet_symm hquiet)))
      exact ⟨e, z, (bind_ok hdraw).trans ((bind_ok (reads_apply _ _)).trans hraises)⟩
    · exact ⟨e, u, bind_error hdraw⟩
  · rcases draw_raises hfrom hto hlog h 1 with ⟨e, u, hraises⟩ | ⟨hzero, -⟩
    · exact ⟨e, u, bind_error hraises⟩
    · exact absurd hzero one_ne_zero

/-- **When a redraw that fails has lost nothing**. -/
theorem redraw_keeps_iff (hA : A.log10 = Real.logb 10) (hfrom : w.optFrom.number = some f)
    (hto : w.optTo.number = some t)
    (hlost : ¬ Drawable A w f t → truth w.log.text ≠ some true →
      ∀ u, quiet.rel w u → display u ≠ display s) :
    (∀ n e u, redraw A n w = (.error (.raised e), u) → Keeps A s u) ↔ Redraws A s w f t := by
  constructor
  · intro hkeeps
    have hdrawable : Drawable A w f t := by
      by_contra hnot
      obtain ⟨e, u, hraises⟩ := redraw_raises hfrom hto hnot
      have hquiet := (quiet_redraw A 1).of_eq hraises
      obtain ⟨hdisplay, hset⟩ := hkeeps 1 e u hraises
      by_cases hlog : truth w.log.text = some true
      · have hheight := (setValue_iff hA _ u).mp (hset ⟨"0", some 0⟩ 0 rfl)
        exact hnot (.of_height hlog hfrom hto (hheight.quiet (quiet_symm hquiet)))
      · exact hlost hnot hlog u hquiet hdisplay
    refine ⟨hdrawable, or_iff_not_imp_left.mpr fun hnot => (idle_iff hdrawable).mpr ?_⟩
    intro n u hdraw
    have hquiet := hdrawable.after hdraw
    obtain ⟨e, z, hraises, hdisplay⟩ := needle_lost (hdrawable.quiet hquiet.1)
      fun h : HasHeight A u w.lastValue => hnot (h.quiet (quiet_symm hquiet.1))
    have hredraw : redraw A n w = (.error (.raised e), z) := by
      refine (bind_ok hdraw).trans ((bind_ok (reads_apply _ _)).trans ?_)
      rw [hquiet.2]
      exact hraises
    rw [← log_of_settings hquiet.1.1, ← hdisplay]
    exact (hkeeps n e z hredraw).1
  · rintro ⟨hdrawable, hneedle⟩ n e z hraises
    have hset : ∀ (v : TclValue ℝ) x, v.number = some x → (setValue A v z).1 = .ok () := by
      have hquiet := (quiet_redraw A n).of_eq hraises
      intro v x hv
      exact (setValue_iff hA v z).mpr ((hdrawable.quiet hquiet).placed v x hv)
    refine ⟨?_, hset⟩
    rcases hdrawable.draws n with ⟨u, hdraw, -⟩ | hrunning
    · have hquiet := hdrawable.after hdraw
      have hneedleTo : needleTo A w.lastValue u = (.error (.raised e), z) := by
        rw [← hquiet.2, ← hraises]
        exact ((bind_ok hdraw).trans (bind_ok (reads_apply _ _))).symm
      have hnot : ¬ HasHeight A u w.lastValue := by
        rw [← needleTo_iff hA, hneedleTo]
        exact fun h => by cases h
      obtain ⟨e', z', hlost, hdisplay⟩ := needle_lost (hdrawable.quiet hquiet.1) hnot
      rw [hneedleTo] at hlost
      cases hlost
      rw [hdisplay, log_of_settings hquiet.1.1]
      rcases hneedle with hheight | hidle
      · exact absurd (hheight.quiet hquiet.1) hnot
      · exact (idle_iff hdrawable).mp hidle n u hdraw
    · rw [redraw, bind_error (Prod.ext hrunning rfl)] at hraises
      cases hraises

end Redraw

/-! ## §4 The handlers -/

/-- When a change of the scale does not lose the meter: it can be drawn on the
new scale; or it is rejected at once; or the option has the value already and
there is nothing that erasing could lose. -/
def Harmless (A : Arithmetic ℝ) (s : Meter ℝ) : Rescaling ℝ → Prop
  | .optFrom v =>
    (∃ f t, v.number = some f ∧ s.optTo.number = some t ∧
      Redraws A s { s.erased with optFrom := v, valueRange := t - f } f t) ∨
    (v.number = none ∨ s.optTo.number = none) ∧ v = s.optFrom ∧ display s.erased = display s ∧
      Placed A s
  | .optTo v =>
    (∃ f t, s.optFrom.number = some f ∧ v.number = some t ∧
      Redraws A s { s.erased with optTo := v, valueRange := t - f } f t) ∨
    (s.optFrom.number = none ∨ v.number = none) ∧ v = s.optTo ∧ display s.erased = display s ∧
      Placed A s
  | .log v =>
    v.equal s.log = true ∨ isBoolean v.text = false ∧ Placed A s ∨
    isBoolean v.text = true ∧ ∃ f t, s.optFrom.number = some f ∧ s.optTo.number = some t ∧
      0 < f ∧ 0 < t ∧ Redraws A s (withDecades A f t { s.erased with log := v }) f t

section Handlers

variable {A : Arithmetic ℝ} {s : Meter ℝ} {v : TclValue ℝ} {f t : ℝ}

theorem keeps_iff (hA : A.log10 = Real.logb 10) {u : Meter ℝ} (hquiet : quiet.rel s u) :
    Keeps A s u ↔ display u = display s ∧ Placed A s := by
  have hplaced : (∀ (v : TclValue ℝ) x, v.number = some x → (setValue A v u).1 = .ok ()) ↔
      Placed A s := by
    simp only [setValue_iff hA]
    exact ⟨fun h v x hv => (h v x hv).quiet (quiet_symm hquiet),
      fun h v x hv => (h v x hv).quiet hquiet⟩
  rw [Keeps, hplaced]

/-- A handler that raises in one state, whatever the rounds. -/
theorem raises_keeps_iff {handler : Nat → Method ℝ Unit} {u : Meter ℝ}
    (h : ∀ n, ∃ e, handler n s = (.error (.raised e), u)) :
    (∀ n e u', handler n s = (.error (.raised e), u') → Keeps A s u') ↔ Keeps A s u := by
  constructor
  · intro hkeeps
    obtain ⟨e, hraises⟩ := h 0
    exact hkeeps 0 e u hraises
  · intro hkeeps n e u' hraises
    obtain ⟨e', hraises'⟩ := h n
    rw [hraises] at hraises'
    cases hraises'
    exact hkeeps

/-- If a scale without ticks is displayed as the one that was there, then
drawing the old one has failed too. -/
theorem drawable_of_display (hdraws : ∃ n u, drawTicks A n s = (.ok (), u)) {w u : Meter ℝ}
    (hfrom : w.optFrom.number = some f) (hto : w.optTo.number = some t)
    (hlog : w.log = s.log) (hmajor : w.majorticks = s.majorticks)
    (hminor : w.minorticks = s.minorticks) (hlinear : truth w.log.text ≠ some true)
    (hquiet : quiet.rel w u) (hdisplay : display u = display s) : Drawable A w f t := by
  obtain ⟨hends, hends'⟩ := ends_of_settings hquiet.1
  have hfrom' : w.optFrom = s.optFrom := hends.symm.trans (congrArg (·.1) hdisplay)
  have hto' : w.optTo = s.optTo := hends'.symm.trans (congrArg (·.2.1) hdisplay)
  obtain ⟨n, u', hdraw⟩ := hdraws
  have hdrawable : Drawable A s f t :=
    drawable_of_draws (hfrom' ▸ hfrom) (hto' ▸ hto) (hlog ▸ hlinear) hdraw
  refine hdrawable.congr hlog hmajor hminor hfrom' hto' fun hlinear => ?_
  exact (hquiet.2 (hlog ▸ hlinear)).symm.trans (congrArg (·.2.2.2.1) hdisplay)

theorem keeps_erased_iff (hA : A.log10 = Real.logb 10) (s : Meter ℝ) :
    Keeps A s s.erased ↔ display s.erased = display s ∧ Placed A s :=
  keeps_iff hA ⟨rfl, fun _ => rfl⟩

/-- A handler of an end, from `low` to `high`: with a text, the ticks have been
erased; with numbers, it redraws. -/
theorem end_keeps_iff {handler : Nat → Method ℝ Unit} {u : Meter ℝ} {w : ℝ → ℝ → Meter ℝ}
    {low high : TclValue ℝ} {same : Prop}
    (htext : low.number = none ∨ high.number = none →
      ∀ n, ∃ e, handler n s = (.error (.raised e), u))
    (hsame : Keeps A s u ↔ same ∧ display s.erased = display s ∧ Placed A s)
    (hnumbers : ∀ f t, low.number = some f → high.number = some t →
      ∀ n, handler n s = redraw A n (w f t))
    (hredraw : ∀ f t, low.number = some f → high.number = some t →
      ((∀ n e z, redraw A n (w f t) = (.error (.raised e), z) → Keeps A s z) ↔
        Redraws A s (w f t) f t)) :
    (∀ n e z, handler n s = (.error (.raised e), z) → Keeps A s z) ↔
      (∃ f t, low.number = some f ∧ high.number = some t ∧ Redraws A s (w f t) f t) ∨
      (low.number = none ∨ high.number = none) ∧ same ∧ display s.erased = display s ∧
        Placed A s := by
  cases hlow : low.number with
  | none =>
    rw [raises_keeps_iff (htext (.inl hlow)), hsame]
    simp
  | some f =>
    cases hhigh : high.number with
    | none =>
      rw [raises_keeps_iff (htext (.inr hhigh)), hsame]
      simp
    | some t =>
      simp only [hnumbers f t hlow hhigh, hredraw f t hlow hhigh]
      simp

theorem from_harmless_iff (hA : A.log10 = Real.logb 10) (hcanvas : s.hasCanvas = true)
    (hdraws : ∃ n u, drawTicks A n s = (.ok (), u)) (v : TclValue ℝ) :
    (∀ n e u, configureFrom A n v s = (.error (.raised e), u) → Keeps A s u) ↔
      Harmless A s (.optFrom v) := by
  refine end_keeps_iff (u := { s.erased with optFrom := v })
    (w := fun f t => { s.erased with optFrom := v, valueRange := t - f })
    (fun htext n => configureFrom_text A n hcanvas htext.symm) ?_
    (fun f t hv hto n => configureFrom_numbers A n hcanvas hto hv) fun f t hv hto => ?_
  · constructor
    · intro hkeeps
      have hv : v = s.optFrom := congrArg (·.1) hkeeps.1
      subst hv
      exact ⟨rfl, (keeps_erased_iff hA s).mp hkeeps⟩
    · rintro ⟨rfl, hkeeps⟩
      exact (keeps_erased_iff hA s).mpr hkeeps
  · exact redraw_keeps_iff hA hv hto fun hnot hlinear u hquiet hdisplay =>
      hnot (drawable_of_display hdraws hv hto rfl rfl rfl hlinear hquiet hdisplay)

theorem to_harmless_iff (hA : A.log10 = Real.logb 10) (hcanvas : s.hasCanvas = true)
    (hdraws : ∃ n u, drawTicks A n s = (.ok (), u)) (v : TclValue ℝ) :
    (∀ n e u, configureTo A n v s = (.error (.raised e), u) → Keeps A s u) ↔
      Harmless A s (.optTo v) := by
  refine end_keeps_iff (u := { s.erased with optTo := v })
    (w := fun f t => { s.erased with optTo := v, valueRange := t - f })
    (fun htext n => configureTo_text A n hcanvas htext) ?_
    (fun f t hfrom hv n => configureTo_numbers A n hcanvas hfrom hv) fun f t hfrom hv => ?_
  · constructor
    · intro hkeeps
      have hv : v = s.optTo := congrArg (·.2.1) hkeeps.1
      subst hv
      exact ⟨rfl, (keeps_erased_iff hA s).mp hkeeps⟩
    · rintro ⟨rfl, hkeeps⟩
      exact (keeps_erased_iff hA s).mpr hkeeps
  · exact redraw_keeps_iff hA hfrom hv fun hnot hlinear u hquiet hdisplay =>
      hnot (drawable_of_display hdraws hfrom hv rfl rfl rfl hlinear hquiet hdisplay)

theorem log_harmless_iff (hA : A.log10 = Real.logb 10) (hready : s.constructing = false)
    (v : TclValue ℝ) :
    (∀ n e u, configureLog A n v s = (.error (.raised e), u) → Keeps A s u) ↔
      Harmless A s (.log v) := by
  rw [Harmless]
  cases hequal : v.equal s.log with
  | true =>
    refine iff_of_true (fun n e u hraises => ?_) (.inl rfl)
    rw [configureLog_same A n hequal] at hraises
    cases hraises
  | false =>
    cases hboolean : isBoolean v.text with
    | false =>
      rw [raises_keeps_iff fun n => ⟨_, configureLog_rejected A n hequal hboolean⟩,
        keeps_iff hA (quiet.refl s)]
      simp
    | true =>
      have hdiffers : ∀ u : Meter ℝ, u.log = v → display u ≠ display s := by
        rintro u rfl hdisplay
        have hsame : u.log = s.log := congrArg (·.2.2.1) hdisplay
        have hnumber : u.log.isNaN = false := by simp [TclValue.isNaN, isNaN_of_isBoolean hboolean]
        rw [← hsame, TclValue.equal_self hnumber] at hequal
        cases hequal
      by_cases hrange : ∃ f t, s.optFrom.number = some f ∧ s.optTo.number = some t ∧ 0 < f ∧ 0 < t
      · obtain ⟨f, t, hfrom, hto, hf, ht⟩ := hrange
        simp only [configureLog_accepted A _ hequal hboolean hready hfrom hto hf ht]
        rw [redraw_keeps_iff (w := withDecades A f t { s.erased with log := v }) hA hfrom hto
          fun _ _ u hquiet => hdiffers u (log_of_settings hquiet.1)]
        simp [hfrom, hto, hf, ht]
      · rw [raises_keeps_iff fun n => configureLog_raises (A := A) n hequal hboolean hready
          fun f t hfrom hto hf ht => hrange ⟨f, t, hfrom, hto, hf, ht⟩]
        refine iff_of_false (fun hkeeps => hdiffers _ rfl hkeeps.1) ?_
        rintro (h | ⟨h, -⟩ | ⟨-, f, t, hfrom, hto, hf, ht, -⟩)
        · cases h
        · cases h
        · exact hrange ⟨f, t, hfrom, hto, hf, ht⟩

end Handlers

/-- **When a configuration that is rejected leaves the meter as it was**, and
able to display every number. -/
theorem rejected_configuration (text engineering : ℝ → String) {s : Meter ℝ}
    (hcanvas : s.hasCanvas = true) (hready : s.constructing = false)
    (hdraws : ∃ n u, drawTicks (realArithmetic text engineering) n s = (.ok (), u))
    (change : Rescaling ℝ) :
    (∀ n e u, onconfigure (realArithmetic text engineering) n change.option s =
        (.error (.raised e), u) → Keeps (realArithmetic text engineering) s u) ↔
      Harmless (realArithmetic text engineering) s change := by
  cases change with
  | optFrom v => exact from_harmless_iff rfl hcanvas hdraws v
  | optTo v => exact to_harmless_iff rfl hcanvas hdraws v
  | log v => exact log_harmless_iff rfl hready v

/-- The default meter in a window, not written. -/
noncomputable def ready : Meter ℝ :=
  { fresh (fun _ => none) with
    topY := 0, bottomY := 1, valueRange := 1 - -1, hasCanvas := true, constructing := false }

theorem ready_linear : Linear ready (-1) 1 := by
  refine ⟨by decide, rfl, rfl, fun _ => ?_⟩
  show (1 - -1 : ℝ) ≠ 0
  norm_num

theorem ready_draws :
    ∃ n u, drawTicks (realArithmetic (fun _ => "") fun _ => "") n ready = (.ok (), u) :=
  ⟨_, _, (drawTicks_linear _ ready_linear.log _).trans
    (drawLinearTicks_returns ready_linear _ rfl rfl (.inr one_ne_zero) one_pos
      (Nat.lt_succ_self _))⟩

/-- A value of `-log` that is not boolean. -/
theorem rejected_configuration_maybe :
    (∃ e, onconfigure (realArithmetic (fun _ => "") fun _ => "") 9
      (Rescaling.log ⟨"maybe", none⟩).option ready = (.error (.raised e), ready)) ∧
    ∀ n e u, onconfigure (realArithmetic (fun _ => "") fun _ => "") n
      (Rescaling.log ⟨"maybe", none⟩).option ready = (.error (.raised e), u) →
        Keeps (realArithmetic (fun _ => "") fun _ => "") ready u := by
  have hequal : TclValue.equal ⟨"maybe", none⟩ ready.log = false := by decide
  refine ⟨⟨_, configureLog_rejected _ 9 hequal (by decide)⟩, ?_⟩
  refine (rejected_configuration (fun _ => "") (fun _ => "") rfl rfl ready_draws
    (.log ⟨"maybe", none⟩)).mpr (.inr (.inl ⟨by decide, ?_⟩))
  exact (Drawable.linear ready_linear rfl rfl (.inr one_ne_zero)).placed

/-- A logarithmic scale is rejected below zero, and `-log` stays true. -/
theorem log_kept_on_error :
    ¬ ∀ (s : Meter ℝ) (change : Rescaling ℝ), s.hasCanvas = true → s.constructing = false →
      (∃ n u, drawTicks (realArithmetic (fun _ => "") fun _ => "") n s = (.ok (), u)) →
        ∀ n e u, onconfigure (realArithmetic (fun _ => "") fun _ => "") n change.option s =
          (.error (.raised e), u) → Keeps (realArithmetic (fun _ => "") fun _ => "") s u := by
  intro hall
  have hequal : TclValue.equal ⟨"true", none⟩ ready.log = false := by decide
  have hrange : ∀ f t, ready.optFrom.number = some f → ready.optTo.number = some t → 0 < f →
      ¬ 0 < t := by
    intro f t hfrom hto hf
    cases hfrom
    norm_num at hf
  obtain ⟨e, hraises⟩ := configureLog_raises (A := realArithmetic (fun _ => "") fun _ => "") 0
    hequal (by decide) rfl hrange
  have hkeeps := hall ready (.log ⟨"true", none⟩) rfl rfl ready_draws 0 e _ hraises
  have hlog : (⟨"true", none⟩ : TclValue ℝ) = ⟨"false", none⟩ := congrArg (·.2.2.1) hkeeps.1
  have htext := congrArg TclValue.text hlog
  exact absurd htext (by decide)

end Meter

end EpicsTcl.Widget
