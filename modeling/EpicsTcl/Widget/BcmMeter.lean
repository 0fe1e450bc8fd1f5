/-
EpicsTcl.Widget.BcmMeter — the range of a beam current monitor
(`bcmMeter.tcl`).

When the range of the channel changes, `setMeterRange` gives the meter a scale
from minus the range to the range, rounded as `format %.02e` writes it, with an
interval for the major ticks. Ranges are mostly `1.0e<n>` or `3.0e<n>`; the
interval is chosen by the leading digit. For every positive range it is
readable, but the meter moves its needle before it is told the interval: a last
value that cannot be placed, such as NaN, stops the configuration
(`readable_scale`).

The values of the channel and its range come from the write traces of their
variables. A trace that raises an error does not undo the write.
-/
import EpicsTcl.Widget.NeedleTheorems
import EpicsTcl.Widget.RejectTheorems

namespace EpicsTcl.Widget

open EpicsTcl.Library EpicsTcl.Library.Script

/-- `format %.02e`: how numbers are rounded and written. -/
structure Scientific (K : Type) [Field K] [LinearOrder K] where
  rounding : Rounding K
  text : K → String

/-- The widget: its channel and the meter in it. -/
structure BcmMeter (K : Type) where
  channel : String
  meter : Meter K

namespace BcmMeter

section Model

variable {K : Type} [Field K] [LinearOrder K] [FloorRing K] [IsStrictOrderedRing K]

abbrev Method (K α : Type) := Script (BcmMeter K) (Stop MeterError) α

/-- A command of the meter, or an `expr`, which is the same for both. -/
def onMeter {α : Type} (m : Meter.Method K α) : Method K α :=
  .zoom BcmMeter.meter (fun meter s => { s with meter := meter }) m

/-- The variables with the value and the range of a channel. -/
def valueName (channel : String) : String := "::controlwidget::" ++ channel

def rangeName (s : BcmMeter K) : String := valueName s.channel ++ ".MRNG"

/-- `format %de%d`, as a value. -/
def power (mantissa : Nat) (exponent : Int) : TclValue K :=
  ⟨toString mantissa ++ "e" ++ toString exponent, some (mantissa * (10 : ℕ) ^ exponent)⟩

/-- The interval of the major ticks. -/
def majorInterval (A : Arithmetic K) (goodRange : K) (rangeExponent : Int) : TclValue K :=
  let rangeMantissa := halfAway (goodRange / (10 : ℕ) ^ rangeExponent)
  if rangeMantissa = 3 then power 1 rangeExponent
  else if rangeMantissa = 1 then power 5 (rangeExponent - 1)
  else A.value (goodRange / (3 : ℕ))

/-- What the meter is configured with. -/
def scaleOptions (A : Arithmetic K) (F : Scientific K) (goodRange : K) (interval : TclValue K) :
    List (Configuration K) :=
  [.optFrom (A.value (-goodRange)), .optTo ⟨F.text goodRange, some goodRange⟩,
    .majorticks interval, .minorticks ⟨"4", some (4 : ℕ)⟩]

def setMeterRange (A : Arithmetic K) (F : Scientific K) (n : Nat) : Method K Unit := do
  let name ← .reads rangeName
  let globals ← .reads (·.meter.globals)
  match globals name with
  | none => onMeter (Meter.error (.noSuchVariable name))
  | some range => do
    let range ← onMeter (Meter.operand range)
    let goodRange := F.rounding.significant 2 range
    let rangeLog ← onMeter (Meter.logarithm A ⟨F.text goodRange, some goodRange⟩)
    let rangeExponent := ⌊rangeLog⌋
    onMeter (Meter.configure A n
      (scaleOptions A F goodRange (majorInterval A goodRange rangeExponent)))

/-- What happens to a widget: its channel or the range of it has a new value. -/
inductive Change (K : Type) where
  | value (value : TclValue K)
  | range (range : TclValue K)

/-- The linked variable is written, and its write trace runs. -/
def change (A : Arithmetic K) (F : Scientific K) (n : Nat) : Change K → Method K Unit
  | .value value => onMeter (Meter.setValue A value)
  | .range range => do
    let name ← .reads rangeName
    onMeter (.modify fun s =>
      { s with globals := fun other => if other = name then some range else s.globals other })
    setMeterRange A F n

/-- A change whose trace ends, also with an error. -/
def step (A : Arithmetic K) (F : Scientific K) (s : BcmMeter K) (a : Nat × Change K) :
    Option (BcmMeter K) :=
  match change A F a.1 a.2 s with
  | (.error .running, _) => none
  | (_, t) => some t

end Model

/-! ## The interval -/

/-- At least four intervals and fewer than seven, between `-g` and `g`. -/
def Readable (g major : ℝ) : Prop :=
  0 < major ∧ (4 : ℕ) ≤ (g - -g) / major ∧ (g - -g) / major < (7 : ℕ)

theorem readable_iff {g major : ℝ} (hmajor : 0 < major) :
    Readable g major ↔ 2 * major ≤ g ∧ 2 * g < 7 * major := by
  rw [Readable, le_div_iff₀ hmajor, div_lt_iff₀ hmajor, sub_neg_eq_add, Nat.cast_ofNat,
    Nat.cast_ofNat]
  constructor
  · rintro ⟨-, hleast, hmost⟩
    constructor <;> linarith
  · rintro ⟨hleast, hmost⟩
    exact ⟨hmajor, by linarith, by linarith⟩

/-- The interval of a range with this leading power of ten. -/
theorem majorInterval_readable (A : Arithmetic ℝ) {g : ℝ} {k : Int} (hleast : (10 : ℝ) ^ k ≤ g) :
    ∃ major, (majorInterval A g k).number = some major ∧ Readable g major := by
  have hpow : (0 : ℝ) < 10 ^ k := zpow_pos (by norm_num) k
  have hg : 0 < g := hpow.trans_le hleast
  have hquotient : 0 ≤ g / 10 ^ k := (div_pos hg hpow).le
  simp only [majorInterval, Nat.cast_ofNat]
  by_cases hthree : halfAway (g / 10 ^ k) = 3
  · rw [if_pos hthree]
    refine ⟨_, rfl, ?_⟩
    rw [halfAway_eq_iff hquotient, le_div_iff₀ hpow, div_lt_iff₀ hpow] at hthree
    push_cast at hthree
    rw [Nat.cast_one, one_mul, Nat.cast_ofNat, readable_iff hpow]
    constructor <;> linarith
  · rw [if_neg hthree]
    by_cases hone : halfAway (g / 10 ^ k) = 1
    · rw [if_pos hone]
      refine ⟨_, rfl, ?_⟩
      have hhalf : ((5 : ℕ) : ℝ) * (10 : ℕ) ^ (k - 1) = 10 ^ k / 2 := by
        push_cast
        rw [zpow_sub_one₀ (by norm_num)]
        ring
      rw [halfAway_eq_iff hquotient, le_div_iff₀ hpow, div_lt_iff₀ hpow] at hone
      push_cast at hone
      rw [hhalf, readable_iff (by linarith)]
      constructor <;> linarith
    · rw [if_neg hone]
      refine ⟨_, rfl, ?_⟩
      rw [readable_iff (by linarith)]
      constructor <;> linarith

/-! ## The meter -/

/-- The meter of a widget, however its changes have ended. -/
structure Ready (m : Meter ℝ) : Prop where
  canvas : m.hasCanvas = true
  linear : truth m.log.text = some false
  low : ∃ f, m.optFrom.number = some f
  high : ∃ t, m.optTo.number = some t ∧ 0 < t
  interval : ∃ major, m.majorticks.number = some major ∧ 0 < major
  minor : ∃ minorticks, m.minorticks.number = some minorticks

/-- A number, or a text that is beyond an end. -/
def Placeable (low high v : TclValue ℝ) : Prop :=
  high.less v = true ∨ v.less low = true ∨ v.number ≠ none

/-- The scale goes from `-g` to `g` and can be read. -/
def Scaled (m : Meter ℝ) (g : ℝ) : Prop :=
  m.optFrom.number = some (-g) ∧ m.optTo.number = some g ∧
    ∃ major, m.majorticks.number = some major ∧ Readable g major

section Scale

variable {A : Arithmetic ℝ} {F : Scientific ℝ} {m u : Meter ℝ} {v interval : TclValue ℝ}
  {f t g major : ℝ} {n : Nat}

theorem Placeable.of_beside (h : Meter.Beside m v) : Placeable m.optFrom m.optTo v := by
  refine h.imp_right (Or.imp_right ?_)
  rintro ⟨x, -, hv, -⟩
  simp [hv]

theorem beside_iff_placeable (hfrom : m.optFrom.number = some f) (hrange : m.valueRange ≠ 0) :
    Meter.Beside m v ↔ Placeable m.optFrom m.optTo v := by
  refine ⟨.of_beside, Or.imp_right (Or.imp_right fun hv => ?_)⟩
  obtain ⟨x, hv⟩ := Option.ne_none_iff_exists'.mp hv
  exact ⟨x, f, hv, hfrom, .inl hrange⟩

theorem Ready.of_settings (h : Ready m) (hsettings : Meter.settings u = Meter.settings m) :
    Ready u := by
  have hcanvas := congrArg Meter.hasCanvas hsettings
  have hlog := Meter.log_of_settings hsettings
  obtain ⟨hfrom, hto⟩ := Meter.ends_of_settings hsettings
  obtain ⟨hmajor, hminor⟩ := Meter.ticks_of_settings hsettings
  exact ⟨hcanvas.trans h.canvas, hlog ▸ h.linear, hfrom ▸ h.low, hto ▸ h.high, hmajor ▸ h.interval,
    hminor ▸ h.minor⟩

theorem quiet_ready : ∀ {m u : Meter ℝ}, Meter.quiet.rel m u → (Effect.keeps Ready).rel m u :=
  fun hquiet h => h.of_settings hquiet.1

/-- A redraw moves the needle if its value can be placed. -/
theorem redraw_cases (A : Arithmetic ℝ) (h : Ready m) (hfrom : m.optFrom.number = some f)
    (hto : m.optTo.number = some t) (hmajor : m.majorticks.number = some major) (hpos : 0 < major)
    (hrange : m.valueRange ≠ 0) (hn : Meter.tickCount f t major < n) :
    Placeable m.optFrom m.optTo m.lastValue ∧
      (∃ u, Meter.redraw A n m = (.ok (), u) ∧ Meter.quiet.rel m u ∧
        u.lastValue = m.lastValue) ∨
    ¬ Placeable m.optFrom m.optTo m.lastValue ∧
      ∃ e u, Meter.redraw A n m = (.error (.raised e), u) := by
  obtain ⟨minorticks, hminor⟩ := h.minor
  have hscale : Meter.Linear m f t := ⟨h.linear, hfrom, hto, fun _ => hrange⟩
  rw [← beside_iff_placeable hfrom hrange]
  by_cases hplace : Meter.Beside m m.lastValue
  · obtain ⟨y, hredraw⟩ := Meter.redraw_placed hscale A hmajor hminor hpos hn hplace
    exact .inl ⟨hplace, _, hredraw, (Meter.quiet_redraw A n).of_eq hredraw, rfl⟩
  · exact .inr ⟨hplace, Meter.redraw_unplaced hscale A hmajor hminor hpos hn hplace⟩

/-- The ticks are redrawn for an option of theirs. -/
theorem configureTicks_returns (A : Arithmetic ℝ) (set : Meter ℝ → Meter ℝ) (h : Ready (set m))
    (hfrom : (set m).optFrom.number = some f) (hto : (set m).optTo.number = some t)
    (hmajor : (set m).majorticks.number = some major) (hpos : 0 < major)
    (hrange : (set m).valueRange ≠ 0) (hn : Meter.tickCount f t major < n) :
    ∃ u, Meter.configureTicks A n set m = (.ok (), u) ∧ Meter.quiet.rel (set m) u := by
  obtain ⟨minorticks, hminor⟩ := h.minor
  have hscale : Meter.Linear (set m).erased f t := ⟨h.linear, hfrom, hto, fun _ => hrange⟩
  have hdraw := (Meter.drawTicks_linear A hscale.log n).trans
    (Meter.drawLinearTicks_returns hscale A hmajor hminor (.inr hpos.ne') hpos hn)
  rw [Meter.configureTicks_apply A n h.canvas]
  have hquiet : Meter.quiet.rel (set m).erased _ := (Meter.quiet_drawTicks A n).of_eq hdraw
  exact ⟨_, hdraw, hquiet⟩

/-- The last two options, once the ends are right. -/
theorem configure_ticks (A : Arithmetic ℝ) (h : Ready m)
    (hfrom : m.optFrom.number = some (-g)) (hto : m.optTo.number = some g)
    (hrange : m.valueRange ≠ 0) (hinterval : interval.number = some major)
    (hreadable : Readable g major) (hn : Meter.tickCount (-g) g major < n) :
    ∃ u, Meter.configure A n [.majorticks interval, .minorticks ⟨"4", some (4 : ℕ)⟩] m =
      (.ok (), u) ∧ Scaled u g := by
  have hpos := hreadable.1
  have hready : Ready { m with majorticks := interval } :=
    ⟨h.canvas, h.linear, h.low, h.high, ⟨major, hinterval, hpos⟩, h.minor⟩
  obtain ⟨u, hmajor, hquiet⟩ := configureTicks_returns A
    (fun m => { m with majorticks := interval }) hready hfrom hto hinterval hpos hrange hn
  have hu : Ready u := quiet_ready hquiet hready
  obtain ⟨hends, hends'⟩ := Meter.ends_of_settings hquiet.1
  have hsame : u.majorticks = interval := (Meter.ticks_of_settings hquiet.1).1
  have hready' : Ready { u with minorticks := ⟨"4", some ((4 : ℕ) : ℝ)⟩ } :=
    ⟨hu.canvas, hu.linear, hu.low, hu.high, hu.interval, ⟨_, rfl⟩⟩
  have hrange' : u.valueRange ≠ 0 := by
    rw [hquiet.2 h.linear]
    exact hrange
  obtain ⟨z, hminor, hquiet'⟩ := configureTicks_returns A
    (fun m => { m with minorticks := ⟨"4", some ((4 : ℕ) : ℝ)⟩ }) hready'
    ((congrArg TclValue.number hends).trans hfrom) ((congrArg TclValue.number hends').trans hto)
    ((congrArg TclValue.number hsame).trans hinterval) hpos hrange' hn
  obtain ⟨hlow, hhigh⟩ := Meter.ends_of_settings hquiet'.1
  have hlast : z.majorticks = u.majorticks := (Meter.ticks_of_settings hquiet'.1).1
  refine ⟨z, (bind_ok hmajor).trans (bind_ok hminor), ?_, ?_, major, ?_, hreadable⟩
  · rw [hlow, ← hfrom, ← hends]
  · rw [hhigh, ← hto, ← hends']
  · rw [hlast, hsame, hinterval]

/-- **The scale is set** exactly if the last value can be placed, first between
the new low end and the old high one and then on the new scale; otherwise an
error is raised. -/
theorem configure_scale (A : Arithmetic ℝ) (F : Scientific ℝ) (h : Ready m) (hg : 0 < g)
    (hinterval : interval.number = some major) (hreadable : Readable g major) :
    ∃ rounds, ∀ k, rounds ≤ k →
      (Placeable (A.value (-g)) m.optTo m.lastValue ∧
          Placeable (A.value (-g)) ⟨F.text g, some g⟩ m.lastValue) ∧
        (∃ u, Meter.configure A k (scaleOptions A F g interval) m = (.ok (), u) ∧ Scaled u g) ∨
      ¬ (Placeable (A.value (-g)) m.optTo m.lastValue ∧
          Placeable (A.value (-g)) ⟨F.text g, some g⟩ m.lastValue) ∧
        ∃ e u, Meter.configure A k (scaleOptions A F g interval) m = (.error (.raised e), u) := by
  obtain ⟨t, hto, ht⟩ := h.high
  obtain ⟨old, hold, holdpos⟩ := h.interval
  refine ⟨Meter.tickCount (-g) t old + Meter.tickCount (-g) g old +
    Meter.tickCount (-g) g major + 1, fun k hk => ?_⟩
  have hlow := Meter.configureFrom_numbers A k h.canvas hto (v := A.value (-g)) rfl
  rcases redraw_cases (n := k)
    (m := { m.erased with optFrom := A.value (-g), valueRange := t - -g }) A
    ⟨h.canvas, h.linear, ⟨_, rfl⟩, h.high, h.interval, h.minor⟩ rfl hto hold holdpos
    (show t - -g ≠ 0 by linarith) (by omega) with
    ⟨hplace, u, hredraw, hquiet, hlast⟩ | ⟨hplace, e, u, hraises⟩
  · -- the high end is set on the meter with the new low end
    have hu : Ready u :=
      quiet_ready hquiet ⟨h.canvas, h.linear, ⟨_, rfl⟩, h.high, h.interval, h.minor⟩
    have hfrom : u.optFrom = A.value (-g) := (Meter.ends_of_settings hquiet.1).1
    have hmajor : u.majorticks = m.majorticks := (Meter.ticks_of_settings hquiet.1).1
    have hready : Ready { u.erased with optTo := ⟨F.text g, some g⟩, valueRange := g - -g } :=
      ⟨hu.canvas, hu.linear, hu.low, ⟨g, rfl, hg⟩, hu.interval, hu.minor⟩
    have hhigh := Meter.configureTo_numbers A k hu.canvas (v := ⟨F.text g, some g⟩)
      (congrArg TclValue.number hfrom) rfl
    have hlast' : u.lastValue = m.lastValue := hlast
    rcases redraw_cases (n := k)
      (m := { u.erased with optTo := ⟨F.text g, some g⟩, valueRange := g - -g }) A hready
      (congrArg TclValue.number hfrom) rfl ((congrArg TclValue.number hmajor).trans hold) holdpos
      (show g - -g ≠ 0 by linarith) (by omega) with
      ⟨hplace', z, hredraw', hquiet', -⟩ | ⟨hplace', e, z, hraises⟩
    · have hends := Meter.ends_of_settings hquiet'.1
      have hrange : z.valueRange ≠ 0 := by
        rw [hquiet'.2 hu.linear]
        show g - -g ≠ 0
        linarith
      obtain ⟨r, hticks, hscaled⟩ := configure_ticks (n := k) A (quiet_ready hquiet' hready)
        ((congrArg TclValue.number hends.1).trans (congrArg TclValue.number hfrom))
        (congrArg TclValue.number hends.2) hrange hinterval hreadable (by omega)
      refine .inl ⟨⟨hplace, ?_⟩, r, ?_, hscaled⟩
      · rw [← hlast', ← hfrom]
        exact hplace'
      · refine (bind_ok (hlow.trans hredraw)).trans ((bind_ok (hhigh.trans hredraw')).trans ?_)
        exact hticks
    · refine .inr ⟨fun hboth => hplace' ?_, e, z, ?_⟩
      · show Placeable u.optFrom _ u.lastValue
        rw [hlast', hfrom]
        exact hboth.2
      · exact (bind_ok (hlow.trans hredraw)).trans (bind_error (hhigh.trans hraises))
  · refine .inr ⟨fun hboth => hplace hboth.1, e, u, bind_error ?_⟩
    exact hlow.trans hraises

end Scale

/-! ## Runs -/

section Runs

variable {A : Arithmetic ℝ} {F : Scientific ℝ} {s t : BcmMeter ℝ} {m : Meter ℝ}

/-- The options of a scale keep the meter ready, also when one of them raises. -/
theorem within_configure (A : Arithmetic ℝ) (F : Scientific ℝ) (n : Nat) {g major : ℝ}
    {interval : TclValue ℝ} (hg : 0 < g) (hinterval : interval.number = some major)
    (hpos : 0 < major) :
    Within (Effect.keeps Ready) (Meter.configure A n (scaleOptions A F g interval)) := by
  refine Within.forEach fun option hoption m h => ?_
  obtain ⟨f, hfrom⟩ := h.low
  obtain ⟨t, hto, -⟩ := h.high
  simp only [scaleOptions, List.mem_cons, List.not_mem_nil, or_false] at hoption
  rcases hoption with rfl | rfl | rfl | rfl
  · rw [Meter.onconfigure, Meter.configureFrom_numbers A n h.canvas hto rfl]
    exact quiet_ready (Meter.quiet_redraw A n _)
      ⟨h.canvas, h.linear, ⟨_, rfl⟩, h.high, h.interval, h.minor⟩
  · rw [Meter.onconfigure, Meter.configureTo_numbers A n h.canvas hfrom rfl]
    exact quiet_ready (Meter.quiet_redraw A n _)
      ⟨h.canvas, h.linear, h.low, ⟨g, rfl, hg⟩, h.interval, h.minor⟩
  · rw [Meter.onconfigure, Meter.configureMajorticks, Meter.configureTicks_apply A n h.canvas]
    exact quiet_ready (Meter.quiet_drawTicks A n _)
      ⟨h.canvas, h.linear, h.low, h.high, ⟨major, hinterval, hpos⟩, h.minor⟩
  · rw [Meter.onconfigure, Meter.configureMinorticks, Meter.configureTicks_apply A n h.canvas]
    exact quiet_ready (Meter.quiet_drawTicks A n _)
      ⟨h.canvas, h.linear, h.low, h.high, h.interval, ⟨_, rfl⟩⟩

/-- An `expr` that returns. -/
theorem onMeter_returns {K α : Type} {m : Meter.Method K α} {s : BcmMeter K} {a : α}
    (h : m s.meter = (.ok a, s.meter)) : onMeter m s = (.ok a, s) := by
  rw [onMeter, zoom_apply, h]

theorem onMeter_raises {K α : Type} {m : Meter.Method K α} {s : BcmMeter K}
    {e : Stop MeterError} (h : m s.meter = (.error e, s.meter)) : onMeter m s = (.error e, s) := by
  rw [onMeter, zoom_apply, h]

/-- The commands of `setMeterRange` for a positive range. -/
theorem setMeterRange_apply (text engineering : ℝ → String) (F : Scientific ℝ)
    {range : TclValue ℝ} {r : ℝ} (hvariable : s.meter.globals s.rangeName = some range)
    (hrange : range.number = some r) (hg : 0 < F.rounding.significant 2 r) :
    ∃ interval major, interval.number = some major ∧
      Readable (F.rounding.significant 2 r) major ∧
      ∀ n, setMeterRange (Meter.realArithmetic text engineering) F n s =
        onMeter (Meter.configure (Meter.realArithmetic text engineering) n
          (scaleOptions (Meter.realArithmetic text engineering) F (F.rounding.significant 2 r)
            interval)) s := by
  have hleast := (Meter.zpow_le_iff_floor hg _).mpr le_rfl
  obtain ⟨major, hnumber, hreadable⟩ :=
    majorInterval_readable (Meter.realArithmetic text engineering) hleast
  refine ⟨_, major, hnumber, hreadable, fun n => ?_⟩
  refine (bind_ok (reads_apply _ _)).trans ((bind_ok (reads_apply _ _)).trans ?_)
  simp only [hvariable]
  refine (bind_ok (onMeter_returns (Meter.operand_number hrange _))).trans ?_
  exact bind_ok (onMeter_returns (Meter.logarithm_number _ rfl hg _))

theorem ready_setMeterRange (text engineering : ℝ → String) (F : Scientific ℝ) (n : Nat)
    (h : Ready s.meter) :
    Ready (setMeterRange (Meter.realArithmetic text engineering) F n s).2.meter := by
  cases hvariable : s.meter.globals s.rangeName with
  | none =>
    have hraises : setMeterRange (Meter.realArithmetic text engineering) F n s =
        (.error (.raised (.noSuchVariable s.rangeName)), s) := by
      refine (bind_ok (reads_apply _ _)).trans ((bind_ok (reads_apply _ _)).trans ?_)
      simp only [hvariable]
      exact onMeter_raises rfl
    rw [hraises]
    exact h
  | some range =>
    cases hrange : range.number with
    | none =>
      have hraises : setMeterRange (Meter.realArithmetic text engineering) F n s =
          (.error (.raised (.notNumeric range.text)), s) := by
        refine (bind_ok (reads_apply _ _)).trans ((bind_ok (reads_apply _ _)).trans ?_)
        simp only [hvariable]
        exact bind_error (onMeter_raises (Meter.operand_none hrange _))
      rw [hraises]
      exact h
    | some r =>
      by_cases hg : 0 < F.rounding.significant 2 r
      · obtain ⟨interval, major, hinterval, hreadable, hconfigure⟩ :=
          setMeterRange_apply text engineering F hvariable hrange hg
        rw [hconfigure]
        exact within_configure _ F n hg hinterval hreadable.1 s.meter h
      · obtain ⟨e, hlog⟩ := Meter.logarithm_raises (Meter.realArithmetic text engineering)
          (v := ⟨F.text (F.rounding.significant 2 r), some (F.rounding.significant 2 r)⟩)
          (fun x hx => by cases hx; exact hg) s.meter
        have hraises : setMeterRange (Meter.realArithmetic text engineering) F n s =
            (.error (.raised e), s) := by
          refine (bind_ok (reads_apply _ _)).trans ((bind_ok (reads_apply _ _)).trans ?_)
          simp only [hvariable]
          refine (bind_ok (onMeter_returns (Meter.operand_number hrange _))).trans ?_
          exact bind_error (onMeter_raises hlog)
        rw [hraises]
        exact h

/-- The widget once the variable of the range has been written. -/
def written (s : BcmMeter ℝ) (range : TclValue ℝ) : BcmMeter ℝ :=
  { s with meter := { s.meter with
      globals := fun other => if other = s.rangeName then some range else s.meter.globals other } }

theorem change_range (A : Arithmetic ℝ) (F : Scientific ℝ) (n : Nat) (range : TclValue ℝ)
    (s : BcmMeter ℝ) : change A F n (.range range) s = setMeterRange A F n (written s range) :=
  rfl

theorem Ready.written (h : Ready s.meter) (range : TclValue ℝ) :
    Ready (written s range).meter :=
  ⟨h.canvas, h.linear, h.low, h.high, h.interval, h.minor⟩

/-- **One change** keeps the meter ready, however it ends. -/
theorem ready_of_step {text engineering : ℝ → String} {a : Nat × Change ℝ} (h : Ready s.meter)
    (hstep : step (Meter.realArithmetic text engineering) F s a = some t) : Ready t.meter := by
  have hafter : (change (Meter.realArithmetic text engineering) F a.1 a.2 s).2 = t := by
    unfold step at hstep
    split at hstep
    · cases hstep
    · next heq =>
      rw [heq]
      exact Option.some.inj hstep
  rw [← hafter]
  obtain ⟨n, change⟩ := a
  cases change with
  | value value => exact quiet_ready (Meter.quiet_setValue _ value s.meter) h
  | range range =>
    rw [change_range]
    exact ready_setMeterRange text engineering F n (h.written range)

/-- A constructed meter is ready. -/
theorem ready_of_build {A : Arithmetic ℝ} {n : Nat} {geometry : Geometry ℝ} {name : String}
    {globals : String → Option (TclValue ℝ)}
    (h : Meter.build A n geometry [.variable name] (Meter.fresh globals) = (.ok (), m)) :
    Ready m := by
  obtain ⟨s, f, t, u, hoptions, -, -, hquiet, rfl⟩ := Meter.quiet_of_build h
  have hoptions' : Meter.configure A n [.variable name] (Meter.fresh globals) =
      (.ok (), { Meter.fresh globals with variableName := name }) := by
    simp [Meter.configure, Script.forEach, Meter.onconfigure, Meter.configureVariable, bind_apply,
      Meter.fresh]
  rw [hoptions'] at hoptions
  cases hoptions
  have hlinear : truth "false" = some false := by decide
  have hready : Ready (Meter.withCanvas geometry (t - f)
      { Meter.fresh globals with variableName := name }) :=
    ⟨rfl, hlinear, ⟨_, rfl⟩, ⟨1, rfl, one_pos⟩, ⟨1, rfl, one_pos⟩, ⟨_, rfl⟩⟩
  have hu := quiet_ready hquiet hready
  exact ⟨hu.canvas, hu.linear, hu.low, hu.high, hu.interval, hu.minor⟩

/-- The range gives the meter a readable scale, if the loops over the ticks may
run for long enough. -/
def SetsScale (A : Arithmetic ℝ) (F : Scientific ℝ) (s : BcmMeter ℝ) (range : TclValue ℝ)
    (g : ℝ) : Prop :=
  ∃ rounds, ∀ n, rounds ≤ n →
    ∃ t, change A F n (.range range) s = (.ok (), t) ∧ Scaled t.meter g

/-- The last value can be placed when the low end has been set, and on the new scale. -/
def Accepts (A : Arithmetic ℝ) (F : Scientific ℝ) (s : BcmMeter ℝ) (g : ℝ) : Prop :=
  Placeable (A.value (-g)) s.meter.optTo s.meter.lastValue ∧
    Placeable (A.value (-g)) ⟨F.text g, some g⟩ s.meter.lastValue

theorem setsScale_iff (text engineering : ℝ → String) (F : Scientific ℝ) (h : Ready s.meter)
    {range : TclValue ℝ} {r : ℝ} (hrange : range.number = some r) (hr : 0 < r) :
    SetsScale (Meter.realArithmetic text engineering) F s range (F.rounding.significant 2 r) ↔
      Accepts (Meter.realArithmetic text engineering) F s (F.rounding.significant 2 r) := by
  have hg : 0 < F.rounding.significant 2 r :=
    (zpow_pos (by norm_num) _).trans_le (F.rounding.pow_log_le_significant 2 hr)
  have hvariable : (written s range).meter.globals (written s range).rangeName = some range :=
    if_pos rfl
  obtain ⟨interval, major, hinterval, hreadable, happly⟩ :=
    setMeterRange_apply text engineering F hvariable hrange hg
  obtain ⟨rounds, hcases⟩ := configure_scale (Meter.realArithmetic text engineering) F
    (h.written range) hg hinterval hreadable
  constructor
  · rintro ⟨least, hsets⟩
    obtain ⟨t, hchange, -⟩ := hsets (least + rounds) (by omega)
    rcases hcases (least + rounds) (by omega) with ⟨haccepts, -⟩ | ⟨-, e, u, hraises⟩
    · exact haccepts
    · rw [change_range, happly, onMeter, zoom_apply, hraises] at hchange
      cases hchange
  · intro haccepts
    refine ⟨rounds, fun n hn => ?_⟩
    rcases hcases n hn with ⟨-, u, hconfigure, hscaled⟩ | ⟨hnot, -⟩
    · refine ⟨{ written s range with meter := u }, ?_, hscaled⟩
      rw [change_range, happly, onMeter, zoom_apply, hconfigure]
    · exact absurd haccepts hnot

/-- **A positive range gives a readable scale** over a run of the widget exactly if the
last value of the meter can be placed. -/
theorem readable_scale (text engineering : ℝ → String) (F : Scientific ℝ) {n : Nat}
    {geometry : Geometry ℝ} {channel : String} {globals : String → Option (TclValue ℝ)}
    {as : List (Nat × Change ℝ)}
    (hbuild : Meter.build (Meter.realArithmetic text engineering) n geometry
      [.variable (valueName channel)] (Meter.fresh globals) = (.ok (), m))
    (hrun : Run (step (Meter.realArithmetic text engineering) F) Always ⟨channel, m⟩ as s)
    {range : TclValue ℝ} {r : ℝ} (hrange : range.number = some r) (hr : 0 < r) :
    SetsScale (Meter.realArithmetic text engineering) F s range (F.rounding.significant 2 r) ↔
      Accepts (Meter.realArithmetic text engineering) F s (F.rounding.significant 2 r) := by
  have hready : Ready s.meter :=
    hrun.invariant (fun s => Ready s.meter) (ready_of_build hbuild)
      fun _ _ _ h _ hstep => ready_of_step h hstep
  exact setsScale_iff text engineering F hready hrange hr

end Runs

/-! ## Two widgets -/

/-- All variables are zero. -/
def zeros : String → Option (TclValue ℝ) := fun _ => some ⟨"0", some 0⟩

/-- The meter of a widget, before its canvas is made. -/
noncomputable def following : Meter ℝ :=
  { Meter.fresh zeros with variableName := valueName "bcm" }

/-- A widget that has been constructed. -/
theorem build_zero :
    ∃ n m, Meter.build Meter.bare n ⟨1, 1, 0, 0⟩ [.variable (valueName "bcm")]
        (Meter.fresh zeros) = (.ok (), m) ∧
      m.lastValue = ⟨"0", some 0⟩ ∧ m.variableName = valueName "bcm" := by
  have hlinear (y : Extended ℝ) (id : Nat) : Meter.Linear
      { Meter.withCanvas ⟨1, 1, 0, 0⟩ (1 - -1) following with needle := y, nextId := id }
      (-1) 1 := by
    refine ⟨show truth "false" = some false by decide, rfl, rfl, fun _ => ?_⟩
    show (1 - -1 : ℝ) ≠ 0
    norm_num
  have hheight := (hlinear (.finite 0) 2).height Meter.bare
    (v := Meter.bare.value ((1 + -1) / 2)) rfl
  have hdraw (y : Extended ℝ) := (Meter.drawTicks_linear Meter.bare (hlinear y 3).log _).trans
    (Meter.drawLinearTicks_returns (hlinear y 3) Meter.bare rfl rfl (.inr one_ne_zero) one_pos
      (Nat.lt_succ_self _))
  have hneedle (y : Extended ℝ) (marks : List (Mark ℝ)) (h : ℝ → ℝ) :=
    Meter.needleTo_returns ((((hlinear y 3).drawn h marks).remember ⟨"0", some 0⟩).height
      Meter.bare rfl)
  have hconfigure : Meter.configure Meter.bare (Meter.tickCount (-1 : ℝ) 1 1 + 1)
      [.variable (valueName "bcm")] (Meter.fresh zeros) = (.ok (), following) := rfl
  exact ⟨_, _, Meter.build_returns hconfigure rfl rfl hheight (hdraw _) (hneedle _ _ _), rfl, rfl⟩

/-- A range that is rounded to `3.00e-06`. -/
theorem readable_scale_three :
    ∃ m, SetsScale Meter.bare ⟨.away, fun _ => ""⟩ ⟨"bcm", m⟩
      ⟨"2.996e-6", some (2996 / 1000000000)⟩ (Rounding.away.significant 2 (2996 / 1000000000)) := by
  obtain ⟨n, m, hbuild, hlast, -⟩ := build_zero
  have hplace (low high : TclValue ℝ) : Placeable low high m.lastValue := by
    rw [hlast]
    exact .inr (.inr (Option.some_ne_none _))
  exact ⟨m, (readable_scale (fun _ => "") (fun _ => "") ⟨.away, fun _ => ""⟩ hbuild .nil rfl
    (by norm_num)).mpr ⟨hplace _ _, hplace _ _⟩⟩

def nan : TclValue ℝ := ⟨"nan", none⟩

theorem nan_not_placeable (low high : TclValue ℝ) : ¬ Placeable low high nan := by
  have hnan : nan.isNaN = true := by decide
  rintro (hhigh | hlow | hnumber)
  · simp [TclValue.less, hnan] at hhigh
  · simp [TclValue.less, hnan] at hlow
  · exact hnumber rfl

/-- NaN is remembered, and has no height. -/
theorem setValue_nan {A : Arithmetic ℝ} {m : Meter ℝ} (h : Ready m) :
    ∃ e u, Meter.setValue A nan m = (.error (.raised e), u) ∧ u.lastValue = nan := by
  obtain ⟨w, hmoves, hquiet⟩ := Meter.setValue_moves A nan m
  have hlog : truth w.log.text = some false := (Meter.log_of_settings hquiet.1) ▸ h.linear
  rcases Meter.computeLinearHeight_cases { w with lastValue := nan } nan with
    ⟨hbeside, -⟩ | ⟨-, e, hraises⟩
  · exact absurd (Placeable.of_beside hbeside) (nan_not_placeable _ _)
  · refine ⟨e, { w with lastValue := nan }, hmoves.trans ?_, rfl⟩
    refine (bind_ok (modify_apply _ _)).trans (bind_error ?_)
    exact (Meter.computeHeight_linear (s := { w with lastValue := nan }) A hlog nan).trans hraises

/-- A channel that has been NaN keeps its old scale. -/
theorem scale_kept_by_nan :
    ¬ ∀ (n : Nat) (geometry : Geometry ℝ) (channel : String) (m : Meter ℝ)
      (as : List (Nat × Change ℝ)) (s : BcmMeter ℝ) (range : TclValue ℝ) (r : ℝ),
      Meter.build Meter.bare n geometry [.variable (valueName channel)] (Meter.fresh zeros) =
          (.ok (), m) →
        Run (step Meter.bare ⟨.away, fun _ => ""⟩) Always ⟨channel, m⟩ as s →
          range.number = some r → 0 < r →
            SetsScale Meter.bare ⟨.away, fun _ => ""⟩ s range (Rounding.away.significant 2 r) := by
  intro hall
  obtain ⟨n, m, hbuild, -, -⟩ := build_zero
  have hready := ready_of_build hbuild
  obtain ⟨e, u, hraises, hlast⟩ := setValue_nan (A := Meter.bare) hready
  have hstep : step Meter.bare ⟨.away, fun _ => ""⟩ ⟨"bcm", m⟩ (0, .value nan) =
      some ⟨"bcm", u⟩ := by
    simp only [step, change, onMeter, zoom_apply, hraises]
  have hsets := hall _ _ _ _ _ _ ⟨"1", some 1⟩ 1 hbuild (.snoc .nil trivial hstep) rfl one_pos
  have haccepts := (setsScale_iff (fun _ => "") (fun _ => "") _ (ready_of_step hready hstep) rfl
    one_pos).mp hsets
  have hplace := haccepts.1
  rw [show (BcmMeter.meter ⟨"bcm", u⟩).lastValue = nan from hlast] at hplace
  exact nan_not_placeable _ _ hplace

end BcmMeter

end EpicsTcl.Widget
