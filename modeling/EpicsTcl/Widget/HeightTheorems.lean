/-
EpicsTcl.Widget.HeightTheorems — the height of the needle.

In both modes the needle is on a scale (`Library.Scale`): linear between
`-from` and `-to`, logarithmic between the first and the last decade. The
linear computation divides by the variable `valueRange`, whatever it is
(`linearHeight`); the logarithmic one sets it.

§1 are values limited to the decades, §2 is the linear computation, §3 the
logarithmic one, §4 the needle (`needle_monotone`).
-/
import EpicsTcl.Library.Scale
import EpicsTcl.Widget.DecadeTheorems

namespace EpicsTcl.Widget.Meter

open EpicsTcl.Library EpicsTcl.Library.Script

/-! ## §1 Limits -/

section Limit

variable {K : Type} [LinearOrder K] {v : TclValue K} {x : K}

/-- A value limited to the decades. -/
def limit (low high v : TclValue K) : TclValue K :=
  let v := if v.less low then low else v
  if high.less v then high else v

theorem limit_cases (low high v : TclValue K) :
    limit low high v = low ∨ limit low high v = high ∨ limit low high v = v := by
  unfold limit
  by_cases hlow : v.less low = true
  · by_cases hhigh : high.less low = true
    · simp [hlow, hhigh]
    · simp [hlow, hhigh]
  · by_cases hhigh : high.less v = true
    · simp [hlow, hhigh]
    · simp [hlow, hhigh]

theorem number_limit {low high : TclValue K} {a b : K} (hlow : low.number = some a)
    (hhigh : high.number = some b) (hv : v.number = some x) (hab : a ≤ b) :
    (limit low high v).number = some (Scale.clip a b x) := by
  unfold limit
  by_cases hx : x < a
  · have hless : v.less low = true := by simp [TclValue.less_numbers hv hlow, hx]
    have hnot : high.less low = false := by simp [TclValue.less_numbers hhigh hlow, hab]
    simp [hless, hnot, hlow, Scale.clip_of_lt hab hx]
  · have hless : v.less low = false := by simp [TclValue.less_numbers hv hlow, not_lt.mp hx]
    by_cases hx' : b < x
    · have hless' : high.less v = true := by simp [TclValue.less_numbers hhigh hv, hx']
      simp [hless, hless', hhigh, Scale.clip_of_gt hab hx']
    · have hless' : high.less v = false := by
        simp [TclValue.less_numbers hhigh hv, not_lt.mp hx']
      simp [hless, hless', hv, Scale.clip_of_mem ⟨not_lt.mp hx, not_lt.mp hx'⟩]

/-- Between equal limits there is one number. -/
theorem number_limit_same {low : TclValue K} {a c : K} (hlow : low.number = some a)
    (h : (limit low low v).number = some c) : c = a := by
  cases hv : v.number with
  | some x =>
    rw [number_limit hlow hlow hv le_rfl] at h
    have hmem := Scale.clip_mem (le_refl a) x
    rw [Option.some.inj h] at hmem
    exact le_antisymm hmem.2 hmem.1
  | none =>
    rcases limit_cases low low v with heq | heq | heq
    · rw [heq, hlow] at h
      exact (Option.some.inj h).symm
    · rw [heq, hlow] at h
      exact (Option.some.inj h).symm
    · rw [heq, hv] at h
      cases h

end Limit

/-! ## §2 The linear scale -/

section Heights

variable {K : Type} [Field K] [LinearOrder K] {s : Meter K} {v : TclValue K} {f t x c : K}

/-- The height of a number, between `f` and `t`. -/
def linearHeight (s : Meter K) (f t x : K) : K :=
  if t < x then s.topY
  else if x < f then s.bottomY
  else s.bottomY - (x - f) * (s.bottomY - s.topY) / s.valueRange

theorem divide_eq (x y : K) (s : Meter K) :
    divide x y s = match Extended.quotient x y with
      | some q => (.ok q, s)
      | none => (.error (.raised .domainError), s) := by
  unfold divide
  cases Extended.quotient x y <;> rfl

theorem divide_apply {y : K} (hy : y ≠ 0) (x : K) (s : Meter K) :
    divide x y s = (.ok (.finite (x / y)), s) := by
  rw [divide_eq, Extended.quotient_of_ne hy]

theorem divide_zero_zero (s : Meter K) :
    divide (0 : K) 0 s = (.error (.raised .domainError), s) := by
  rw [divide_eq, Extended.quotient_zero_zero]

/-- The height of a number is found if there is no division by zero. -/
theorem computeLinearHeight_returns (hfrom : s.optFrom.number = some f)
    (hto : s.optTo.number = some t) (hv : v.number = some x)
    (hrange : f ≤ x → x ≤ t → s.valueRange ≠ 0) :
    computeLinearHeight v s = (.ok (.finite (linearHeight s f t x)), s) := by
  simp only [computeLinearHeight, linearHeight, bind_apply, reads_apply,
    TclValue.less_numbers hto hv, TclValue.less_numbers hv hfrom, decide_eq_true_eq]
  by_cases hhigh : t < x
  · rw [if_pos hhigh, if_pos hhigh]
    rfl
  · by_cases hlow : x < f
    · rw [if_neg hhigh, if_pos hlow, if_neg hhigh, if_pos hlow]
      rfl
    · have hne := hrange (not_lt.mp hlow) (not_lt.mp hhigh)
      simp [bind_apply, hhigh, hlow, operand_number hv, operand_number hfrom,
        divide_apply hne, Extended.minus]

/-- At the low end, a range of zero raises an error. -/
theorem computeLinearHeight_raises (hfrom : s.optFrom.number = some f)
    (hto : s.optTo.number = some t) (hv : v.number = some f) (hft : f ≤ t)
    (hrange : s.valueRange = 0) :
    computeLinearHeight v s = (.error (.raised .domainError), s) := by
  simp [computeLinearHeight, bind_apply, TclValue.less_numbers hto hv,
    TclValue.less_numbers hv hfrom, not_lt.mpr hft, operand_number hv,
    operand_number hfrom, hrange, divide_zero_zero]

/-- With the right range, this is the linear scale. -/
theorem linearHeight_eq (hft : f ≤ t) (hne : f ≠ t) (hrange : s.valueRange = t - f) (x : K) :
    linearHeight s f t x = Scale.height id f t s.topY s.bottomY x := by
  unfold linearHeight
  by_cases hhigh : t < x
  · rw [if_pos hhigh, ← Scale.height_clip hft x, Scale.clip_of_gt hft hhigh,
      Scale.height_high hft (show id f ≠ id t from hne)]
  · by_cases hlow : x < f
    · rw [if_neg hhigh, if_pos hlow, ← Scale.height_clip hft x, Scale.clip_of_lt hft hlow,
        Scale.height_low hft]
    · rw [if_neg hhigh, if_neg hlow, Scale.height,
        Scale.clip_of_mem ⟨not_lt.mp hlow, not_lt.mp hhigh⟩, hrange]
      rfl

/-! ## §3 The logarithmic scale -/

variable [FloorRing K]

/-- The value of `valueRange` on a logarithmic scale. -/
def logRange (A : Arithmetic K) (f t : K) : K :=
  A.log10 ((10 : ℕ) ^ lastDecade A f t) - A.log10 ((10 : ℕ) ^ firstDecade A f)

/-- A meter after a logarithmic computation. -/
def logScaled (A : Arithmetic K) (f t : K) (s : Meter K) : Meter K :=
  { withDecades A f t s with valueRange := logRange A f t }

variable [IsStrictOrderedRing K] {A : Arithmetic K}

theorem ten_zpow_pos (k : Int) : (0 : K) < 10 ^ k := zpow_pos (by norm_num) k

theorem decades_le (A : Arithmetic K) (f t : K) :
    (10 : K) ^ firstDecade A f ≤ 10 ^ lastDecade A f t :=
  zpow_le_zpow_right₀ (by norm_num) (le_max_left _ _)

theorem logarithm_decade (A : Arithmetic K) (k : Int) (s : Meter K) :
    logarithm A (decade k) s = (.ok (A.log10 (10 ^ k)), s) :=
  logarithm_number A rfl (ten_zpow_pos k) s

/-- The height of a value that is a number when it has been limited. -/
theorem computeLogHeight_returns (hfrom : s.optFrom.number = some f)
    (hto : s.optTo.number = some t) (hf : 0 < f) (ht : 0 < t)
    (hlimit : (limit (decade (firstDecade A f)) (decade (lastDecade A f t)) v).number = some c)
    (hc : 0 < c) (hrange : logRange A f t ≠ 0) :
    computeLogHeight A v s =
      (.ok (.finite (s.bottomY - (A.log10 c - A.log10 (10 ^ firstDecade A f)) *
        (s.bottomY - s.topY) / logRange A f t)), logScaled A f t s) := by
  simp only [limit] at hlimit
  rw [computeLogHeight, bind_ok (computeDecades_returns hfrom hto hf ht)]
  simp only [bind_apply, reads_apply, withDecades, logarithm_decade, modify_apply,
    logarithm_number A hlimit hc]
  rw [show A.log10 (10 ^ lastDecade A f t) - A.log10 (10 ^ firstDecade A f) = logRange A f t
    from rfl, divide_apply hrange]
  rfl

/-- A single decade has no range, and all its values are at the same place. -/
theorem computeLogHeight_single (hfrom : s.optFrom.number = some f)
    (hto : s.optTo.number = some t) (hf : 0 < f) (ht : 0 < t)
    (hsame : lastDecade A f t = firstDecade A f)
    (hlimit : (limit (decade (firstDecade A f)) (decade (lastDecade A f t)) v).number = some c) :
    computeLogHeight A v s = (.error (.raised .domainError), logScaled A f t s) := by
  have hc : c = 10 ^ firstDecade A f := by
    rw [hsame] at hlimit
    exact number_limit_same rfl hlimit
  have hpos : 0 < c := hc ▸ ten_zpow_pos _
  simp only [limit] at hlimit
  rw [computeLogHeight, bind_ok (computeDecades_returns hfrom hto hf ht)]
  simp only [bind_apply, reads_apply, withDecades, logarithm_decade, modify_apply,
    logarithm_number A hlimit hpos]
  rw [hc, hsame, sub_self, zero_mul, divide_zero_zero]
  simp [logScaled, withDecades, logRange, hsame]

/-- A text that has not been replaced by a limit raises an error. -/
theorem computeLogHeight_raises (A : Arithmetic K) (hfrom : s.optFrom.number = some f)
    (hto : s.optTo.number = some t) (hf : 0 < f) (ht : 0 < t)
    (hlimit : (limit (decade (firstDecade A f)) (decade (lastDecade A f t)) v).number = none) :
    ∃ e, computeLogHeight A v s = (.error (.raised e), logScaled A f t s) := by
  obtain ⟨e, hraises⟩ := logarithm_raises A
    (v := limit (decade (firstDecade A f)) (decade (lastDecade A f t)) v)
    (fun x hx => by rw [hlimit] at hx; cases hx) (logScaled A f t s)
  refine ⟨e, ?_⟩
  rw [computeLogHeight, bind_ok (computeDecades_returns hfrom hto hf ht)]
  simp only [bind_apply, reads_apply, withDecades, logarithm_decade, modify_apply]
  simp only [limit, logScaled, withDecades, logRange, Nat.cast_ofNat] at hraises
  rw [hraises]
  rfl

end Heights

/-! ## §4 The needle -/

theorem computeHeight_linear {K : Type} [Field K] [LinearOrder K] [FloorRing K]
    [IsStrictOrderedRing K] {s : Meter K} (A : Arithmetic K) (hlog : truth s.log.text = some false)
    (v : TclValue K) : computeHeight A v s = computeLinearHeight v s := by
  simp [computeHeight, condition, bind_apply, hlog]

theorem computeHeight_log {K : Type} [Field K] [LinearOrder K] [FloorRing K]
    [IsStrictOrderedRing K] {s : Meter K} (A : Arithmetic K) (hlog : truth s.log.text = some true)
    (v : TclValue K) : computeHeight A v s = computeLogHeight A v s := by
  simp [computeHeight, condition, bind_apply, hlog]

/-- The ends of what the meter displays. -/
inductive DisplayedRange (A : Arithmetic ℝ) (s : Meter ℝ) : ℝ → ℝ → Prop where
  | linear {f t : ℝ} (hlog : truth s.log.text = some false) (hfrom : s.optFrom.number = some f)
      (hto : s.optTo.number = some t) (hft : f < t) (hrange : s.valueRange = t - f) :
      DisplayedRange A s f t
  | log {l : List (TclValue ℝ)} {s' : Meter ℝ} {low high : ℝ} (hlog : truth s.log.text = some true)
      (hdecades : computeDecades A s = (.ok l, s')) (hlow : s'.decadeLow.number = some low)
      (hhigh : s'.decadeHigh.number = some high) (hless : low < high) :
      DisplayedRange A s low high

/-- Numbers are displayed in order, between the bottom and the top. -/
def Displays (A : Arithmetic ℝ) (s : Meter ℝ) (low high : ℝ) : Prop :=
  ∃ height : ℝ → ℝ,
    (∀ (v : TclValue ℝ) x, v.number = some x → (computeHeight A v s).1 = .ok (.finite (height x))) ∧
    (∀ u v, u ≤ v → s.topY ≤ height v ∧ height v ≤ height u ∧ height u ≤ s.bottomY) ∧
    height low = s.bottomY ∧ height high = s.topY

theorem displays_of_scale {A : Arithmetic ℝ} {s : Meter ℝ} (g : ℝ → ℝ) {low high : ℝ}
    (hless : low < high) (hg : MonotoneOn g (Set.Icc low high)) (hne : g low ≠ g high)
    (hframe : s.topY ≤ s.bottomY)
    (hheight : ∀ (v : TclValue ℝ) x, v.number = some x →
      (computeHeight A v s).1 = .ok (.finite (Scale.height g low high s.topY s.bottomY x))) :
    Displays A s low high := by
  refine ⟨_, hheight, fun u v huv => ?_, Scale.height_low hless.le,
    Scale.height_high hless.le hne⟩
  have hmem := fun x => Scale.height_mem hless.le hg hne hframe x
  exact ⟨(hmem v).1, Scale.height_antitone hless.le hg hframe huv, (hmem u).2⟩

theorem logRange_real (text engineering : ℝ → String) (f t : ℝ) :
    logRange (realArithmetic text engineering) f t =
      lastDecade (realArithmetic text engineering) f t -
        firstDecade (realArithmetic text engineering) f := by
  rw [← logb_zpow_ten, ← logb_zpow_ten]
  rfl

/-- The logarithmic height of a number. -/
theorem computeLogHeight_real {text engineering : ℝ → String} {s : Meter ℝ} {f t x : ℝ}
    {v : TclValue ℝ} (hfrom : s.optFrom.number = some f) (hto : s.optTo.number = some t)
    (hf : 0 < f) (ht : 0 < t) (hv : v.number = some x)
    (hless : firstDecade (realArithmetic text engineering) f <
      lastDecade (realArithmetic text engineering) f t) :
    computeLogHeight (realArithmetic text engineering) v s =
      (.ok (.finite (Scale.height (Real.logb 10)
        (10 ^ firstDecade (realArithmetic text engineering) f)
        (10 ^ lastDecade (realArithmetic text engineering) f t) s.topY s.bottomY x)),
        logScaled (realArithmetic text engineering) f t s) := by
  have hle := decades_le (realArithmetic text engineering) f t
  have hpos := (Scale.clip_mem hle x).1
  refine computeLogHeight_returns hfrom hto hf ht (number_limit rfl rfl hv hle)
    ((ten_zpow_pos _).trans_le hpos) ?_
  rw [logRange_real, sub_ne_zero]
  exact_mod_cast hless.ne'

/-- **The needle is monotone and stays in the frame**, in both modes. -/
theorem needle_monotone (text engineering : ℝ → String) {s : Meter ℝ} {low high : ℝ}
    (hframe : s.topY < s.bottomY)
    (hdisplayed : DisplayedRange (realArithmetic text engineering) s low high) :
    Displays (realArithmetic text engineering) s low high := by
  cases hdisplayed with
  | linear hlog hfrom hto hft hrange =>
    refine displays_of_scale id hft monotoneOn_id hft.ne hframe.le fun v x hv => ?_
    have hne : s.valueRange ≠ 0 := by
      rw [hrange]
      exact (sub_pos.mpr hft).ne'
    rw [computeHeight_linear _ hlog, computeLinearHeight_returns hfrom hto hv fun _ _ => hne,
      linearHeight_eq hft.le hft.ne hrange]
  | log hlog hdecades hlow hhigh hless =>
    rcases computeDecades_cases (realArithmetic text engineering) s with
      ⟨f, t, hfrom, hto, hf, ht, hreturns⟩ | ⟨-, e, hraises⟩
    · rw [hreturns] at hdecades
      cases hdecades
      cases hlow
      cases hhigh
      have hexponents := (zpow_lt_zpow_iff_right₀ (by norm_num : (1 : ℝ) < 10)).mp hless
      refine displays_of_scale (Real.logb 10) hless (fun x hx y _ hxy => ?_) ?_ hframe.le
        fun v x hv => ?_
      · exact Real.logb_le_logb_of_le (by norm_num) ((ten_zpow_pos _).trans_le hx.1) hxy
      · rw [logb_zpow_ten, logb_zpow_ten]
        exact_mod_cast hexponents.ne
      · rw [computeHeight_log _ hlog, computeLogHeight_real hfrom hto hf ht hv hexponents]
    · rw [hraises] at hdecades
      cases hdecades

/-- The default range in linear mode. -/
theorem needle_monotone_default :
    Displays (realArithmetic (fun _ => "") fun _ => "")
      { fresh (fun _ => none) with topY := 7, bottomY := 180, valueRange := 2 } (-1) 1 :=
  needle_monotone (fun _ => "") (fun _ => "") (by norm_num)
    (.linear (by decide) rfl rfl (by norm_num) (by norm_num))

end EpicsTcl.Widget.Meter
