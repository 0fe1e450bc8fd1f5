/-
EpicsTcl.Widget.DecadeTheorems — the decades of a logarithmic meter.

`computeDecades` returns consecutive powers of ten (`computeDecades_returns`).
The last one is right for every range. The first one is the logarithm of the
low end, less one half if it is negative, truncated: for a low end below one
whose logarithm is more than one half above an integer it is a decade too
high (`lowDecade_eq`).

§1 is the list, §2 the exact logarithm, §3 the range that is covered
(`decades_cover`).
-/
import EpicsTcl.Widget.Meter
import Mathlib.Analysis.SpecialFunctions.Log.Base
import Mathlib.Tactic.NormNum
import Mathlib.Tactic.Linarith

namespace EpicsTcl.Widget.Meter

open EpicsTcl.Library EpicsTcl.Library.Script

/-! ## §1 The list of decades -/

section Operands

variable {K : Type} {v : TclValue K} {x : K}

theorem operand_number (h : v.number = some x) (s : Meter K) : operand v s = (.ok x, s) := by
  simp [operand, h]

theorem operand_none (h : v.number = none) (s : Meter K) :
    operand v s = (.error (.raised (.notNumeric v.text)), s) := by
  simp [operand, h, error]

/-- A sequence that returns has read a number. -/
theorem of_operand_ok {α : Type} {next : K → Method K α} {s u : Meter K} {a : α}
    (h : (operand v >>= next) s = (.ok a, u)) : ∃ x, v.number = some x ∧ next x s = (.ok a, u) := by
  cases hv : v.number with
  | none =>
    rw [bind_error (operand_none hv s)] at h
    cases h
  | some x => exact ⟨x, rfl, (bind_ok (operand_number hv s)).symm.trans h⟩

variable [Field K] [LinearOrder K]

theorem logarithm_number (A : Arithmetic K) (h : v.number = some x) (hx : 0 < x) (s : Meter K) :
    logarithm A v s = (.ok (A.log10 x), s) := by
  rw [logarithm, bind_ok (operand_number h s), if_pos hx]
  rfl

theorem logarithm_raises (A : Arithmetic K) (h : ∀ x, v.number = some x → ¬ 0 < x) (s : Meter K) :
    ∃ e, logarithm A v s = (.error (.raised e), s) := by
  cases hv : v.number with
  | none => exact ⟨_, bind_error (operand_none hv s)⟩
  | some x =>
    rw [logarithm, bind_ok (operand_number hv s), if_neg (h x hv)]
    exact ⟨_, rfl⟩

end Operands

section Decades

variable {K : Type} [Field K] [LinearOrder K] [FloorRing K]

/-- The first and the last exponent. -/
def firstDecade (A : Arithmetic K) (f : K) : Int := lowDecade (A.log10 f)

def lastDecade (A : Arithmetic K) (f t : K) : Int := max (firstDecade A f) ⌈A.log10 t⌉

/-- The decades of a range. -/
def decades (A : Arithmetic K) (f t : K) : List (TclValue K) :=
  (List.range ((lastDecade A f t - firstDecade A f).toNat + 1)).map fun i : Nat =>
    decade (firstDecade A f + i)

/-- The limits as `computeDecades` leaves them. -/
def withDecades (A : Arithmetic K) (f t : K) (s : Meter K) : Meter K :=
  { s with decadeLow := decade (firstDecade A f), decadeHigh := decade (lastDecade A f t) }

theorem decades_head (A : Arithmetic K) (f t : K) :
    (decades A f t).head? = some (decade (firstDecade A f)) := by
  simp [decades, List.range_succ_eq_map]

theorem decades_last (A : Arithmetic K) (f t : K) :
    (decades A f t).getLast? = some (decade (lastDecade A f t)) := by
  have hle : firstDecade A f ≤ lastDecade A f t := le_max_left _ _
  have hlast : firstDecade A f + ((lastDecade A f t - firstDecade A f).toNat : Int) =
      lastDecade A f t := by omega
  rw [decades, List.range_succ, List.map_append, List.map_singleton, List.getLast?_concat, hlast]

theorem length_decades (A : Arithmetic K) (f t : K) :
    (decades A f t).length = (lastDecade A f t - firstDecade A f).toNat + 1 := by
  simp [decades]

variable [IsStrictOrderedRing K] {A : Arithmetic K} {s : Meter K} {f t : K}

/-- The exponents go up by one, to the first that is not less than `high`. -/
theorem decadesUpTo_eq (high : K) (low : Int) :
    decadesUpTo high low =
      (List.range ((⌈high⌉ - low).toNat + 1)).map fun i : Nat => low + i := by
  induction low using decadesUpTo.induct high with
  | case1 low hless ih =>
    have hceil : low < ⌈high⌉ := Int.lt_ceil.mpr hless
    have hcount : (⌈high⌉ - low).toNat = (⌈high⌉ - (low + 1)).toNat + 1 := by omega
    rw [decadesUpTo, if_pos hless, ih, hcount, List.range_succ_eq_map (n := _ + 1), List.map_cons,
      List.map_map]
    simp only [Nat.cast_zero, add_zero, List.cons.injEq, true_and]
    refine List.map_congr_left fun i _ => ?_
    show low + 1 + (i : Int) = low + ((i + 1 : Nat) : Int)
    omega
  | case2 low hless =>
    have hceil : ⌈high⌉ ≤ low := Int.ceil_le.mpr (not_lt.mp hless)
    rw [decadesUpTo, if_neg hless, Int.toNat_of_nonpos (by omega)]
    simp

theorem decades_map (A : Arithmetic K) (f t : K) :
    (decadesUpTo (A.log10 t) (lowDecade (A.log10 f))).map decade = decades A f t := by
  have hcount : (lastDecade A f t - firstDecade A f).toNat =
      (⌈A.log10 t⌉ - lowDecade (A.log10 f)).toNat := by
    rw [lastDecade, firstDecade]
    omega
  rw [decadesUpTo_eq, decades, hcount, List.map_map]
  rfl

/-- The decades of a positive range. -/
theorem computeDecades_returns (hfrom : s.optFrom.number = some f) (hto : s.optTo.number = some t)
    (hf : 0 < f) (ht : 0 < t) :
    computeDecades A s = (.ok (decades A f t), withDecades A f t s) := by
  have hlow : s.optFrom.lessEqual ⟨"0.0", some 0⟩ = false := by
    rw [TclValue.lessEqual_numbers hfrom rfl, decide_eq_false (not_le.mpr hf)]
  have hhigh : s.optTo.lessEqual ⟨"0.0", some 0⟩ = false := by
    rw [TclValue.lessEqual_numbers hto rfl, decide_eq_false (not_le.mpr ht)]
  have hmap := decades_map A f t
  simp only [computeDecades, bind_apply, reads_apply, hlow, hhigh, Bool.false_eq_true, if_false,
    logarithm_number A hfrom hf, logarithm_number A hto ht, modify_apply, pure_apply, hmap,
    decades_head, decades_last, Option.getD_some]
  rfl

/-- Everything that `computeDecades` can do. -/
theorem computeDecades_cases (A : Arithmetic K) (s : Meter K) :
    (∃ f t, s.optFrom.number = some f ∧ s.optTo.number = some t ∧ 0 < f ∧ 0 < t ∧
      computeDecades A s = (.ok (decades A f t), withDecades A f t s)) ∨
    ((∀ f t, s.optFrom.number = some f → s.optTo.number = some t → 0 < f → ¬ 0 < t) ∧
      ∃ e, computeDecades A s = (.error (.raised e), s)) := by
  by_cases hrange : ∃ f t, s.optFrom.number = some f ∧ s.optTo.number = some t ∧ 0 < f ∧ 0 < t
  · obtain ⟨f, t, hfrom, hto, hf, ht⟩ := hrange
    exact .inl ⟨f, t, hfrom, hto, hf, ht, computeDecades_returns hfrom hto hf ht⟩
  · refine .inr ⟨fun f t hfrom hto hf ht => hrange ⟨f, t, hfrom, hto, hf, ht⟩, ?_⟩
    simp only [computeDecades, bind_apply, reads_apply]
    split
    · exact ⟨_, rfl⟩
    · next hlow =>
      split
      · exact ⟨_, rfl⟩
      · next hhigh =>
        -- no end is a number below zero, so one of them is not a number
        by_cases hf : ∃ f, s.optFrom.number = some f ∧ 0 < f
        · obtain ⟨f, hfrom, hf⟩ := hf
          obtain ⟨e, hraises⟩ := logarithm_raises A (v := s.optTo)
            (fun t hto ht => hrange ⟨f, t, hfrom, hto, hf, ht⟩) s
          exact ⟨e, (bind_ok (logarithm_number A hfrom hf s)).trans (bind_error hraises)⟩
        · obtain ⟨e, hraises⟩ := logarithm_raises A (v := s.optFrom)
            (fun f hfrom hpos => hf ⟨f, hfrom, hpos⟩) s
          exact ⟨e, bind_error hraises⟩

end Decades

/-! ## §2 The exact logarithm -/

/-- Real numbers, with any way to write them. -/
noncomputable def realArithmetic (text engineering : ℝ → String) : Arithmetic ℝ where
  text := text
  engineering := engineering
  log10 := Real.logb (10 : ℕ)

theorem logb_zpow_ten (k : Int) : Real.logb 10 ((10 : ℝ) ^ k) = k := by
  rw [← Real.rpow_intCast, Real.logb_rpow (by norm_num) (by norm_num)]

theorem zpow_le_iff_floor {f : ℝ} (hf : 0 < f) (k : Int) :
    (10 : ℝ) ^ k ≤ f ↔ k ≤ ⌊Real.logb 10 f⌋ := by
  rw [Int.le_floor, Real.le_logb_iff_rpow_le (by norm_num) hf, Real.rpow_intCast]

theorem le_zpow_iff_ceil {t : ℝ} (ht : 0 < t) (k : Int) :
    t ≤ (10 : ℝ) ^ k ↔ ⌈Real.logb 10 t⌉ ≤ k := by
  rw [Int.ceil_le, Real.logb_le_iff_le_rpow (by norm_num) ht, Real.rpow_intCast]

/-- The truncation is the largest integer that is not above, except for
negative numbers more than one half above it. -/
theorem lowDecade_eq (x : ℝ) : lowDecade x = ⌊x⌋ ↔ 0 ≤ x ∨ Int.fract x ≤ 1 / 2 := by
  unfold lowDecade int towardZero
  by_cases hx : x < 0
  · have hneg : x - 1 / 2 < 0 := by linarith
    rw [if_pos hx, if_pos hneg, Int.ceil_eq_iff, or_iff_right (not_le.mpr hx)]
    have hfloor := Int.floor_le x
    have hfract := Int.self_sub_floor x
    constructor
    · intro h
      linarith [h.2]
    · intro h
      exact ⟨by linarith, by linarith⟩
  · rw [if_neg hx, if_neg hx]
    exact iff_of_true rfl (.inl (not_lt.mp hx))

/-! ## §3 The range that is covered -/

/-- At least two consecutive powers of ten, from the largest that is not above
`f` to the smallest that is not below `t`. -/
def Covers (f t : ℝ) (l : List (TclValue ℝ)) : Prop :=
  ∃ (first : Int) (n : Nat),
    l = (List.range (n + 2)).map (fun i : Nat => decade (first + i)) ∧
    IsGreatest {k : Int | (10 : ℕ) ^ k ≤ f} first ∧
    IsLeast {k : Int | t ≤ (10 : ℕ) ^ k} (first + n + 1)

theorem isGreatest_iff {f : ℝ} (hf : 0 < f) (k : Int) :
    IsGreatest {k : Int | (10 : ℝ) ^ k ≤ f} k ↔ k = ⌊Real.logb 10 f⌋ := by
  simp only [zpow_le_iff_floor hf]
  exact ⟨fun h => h.unique isGreatest_Iic, fun h => h ▸ isGreatest_Iic⟩

theorem isLeast_iff {t : ℝ} (ht : 0 < t) (k : Int) :
    IsLeast {k : Int | t ≤ (10 : ℝ) ^ k} k ↔ k = ⌈Real.logb 10 t⌉ := by
  simp only [le_zpow_iff_ceil ht]
  exact ⟨fun h => h.unique isLeast_Ici, fun h => h ▸ isLeast_Ici⟩

theorem decade_injective {j k : Int} (h : (decade j : TclValue ℝ) = decade k) : j = k := by
  have hnumber : (10 : ℝ) ^ j = 10 ^ k := Option.some_injective _ (congrArg TclValue.number h)
  exact zpow_right_injective₀ (by norm_num) (by norm_num) hnumber

variable {text engineering : ℝ → String} {s : Meter ℝ} {f t : ℝ}

theorem covers_decades_iff (hf : 0 < f) (hft : f < t) :
    Covers f t (decades (realArithmetic text engineering) f t) ↔
      1 ≤ f ∨ Int.fract (Real.logb 10 f) ≤ 1 / 2 := by
  have hlog : Real.logb 10 f < Real.logb 10 t := Real.logb_lt_logb (by norm_num) hf hft
  rw [← Real.logb_nonneg_iff (b := 10) (by norm_num) hf, ← lowDecade_eq]
  constructor
  · rintro ⟨first, n, hlist, hfirst, -⟩
    have hfloor : first = ⌊Real.logb 10 f⌋ := (isGreatest_iff hf first).mp hfirst
    have hhead := decades_head (realArithmetic text engineering) f t
    rw [hlist, List.range_succ_eq_map] at hhead
    have hdecade : decade first =
        (decade (firstDecade (realArithmetic text engineering) f) : TclValue ℝ) := by
      simpa using hhead
    exact (decade_injective hdecade).symm.trans hfloor
  · intro hlow
    have hceil : ⌊Real.logb 10 f⌋ < ⌈Real.logb 10 t⌉ := Int.floor_lt_ceil_of_lt hlog
    have hfirst : firstDecade (realArithmetic text engineering) f = ⌊Real.logb 10 f⌋ := hlow
    have hlast : lastDecade (realArithmetic text engineering) f t = ⌈Real.logb 10 t⌉ := by
      rw [lastDecade, hfirst]
      exact max_eq_right hceil.le
    refine ⟨⌊Real.logb 10 f⌋, (⌈Real.logb 10 t⌉ - ⌊Real.logb 10 f⌋ - 1).toNat,
      ?_, (isGreatest_iff hf _).mpr rfl, (isLeast_iff (hf.trans hft) _).mpr (by omega)⟩
    have hcount : (⌈Real.logb 10 t⌉ - ⌊Real.logb 10 f⌋).toNat + 1 =
        (⌈Real.logb 10 t⌉ - ⌊Real.logb 10 f⌋ - 1).toNat + 2 := by omega
    rw [decades, hfirst, hlast, hcount]

/-- **The decades cover the range exactly if** the low end is at least one, or
its logarithm at most one half above an integer. -/
theorem decades_cover (text engineering : ℝ → String) (hfrom : s.optFrom.number = some f)
    (hto : s.optTo.number = some t) (hf : 0 < f) (hft : f < t) :
    (∃ l, (computeDecades (realArithmetic text engineering) s).1 = .ok l ∧ Covers f t l) ↔
      1 ≤ f ∨ Int.fract (Real.logb 10 f) ≤ 1 / 2 := by
  rw [computeDecades_returns hfrom hto hf (hf.trans hft), ← covers_decades_iff hf hft]
  constructor
  · rintro ⟨l, ⟨⟩, hcovers⟩
    exact hcovers
  · exact fun hcovers => ⟨_, rfl, hcovers⟩

/-- A meter with a range. -/
def ranged {K : Type} [Field K] (low high : TclValue K) : Meter K :=
  { fresh (fun _ => none) with optFrom := low, optTo := high }

/-- The range of `meter.xml`. -/
theorem decades_cover_55 :
    ∃ l, (computeDecades (realArithmetic (fun _ => "") fun _ => "")
      (ranged ⟨"55", some 55⟩ ⟨"750", some 750⟩)).1 = .ok l ∧ Covers 55 750 l :=
  (decades_cover (fun _ => "") (fun _ => "") rfl rfl (by norm_num) (by norm_num)).mpr
    (.inl (by norm_num))

theorem fract_logb_half : 1 / 2 < Int.fract (Real.logb 10 (1 / 200)) := by
  have hsquare : 2 * Real.logb 10 (1 / 200) = Real.logb 10 ((1 / 200) ^ 2) := by
    rw [Real.logb_pow]
    norm_num
  have habove : -5 < Real.logb 10 ((1 / 200 : ℝ) ^ 2) := by
    have hpow := logb_zpow_ten (-5)
    rw [show ((-5 : Int) : ℝ) = -5 by norm_num] at hpow
    rw [← hpow]
    exact Real.logb_lt_logb (by norm_num) (by norm_num) (by norm_num)
  have hbelow : Real.logb 10 (1 / 200) < -2 := by
    have hpow := logb_zpow_ten (-2)
    rw [show ((-2 : Int) : ℝ) = -2 by norm_num] at hpow
    rw [← hpow]
    exact Real.logb_lt_logb (by norm_num) (by norm_num) (by norm_num)
  have hfloor : ⌊Real.logb 10 (1 / 200)⌋ = -3 := by
    rw [Int.floor_eq_iff]
    constructor <;> push_cast <;> linarith
  rw [← Int.self_sub_floor, hfloor]
  push_cast
  linarith

/-- From 0.005 on, the first decade is 0.01. -/
theorem low_decade_too_high :
    ¬ ∀ (text engineering : ℝ → String) (s : Meter ℝ) (f t : ℝ), s.optFrom.number = some f →
      s.optTo.number = some t → 0 < f → f < t →
        ∃ l, (computeDecades (realArithmetic text engineering) s).1 = .ok l ∧ Covers f t l := by
  intro hall
  obtain ⟨l, hreturns, hcovers⟩ := hall (fun _ => "") (fun _ => "")
    (ranged ⟨"0.005", some (1 / 200)⟩ ⟨"1", some 1⟩) (1 / 200) 1 rfl rfl (by norm_num)
    (by norm_num)
  rw [computeDecades_returns rfl rfl (by norm_num) (by norm_num)] at hreturns
  cases hreturns
  rw [covers_decades_iff (by norm_num) (by norm_num)] at hcovers
  rcases hcovers with hone | hfract
  · norm_num at hone
  · exact absurd hfract (not_le.mpr fract_logb_half)

end EpicsTcl.Widget.Meter
