/-
EpicsTcl.Widget.TerminationTheorems — when the linear scale has been drawn.

The loop over the major ticks goes from one multiple of the interval to the
next as long as the end of the scale is not passed. Nothing asks whether the
interval is positive: with another one the loop is left only by an error, or
not entered at all (`linear_ticks_end_iff`). The loop over the minor ticks
counts, and is left after so many of them (`drawMinorTicks_loop`).
-/
import EpicsTcl.Widget.DrawTheorems

namespace EpicsTcl.Widget.Meter

open EpicsTcl.Library EpicsTcl.Library.Script

variable {K : Type} [Field K] [LinearOrder K] [FloorRing K] [IsStrictOrderedRing K]
  {s : Meter K} {f t major minorticks : K}

/-- The loop `for {set i 1} {$i <= $minorticks} {incr i}`. -/
theorem drawMinorTicks_loop (A : Arithmetic K) (minor : Extended K) (minorRight m : K) {n : Nat}
    (hn : ⌊minorticks⌋₊ < n) (s : Meter K) :
    Script.loop (fun i : Nat =>
      if (i : K) ≤ minorticks then do
        let minorH ← computeHeight A (A.extended (.plus m (.times (i : K) minor)))
        createTick (.line minorRight minorH)
        pure (.inl (i + 1))
      else pure (.inr ())) n 1 s = drawMinorTicks A minorticks minor minorRight m s := by
  have hmore (i : Nat) (hi : 1 ≤ i) : (i : K) ≤ minorticks ↔ i < ⌊minorticks⌋₊ + 1 := by
    rw [Nat.lt_succ_iff, Nat.le_floor_iff' (Nat.one_le_iff_ne_zero.mp hi)]
  have hcounts := loop_counts hmore (fun i => do
    let minorH ← computeHeight A (A.extended (.plus m (.times (i : K) minor)))
    createTick (.line minorRight minorH)) (by simpa using hn) s
  simpa only [drawMinorTicks, bind_assoc, Nat.add_sub_cancel] using hcounts

/-- **The loop over the major ticks** ends, or an error ends it. -/
theorem linear_ticks_end_iff (A : Arithmetic K) (hlog : truth s.log.text = some false)
    (hfrom : s.optFrom.number = some f) (hto : s.optTo.number = some t)
    (hmajor : s.majorticks.number = some major)
    (hminorticks : s.minorticks.number = some minorticks) :
    (∃ n, (drawLinearTicks A n s).1 ≠ .error .running) ↔
      t < f ∨ 0 < major ∨ (minorticks = -1 ∧ major = 0) ∨ s.valueRange = 0 := by
  by_cases hdivide : minorticks + 1 ≠ 0 ∨ major ≠ 0
  · have hquotient : ¬ (minorticks = -1 ∧ major = 0) := by
      rintro ⟨hminus, hzero⟩
      exact hdivide.elim (fun h => h (by rw [hminus]; ring)) fun h => h hzero
    by_cases hzero : f ≤ t ∧ s.valueRange = 0
    · have he := drawLinearTicks_raises A hlog hfrom hto hmajor hminorticks hdivide hzero.1
        hzero.2 0
      exact iff_of_true ⟨1, by simp [he]⟩ (.inr (.inr (.inr hzero.2)))
    · have hlinear : Linear s f t :=
        ⟨hlog, hfrom, hto, fun hft hrange => hzero ⟨hft, hrange⟩⟩
      constructor
      · rintro ⟨n, hends⟩
        rcases drawLinearTicks_cases hlinear A hmajor hminorticks hdivide n with
          ⟨hpos, -⟩ | hrunning
        · exact (lt_or_ge t f).imp_right fun hft => .inl (hpos hft)
        · exact absurd hrunning hends
      · intro hcases
        have hpos : f ≤ t → 0 < major := by
          intro hft
          rcases hcases with hless | hpos | hminor | hrange
          · exact absurd hless (not_lt.mpr hft)
          · exact hpos
          · exact absurd hminor hquotient
          · exact absurd ⟨hft, hrange⟩ hzero
        obtain ⟨n, hends⟩ := drawLinearTicks_ends hlinear A hmajor hminorticks hdivide hpos
        exact ⟨n, by simp [hends]⟩
  · -- zero by zero, before the loop
    have hraises : ¬ ∃ major minorticks, s.majorticks.number = some major ∧
        s.minorticks.number = some minorticks ∧ (minorticks + 1 ≠ 0 ∨ major ≠ 0) := by
      rintro ⟨major', minorticks', hmajor', hminorticks', hne⟩
      rw [hmajor] at hmajor'
      rw [hminorticks] at hminorticks'
      cases hmajor'
      cases hminorticks'
      exact hdivide hne
    obtain ⟨hminus, hzero⟩ := not_or.mp hdivide
    obtain ⟨e, he⟩ := drawLinearTicks_needs A 0 hraises
    refine iff_of_true ⟨0, by simp [he]⟩ (.inr (.inr (.inl ⟨?_, not_not.mp hzero⟩)))
    exact eq_neg_of_add_eq_zero_left (not_not.mp hminus)

/-- A meter from -1 to 1. -/
def unit (majorticks : TclValue ℚ) : Meter ℚ :=
  { fresh (fun _ => none) with
    majorticks := majorticks, topY := 0, bottomY := 100, valueRange := 2, hasCanvas := true
    constructing := false }

/-- Numbers that are not written. -/
def unwritten : Arithmetic ℚ := ⟨fun _ => "", fun _ => "", fun _ => 0⟩

/-- An interval of a half. -/
theorem linear_ticks_end_iff_half :
    ∃ n, (drawLinearTicks unwritten n (unit ⟨"0.5", some (1 / 2)⟩)).1 ≠ .error .running :=
  (linear_ticks_end_iff unwritten (by decide) rfl rfl rfl rfl).mpr
    (.inr (.inl (show (0 : ℚ) < 1 / 2 by norm_num)))

/-- An interval of zero. -/
theorem linear_ticks_endless :
    ¬ ∀ (s : Meter ℚ) (f t major : ℚ) (minorticks : Int), truth s.log.text = some false →
      s.optFrom.number = some f → s.optTo.number = some t → s.majorticks.number = some major →
        s.minorticks.number = some (minorticks : ℚ) →
          ∃ n, (drawLinearTicks unwritten n s).1 ≠ .error .running := by
  intro hall
  obtain ⟨n, hends⟩ := hall (unit ⟨"0", some 0⟩) (-1) 1 0 4 (by decide) rfl rfl rfl rfl
  have hlinear : Linear (unit ⟨"0", some 0⟩) (-1) 1 := by
    refine ⟨by decide, rfl, rfl, fun _ => ?_⟩
    show (2 : ℚ) ≠ 0
    norm_num
  rcases drawLinearTicks_cases hlinear unwritten rfl rfl (.inl (by norm_num)) n with
    ⟨hpos, -⟩ | hrunning
  · exact absurd (hpos (by norm_num)) (lt_irrefl 0)
  · exact hends hrunning

end EpicsTcl.Widget.Meter
