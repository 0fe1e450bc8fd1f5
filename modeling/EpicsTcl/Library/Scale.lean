/-
EpicsTcl.Library.Scale — scales: where a value is shown between two ends.

A scale shows the values from `lo` to `hi` between the heights `bottom` and
`top`, graduated by a function `g` (the identity for a linear scale, a
logarithm for a logarithmic one). Values outside are shown at the nearer end.
Heights grow downwards, as on a screen, so `height` is antitone.
-/
import Mathlib.Algebra.Order.Field.Basic
import Mathlib.Order.Interval.Set.Basic

namespace EpicsTcl.Library.Scale

variable {K : Type*} [LinearOrder K]

/-- A value limited to a range. -/
def clip (lo hi v : K) : K := max lo (min hi v)

variable {lo hi v : K}

theorem clip_mem (h : lo ≤ hi) (v : K) : clip lo hi v ∈ Set.Icc lo hi :=
  ⟨le_max_left _ _, max_le h (min_le_left _ _)⟩

theorem clip_of_mem (h : v ∈ Set.Icc lo hi) : clip lo hi v = v := by
  rw [clip, min_eq_right h.2, max_eq_right h.1]

theorem clip_mono (lo hi : K) : Monotone (clip lo hi) := fun _ _ h =>
  max_le_max le_rfl (min_le_min le_rfl h)

theorem clip_of_gt (h : lo ≤ hi) (hv : hi < v) : clip lo hi v = hi := by
  rw [clip, min_eq_left hv.le, max_eq_right h]

theorem clip_of_lt (h : lo ≤ hi) (hv : v < lo) : clip lo hi v = lo := by
  rw [clip, min_eq_right (hv.le.trans h), max_eq_left hv.le]

variable [Field K]

/-- The height at which a value is shown. -/
def height (g : K → K) (lo hi top bottom v : K) : K :=
  bottom - (g (clip lo hi v) - g lo) * (bottom - top) / (g hi - g lo)

variable {g : K → K} {top bottom : K}

/-- The low end is shown at the bottom. -/
theorem height_low (h : lo ≤ hi) : height g lo hi top bottom lo = bottom := by
  rw [height, clip_of_mem ⟨le_rfl, h⟩]
  simp

/-- The high end is shown at the top. -/
theorem height_high (h : lo ≤ hi) (hg : g lo ≠ g hi) : height g lo hi top bottom hi = top := by
  rw [height, clip_of_mem ⟨h, le_rfl⟩, mul_div_cancel_left₀ _ (sub_ne_zero.mpr hg.symm),
    sub_sub_cancel]

theorem height_clip (h : lo ≤ hi) (v : K) :
    height g lo hi top bottom (clip lo hi v) = height g lo hi top bottom v := by
  rw [height, clip_of_mem (clip_mem h v), height]

variable [IsStrictOrderedRing K]

/-- Larger values are shown higher up. -/
theorem height_antitone (h : lo ≤ hi) (hg : MonotoneOn g (Set.Icc lo hi))
    (hframe : top ≤ bottom) : Antitone (height g lo hi top bottom) := by
  intro u v huv
  have hvalue : g (clip lo hi u) ≤ g (clip lo hi v) :=
    hg (clip_mem h u) (clip_mem h v) (clip_mono lo hi huv)
  have hrange : 0 ≤ g hi - g lo := sub_nonneg.mpr (hg ⟨le_rfl, h⟩ ⟨h, le_rfl⟩ h)
  have hdrop : 0 ≤ bottom - top := sub_nonneg.mpr hframe
  unfold height
  gcongr

/-- Every value is shown between the ends. -/
theorem height_mem (h : lo ≤ hi) (hg : MonotoneOn g (Set.Icc lo hi)) (hne : g lo ≠ g hi)
    (hframe : top ≤ bottom) (v : K) : height g lo hi top bottom v ∈ Set.Icc top bottom := by
  have hanti := height_antitone h hg hframe
  have hclip := clip_mem h v
  rw [← height_clip h v]
  constructor
  · calc top = height g lo hi top bottom hi := (height_high h hne).symm
      _ ≤ _ := hanti hclip.2
  · calc _ ≤ height g lo hi top bottom lo := hanti hclip.1
      _ = bottom := height_low h

end EpicsTcl.Library.Scale
