/-
EpicsTcl.Widget.TickTheorems — do the ticks tell the truth?

A tick tells the truth if its value is displayed, and if it is drawn where the
needle shows this value. On a linear scale that depends on the last tick of
all, a minor one after the last major one: it must not be beyond `-to`
(`Fits`). On a logarithmic scale the minor ticks after the last decade are
always beyond it.

§1 is the statement, §2 the linear scale, §3 the logarithmic one, §4 both
(`ticks_true`).
-/
import EpicsTcl.Widget.DrawTheorems

namespace EpicsTcl.Widget.Meter

open EpicsTcl.Library EpicsTcl.Library.Script

/-! ## §1 Statement -/

/-- The items of these marks have been drawn, and every mark is displayed, at
the height of its value. -/
def TicksTrue (A : Arithmetic ℝ) (s : Meter ℝ) (low high : ℝ) (marks : List (Mark ℝ))
    (run : Except (Stop MeterError) Unit × Meter ℝ) : Prop :=
  run.1 = .ok () ∧ ∃ y : ℝ → ℝ,
    run.2.canvas = s.canvas ++ numbered s.nextId (marks.flatMap (s.markItems y)) ∧
    ∀ mark ∈ marks, mark.value ∈ Set.Icc low high ∧
      (computeHeight A (A.value mark.value) run.2).1 = .ok (.finite (y mark.value)) ∧
      y mark.value ∈ Set.Icc s.topY s.bottomY

/-- The labelled marks are the multiples of the interval up to `t`, each once. -/
def LabelsExact (f t major : ℝ) (marks : List (Mark ℝ)) : Prop :=
  ∃ count, (marks.filter fun mark => mark.label.isSome).map Mark.value =
      (List.range count).map (fun k : Nat => f + k * major) ∧
    ∀ k : Nat, k < count ↔ f + k * major ≤ t

/-! ## §2 The linear scale -/

/-- A linear scale with a positive interval. -/
structure LinearScale (s : Meter ℝ) (f t major minorticks : ℝ) : Prop where
  log : truth s.log.text = some false
  from_number : s.optFrom.number = some f
  to_number : s.optTo.number = some t
  major_number : s.majorticks.number = some major
  minor_number : s.minorticks.number = some minorticks
  less : f < t
  major_pos : 0 < major
  minor_nonneg : 0 ≤ minorticks

/-- The value of the last tick. -/
noncomputable def lastMark (f t major minorticks : ℝ) : ℝ :=
  f + ⌊(t - f) / major⌋₊ * major + ⌊minorticks⌋₊ * (major / (minorticks + 1))

/-- The last tick is not beyond `t`, and `valueRange` places it in the frame. -/
def Fits (s : Meter ℝ) (f t major minorticks : ℝ) : Prop :=
  s.valueRange ≠ 0 ∧ lastMark f t major minorticks ≤ t ∧
    (lastMark f t major minorticks - f) * (s.bottomY - s.topY) / s.valueRange ∈
      Set.Icc 0 (s.bottomY - s.topY)

section LinearTicks

variable {A : Arithmetic ℝ} {s : Meter ℝ} {f t major minorticks : ℝ} {mark : Mark ℝ} {n : Nat}

theorem mem_linearMarks {count : Nat} :
    mark ∈ linearMarks A f major minorticks count ↔
      ∃ k, k < count ∧ mark ∈
        majorMarks A (major / (minorticks + 1)) ⌊minorticks⌋₊ (f + k * major) := by
  simp [linearMarks]

/-- Every mark is between the first one and the last one. -/
theorem value_mem (h : LinearScale s f t major minorticks)
    (hmark : mark ∈ linearMarks A f major minorticks (tickCount f t major)) :
    mark.value ∈ Set.Icc f (lastMark f t major minorticks) := by
  obtain ⟨k, hk, hmark⟩ := mem_linearMarks.mp hmark
  have hmajor := h.major_pos
  have hminor : 0 ≤ major / (minorticks + 1) :=
    div_nonneg hmajor.le (by linarith [h.minor_nonneg])
  have hkle : (k : ℝ) ≤ ⌊(t - f) / major⌋₊ := by
    rw [tickCount, if_pos h.less.le] at hk
    exact_mod_cast Nat.le_of_lt_succ hk
  have hoffset : ∃ i : Nat, i ≤ ⌊minorticks⌋₊ ∧
      mark.value = f + k * major + i * (major / (minorticks + 1)) := by
    rcases List.mem_cons.mp hmark with rfl | hmark
    · exact ⟨0, Nat.zero_le _, by simp⟩
    · obtain ⟨i, hi, rfl⟩ := List.mem_map.mp hmark
      rw [List.mem_range'_1] at hi
      exact ⟨i, by omega, rfl⟩
  obtain ⟨i, hi, hvalue⟩ := hoffset
  have hile : (i : ℝ) ≤ ⌊minorticks⌋₊ := by exact_mod_cast hi
  rw [hvalue, lastMark]
  constructor
  · have hk0 : 0 ≤ (k : ℝ) * major := mul_nonneg (Nat.cast_nonneg k) hmajor.le
    have hi0 : 0 ≤ (i : ℝ) * (major / (minorticks + 1)) := mul_nonneg (Nat.cast_nonneg i) hminor
    linarith
  · gcongr

/-- The last mark is one of the marks. -/
theorem lastMark_mem (h : LinearScale s f t major minorticks) :
    ∃ mark ∈ linearMarks A f major minorticks (tickCount f t major),
      mark.value = lastMark f t major minorticks := by
  have hlast : ⌊(t - f) / major⌋₊ < tickCount f t major := by
    rw [tickCount, if_pos h.less.le]
    exact Nat.lt_succ_self _
  cases hcount : ⌊minorticks⌋₊ with
  | zero =>
    refine ⟨_, mem_linearMarks.mpr ⟨_, hlast, List.mem_cons_self⟩, ?_⟩
    simp [lastMark, hcount]
  | succ i =>
    refine ⟨⟨f + ⌊(t - f) / major⌋₊ * major + (i + 1 : Nat) * (major / (minorticks + 1)), none⟩,
      mem_linearMarks.mpr
        ⟨_, hlast, List.mem_cons_of_mem _ (List.mem_map.mpr ⟨i + 1, ?_, rfl⟩)⟩, ?_⟩
    · rw [hcount, List.mem_range'_1]
      omega
    · rw [lastMark, hcount]

theorem labelsExact (h : LinearScale s f t major minorticks) :
    LabelsExact f t major (linearMarks A f major minorticks (tickCount f t major)) := by
  refine ⟨tickCount f t major, ?_, fun k => lt_tickCount h.major_pos⟩
  have hround : ∀ x, ((majorMarks A (major / (minorticks + 1)) ⌊minorticks⌋₊ x).filter
      fun mark => mark.label.isSome).map Mark.value = [x] := by
    intro x
    simp [majorMarks, List.filter_map, Function.comp_def]
  rw [linearMarks, List.filter_flatMap, List.map_flatMap]
  simp [hround, ← List.map_eq_flatMap]

theorem linearHeight_of_mem {x : ℝ} (hlow : f ≤ x) (hhigh : x ≤ t) :
    linearHeight s f t x = s.bottomY - (x - f) * (s.bottomY - s.topY) / s.valueRange := by
  rw [linearHeight, if_neg (not_lt.mpr hhigh), if_neg (not_lt.mpr hlow)]

/-- Where the heights of the marks are, if the last one is in the frame. -/
theorem offset_mem {x last p r : ℝ} (hx : 0 ≤ x) (hlast : x ≤ last)
    (h : last * p / r ∈ Set.Icc 0 p) : x * p / r ∈ Set.Icc 0 p := by
  have hp : 0 ≤ p := h.1.trans h.2
  rcases hx.eq_or_lt with rfl | hpos
  · simpa using hp
  · have hlastpos : 0 < last := hpos.trans_le hlast
    have hslope : 0 ≤ p / r := by
      have hmul := h.1
      rw [mul_div_assoc] at hmul
      exact nonneg_of_mul_nonneg_right hmul hlastpos
    rw [mul_div_assoc] at h ⊢
    exact ⟨mul_nonneg hx hslope, (mul_le_mul_of_nonneg_right hlast hslope).trans h.2⟩

/-- The ticks of a linear scale tell the truth exactly if the last one fits. -/
theorem ticks_linear (h : LinearScale s f t major minorticks) :
    (∃ rounds, ∀ n, rounds ≤ n →
      TicksTrue A s f t (linearMarks A f major minorticks (tickCount f t major))
        (drawTicks A n s) ∧
      LabelsExact f t major (linearMarks A f major minorticks (tickCount f t major))) ↔
      Fits s f t major minorticks := by
  constructor
  · rintro ⟨rounds, htrue⟩
    have hdivide : minorticks + 1 ≠ 0 ∨ major ≠ 0 := .inr h.major_pos.ne'
    obtain ⟨⟨hreturns, y, -, hmarks⟩, -⟩ :=
      htrue (rounds + tickCount f t major + 1) (by omega)
    rw [drawTicks_linear A h.log] at hreturns hmarks
    by_cases hrange : s.valueRange = 0
    · rw [drawLinearTicks_raises A h.log h.from_number h.to_number h.major_number h.minor_number
        hdivide h.less.le hrange] at hreturns
      cases hreturns
    · have hlinear : Linear s f t := ⟨h.log, h.from_number, h.to_number, fun _ => hrange⟩
      rw [drawLinearTicks_returns hlinear A h.major_number h.minor_number hdivide h.major_pos
        (by omega)] at hmarks
      obtain ⟨mark, hmark, hvalue⟩ := lastMark_mem (A := A) h
      obtain ⟨hmem, hheight, hframe⟩ := hmarks mark hmark
      rw [(hlinear.drawn _ _).height A rfl] at hheight
      have hy : linearHeight s f t mark.value = y mark.value :=
        Extended.finite.inj (Except.ok.inj hheight)
      rw [← hy, linearHeight_of_mem hmem.1 hmem.2, hvalue] at hframe
      rw [hvalue] at hmem
      exact ⟨hrange, hmem.2, by linarith [hframe.2], by linarith [hframe.1]⟩
  · rintro ⟨hrange, hlast, hframe⟩
    have hlinear : Linear s f t := ⟨h.log, h.from_number, h.to_number, fun _ => hrange⟩
    refine ⟨tickCount f t major + 1, fun n hn => ⟨?_, labelsExact h⟩⟩
    have hrun := drawLinearTicks_returns hlinear A h.major_number h.minor_number
      (.inr h.major_pos.ne') h.major_pos (n := n) (by omega)
    rw [drawTicks_linear A h.log, hrun]
    refine ⟨rfl, linearHeight s f t, rfl, fun mark hmark => ?_⟩
    obtain ⟨hlow, hhigh⟩ := value_mem h hmark
    have hoffset := offset_mem (sub_nonneg.mpr hlow) (sub_le_sub_right hhigh f) hframe
    refine ⟨⟨hlow, hhigh.trans hlast⟩, ?_, ?_⟩
    · exact congrArg Prod.fst ((hlinear.drawn _ _).height A rfl)
    · rw [linearHeight_of_mem hlow (hhigh.trans hlast)]
      exact ⟨by linarith [hoffset.2], by linarith [hoffset.1]⟩

end LinearTicks

/-! ## §3 The logarithmic scale -/

/-- A logarithmic scale of at least two decades. -/
structure LogScale (A : Arithmetic ℝ) (s : Meter ℝ) (f t : ℝ) : Prop where
  log : truth s.log.text = some true
  from_number : s.optFrom.number = some f
  to_number : s.optTo.number = some t
  pos : 0 < f
  less : f < t
  decades : firstDecade A f < lastDecade A f t

/-- A decade and the minor ticks after it, from the first decade `a` on. -/
noncomputable def decadeMarks (a : Int) (i : Nat) : List (Mark ℝ) :=
  ⟨(10 : ℕ) ^ (a + i), some (decade (K := ℝ) (a + i)).text⟩ ::
    [2, 3, 4, 5, 6, 7, 8, 9].map fun mant : Nat => ⟨mant * (10 : ℕ) ^ (a + i), none⟩

noncomputable def logMarks (a b : Int) : List (Mark ℝ) :=
  (List.range ((b - a).toNat + 1)).flatMap (decadeMarks a)

/-- Where a value belongs on the scale from `10 ^ a` to `10 ^ b`, or beyond. -/
noncomputable def logPosition (s : Meter ℝ) (a b : Int) (v : ℝ) : ℝ :=
  s.bottomY + (s.topY - s.bottomY) / (b - a) * (Real.logb (10 : ℕ) v - a)

theorem logb_mul_zpow {c : ℝ} (hc : c ≠ 0) (k : Int) :
    Real.logb 10 (c * 10 ^ k) = Real.logb 10 c + k := by
  rw [Real.logb_mul hc (ten_zpow_pos k).ne', logb_zpow_ten]

/-- The decades are drawn where they belong, and so are the ticks after them. -/
theorem decadeItems_eq (text engineering : ℝ → String) (s : Meter ℝ) (a : Int) (interval : ℝ)
    (j count : Nat) :
    decadeItems (realArithmetic text engineering) (.finite interval) s.majorRight s.minorRight
        ((List.range' j count).map fun i : Nat => decade (a + i))
        (.finite (s.bottomY + j * interval)) =
      ((List.range' j count).flatMap (decadeMarks a)).flatMap
        (s.markItems fun v => s.bottomY + interval * (Real.logb 10 v - a)) := by
  induction count generalizing j with
  | zero => rfl
  | succ count ih =>
    have hnext : s.bottomY + j * interval + interval = s.bottomY + (j + 1 : Nat) * interval := by
      push_cast
      ring
    have hplus : (Extended.finite (s.bottomY + j * interval)).plus (.finite interval) =
        .finite (s.bottomY + (j + 1 : Nat) * interval) := congrArg Extended.finite hnext
    rw [List.range'_succ, List.map_cons, decadeItems, hplus, ih, List.flatMap_cons,
      List.flatMap_append]
    congr 1
    have hmajor : s.bottomY + interval * (Real.logb 10 (10 ^ (a + j)) - a) =
        s.bottomY + j * interval := by
      rw [logb_zpow_ten]
      push_cast
      ring
    have hminor (mant : Nat) (hmant : (mant : ℝ) ≠ 0) :
        s.bottomY + interval * (Real.logb 10 (mant * 10 ^ (a + j)) - a) =
          s.bottomY + j * interval + interval * Real.logb 10 mant := by
      rw [logb_mul_zpow hmant]
      push_cast
      ring
    rw [decadeMarks, List.flatMap_cons, List.flatMap_map]
    simp only [markItems, Nat.cast_ofNat, hmajor]
    congr 1
    rw [← List.map_eq_flatMap]
    refine List.map_congr_left fun mant hmant => ?_
    have hne : (mant : ℝ) ≠ 0 := by
      have hpos : mant ≠ 0 := by
        rintro rfl
        simp at hmant
      exact_mod_cast hpos
    rw [hminor mant hne]
    rfl

section LogTicks

variable {text engineering : ℝ → String} {s : Meter ℝ} {f t : ℝ}

/-- The ticks of a logarithmic scale, all where they belong. -/
theorem drawTicks_log (h : LogScale (realArithmetic text engineering) s f t) (n : Nat) :
    drawTicks (realArithmetic text engineering) n s =
      (.ok (), (withDecades (realArithmetic text engineering) f t s).drawn
        (logPosition s (firstDecade (realArithmetic text engineering) f)
          (lastDecade (realArithmetic text engineering) f t))
        (logMarks (firstDecade (realArithmetic text engineering) f)
          (lastDecade (realArithmetic text engineering) f t))) := by
  have hitems := decadeItems_eq text engineering s (firstDecade (realArithmetic text engineering) f)
    (decadeInterval (realArithmetic text engineering) s f t) 0
    ((lastDecade (realArithmetic text engineering) f t -
      firstDecade (realArithmetic text engineering) f).toNat + 1)
  rw [Nat.cast_zero, zero_mul, add_zero] at hitems
  rw [drawTicks_logarithmic _ h.log, drawLogTicks_returns _ h.from_number h.to_number
    h.pos (h.pos.trans h.less)
    h.decades, decades, List.range_eq_range', hitems]
  unfold drawn logPosition logMarks decadeInterval
  rw [length_decades_cast, List.range_eq_range', Int.cast_sub]
  rfl

/-- The first tick after the last decade. -/
theorem beyond_mem {a b : Int} (hab : a ≤ b) : ⟨2 * 10 ^ b, none⟩ ∈ logMarks a b := by
  have hlast : a + ((b - a).toNat : Int) = b := by omega
  refine List.mem_flatMap.mpr ⟨(b - a).toNat, by simp, ?_⟩
  rw [decadeMarks, hlast]
  exact List.mem_cons_of_mem _ (List.mem_map.mpr ⟨2, by simp, by norm_num⟩)

/-- The ticks after the last decade are not displayed. -/
theorem ticks_log {A : Arithmetic ℝ} {a b : Int} (hab : a ≤ b)
    (run : Except (Stop MeterError) Unit × Meter ℝ) :
    ¬ TicksTrue A s (10 ^ a) (10 ^ b) (logMarks a b) run := by
  rintro ⟨-, y, -, hmarks⟩
  obtain ⟨hmem, -⟩ := hmarks _ (beyond_mem hab)
  have hpos : (0 : ℝ) < 10 ^ b := ten_zpow_pos b
  have hle : 2 * (10 : ℝ) ^ b ≤ 10 ^ b := hmem.2
  linarith

end LogTicks

/-! ## §4 Both scales -/

/-- **When the ticks tell the truth**: on a linear scale exactly if the last
tick fits, on a logarithmic one never. -/
theorem ticks_true (text engineering : ℝ → String) (s : Meter ℝ) :
    (∀ f t major minorticks, LinearScale s f t major minorticks →
      ((∃ rounds, ∀ n, rounds ≤ n →
        TicksTrue (realArithmetic text engineering) s f t
          (linearMarks (realArithmetic text engineering) f major minorticks (tickCount f t major))
          (drawTicks (realArithmetic text engineering) n s) ∧
        LabelsExact f t major (linearMarks (realArithmetic text engineering) f major minorticks
          (tickCount f t major))) ↔
        Fits s f t major minorticks)) ∧
    ∀ f t, LogScale (realArithmetic text engineering) s f t →
      ∀ a b, a = firstDecade (realArithmetic text engineering) f →
        b = lastDecade (realArithmetic text engineering) f t → ∀ n,
          (drawTicks (realArithmetic text engineering) n s).2.canvas =
            s.canvas ++
              numbered s.nextId ((logMarks a b).flatMap (s.markItems (logPosition s a b))) ∧
          ¬ TicksTrue (realArithmetic text engineering) s (10 ^ a) (10 ^ b) (logMarks a b)
            (drawTicks (realArithmetic text engineering) n s) := by
  refine ⟨fun f t major minorticks h => ticks_linear h, ?_⟩
  rintro f t h a b rfl rfl n
  exact ⟨by rw [drawTicks_log h n]; rfl, ticks_log (le_max_left _ _) _⟩

/-- The default meter, in a frame. -/
noncomputable def framed : Meter ℝ :=
  { fresh (fun _ => none) with topY := 0, bottomY := 1, valueRange := 1 - -1 }

theorem linearScale_framed : LinearScale framed (-1) 1 1 4 :=
  ⟨by decide, rfl, rfl, rfl, rfl, by norm_num, by norm_num, by norm_num⟩

theorem ticks_true_framed :
    (∃ rounds, ∀ n, rounds ≤ n →
      TicksTrue (realArithmetic (fun _ => "") fun _ => "") framed (-1) 1
        (linearMarks (realArithmetic (fun _ => "") fun _ => "") (-1) 1 4 (tickCount (-1 : ℝ) 1 1))
        (drawTicks (realArithmetic (fun _ => "") fun _ => "") n framed) ∧
      LabelsExact (-1) 1 1
        (linearMarks (realArithmetic (fun _ => "") fun _ => "") (-1) 1 4
          (tickCount (-1 : ℝ) 1 1))) ↔
      Fits framed (-1) 1 1 4 :=
  (ticks_true (fun _ => "") (fun _ => "") framed).1 (-1) 1 1 4 linearScale_framed

/-- The minor ticks after the last major one of the default meter are beyond
its range. -/
theorem minor_ticks_beyond :
    ¬ ∀ (s : Meter ℝ) (f t major minorticks : ℝ), LinearScale s f t major minorticks →
      s.topY < s.bottomY → s.valueRange = t - f → ∃ rounds, ∀ n, rounds ≤ n →
        TicksTrue (realArithmetic (fun _ => "") fun _ => "") s f t
          (linearMarks (realArithmetic (fun _ => "") fun _ => "") f major minorticks
            (tickCount f t major))
          (drawTicks (realArithmetic (fun _ => "") fun _ => "") n s) := by
  intro hall
  obtain ⟨rounds, htrue⟩ := hall framed (-1) 1 1 4 linearScale_framed
    (by norm_num [framed]) (by norm_num [framed])
  have hfits := (ticks_linear linearScale_framed).mp
    ⟨rounds, fun n hn => ⟨htrue n hn, labelsExact linearScale_framed⟩⟩
  have hlast := hfits.2.1
  have hmajors : ⌊((1 : ℝ) - -1) / 1⌋₊ = 2 := by norm_num
  have hminors : ⌊(4 : ℝ)⌋₊ = 4 := by norm_num
  rw [lastMark, hmajors, hminors] at hlast
  norm_num at hlast

end EpicsTcl.Widget.Meter
