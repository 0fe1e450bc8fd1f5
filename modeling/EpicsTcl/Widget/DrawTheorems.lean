/-
EpicsTcl.Widget.DrawTheorems — what drawing the ticks leaves on the canvas.

A mark is a tick and the scale value it stands for. Drawing marks adds their
items to the canvas, to `tickIds` and to the ids (`addTicks`), and changes
nothing that heights depend on.

§1 are marks and the canvas, §2 the linear scale (`drawLinearTicks_returns`,
and `drawLinearTicks_cases` for a loop that may run forever), §3 the
logarithmic one (`drawLogTicks_returns`), §4 the choice between them.
-/
import EpicsTcl.Widget.HeightTheorems

namespace EpicsTcl.Widget

open EpicsTcl.Library EpicsTcl.Library.Script

/-- A tick for a scale value; the major ones are labelled. -/
structure Mark (K : Type) where
  value : K
  label : Option String

namespace Meter

variable {K : Type}

/-! ## §1 Marks and the canvas -/

/-- Items under consecutive ids. -/
def numbered (id : Nat) (items : List (Item K)) : List (Nat × Item K) :=
  (items.zipIdx id).map Prod.swap

/-- The meter after these items have been created. -/
def addTicks (s : Meter K) (items : List (Item K)) : Meter K :=
  { s with
    canvas := s.canvas ++ numbered s.nextId items
    tickIds := s.tickIds ++ List.range' s.nextId items.length
    nextId := s.nextId + items.length }

theorem addTicks_nil (s : Meter K) : s.addTicks [] = s := by simp [addTicks, numbered]

theorem addTicks_append (s : Meter K) (items items' : List (Item K)) :
    (s.addTicks items).addTicks items' = s.addTicks (items ++ items') := by
  simp [addTicks, numbered, List.zipIdx_append, List.range'_append_1, Nat.add_assoc]

theorem createTick_apply (item : Item K) (s : Meter K) :
    createTick item s = (.ok (), s.addTicks [item]) := rfl

/-- A loop that creates an item for each element. -/
theorem forEach_creates {β : Type} {body : β → Method K Unit} {item : β → Item K} {s : Meter K}
    (h : ∀ b items, body b (s.addTicks items) = (.ok (), s.addTicks (items ++ [item b])))
    (l : List β) : Script.forEach l body s = (.ok (), s.addTicks (l.map item)) := by
  have hall : ∀ items, Script.forEach l body (s.addTicks items) =
      (.ok (), s.addTicks (items ++ l.map item)) := by
    induction l with
    | nil => intro items; simp [Script.forEach]
    | cons b l ih =>
      intro items
      rw [Script.forEach, bind_ok (h b items), ih]
      simp
  simpa [addTicks_nil] using hall []

variable [Field K]

/-- The right ends of major and minor ticks. -/
def majorRight (s : Meter K) : K := s.meterLeft + (s.width - s.meterLeft) / (5 : ℕ)

def minorRight (s : Meter K) : K := s.meterLeft + (s.width - s.meterLeft) / (5 : ℕ) / (2 : ℕ)

/-- The meter once the length of the ticks is known. -/
def measured (s : Meter K) : Meter K :=
  { s with majorlength := (s.width - s.meterLeft) / (5 : ℕ) }

/-- The items of a mark, at the height `y` of its value. -/
def markItems (s : Meter K) (y : K → K) (mark : Mark K) : List (Item K) :=
  match mark.label with
  | some label => [.text (y mark.value) label, .line s.majorRight (y mark.value)]
  | none => [.line s.minorRight (y mark.value)]

/-- The meter after these marks have been drawn. -/
def drawn (s : Meter K) (y : K → K) (marks : List (Mark K)) : Meter K :=
  s.measured.addTicks (marks.flatMap (s.markItems y))

theorem getMajorRight_apply (s : Meter K) :
    getMajorRight s = (.ok s.majorRight, s.measured) := rfl

theorem getMinorRight_measured (s : Meter K) :
    getMinorRight s.measured = (.ok s.minorRight, s.measured) := rfl

theorem drawn_nil (s : Meter K) (y : K → K) : s.drawn y [] = s.measured := addTicks_nil _

theorem drawn_append (s : Meter K) (y : K → K) (marks marks' : List (Mark K)) :
    s.drawn y (marks ++ marks') = (s.drawn y marks).addTicks (marks'.flatMap (s.markItems y)) := by
  rw [drawn, drawn, addTicks_append, List.flatMap_append]

/-! ## §2 The linear scale -/

section LinearScale

variable [LinearOrder K] {s : Meter K} {f t : K}

/-- What the heights of a linear scale need. -/
structure Linear (s : Meter K) (f t : K) : Prop where
  log : truth s.log.text = some false
  from_number : s.optFrom.number = some f
  to_number : s.optTo.number = some t
  range : f ≤ t → s.valueRange ≠ 0

@[simp] theorem linearHeight_addTicks (s : Meter K) (items : List (Item K)) :
    linearHeight (s.addTicks items) = linearHeight s := rfl

theorem Linear.addTicks (h : Linear s f t) (items : List (Item K)) :
    Linear (s.addTicks items) f t := ⟨h.log, h.from_number, h.to_number, h.range⟩

theorem Linear.measured (h : Linear s f t) : Linear s.measured f t :=
  ⟨h.log, h.from_number, h.to_number, h.range⟩

theorem Linear.remember (h : Linear s f t) (v : TclValue K) :
    Linear { s with lastValue := v } f t := ⟨h.log, h.from_number, h.to_number, h.range⟩

theorem Linear.drawn (h : Linear s f t) (y : K → K) (marks : List (Mark K)) :
    Linear (s.drawn y marks) f t := ⟨h.log, h.from_number, h.to_number, h.range⟩

variable [FloorRing K]

/-- A major tick and the minor ones after it. -/
def majorMarks (A : Arithmetic K) (minor : K) (count : Nat) (x : K) : List (Mark K) :=
  ⟨x, some (A.engineering x)⟩ :: (List.range' 1 count).map fun i : Nat => ⟨x + i * minor, none⟩

/-- The marks of the first `k` rounds. -/
def linearMarks (A : Arithmetic K) (f major minorticks : K) (k : Nat) : List (Mark K) :=
  (List.range k).flatMap fun j =>
    majorMarks A (major / (minorticks + 1)) ⌊minorticks⌋₊ (f + j * major)

/-- The number of major ticks. -/
def tickCount (f t major : K) : Nat := if f ≤ t then ⌊(t - f) / major⌋₊ + 1 else 0

theorem linearMarks_succ (A : Arithmetic K) (f major minorticks : K) (k : Nat) :
    linearMarks A f major minorticks (k + 1) = linearMarks A f major minorticks k ++
      majorMarks A (major / (minorticks + 1)) ⌊minorticks⌋₊ (f + k * major) := by
  simp [linearMarks, List.range_succ]

variable [IsStrictOrderedRing K] {A : Arithmetic K} {v : TclValue K}
  {major minorticks x : K} {n k : Nat}

theorem lt_tickCount (hmajor : 0 < major) : k < tickCount f t major ↔ f + k * major ≤ t := by
  unfold tickCount
  split
  · next hft =>
    rw [Nat.lt_succ_iff, Nat.le_floor_iff (div_nonneg (sub_nonneg.mpr hft) hmajor.le),
      le_div_iff₀ hmajor, le_sub_iff_add_le, add_comm]
  · next hft =>
    have hnonneg : 0 ≤ (k : K) * major := mul_nonneg (Nat.cast_nonneg k) hmajor.le
    refine iff_of_false (Nat.not_lt_zero k) fun h => hft ?_
    linarith

theorem Linear.height (h : Linear s f t) (A : Arithmetic K)
    (hv : v.number = some x) : computeHeight A v s = (.ok (.finite (linearHeight s f t x)), s) := by
  rw [computeHeight_linear A h.log]
  exact computeLinearHeight_returns h.from_number h.to_number hv fun hlow hhigh =>
    h.range (hlow.trans hhigh)

/-- A round of the loop over the major ticks. -/
def linearRound (A : Arithmetic K) (first last : TclValue K) (major minorticks : K)
    (minor : Extended K) (majorRight minorRight : K) :
    TclValue K × Nat → Method K ((TclValue K × Nat) ⊕ Unit) := fun (m, majorIndex) =>
  if m.lessEqual last then do
    let x ← operand m
    let height ← computeHeight A m
    createTick (.text height (A.engineering x))
    createTick (.line majorRight height)
    drawMinorTicks A minorticks minor minorRight x
    let firstX ← operand first
    pure (.inl (A.value (firstX + (majorIndex + 1 : Nat) * major), majorIndex + 1))
  else pure (.inr ())

/-- Without minor ticks their interval does not matter. -/
theorem linearRound_congr (A : Arithmetic K) (first last : TclValue K) (major : K)
    (hnone : ⌊minorticks⌋₊ = 0) (minor minor' : Extended K) (majorRight minorRight : K) :
    linearRound A first last major minorticks minor majorRight minorRight =
      linearRound A first last major minorticks minor' majorRight minorRight := by
  funext ⟨m, majorIndex⟩
  simp only [linearRound, drawMinorTicks, hnone]
  rfl

theorem drawLinearTicks_apply (A : Arithmetic K) (n : Nat)
    (hmajor : s.majorticks.number = some major)
    (hminorticks : s.minorticks.number = some minorticks)
    (hdivide : minorticks + 1 ≠ 0 ∨ major ≠ 0) :
    drawLinearTicks A n s =
      Script.loop (linearRound A s.optFrom s.optTo major minorticks
        (.finite (major / (minorticks + 1))) s.majorRight s.minorRight) n (s.optFrom, 0)
        s.measured := by
  obtain ⟨minor, hminor⟩ :=
    Option.ne_none_iff_exists'.mp (Extended.quotient_ne_none_iff.mpr hdivide)
  have hround : linearRound A s.optFrom s.optTo major minorticks minor s.majorRight s.minorRight =
      linearRound A s.optFrom s.optTo major minorticks (.finite (major / (minorticks + 1)))
        s.majorRight s.minorRight := by
    by_cases hne : minorticks + 1 = 0
    · refine linearRound_congr A _ _ major (Nat.floor_eq_zero.mpr ?_) _ _ _ _
      linarith
    · rw [Extended.quotient_of_ne hne] at hminor
      rw [← Option.some.inj hminor]
  rw [← hround]
  simp only [drawLinearTicks, bind_apply, reads_apply, operand_number hmajor,
    operand_number hminorticks, divide, hminor, pure_apply, getMajorRight_apply,
    getMinorRight_measured]
  rfl

theorem drawMinorTicks_returns (h : Linear s f t) (A : Arithmetic K)
    (minorticks minor minorRight x : K) :
    drawMinorTicks A minorticks (.finite minor) minorRight x s =
      (.ok (), s.addTicks ((List.range' 1 ⌊minorticks⌋₊).map fun i : Nat =>
        .line minorRight (.finite (linearHeight s f t (x + i * minor))))) := by
  refine forEach_creates (fun i items => ?_) _
  rw [bind_ok ((h.addTicks items).height A rfl), createTick_apply, addTicks_append]
  rfl

/-- A round draws a major tick and the minor ones after it. -/
theorem linearRound_draws (h : Linear s f t) (A : Arithmetic K) (hv : v.number = some x)
    (hx : x ≤ t) (major minorticks minor : K) :
    linearRound A s.optFrom s.optTo major minorticks (.finite minor) s.majorRight s.minorRight
        (v, k) s =
      (.ok (.inl (A.value (f + (k + 1 : Nat) * major), k + 1)),
        s.addTicks ((majorMarks A minor ⌊minorticks⌋₊ x).flatMap
          (s.markItems (linearHeight s f t)))) := by
  have hless : v.lessEqual s.optTo = true := by
    simp [TclValue.lessEqual_numbers hv h.to_number, hx]
  have hminors := drawMinorTicks_returns ((h.addTicks
    [.text (.finite (linearHeight s f t x)) (A.engineering x)]).addTicks
      [.line s.majorRight (.finite (linearHeight s f t x))]) A minorticks minor s.minorRight x
  rw [linearRound, if_pos hless, bind_ok (operand_number hv s), bind_ok (h.height A hv),
    bind_ok (createTick_apply _ _), bind_ok (createTick_apply _ _), bind_ok hminors,
    bind_ok (operand_number h.from_number _)]
  simp [addTicks_append, majorMarks, markItems, List.flatMap_map, ← List.map_eq_flatMap]

/-- Round `k`, after the rounds before it. -/
theorem linearRound_drawn (h : Linear s f t) (A : Arithmetic K) (minorticks : K)
    (hv : v.number = some (f + k * major)) (hx : f + k * major ≤ t) :
    linearRound A s.optFrom s.optTo major minorticks (.finite (major / (minorticks + 1)))
        s.majorRight s.minorRight (v, k)
        (s.drawn (linearHeight s f t) (linearMarks A f major minorticks k)) =
      (.ok (.inl (A.value (f + (k + 1 : Nat) * major), k + 1)),
        s.drawn (linearHeight s f t) (linearMarks A f major minorticks (k + 1))) := by
  have hround := linearRound_draws (k := k)
    (h.drawn (linearHeight s f t) (linearMarks A f major minorticks k)) A hv hx major minorticks
    (major / (minorticks + 1))
  rw [linearMarks_succ, drawn_append]
  exact hround

theorem linearRound_left (h : Linear s f t) (A : Arithmetic K) (minorticks : K)
    (minor : Extended K) (hv : v.number = some x) (hx : ¬ x ≤ t) (u : Meter K) :
    linearRound A s.optFrom s.optTo major minorticks minor s.majorRight s.minorRight (v, k) u =
      (.ok (.inr ()), u) := by
  have hless : v.lessEqual s.optTo = false := by
    simp [TclValue.lessEqual_numbers hv h.to_number, not_le.mp hx]
  rw [linearRound, if_neg (by simp [hless])]
  rfl

/-- **The ticks of a linear scale**, if the interval is positive. -/
theorem drawLinearTicks_returns (h : Linear s f t) (A : Arithmetic K)
    (hmajor : s.majorticks.number = some major)
    (hminorticks : s.minorticks.number = some minorticks)
    (hdivide : minorticks + 1 ≠ 0 ∨ major ≠ 0)
    (hpos : 0 < major) (hn : tickCount f t major < n) :
    drawLinearTicks A n s =
      (.ok (), s.drawn (linearHeight s f t)
        (linearMarks A f major minorticks (tickCount f t major))) := by
  rw [drawLinearTicks_apply A n hmajor hminorticks hdivide]
  have hloop : ∃ c u, Script.loop (linearRound A s.optFrom s.optTo major minorticks
      (.finite (major / (minorticks + 1))) s.majorRight s.minorRight) n (s.optFrom, 0) s.measured =
        (.ok c, u) ∧ u = s.drawn (linearHeight s f t)
          (linearMarks A f major minorticks (tickCount f t major)) := by
    refine loop_returns
      (fun b u => b.1.number = some (f + b.2 * major) ∧ b.2 ≤ tickCount f t major ∧
        u = s.drawn (linearHeight s f t) (linearMarks A f major minorticks b.2))
      (fun _ u => u = s.drawn (linearHeight s f t)
        (linearMarks A f major minorticks (tickCount f t major)))
      (fun b => tickCount f t major - b.2) ?_ ⟨by simp [h.from_number], Nat.zero_le _, ?_⟩
      (by simpa using hn)
    · rintro ⟨v, k⟩ u ⟨hv, hk, rfl⟩
      by_cases hx : f + k * major ≤ t
      · have hless : k < tickCount f t major := (lt_tickCount hpos).mpr hx
        refine .inr ⟨_, _, linearRound_drawn h A minorticks hv hx, ⟨rfl, hless, rfl⟩, ?_⟩
        show tickCount f t major - (k + 1) < tickCount f t major - k
        omega
      · have hend : ¬ k < tickCount f t major := fun hless => hx ((lt_tickCount hpos).mp hless)
        have hcount : k = tickCount f t major := Nat.le_antisymm hk (Nat.le_of_not_lt hend)
        exact .inl ⟨(), _, linearRound_left h A minorticks _ hv hx _, by rw [hcount]⟩
    · exact (drawn_nil s _).symm
  obtain ⟨⟨⟩, u, hrun, rfl⟩ := hloop
  exact hrun

/-- Where the loop is left, all ticks up to `t` have been counted. -/
theorem eq_tickCount (hbefore : ∀ j : Nat, j < k → f + j * major ≤ t)
    (hleft : ¬ f + k * major ≤ t) : (f ≤ t → 0 < major) ∧ k = tickCount f t major := by
  have hpos : f ≤ t → 0 < major := by
    intro hft
    by_contra hneg
    have hnonpos : (k : K) * major ≤ 0 :=
      mul_nonpos_of_nonneg_of_nonpos (Nat.cast_nonneg k) (not_lt.mp hneg)
    exact hleft (by linarith)
  refine ⟨hpos, ?_⟩
  by_cases hft : f ≤ t
  · refine Nat.le_antisymm (not_lt.mp fun hless => ?_) (not_lt.mp fun hless => ?_)
    · exact lt_irrefl _ ((lt_tickCount (hpos hft)).mpr (hbefore _ hless))
    · exact hleft ((lt_tickCount (hpos hft)).mp hless)
  · rw [tickCount, if_neg hft]
    by_contra hk
    exact hft (by simpa using hbefore 0 (Nat.pos_of_ne_zero hk))

/-- With any interval, no error is raised: either all ticks are drawn, or the
loop is still going on. -/
theorem drawLinearTicks_cases (h : Linear s f t) (A : Arithmetic K)
    (hmajor : s.majorticks.number = some major)
    (hminorticks : s.minorticks.number = some minorticks)
    (hdivide : minorticks + 1 ≠ 0 ∨ major ≠ 0)
    (n : Nat) :
    ((f ≤ t → 0 < major) ∧ drawLinearTicks A n s =
      (.ok (), s.drawn (linearHeight s f t)
        (linearMarks A f major minorticks (tickCount f t major)))) ∨
      (drawLinearTicks A n s).1 = .error .running := by
  rw [drawLinearTicks_apply A n hmajor hminorticks hdivide]
  have hloop : (∃ c u, Script.loop (linearRound A s.optFrom s.optTo major minorticks
      (.finite (major / (minorticks + 1))) s.majorRight s.minorRight) n (s.optFrom, 0) s.measured =
        (.ok c, u) ∧ (f ≤ t → 0 < major) ∧ u = s.drawn (linearHeight s f t)
          (linearMarks A f major minorticks (tickCount f t major))) ∨
      (Script.loop (linearRound A s.optFrom s.optTo major minorticks
        (.finite (major / (minorticks + 1))) s.majorRight s.minorRight) n
          (s.optFrom, 0) s.measured).1 =
        .error .running := by
    refine loop_cases
      (fun b u => b.1.number = some (f + b.2 * major) ∧
        (∀ j : Nat, j < b.2 → f + j * major ≤ t) ∧
        u = s.drawn (linearHeight s f t) (linearMarks A f major minorticks b.2))
      (fun _ u => (f ≤ t → 0 < major) ∧ u = s.drawn (linearHeight s f t)
        (linearMarks A f major minorticks (tickCount f t major))) ?_
      ⟨by simp [h.from_number], fun j hj => absurd hj (Nat.not_lt_zero j),
        (drawn_nil s _).symm⟩ n
    rintro ⟨v, k⟩ u ⟨hv, hbefore, rfl⟩
    by_cases hx : f + k * major ≤ t
    · refine .inr ⟨_, _, linearRound_drawn h A minorticks hv hx, rfl, fun j hj => ?_, rfl⟩
      rcases Nat.lt_succ_iff_lt_or_eq.mp hj with hless | rfl
      · exact hbefore j hless
      · exact hx
    · obtain ⟨hpos, hcount⟩ := eq_tickCount hbefore hx
      exact .inl ⟨(), _, linearRound_left h A minorticks _ hv hx _, hpos, by rw [← hcount]⟩
  rcases hloop with ⟨⟨⟩, u, hrun, hpos, rfl⟩ | hrunning
  · exact .inl ⟨hpos, hrun⟩
  · exact .inr hrunning

/-- The loop ends if the interval is positive, or there is nothing to draw. -/
theorem drawLinearTicks_ends (h : Linear s f t) (A : Arithmetic K)
    (hmajor : s.majorticks.number = some major)
    (hminorticks : s.minorticks.number = some minorticks)
    (hdivide : minorticks + 1 ≠ 0 ∨ major ≠ 0)
    (hpos : f ≤ t → 0 < major) :
    ∃ n, drawLinearTicks A n s =
      (.ok (), s.drawn (linearHeight s f t)
        (linearMarks A f major minorticks (tickCount f t major))) := by
  by_cases hft : f ≤ t
  · exact ⟨_, drawLinearTicks_returns h A hmajor hminorticks hdivide (hpos hft)
      (Nat.lt_succ_self _)⟩
  · refine ⟨1, ?_⟩
    rw [drawLinearTicks_apply A 1 hmajor hminorticks hdivide, tickCount, if_neg hft]
    refine (bind_ok (linearRound_left h A minorticks _ h.from_number hft _)).trans ?_
    exact congrArg (Prod.mk _) (drawn_nil s _).symm

/-- The interval of the ticks is computed in any case. -/
theorem drawLinearTicks_needs (A : Arithmetic K) (n : Nat)
    (h : ¬ ∃ major minorticks, s.majorticks.number = some major ∧
      s.minorticks.number = some minorticks ∧ (minorticks + 1 ≠ 0 ∨ major ≠ 0)) :
    ∃ e, drawLinearTicks A n s = (.error (.raised e), s) := by
  cases hmajor : s.majorticks.number with
  | none => exact ⟨.notNumeric s.majorticks.text, by
      simp [drawLinearTicks, bind_apply, operand_none hmajor]⟩
  | some major =>
    cases hminor : s.minorticks.number with
    | none => exact ⟨.notNumeric s.minorticks.text, by
        simp [drawLinearTicks, bind_apply, operand_number hmajor, operand_none hminor]⟩
    | some minorticks =>
      obtain ⟨hzero, hzero'⟩ : minorticks + 1 = 0 ∧ major = 0 := by
        by_contra hne
        exact h ⟨major, minorticks, hmajor, hminor, not_and_or.mp hne⟩
      exact ⟨.domainError, by
        simp [drawLinearTicks, bind_apply, operand_number hmajor, operand_number hminor, hzero,
          hzero', divide_zero_zero]⟩

/-- With a range of zero, the first tick raises an error. -/
theorem drawLinearTicks_raises (A : Arithmetic K) (hlog : truth s.log.text = some false)
    (hfrom : s.optFrom.number = some f) (hto : s.optTo.number = some t)
    (hmajor : s.majorticks.number = some major)
    (hminorticks : s.minorticks.number = some minorticks)
    (hdivide : minorticks + 1 ≠ 0 ∨ major ≠ 0)
    (hft : f ≤ t) (hrange : s.valueRange = 0) (n : Nat) :
    drawLinearTicks A (n + 1) s = (.error (.raised .domainError), s.measured) := by
  rw [drawLinearTicks_apply A _ hmajor hminorticks hdivide]
  have hless : s.optFrom.lessEqual s.optTo = true := by
    simp [TclValue.lessEqual_numbers hfrom hto, hft]
  have hheight : computeHeight A s.optFrom s.measured =
      (.error (.raised .domainError), s.measured) :=
    (computeHeight_linear (s := s.measured) A hlog _).trans
      (computeLinearHeight_raises hfrom hto hfrom hft hrange)
  refine bind_error ?_
  rw [linearRound, if_pos hless, bind_ok (operand_number hfrom _)]
  exact bind_error hheight

end LinearScale

/-! ## §3 The logarithmic scale -/

variable [LinearOrder K]

/-- What is drawn for these decades, the first of them at height `pos`. -/
def decadeItems (A : Arithmetic K) (interval : Extended K) (majorRight minorRight : K) :
    List (TclValue K) → Extended K → List (Item K)
  | [], _ => []
  | decade :: rest, pos =>
    [.text pos decade.text, .line majorRight pos] ++
      ([2, 3, 4, 5, 6, 7, 8, 9].map fun mant : Nat =>
        .line minorRight (pos.plus (interval.times (A.log10 mant)))) ++
      decadeItems A interval majorRight minorRight rest (pos.plus interval)

theorem drawDecades_apply (A : Arithmetic K) (interval : Extended K) (majorRight minorRight : K)
    (l : List (TclValue K)) (pos : Extended K) (s : Meter K) :
    drawDecades A interval majorRight minorRight l pos s =
      (.ok (), s.addTicks (decadeItems A interval majorRight minorRight l pos)) := by
  induction l generalizing pos s with
  | nil => simp [drawDecades, decadeItems, addTicks_nil]
  | cons decade rest ih =>
    have hmantissas (u : Meter K) : drawMantissas A interval minorRight pos u =
        (.ok (), u.addTicks ([2, 3, 4, 5, 6, 7, 8, 9].map fun mant : Nat =>
          .line minorRight (pos.plus (interval.times (A.log10 mant))))) :=
      forEach_creates (fun mant items => by rw [createTick_apply, addTicks_append]) _
    rw [drawDecades, bind_ok (createTick_apply _ _), bind_ok (createTick_apply _ _),
      bind_ok (hmantissas _), ih]
    simp [addTicks_append, decadeItems]

variable [FloorRing K] {s : Meter K} {f t : K}

/-- The distance of the decades. -/
def decadeInterval (A : Arithmetic K) (s : Meter K) (f t : K) : K :=
  (s.topY - s.bottomY) / ((decades A f t).length - 1)

theorem length_decades_cast (A : Arithmetic K) (f t : K) :
    ((decades A f t).length - 1 : K) = ((lastDecade A f t - firstDecade A f : Int) : K) := by
  have hle : firstDecade A f ≤ lastDecade A f t := le_max_left _ _
  have hcast : ((lastDecade A f t - firstDecade A f).toNat : Int) =
      lastDecade A f t - firstDecade A f := Int.toNat_of_nonneg (by omega)
  rw [length_decades, Nat.cast_add_one, add_sub_cancel_right, ← Int.cast_natCast, hcast]

variable [IsStrictOrderedRing K]

/-- The ticks of a logarithmic scale, wherever they are. -/
theorem drawLogTicks_apply (A : Arithmetic K) (hfrom : s.optFrom.number = some f)
    (hto : s.optTo.number = some t) (hf : 0 < f) (ht : 0 < t) :
    drawLogTicks A s =
      match Extended.quotient (s.topY - s.bottomY) ((decades A f t).length - 1 : K) with
      | some interval => (.ok (), (withDecades A f t s).measured.addTicks
          (decadeItems A interval s.majorRight s.minorRight (decades A f t) (.finite s.bottomY)))
      | none => (.error (.raised .domainError), (withDecades A f t s).measured) := by
  rw [drawLogTicks, bind_ok (computeDecades_returns hfrom hto hf ht),
    bind_ok (getMajorRight_apply _), bind_ok (getMinorRight_measured _), bind_ok (reads_apply _ _)]
  have hinterval := divide_eq (s.topY - s.bottomY) ((decades A f t).length - 1 : K)
    (withDecades A f t s).measured
  cases hquotient : Extended.quotient (s.topY - s.bottomY) ((decades A f t).length - 1 : K) with
  | none =>
    rw [hquotient] at hinterval
    exact bind_error hinterval
  | some interval =>
    rw [hquotient] at hinterval
    refine (bind_ok hinterval).trans ((bind_ok (reads_apply _ _)).trans ?_)
    exact drawDecades_apply A _ _ _ _ _ _

/-- **The ticks of a logarithmic scale** of at least two decades. -/
theorem drawLogTicks_returns (A : Arithmetic K) (hfrom : s.optFrom.number = some f)
    (hto : s.optTo.number = some t) (hf : 0 < f) (ht : 0 < t)
    (hless : firstDecade A f < lastDecade A f t) :
    drawLogTicks A s = (.ok (), (withDecades A f t s).measured.addTicks
      (decadeItems A (.finite (decadeInterval A s f t)) s.majorRight s.minorRight (decades A f t)
        (.finite s.bottomY))) := by
  have hne : ((decades A f t).length - 1 : K) ≠ 0 := by
    rw [length_decades_cast]
    exact_mod_cast (by omega : lastDecade A f t - firstDecade A f ≠ 0)
  rw [drawLogTicks_apply A hfrom hto hf ht, Extended.quotient_of_ne hne]
  rfl

/-- The loops over the decades end, also if the ticks are infinitely far away. -/
theorem drawLogTicks_ends (A : Arithmetic K) (hfrom : s.optFrom.number = some f)
    (hto : s.optTo.number = some t) (hf : 0 < f) (ht : 0 < t) :
    ∃ u, drawLogTicks A s = (.ok (), u) ∨ ∃ e, drawLogTicks A s = (.error (.raised e), u) := by
  rw [drawLogTicks_apply A hfrom hto hf ht]
  split
  · exact ⟨_, .inl rfl⟩
  · exact ⟨_, .inr ⟨_, rfl⟩⟩

/-! ## §4 Both scales -/

theorem drawTicks_linear (A : Arithmetic K) (hlog : truth s.log.text = some false) (n : Nat) :
    drawTicks A n s = drawLinearTicks A n s := by
  simp [drawTicks, condition, bind_apply, hlog]

theorem drawTicks_logarithmic (A : Arithmetic K) (hlog : truth s.log.text = some true) (n : Nat) :
    drawTicks A n s = drawLogTicks A s := by
  simp [drawTicks, condition, bind_apply, hlog]

end Meter

end EpicsTcl.Widget
