/-
EpicsTcl.Widget.RedrawTheorems — what drawing and configuring change.

An effect that allows every variable a command sets is an effect of the command
(`Silent` for the needle, `Drawing` for the ticks). Drawing and moving the
needle are quiet: they leave the settings of the meter as they are, and on a
linear scale also `valueRange`. The handlers of `-from`, `-to` and `-log` set
their option, erase the ticks and `redraw`; what they do before that is written
out here, with every error.

§1 are effects, and quiet commands among them, §2 the handlers.
-/
import EpicsTcl.Widget.DrawTheorems

namespace EpicsTcl.Widget.Meter

open EpicsTcl.Library EpicsTcl.Library.Script

variable {K : Type}

/-! ## §1 Effects -/

/-- The options, the frame and the stage of the meter, without what is drawn
and what is remembered. -/
def settings [Zero K] (s : Meter K) : Meter K :=
  { s with
    needle := .finite 0, valueRange := 0, majorlength := 0, tickIds := [], canvas := [], nextId := 0
    lastValue := ⟨"", none⟩, decadeLow := ⟨"", none⟩, decadeHigh := ⟨"", none⟩
    globals := fun _ => none, variableName := "" }

theorem log_of_settings [Zero K] {s t : Meter K} (h : settings t = settings s) :
    t.log = s.log := by
  have hlog := congrArg Meter.log h
  exact hlog

theorem frame_of_settings [Zero K] {s t : Meter K} (h : settings t = settings s) :
    t.topY = s.topY ∧ t.bottomY = s.bottomY := by
  have htop := congrArg Meter.topY h
  have hbottom := congrArg Meter.bottomY h
  exact ⟨htop, hbottom⟩

theorem ends_of_settings [Zero K] {s t : Meter K} (h : settings t = settings s) :
    t.optFrom = s.optFrom ∧ t.optTo = s.optTo := by
  have hfrom := congrArg Meter.optFrom h
  have hto := congrArg Meter.optTo h
  exact ⟨hfrom, hto⟩

theorem ticks_of_settings [Zero K] {s t : Meter K} (h : settings t = settings s) :
    t.majorticks = s.majorticks ∧ t.minorticks = s.minorticks := by
  have hmajor := congrArg Meter.majorticks h
  have hminor := congrArg Meter.minorticks h
  exact ⟨hmajor, hminor⟩

/-- The settings stay, and the range of a linear scale. -/
def quiet [Zero K] : Effect (Meter K) where
  rel s t := settings t = settings s ∧ (truth s.log.text = some false → t.valueRange = s.valueRange)
  refl _ := ⟨rfl, fun _ => rfl⟩
  trans {s r _} h h' := by
    refine ⟨h'.1.trans h.1, fun hlog => (h'.2 ?_).trans (h.2 hlog)⟩
    rwa [log_of_settings h.1]

section Commands

/-! What a command may change follows from the variables that it sets. -/

/-- An effect that allows what is remembered on the way to a height, and the
needle. -/
structure Silent (E : Effect (Meter K)) : Prop where
  decades : ∀ s low high, E.rel s { s with decadeLow := low, decadeHigh := high }
  last : ∀ s v, E.rel s { s with lastValue := v }
  needle : ∀ s y, E.rel s { s with needle := y }
  globals : ∀ s values, E.rel s { s with globals := values }

/-- An effect that also allows ticks. -/
structure Drawing (E : Effect (Meter K)) : Prop extends Silent E where
  length : ∀ s x, E.rel s { s with majorlength := x }
  create : ∀ item, Within E (createTick item)

variable {E : Effect (Meter K)}

theorem within_operand (v : TclValue K) : Within E (operand v) := by
  unfold operand
  split
  · exact Within.pure _
  · exact Within.raise _

theorem within_condition (v : TclValue K) : Within E (condition v) := by
  unfold condition
  split
  · exact Within.pure _
  · exact Within.raise _

variable [Field K]

theorem Drawing.getMajorRight (h : Drawing E) : Within E (getMajorRight : Method K K) :=
  Within.bind (Within.modify fun s => h.length s _) fun _ => Within.reads _

variable [LinearOrder K]

theorem Drawing.drawDecades (h : Drawing E) (A : Arithmetic K) (interval : Extended K)
    (majorRight minorRight : K) (l : List (TclValue K)) (pos : Extended K) :
    Within E (drawDecades A interval majorRight minorRight l pos) := by
  induction l generalizing pos with
  | nil => exact Within.pure _
  | cons decade rest ih =>
    refine Within.bind (h.create _) fun _ => Within.bind (h.create _) fun _ => ?_
    exact Within.bind (Within.forEach fun _ _ => h.create _) fun _ => ih _

theorem within_logarithm (A : Arithmetic K) (v : TclValue K) : Within E (logarithm A v) :=
  Within.bind (within_operand v) fun x => by
    split
    · exact Within.pure _
    · exact Within.raise _

theorem within_divide (x y : K) : Within E (divide x y) := by
  unfold divide
  split
  · exact Within.pure _
  · exact Within.raise _

theorem within_computeLinearHeight (v : TclValue K) : Within E (computeLinearHeight v) := by
  refine Within.bind (Within.reads _) fun high => Within.bind (Within.reads _) fun low => ?_
  split
  · exact Within.reads _
  · split
    · exact Within.reads _
    · refine Within.bind (Within.reads _) fun _ => Within.bind (Within.reads _) fun _ => ?_
      refine Within.bind (within_operand _) fun _ => Within.bind (within_operand _) fun _ => ?_
      exact Within.bind (within_divide _ _) fun _ => Within.reads _

variable [FloorRing K] [IsStrictOrderedRing K] (A : Arithmetic K)

theorem Silent.computeDecades (h : Silent E) : Within E (computeDecades A) := by
  refine Within.bind (Within.reads _) fun low => Within.bind (Within.reads _) fun high => ?_
  split
  · exact Within.raise _
  · split
    · exact Within.raise _
    · refine Within.bind (within_logarithm A _) fun _ =>
        Within.bind (within_logarithm A _) fun _ => ?_
      exact Within.bind (Within.modify fun s => h.decades s _ _) fun _ => Within.pure _

/-- The logarithmic height also sets `valueRange`. -/
theorem Silent.computeLogHeight (h : Silent E)
    (hrange : ∀ s x, E.rel s { s with valueRange := x }) (v : TclValue K) :
    Within E (computeLogHeight A v) := by
  refine Within.bind (h.computeDecades A) fun _ => ?_
  refine Within.bind (Within.reads _) fun _ => Within.bind (Within.reads _) fun _ => ?_
  refine Within.bind (within_logarithm A _) fun _ => Within.bind (within_logarithm A _) fun _ => ?_
  refine Within.bind (Within.modify fun s => hrange s _) fun _ => ?_
  refine Within.bind (within_logarithm A _) fun _ => ?_
  refine Within.bind (Within.reads _) fun _ => Within.bind (Within.reads _) fun _ => ?_
  exact Within.bind (within_divide _ _) fun _ => Within.reads _

theorem Silent.computeHeight (h : Silent E)
    (hrange : ∀ s x, E.rel s { s with valueRange := x }) (v : TclValue K) :
    Within E (computeHeight A v) := by
  refine Within.bind (Within.reads _) fun log => Within.bind (within_condition log) fun b => ?_
  split
  · exact h.computeLogHeight A hrange v
  · exact within_computeLinearHeight v

/-! The heights themselves are left open from here on. -/

variable {A} (hheight : ∀ v, Within E (Meter.computeHeight A v))
include hheight

theorem Silent.needleTo (h : Silent E) (v : TclValue K) : Within E (needleTo A v) := by
  refine Within.bind (Within.modify fun s => h.last s _) fun _ => ?_
  exact Within.bind (hheight v) fun _ => Within.modify fun s => h.needle s _

theorem Silent.variableChanged (h : Silent E) : Within E (variableChanged A) := by
  refine Within.bind (Within.reads _) fun _ => Within.bind (Within.reads _) fun _ => ?_
  split
  · exact Within.raise _
  · exact h.needleTo hheight _

theorem Silent.setValue (h : Silent E) (v : TclValue K) : Within E (setValue A v) := by
  refine Within.bind (Within.reads _) fun _ => ?_
  split
  · exact Within.bind (Within.modify fun s => h.globals s _) fun _ => h.variableChanged hheight
  · exact h.needleTo hheight v

omit hheight in
theorem Drawing.drawLogTicks (h : Drawing E) : Within E (drawLogTicks A) := by
  refine Within.bind (h.computeDecades A) fun _ => ?_
  refine Within.bind h.getMajorRight fun _ => Within.bind (Within.reads _) fun _ => ?_
  refine Within.bind (Within.reads _) fun _ => Within.bind (within_divide _ _) fun _ => ?_
  exact Within.bind (Within.reads _) fun _ => h.drawDecades A _ _ _ _ _

theorem Drawing.drawLinearTicks (h : Drawing E) (n : Nat) : Within E (drawLinearTicks A n) := by
  refine Within.bind (Within.reads _) fun _ => Within.bind (Within.reads _) fun _ => ?_
  refine Within.bind (Within.reads _) fun _ => Within.bind (Within.reads _) fun _ => ?_
  refine Within.bind (within_operand _) fun _ => Within.bind (within_operand _) fun _ => ?_
  refine Within.bind (within_divide _ _) fun _ => Within.bind h.getMajorRight fun _ => ?_
  refine Within.bind (Within.reads _) fun _ => Within.loop (fun b => ?_) n _
  obtain ⟨m, majorIndex⟩ := b
  simp only
  split
  · refine Within.bind (within_operand _) fun _ => Within.bind (hheight _) fun _ => ?_
    refine Within.bind (h.create _) fun _ => Within.bind (h.create _) fun _ => ?_
    refine Within.bind (Within.forEach fun _ _ => ?_) fun _ => ?_
    · exact Within.bind (hheight _) fun _ => h.create _
    · exact Within.bind (within_operand _) fun _ => Within.pure _
  · exact Within.pure _

theorem Drawing.drawTicks (h : Drawing E) (n : Nat) : Within E (drawTicks A n) := by
  refine Within.bind (Within.reads _) fun log => Within.bind (within_condition log) fun b => ?_
  split
  · exact h.drawLogTicks
  · exact h.drawLinearTicks hheight n

end Commands

section Quiet

theorem drawing_quiet [Zero K] : Drawing (quiet : Effect (Meter K)) where
  decades _ _ _ := ⟨rfl, fun _ => rfl⟩
  last _ _ := ⟨rfl, fun _ => rfl⟩
  needle _ _ := ⟨rfl, fun _ => rfl⟩
  globals _ _ := ⟨rfl, fun _ => rfl⟩
  length _ _ := ⟨rfl, fun _ => rfl⟩
  create _ := Within.modify fun _ => ⟨rfl, fun _ => rfl⟩

variable [Field K] [LinearOrder K] [FloorRing K] [IsStrictOrderedRing K] (A : Arithmetic K)

theorem quiet_computeHeight (v : TclValue K) : Within quiet (computeHeight A v) := by
  intro s
  cases hlog : truth s.log.text with
  | none =>
    have hraises : (computeHeight A v s).2 = s := by
      simp [computeHeight, condition, bind_apply, hlog, error]
    rw [hraises]
    exact quiet.refl s
  | some b =>
    cases b with
    | false =>
      rw [computeHeight_linear A hlog]
      exact within_computeLinearHeight v s
    | true =>
      have hsilent : Silent (Effect.same settings : Effect (Meter K)) :=
        ⟨fun _ _ _ => rfl, fun _ _ => rfl, fun _ _ => rfl, fun _ _ => rfl⟩
      rw [computeHeight_log A hlog]
      refine ⟨hsilent.computeLogHeight A (fun _ _ => rfl) v s, fun hlinear => ?_⟩
      rw [hlog] at hlinear
      cases hlinear

theorem quiet_needleTo (v : TclValue K) : Within quiet (needleTo A v) :=
  drawing_quiet.needleTo (quiet_computeHeight A) v

theorem quiet_variableChanged : Within quiet (variableChanged A) :=
  drawing_quiet.variableChanged (quiet_computeHeight A)

theorem quiet_setValue (v : TclValue K) : Within quiet (setValue A v) :=
  drawing_quiet.setValue (quiet_computeHeight A) v

theorem quiet_drawTicks (n : Nat) : Within quiet (drawTicks A n) :=
  drawing_quiet.drawTicks (quiet_computeHeight A) n

end Quiet

/-! ## §2 The handlers -/

/-- The meter without the items of `tickIds`. -/
def erased (s : Meter K) : Meter K :=
  { s with canvas := s.tickIds.foldl (fun canvas id => canvas.filter (·.1 != id)) s.canvas }

theorem eraseTicks_apply (s : Meter K) : eraseTicks s = (.ok (), s.erased) := by
  have hall : ∀ (ids : List Nat) (s : Meter K), (Script.forEach ids fun id => .modify fun s =>
      { s with canvas := s.canvas.filter (·.1 != id) } : Method K Unit) s =
        (.ok (), { s with
          canvas := ids.foldl (fun canvas id => canvas.filter (·.1 != id)) s.canvas }) := by
    intro ids
    induction ids with
    | nil => intro s; rfl
    | cons id ids ih => intro s; exact ih _
  exact hall s.tickIds s

/-- The first commands of a handler, once there is a canvas. -/
theorem set_and_erase {set : Meter K → Meter K} {s : Meter K} {rest : Method K Unit}
    (h : (set s).hasCanvas = true) :
    ((.modify set : Method K Unit) >>= fun _ => .reads (·.hasCanvas) >>= fun hasCanvas =>
      if hasCanvas = true then eraseTicks >>= fun _ => rest else pure ()) s =
      rest (set s).erased := by
  refine (bind_ok (modify_apply _ _)).trans ((bind_ok (reads_apply _ _)).trans ?_)
  rw [if_pos h]
  exact bind_ok (eraseTicks_apply _)

section Handlers

variable [Field K] [LinearOrder K] [FloorRing K] [IsStrictOrderedRing K] {A : Arithmetic K}
  {s : Meter K} {v : TclValue K} {f t : K} {n : Nat}

/-- The last commands of a handler. -/
def redraw (A : Arithmetic K) (n : Nat) : Method K Unit := do
  drawTicks A n
  let lastValue ← .reads (·.lastValue)
  needleTo A lastValue

theorem quiet_redraw (A : Arithmetic K) (n : Nat) : Within quiet (redraw A n) :=
  Within.bind (quiet_drawTicks A n) fun _ => Within.bind (Within.reads _) fun _ =>
    quiet_needleTo A _

theorem needleTo_returns {u : Meter K} {y : Extended K}
    (h : computeHeight A v { s with lastValue := v } = (.ok y, u)) :
    needleTo A v s = (.ok (), { u with needle := y }) :=
  (bind_ok (modify_apply _ _)).trans (bind_ok h)

/-- A linear scale with a positive interval is redrawn. -/
theorem redraw_linear {major minorticks x : K} (h : Linear s f t) (A : Arithmetic K)
    (hmajor : s.majorticks.number = some major)
    (hminorticks : s.minorticks.number = some minorticks)
    (hdivide : minorticks + 1 ≠ 0 ∨ major ≠ 0)
    (hpos : 0 < major) (hn : tickCount f t major < n) (hlast : s.lastValue.number = some x) :
    ∃ u, redraw A n s = (.ok (), u) := by
  have hdraw := (drawTicks_linear A h.log n).trans
    (drawLinearTicks_returns h A hmajor hminorticks hdivide hpos hn)
  have hheight := ((h.drawn (linearHeight s f t)
    (linearMarks A f major minorticks (tickCount f t major))).remember s.lastValue).height A hlast
  exact ⟨_, (bind_ok hdraw).trans ((bind_ok (reads_apply _ _)).trans (needleTo_returns hheight))⟩

/-- `configure -from` with numbers. -/
theorem configureFrom_numbers (A : Arithmetic K) (n : Nat) (h : s.hasCanvas = true)
    (hto : s.optTo.number = some t) (hv : v.number = some f) :
    configureFrom A n v s =
      redraw A n { s.erased with optFrom := v, valueRange := t - f } := by
  refine (set_and_erase h).trans ((bind_ok (reads_apply _ _)).trans ?_)
  refine (bind_ok (operand_number hto _)).trans ((bind_ok (operand_number hv _)).trans ?_)
  exact bind_ok (modify_apply _ _)

/-- With a text, the option has been set and the ticks are gone. -/
theorem configureFrom_text (A : Arithmetic K) (n : Nat) (h : s.hasCanvas = true)
    (htext : s.optTo.number = none ∨ v.number = none) :
    ∃ e, configureFrom A n v s = (.error (.raised e), { s.erased with optFrom := v }) := by
  cases hto : s.optTo.number with
  | none =>
    refine ⟨.notNumeric s.optTo.text, ?_⟩
    refine (set_and_erase h).trans ((bind_ok (reads_apply _ _)).trans ?_)
    exact bind_error (operand_none hto _)
  | some t =>
    have hv : v.number = none := htext.resolve_left (by simp [hto])
    refine ⟨.notNumeric v.text, ?_⟩
    refine (set_and_erase h).trans ((bind_ok (reads_apply _ _)).trans ?_)
    exact (bind_ok (operand_number hto _)).trans (bind_error (operand_none hv _))

/-- `configure -to` with numbers. -/
theorem configureTo_numbers (A : Arithmetic K) (n : Nat) (h : s.hasCanvas = true)
    (hfrom : s.optFrom.number = some f) (hv : v.number = some t) :
    configureTo A n v s = redraw A n { s.erased with optTo := v, valueRange := t - f } := by
  refine (set_and_erase h).trans ((bind_ok (operand_number hv _)).trans ?_)
  refine (bind_ok (reads_apply _ _)).trans ((bind_ok (operand_number hfrom _)).trans ?_)
  exact bind_ok (modify_apply _ _)

theorem configureTo_text (A : Arithmetic K) (n : Nat) (h : s.hasCanvas = true)
    (htext : s.optFrom.number = none ∨ v.number = none) :
    ∃ e, configureTo A n v s = (.error (.raised e), { s.erased with optTo := v }) := by
  cases hv : v.number with
  | none => exact ⟨_, (set_and_erase h).trans (bind_error (operand_none hv _))⟩
  | some t =>
    have hfrom : s.optFrom.number = none := htext.resolve_right (by simp [hv])
    refine ⟨.notNumeric s.optFrom.text, ?_⟩
    refine (set_and_erase h).trans ((bind_ok (operand_number hv _)).trans ?_)
    exact (bind_ok (reads_apply _ _)).trans (bind_error (operand_none hfrom _))

/-- `configure -log` with the value that it has. -/
theorem configureLog_same (A : Arithmetic K) (n : Nat) (h : v.equal s.log = true) :
    configureLog A n v s = (.ok (), s) := by
  simp [configureLog, bind_apply, h]

/-- A value that is not boolean is rejected at once. -/
theorem configureLog_rejected (A : Arithmetic K) (n : Nat) (h : v.equal s.log = false)
    (hboolean : isBoolean v.text = false) :
    configureLog A n v s =
      (.error (.raised (.script "meter.tcl - value of -log flag must be a boolean")), s) := by
  simp [configureLog, bind_apply, h, hboolean, error]

/-- The commands of `configure -log`, when the value is new and boolean. -/
theorem configureLog_apply (A : Arithmetic K) (n : Nat) (h : v.equal s.log = false)
    (hboolean : isBoolean v.text = true) (hready : s.constructing = false) :
    configureLog A n v s =
      (computeDecades A >>= fun _ => eraseTicks >>= fun _ => redraw A n : Method K Unit)
        { s with log := v } := by
  refine (bind_ok (reads_apply _ _)).trans ?_
  rw [if_neg (by simp [h]), if_neg (by simp [hboolean])]
  refine (bind_ok (modify_apply _ _)).trans ((bind_ok (reads_apply _ _)).trans ?_)
  rw [if_pos (by simp [hready])]
  rfl

/-- A new boolean value, and a range that `computeDecades` accepts. -/
theorem configureLog_accepted (A : Arithmetic K) (n : Nat) (h : v.equal s.log = false)
    (hboolean : isBoolean v.text = true) (hready : s.constructing = false)
    (hfrom : s.optFrom.number = some f) (hto : s.optTo.number = some t) (hf : 0 < f) (ht : 0 < t) :
    configureLog A n v s = redraw A n (withDecades A f t { s.erased with log := v }) := by
  refine (configureLog_apply A n h hboolean hready).trans ?_
  refine (bind_ok (computeDecades_returns (s := { s with log := v }) hfrom hto hf ht)).trans ?_
  exact bind_ok (eraseTicks_apply _)

/-- The range is checked after the option has been set. -/
theorem configureLog_raises (A : Arithmetic K) (n : Nat) (h : v.equal s.log = false)
    (hboolean : isBoolean v.text = true) (hready : s.constructing = false)
    (hrange : ∀ f t, s.optFrom.number = some f → s.optTo.number = some t → 0 < f → ¬ 0 < t) :
    ∃ e, configureLog A n v s = (.error (.raised e), { s with log := v }) := by
  rcases computeDecades_cases A { s with log := v } with
    ⟨f, t, hfrom, hto, hf, ht, -⟩ | ⟨-, e, hraises⟩
  · exact absurd ht (hrange f t hfrom hto hf)
  · exact ⟨e, (configureLog_apply A n h hboolean hready).trans (bind_error hraises)⟩

/-- `-majorticks` and `-minorticks`. -/
theorem configureTicks_apply (A : Arithmetic K) (n : Nat) {set : Meter K → Meter K}
    (h : (set s).hasCanvas = true) :
    configureTicks A n set s = drawTicks A n (set s).erased := set_and_erase h

end Handlers

end EpicsTcl.Widget.Meter
