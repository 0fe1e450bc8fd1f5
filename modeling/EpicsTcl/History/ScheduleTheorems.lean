/-
EpicsTcl.History.ScheduleTheorems — the time stamps of a pair history.

`updateData` adds to the last time the period that was in force one call
earlier, and that is also the delay it scheduled then. But the constructor
sets both the last time and the last period, and calls `updateData` without
a delay: the first stamp is one period late, and with it all others.

A `Timeline` is a history and the times its updates have computed. An update
takes place when the delay that the update before it has passed to `after`
has expired.

§1 is the statement, §2 what the methods do to the clock of the object, §3
the runs (`stamps_late`).
-/
import EpicsTcl.History.KeepTheorems

namespace EpicsTcl.History

open EpicsTcl.Library

/-! ## §1 Statement -/

/-- What happens between two events of a run: a method is called, which for
`updateData` is the timer, or `configure -period`. -/
inductive TimelineAction where
  | method (a : HistoryAction (Option (List String) × Option (List String)))
  | configure (period : Int)
  deriving DecidableEq, Repr

structure Timeline where
  history : ChannelPairHistory
  stamps : List Rat

namespace Timeline

/-- The constructor's own call of `updateData`. -/
def start (N : TclNumbers) (s : ChannelPairHistory) (xget yget : Option (List String)) :
    Timeline :=
  { history := (ChannelPairHistory.updateData N xget yget s).2, stamps := [s.stamp] }

/-- `updateData` is called when the update before it has scheduled it. The
option `-period` has no check of its own. -/
def step (N : TclNumbers) (t : Timeline) : TimelineAction → Option Timeline
  | .method (.updateData (xget, yget)) =>
    if t.history.delays.length = t.stamps.length then
      some
        { history := (ChannelPairHistory.updateData N xget yget t.history).2
          stamps := t.stamps ++ [t.history.stamp] }
    else none
  | .method a => (ChannelPairHistory.step N t.history a).map fun s => { t with history := s }
  | .configure period => some { t with history := { t.history with period := period } }

/-- The time at which an update takes place after these delays, relative to
the timebase. `after` takes a negative delay as 0. -/
def due (seconds timebase : Int) (delays : List Int) : Rat :=
  seconds + (delays.map fun d : Int => (d.toNat : Rat)).sum / 1000 - timebase

/-- Every stamp is the time of its update. -/
def OnSchedule (seconds timebase : Int) (t : Timeline) : Prop :=
  ∀ k q, t.stamps[k]? = some q → q = due seconds timebase (t.history.delays.take k)

end Timeline

/-! ## §2 The clock of the object -/

namespace ChannelPairHistory

/-- What the stamps are computed from. -/
structure Clock where
  period : Int
  timebase : Int
  lastPeriod : Int
  lastTime : Rat
  delays : List Int

def clock (s : ChannelPairHistory) : Clock :=
  ⟨s.period, s.timebase, s.lastPeriod, s.lastTime, s.delays⟩

theorem deleteFirst_clock : Script.Within (Effect.same clock) deleteFirst :=
  .bind (.zoom _ fun _ _ => rfl) fun _ => .bind (.zoom _ fun _ _ => rfl) fun _ =>
    .zoom _ fun _ _ => rfl

theorem deleteLoop_clock (n : Nat) : Script.Within (Effect.same clock) (deleteLoop n) := by
  induction n with
  | zero => exact .pure ()
  | succ n ih => exact .bind deleteFirst_clock fun _ => ih

theorem clearfirstInt_clock (n : Int) : Script.Within (Effect.same clock) (clearfirstInt n) := by
  unfold clearfirstInt
  split
  · exact .raise _
  · exact .bind (.reads _) fun _ => deleteLoop_clock _

theorem trimLoop_clock (maxKept : Int) (passes : Nat) :
    Script.Within (Effect.same clock) (trimLoop maxKept passes) := by
  induction passes with
  | zero => exact .pure ()
  | succ passes ih =>
    refine .bind (.reads _) fun length => ?_
    split
    · exact .bind deleteFirst_clock fun _ => ih
    · exact .pure ()

theorem trim_clock : Script.Within (Effect.same clock) trim := by
  refine .bind (.reads _) fun maxKept => ?_
  split
  · exact .bind (.reads _) fun length => trimLoop_clock maxKept length
  · exact .pure ()

/-- The part of `updateData` between the stamp and the next `after`. -/
def record (N : TclNumbers) (time : Rat) (sample : Nat) :
    Option (List String) → Option (List String) → Method Unit
  | some xdata, some ydata => do
    onTime (Vector.appendNumber sample time)
    onX (Vector.append N sample xdata)
    onY (Vector.append N sample ydata)
  | _, _ => pure ()

theorem record_clock (N : TclNumbers) (time : Rat) (sample : Nat)
    (xget yget : Option (List String)) :
    Script.Within (Effect.same clock) (record N time sample xget yget) := by
  unfold record
  split
  · exact .bind (.zoom _ fun _ _ => rfl) fun _ => .bind (.zoom _ fun _ _ => rfl) fun _ =>
      .zoom _ fun _ _ => rfl
  · exact .pure ()

/-- What `updateData` does to the clock: it computes its stamp, and schedules
the next update unless an append raises. -/
theorem updateData_clock (N : TclNumbers) (xget yget : Option (List String))
    (s : ChannelPairHistory) :
    (updateData N xget yget s).2.clock = s.sampled.clock ∨
      (updateData N xget yget s).2.clock = s.sampled.scheduled.clock := by
  have hupdate : updateData N xget yget s =
      (do
        record N s.stamp s.samples xget yget
        trim
        .modify fun s => { s with delays := s.delays ++ [s.period] } : Method Unit) s.sampled := by
    cases xget with
    | none => rfl
    | some xdata =>
      cases yget with
      | none => rfl
      | some ydata =>
        simp only [record, Script.bind_assoc]
        rfl
  have hrecord := record_clock N s.stamp s.samples xget yget s.sampled
  rw [hupdate, Script.bind_apply]
  cases hrun : record N s.stamp s.samples xget yget s.sampled with
  | mk result u =>
    rw [hrun] at hrecord
    cases result with
    | error e => exact .inl hrecord
    | ok _ =>
      have htrim := trim_clock u
      simp only [Script.bind_apply]
      cases hend : trim u with
      | mk result v =>
        rw [hend] at htrim
        have hclock : v.clock = s.sampled.clock := htrim.trans hrecord
        cases result with
        | error e => exact .inl hclock
        | ok _ =>
          refine .inr ?_
          simp only [clock, Clock.mk.injEq] at hclock
          obtain ⟨hperiod, htimebase, hlastPeriod, hlastTime, hdelays⟩ := hclock
          simp [clock, scheduled, hperiod, htimebase, hlastPeriod, hlastTime, hdelays]

end ChannelPairHistory

/-! ## §3 Runs -/

namespace Timeline

/-- The delays in seconds. -/
def passed (delays : List Int) : Rat := (delays.map fun d : Int => (d : Rat)).sum / 1000

theorem passed_append (delays : List Int) (d : Int) :
    passed (delays ++ [d]) = passed delays + (d : Rat) / 1000 := by
  simp [passed, add_div]

/-- Each stamp is as long after `origin` as the delays before it, and so will be
the next one. -/
structure Late (origin : Rat) (timebase : Int) (t : Timeline) : Prop where
  base : t.history.timebase = timebase
  /-- The last update has scheduled the next one, or not. -/
  scheduled : t.stamps.length = t.history.delays.length ∨
    t.stamps.length = t.history.delays.length + 1
  next : t.history.delays.length = t.stamps.length →
    t.history.lastTime + (t.history.lastPeriod : Rat) / 1000 = origin + passed t.history.delays
  stamps : ∀ k q, t.stamps[k]? = some q →
    q = origin + passed (t.history.delays.take k) - timebase

namespace Late

variable {N : TclNumbers} {origin : Rat} {timebase : Int} {t : Timeline}

theorem congr (h : t.Late origin timebase) {s : ChannelPairHistory}
    (htimebase : s.timebase = t.history.timebase) (htime : s.lastTime = t.history.lastTime)
    (hperiod : s.lastPeriod = t.history.lastPeriod) (hdelays : s.delays = t.history.delays) :
    Late origin timebase { t with history := s } where
  base := htimebase.trans h.base
  scheduled := by simpa [hdelays] using h.scheduled
  next := by simpa [hdelays, htime, hperiod] using h.next
  stamps := by simpa [hdelays] using h.stamps

theorem same (h : t.Late origin timebase) {s : ChannelPairHistory}
    (hclock : s.clock = t.history.clock) : Late origin timebase { t with history := s } := by
  simp only [ChannelPairHistory.clock, ChannelPairHistory.Clock.mk.injEq] at hclock
  exact h.congr hclock.2.1 hclock.2.2.2.1 hclock.2.2.1 hclock.2.2.2.2

/-- One update, when it is due. -/
theorem update (h : t.Late origin timebase)
    (hdue : t.history.delays.length = t.stamps.length) (xget yget : Option (List String)) :
    Late origin timebase
      { history := (ChannelPairHistory.updateData N xget yget t.history).2
        stamps := t.stamps ++ [t.history.stamp] } := by
  have hstamp : t.history.stamp = origin + passed t.history.delays - timebase := by
    rw [ChannelPairHistory.stamp, h.next hdue, h.base]
  -- the stamps, old and new, whatever is scheduled next
  have hstamps : ∀ delays : List Int, delays.take t.stamps.length = t.history.delays →
      ∀ k q, (t.stamps ++ [t.history.stamp])[k]? = some q →
        q = origin + passed (delays.take k) - timebase := by
    intro delays htake k q hq
    have hk : k ≤ t.stamps.length := by
      have hlength := (List.getElem?_eq_some_iff.mp hq).1
      simp at hlength
      omega
    have htake : delays.take k = t.history.delays.take k := by
      rw [← htake, List.take_take, Nat.min_eq_left hk]
    rw [htake]
    rcases Nat.lt_or_eq_of_le hk with hlt | rfl
    · rw [List.getElem?_append_left hlt] at hq
      exact h.stamps k q hq
    · rw [List.getElem?_concat_length, Option.some.injEq] at hq
      rw [← hq, hstamp, ← hdue, List.take_length]
  have hclock := ChannelPairHistory.updateData_clock N xget yget t.history
  generalize (ChannelPairHistory.updateData N xget yget t.history).2 = s at hclock
  simp only [ChannelPairHistory.clock, ChannelPairHistory.sampled, ChannelPairHistory.scheduled,
    ChannelPairHistory.Clock.mk.injEq] at hclock
  rcases hclock with ⟨-, htimebase, hperiod, htime, hdelays⟩ |
    ⟨-, htimebase, hperiod, htime, hdelays⟩
  · refine ⟨htimebase.trans h.base, .inr (by simp [hdelays, hdue]), fun hnext => ?_, ?_⟩
    · simp [hdelays, hdue] at hnext
    · refine hstamps _ ?_
      simp only [hdelays]
      rw [← hdue, List.take_length]
  · refine ⟨htimebase.trans h.base, .inl (by simp [hdelays, hdue]), fun _ => ?_, ?_⟩
    · simp only [hdelays, htime, hperiod]
      rw [h.next hdue, passed_append, add_assoc]
    · refine hstamps _ ?_
      simp only [hdelays]
      rw [← hdue, List.take_left]

theorem step {a : TimelineAction} {t' : Timeline} (h : t.Late origin timebase)
    (hstep : t.step N a = some t') : t'.Late origin timebase := by
  cases a with
  | configure period =>
    cases hstep
    exact h.congr rfl rfl rfl rfl
  | method a =>
    cases a with
    | updateData seen =>
      obtain ⟨xget, yget⟩ := seen
      simp only [Timeline.step] at hstep
      split at hstep
      · next hdue =>
        cases hstep
        exact h.update hdue xget yget
      · cases hstep
    | clear =>
      cases hstep
      exact h.same (ChannelPairHistory.clearfirstInt_clock _ t.history)
    | clearfirst n =>
      cases hstep
      have hclear : Script.Within (Effect.same ChannelPairHistory.clock)
          (ChannelPairHistory.clearfirst N n) := by
        unfold ChannelPairHistory.clearfirst
        split
        · exact .raise _
        · exact ChannelPairHistory.clearfirstInt_clock _
      exact h.same (hclear t.history)
    | keep n =>
      cases hstep
      have hkeep : Script.Within (Effect.same ChannelPairHistory.clock)
          (ChannelPairHistory.keep N n) := within_setPositive fun _ _ => rfl
      exact h.same (hkeep t.history)
    | updateperiod n =>
      cases hstep
      have hset : (ChannelPairHistory.updateperiod N n t.history).2 = _ :=
        setPositive_snd N n t.history
      rw [hset]
      cases keepArgument N n with
      | none => exact h
      | some k => exact h.congr rfl rfl rfl rfl

end Late

/-- The run goes on after its first stamp. -/
theorem step_begun {N : TclNumbers} {t t' : Timeline} {a : TimelineAction}
    (h : t.stamps ≠ []) (hstep : t.step N a = some t') : t'.stamps ≠ [] := by
  cases a with
  | configure period =>
    cases hstep
    exact h
  | method a =>
    cases a with
    | updateData seen =>
      simp only [Timeline.step] at hstep
      split at hstep
      · cases hstep
        simp
      · cases hstep
    | clear | clearfirst n | keep n | updateperiod n =>
      cases hstep
      exact h

end Timeline

theorem ChannelPairHistory.construct_clock {N : TclNumbers}
    {period xchannel ychannel timebase : String} {seconds : Int} {s : ChannelPairHistory}
    (h : construct N period xchannel ychannel timebase seconds = .ok s) :
    0 < s.period ∧ s.lastPeriod = s.period ∧ s.lastTime = seconds ∧ s.delays = [] := by
  simp only [construct] at h
  repeat' split at h
  all_goals cases h
  exact ⟨not_le.mp (by assumption), rfl, rfl, rfl⟩

/-- **Pair histories are late**: in no run are the stamps the times of the
updates. As long as no delay was negative, each of them is late by the period
at construction. -/
theorem stamps_late {N : TclNumbers} {period xchannel ychannel timebase : String} {seconds : Int}
    {s₀ : ChannelPairHistory}
    (hconstruct :
      ChannelPairHistory.construct N period xchannel ychannel timebase seconds = .ok s₀)
    {xget yget : Option (List String)} {as : List TimelineAction} {t : Timeline}
    (h : Run (Timeline.step N) Always (Timeline.start N s₀ xget yget) as t) :
    ¬ t.OnSchedule seconds s₀.timebase ∧
      ((∀ d ∈ t.history.delays, 0 ≤ d) → ∀ k q, t.stamps[k]? = some q →
        q = Timeline.due seconds s₀.timebase (t.history.delays.take k) +
          (s₀.period : Rat) / 1000) := by
  obtain ⟨hpos, hperiod, htime, hdelays⟩ := ChannelPairHistory.construct_clock hconstruct
  let origin : Rat := (seconds : Rat) + (s₀.period : Rat) / 1000
  have hbefore : Timeline.Late origin s₀.timebase { history := s₀, stamps := [] } := {
    base := rfl
    scheduled := by simp [hdelays]
    next := fun _ => by simp [hdelays, hperiod, htime, origin, Timeline.passed]
    stamps := by simp }
  have hstart : (Timeline.start N s₀ xget yget).Late origin s₀.timebase :=
    hbefore.update (by simp [hdelays]) xget yget
  have hlate : t.Late origin s₀.timebase :=
    h.invariant (Timeline.Late origin s₀.timebase) hstart fun _ _ _ hinv _ hstep => hinv.step hstep
  have hbegun : t.stamps ≠ [] :=
    h.invariant (·.stamps ≠ []) (by simp [Timeline.start]) fun _ _ _ hinv _ hstep =>
      Timeline.step_begun hinv hstep
  constructor
  · intro hschedule
    obtain ⟨q, rest, hstamps⟩ := List.exists_cons_of_ne_nil hbegun
    have hfirst : t.stamps[0]? = some q := by simp [hstamps]
    have hdue := hschedule 0 q hfirst
    have hq := hlate.stamps 0 q hfirst
    simp only [Timeline.due, Timeline.passed, origin, List.take_zero, List.map_nil, List.sum_nil]
      at hdue hq
    have hpos : (0 : Rat) < s₀.period := by exact_mod_cast hpos
    linarith
  · intro hnonneg k q hq
    have hsum : (t.history.delays.take k).map (fun d : Int => (d.toNat : Rat)) =
        (t.history.delays.take k).map fun d : Int => (d : Rat) := by
      refine List.map_congr_left fun d hd => ?_
      have hd : 0 ≤ d := hnonneg d (List.mem_of_mem_take hd)
      have hcast : (d.toNat : Int) = d := Int.toNat_of_nonneg hd
      exact_mod_cast congrArg (fun i : Int => (i : Rat)) hcast
    rw [hlate.stamps k q hq, Timeline.due, hsum, Timeline.passed]
    ring

/-- The period is halved after the first update. -/
theorem stamps_late_halved :
    ∃ t : Timeline, t.stamps = [101, 102, 205 / 2] ∧ t.history.delays = [1000, 500, 500] ∧
      ¬ t.OnSchedule 100 0 := by
  have hstart : ChannelPairHistory.construct plainNumbers "1000" "a" "b" "0" 100 = .ok _ := rfl
  have hrun : (runAll (Timeline.step plainNumbers)
      (Timeline.start plainNumbers
        { period := 1000, timebase := 0, lastPeriod := 1000, lastTime := 100 } none none)
      [.method (.updateperiod "500"), .method (.updateData (none, none)),
        .method (.updateData (none, none))]).map (fun t => (t.stamps, t.history.delays)) =
      some ([101, 102, 205 / 2], [1000, 500, 500]) := by decide +kernel
  obtain ⟨t, ht, hboth⟩ := Option.map_eq_some_iff.mp hrun
  obtain ⟨hstamps, hdelays⟩ := Prod.mk.inj hboth
  exact ⟨t, hstamps, hdelays, (stamps_late hstart (run_iff_runAll.mpr ht)).1⟩

/-- Constructed at 100 s with a period of 1 s, the first update takes place at
100 s and computes 101 s. -/
theorem first_stamp_late :
    ∃ s, ChannelPairHistory.construct plainNumbers "1000" "a" "b" "0" 100 = .ok s ∧
      (Timeline.start plainNumbers s none none).stamps = [101] ∧ Timeline.due 100 0 [] = 100 ∧
      ¬ (Timeline.start plainNumbers s none none).OnSchedule 100 0 := by
  have hstamps : ∀ s : ChannelPairHistory, s.stamp = 101 →
      ¬ (Timeline.start plainNumbers s none none).OnSchedule 100 0 := by
    intro s hs hschedule
    have hdue := hschedule 0 s.stamp (by simp [Timeline.start])
    norm_num [Timeline.due, hs] at hdue
  have hstamp : ChannelPairHistory.stamp
      { period := 1000, timebase := 0, lastPeriod := 1000, lastTime := 100 } = 101 := by
    norm_num [ChannelPairHistory.stamp]
  refine ⟨_, rfl, ?_, by norm_num [Timeline.due], hstamps _ hstamp⟩
  exact congrArg (fun q => [q]) hstamp

end EpicsTcl.History
