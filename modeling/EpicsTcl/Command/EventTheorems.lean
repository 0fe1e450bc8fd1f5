/-
EpicsTcl.Command.EventTheorems — on which command objects `update` works.

A `ChangeEvent` carries a command object and the name of its channel, and
`update` asks the registry for the name only. `UpdateSafe` is what a call
of `update` has to meet: the object it works on is alive and registered
under the event's name, and an event of a destroyed object changes
nothing.

`EventsCurrent` says that no queued event carries a name that is now
registered for another object. As long as Tcl has the registered names for
the commands (`PlainCreation`), a name gets another object only when
`epicschannel` creates it anew, so the invariant survives every step except
the creation of a name of which an event is still queued
(`NoStaleCreation`). Such a creation does lead to an unsafe call: dispatching
the events queued before it is enough.
-/
import EpicsTcl.Command.StepEffects

namespace EpicsTcl.Command

open EpicsTcl.Channel EpicsTcl.Library

/-! ## Calls of `update` -/

section

variable {ν : Type*} [DecidableEq ν] [CTCLObjectProcessor] [ChannelAccess] {resolve : String → ν}

namespace World

/-- The call of `update` that an action makes: its event, and the state in
which it is called. -/
def updateCall (w : World ν) : Action → Option (ChangeEvent × World ν)
  | .epicsUpdate id args now true =>
    match w.objects id with
    | none => none
    | some c =>
      let (channel, slot) := c.pChannel.updateHandler args now
      let w := w.setObject id { c with pChannel := channel }
      match slot with
      | none => none
      | some this => (w.objects this).map fun c => (⟨this, getName c.name⟩, w)
  | .dispatch =>
    match w.interp.events with
    | [] => none
    | ev :: rest => some (ev, { w with interp := { w.interp with events := rest } })
  | _ => none

omit [DecidableEq ν] [ChannelAccess] in
/-- An update event in the interpreter's own thread makes a call for the object in
the channel's slot, a dispatch one for the first event of the queue. -/
theorem updateCall_cases {w w₁ : World ν} {a : Action} {ev : ChangeEvent}
    (h : w.updateCall a = some (ev, w₁)) :
    (∃ id args now c this c', a = .epicsUpdate id args now true ∧ w.objects id = some c ∧
      (c.pChannel.updateHandler args now).2 = some this ∧
      w₁ = w.setObject id { c with pChannel := (c.pChannel.updateHandler args now).1 } ∧
      w₁.objects this = some c' ∧ ev = ⟨this, getName c'.name⟩) ∨
    ∃ rest, a = .dispatch ∧ w.interp.events = ev :: rest ∧
      w₁ = { w with interp := { w.interp with events := rest } } := by
  cases a with
  | command _ => cases h
  | scriptWrite _ _ => cases h
  | connection _ _ => cases h
  | epicsUpdate id args now inTclThread =>
    cases inTclThread with
    | false => cases h
    | true =>
      simp only [updateCall] at h
      cases hc : w.objects id with
      | none => simp [hc] at h
      | some c =>
        simp only [hc] at h
        cases hslot : (c.pChannel.updateHandler args now).2 with
        | none => simp [hslot] at h
        | some this =>
          simp only [hslot, Option.map_eq_some_iff, Prod.mk.injEq] at h
          obtain ⟨c', hc', rfl, rfl⟩ := h
          exact .inl ⟨id, args, now, c, this, c', rfl, hc, hslot, rfl, hc', rfl⟩
  | dispatch =>
    simp only [updateCall] at h
    cases hq : w.interp.events with
    | nil => simp [hq] at h
    | cons e rest =>
      rw [hq] at h
      cases h
      exact .inr ⟨rest, rfl, rfl, rfl⟩

/-- A step that calls `update` does what the call does. -/
theorem step_of_updateCall {w w₁ : World ν} {a : Action} {ev : ChangeEvent}
    (h : w.updateCall a = some (ev, w₁)) : w.step resolve a = w₁.update resolve ev := by
  obtain ⟨id, args, now, c, this, c', rfl, hc, hslot, rfl, hc', rfl⟩ | ⟨rest, rfl, hq, rfl⟩ :=
    updateCall_cases h
  · simp [step, hc, hslot, markChange, hc']
  · simp [step, hq]

end World

/-- What a call of `update` has to meet. -/
structure UpdateSafe (resolve : String → ν) (w : World ν) (ev : ChangeEvent) : Prop where
  target : (w.haveChannel ev.channelName).isSome →
    ∃ c, w.objects ev.pChangedChannel = some c ∧
      w.commandOf ev.channelName = some ev.pChangedChannel
  destroyed : w.objects ev.pChangedChannel = none → w.update resolve ev = some w

/-- `epicschannel` makes no new command for a name of which an event is
still queued. -/
def NoStaleCreation (w : World ν) : Action → Prop
  | .command (.epicschannel name) =>
    w.haveChannel name = none → ∀ ev ∈ w.interp.events, ev.channelName ≠ name
  | _ => True

instance (w : World ν) (a : Action) : Decidable (NoStaleCreation w a) := by
  unfold NoStaleCreation
  split <;> infer_instance

/-- `epicschannel` is given a plain name, of which no event is queued when it
makes a new command. -/
def SafeCreation (w : World ν) (a : Action) : Prop := a.PlainCreation ∧ NoStaleCreation w a

instance (w : World ν) (a : Action) : Decidable (SafeCreation w a) :=
  inferInstanceAs (Decidable (_ ∧ _))

/-! ## Events in flight -/

/-- No queued event carries a name that is registered for another object. -/
def EventsCurrent (w : World ν) : Prop :=
  ∀ ev ∈ w.interp.events, ∀ id, w.commandOf ev.channelName = some id → id = ev.pChangedChannel

/-- The objects of queued events were all made before now. -/
def EventsKnown (w : World ν) : Prop :=
  ∀ ev ∈ w.interp.events, ev.pChangedChannel < w.nextObject

theorem eventsCurrent_step {w w' : World ν} {a : Action} (inv : WorldInv resolve w)
    (hnames : w.PlainNames) (hcur : EventsCurrent w) (hok : NoStaleCreation w a)
    (h : w.step resolve a = some w') : EventsCurrent w' := by
  intro ev hev id hid
  obtain ⟨hcases, hevents⟩ := inv.step_cases h
  have hold := (hevents ev hev).imp_right (·.commandOf hnames)
  rcases hcases with ⟨name, rfl, hnone, hreg, -⟩ | ⟨hreg, -⟩
  · rw [hreg] at hid
    by_cases hn : ev.channelName = name
    · -- the guard excludes queued events, and `name` has no object of its own yet
      rcases hold with hev | hev
      · exact absurd hn (hok hnone ev hev)
      · rw [hn] at hev
        simp [World.commandOf, hnone] at hev
    · rw [if_neg hn] at hid
      rcases hold with hev | hev
      · exact hcur ev hev id hid
      · rw [hev] at hid
        exact (Option.some.inj hid).symm
  · have hid := hreg _ _ hid
    rcases hold with hev | hev
    · exact hcur ev hev id hid
    · rw [hev] at hid
      exact (Option.some.inj hid).symm

theorem eventsKnown_step {w w' : World ν} {a : Action} (inv : WorldInv resolve w)
    (hknown : EventsKnown w) (h : w.step resolve a = some w') : EventsKnown w' := by
  intro ev hev
  obtain ⟨hcases, hevents⟩ := inv.step_cases h
  have hlt : ev.pChangedChannel < w.nextObject := by
    rcases hevents ev hev with hev | hev
    · exact hknown ev hev
    · obtain ⟨name, hid, -⟩ := hev
      obtain ⟨c, hc, -⟩ := inv.registered _ _ hid
      exact inv.fresh _ _ hc
  rcases hcases with ⟨-, -, -, -, hnext⟩ | ⟨-, hnext⟩
  · rw [hnext]
    exact Nat.lt_succ_of_lt hlt
  · rw [hnext]
    exact hlt

/-! ## Safe calls -/

omit [CTCLObjectProcessor] [ChannelAccess] in
/-- An event that is current for its name meets what `update` has to meet. -/
theorem updateSafe_of_current {w : World ν} (inv : WorldInv resolve w) {ev : ChangeEvent}
    (hcur : ∀ id, w.commandOf ev.channelName = some id → id = ev.pChangedChannel) :
    UpdateSafe resolve w ev := by
  have htarget : (w.haveChannel ev.channelName).isSome →
      ∃ c, w.objects ev.pChangedChannel = some c ∧
        w.commandOf ev.channelName = some ev.pChangedChannel := by
    intro hsome
    obtain ⟨info, hinfo⟩ := Option.isSome_iff_exists.mp hsome
    have hid : w.commandOf ev.channelName = some info.pChannel := by
      simp [World.commandOf, hinfo]
    obtain ⟨c, hc, -⟩ := inv.lookup hinfo
    rw [← hcur _ hid]
    exact ⟨c, hc, hid⟩
  refine ⟨htarget, fun hdead => ?_⟩
  unfold World.update
  split
  · next info hinfo =>
    obtain ⟨c, hc, -⟩ := htarget (by rw [hinfo]; rfl)
    rw [hdead] at hc
    cases hc
  · rfl

omit [ChannelAccess] in
/-- The call of `update` that a step makes when events are current. -/
theorem updateCall_safe {w w₁ : World ν} {a : Action} {ev : ChangeEvent}
    (inv : WorldInv resolve w) (hnames : w.PlainNames) (hcur : EventsCurrent w)
    (h : w.updateCall a = some (ev, w₁)) : UpdateSafe resolve w₁ ev := by
  obtain ⟨id, args, now, c, this, c', rfl, hc, -, rfl, hc', rfl⟩ | ⟨rest, rfl, hq, rfl⟩ :=
    World.updateCall_cases h
  · have inv' := inv.replace_channel hc (c.pChannel.updateHandler args now).1
      (CChannel.updateHandler_pHandler ..)
    refine updateSafe_of_current inv' fun id' hid' => ?_
    have halive := inv'.alive _ _ hc'
    have hraised : World.Raises _ ⟨this, getName c'.name⟩ := ⟨c'.name, halive, rfl⟩
    rw [hraised.commandOf hnames] at hid'
    exact (Option.some.inj hid').symm
  · have inv' : WorldInv resolve { w with interp := { w.interp with events := rest } } :=
      inv.congr rfl rfl (fun _ => rfl) (.refl _)
    exact updateSafe_of_current inv' (hcur ev (by rw [hq]; exact List.mem_cons_self))

omit [CTCLObjectProcessor] [ChannelAccess] in
/-- A safe call of `update` has a next state. -/
theorem UpdateSafe.update_isSome {w : World ν} {ev : ChangeEvent}
    (h : UpdateSafe resolve w ev) : ∃ w', w.update resolve ev = some w' := by
  unfold World.update
  split
  · next info hinfo =>
    obtain ⟨c, hc, -⟩ := h.target (by rw [hinfo]; rfl)
    simp only [World.updateLinkedVariable, hc]
    exact ⟨_, rfl⟩
  · exact ⟨w, rfl⟩

/-- An event whose name is registered for another object. -/
def Stale (w : World ν) (ev : ChangeEvent) : Prop :=
  ∃ id, w.commandOf ev.channelName = some id ∧ id ≠ ev.pChangedChannel

/-- **A stale event in the queue leads to an unsafe call**: dispatching
the events before it is possible and changes neither the registry nor the
rest of the queue. The induction is on the queue. -/
theorem stale_dispatch (events : List ChangeEvent) {w : World ν} (inv : WorldInv resolve w)
    (hq : w.interp.events = events) {ev : ChangeEvent} (hev : ev ∈ events) (hstale : Stale w ev) :
    ∃ n w₂, runAll (World.step resolve) w (List.replicate n .dispatch) = some w₂ ∧
      ∃ ev₂ w₃, w₂.updateCall .dispatch = some (ev₂, w₃) ∧ ¬ UpdateSafe resolve w₃ ev₂ := by
  induction events generalizing w with
  | nil => cases hev
  | cons e rest ih =>
    by_cases he : Stale w e
    · refine ⟨0, w, rfl, e, _, by simp [World.updateCall, hq]; rfl, fun hsafe => ?_⟩
      obtain ⟨id, hid, hne⟩ := he
      obtain ⟨info, hinfo, -⟩ := Option.map_eq_some_iff.mp hid
      obtain ⟨-, -, hid'⟩ := hsafe.target (by rw [World.haveChannel] at hinfo ⊢; rw [hinfo]; rfl)
      exact hne (Option.some.inj (hid.symm.trans hid'))
    · have hcur : ∀ id, w.commandOf e.channelName = some id → id = e.pChangedChannel := by
        intro id hid
        by_contra hne
        exact he ⟨id, hid, hne⟩
      have inv' : WorldInv resolve { w with interp := { w.interp with events := rest } } :=
        inv.congr rfl rfl (fun _ => rfl) (.refl _)
      have hsafe := updateSafe_of_current inv' hcur
      obtain ⟨w', hw'⟩ := hsafe.update_isSome
      obtain ⟨vars, traces, ca, heq, -⟩ := inv'.update_eq hw'
      have hstep : w.step resolve .dispatch = some w' := by simp [World.step, hq, hw']
      have hev' : ev ∈ rest := by
        rcases List.mem_cons.mp hev with rfl | hev
        · exact absurd hstale he
        · exact hev
      obtain ⟨n, w₂, hrun, hbad⟩ := ih (inv.step hstep) (by rw [heq]) hev'
        (by rw [heq]; exact hstale)
      exact ⟨n + 1, w₂, by simp [List.replicate_succ, runAll, hstep, hrun], hbad⟩

/-- **Whenever `update` is called, it works on the live object registered
under the event's name**, in every run that creates channels under plain
names and never makes a command for a name of which an event is still queued.
Where such a command is made, a continuation calls `update` on another
object. -/
theorem update_targets_registered (vars : ν → Option String) :
    (∀ as w, Run (World.step resolve) SafeCreation (World.initial vars) as w →
      ∀ a ev w₁, w.updateCall a = some (ev, w₁) → UpdateSafe resolve w₁ ev) ∧
    (∀ as w, Run (World.step resolve) Always (World.initial vars) as w →
      ∀ a w', ¬ NoStaleCreation w a → w.step resolve a = some w' →
        ∃ n w₂, runAll (World.step resolve) w' (List.replicate n .dispatch) = some w₂ ∧
          ∃ ev w₃, w₂.updateCall .dispatch = some (ev, w₃) ∧ ¬ UpdateSafe resolve w₃ ev) := by
  constructor
  · intro as w hrun a ev w₁ hcall
    have hinv : WorldInv resolve w ∧ w.PlainNames ∧ EventsCurrent w := by
      refine hrun.invariant (fun w => WorldInv resolve w ∧ w.PlainNames ∧ EventsCurrent w)
        ⟨WorldInv.initial vars, fun name hname => ?_, fun ev hev => ?_⟩ ?_
      · cases hname
      · cases hev
      · rintro s a s' ⟨inv, hnames, hcur⟩ ⟨hplain, hok⟩ hstep
        exact ⟨inv.step hstep, inv.plainNames_step hnames hplain hstep,
          eventsCurrent_step inv hnames hcur hok hstep⟩
    exact updateCall_safe hinv.1 hinv.2.1 hinv.2.2 hcall
  · intro as w hrun a w' hbad hstep
    have hinv : WorldInv resolve w ∧ EventsKnown w := by
      refine hrun.invariant (fun w => WorldInv resolve w ∧ EventsKnown w)
        ⟨WorldInv.initial vars, fun ev hev => ?_⟩ ?_
      · cases hev
      · rintro s a s' ⟨inv, hknown⟩ - hstep
        exact ⟨inv.step hstep, eventsKnown_step inv hknown hstep⟩
    obtain ⟨inv, hknown⟩ := hinv
    unfold NoStaleCreation at hbad
    split at hbad
    · next name =>
      push Not at hbad
      obtain ⟨hnone, ev, hev, hname⟩ := hbad
      have inv' := inv.step hstep
      cases hstep
      rw [World.run_epicschannel_new hnone] at inv' ⊢
      refine stale_dispatch _ inv' rfl hev ⟨w.nextObject, ?_, Nat.ne_of_gt (hknown ev hev)⟩
      have hinsert := World.commandOf_insert w ev.channelName name ⟨1, w.nextObject⟩
      rw [if_pos hname] at hinsert
      exact hinsert
    · exact absurd trivial hbad

end

/-! ## Two runs -/

attribute [local instance] CTCLObjectProcessor.global ChannelAccess.numbering

/-- The linked channel "a" is updated, deleted and created again before the
event of the update is dispatched. -/
def staleRun : List Action :=
  [.command (.epicschannel "a"), .command (.link "a" "x"),
    .connection 0 ⟨.connUp, dbfString⟩, .epicsUpdate 0 ⟨1, 1, [0x37, 0]⟩ 5 false,
    .command (.delete "a"), .command (.epicschannel "a")]

/-- After `staleRun` the event names a registered channel, and its object is
destroyed: `update` calls `UpdateLinkedVariable` on it. -/
theorem stale_event_reaches_destroyed :
    ∃ w, Run (World.step id) Always (World.initial fun _ => none) staleRun w ∧
      ∃ ev w₁, w.updateCall .dispatch = some (ev, w₁) ∧
        (w₁.haveChannel ev.channelName).isSome ∧ w₁.objects ev.pChangedChannel = none ∧
        ¬ UpdateSafe id w₁ ev := by
  refine ⟨_, run_iff_runAll.mpr (rfl : runAll _ _ staleRun = some _), _, _, rfl, rfl, rfl, ?_⟩
  intro h
  obtain ⟨c, hc, -⟩ := h.target rfl
  cases hc

/-- The same channel, dispatched before it is deleted. -/
theorem update_targets_registered_fresh :
    ∃ w ev w₁, Run (World.step id) SafeCreation (World.initial fun _ => none)
        (staleRun.take 4) w ∧
      w.updateCall .dispatch = some (ev, w₁) ∧ UpdateSafe id w₁ ev := by
  have hrun : Run (World.step id) SafeCreation (World.initial fun _ => none)
      (staleRun.take 4) _ := run_of_runChecked _ rfl
  exact ⟨_, _, _, hrun, rfl, (update_targets_registered _).1 _ _ hrun .dispatch _ _ rfl⟩

end EpicsTcl.Command
