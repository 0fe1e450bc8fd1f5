/-
EpicsTcl.Widget.EpicsLedTheorems — an `epicsLed` follows its channel.

The session and the lamps keep their invariants side by side, since they
write the same variables (`EpicsLedsInv`): a refresh of the session reaches
the lamps one write after the other. When the interpreter has nothing left to
do, the linked variables hold the value of the channel, and the lamps show
their variables. What it has left to do is `work`.
-/
import EpicsTcl.Widget.EpicsLeds
import Mathlib.Tactic.Ring

namespace EpicsTcl.Command.Session

open EpicsTcl.Channel

variable {ν : Type*} [DecidableEq ν] [CTCLObjectProcessor] [ChannelAccess] {resolve : String → ν}
  {this : CommandId} {s s' : Session ν}

/-- Variables after some writes. -/
def assigned (resolve : String → ν) (writes : List (String × String)) (vars : ν → Option String) :
    ν → Option String :=
  writes.foldl (fun vars p => Function.update vars (resolve p.1) (some p.2)) vars

omit [CTCLObjectProcessor] [ChannelAccess] in
theorem refreshes_vars (resolve : String → ν) (vs : List CChannelVariable) (s : Session ν) :
    (vs.foldl (fun s v => s.newEpicsValue resolve s.command.pChannel.getValue v) s).vars =
      assigned resolve (vs.map fun v => (v.sVariable, s.value)) s.vars := by
  induction vs generalizing s with
  | nil => rfl
  | cons v vs ih =>
    rw [List.foldl_cons, ih, List.map_cons]
    rfl

omit [ChannelAccess] in
theorem epicsUpdate_vars (args : EventHandlerArgs) (now : Int) (inTclThread : Bool)
    (s : Session ν) : (s.epicsUpdate resolve args now inTclThread).vars =
      assigned resolve (s.assignments (.epicsUpdate args now inTclThread)) s.vars := by
  cases hupdate : s.command.pChannel.updateHandler args now with
  | mk channel slot =>
    cases slot with
    | none => cases inTclThread <;> simp only [epicsUpdate, assignments, hupdate] <;> rfl
    | some this =>
      cases inTclThread with
      | false =>
        simp only [epicsUpdate, assignments, hupdate]
        rfl
      | true =>
        simp only [epicsUpdate, assignments, hupdate, if_true]
        let t : Session ν := { s with command := { s.command with pChannel := channel } }
        have hsame : t.haveChannel (getName s.command.name) =
            s.haveChannel (getName s.command.name) := rfl
        show (t.update resolve (getName s.command.name)).vars = _
        rw [Session.update, hsame]
        split
        · unfold updateLinkedVariable
          rw [refreshes_vars, List.map_map]
          rfl
        · rfl

/-- A step makes its assignments and no others. -/
theorem step_vars {a : SessionAction} (h : s.step resolve this a = some s') :
    s'.vars = assigned resolve (s.assignments a) s.vars := by
  cases a with
  | link varname =>
    simp only [step] at h
    split at h
    · cases h
      cases hfind : s.command.find varname <;> simp only [beginLink, assignments, hfind] <;> rfl
    · cases h
  | unlink varname =>
    simp only [step] at h
    split at h
    · cases h
      unfold Session.unlink
      cases s.command.find varname with
      | none => rfl
      | some i =>
        simp only
        split <;> rfl
    · cases h
  | dispatch =>
    simp only [step] at h
    split at h
    · split at h <;> cases h <;> rfl
    · cases h
  | registry others =>
    simp only [step] at h
    split at h <;> cases h
    rfl
  | resume =>
    simp only [step] at h
    split at h
    · next hthread =>
      cases h
      simp only [assignments, hthread]
      rfl
    · next hthread =>
      cases h
      simp only [assignments, hthread]
      rfl
    · cases h
  | scriptWrite varname value =>
    simp only [step] at h
    split at h
    · cases h
      rfl
    · cases h
  | connection args =>
    cases h
    rfl
  | epicsUpdate args now inTclThread =>
    simp only [step] at h
    split at h
    · cases h
    · cases h
      exact epicsUpdate_vars args now inTclThread s

/-- The steps that the interpreter's thread makes by itself. -/
def Own (a : SessionAction) : Prop := a = .dispatch ∨ a = .resume

omit [CTCLObjectProcessor] [ChannelAccess] in
theorem left_updating (rest : List CChannelVariable) : (updating rest).left = rest.length := by
  cases rest <;> rfl

theorem own_work {a : SessionAction} (hown : Own a) (h : s.step resolve this a = some s') :
    s'.work < s.work ∧ s'.value = s.value := by
  rcases hown with rfl | rfl
  · simp only [step] at h
    split at h
    · next ev events hthread hevents =>
      have hold : s.work = events.length * (s.command.linkedVariables.length + 1) +
          (s.command.linkedVariables.length + 1) := by
        simp only [work, hthread, hevents, List.length_cons, Nat.succ_mul]
        rfl
      split at h
      · cases h
        refine ⟨?_, rfl⟩
        rw [hold]
        simp only [work, left_updating, List.length_map]
        omega
      · cases h
        refine ⟨?_, rfl⟩
        rw [hold]
        simp only [work, hthread]
        rw [show TclThread.idle.left = 0 from rfl]
        omega
    · cases h
  · simp only [step] at h
    split at h
    · next hthread =>
      cases h
      refine ⟨?_, rfl⟩
      simp only [work, endLink, hthread]
      exact Nat.lt_succ_self _
    · next hthread =>
      cases h
      refine ⟨?_, rfl⟩
      simp only [work, refreshNext, newEpicsValue, hthread, left_updating]
      exact Nat.lt_succ_self _
    · cases h

/-- As long as there is something to do, the next step of it is possible. -/
theorem own_possible (resolve : String → ν) (this : CommandId)
    (hrunning : s.thread ≠ .inUpdate []) (h : s.thread = .idle → s.events ≠ []) :
    ∃ a, Own a ∧ s.step resolve this a ≠ none := by
  cases hthread : s.thread with
  | idle =>
    cases hevents : s.events with
    | nil => exact absurd hevents (h hthread)
    | cons ev rest =>
      refine ⟨.dispatch, .inl rfl, ?_⟩
      simp only [step, hthread, hevents]
      split <;> simp
  | inLink => exact ⟨.resume, .inr rfl, by simp [step, hthread]⟩
  | inUpdate rest =>
    cases rest with
    | nil => exact absurd hthread hrunning
    | cons v rest => exact ⟨.resume, .inr rfl, by simp [step, hthread]⟩

end EpicsTcl.Command.Session

namespace EpicsTcl.Widget

open EpicsTcl.Channel EpicsTcl.Command EpicsTcl.Library EpicsLeds

section Lamps

variable {ν : Type} [DecidableEq ν] [CTCLObjectProcessor] [ChannelAccess] {global : String → ν}
  {this : CommandId}

/-! ## What the session writes -/

section Assign

variable {s : LedProcess ν} {fails : Nat → Bool}

omit [CTCLObjectProcessor] [ChannelAccess] in
theorem write_vars (x : ν) (name value : String) (fails : Nat → Bool) (s : LedProcess ν) :
    (s.write global x name value fails).vars = Function.update s.vars x (some value) :=
  (write_redrawn global x name value fails s).vars

omit [CTCLObjectProcessor] [ChannelAccess] in
theorem write_traces (x : ν) (name value : String) (fails : Nat → Bool) (s : LedProcess ν) :
    (s.write global x name value fails).traces = s.traces :=
  (write_redrawn global x name value fails s).traces

omit [CTCLObjectProcessor] [ChannelAccess] in
theorem assign_vars (writes : List (String × String)) (s : LedProcess ν) :
    (s.assign global fails writes).vars = Session.assigned global writes s.vars := by
  induction writes generalizing s with
  | nil => rfl
  | cons p writes ih =>
    unfold LedProcess.assign Session.assigned at ih ⊢
    rw [List.foldl_cons, List.foldl_cons, ih, write_vars]

omit [CTCLObjectProcessor] [ChannelAccess] in
theorem ledInv_assign (writes : List (String × String)) (inv : LedInv global s)
    (hfails : ∀ p ∈ writes, ∀ id, .other id ∈ s.traces (global p.1) → fails id = false) :
    LedInv global (s.assign global fails writes) := by
  induction writes generalizing s with
  | nil => exact inv
  | cons p writes ih =>
    refine ih (ledInv_write inv rfl p.2 (hfails p (by simp))) ?_
    intro q hq id hid
    rw [write_traces] at hid
    exact hfails q (List.mem_cons_of_mem _ hq) id hid

omit [CTCLObjectProcessor] [ChannelAccess] in
theorem assign_after (writes : List (String × String)) (s : LedProcess ν) :
    (s.assign global fails writes).after = s.after := by
  induction writes generalizing s with
  | nil => rfl
  | cons p writes ih =>
    unfold LedProcess.assign at ih ⊢
    rw [List.foldl_cons, ih]
    exact (write_redrawn global (global p.1) p.1 p.2 fails s).after

end Assign

/-! ## Steps -/

/-- The invariant. -/
structure EpicsLedsInv (global : String → ν) (s : EpicsLeds ν) : Prop where
  session : SessionInv global s.session
  leds : LedInv global s.leds
  vars : s.leds.vars = s.session.vars
  running : s.session.thread ≠ .inUpdate []
  named : Session.Named s.session
  kept : getName s.session.command.name = s.session.command.name

section Steps

variable {s t : EpicsLeds ν}

omit [DecidableEq ν] in
theorem epicsLedsInv_initial {name : String} (hname : getName name = name)
    (vars : ν → Option String) : EpicsLedsInv global (EpicsLeds.initial name vars) where
  session := sessionInv_initial name vars
  leds := ledInv_initial global vars
  vars := rfl
  running := by intro h; cases h
  named := nofun
  kept := hname

theorem EpicsLedsInv.sessionStep (inv : EpicsLedsInv global s) {a : SessionAction}
    {fails : Nat → Bool} (hok : s.session.NoGapUpdate a)
    (hfails : ∀ p ∈ s.session.assignments a, ∀ id, .other id ∈ s.leds.traces (global p.1) →
      fails id = false)
    (h : s.sessionStep global this a fails = some t) : EpicsLedsInv global t := by
  obtain ⟨session, hstep, heq⟩ := Option.map_eq_some_iff.mp h
  have hheard := Session.heard_of_getName inv.named inv.kept a
  obtain ⟨hnamed, hname⟩ := Session.named_step inv.named hstep
  rw [← heq]
  refine ⟨sessionInv_step inv.session ⟨hok, hheard⟩ hstep, ledInv_assign _ inv.leds hfails, ?_,
    refresh_left inv.running hstep, hnamed, by rw [hname]; exact inv.kept⟩
  rw [Session.step_vars hstep, assign_vars, inv.vars]

omit [DecidableEq ν] [ChannelAccess] in
/-- The lamps change, and no variable. -/
theorem EpicsLedsInv.withLeds (inv : EpicsLedsInv global s) {leds : LedProcess ν}
    (hleds : LedInv global leds) (hvars : leds.vars = s.leds.vars) :
    EpicsLedsInv global { s with leds } :=
  ⟨inv.session, hleds, hvars.trans inv.vars, inv.running, inv.named, inv.kept⟩

omit [CTCLObjectProcessor] [ChannelAccess] in
theorem configureVariable_vars (k : Nat) (o : Object Led) (n : String) (s : LedProcess ν) :
    (s.configureVariable global k o n).vars = s.vars := by
  simp only [LedProcess.configureVariable]
  split <;> rfl

omit [CTCLObjectProcessor] [ChannelAccess] in
theorem create_vars (name : String) (options : LedOptions) (s : LedProcess ν)
    (hfree : s.lamps.names name = none) : (s.create global name options hfree).vars = s.vars := by
  unfold LedProcess.create
  split
  · exact configureVariable_vars _ _ _ _
  · rfl

omit [CTCLObjectProcessor] [ChannelAccess] in
/-- What is done with the lamps alone writes no variable. -/
theorem leds_vars {s t : LedProcess ν} {a : LedAction ν} (h : s.step global a = some t) :
    t.vars = s.vars ∨ (∃ name value fails, a = .switch name value fails) ∨
      (∃ x name value fails, a = .write x name value fails) ∨ ∃ x, a = .unset x := by
  cases a with
  | create name options =>
    simp only [LedProcess.step] at h
    split at h
    · cases h
    · cases h
      exact .inl (create_vars ..)
  | destroy name =>
    obtain ⟨p, -, heq⟩ := Option.map_eq_some_iff.mp h
    rw [← heq]
    exact .inl rfl
  | configureVariable name n =>
    obtain ⟨p, -, heq⟩ := Option.map_eq_some_iff.mp h
    rw [← heq]
    exact .inl (configureVariable_vars ..)
  | configureColor name options =>
    obtain ⟨p, -, heq⟩ := Option.map_eq_some_iff.mp h
    rw [← heq]
    exact .inl rfl
  | switch name value fails => exact .inr (.inl ⟨_, _, _, rfl⟩)
  | write x name value fails => exact .inr (.inr (.inl ⟨_, _, _, _, rfl⟩))
  | unset x => exact .inr (.inr (.inr ⟨_, rfl⟩))
  | addTrace x id =>
    cases h
    exact .inl rfl
  | removeTrace x id =>
    cases h
    exact .inl rfl
  | after =>
    simp only [LedProcess.step] at h
    split at h
    · cases h
    · next name n after hafter =>
      split at h
      · next k o hfind =>
        cases h
        have hredrawn := varTrace_redrawn (s := { s with after }) global
          (Objects.find_iff.mp hfind).1 n
        exact .inl hredrawn.vars
      · cases h
        exact .inl rfl

theorem EpicsLedsInv.switch (inv : EpicsLedsInv global s)
    (hcolons : ∀ n, global ("::" ++ n) = global n) {name : String} {value : Bool}
    {fails : Nat → Bool} (hfair : s.leds.Fair global (.switch name value fails))
    (h : s.switch global this name value fails = some t) : EpicsLedsInv global t := by
  unfold EpicsLeds.switch at h
  split at h
  · cases h
  · next k o hfind =>
    simp only at h
    split at h
    · refine inv.sessionStep (show s.session.NoGapUpdate (.scriptWrite _ _) from trivial) ?_ h
      intro p hp id hid
      rw [List.mem_singleton.mp hp, hcolons] at hid
      exact hfair k o hfind id hid
    · next huntracked =>
      obtain ⟨leds, hstep, heq⟩ := Option.map_eq_some_iff.mp h
      rw [← heq]
      refine inv.withLeds (ledInv_step inv.leds hcolons hfair hstep) ?_
      obtain ⟨p, hp, heq'⟩ := Option.map_eq_some_iff.mp hstep
      rw [hfind] at hp
      cases hp
      rw [← heq']
      show (s.leds.switch global k o.state value fails).vars = s.leds.vars
      unfold LedProcess.switch
      rw [if_neg huntracked]
      rfl

theorem epicsLedsInv_step (inv : EpicsLedsInv global s)
    (hcolons : ∀ n, global ("::" ++ n) = global n) {a : EpicsLedsAction ν}
    (hfair : s.Fair global a) (h : s.step global this a = some t) : EpicsLedsInv global t := by
  cases a with
  | session a fails => exact inv.sessionStep hfair.1 hfair.2 h
  | leds a =>
    simp only [EpicsLeds.step] at h
    split at h
    · split at h
      · cases h
      · cases h
      · exact inv.switch hcolons hfair h
      · next hnot_write hnot_unset hnot_switch =>
        obtain ⟨leds, hstep, heq⟩ := Option.map_eq_some_iff.mp h
        rw [← heq]
        refine inv.withLeds (ledInv_step inv.leds hcolons hfair hstep) ?_
        rcases leds_vars hstep with hvars | ⟨_, _, _, ha⟩ | ⟨_, _, _, _, ha⟩ | ⟨_, ha⟩
        · exact hvars
        · exact absurd ha (hnot_switch _ _ _)
        · exact absurd ha (hnot_write _ _ _ _)
        · exact absurd ha (hnot_unset _)
    · cases h

end Steps

/-! ## Runs -/

section Runs

variable {s t : EpicsLeds ν}

omit [CTCLObjectProcessor] [ChannelAccess] in
theorem after_step {s t : LedProcess ν} (h : s.step global .after = some t) :
    t.after.length + 1 = s.after.length := by
  simp only [LedProcess.step] at h
  split at h
  · cases h
  · next name n after hafter =>
    rw [hafter]
    split at h
    · next k o hfind =>
      cases h
      rw [(varTrace_redrawn (s := { s with after }) global (Objects.find_iff.mp hfind).1 n).after]
      rfl
    · cases h
      rfl

/-- What the interpreter's thread does by itself brings it nearer to its end,
and leaves the channel alone. -/
theorem epicsLeds_own {a : EpicsLedsAction ν} (hown : s.Own global a)
    (h : s.step global this a = some t) :
    t.work < s.work ∧ t.session.value = s.session.value := by
  have hsession : ∀ {a fails}, Session.Own a → s.sessionStep global this a fails = some t →
      t.work < s.work ∧ t.session.value = s.session.value := by
    intro a fails ha hstep
    obtain ⟨session, hstep, heq⟩ := Option.map_eq_some_iff.mp hstep
    obtain ⟨hwork, hvalue⟩ := Session.own_work ha hstep
    rw [← heq]
    refine ⟨?_, hvalue⟩
    simp only [EpicsLeds.work, assign_after]
    omega
  obtain ⟨-, ha | ⟨fails, ha | ha⟩⟩ := hown
  · rw [ha] at h
    simp only [EpicsLeds.step] at h
    split at h
    · obtain ⟨leds, hstep, heq⟩ := Option.map_eq_some_iff.mp h
      have hafter := after_step hstep
      rw [← heq]
      refine ⟨?_, rfl⟩
      simp only [EpicsLeds.work]
      omega
    · cases h
  · rw [ha] at h
    exact hsession (.inl rfl) h
  · rw [ha] at h
    exact hsession (.inr rfl) h

theorem epicsLeds_possible (inv : EpicsLedsInv global s) (hquiet : ¬ s.Quiet) :
    ∃ a, s.Own global a ∧ s.step global this a ≠ none := by
  by_cases hidle : s.session.thread = .idle ∧ s.session.events = []
  · cases hafter : s.leds.after with
    | nil => exact absurd ⟨hidle.1, hidle.2, hafter⟩ hquiet
    | cons p after =>
      refine ⟨.leds .after, ⟨trivial, .inl rfl⟩, ?_⟩
      simp only [EpicsLeds.step, if_pos hidle.1, LedProcess.step, hafter]
      cases s.leds.lamps.find p.1 <;> simp
  · obtain ⟨a, ha, hstep⟩ := Session.own_possible global this inv.running
      fun h hevents => hidle ⟨h, hevents⟩
    refine ⟨.session a (fun _ => false), ⟨⟨?_, fun _ _ _ _ => rfl⟩,
      .inr ⟨fun _ => false, ?_⟩⟩, ?_⟩
    · rcases ha with rfl | rfl <;> trivial
    · rcases ha with rfl | rfl
      · exact .inl rfl
      · exact .inr rfl
    · obtain ⟨session, hsession⟩ := Option.ne_none_iff_exists'.mp hstep
      simp [EpicsLeds.step, EpicsLeds.sessionStep, hsession]

omit [DecidableEq ν] [ChannelAccess] in
/-- In a quiet state a lamp on a linked variable shows the channel. -/
theorem EpicsLedsInv.shows (inv : EpicsLedsInv global s) (hquiet : s.Quiet) {k : Nat}
    {o : Object Led} (ho : s.leds.lamps.living k = some o)
    (htracks : o.state.options.variableName ≠ "") {u : String} (hu : u ∈ s.session.linked)
    (hvariable : global o.state.options.variableName = global u)
    (hwritten : s.session.written (global u) = false)
    (hblocked : ¬ s.leds.Blocked global k o.state) {b : Bool}
    (hb : truth s.session.value = some b) : o.state.lit = b := by
  have hfresh := inv.session.fresh.resolve_left (fun h => h hquiet.events) u hu ?_ hwritten
  · have hasked : s.leds.asked o.name = [] := by
      simp [LedProcess.asked, hquiet.after]
    rcases inv.leds.shown k o ho htracks with h | h | hshows
    · exact absurd hasked h
    · exact absurd h hblocked
    · refine hshows s.session.value b ?_ hb
      rw [inv.vars, hvariable, hfresh]
  · rw [rest_of_ne (by simp [hquiet.idle])]
    intro v hv
    cases hv

/-- **A lamp follows its channel.** In every run, with whatever other scripts
do with links, variables and lamps and whatever Channel Access calls in its
threads, the interpreter has a bounded number of steps left to make by itself
and can make them. They leave the channel as it is, and when they are made, a
lamp that tracks a linked variable shows the channel's value, unless a script
has written the variable since it was refreshed, or a lamp that came to it
later has been destroyed. -/
theorem leds_follow_channel (hcolons : ∀ n, global ("::" ++ n) = global n) {name : String}
    (hname : getName name = name) (vars : ν → Option String) {as bs : List (EpicsLedsAction ν)}
    (hrun : Run (EpicsLeds.step global this) (EpicsLeds.Fair global) (EpicsLeds.initial name vars)
      as s)
    (hown : Run (EpicsLeds.step global this) (EpicsLeds.Own global) s bs t) :
    bs.length ≤ s.work ∧
    (¬ t.Quiet → ∃ a, t.Own global a ∧ t.step global this a ≠ none) ∧
    t.session.value = s.session.value ∧
    (t.Quiet → ∀ k o, t.leds.lamps.living k = some o → o.state.options.variableName ≠ "" →
      ∀ u ∈ t.session.linked, global o.state.options.variableName = global u →
      t.session.written (global u) = false → ¬ t.leds.Blocked global k o.state →
      ∀ b, truth s.session.value = some b →
        o.state.lit = b ∧
          (o.state.recolored = false → o.state.fill = o.state.options.color b)) := by
  have hstart : EpicsLedsInv global s := hrun.invariant (EpicsLedsInv global)
    (epicsLedsInv_initial hname vars) fun _ _ _ inv hfair hstep =>
      epicsLedsInv_step inv hcolons hfair hstep
  let Inv (u : EpicsLeds ν) : Prop :=
    EpicsLedsInv global u ∧ u.session.value = s.session.value
  have hpreserve : ∀ u a u', Inv u → u.Own global a → u.step global this a = some u' → Inv u' :=
    fun u a u' hu ha hstep => ⟨epicsLedsInv_step hu.1 hcolons ha.1 hstep,
      (epicsLeds_own ha hstep).2.trans hu.2⟩
  obtain ⟨inv, hvalue⟩ := hown.invariant Inv ⟨hstart, rfl⟩ hpreserve
  refine ⟨?_, epicsLeds_possible inv, hvalue, ?_⟩
  · have hlength := hown.length_le Inv ⟨hstart, rfl⟩ hpreserve EpicsLeds.work
      fun u a u' _ ha hstep => (epicsLeds_own ha hstep).1
    omega
  · intro hquiet k o ho htracks u hu hvariable hwritten hblocked b hb
    rw [← hvalue] at hb
    have hlit := inv.shows hquiet ho htracks hu hvariable hwritten hblocked hb
    refine ⟨hlit, ?_⟩
    rw [← hlit]
    exact inv.leds.colored.living ho

end Runs

end Lamps

section

attribute [local instance] CTCLObjectProcessor.global ChannelAccess.numbering

/-- The constructor of an `epicsLed` on the channel `c`, which connects. -/
def ledOnChannel : List (EpicsLedsAction (List Char)) :=
  [.leds (.create "a" {}), .session (.link "::controlwidget::c") fun _ => false,
    .session .resume fun _ => false, .leds (.configureVariable "a" "::controlwidget::c"),
    .session (.connection ⟨.connUp, dbfString⟩) fun _ => false]

/-- The first value of the channel. -/
def ledUpdate : EpicsLedsAction (List Char) :=
  .session (.epicsUpdate ⟨1, 1, [0x31, 0]⟩ 5 false) fun _ => false

theorem ledOnChannel_run : ∃ s t o,
    Run (EpicsLeds.step exampleGlobal 0) (EpicsLeds.Fair exampleGlobal)
      (EpicsLeds.initial "c" fun _ => none) (ledOnChannel ++ [ledUpdate]) s ∧
    Run (EpicsLeds.step exampleGlobal 0) (EpicsLeds.Own exampleGlobal) s
      [.leds .after, .session .dispatch fun _ => false, .session .resume fun _ => false] t ∧
    s.session.value = "1" ∧ t.Quiet ∧ t.leds.lamps.living 0 = some o ∧
    o.state.options = { variableName := "::controlwidget::c" } ∧ o.state.recolored = false ∧
    "::controlwidget::c" ∈ t.session.linked ∧
    t.session.written (exampleGlobal "::controlwidget::c") = false ∧
    t.leds.traces (exampleGlobal "::controlwidget::c") = [.led 0] := by
  refine ⟨_, _, _, .trans (.of_runAll rfl ?_) (.single ⟨?_, fun _ _ _ _ => rfl⟩ rfl),
    .of_runAll rfl ?_, rfl, ⟨rfl, rfl, rfl⟩, rfl, rfl, rfl, ?_, rfl, rfl⟩
  · simp [ledOnChannel, EpicsLeds.Fair, LedProcess.Fair, Session.NoGapUpdate]
  · intro hgap
    cases hgap.1
  · simp [EpicsLeds.Own, EpicsLeds.Fair, LedProcess.Fair, Session.NoGapUpdate]
  · exact List.mem_singleton.mpr rfl

/-- The lamp is on. -/
theorem led_shows_update : ∃ t : EpicsLeds (List Char), t.Quiet ∧ t.session.value = "1" ∧
    (t.leds.lamps.living 0).map (·.state.fill) = some "green" := by
  obtain ⟨s, t, o, hrun, hown, hvalue, hquiet, ho, hoptions, hcolored, hlinked, hwritten,
    htraces⟩ := ledOnChannel_run
  have hblocked : ¬ t.leds.Blocked exampleGlobal 0 o.state := by
    intro ⟨j, _, first, rest, hsplit, hmem⟩
    rw [hoptions, htraces] at hsplit
    cases first with
    | nil => cases hmem
    | cons u first => simp at hsplit
  obtain ⟨-, -, hkept, hshows⟩ :=
    leds_follow_channel exampleGlobal_colons rfl (fun _ => none) hrun hown
  have hlit := hshows hquiet 0 o ho (by simp [hoptions]) _ hlinked (by rw [hoptions]) hwritten
    hblocked true (by rw [hvalue]; decide)
  refine ⟨t, hquiet, hkept.trans hvalue, ?_⟩
  rw [ho, Option.map_some, hlit.2 hcolored, hoptions]
  rfl

end

end EpicsTcl.Widget
