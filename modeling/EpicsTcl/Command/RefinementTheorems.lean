/-
EpicsTcl.Command.RefinementTheorems — the two grains of the epics package
agree: every run of the whole process, in which a command runs to its end,
is for each command object that lives a run at the grain of its channel's
monitor.

`ShownIn` relates a session to the object it stands for. The identifiers
that Channel Access hands out differ, since a session has a library of its
own (`withIds`), and of the event queue the session has its own events only.
What the other objects do to the Tcl variables, the session sees as writes
of scripts, and what becomes of the name in its events, as a change of the
registry (`Finds`).

`shownIn_step` is the step lemma, with one lemma for each thing that can
happen to the object itself; the rest of the process is `ShownIn.congr` and
`ShownIn.written`.
-/
import EpicsTcl.Command.EventTheorems
import EpicsTcl.Command.RefreshTheorems
import EpicsTcl.Library.Simulation

namespace EpicsTcl.Channel

/-! ## Identifiers -/

namespace CChannel

/-- The channel with other identifiers. -/
def withIds (chan event : Nat) (c : CChannel) : CChannel :=
  { c with nChannel := chan, updateEventId := event }

variable (chan event : Nat) (c : CChannel)

@[simp] theorem withIds_getValue : (c.withIds chan event).getValue = c.getValue := rfl

@[simp] theorem withIds_setSlot (handler : Option Nat) :
    (c.withIds chan event).setSlot handler = (c.setSlot handler).withIds chan event := rfl

/-- An update does not look at them. -/
theorem withIds_updateHandler (args : EventHandlerArgs) (now : Int) :
    (c.withIds chan event).updateHandler args now =
      ((c.updateHandler args now).1.withIds chan event, (c.updateHandler args now).2) := by
  unfold updateHandler update
  split
  · cases hc : c.pConverter <;> simp [withIds, hc]
  · rfl

/-- A connection event may give the subscription another one. -/
theorem withIds_stateHandler [ChannelAccess] (args : ConnectionHandlerArgs) (ca ca' : CaClient) :
    ∃ event', ((c.withIds chan event).stateHandler args ca).1 =
      (c.stateHandler args ca').1.withIds chan event' := by
  unfold stateHandler
  cases args.op with
  | connUp =>
    cases hup : c.fUpdateHandlerEstablished with
    | false =>
      let type := (c.pConverter.getD (CConversionFactory.converter args.fieldType)).requestType
      exact ⟨(ChannelAccess.createSubscription type chan ca).getD event,
        by simp [type, withIds, hup, CaClient.createSubscription]⟩
    | true => exact ⟨event, by simp [withIds, hup]⟩
  | connDown => exact ⟨event, rfl⟩
  | other => exact ⟨event, rfl⟩

theorem connect_withIds [ChannelAccess] (name : String) (ca ca' : CaClient) :
    ((CChannel.new name).connect ca).1 =
      ((CChannel.new name).connect ca').1.withIds
        ((ChannelAccess.createChannel name ca).getD 0) 0 :=
  rfl

end CChannel

end EpicsTcl.Channel

namespace EpicsTcl.Command

open EpicsTcl.Channel EpicsTcl.Library

/-- The command object with other identifiers in its channel. -/
def CTCLChannelCommand.withIds (chan event : Nat) (c : CTCLChannelCommand) :
    CTCLChannelCommand :=
  { c with pChannel := c.pChannel.withIds chan event }

section

variable {ν : Type*} [CTCLObjectProcessor] [ChannelAccess] {resolve : String → ν} {id : CommandId}

/-! ## A session in the process -/

/-- The session is what the process makes of the object `id`. -/
structure ShownIn (w : World ν) (id : CommandId) (s : Session ν) : Prop where
  object : ∃ chan event, w.objects id = some (s.command.withIds chan event)
  vars : w.interp.vars = s.vars
  events : w.interp.events.filter (·.pChangedChannel = id) = s.events
  named : Session.Named s
  idle : s.thread = .idle

/-- The session finds the name in its events when the process does. -/
def Finds (w : World ν) (s : Session ν) : Prop :=
  s.haveChannel (getName s.command.name) = (w.haveChannel (getName s.command.name)).isSome

namespace ShownIn

variable {w w' : World ν} {s : Session ν}

omit [ChannelAccess] in
/-- The object, the variables and its events are as they were. -/
theorem congr (h : ShownIn w id s) (hobj : w'.objects id = w.objects id)
    (hvars : w'.interp.vars = w.interp.vars)
    (hevents : w'.interp.events.filter (·.pChangedChannel = id) =
      w.interp.events.filter (·.pChangedChannel = id)) : ShownIn w' id s where
  object := by rw [hobj]; exact h.object
  vars := hvars.trans h.vars
  events := hevents.trans h.events
  named := h.named
  idle := h.idle

omit [ChannelAccess] in
/-- The object changes, and with it the session. -/
theorem changed (h : ShownIn w id s) {command : CTCLChannelCommand}
    (hobj : ∃ chan event, w'.objects id = some (command.withIds chan event))
    (hname : command.name = s.command.name) (hvars : w'.interp.vars = w.interp.vars)
    (hevents : w'.interp.events = w.interp.events) :
    ShownIn w' id { s with command } where
  object := hobj
  vars := hvars.trans h.vars
  events := by rw [hevents]; exact h.events
  named := by simpa [Session.Named, hname] using h.named
  idle := h.idle

omit [ChannelAccess] in
theorem name_eq (h : ShownIn w id s) {c : CTCLChannelCommand} (hc : w.objects id = some c) :
    c.name = s.command.name := by
  obtain ⟨chan, event, hobj⟩ := h.object
  rw [hc] at hobj
  rw [Option.some.inj hobj]
  rfl

end ShownIn

/-! ## Writes of others -/

section Writes

variable [DecidableEq ν]

variable (resolve) in
omit [CTCLObjectProcessor] [ChannelAccess] in
/-- Variables after writing one value to several of them. -/
theorem foldl_update_apply (names : List String) (value : String) (vars : ν → Option String)
    (x : ν) :
    names.foldl (fun vars u => Function.update vars (resolve u) (some value)) vars x =
      if ∃ u ∈ names, resolve u = x then some value else vars x := by
  induction names generalizing vars with
  | nil => simp
  | cons u names ih =>
    rw [List.foldl_cons, ih]
    by_cases hx : resolve u = x
    · simp [hx]
    · simp [hx, Function.update_of_ne (Ne.symm hx)]

/-- A script writes one value to several variables, one after the other. -/
theorem run_scriptWrites (resolve : String → ν) (id : CommandId) (names : List String)
    (value : String) {s : Session ν} (hidle : s.thread = .idle) :
    ∃ written, Run (Session.step resolve id) Session.NoGapUpdate s
      (names.map fun u => .scriptWrite u value)
      { s with
        vars := names.foldl (fun vars u => Function.update vars (resolve u) (some value)) s.vars
        written } := by
  induction names generalizing s with
  | nil => exact ⟨s.written, .nil⟩
  | cons u names ih =>
    have hstep : s.step resolve id (.scriptWrite u value) = some { s with
        vars := Function.update s.vars (resolve u) (some value)
        written := Function.update s.written (resolve u) true } := by
      simp [Session.step, hidle]
    obtain ⟨written, hrun⟩ := ih (s := { s with
      vars := Function.update s.vars (resolve u) (some value)
      written := Function.update s.written (resolve u) true }) hidle
    exact ⟨written, (Run.single trivial hstep).trans hrun⟩

/-- Another object gives variables a value. -/
theorem ShownIn.written {w w' : World ν} {s : Session ν} (h : ShownIn w id s)
    (names : List String) (value : String) (hobj : w'.objects id = w.objects id)
    (hvars : ∀ x, w'.interp.vars x =
      if ∃ u ∈ names, resolve u = x then some value else w.interp.vars x)
    (hevents : w'.interp.events.filter (·.pChangedChannel = id) =
      w.interp.events.filter (·.pChangedChannel = id)) :
    ∃ bs s', Run (Session.step resolve id) Session.NoGapUpdate s bs s' ∧ ShownIn w' id s' := by
  obtain ⟨written, hrun⟩ := run_scriptWrites resolve id names value h.idle
  refine ⟨_, _, hrun, ?_, ?_, hevents.trans h.events, h.named, h.idle⟩
  · rw [hobj]
    exact h.object
  · funext x
    have hfold := foldl_update_apply resolve names value s.vars x
    rw [hvars x, h.vars]
    exact hfold.symm

end Writes

/-! ## What happens to the object -/

section Own

variable [DecidableEq ν] {w w' : World ν} {s : Session ν}

/-- The session can follow the process to this state. -/
def Followed (resolve : String → ν) (id : CommandId) (s : Session ν) (w : World ν) : Prop :=
  ∃ bs s', Run (Session.step resolve id) Session.NoGapUpdate s bs s' ∧ ShownIn w id s'

theorem Followed.stay (h : ShownIn w id s) : Followed resolve id s w := ⟨[], s, .nil, h⟩

omit [CTCLObjectProcessor] [ChannelAccess] in
theorem beginLink_thread (varname : String) :
    (s.beginLink resolve id varname).thread = .inLink := by
  unfold Session.beginLink
  cases s.command.find varname <;> rfl

theorem ShownIn.link (inv : WorldInv resolve w) (h : ShownIn w id s) (name varname : String) :
    Followed resolve id s (w.link resolve id [name, "link", varname]).2 := by
  obtain ⟨chan, event, hobj⟩ := h.object
  cases hlinked : w.isLinked id varname with
  | true =>
    rw [World.link_rejected hobj hlinked]
    exact .stay (h.congr rfl rfl rfl)
  | false =>
    have hbegin : s.step resolve id (.link varname) = some (s.beginLink resolve id varname) := by
      simp [Session.step, h.idle]
    have hend : (s.beginLink resolve id varname).step resolve id .resume =
        some ((s.beginLink resolve id varname).endLink id) := by
      simp [Session.step, beginLink_thread]
    have hrun : Run (Session.step resolve id) Session.NoGapUpdate s [.link varname, .resume]
        ((s.beginLink resolve id varname).endLink id) := .pair trivial hbegin trivial hend
    refine ⟨_, _, hrun, ?_⟩
    unfold Session.beginLink
    cases hfind : s.command.find varname with
    | some i =>
      rw [World.link_again hobj hlinked hfind]
      exact ⟨⟨chan, event, by simp [Session.endLink]; rfl⟩, h.vars, h.events, h.named, rfl⟩
    | none =>
      obtain ⟨ca, heq⟩ := World.link_new hobj name hlinked hfind (inv.trace_unlinked hobj hfind)
      rw [heq]
      refine ⟨⟨chan, event, by simp [Session.endLink]; rfl⟩, ?_, h.events, h.named, rfl⟩
      simp [Session.endLink, Session.newEpicsValue, h.vars]
      rfl

theorem ShownIn.unlink (h : ShownIn w id s) (name varname : String) :
    Followed resolve id s (w.unlink resolve id [name, "unlink", varname]).2 := by
  obtain ⟨chan, event, hobj⟩ := h.object
  have hstep : s.step resolve id (.unlink varname) = some (s.unlink varname) := by
    simp [Session.step, h.idle]
  have hrun : Run (Session.step resolve id) Session.NoGapUpdate s [.unlink varname]
      (s.unlink varname) := .single trivial hstep
  refine ⟨_, _, hrun, ?_⟩
  unfold Session.unlink
  cases hfind : s.command.find varname with
  | none =>
    rw [World.unlink_rejected hobj hfind]
    exact h.congr rfl rfl rfl
  | some i =>
    obtain ⟨-, hname⟩ := CTCLChannelCommand.find_some hfind
    by_cases hcount : i.pLinkedVar.dereference.referenceCount = 0
    · rw [World.unlink_last hobj hfind hcount]
      simp only [hcount, if_true, hname]
      refine h.changed ⟨chan, event, ?_⟩ rfl rfl rfl
      by_cases hnil : s.command.linkedVariables.eraseP (·.varname = varname) = []
      · simp [CTCLChannelCommand.withIds, hnil]
      · simp [CTCLChannelCommand.withIds, hnil]
    · rw [World.unlink_more hobj hfind hcount]
      simp only [hcount, if_false]
      exact h.changed ⟨chan, event, by simp; rfl⟩ rfl rfl rfl

omit [ChannelAccess] in
/-- A refresh of the object's own variables. -/
theorem ShownIn.refresh (inv : WorldInv resolve w) (h : ShownIn w id s)
    (hw : w.updateLinkedVariable resolve id = some w') :
    ShownIn w' id (s.updateLinkedVariable resolve) := by
  obtain ⟨chan, event, hobj⟩ := h.object
  obtain ⟨vars, traces, ca, heq, -, hnew⟩ := World.refresh_frame s.value
    (s.command.linkedVariables.map (·.pLinkedVar)) w inv.traces_nodup (inv.linked_traces hobj)
  have hw' : some { w with interp := { w.interp with vars, traces }, ca } = some w' := by
    rw [← hw, ← heq]
    simp only [World.updateLinkedVariable, hobj]
    rfl
  obtain rfl := Option.some.inj hw'
  obtain ⟨vars', written, hsession, -⟩ := refreshAll_frame resolve
    (s.command.linkedVariables.map (·.pLinkedVar)) s
  have hold := refreshAll_vars resolve (s.command.linkedVariables.map (·.pLinkedVar)) s
  have hvars : vars = vars' := by
    funext x
    have hx := hold x
    rw [hsession] at hx
    rw [hnew x, h.vars]
    exact hx.symm
  unfold Session.updateLinkedVariable
  rw [hsession]
  exact ⟨⟨chan, event, hobj⟩, hvars, h.events, h.named, h.idle⟩

omit [ChannelAccess] in
/-- `update` of the object in the interpreter's own thread. -/
theorem ShownIn.update (inv : WorldInv resolve w) (h : ShownIn w id s) (hfinds : Finds w s)
    (hw : w.update resolve ⟨id, getName s.command.name⟩ = some w') :
    ShownIn w' id (s.update resolve (getName s.command.name)) := by
  unfold Finds at hfinds
  unfold Session.update World.update at *
  cases hfound : w.haveChannel (getName s.command.name) with
  | none =>
    rw [hfound] at hfinds
    simp only [hfound, Option.some.injEq] at hw
    rw [if_neg (by simp [hfinds]), ← hw]
    exact h
  | some info =>
    rw [hfound] at hfinds
    simp only [hfound] at hw
    rw [if_pos (by simp [hfinds])]
    exact h.refresh inv hw

/-- A refresh of the variables of any object. -/
theorem ShownIn.refreshed (inv : WorldInv resolve w) (h : ShownIn w id s) {other : CommandId}
    (hw : w.updateLinkedVariable resolve other = some w') : Followed resolve id s w' := by
  unfold World.updateLinkedVariable at hw
  cases hc : w.objects other with
  | none => simp [hc] at hw
  | some c =>
    obtain ⟨vars, traces, ca, heq, -, hnew⟩ := World.refresh_frame c.pChannel.getValue
      (c.linkedVariables.map (·.pLinkedVar)) w inv.traces_nodup (inv.linked_traces hc)
    simp only [hc, heq, Option.some.injEq] at hw
    subst hw
    refine h.written ((c.linkedVariables.map (·.pLinkedVar)).map (·.sVariable))
      c.pChannel.getValue rfl (fun x => (hnew x).trans ?_) rfl
    simp

/-- An event for the object is dispatched. -/
theorem ShownIn.dispatch (inv : WorldInv resolve w) (h : ShownIn w id s) {ev : ChangeEvent}
    {rest : List ChangeEvent} (hq : w.interp.events = ev :: rest) (hid : ev.pChangedChannel = id)
    (hfinds : Finds w s)
    (hw : ({ w with interp := { w.interp with events := rest } } : World ν).update resolve ev =
      some w') : Followed resolve id s w' := by
  have hfilter := h.events
  rw [hq, List.filter_cons_of_pos (by simpa using hid)] at hfilter
  have inv' : WorldInv resolve { w with interp := { w.interp with events := rest } } :=
    inv.congr rfl rfl (fun _ => rfl) (.refl _)
  -- the session without the event, and what the refresh makes of it
  let s₀ : Session ν := { s with events := rest.filter (·.pChangedChannel = id) }
  have h₀ : ShownIn { w with interp := { w.interp with events := rest } } id s₀ := by
    refine ⟨h.object, h.vars, rfl, fun e he => h.named e ?_, h.idle⟩
    rw [← hfilter]
    exact List.mem_cons_of_mem ev he
  have hname : ev.channelName = getName s.command.name := h.named ev (by rw [← hfilter]; simp)
  have hstep : s.step resolve id .dispatch =
      if s.haveChannel ev.channelName then
        some { s₀ with thread := Session.updating (s.command.linkedVariables.map (·.pLinkedVar)) }
      else some s₀ := by
    simp [Session.step, h.idle, ← hfilter, s₀]
  have hregistered : ({ w with interp := { w.interp with events := rest } } : World ν).haveChannel
      ev.channelName = w.haveChannel ev.channelName := rfl
  unfold Finds at hfinds
  rw [← hname] at hfinds
  cases hfound : w.haveChannel ev.channelName with
  | none =>
    -- the name is not registered, and both ignore the event
    rw [hfound] at hfinds
    rw [World.update, hregistered, hfound] at hw
    cases hw
    have hignored : s.step resolve id .dispatch = some s₀ := by
      rw [hstep, hfinds]
      rfl
    have hrun : Run (Session.step resolve id) Session.NoGapUpdate s [.dispatch] s₀ :=
      .single trivial hignored
    exact ⟨_, _, hrun, h₀⟩
  | some info =>
  rw [hfound] at hfinds
  rw [World.update, hregistered, hfound, hid] at hw
  have hend := h₀.refresh inv' hw
  let vs := s.command.linkedVariables.map (·.pLinkedVar)
  have hdispatch : s.step resolve id .dispatch =
      some { s₀ with thread := Session.updating vs } := by
    rw [hstep, hfinds]
    rfl
  have hresumes : Run (Session.step resolve id) Session.NoGapUpdate
      { s₀ with thread := Session.updating vs }
      (List.replicate vs.length .resume)
      { s₀.updateLinkedVariable resolve with thread := .idle } :=
    .of_runAll (resume_alone vs s₀) fun a ha t => by
      rw [List.eq_of_mem_replicate ha]
      trivial
  have hfirst : Run (Session.step resolve id) Session.NoGapUpdate s [.dispatch]
      { s₀ with thread := Session.updating vs } := .single trivial hdispatch
  refine ⟨_, _, hfirst.trans hresumes, hend.object, hend.vars, hend.events, hend.named, rfl⟩

/-- A connection event of the object. -/
theorem ShownIn.connection (h : ShownIn w id s) {args : ConnectionHandlerArgs}
    (hw : w.step resolve (.connection id args) = some w') : Followed resolve id s w' := by
  obtain ⟨chan, event, hobj⟩ := h.object
  obtain ⟨c, hc, rfl⟩ := World.connection_cases hw
  rw [hobj] at hc
  obtain rfl := Option.some.inj hc
  obtain ⟨event', hstate⟩ :=
    CChannel.withIds_stateHandler chan event s.command.pChannel args w.ca {}
  have hrun : Run (Session.step resolve id) Session.NoGapUpdate s [.connection args] _ :=
    .single trivial rfl
  refine ⟨_, _, hrun, h.changed ⟨chan, event', ?_⟩ rfl rfl rfl⟩
  simp only [World.setObject_objects, Function.update_self]
  rw [show (CTCLChannelCommand.withIds chan event s.command).pChannel =
    s.command.pChannel.withIds chan event from rfl, hstate]
  rfl

/-- An update of the object. -/
theorem ShownIn.epicsUpdate (inv : WorldInv resolve w) (h : ShownIn w id s) (hfinds : Finds w s)
    {args : EventHandlerArgs} {now : Int} {inTclThread : Bool}
    (hw : w.step resolve (.epicsUpdate id args now inTclThread) = some w') :
    Followed resolve id s w' := by
  obtain ⟨chan, event, hobj⟩ := h.object
  obtain ⟨c, hc, hslot⟩ := World.epicsUpdate_cases hw
  rw [hobj] at hc
  obtain rfl := Option.some.inj hc
  have hupdate := CChannel.withIds_updateHandler chan event s.command.pChannel args now
  have hstep : s.step resolve id (.epicsUpdate args now inTclThread) =
      some (s.epicsUpdate resolve args now inTclThread) := by
    simp [Session.step, h.idle]
  have hok : s.NoGapUpdate (.epicsUpdate args now inTclThread) := by
    intro hgap
    have hin := hgap.1
    rw [h.idle] at hin
    cases hin
  have hrun : Run (Session.step resolve id) Session.NoGapUpdate s
      [.epicsUpdate args now inTclThread] (s.epicsUpdate resolve args now inTclThread) :=
    .single hok hstep
  refine ⟨_, _, hrun, ?_⟩
  -- the object after the handler, and the session that shows it
  let c₁ : CTCLChannelCommand :=
    { s.command with pChannel := (s.command.pChannel.updateHandler args now).1 }
  have hc₁ : ({ CTCLChannelCommand.withIds chan event s.command with
      pChannel := ((s.command.pChannel.withIds chan event).updateHandler args now).1 } :
      CTCLChannelCommand) = c₁.withIds chan event := by
    rw [hupdate]
    rfl
  have h₁ : ShownIn (w.setObject id (c₁.withIds chan event)) id { s with command := c₁ } :=
    h.changed ⟨chan, event, by simp⟩ rfl rfl rfl
  have inv₁ : WorldInv resolve (w.setObject id (c₁.withIds chan event)) := by
    rw [← hc₁]
    exact inv.replace_channel hobj _ (CChannel.updateHandler_pHandler ..)
  rw [show (CTCLChannelCommand.withIds chan event s.command).pChannel =
    s.command.pChannel.withIds chan event from rfl, hc₁, hupdate] at hslot
  unfold Session.epicsUpdate
  obtain ⟨hnone, rfl⟩ | ⟨this, hsome, hmark⟩ := hslot
  · simp only at hnone
    simp only [hnone]
    exact h₁
  · simp only at hsome
    have hthis : this = id := by
      have hfires := CChannel.updateHandler_fires hsome
      have hown := inv.slot id _ hobj
      rw [show (CTCLChannelCommand.withIds chan event s.command).pChannel.pHandler =
        s.command.pChannel.pHandler from rfl, hfires] at hown
      split at hown
      · cases hown
      · exact Option.some.inj hown
    subst hthis
    simp only [hsome]
    obtain ⟨c', hc', ⟨rfl, hnow⟩ | ⟨rfl, rfl⟩⟩ := World.markChange_cases hmark
    · have hname : c'.name = s.command.name := h₁.name_eq hc'
      rw [hname] at hnow
      exact h₁.update inv₁ hfinds hnow
    · have hname : c'.name = s.command.name := h₁.name_eq hc'
      refine ⟨h₁.object, h₁.vars, ?_, ?_, h.idle⟩
      · rw [List.filter_append, h₁.events, hname]
        simp
      · intro ev hev
        rcases List.mem_append.mp hev with hev | hev
        · exact h.named ev hev
        · rw [List.mem_singleton.mp hev]
          rfl

end Own

/-! ## The whole process -/

section Process

variable [DecidableEq ν] {w w' : World ν} {s : Session ν}

theorem ShownIn.link_other (inv : WorldInv resolve w) (h : ShownIn w id s) {other : CommandId}
    {c : CTCLChannelCommand} (hc : w.objects other = some c) (hne : other ≠ id)
    (name varname : String) :
    Followed resolve id s (w.link resolve other [name, "link", varname]).2 := by
  cases hlinked : w.isLinked other varname with
  | true =>
    rw [World.link_rejected hc hlinked]
    exact .stay (h.congr rfl rfl rfl)
  | false =>
    cases hfind : c.find varname with
    | some i =>
      rw [World.link_again hc hlinked hfind]
      exact .stay (h.congr (by simp [Function.update_of_ne hne.symm]) rfl rfl)
    | none =>
      obtain ⟨ca, heq⟩ := World.link_new hc name hlinked hfind (inv.trace_unlinked hc hfind)
      rw [heq]
      refine h.written [varname] c.pChannel.getValue (by simp [Function.update_of_ne hne.symm])
        (fun x => ?_) rfl
      by_cases hx : resolve varname = x
      · simp [hx]
      · simp [hx, Function.update_of_ne (Ne.symm hx)]

omit [ChannelAccess] in
theorem ShownIn.unlink_other (h : ShownIn w id s) {other : CommandId} {c : CTCLChannelCommand}
    (hc : w.objects other = some c) (hne : other ≠ id) (name varname : String) :
    ShownIn (w.unlink resolve other [name, "unlink", varname]).2 id s := by
  cases hfind : c.find varname with
  | none =>
    rw [World.unlink_rejected hc hfind]
    exact h.congr rfl rfl rfl
  | some i =>
    by_cases hcount : i.pLinkedVar.dereference.referenceCount = 0
    · rw [World.unlink_last hc hfind hcount]
      exact h.congr (by simp [Function.update_of_ne hne.symm]) rfl rfl
    · rw [World.unlink_more hc hfind hcount]
      exact h.congr (by simp [Function.update_of_ne hne.symm]) rfl rfl

/-- A command. -/
theorem ShownIn.run (inv : WorldInv resolve w) (h : ShownIn w id s) (cmd : TclCommand)
    (halive : (w.run resolve cmd).2.objects id ≠ none) :
    Followed resolve id s (w.run resolve cmd).2 := by
  obtain ⟨chan, event, hobj⟩ := h.object
  cases cmd with
  | epicschannel name =>
    cases hname : w.haveChannel name with
    | some info =>
      rw [World.run_epicschannel_registered hname]
      exact .stay (h.congr rfl rfl rfl)
    | none =>
      have hne : id ≠ w.nextObject := Nat.ne_of_lt (inv.fresh _ _ hobj)
      rw [World.run_epicschannel_new hname]
      exact .stay (h.congr (by simp [Function.update_of_ne hne]) rfl rfl)
  | delete name =>
    rcases World.run_delete_cases resolve w name with heq | heq <;> rw [heq] at halive ⊢
    · exact .stay h
    cases hname : w.haveChannel (getName name) with
    | none =>
      rw [World.deleteChannel_unregistered hname]
      exact .stay h
    | some info =>
      obtain ⟨c, hc, -⟩ := inv.lookup hname
      rcases World.deleteChannel_cases resolve hname with ⟨-, heq⟩ | ⟨-, heq⟩ <;>
        rw [heq] at halive ⊢
      · exact .stay (h.congr rfl rfl rfl)
      · rw [World.destroyCommand_eq
          (w := { w with channelInfo := w.channelInfo.erase (getName name) }) hc] at halive ⊢
        have hne : id ≠ info.pChannel := fun heq => halive (by simp [heq])
        exact .stay (h.congr (by simp [Function.update_of_ne hne]) rfl rfl)
  | link name varname =>
    cases hname : w.haveChannel name with
    | none =>
      have hrun : w.run resolve (.link name varname) = (.error, w) := by
        simp [World.run, World.onChannel_unregistered hname]
      rw [hrun]
      exact .stay h
    | some info =>
      obtain ⟨c, hc, -⟩ := inv.lookup hname
      rw [World.run_link hname]
      by_cases hid : info.pChannel = id
      · rw [hid]
        exact h.link inv name varname
      · exact h.link_other inv hc hid name varname
  | unlink name varname =>
    cases hname : w.haveChannel name with
    | none =>
      have hrun : w.run resolve (.unlink name varname) = (.error, w) := by
        simp [World.run, World.onChannel_unregistered hname]
      rw [hrun]
      exact .stay h
    | some info =>
      obtain ⟨c, hc, -⟩ := inv.lookup hname
      rw [World.run_unlink hname]
      by_cases hid : info.pChannel = id
      · rw [hid]
        exact h.unlink name varname
      · exact .stay (h.unlink_other hc hid name varname)
  | listlinks name =>
    cases hname : w.haveChannel name with
    | none =>
      have hrun : w.run resolve (.listlinks name) = (.error, w) := by
        simp [World.run, World.onChannel_unregistered hname]
      rw [hrun]
      exact .stay h
    | some info =>
      obtain ⟨c, hc, -⟩ := inv.lookup hname
      rw [World.run_listlinks hname hc]
      exact .stay (h.congr rfl rfl rfl)

/-- An update of another object. -/
theorem ShownIn.epicsUpdate_other (inv : WorldInv resolve w) (h : ShownIn w id s)
    {other : CommandId} (hne : other ≠ id) {args : EventHandlerArgs} {now : Int}
    {inTclThread : Bool} (hw : w.step resolve (.epicsUpdate other args now inTclThread) = some w') :
    Followed resolve id s w' := by
  obtain ⟨c, hc, hslot⟩ := World.epicsUpdate_cases hw
  have inv₁ := inv.replace_channel hc (c.pChannel.updateHandler args now).1
    (CChannel.updateHandler_pHandler ..)
  have h₁ : ShownIn (w.setObject other
      { c with pChannel := (c.pChannel.updateHandler args now).1 }) id s :=
    h.congr (by simp [Function.update_of_ne hne.symm]) rfl rfl
  obtain ⟨-, rfl⟩ | ⟨this, hsome, hmark⟩ := hslot
  · exact .stay h₁
  · have hthis : this = other := by
      have hfires := CChannel.updateHandler_fires hsome
      rw [inv.slot other c hc] at hfires
      split at hfires
      · cases hfires
      · exact (Option.some.inj hfires).symm
    subst hthis
    obtain ⟨c', hc', ⟨rfl, hnow⟩ | ⟨rfl, rfl⟩⟩ := World.markChange_cases hmark
    · unfold World.update at hnow
      split at hnow
      · exact h₁.refreshed inv₁ hnow
      · cases hnow
        exact .stay h₁
    · exact .stay (h₁.congr rfl rfl (by simp [List.filter_append, hne]))

/-- **One step of the process is a run of every session that it shows.** -/
theorem shownIn_step (inv : WorldInv resolve w) (h : ShownIn w id s) (hfinds : Finds w s)
    {a : Action} (hw : w.step resolve a = some w') (halive : w'.objects id ≠ none) :
    Followed resolve id s w' := by
  cases a with
  | command cmd =>
    cases hw
    exact h.run inv cmd halive
  | scriptWrite varname value =>
    cases hw
    obtain ⟨ca, heq⟩ := World.setVar_frame resolve (resolve varname) value w
    rw [heq]
    refine h.written [varname] value rfl (fun x => ?_) rfl
    by_cases hx : resolve varname = x
    · simp [hx]
    · simp [hx, Function.update_of_ne (Ne.symm hx)]
  | connection other args =>
    by_cases hid : other = id
    · subst hid
      exact h.connection hw
    · obtain ⟨c, -, rfl⟩ := World.connection_cases hw
      exact .stay (h.congr (by simp [Function.update_of_ne (Ne.symm hid)]) rfl rfl)
  | epicsUpdate other args now inTclThread =>
    by_cases hid : other = id
    · subst hid
      exact h.epicsUpdate inv hfinds hw
    · exact h.epicsUpdate_other inv hid hw
  | dispatch =>
    obtain ⟨ev, rest, hq, hupdate⟩ := World.dispatch_cases hw
    by_cases hid : ev.pChangedChannel = id
    · exact h.dispatch inv hq hid hfinds hupdate
    · have inv₀ : WorldInv resolve { w with interp := { w.interp with events := rest } } :=
        inv.congr rfl rfl (fun _ => rfl) (.refl _)
      have h₀ : ShownIn { w with interp := { w.interp with events := rest } } id s :=
        h.congr rfl rfl (by simp [hq, hid])
      unfold World.update at hupdate
      split at hupdate
      · exact h₀.refreshed inv₀ hupdate
      · cases hupdate
        exact .stay h₀

/-- A step that makes an object makes a session. -/
theorem shownIn_new (inv : WorldInv resolve w) (hknown : EventsKnown w) {a : Action}
    (hw : w.step resolve a = some w') (hnone : w.objects id = none) {c : CTCLChannelCommand}
    (hc : w'.objects id = some c) :
    ShownIn w' id (Session.initial c.name w.interp.vars) := by
  have inv' := inv.step hw
  obtain ⟨hcases, -⟩ := inv.step_cases hw
  rcases hcases with ⟨name, rfl, hname, -, -⟩ | ⟨hreg, -⟩
  · have hw' : w' = (w.run resolve (.epicschannel name)).2 := (Option.some.inj hw).symm
    rw [World.run_epicschannel_new hname] at hw'
    subst hw'
    have hid : id = w.nextObject := by
      by_contra hne
      simp [Function.update_of_ne hne, hnone] at hc
    subst hid
    simp only [Function.update_self, Option.some.injEq] at hc
    subst hc
    have hevents : w.interp.events.filter (·.pChangedChannel = w.nextObject) = [] := by
      rw [List.filter_eq_nil_iff]
      intro ev hev
      have hlt := hknown ev hev
      simp [Nat.ne_of_lt hlt]
    refine ⟨⟨(ChannelAccess.createChannel name w.ca).getD 0, 0, ?_⟩, rfl, hevents, ?_, rfl⟩
    case refine_2 =>
      intro ev hev
      cases hev
    simp only [Function.update_self]
    rw [CChannel.connect_withIds name w.ca {}]
    rfl
  · -- no other step registers an object that was not there before
    obtain ⟨c', hc', -⟩ := inv.registered _ _ (hreg _ _ (inv'.alive _ _ hc))
    rw [hnone] at hc'
    cases hc'

/-- The session hears of the registry of the process. -/
theorem ShownIn.finds (inv : WorldInv resolve w) (h : ShownIn w id s) :
    ∃ s', Run (Session.step resolve id) Session.NoGapUpdate s
        [.registry (w.haveChannel (getName s.command.name)).isSome] s' ∧
      s'.command = s.command ∧ ShownIn w id s' ∧ Finds w s' := by
  refine ⟨{ s with others := (w.haveChannel (getName s.command.name)).isSome },
    .single trivial (by simp [Session.step, h.idle]), rfl,
    ⟨h.object, h.vars, h.events, h.named, h.idle⟩, ?_⟩
  unfold Finds Session.haveChannel
  by_cases hname : getName s.command.name = s.command.name
  · obtain ⟨chan, event, hobj⟩ := h.object
    obtain ⟨info, hinfo, -⟩ := inv.entry hobj
    have hinfo : w.haveChannel s.command.name = some info := hinfo
    simp [hname, hinfo]
  · simp [hname]

end Process

/-! ## Runs -/

variable [DecidableEq ν]

/-- A session keeps its name. -/
theorem session_name {s s' : Session ν} {as : List SessionAction} (hnamed : Session.Named s)
    (hrun : Run (Session.step resolve id) Session.NoGapUpdate s as s') :
    s'.command.name = s.command.name :=
  (hrun.invariant (fun t => Session.Named t ∧ t.command.name = s.command.name) ⟨hnamed, rfl⟩
    fun _ _ _ ⟨hnamed, hname⟩ _ hstep =>
      ⟨(Session.named_step hnamed hstep).1, (Session.named_step hnamed hstep).2.trans hname⟩).2

/-- Every object that lives is shown by a session. -/
def Shown (resolve : String → ν) (w : World ν) : Prop :=
  ∀ id c, w.objects id = some c → ∃ vars₀ bs s,
    Run (Session.step resolve id) Session.NoGapUpdate (Session.initial c.name vars₀) bs s ∧
    ShownIn w id s ∧ Finds w s

theorem shown_step {w w' : World ν} (inv : WorldInv resolve w) (hknown : EventsKnown w)
    (hshown : Shown resolve w) {a : Action} (hstep : w.step resolve a = some w') :
    Shown resolve w' := by
  intro id c hc
  have inv' := inv.step hstep
  cases hold : w.objects id with
  | none =>
    obtain ⟨s', hrun, -, hs', hfinds⟩ := (shownIn_new inv hknown hstep hold hc).finds inv'
    exact ⟨_, _, s', hrun, hs', hfinds⟩
  | some c₀ =>
    obtain ⟨vars₀, bs, s, hbs, hs, hfinds⟩ := hshown id c₀ hold
    obtain ⟨cs, s', hcs, hs'⟩ := shownIn_step inv hs hfinds hstep (by simp [hc])
    obtain ⟨s'', hregistry, -, hs'', hfinds''⟩ := hs'.finds inv'
    have hname : c.name = c₀.name := by
      rw [hs'.name_eq hc, hs.name_eq hold]
      exact session_name hs.named hcs
    rw [hname]
    exact ⟨vars₀, _, s'', (hbs.trans hcs).trans hregistry, hs'', hfinds''⟩

theorem shown_reachable {vars : ν → Option String} {as : List Action} {w : World ν}
    (hrun : Run (World.step resolve) Always (World.initial vars) as w) : Shown resolve w := by
  have hall : WorldInv resolve w ∧ EventsKnown w ∧ Shown resolve w := by
    refine hrun.invariant (fun w => WorldInv resolve w ∧ EventsKnown w ∧ Shown resolve w) ?_ ?_
    · refine ⟨.initial vars, ?_, ?_⟩
      · intro ev hev
        cases hev
      · intro id c hc
        cases hc
    · intro w a w' hw _ hstep
      obtain ⟨inv, hknown, hshown⟩ := hw
      exact ⟨inv.step hstep, eventsKnown_step inv hknown hstep,
        shown_step inv hknown hshown hstep⟩
  exact hall.2.2

/-- A session under a name that Tcl keeps keeps the invariant. -/
theorem sessionInv_of_getName {name : String} (hname : getName name = name)
    {vars : ν → Option String} {bs : List SessionAction} {s : Session ν}
    (hrun : Run (Session.step resolve id) Session.NoGapUpdate (Session.initial name vars) bs s) :
    SessionInv resolve s := by
  have hnamed : Session.Named (Session.initial name vars) := by
    intro ev hev
    cases hev
  refine (hrun.invariant
    (fun t => SessionInv resolve t ∧ Session.Named t ∧ t.command.name = name)
    ⟨sessionInv_initial name vars, hnamed, rfl⟩ ?_).1
  rintro t a t' ⟨inv, hnamed, hsame⟩ hok hstep
  have hheard := Session.heard_of_getName hnamed (by rw [hsame, hname]) a
  obtain ⟨hnamed', hsame'⟩ := Session.named_step hnamed hstep
  exact ⟨sessionInv_step inv ⟨hok, hheard⟩ hstep, hnamed', hsame'.trans hsame⟩

end

section

attribute [local instance] CTCLObjectProcessor.global ChannelAccess.numbering

/-- A channel is linked, connects and has a value, which is dispatched. -/
def linkedRun : List Action :=
  [.command (.epicschannel "a"), .command (.link "a" "x"), .connection 0 ⟨.connUp, dbfString⟩,
    .epicsUpdate 0 ⟨1, 1, [0x37, 0]⟩ 5 false, .dispatch]

end

end EpicsTcl.Command
