/-
EpicsTcl.Widget.FollowTheorems — an `epicsButton` follows its state channel.

`ButtonInv` carries it: an update of the channel is announced — by a trace
that is about to run, by the timer of the constructor, by a queued event, by
a refresh that has yet to come to the variable — or the button shows what the
channel reads. `shown_step` has one case for each thing that can happen.

A linked variable can miss an update that falls between the two halves of
`link`; the button cannot, because the constructor asks once more after it
has linked its variable.
-/
import EpicsTcl.Widget.ButtonProcess

namespace EpicsTcl.Widget

open EpicsTcl.Channel EpicsTcl.Command EpicsTcl.Library

variable {ν : Type} {resolve : String → ν} {this : CommandId} {env : ButtonEnvironment}

/-- The state that goes with a truth value. -/
def OnOff.ofBool : Bool → OnOff
  | true => .on
  | false => .off

namespace ButtonProcess

/-- The button shows what the channel reads. -/
def Shows (env : ButtonEnvironment) (s : ButtonProcess ν) : Prop :=
  ∀ b, s.reading env = some b → s.widget.button.state = .ofBool b

/-- `update` is going to be called. -/
def Announced (resolve : String → ν) (s : ButtonProcess ν) : Prop :=
  s.tracing = true ∨ s.timer = true ∨ s.session.events ≠ [] ∨
    ∃ v ∈ s.session.rest, resolve v.sVariable = resolve s.variableName

end ButtonProcess

open ButtonProcess

/-- The invariant. -/
structure ButtonInv (resolve : String → ν) (env : ButtonEnvironment) (s : ButtonProcess ν) :
    Prop where
  looks : s.widget.button.Looks env.color
  named : ∀ i ∈ s.session.command.linkedVariables, i.pLinkedVar.sVariable = i.varname
  linked : s.stage ≠ .before → s.variableName ∈ s.session.linked
  linking : s.stage = .linking → s.session.thread = .inLink
  slot : s.stage = .done → s.session.command.pChannel.pHandler ≠ none
  untimed : s.stage ≠ .done → s.timer = false
  untraced : s.stage ≠ .done → s.tracing = false
  shown : s.stage = .done → s.heard = true → s.called = false →
    s.Announced resolve ∨ s.Shows env

theorem buttonInv_initial [ChannelAccess] (name : String) (vars : ν → Option String)
    {widget : EpicsButton} (hlooks : widget.button.Looks env.color) :
    ButtonInv resolve env (ButtonProcess.initial name vars widget) where
  looks := hlooks
  named := by intro i hi; cases hi
  linked := by intro h; exact absurd rfl h
  linking := by intro h; cases h
  slot := by intro h; cases h
  untimed := fun _ => rfl
  untraced := fun _ => rfl
  shown := by intro h; cases h

/-! ## update -/

section Update

variable {s : ButtonProcess ν}

/-- `update` changes the button and nothing else. -/
theorem update_frame (env : ButtonEnvironment) (s : ButtonProcess ν) :
    ∃ button called, s.update env = { s with widget := { s.widget with button }, called } ∧
      button.options = s.widget.button.options := by
  unfold ButtonProcess.update
  cases s.reading env with
  | none => exact ⟨s.widget.button, s.called, rfl, rfl⟩
  | some b => cases b <;> exact ⟨_, false, rfl, OnoffButton.call_options _ _⟩

theorem update_pending (s : ButtonProcess ν) :
    (s.update env).tracing = s.tracing ∧ (s.update env).timer = s.timer := by
  obtain ⟨button, called, hframe, -⟩ := update_frame env s
  rw [hframe]
  exact ⟨rfl, rfl⟩

/-- Nor does it look at what called it. -/
theorem update_tracing (s : ButtonProcess ν) (tracing : Bool) :
    { ({ s with tracing } : ButtonProcess ν).update env with
      tracing := s.tracing, timer := s.timer } = s.update env := by
  unfold ButtonProcess.update
  rw [show ({ s with tracing } : ButtonProcess ν).reading env = s.reading env from rfl]
  cases s.reading env <;> rfl

theorem update_looks (h : s.widget.button.Looks env.color) :
    (s.update env).widget.button.Looks env.color := by
  unfold ButtonProcess.update
  cases s.reading env with
  | none => exact h
  | some b =>
    cases b with
    | true => exact OnoffButton.looks_call h .on
    | false => exact OnoffButton.looks_call h .off

theorem update_shows (env : ButtonEnvironment) (s : ButtonProcess ν) :
    (s.update env).Shows env := by
  intro b hb
  obtain ⟨button, called, hframe, -⟩ := update_frame env s
  have hreading : s.reading env = some b := by
    rw [hframe] at hb
    exact hb
  unfold ButtonProcess.update
  rw [hreading]
  cases b with
  | true => exact OnoffButton.call_state s.widget.button .on
  | false => exact OnoffButton.call_state s.widget.button .off

/-- After `update`, with whatever was about to call it. -/
theorem ButtonInv.update (inv : ButtonInv resolve env s) (hdone : s.stage = .done)
    (tracing timer : Bool) :
    ButtonInv resolve env { s.update env with tracing, timer } := by
  have hlooks := update_looks inv.looks
  have hshows := update_shows env s
  obtain ⟨button, called, hframe, -⟩ := update_frame env s
  rw [hframe] at hlooks hshows ⊢
  refine ⟨hlooks, inv.named, inv.linked, inv.linking, inv.slot, ?_, ?_, ?_⟩
  · exact fun h => absurd hdone h
  · exact fun h => absurd hdone h
  · exact fun _ _ _ => .inr hshows

end Update

/-! ## Links -/

section Links

variable [DecidableEq ν] {s : Session ν}

/-- `Link` up to its `setSlot` may add an entry, and changes no channel. -/
theorem beginLink_frame (resolve : String → ν) (this : CommandId)
    (hnamed : ∀ i ∈ s.command.linkedVariables,
      i.pLinkedVar.sVariable = i.varname) (varname : String) :
    ∃ links vars written, s.beginLink resolve this varname =
        { s with
          command := { s.command with linkedVariables := links }, vars, written
          thread := .inLink } ∧
      (∀ i ∈ links, i.pLinkedVar.sVariable = i.varname) ∧
      (∀ u ∈ s.linked, u ∈ links.map (·.varname)) ∧ varname ∈ links.map (·.varname) := by
  unfold Session.beginLink
  cases hfind : s.command.find varname with
  | some i =>
    obtain ⟨hi, hvar⟩ := CTCLChannelCommand.find_some hfind
    refine ⟨_, s.vars, s.written, rfl, ?_, ?_, ?_⟩
    · intro j hj
      rcases CTCLChannelCommand.of_mem_updateLinked hj with hj | hj
      · rw [hj, ← hvar]
        exact hnamed i hi
      · exact hnamed j hj
    · intro u hu
      rwa [CTCLChannelCommand.updateLinked_varname]
    · rw [CTCLChannelCommand.updateLinked_varname, ← hvar]
      exact List.mem_map_of_mem hi
  | none =>
    refine ⟨_, _, _, rfl, ?_, ?_, ?_⟩
    · intro j hj
      rcases List.mem_append.mp hj with hj | hj
      · exact hnamed j hj
      · rw [List.mem_singleton.mp hj]
    · intro u hu
      rw [List.map_append]
      exact List.mem_append_left _ hu
    · simp

omit [DecidableEq ν] in
/-- `Unlink` drops at most the entry of its variable, and takes the slot off
only with the last one. -/
theorem unlink_frame (hnamed : ∀ i ∈ s.command.linkedVariables,
      i.pLinkedVar.sVariable = i.varname) (varname : String) :
    ∃ links handler, s.unlink varname =
        { s with command := { s.command with
            linkedVariables := links
            pChannel := s.command.pChannel.setSlot handler } } ∧
      (∀ i ∈ links, i.pLinkedVar.sVariable = i.varname) ∧
      (∀ u ∈ s.linked, (u = varname → ∀ i, s.command.find varname = some i →
        i.pLinkedVar.dereference.referenceCount ≠ 0) → u ∈ links.map (·.varname)) ∧
      (links ≠ [] → handler = s.command.pChannel.pHandler) := by
  unfold Session.unlink
  cases hfind : s.command.find varname with
  | none =>
    exact ⟨s.command.linkedVariables, s.command.pChannel.pHandler, rfl, hnamed,
      fun u hu _ => hu, fun _ => rfl⟩
  | some i =>
    obtain ⟨hi, hvar⟩ := CTCLChannelCommand.find_some hfind
    by_cases hcount : i.pLinkedVar.dereference.referenceCount = 0
    · let links := s.command.linkedVariables.eraseP (·.varname = i.varname)
      refine ⟨links, if links = [] then none else s.command.pChannel.pHandler, ?_, ?_, ?_, ?_⟩
      · simp only [hcount, if_true]
        by_cases hnil : links = []
        · simp [links, hnil]
        · simp [links, hnil, CChannel.setSlot]
      · exact fun j hj => hnamed j (List.mem_of_mem_eraseP hj)
      · intro u hu hkeep
        obtain ⟨j, hj, rfl⟩ := List.mem_map.mp hu
        have hne : j.varname ≠ varname := fun heq => hkeep heq i rfl hcount
        refine List.mem_map_of_mem ((List.mem_eraseP_of_neg ?_).mpr hj)
        simpa [hvar] using hne
      · intro hnil
        rw [if_neg hnil]
    · refine ⟨CTCLChannelCommand.updateLinked varname i.pLinkedVar.dereference
        s.command.linkedVariables, s.command.pChannel.pHandler, ?_, ?_, ?_, fun _ => rfl⟩
      · simp only [hcount, if_false]
        rfl
      · intro j hj
        rcases CTCLChannelCommand.of_mem_updateLinked hj with hj | hj
        · rw [hj, ← hvar]
          exact hnamed i hi
        · exact hnamed j hj
      · intro u hu _
        rwa [CTCLChannelCommand.updateLinked_varname]

end Links

/-! ## Steps of the session -/

section Steps

variable {s s' : ButtonProcess ν}

theorem ButtonProcess.Shows.congr (h : s.Shows env) (hreading : s'.reading env = s.reading env)
    (hwidget : s'.widget = s.widget) : s'.Shows env := by
  intro b hb
  rw [hwidget]
  exact h b (hreading ▸ hb)

/-- What is announced stays so, or the trace is next. -/
theorem ButtonProcess.Announced.congr (h : s.Announced resolve)
    (htracing : s.tracing = true → s'.tracing = true) (htimer : s'.timer = s.timer)
    (hevents : s.session.events ≠ [] → s'.session.events ≠ [])
    (hrest : ∀ v ∈ s.session.rest, resolve v.sVariable = resolve s.variableName →
      s'.Announced resolve) : s'.Announced resolve := by
  rcases h with h | h | h | h
  · exact .inl (htracing h)
  · exact .inr (.inl (htimer.trans h))
  · exact .inr (.inr (.inl (hevents h)))
  · obtain ⟨v, hv, hname⟩ := h
    exact hrest v hv hname

/-- The session moves on; the button stays as it is. -/
theorem ButtonInv.moved (inv : ButtonInv resolve env s) {t : Session ν} (heard tracing : Bool)
    (hnamed : ∀ i ∈ t.command.linkedVariables, i.pLinkedVar.sVariable = i.varname)
    (hlinked : s.stage ≠ .before → s.variableName ∈ t.linked)
    (hlinking : s.stage = .linking → t.thread = .inLink)
    (hslot : s.stage = .done → t.command.pChannel.pHandler ≠ none)
    (huntraced : s.stage ≠ .done → tracing = false)
    (hshown : s.stage = .done → heard = true → s.called = false →
      Announced resolve { s with session := t, heard, tracing } ∨
        Shows env { s with session := t, heard, tracing }) :
    ButtonInv resolve env { s with session := t, heard, tracing } :=
  ⟨inv.looks, hnamed, hlinked, hlinking, hslot, inv.untimed, huntraced, hshown⟩

/-- What has been put on the channel is not what the invariant is about. -/
theorem ButtonInv.accounts (inv : ButtonInv resolve env s) (controlled : Bool)
    (sets : List String) : ButtonInv resolve env { s with controlled, sets } :=
  ⟨inv.looks, inv.named, inv.linked, inv.linking, inv.slot, inv.untimed, inv.untraced, inv.shown⟩

/-- The thread of the interpreter is not busy, so the constructor is not in
the middle of its `link`. -/
theorem ButtonInv.not_linking (inv : ButtonInv resolve env s)
    (hthread : s.session.thread ≠ .inLink) : s.stage ≠ .linking :=
  fun hstage => hthread (inv.linking hstage)

variable [DecidableEq ν]

/-- The trace is only set at the end. -/
theorem untraced_or (inv : ButtonInv resolve env s) (names : List String)
    (h : s.stage ≠ .done) : (s.tracing || s.traced resolve names) = false := by
  simp [inv.untraced h, ButtonProcess.traced, h]

theorem buttonInv_link (inv : ButtonInv resolve env s) (hidle : s.session.thread = .idle)
    (varname : String) {tracing : Bool} (htracing : s.tracing = true → tracing = true)
    (huntraced : s.stage ≠ .done → tracing = false) :
    ButtonInv resolve env
      { s with session := s.session.beginLink resolve this varname, tracing } := by
  have hrest : s.session.rest = [] := rest_of_ne (by simp [hidle])
  obtain ⟨links, vars, written, heq, hnamed, hlinked, -⟩ :=
    beginLink_frame resolve this inv.named varname
  rw [heq]
  refine inv.moved s.heard _ hnamed (fun h => hlinked _ (inv.linked h)) (fun _ => rfl)
    inv.slot huntraced ?_
  intro hdone hheard hcalled
  rcases inv.shown hdone hheard hcalled with h | h
  · refine .inl (h.congr htracing rfl id ?_)
    intro v hv
    rw [hrest] at hv
    cases hv
  · exact .inr (h.congr rfl rfl)

omit [DecidableEq ν] in
theorem buttonInv_unlink (inv : ButtonInv resolve env s) (hidle : s.session.thread = .idle)
    {varname : String} (hok : s.KeepsLink (.session (.unlink varname))) :
    ButtonInv resolve env { s with session := s.session.unlink varname } := by
  have hrest : s.session.rest = [] := rest_of_ne (by simp [hidle])
  obtain ⟨links, handler, heq, hnamed, hlinked, hhandler⟩ := unlink_frame inv.named varname
  have hkept : s.stage ≠ .before → s.variableName ∈ links.map (·.varname) := by
    intro hstage
    refine hlinked _ (inv.linked hstage) ?_
    intro hvar
    exact hok hstage hvar.symm
  rw [heq]
  refine inv.moved s.heard s.tracing hnamed hkept ?_ ?_ inv.untraced ?_
  · intro hstage
    exact absurd hstage (inv.not_linking (by simp [hidle]))
  · intro hdone
    have hne : links ≠ [] := by
      have hmem := hkept (by simp [hdone])
      intro hnil
      rw [hnil] at hmem
      cases hmem
    rw [hhandler hne]
    exact inv.slot hdone
  · intro hdone hheard hcalled
    rcases inv.shown hdone hheard hcalled with h | h
    · refine .inl (h.congr id rfl id ?_)
      intro v hv
      rw [hrest] at hv
      cases hv
    · exact .inr (h.congr rfl rfl)

omit [DecidableEq ν] in
/-- A dispatched event leaves every linked variable to be visited. -/
theorem buttonInv_dispatch (inv : ButtonInv resolve env s) (hidle : s.session.thread = .idle)
    (events : List ChangeEvent) :
    ButtonInv resolve env { s with session := { s.session with
      events
      thread := Session.updating (s.session.command.linkedVariables.map (·.pLinkedVar)) } } := by
  refine inv.moved s.heard s.tracing inv.named inv.linked ?_ inv.slot
    inv.untraced ?_
  · intro hstage
    exact absurd hstage (inv.not_linking (by simp [hidle]))
  · intro hdone _ _
    obtain ⟨i, hi, hvar⟩ := List.mem_map.mp (inv.linked (by simp [hdone]))
    refine .inl (.inr (.inr (.inr ⟨i.pLinkedVar, ?_, ?_⟩)))
    · rw [rest_updating _ rfl]
      exact List.mem_map_of_mem hi
    · rw [inv.named i hi, hvar]
      rfl

/-- A refresh comes to a variable: it may be the button's. -/
theorem buttonInv_refreshNext (inv : ButtonInv resolve env s) {v : CChannelVariable}
    {vs : List CChannelVariable} (hthread : s.session.thread = .inUpdate (v :: vs)) :
    ButtonInv resolve env { s with
      session := s.session.refreshNext resolve v vs
      tracing := s.tracing || s.traced resolve [v.sVariable] } := by
  have hrest : s.session.rest = v :: vs := by simp [Session.rest, hthread]
  refine inv.moved s.heard _ inv.named inv.linked ?_ inv.slot (untraced_or inv _) ?_
  · intro hstage
    exact absurd hstage (inv.not_linking (by simp [hthread]))
  · intro hdone hheard hcalled
    rcases inv.shown hdone hheard hcalled with h | h
    · refine .inl (h.congr (fun h => by simp [h]) rfl id ?_)
      intro u hu hname
      rw [hrest] at hu
      rcases List.mem_cons.mp hu with rfl | hu
      · left
        simp [ButtonProcess.traced, hdone, hname]
      · refine .inr (.inr (.inr ⟨u, ?_, hname⟩))
        rw [rest_updating vs rfl]
        exact hu
    · exact .inr (h.congr rfl rfl)

theorem buttonInv_scriptWrite (inv : ButtonInv resolve env s) (hidle : s.session.thread = .idle)
    (varname : String) {vars : ν → Option String} {written : ν → Bool} :
    ButtonInv resolve env { s with
      session := { s.session with vars, written }
      tracing := s.tracing || s.traced resolve [varname] } := by
  have hrest : s.session.rest = [] := rest_of_ne (by simp [hidle])
  refine inv.moved s.heard _ inv.named inv.linked inv.linking inv.slot
    (untraced_or inv _) ?_
  intro hdone hheard hcalled
  rcases inv.shown hdone hheard hcalled with h | h
  · refine .inl (h.congr (fun h => by simp [h]) rfl id ?_)
    intro v hv
    rw [hrest] at hv
    cases hv
  · exact .inr (h.congr rfl rfl)

omit [DecidableEq ν] in
/-- Other channels come and go. -/
theorem buttonInv_registry (inv : ButtonInv resolve env s) (others : Bool) :
    ButtonInv resolve env { s with session := { s.session with others } } := by
  refine inv.moved s.heard s.tracing inv.named inv.linked inv.linking inv.slot inv.untraced ?_
  intro hdone hheard hcalled
  rcases inv.shown hdone hheard hcalled with h | h
  · refine .inl (h.congr id rfl id ?_)
    intro v hv hname
    exact .inr (.inr (.inr ⟨v, hv, hname⟩))
  · exact .inr (h.congr rfl rfl)

omit [DecidableEq ν] in
/-- The slot is called last in `link`; in the constructor, the trace and the
timer follow. -/
theorem buttonInv_endLink (inv : ButtonInv resolve env s) (hthread : s.session.thread = .inLink) :
    ButtonInv resolve env (if s.stage = .linking then
      { s with session := s.session.endLink this, stage := .done, timer := true }
    else { s with session := s.session.endLink this }) := by
  have hrest : s.session.rest = [] := rest_of_ne (by simp [hthread])
  by_cases hstage : s.stage = .linking
  · rw [if_pos hstage]
    have hlinked : s.variableName ∈ s.session.linked := inv.linked (by simp [hstage])
    refine ⟨inv.looks, inv.named, fun _ => hlinked, ?_, ?_, ?_, ?_, ?_⟩
    · intro h; cases h
    · intro _; simp [Session.endLink, CChannel.setSlot]
    · intro h; exact absurd rfl h
    · intro h; exact absurd rfl h
    · intro _ _ _; exact .inl (.inr (.inl rfl))
  · rw [if_neg hstage]
    refine inv.moved s.heard s.tracing inv.named inv.linked
      (fun h => absurd h hstage) ?_ inv.untraced ?_
    · intro _; simp [Session.endLink, CChannel.setSlot]
    · intro hdone hheard hcalled
      rcases inv.shown hdone hheard hcalled with h | h
      · refine .inl (h.congr id rfl id ?_)
        intro v hv
        rw [hrest] at hv
        cases hv
      · exact .inr (h.congr rfl rfl)

omit [DecidableEq ν] in
/-- A connection event; after one that changes anything the channel has not
been heard of. -/
theorem buttonInv_connection [ChannelAccess] (inv : ButtonInv resolve env s)
    (args : ConnectionHandlerArgs) :
    ButtonInv resolve env { s with
      session := { s.session with command := { s.session.command with
        pChannel := (s.session.command.pChannel.stateHandler args {}).1 } }
      heard := s.hears (.connection args) } := by
  obtain ⟨hhandler, -⟩ := CChannel.stateHandler_frame args s.session.command.pChannel {}
  refine inv.moved _ s.tracing inv.named inv.linked inv.linking ?_ inv.untraced ?_
  · intro hdone
    simp only [hhandler]
    exact inv.slot hdone
  · intro hdone hheard hcalled
    cases hop : args.op with
    | other =>
      have hsame : (s.session.command.pChannel.stateHandler args {}).1 =
          s.session.command.pChannel := by
        simp [CChannel.stateHandler, hop]
      simp only [hears, hop] at hheard
      rcases inv.shown hdone hheard hcalled with h | h
      · refine .inl (h.congr id rfl id ?_)
        intro v hv hname
        exact .inr (.inr (.inr ⟨v, hv, hname⟩))
      · refine .inr (h.congr ?_ rfl)
        simp only [reading, hsame]
    | connUp => simp [hears, hop] at hheard
    | connDown => simp [hears, hop] at hheard

end Steps

/-! ## Updates -/

section Updates

variable [DecidableEq ν] [CTCLObjectProcessor] [ChannelAccess] {s : ButtonProcess ν}
  {args : EventHandlerArgs} {now : Int}

omit [ChannelAccess] in
/-- An event is queued if the slot is called in another thread. -/
theorem epicsUpdate_queued (t : Session ν)
    (hslot : (t.command.pChannel.updateHandler args now).2 ≠ none) :
    (t.epicsUpdate resolve args now false).events ≠ [] := by
  unfold Session.epicsUpdate
  cases h : (t.command.pChannel.updateHandler args now).2 with
  | none => exact absurd h hslot
  | some slot => simp [h]

omit [CTCLObjectProcessor] [ChannelAccess] in
/-- A normal update calls the slot that is installed. -/
theorem updateHandler_normal {c : CChannel} (hstatus : args.status = ecaNormal) :
    (c.updateHandler args now).2 = c.pHandler := by
  unfold CChannel.updateHandler CChannel.update
  rw [if_pos hstatus]
  cases c.pConverter <;> rfl

omit [CTCLObjectProcessor] [ChannelAccess] in
theorem updateHandler_failed {c : CChannel} (hstatus : args.status ≠ ecaNormal) :
    c.updateHandler args now = (c, none) := by
  unfold CChannel.updateHandler
  rw [if_neg hstatus]

omit [ChannelAccess] in
/-- The process after an update, before the trace. -/
theorem buttonInv_updated (inv : ButtonInv resolve env s) {inTclThread tracing : Bool}
    (hthread : inTclThread = true → s.session.thread = .idle)
    (htracing : s.tracing = true → tracing = true)
    (huntraced : s.stage ≠ .done → tracing = false)
    (hnow : s.stage = .done → args.status = ecaNormal → inTclThread = true → tracing = true) :
    ButtonInv resolve env { s with
      session := s.session.epicsUpdate resolve args now inTclThread
      heard := s.hears (.epicsUpdate args now inTclThread)
      tracing } := by
  have hcommand := epicsUpdate_command resolve args now inTclThread s.session
  have hthread' := epicsUpdate_thread resolve args now inTclThread s.session
  refine inv.moved _ _ ?_ ?_ ?_ ?_ huntraced ?_
  · rw [hcommand]; exact inv.named
  · simp only [Session.linked, hcommand]; exact inv.linked
  · rw [hthread']; exact inv.linking
  · intro hdone
    rw [hcommand]
    simp only [CChannel.updateHandler_pHandler]
    exact inv.slot hdone
  · intro hdone hheard hcalled
    by_cases hstatus : args.status = ecaNormal
    · left
      cases inTclThread with
      | true => exact .inl (hnow hdone hstatus rfl)
      | false =>
        refine .inr (.inr (.inl (epicsUpdate_queued s.session ?_)))
        rw [updateHandler_normal hstatus]
        exact inv.slot hdone
    · -- nothing happens
      have hsame : s.session.epicsUpdate resolve args now inTclThread = s.session := by
        unfold Session.epicsUpdate
        rw [updateHandler_failed hstatus]
      have hheard' : s.heard = true := by
        simpa [hears, hstatus] using hheard
      rw [hsame]
      rcases inv.shown hdone hheard' hcalled with h | h
      · refine .inl (h.congr htracing rfl id ?_)
        intro v hv hname
        exact .inr (.inr (.inr ⟨v, hv, hname⟩))
      · exact .inr (h.congr rfl rfl)

end Updates

/-! ## One step -/

section Step

variable [DecidableEq ν] [CTCLObjectProcessor] [ChannelAccess] {s s' : ButtonProcess ν}

omit [ChannelAccess] in
/-- An update that the interpreter's own thread handles: the trace runs while
the monitor is held. -/
theorem buttonInv_updatedNow (inv : ButtonInv resolve env s) {args : EventHandlerArgs} {now : Int}
    (hidle : s.session.thread = .idle) (hfound : s.session.Heard (.epicsUpdate args now true))
    {p : ButtonProcess ν} {sets : List String}
    (hp : p = { s with
      session := s.session.epicsUpdate resolve args now true
      heard := s.hears (.epicsUpdate args now true)
      sets }) :
    ButtonInv resolve env
      (if s.traced resolve (Session.refreshes s.session (.epicsUpdate args now true)) then
        p.update env
      else p) := by
  by_cases hdone : s.stage = .done
  · have hlinks : s.traced resolve
        (s.session.command.linkedVariables.map (·.pLinkedVar.sVariable)) = true := by
      obtain ⟨i, hi, hvar⟩ := List.mem_map.mp (inv.linked (by simp [hdone]))
      have hname : resolve i.pLinkedVar.sVariable = resolve s.variableName := by
        rw [inv.named i hi, hvar]
      simp only [traced, hdone, decide_true, Bool.true_and, List.any_eq_true]
      exact ⟨_, List.mem_map_of_mem hi, by simpa using hname⟩
    by_cases hstatus : args.status = ecaNormal
    · have hslot : (s.session.command.pChannel.updateHandler args now).2 ≠ none := by
        rw [updateHandler_normal hstatus]
        exact inv.slot hdone
      have hrefreshes : Session.refreshes s.session (.epicsUpdate args now true) =
          s.session.command.linkedVariables.map (·.pLinkedVar.sVariable) := by
        have hchannel : s.session.haveChannel (getName s.session.command.name) = true :=
          hfound hslot
        simp [Session.refreshes, Option.isSome_iff_ne_none.mpr hslot, hchannel]
      rw [hrefreshes, if_pos hlinks]
      -- as if the trace were still to run, and then it does
      have hnext : ButtonInv resolve env { p with tracing := true } := by
        rw [hp]
        exact (buttonInv_updated inv (fun _ => hidle) (fun _ => rfl) (fun h => absurd hdone h)
          fun _ _ _ => rfl).accounts _ _
      have hran := hnext.update (by rw [hp]; exact hdone) p.tracing p.timer
      rw [update_tracing p true] at hran
      exact hran
    · have hnone : Session.refreshes s.session (.epicsUpdate args now true) = [] := by
        simp [Session.refreshes, updateHandler_failed hstatus]
      have hkept : ButtonInv resolve env { s with
          session := s.session.epicsUpdate resolve args now true
          heard := s.hears (.epicsUpdate args now true) } :=
        buttonInv_updated inv (fun _ => hidle) id inv.untraced fun _ h => absurd h hstatus
      rw [hnone, hp]
      simpa [traced] using hkept.accounts _ _
  · have htraced : s.traced resolve
        (Session.refreshes s.session (.epicsUpdate args now true)) = false := by
      simp [traced, hdone]
    rw [htraced, hp]
    exact (buttonInv_updated inv (fun _ => hidle) id inv.untraced fun h => absurd h hdone).accounts
      _ _

/-- What a dispatched event does, if `update` finds its channel. -/
theorem sessionStep_dispatch (hfound : s.session.Heard .dispatch)
    (h : s.sessionStep resolve this env .dispatch = some s') :
    s.session.thread = .idle ∧ ∃ e events, s.session.events = e :: events ∧
      s' = { s with session := { s.session with
        events
        thread := Session.updating (s.session.command.linkedVariables.map (·.pLinkedVar)) } } := by
  obtain ⟨t, ht, hs'⟩ := Option.map_eq_some_iff.mp h
  simp only [Session.step] at ht
  split at ht
  · next e events hidle hevents =>
    have hchannel : s.session.haveChannel e.channelName = true :=
      hfound e (by rw [hevents]; rfl)
    rw [if_pos hchannel] at ht
    cases ht
    refine ⟨hidle, e, events, hevents, ?_⟩
    simpa [traced, Session.writes, hears, assigned, Session.assigns, Session.refreshes]
      using hs'.symm
  · cases ht

/-- What the thread of the interpreter does next: the slot is set, or a
refresh comes to a variable. -/
theorem sessionStep_resume (inv : ButtonInv resolve env s)
    (h : s.sessionStep resolve this env .resume = some s') :
    s.session.thread = .inLink ∧ s' = (if s.stage = .linking then
        { s with session := s.session.endLink this, stage := .done, timer := true }
      else { s with session := s.session.endLink this }) ∨
    ∃ v vs, s.session.thread = .inUpdate (v :: vs) ∧ s' = { s with
      session := s.session.refreshNext resolve v vs
      tracing := s.tracing || s.traced resolve [v.sVariable]
      sets := s.sets ++ s.assigned resolve .resume } := by
  obtain ⟨t, ht, hs'⟩ := Option.map_eq_some_iff.mp h
  simp only [Session.step] at ht
  split at ht
  · next hthread =>
    cases ht
    refine .inl ⟨hthread, ?_⟩
    simpa [traced, Session.writes, hears, hthread, assigned, Session.assigns, Session.refreshes]
      using hs'.symm
  · next v vs hthread =>
    cases ht
    have hstage : s.stage ≠ .linking := inv.not_linking (by simp [hthread])
    refine .inr ⟨v, vs, hthread, ?_⟩
    simpa [Session.writes, hears, hthread, hstage] using hs'.symm
  · cases ht

/-- One case for each step of the session. -/
theorem buttonInv_sessionStep (inv : ButtonInv resolve env s) {a : SessionAction}
    (hok : s.KeepsLink (.session a)) (hfound : s.session.Heard a)
    (h : s.sessionStep resolve this env a = some s') :
    ButtonInv resolve env s' := by
  obtain ⟨t, ht, hs'⟩ := Option.map_eq_some_iff.mp h
  cases a with
  | link varname =>
    obtain ⟨hidle, rfl⟩ : s.session.thread = .idle ∧
        s.session.beginLink resolve this varname = t := by
      simpa [Session.step] using ht
    subst hs'
    exact (buttonInv_link inv hidle varname (fun h => by simp [h]) (untraced_or inv _)).accounts _ _
  | unlink varname =>
    obtain ⟨hidle, rfl⟩ : s.session.thread = .idle ∧ s.session.unlink varname = t := by
      simpa [Session.step] using ht
    subst hs'
    simpa [traced, Session.writes, hears] using (buttonInv_unlink inv hidle hok).accounts _ _
  | dispatch =>
    obtain ⟨hidle, -, events, -, rfl⟩ := sessionStep_dispatch hfound h
    exact buttonInv_dispatch inv hidle events
  | resume =>
    rcases sessionStep_resume inv h with ⟨hthread, rfl⟩ | ⟨v, vs, hthread, rfl⟩
    · exact buttonInv_endLink inv hthread
    · exact (buttonInv_refreshNext inv hthread).accounts _ _
  | scriptWrite varname value =>
    obtain ⟨hidle, rfl⟩ : s.session.thread = .idle ∧
        { s.session with
          vars := Function.update s.session.vars (resolve varname) (some value)
          written := Function.update s.session.written (resolve varname) true } = t := by
      simpa [Session.step] using ht
    subst hs'
    exact (buttonInv_scriptWrite inv hidle varname).accounts _ _
  | registry others =>
    obtain ⟨hidle, rfl⟩ : s.session.thread = .idle ∧ { s.session with others } = t := by
      simpa [Session.step] using ht
    subst hs'
    simpa [traced, Session.writes, hears] using (buttonInv_registry inv others).accounts _ _
  | connection args =>
    cases ht
    subst hs'
    simpa [traced, Session.writes] using (buttonInv_connection inv args).accounts _ _
  | epicsUpdate args now inTclThread =>
    obtain ⟨hidle, rfl⟩ : (inTclThread = true → s.session.thread = .idle) ∧
        s.session.epicsUpdate resolve args now inTclThread = t := by
      simpa [Session.step] using ht
    cases inTclThread with
    | true =>
      subst hs'
      simpa [traced, Session.writes] using buttonInv_updatedNow inv (hidle rfl) hfound rfl
    | false =>
      have hthread : false = true → s.session.thread = .idle := by simp
      subst hs'
      simpa [traced, Session.writes] using
        (buttonInv_updated inv hthread id inv.untraced (by simp)).accounts _ _

omit [DecidableEq ν] [CTCLObjectProcessor] [ChannelAccess] in
/-- A press changes nothing that the invariant is about. -/
theorem ButtonInv.click (inv : ButtonInv resolve env s) (script : Option ClickMethod) :
    ButtonInv resolve env (s.click script) := by
  cases script with
  | none => exact inv
  | some method =>
    unfold ButtonProcess.click
    dsimp only
    split
    · exact inv.accounts _ _
    · exact inv

omit [DecidableEq ν] [CTCLObjectProcessor] [ChannelAccess] in
/-- A method leaves the look; what it makes of the state is its own affair. -/
theorem buttonInv_call (inv : ButtonInv resolve env s) (m : ButtonMethod) :
    ButtonInv resolve env { s with
      widget := { s.widget with button := (s.widget.button.call env.color m).2 }
      called := s.called || decide (m ≠ ButtonMethod.invoke) } := by
  refine ⟨OnoffButton.looks_call inv.looks m, inv.named, inv.linked, inv.linking, inv.slot,
    inv.untimed, inv.untraced, ?_⟩
  intro hdone hheard hcalled
  obtain ⟨hnot, hm⟩ : s.called = false ∧ m = .invoke := by simpa using hcalled
  refine (inv.shown hdone hheard hnot).imp id ?_
  intro h b hb
  rw [OnoffButton.call_state, hm]
  exact h b hb

/-- **One step keeps the invariant.** -/
theorem buttonInv_step (inv : ButtonInv resolve env s) {a : ButtonAction} (hok : s.KeepsLink a)
    (hfound : ∀ b, s.session.Heard b) (h : s.step resolve this env a = some s') :
    ButtonInv resolve env s' := by
  cases a with
  | create =>
    simp only [ButtonProcess.step] at h
    split at h
    · next hcan =>
      obtain ⟨hbefore, hidle⟩ := hcan
      obtain ⟨links, vars, written, heq, hnamed, -, hmem⟩ :=
        beginLink_frame resolve this inv.named s.variableName
      cases h
      rw [heq]
      exact ⟨inv.looks, hnamed, fun _ => hmem, fun _ => rfl, (nomatch ·),
        fun _ => inv.untimed (by simp [hbefore]), fun _ => inv.untraced (by simp [hbefore]),
        (nomatch ·)⟩
    · cases h
  | session a =>
    simp only [ButtonProcess.step] at h
    split at h
    · cases h
    · exact buttonInv_sessionStep inv hok (hfound a) h
  | trace =>
    obtain ⟨htracing, rfl⟩ : s.tracing = true ∧ { s.update env with tracing := false } = s' := by
      simpa [ButtonProcess.step] using h
    have hdone : s.stage = .done := by
      by_contra hne
      simp [inv.untraced hne] at htracing
    exact inv.update hdone false _
  | timer =>
    obtain ⟨⟨htimer, -⟩, rfl⟩ : (s.timer = true ∧ s.idle = true) ∧
        { s.update env with timer := false } = s' := by
      simpa [ButtonProcess.step] using h
    have hdone : s.stage = .done := by
      by_contra hne
      simp [inv.untimed hne] at htimer
    exact inv.update hdone _ false
  | press which =>
    obtain ⟨-, rfl⟩ : (s.stage = .done ∧ s.idle = true) ∧
        s.click (s.widget.button.press which) = s' := by
      simpa [ButtonProcess.step] using h
    exact inv.click _
  | call m =>
    simp only [ButtonProcess.step] at h
    split at h
    · split at h
      · next script button hcall =>
        have hnext := buttonInv_call inv m
        rw [hcall] at hnext
        cases h
        exact hnext.click script
      · cases h
        exact inv
    · cases h
  | control connected =>
    cases h
    exact inv.accounts _ _

end Step

/-! ## Runs -/

section Runs

variable [DecidableEq ν] [CTCLObjectProcessor] [ChannelAccess] {s s' : ButtonProcess ν}
  {options : EpicsButtonOptions} {widget : EpicsButton}

/-- The options of an `epicsButton` and of the control in it. -/
structure Optioned (options : EpicsButtonOptions) (w : EpicsButton) : Prop where
  own : w.options = options
  control : w.button.options = EpicsButton.buttonOptions options

omit [CTCLObjectProcessor] [ChannelAccess] in
/-- What the constructor makes has its options, and looks as it should. -/
theorem construct_spec {nonzero : Nonzero} (color : String)
    (h : EpicsButton.construct nonzero options = .ok widget) :
    Optioned options widget ∧ widget.button.Looks color := by
  unfold EpicsButton.construct at h
  split at h
  · cases h
  split at h
  · cases h
  dsimp only at h
  split at h
  · next w hlayout =>
    cases h
    have hw : widget.options = options ∧ widget.button =
        if options.modality = "single" then
          OnoffButton.single (OnoffSingleButton.construct (EpicsButton.buttonOptions options))
        else OnoffButton.pair (OnoffButtonPair.construct (EpicsButton.buttonOptions options)) := by
      unfold EpicsButton.layout at hlayout
      dsimp only at hlayout
      split at hlayout <;> simp only [Prod.mk.injEq, reduceCtorEq, false_and] at hlayout
      all_goals rw [← hlayout.2]; exact ⟨rfl, rfl⟩
    obtain ⟨hoptions, hbutton⟩ := hw
    by_cases hsingle : options.modality = "single"
    · rw [if_pos hsingle] at hbutton
      exact ⟨⟨hoptions, by rw [hbutton]; rfl⟩, by rw [hbutton]; exact OnoffButton.looks_single _⟩
    · rw [if_neg hsingle] at hbutton
      exact ⟨⟨hoptions, by rw [hbutton]; rfl⟩, by rw [hbutton]; exact OnoffButton.looks_pair _⟩
  · cases h

/-- What holds of the button at any time, whatever scripts do. -/
structure Made (env : ButtonEnvironment) (options : EpicsButtonOptions) (s : ButtonProcess ν) :
    Prop where
  options : Optioned options s.widget
  looks : s.widget.button.Looks env.color

omit [DecidableEq ν] [CTCLObjectProcessor] [ChannelAccess] in
theorem made_update (hs : Made env options s) :
    Made env options (s.update env) ∧ (s.update env).sets = s.sets := by
  have hlooks := update_looks hs.looks
  obtain ⟨button, called, hframe, hbutton⟩ := update_frame env s
  rw [hframe] at hlooks ⊢
  exact ⟨⟨⟨hs.options.own, hbutton.trans hs.options.control⟩, hlooks⟩, rfl⟩

theorem made_sessionStep {a : SessionAction} (hs : Made env options s)
    (h : s.sessionStep resolve this env a = some s') :
    Made env options s' ∧ s'.sets = s.sets ++ s.assigned resolve a := by
  obtain ⟨t, -, rfl⟩ := Option.map_eq_some_iff.mp h
  have hkept : ∀ p : ButtonProcess ν, p.widget = s.widget → Made env options p := by
    intro p hp
    constructor <;> rw [hp]
    · exact hs.options
    · exact hs.looks
  dsimp only
  split
  · split
    · exact made_update (hkept _ rfl)
    · exact ⟨hkept _ rfl, rfl⟩
  · split <;> exact ⟨hkept _ rfl, rfl⟩
  · exact ⟨hkept _ rfl, rfl⟩

/-- The value that goes with the other state. -/
def EpicsButtonOptions.other (options : EpicsButtonOptions) : OnOff → String
  | .on => options.offvalue
  | .off => options.onvalue

omit [DecidableEq ν] [CTCLObjectProcessor] [ChannelAccess] in
/-- The command of the other state sets the channel to its value. -/
theorem click_opposite (hs : Optioned options s.widget) :
    s.click s.widget.button.opposite = { s with
      sets := s.sets ++ if s.connected then [options.other s.widget.button.state] else [] } := by
  have hclick : ∀ method, s.widget.clicked method = options.other s.widget.button.state →
      s.click (some method) = { s with
        sets := s.sets ++ if s.connected then [options.other s.widget.button.state] else [] } := by
    intro method hvalue
    simp only [click, hvalue]
    split <;> simp
  unfold OnoffButton.opposite
  rw [hs.control]
  cases hstate : s.widget.button.state with
  | on =>
    rw [hstate] at hclick
    exact hclick .onOff (by simp [EpicsButton.clicked, EpicsButtonOptions.other, hs.own])
  | off =>
    rw [hstate] at hclick
    exact hclick .onOn (by simp [EpicsButton.clicked, EpicsButtonOptions.other, hs.own])

omit [CTCLObjectProcessor] [ChannelAccess] in
/-- Only `invoke` evaluates a script, the one of the other state. -/
theorem call_script {γ : Type} {color : String} {w button : OnoffButton γ} {m : ButtonMethod}
    {script : Option γ} (h : w.call color m = (.ok script, button)) :
    script = none ∨ m = .invoke ∧ script = w.opposite ∧ button = w := by
  cases m with
  | invoke =>
    refine .inr ⟨rfl, ?_⟩
    have hon : w.state = .on ∨ ∃ b, w = .single b := by
      by_contra hneither
      cases w with
      | single b => exact hneither (.inr ⟨b, rfl⟩)
      | pair b =>
        have hoff : b.state = .off := by
          cases hb : b.state with
          | on => exact absurd (.inl hb) hneither
          | off => rfl
        simp [OnoffButton.call, OnoffButtonPair.invoke, hoff] at h
    have hok := OnoffButton.invoke_ok color hon
    rw [h] at hok
    refine ⟨Except.ok.inj hok, ?_⟩
    cases w <;> exact (congrArg Prod.snd h).symm
  | _ => cases w <;> cases h <;> exact .inl rfl

/-- A press, or `invoke`. -/
def ButtonAction.Asks : ButtonAction → Prop
  | .press _ => True
  | .call .invoke => True
  | _ => False

/-- The step of the channel's command that a step makes. -/
def ButtonProcess.asked (s : ButtonProcess ν) : ButtonAction → Option SessionAction
  | .create => some (.link s.variableName)
  | .session a => some a
  | _ => none

/-- Of the methods only `invoke` puts something on the channel. -/
theorem call_sets (hs : Made env options s) {m : ButtonMethod}
    (h : s.step resolve this env (.call m) = some s') :
    Made env options s' ∧
      (s'.sets = s.sets ∨
        m = .invoke ∧ s'.widget = s.widget ∧
          s'.sets = s.sets ++
            if s.connected then [options.other s.widget.button.state] else []) := by
  simp only [ButtonProcess.step] at h
  split at h
  · split at h
    · next script button hcall =>
      rcases call_script hcall with hnone | ⟨rfl, hopposite, hbutton⟩
      · have hsame : button = (s.widget.button.call env.color m).2 := by rw [hcall]
        have hmade : Made env options { s with
            widget := { s.widget with button }
            called := s.called || decide (m ≠ ButtonMethod.invoke) } := by
          refine ⟨⟨hs.options.own, ?_⟩, ?_⟩
          · rw [hsame, OnoffButton.call_options]
            exact hs.options.control
          · rw [hsame]
            exact OnoffButton.looks_call hs.looks m
        rw [hnone] at h
        cases h
        exact ⟨hmade, .inl rfl⟩
      · rw [hopposite, hbutton] at h
        let s₁ : ButtonProcess ν :=
          { s with called := s.called || decide (ButtonMethod.invoke ≠ .invoke) }
        have hclick : s₁.click s.widget.button.opposite = s' := Option.some.inj h
        have hbutton' : s.widget.button = s₁.widget.button := rfl
        rw [hbutton', click_opposite (s := s₁) hs.options] at hclick
        rw [← hclick]
        exact ⟨⟨hs.options, hs.looks⟩, .inr ⟨rfl, rfl, rfl⟩⟩
    · cases h
      exact ⟨hs, .inl rfl⟩
  · cases h

/-- **What a step puts on the channel**: what the traces of the links assign
to it, or the value of the other state, if a press or `invoke` asks for it. -/
theorem step_sets (hs : Made env options s) {a : ButtonAction}
    (h : s.step resolve this env a = some s') :
    Made env options s' ∧
      (s'.sets = s.sets ∨
        (∃ b, s.asked a = some b ∧ s'.sets = s.sets ++ s.assigned resolve b) ∨
        a.Asks ∧ s'.widget = s.widget ∧
          s'.sets = s.sets ++
            if s.connected then [options.other s.widget.button.state] else []) := by
  cases a with
  | create =>
    simp only [ButtonProcess.step] at h
    split at h <;> cases h
    exact ⟨⟨hs.options, hs.looks⟩, .inr (.inl ⟨_, rfl, rfl⟩)⟩
  | session a =>
    simp only [ButtonProcess.step] at h
    split at h
    · cases h
    · obtain ⟨hmade, hsets⟩ := made_sessionStep hs h
      exact ⟨hmade, .inr (.inl ⟨a, rfl, hsets⟩)⟩
  | trace | timer =>
    simp only [ButtonProcess.step] at h
    split at h <;> cases h
    obtain ⟨hmade, hsets⟩ := made_update hs
    exact ⟨⟨hmade.options, hmade.looks⟩, .inl hsets⟩
  | press which =>
    simp only [ButtonProcess.step] at h
    split at h <;> cases h
    rcases OnoffButton.press_cases hs.looks which with hpress | hpress
    · rw [hpress, click_opposite hs.options]
      exact ⟨⟨hs.options, hs.looks⟩, .inr (.inr ⟨trivial, rfl, rfl⟩)⟩
    · rw [hpress]
      exact ⟨hs, .inl rfl⟩
  | call m =>
    obtain ⟨hmade, hsame | ⟨rfl, hwidget, hsets⟩⟩ := call_sets hs h
    · exact ⟨hmade, .inl hsame⟩
    · exact ⟨hmade, .inr (.inr ⟨trivial, hwidget, hsets⟩)⟩
  | control connected =>
    cases h
    exact ⟨⟨hs.options, hs.looks⟩, .inl rfl⟩

/-! What the interpreter has left to do. -/

/-- Steps of the interpreter's thread that no script asks for. -/
def ButtonProcess.Own : ButtonProcess ν → ButtonAction → Prop
  | _, .session .dispatch => True
  | _, .session .resume => True
  | _, .trace => True
  | _, .timer => True
  | _, _ => False

omit [DecidableEq ν] [CTCLObjectProcessor] [ChannelAccess] in
theorem keepsLink_of_own {a : ButtonAction} (h : s.Own a) : s.KeepsLink a := by
  cases a with
  | session b =>
    cases b with
    | unlink varname => cases h
    | _ => trivial
  | _ => trivial

/-- At most so many of them can follow: each event starts a refresh, and each
write of a refresh may fire the trace. -/
def ButtonProcess.work (s : ButtonProcess ν) : Nat :=
  s.tracing.toNat + s.timer.toNat + 2 * s.session.rest.length +
    (if s.session.thread = .inLink then 3 else 0) +
    s.session.events.length * (2 * s.session.linked.length + 2)

/-- What the steps of the interpreter leave. -/
structure OwnStep (env : ButtonEnvironment) (s s' : ButtonProcess ν) : Prop where
  reading : s'.reading env = s.reading env
  heard : s'.heard = s.heard
  made : s.stage ≠ .before → s'.stage ≠ .before
  work : s'.work < s.work

omit [DecidableEq ν] [CTCLObjectProcessor] [ChannelAccess] in
/-- After the trace or the timer. -/
theorem ownStep_update {tracing timer : Bool}
    (hless : tracing.toNat + timer.toNat < s.tracing.toNat + s.timer.toNat) :
    OwnStep env s { s.update env with tracing, timer } := by
  obtain ⟨button, called, hframe, -⟩ := update_frame env s
  rw [hframe]
  refine ⟨rfl, rfl, id, ?_⟩
  simp only [work]
  omega

omit [DecidableEq ν] [CTCLObjectProcessor] [ChannelAccess] in
/-- In a refresh. -/
theorem work_refreshing (vs : List CChannelVariable)
    (h : s.session.thread = Session.updating vs) :
    s.work = s.tracing.toNat + s.timer.toNat + 2 * vs.length +
      s.session.events.length * (2 * s.session.linked.length + 2) := by
  have hne : s.session.thread ≠ .inLink := by
    rw [h]
    cases vs <;> simp [Session.updating]
  simp [work, hne, rest_updating vs h]

theorem ownStep (inv : ButtonInv resolve env s) (hfound : ∀ b, s.session.Heard b)
    {a : ButtonAction} (hown : s.Own a) (h : s.step resolve this env a = some s') :
    OwnStep env s s' := by
  cases a with
  | create => cases hown
  | press which => cases hown
  | call m => cases hown
  | control connected => cases hown
  | trace =>
    simp only [ButtonProcess.step] at h
    split at h <;> cases h
    next htracing => exact ownStep_update (by simp [htracing, update_pending])
  | timer =>
    simp only [ButtonProcess.step] at h
    split at h <;> cases h
    next htimer => exact ownStep_update (by simp [htimer.1, update_pending])
  | session a =>
    simp only [ButtonProcess.step] at h
    split at h
    · cases h
    next hnot =>
    cases a with
    | dispatch =>
      have htracing : s.tracing = false := by simpa [Session.outside] using hnot
      obtain ⟨hidle, e, events, hevents, rfl⟩ := sessionStep_dispatch (hfound .dispatch) h
      refine ⟨rfl, rfl, id, ?_⟩
      have hold : s.work = s.timer.toNat +
          (events.length + 1) * (2 * s.session.linked.length + 2) := by
        simp [work, htracing, hidle, hevents, Session.rest]
      rw [hold, work_refreshing _ rfl]
      simp only [htracing, Session.linked, List.length_map, Bool.toNat_false]
      rw [Nat.add_mul]
      omega
    | resume =>
      have htracing : s.tracing = false := by simpa [Session.outside] using hnot
      rcases sessionStep_resume inv h with ⟨hthread, rfl⟩ | ⟨v, vs, hthread, rfl⟩
      · have hold : s.work = s.timer.toNat + 3 +
            s.session.events.length * (2 * s.session.linked.length + 2) := by
          simp [work, htracing, hthread, Session.rest]
        split
        · refine ⟨rfl, rfl, by simp, ?_⟩
          rw [hold]
          simp [work, htracing, Session.endLink, Session.rest, Session.linked]
        · refine ⟨rfl, rfl, id, ?_⟩
          rw [hold]
          simp [work, htracing, Session.endLink, Session.rest, Session.linked]
      · refine ⟨rfl, rfl, id, ?_⟩
        have hold := work_refreshing (v :: vs) hthread
        rw [work_refreshing vs rfl, hold]
        have hle := Bool.toNat_le (s.tracing || s.traced resolve [v.sVariable])
        simp only [List.length_cons, htracing, Bool.toNat_false]
        have hsame : (s.session.refreshNext resolve v vs).linked = s.session.linked := rfl
        have hevents : (s.session.refreshNext resolve v vs).events = s.session.events := rfl
        rw [hsame, hevents]
        rw [htracing] at hle
        omega
    | _ => cases hown

omit [DecidableEq ν] [CTCLObjectProcessor] [ChannelAccess] in
theorem click_session (s : ButtonProcess ν) (script : Option ClickMethod) :
    (s.click script).session = s.session := by
  unfold click
  split
  · rfl
  · split <;> rfl

/-- The session of a button does what a session can do. -/
theorem step_session {a : ButtonAction} (h : s.step resolve this env a = some s') :
    (s.asked a = none → s'.session = s.session) ∧
      ∀ b, s.asked a = some b → s.session.step resolve this b = some s'.session := by
  have hupdate : ∀ p : ButtonProcess ν, (p.update env).session = p.session := by
    intro p
    obtain ⟨button, called, hframe, -⟩ := update_frame env p
    rw [hframe]
  cases a with
  | create =>
    simp only [ButtonProcess.step] at h
    split at h <;> cases h
    next hcan =>
    have hidle : s.session.thread = .idle ∧ s.tracing = false := by simpa [idle] using hcan.2
    refine ⟨fun hnone => (by cases hnone), ?_⟩
    rintro b ⟨⟩
    simp [Session.step, hidle.1]
  | session b =>
    simp only [ButtonProcess.step] at h
    split at h
    · cases h
    obtain ⟨t, ht, rfl⟩ := Option.map_eq_some_iff.mp h
    refine ⟨fun hnone => (by cases hnone), ?_⟩
    rintro b' ⟨⟩
    refine ht.trans (congrArg some ?_)
    dsimp only
    split
    · split
      · rw [hupdate]
      · rfl
    · split <;> rfl
    · rfl
  | trace =>
    simp only [ButtonProcess.step] at h
    split at h <;> cases h
    exact ⟨fun _ => hupdate s, fun _ hb => by cases hb⟩
  | timer =>
    simp only [ButtonProcess.step] at h
    split at h <;> cases h
    exact ⟨fun _ => hupdate s, fun _ hb => by cases hb⟩
  | press which =>
    simp only [ButtonProcess.step] at h
    split at h <;> cases h
    exact ⟨fun _ => click_session s _, fun _ hb => by cases hb⟩
  | call m =>
    simp only [ButtonProcess.step] at h
    split at h
    · split at h
      · next script button hcall =>
        cases h
        exact ⟨fun _ => click_session _ script, fun _ hb => by cases hb⟩
      · cases h
        exact ⟨fun _ => rfl, fun _ hb => by cases hb⟩
    · cases h
  | control connected =>
    cases h
    exact ⟨fun _ => rfl, fun _ hb => by cases hb⟩

/-- What holds in every state that a button and its channel come to. -/
structure Reached (resolve : String → ν) (env : ButtonEnvironment) (s : ButtonProcess ν) :
    Prop where
  inv : ButtonInv resolve env s
  refresh : s.session.thread ≠ .inUpdate []
  named : Session.Named s.session
  kept : getName s.session.command.name = s.session.command.name

omit [DecidableEq ν] [ChannelAccess] in
theorem Reached.found (h : Reached resolve env s) (b : SessionAction) : s.session.Heard b :=
  Session.heard_of_getName h.named h.kept b

theorem Reached.step (h : Reached resolve env s) {a : ButtonAction} (hok : s.KeepsLink a)
    (hstep : s.step resolve this env a = some s') : Reached resolve env s' := by
  have hinv := buttonInv_step h.inv hok h.found hstep
  obtain ⟨hsame, hmoved⟩ := step_session hstep
  cases hasked : s.asked a with
  | none =>
    have hsame := hsame hasked
    exact ⟨hinv, hsame ▸ h.refresh, hsame ▸ h.named, hsame ▸ h.kept⟩
  | some b =>
    have hb := hmoved b hasked
    obtain ⟨hnamed, hname⟩ := Session.named_step h.named hb
    exact ⟨hinv, refresh_left h.refresh hb, hnamed, by rw [hname]; exact h.kept⟩

theorem reached_of_run {name : String} (hname : getName name = name) {vars : ν → Option String}
    (hwidget : EpicsButton.construct env.nonzero options = .ok widget) {as : List ButtonAction}
    (hrun : Run (ButtonProcess.step resolve this env) KeepsLink
      (ButtonProcess.initial name vars widget) as s) : Reached resolve env s := by
  obtain ⟨-, hlooks⟩ := construct_spec env.color hwidget
  refine hrun.invariant (Reached resolve env) ?_ fun _ _ _ h hok hstep => h.step hok hstep
  exact ⟨buttonInv_initial name vars hlooks, by simp [ButtonProcess.initial, Session.initial],
    nofun, hname⟩

/-- A button that has been made and is not quiet has something to do. -/
theorem own_step_possible (h : Reached resolve env s) (hmade : s.stage ≠ .before)
    (hbusy : ¬ s.Quiet) : ∃ a, s.Own a ∧ s.step resolve this env a ≠ none := by
  by_cases htracing : s.tracing = true
  · exact ⟨.trace, trivial, by simp [ButtonProcess.step, htracing]⟩
  cases hthread : s.session.thread with
  | inLink =>
    refine ⟨.session .resume, trivial, ?_⟩
    simp [ButtonProcess.step, htracing, sessionStep, Session.step, hthread]
  | inUpdate vs =>
    cases vs with
    | nil => exact absurd hthread h.refresh
    | cons v vs =>
      refine ⟨.session .resume, trivial, ?_⟩
      simp [ButtonProcess.step, htracing, sessionStep, Session.step, hthread]
  | idle =>
    cases hevents : s.session.events with
    | cons e events =>
      refine ⟨.session .dispatch, trivial, ?_⟩
      simp only [ButtonProcess.step, htracing, sessionStep, Session.step, hthread, hevents,
        Bool.false_eq_true, false_and, if_false]
      split <;> simp
    | nil =>
      by_cases htimer : s.timer = true
      · refine ⟨.timer, trivial, ?_⟩
        simp [ButtonProcess.step, htracing, htimer, idle, hthread]
      · refine absurd ⟨?_, hthread, hevents, by simpa using htracing, by simpa using htimer⟩ hbusy
        cases hstage : s.stage with
        | before => exact absurd hstage hmade
        | linking => exact absurd hthread (by rw [h.inv.linking hstage]; simp)
        | done => rfl

/-- **An `epicsButton` follows its channel.** Whatever has happened so far, the
interpreter has only so much left to do, and while there is anything it can do
it; none of it changes what the channel reads. When it has done it, the button
shows the value of the channel, if the channel has had a value since it
connected and no script has set the button since it last showed one. -/
theorem button_follows_channel {name : String} (hname : getName name = name)
    (vars : ν → Option String) (hwidget : EpicsButton.construct env.nonzero options = .ok widget)
    {as bs : List ButtonAction} {t : ButtonProcess ν}
    (hrun : Run (ButtonProcess.step resolve this env) KeepsLink
      (ButtonProcess.initial name vars widget) as s) (hmade : s.stage ≠ .before)
    (hown : Run (ButtonProcess.step resolve this env) Own s bs t) :
    bs.length ≤ s.work ∧
    (¬ t.Quiet → ∃ a, t.Own a ∧ t.step resolve this env a ≠ none) ∧
    t.reading env = s.reading env ∧
    (t.Quiet → s.heard = true → t.called = false → ∀ b, s.reading env = some b →
      t.widget.button.state = .ofBool b ∧ t.widget.button.Looks env.color) := by
  let Inv (u : ButtonProcess ν) : Prop := Reached resolve env u ∧ u.stage ≠ .before ∧
    u.reading env = s.reading env ∧ u.heard = s.heard
  have hstart : Inv s := ⟨reached_of_run hname hwidget hrun, hmade, rfl, rfl⟩
  have hpreserve : ∀ u a u', Inv u → u.Own a → u.step resolve this env a = some u' → Inv u' := by
    intro u a u' hu ha hstep
    obtain ⟨hreached, hmade, hreading, hheard⟩ := hu
    have hafter := ownStep hreached.inv hreached.found ha hstep
    exact ⟨hreached.step (keepsLink_of_own ha) hstep, hafter.made hmade,
      hafter.reading.trans hreading, hafter.heard.trans hheard⟩
  obtain ⟨hreached, hmade', hreading, hheard⟩ := hown.invariant Inv hstart hpreserve
  refine ⟨?_, own_step_possible hreached hmade', hreading, ?_⟩
  · have hlength := hown.length_le Inv hstart hpreserve work fun u a u' hu ha hstep =>
      (ownStep hu.1.inv hu.1.found ha hstep).work
    omega
  · intro hquiet hhas hcalled b hb
    refine ⟨?_, hreached.inv.looks⟩
    have hnot : ¬ t.Announced resolve := by
      intro hannounced
      rcases hannounced with h | h | h | ⟨v, hv, -⟩
      · simp [hquiet.tracing] at h
      · simp [hquiet.timer] at h
      · exact h hquiet.events
      · rw [rest_of_ne (by simp [hquiet.idle])] at hv
        cases hv
    have hshows := (hreached.inv.shown hquiet.made (hheard.trans hhas) hcalled).resolve_left hnot
    exact hshows b (hreading.trans hb)

/-- The command writes a variable to which another name is linked, too. -/
def Aliased (resolve : String → ν) (t : Session ν) (b : SessionAction) : Prop :=
  ∃ v ∈ Session.refreshes t b, ∃ u ∈ Session.namesOf resolve t v, u ≠ v

/-- The traces assign what a script writes, or, to a variable of two names,
what the channel reads. -/
theorem assigns_cases {t t' : Session ν} {b : SessionAction}
    (hstep : t.step resolve this b = some t') {x : String} (hx : x ∈ Session.assigns resolve t b) :
    (∃ varname, b = .scriptWrite varname x ∧ Session.namesOf resolve t varname ≠ []) ∨
      Aliased resolve t b ∧ x = t'.command.pChannel.getValue := by
  have haliased : ∀ value, x ∈ (Session.refreshes t b).flatMap (fun v =>
      ((Session.namesOf resolve t v).filter (· ≠ v)).map fun _ => value) →
      Aliased resolve t b ∧ x = value := by
    intro value hx
    obtain ⟨v, hv, hx⟩ := List.mem_flatMap.mp hx
    obtain ⟨u, hu, rfl⟩ := List.mem_map.mp hx
    obtain ⟨hu, hne⟩ := List.mem_filter.mp hu
    exact ⟨⟨v, hv, u, hu, by simpa using hne⟩, rfl⟩
  cases b with
  | scriptWrite varname value =>
    obtain ⟨u, hu, rfl⟩ := List.mem_map.mp hx
    exact .inl ⟨varname, rfl, List.ne_nil_of_mem hu⟩
  | epicsUpdate args now inTclThread =>
    obtain ⟨-, rfl⟩ : (inTclThread = true → t.thread = .idle) ∧
        t.epicsUpdate resolve args now inTclThread = t' := by
      simpa [Session.step] using hstep
    rw [epicsUpdate_command]
    exact .inr (haliased _ hx)
  | link varname =>
    obtain ⟨-, rfl⟩ : t.thread = .idle ∧ t.beginLink resolve this varname = t' := by
      simpa [Session.step] using hstep
    have hchannel : (t.beginLink resolve this varname).command.pChannel = t.command.pChannel := by
      unfold Session.beginLink
      cases t.command.find varname <;> rfl
    rw [hchannel]
    exact .inr (haliased _ hx)
  | resume =>
    obtain ⟨haliased, hvalue⟩ := haliased _ hx
    refine .inr ⟨haliased, hvalue.trans ?_⟩
    simp only [Session.step] at hstep
    split at hstep <;> cases hstep <;> rfl
  | unlink varname => cases hx
  | dispatch => cases hx
  | registry others => cases hx
  | connection args => cases hx

omit [DecidableEq ν] [CTCLObjectProcessor] [ChannelAccess] in
theorem connected_of_setsState (hstate : s.setsState = true)
    (hconnected : s.session.command.pChannel.fConnected = true) : s.connected = true := by
  rw [connected, if_pos hstate, hconnected]

end Runs

/-! ## A channel that says that it is on -/

section

attribute [local instance] CTCLObjectProcessor.global ChannelAccess.numbering

def exampleEnvironment : ButtonEnvironment where
  color := "gray"
  nonzero text := if text = "1" then some true else if text = "0" then some false else none
  listText elements := elements.headD ""

/-- The button of a channel `a`, as it is constructed. -/
def exampleButton : EpicsButton where
  options := { channel := "a", modality := "double" }
  statechannel := "a"
  button := .pair (.construct (EpicsButton.buttonOptions { channel := "a" }))
  packed := [.label, .button]

/-- The channel connects, and its first value arrives while the button links
its variable: an update in the gap. -/
def gapUpdate : List ButtonAction :=
  [.session (.connection ⟨.connUp, dbfString⟩), .create,
    .session (.epicsUpdate ⟨1, 1, [0x31, 0]⟩ 5 false), .session .resume]

theorem gapUpdate_run : ∃ s t : ButtonProcess String,
    Run (ButtonProcess.step (fun u => u) 0 exampleEnvironment) KeepsLink
      (ButtonProcess.initial "a" (fun _ => none) exampleButton) gapUpdate s ∧
    Run (ButtonProcess.step (fun u => u) 0 exampleEnvironment) Own s [.timer] t ∧
    (s.stage = .done ∧ s.heard = true ∧ s.reading exampleEnvironment = some true ∧
      s.widget.button.state = .off) ∧
    t.Quiet ∧ t.called = false ∧ t.session.vars "::controlwidget::a" = some "" :=
  ⟨_, _, .of_runAll rfl (by simp [gapUpdate, KeepsLink]), .of_runAll rfl (by simp [Own]),
    ⟨rfl, rfl, rfl, rfl⟩, ⟨rfl, rfl, rfl, rfl, rfl⟩, rfl, rfl⟩

/-- The variable misses the update, and the button shows it. -/
theorem button_shows_gap_update :
    ∃ t : ButtonProcess String, t.Quiet ∧ t.session.vars "::controlwidget::a" = some "" ∧
      t.widget.button.state = .on := by
  obtain ⟨s, t, hrun, hown, ⟨hmade, hheard, hreading, -⟩, hquiet, hcalled, hvar⟩ := gapUpdate_run
  have hfollows := button_follows_channel rfl (fun _ => none) (rfl : EpicsButton.construct
    exampleEnvironment.nonzero exampleButton.options = .ok exampleButton) hrun (by simp [hmade])
    hown
  exact ⟨t, hquiet, hvar, (hfollows.2.2.2 hquiet hheard hcalled true hreading).1⟩

end

end EpicsTcl.Widget
