/-
EpicsTcl.Command.RefreshTheorems — are updates lost between EPICS and a
linked variable?

`Link` copies the value and then installs the slot. While no slot is
installed an update that falls in between is seen by nobody: the variable
keeps the old value until the next update. `NoGapUpdate` excludes exactly
that, an update that changes the value while `Link` has not yet installed
the first slot and no event is on its way. An event is ignored, too, when
`update` does not find its name registered (`Heard`); that does not happen to
a channel whose name Tcl keeps (`heard_of_getName`).

Without interference the steps of a command come to what the command does
in `ChannelCommand` (`link_alone`, `unlink_alone`, `update_alone`,
`resume_alone`).

`SessionInv` is the invariant that carries the rest: an event is on its way
or every linked variable is fresh, except for those that a running
`UpdateLinkedVariable` has yet to visit. Dispatching reads the value anew
at each variable, so an update during a refresh only adds an event.
-/
import EpicsTcl.Command.MonitorSteps
import EpicsTcl.Command.WorldInvariant

namespace EpicsTcl.Command

open EpicsTcl.Channel EpicsTcl.Library

section

variable {ν : Type*} [CTCLObjectProcessor] [ChannelAccess] {resolve : String → ν} {this : CommandId}

namespace Session

/-- The names of the linked variables. -/
def linked (s : Session ν) : List String := s.command.linkedVariables.map (·.varname)

/-- The channel's scalar value. -/
def value (s : Session ν) : String := s.command.pChannel.getValue

/-- The variables that a running `UpdateLinkedVariable` has yet to visit. -/
def rest (s : Session ν) : List CChannelVariable :=
  match s.thread with
  | .inUpdate rest => rest
  | _ => []

/-- A variable is fresh: if no script wrote it since its last refresh, it
holds the channel's value. -/
def FreshVar (s : Session ν) (x : ν) : Prop := s.written x = false → s.vars x = some s.value

/-- Every linked variable is fresh. -/
def Converged (resolve : String → ν) (s : Session ν) : Prop :=
  ∀ u ∈ s.linked, s.FreshVar (resolve u)

/-- The same, apart from the variables still to be visited. -/
def Fresh (resolve : String → ν) (s : Session ν) : Prop :=
  ∀ u ∈ s.linked, (∀ v ∈ s.rest, resolve v.sVariable ≠ resolve u) → s.FreshVar (resolve u)

/-- `Link` has copied the value, no slot is installed yet, and no event is
on its way. -/
def InGap (s : Session ν) : Prop :=
  s.thread = .inLink ∧ s.command.pChannel.pHandler = none ∧ s.events = []

instance (s : Session ν) : Decidable s.InGap := by unfold InGap; infer_instance

/-- No update changes the value in the gap. -/
def NoGapUpdate (s : Session ν) : SessionAction → Prop
  | .epicsUpdate args now _ => s.InGap →
    (s.command.pChannel.updateHandler args now).1.getValue = s.value
  | _ => True

instance (s : Session ν) (a : SessionAction) : Decidable (s.NoGapUpdate a) := by
  cases a <;> unfold NoGapUpdate <;> infer_instance

/-- `update` finds the name of the event that it is called for. -/
def Heard (s : Session ν) : SessionAction → Prop
  | .dispatch => ∀ ev ∈ s.events.head?, s.haveChannel ev.channelName = true
  | .epicsUpdate args now true => (s.command.pChannel.updateHandler args now).2 ≠ none →
    s.haveChannel (getName s.command.name) = true
  | _ => True

instance (s : Session ν) (a : SessionAction) : Decidable (s.Heard a) := by
  unfold Heard
  split <;> infer_instance

/-- Every update of the value is noticed. -/
def Noticed (s : Session ν) (a : SessionAction) : Prop := s.NoGapUpdate a ∧ s.Heard a

instance (s : Session ν) (a : SessionAction) : Decidable (s.Noticed a) :=
  inferInstanceAs (Decidable (_ ∧ _))

end Session

open Session

/-- The invariant. The slot is installed while variables are linked, but
for the gap, in which some linked variable is unwritten. -/
structure SessionInv (resolve : String → ν) (s : Session ν) : Prop where
  named : ∀ i ∈ s.command.linkedVariables, i.pLinkedVar.sVariable = i.varname
  slot : s.thread ≠ .inLink → s.linked ≠ [] → s.command.pChannel.pHandler ≠ none
  gap : s.thread = .inLink → s.command.pChannel.pHandler = none →
    ∃ u ∈ s.linked, s.written (resolve u) = false
  fresh : s.events ≠ [] ∨ s.Fresh resolve

omit [CTCLObjectProcessor] in
theorem sessionInv_initial (name : String) (vars : ν → Option String) :
    SessionInv resolve (Session.initial name vars) where
  named := by intro i hi; cases hi
  slot := by intro _ h; exact absurd rfl h
  gap := by intro h; cases h
  fresh := .inr (by intro u hu; cases hu)

/-! ## The interpreter's thread -/

section Steps

variable [DecidableEq ν] {s s' : Session ν}

omit [DecidableEq ν] [CTCLObjectProcessor] [ChannelAccess] in
theorem rest_of_ne {s : Session ν} (h : ∀ rest, s.thread ≠ .inUpdate rest) : s.rest = [] := by
  unfold rest
  split
  · next rest heq => exact absurd heq (h rest)
  · rfl

omit [CTCLObjectProcessor] [ChannelAccess] in
@[simp] theorem newEpicsValue_command (value : String) (v : CChannelVariable) :
    (s.newEpicsValue resolve value v).command = s.command := rfl

omit [CTCLObjectProcessor] [ChannelAccess] in
/-- Writing a variable from EPICS makes it fresh and leaves the others. -/
theorem freshVar_newEpicsValue {v : CChannelVariable} {x : ν}
    (h : resolve v.sVariable ≠ x → s.FreshVar x) :
    (s.newEpicsValue resolve s.value v).FreshVar x := by
  intro hwritten
  by_cases hx : resolve v.sVariable = x
  · simp [newEpicsValue, hx, value]
  · simp only [newEpicsValue, Function.update_of_ne (Ne.symm hx)] at hwritten ⊢
    exact h hx hwritten

omit [CTCLObjectProcessor] [ChannelAccess] in
theorem sessionInv_beginLink (inv : SessionInv resolve s) (hidle : s.thread = .idle)
    (varname : String) : SessionInv resolve (s.beginLink resolve this varname) := by
  have hrest : s.rest = [] := rest_of_ne (by simp [hidle])
  unfold beginLink
  cases hfind : s.command.find varname with
  | some i =>
    obtain ⟨hi, rfl⟩ := CTCLChannelCommand.find_some hfind
    have hslot := inv.slot (by simp [hidle])
      (List.ne_nil_of_mem (List.mem_map_of_mem hi : i.varname ∈ s.linked))
    constructor
    case named =>
      intro j hj
      rcases CTCLChannelCommand.of_mem_updateLinked hj with rfl | hj
      · exact inv.named i hi
      · exact inv.named j hj
    case slot => intro h; exact absurd rfl h
    case gap => intro _ h; exact absurd h hslot
    case fresh =>
      refine inv.fresh.imp id fun hfresh u hu _ => ?_
      have hu : u ∈ s.linked := by simpa [linked] using hu
      exact hfresh u hu (by simp [hrest])
  | none =>
    constructor
    case named =>
      intro j hj
      rcases List.mem_append.mp hj with hj | hj
      · exact inv.named j hj
      · obtain rfl := List.mem_singleton.mp hj
        rfl
    case slot => intro h; exact absurd rfl h
    case gap =>
      intro _ _
      exact ⟨varname, by simp [linked], by simp [newEpicsValue]⟩
    case fresh =>
      refine inv.fresh.imp id fun hfresh u hu _ => ?_
      have hu : u ∈ s.linked ∨ u = varname := by simpa [linked] using hu
      refine freshVar_newEpicsValue (v := ⟨varname, this, 1⟩) fun hne => ?_
      rcases hu with hu | rfl
      · exact hfresh u hu (by simp [hrest])
      · exact absurd rfl hne

omit [DecidableEq ν] [CTCLObjectProcessor] [ChannelAccess] in
theorem sessionInv_endLink (inv : SessionInv resolve s) (hthread : s.thread = .inLink) :
    SessionInv resolve (s.endLink this) where
  named := inv.named
  slot := by simp [endLink, CChannel.setSlot]
  gap := by intro h; cases h
  fresh := by
    have hrest : s.rest = [] := rest_of_ne (by simp [hthread])
    exact inv.fresh.imp id fun hfresh u hu _ => hfresh u hu (by simp [hrest])

omit [DecidableEq ν] [CTCLObjectProcessor] [ChannelAccess] in
theorem sessionInv_unlink (inv : SessionInv resolve s) (hidle : s.thread = .idle)
    (varname : String) : SessionInv resolve (s.unlink varname) := by
  have hrest : s.rest = [] := rest_of_ne (by simp [hidle])
  unfold Session.unlink
  cases hfind : s.command.find varname with
  | none => exact inv
  | some i =>
    obtain ⟨hi, rfl⟩ := CTCLChannelCommand.find_some hfind
    have hslot := inv.slot (by simp [hidle])
      (List.ne_nil_of_mem (List.mem_map_of_mem hi : i.varname ∈ s.linked))
    simp only
    split
    · have hmem : ∀ j ∈ s.command.linkedVariables.eraseP (·.varname = i.varname),
          j ∈ s.command.linkedVariables := fun j => List.mem_of_mem_eraseP
      constructor
      case named => exact fun j hj => inv.named j (hmem j hj)
      case slot =>
        intro _ hne
        have hnil : s.command.linkedVariables.eraseP (·.varname = i.varname) ≠ [] := by
          simpa [linked] using hne
        simpa [hnil] using hslot
      case gap => intro h; exact absurd h (by simp [hidle])
      case fresh =>
        refine inv.fresh.imp id fun hfresh u hu _ => ?_
        obtain ⟨j, hj, rfl⟩ := List.mem_map.mp hu
        have hvalue : (if s.command.linkedVariables.eraseP (·.varname = i.varname) = [] then
            s.command.pChannel.setSlot none else s.command.pChannel).getValue = s.value := by
          split <;> rfl
        have hold := hfresh j.varname (List.mem_map_of_mem (hmem j hj)) (by simp [hrest])
        intro hwritten
        rw [Session.value, hvalue]
        exact hold hwritten
    · constructor
      case named =>
        intro j hj
        rcases CTCLChannelCommand.of_mem_updateLinked hj with rfl | hj
        · exact inv.named i hi
        · exact inv.named j hj
      case slot => exact fun _ _ => hslot
      case gap => intro h; exact absurd h (by simp [hidle])
      case fresh =>
        refine inv.fresh.imp id fun hfresh u hu _ => ?_
        have hu : u ∈ s.linked := by simpa [linked] using hu
        exact hfresh u hu (by simp [hrest])

omit [DecidableEq ν] [CTCLObjectProcessor] [ChannelAccess] in
/-- Dispatching an event leaves every linked variable to be visited. -/
theorem sessionInv_dispatch (inv : SessionInv resolve s) (hidle : s.thread = .idle)
    (events : List ChangeEvent) :
    SessionInv resolve { s with
      events, thread := updating (s.command.linkedVariables.map (·.pLinkedVar)) } := by
  constructor
  case named => exact inv.named
  case slot => exact fun _ => inv.slot (by simp [hidle])
  case gap =>
    intro h
    simp only at h
    cases hl : s.command.linkedVariables.map (·.pLinkedVar) <;> simp [hl, updating] at h
  case fresh =>
    refine .inr fun u hu hpending => ?_
    obtain ⟨i, hi, rfl⟩ := List.mem_map.mp hu
    refine absurd (by rw [inv.named i hi]) (hpending i.pLinkedVar ?_)
    have hmem := List.mem_map_of_mem (f := (·.pLinkedVar)) hi
    unfold Session.rest updating
    cases hl : s.command.linkedVariables.map (·.pLinkedVar) with
    | nil => simp [hl] at hmem
    | cons v vs => rw [hl] at hmem; exact hmem

omit [CTCLObjectProcessor] [ChannelAccess] in
theorem sessionInv_refreshNext (inv : SessionInv resolve s) {v : CChannelVariable}
    {vs : List CChannelVariable} (hthread : s.thread = .inUpdate (v :: vs)) :
    SessionInv resolve (s.refreshNext resolve v vs) := by
  have hrest : s.rest = v :: vs := by simp [Session.rest, hthread]
  have hrest' : (s.refreshNext resolve v vs).rest = vs := by
    cases vs <;> rfl
  constructor
  case named => exact inv.named
  case slot => exact fun _ => inv.slot (by simp [hthread])
  case gap =>
    intro h
    simp only [refreshNext] at h
    cases vs <;> simp [updating] at h
  case fresh =>
    refine inv.fresh.imp id fun hfresh u hu hpending => ?_
    rw [hrest'] at hpending
    refine freshVar_newEpicsValue (s := s) (v := v) fun hne => hfresh u hu fun w hw => ?_
    rw [hrest] at hw
    rcases List.mem_cons.mp hw with rfl | hw
    · exact hne
    · exact hpending w hw

omit [CTCLObjectProcessor] [ChannelAccess] in
theorem sessionInv_scriptWrite (inv : SessionInv resolve s) (hidle : s.thread = .idle)
    (x : ν) (value : String) :
    SessionInv resolve { s with
      vars := Function.update s.vars x (some value)
      written := Function.update s.written x true } where
  named := inv.named
  slot := inv.slot
  gap := by intro h; rw [show s.thread = .inLink from h] at hidle; cases hidle
  fresh := by
    refine inv.fresh.imp id fun hfresh u hu hpending hwritten => ?_
    have hne : resolve u ≠ x := by
      intro heq
      simp [heq] at hwritten
    have hold := hfresh u hu hpending
    simp only [Function.update_of_ne hne] at hwritten ⊢
    exact hold hwritten

/-! ## The threads of Channel Access -/

omit [DecidableEq ν] [CTCLObjectProcessor] in
theorem sessionInv_connection (inv : SessionInv resolve s) (args : ConnectionHandlerArgs) :
    SessionInv resolve { s with command := { s.command with
      pChannel := (s.command.pChannel.stateHandler args {}).1 } } := by
  obtain ⟨hhandler, hvalue⟩ := CChannel.stateHandler_frame args s.command.pChannel {}
  constructor
  case named => exact inv.named
  case slot => exact fun ht hne hnone => inv.slot ht hne (hhandler.symm.trans hnone)
  case gap => exact fun ht hnone => inv.gap ht (hhandler.symm.trans hnone)
  case fresh =>
    refine inv.fresh.imp id fun hfresh u hu hpending hwritten => ?_
    rw [Session.value, CChannel.getValue, hvalue]
    exact hfresh u hu hpending hwritten

variable (resolve) in
omit [CTCLObjectProcessor] [ChannelAccess] in
/-- A refresh of some variables at once. -/
theorem refreshAll_frame (vs : List CChannelVariable) (s : Session ν) :
    ∃ vars written, vs.foldl
        (fun s v => s.newEpicsValue resolve s.command.pChannel.getValue v) s =
      { s with vars, written } ∧
      ∀ x, ((∃ v ∈ vs, resolve v.sVariable = x) ∨ s.FreshVar x) →
        ({ s with vars, written } : Session ν).FreshVar x := by
  induction vs generalizing s with
  | nil => exact ⟨s.vars, s.written, rfl, by simp⟩
  | cons v vs ih =>
    obtain ⟨vars, written, heq, hfresh⟩ := ih (s.newEpicsValue resolve s.value v)
    refine ⟨vars, written, heq, fun x hx => hfresh x ?_⟩
    by_cases hlater : ∃ u ∈ vs, resolve u.sVariable = x
    · exact .inl hlater
    · refine .inr (freshVar_newEpicsValue fun hne => ?_)
      rcases hx with ⟨u, hu, rfl⟩ | hx
      · rcases List.mem_cons.mp hu with rfl | hu
        · exact absurd rfl hne
        · exact absurd ⟨u, hu, rfl⟩ hlater
      · exact hx

omit [CTCLObjectProcessor] [ChannelAccess] in
@[simp] theorem updateLinkedVariable_command (s : Session ν) :
    (s.updateLinkedVariable resolve).command = s.command := by
  obtain ⟨vars, written, heq, -⟩ :=
    refreshAll_frame resolve (s.command.linkedVariables.map (·.pLinkedVar)) s
  rw [show s.updateLinkedVariable resolve = _ from heq]

omit [CTCLObjectProcessor] [ChannelAccess] in
/-- `update` of an event whose name is found. -/
theorem update_heard {c : CChannel} {name : String} (h : s.haveChannel name = true) :
    ({ s with command := { s.command with pChannel := c } } : Session ν).update resolve name =
      ({ s with command := { s.command with pChannel := c } } : Session ν).updateLinkedVariable
        resolve :=
  if_pos h

omit [CTCLObjectProcessor] [ChannelAccess] in
/-- `update` writes variables at most. -/
theorem update_frame (resolve : String → ν) (name : String) (s : Session ν) :
    ∃ vars written, s.update resolve name = { s with vars, written } := by
  unfold Session.update
  split
  · obtain ⟨vars, written, heq, -⟩ :=
      refreshAll_frame resolve (s.command.linkedVariables.map (·.pLinkedVar)) s
    exact ⟨vars, written, heq⟩
  · exact ⟨s.vars, s.written, rfl⟩

omit [ChannelAccess] in
/-- An update changes the channel of the command, and nothing else of it. -/
theorem epicsUpdate_command (resolve : String → ν) (args : EventHandlerArgs) (now : Int)
    (inTclThread : Bool) (s : Session ν) :
    (s.epicsUpdate resolve args now inTclThread).command =
      { s.command with pChannel := (s.command.pChannel.updateHandler args now).1 } := by
  unfold Session.epicsUpdate
  cases hslot : (s.command.pChannel.updateHandler args now).2 with
  | none => simp only [hslot]
  | some slot =>
    cases inTclThread with
    | false => simp [hslot]
    | true =>
      obtain ⟨vars, written, heq⟩ := update_frame resolve (getName s.command.name)
        ({ s with command := { s.command with
          pChannel := (s.command.pChannel.updateHandler args now).1 } } : Session ν)
      simp only [hslot, if_true, heq]

omit [ChannelAccess] in
theorem sessionInv_epicsUpdate (inv : SessionInv resolve s) {args : EventHandlerArgs} {now : Int}
    {inTclThread : Bool} (hthread : inTclThread = true → s.thread = .idle)
    (hok : s.Noticed (.epicsUpdate args now inTclThread)) :
    SessionInv resolve (s.epicsUpdate resolve args now inTclThread) := by
  have hhandler := CChannel.updateHandler_pHandler args now s.command.pChannel
  unfold Session.epicsUpdate
  cases hslot : (s.command.pChannel.updateHandler args now).2 with
  | none =>
    simp only [hslot]
    constructor
    case named => exact inv.named
    case slot => exact fun ht hne hnone => inv.slot ht hne (hhandler.symm.trans hnone)
    case gap => exact fun ht hnone => inv.gap ht (hhandler.symm.trans hnone)
    case fresh =>
      by_cases hsame : (s.command.pChannel.updateHandler args now).1.getValue = s.value
      · refine inv.fresh.imp id fun hfresh u hu hpending hwritten => ?_
        rw [Session.value, hsame]
        exact hfresh u hu hpending hwritten
      · -- the value changed and nobody was told, so no slot is installed
        have hnone : s.command.pChannel.pHandler = none := by
          rw [← CChannel.updateHandler_slot hsame, hslot]
        by_cases hlink : s.thread = .inLink
        · left
          intro hevents
          exact hsame (hok.1 ⟨hlink, hnone, hevents⟩)
        · right
          intro u hu
          exact absurd hnone (inv.slot hlink (List.ne_nil_of_mem hu))
  | some slot =>
    cases inTclThread with
    | false =>
      simp only [hslot, Bool.false_eq_true, if_false]
      constructor
      case named => exact inv.named
      case slot => exact fun ht hne hnone => inv.slot ht hne (hhandler.symm.trans hnone)
      case gap => exact fun ht hnone => inv.gap ht (hhandler.symm.trans hnone)
      case fresh => exact .inl (by simp)
    | true =>
      have hidle := hthread rfl
      have hheard : s.haveChannel (getName s.command.name) = true := hok.2 (by simp [hslot])
      obtain ⟨vars, written, heq, hfresh⟩ := refreshAll_frame resolve
        (s.command.linkedVariables.map (·.pLinkedVar)) ({ s with command := { s.command with
          pChannel := (s.command.pChannel.updateHandler args now).1 } } : Session ν)
      simp only [hslot, if_true, update_heard hheard]
      rw [show Session.updateLinkedVariable resolve _ = _ from heq]
      constructor
      case named => exact inv.named
      case slot => exact fun ht hne hnone => inv.slot ht hne (hhandler.symm.trans hnone)
      case gap => intro h; rw [hidle] at h; cases h
      case fresh =>
        refine .inr fun u hu _ => hfresh _ (.inl ?_)
        obtain ⟨i, hi, rfl⟩ := List.mem_map.mp hu
        exact ⟨i.pLinkedVar, List.mem_map_of_mem hi, by rw [inv.named i hi]⟩

/-- **One step keeps the invariant.** -/
theorem sessionInv_step (inv : SessionInv resolve s) {a : SessionAction} (hok : s.Noticed a)
    (h : s.step resolve this a = some s') : SessionInv resolve s' := by
  cases a with
  | link varname =>
    simp only [Session.step] at h
    split at h
    · next hidle => cases h; exact sessionInv_beginLink inv hidle varname
    · cases h
  | unlink varname =>
    simp only [Session.step] at h
    split at h
    · next hidle => cases h; exact sessionInv_unlink inv hidle varname
    · cases h
  | dispatch =>
    simp only [Session.step] at h
    split at h
    · next ev events hidle hevents =>
      have hheard : s.haveChannel ev.channelName = true := hok.2 ev (by rw [hevents]; rfl)
      rw [if_pos hheard] at h
      cases h
      exact sessionInv_dispatch inv hidle _
    · cases h
  | resume =>
    simp only [Session.step] at h
    split at h
    · next hthread => cases h; exact sessionInv_endLink inv hthread
    · next hthread => cases h; exact sessionInv_refreshNext inv hthread
    · cases h
  | scriptWrite varname value =>
    simp only [Session.step] at h
    split at h
    · next hidle => cases h; exact sessionInv_scriptWrite inv hidle _ value
    · cases h
  | registry others =>
    simp only [Session.step] at h
    split at h <;> cases h
    exact ⟨inv.named, inv.slot, inv.gap, inv.fresh⟩
  | connection args =>
    cases h
    exact sessionInv_connection inv args
  | epicsUpdate args now inTclThread =>
    simp only [Session.step] at h
    split at h
    · cases h
    · next hthread =>
      cases h
      refine sessionInv_epicsUpdate inv (fun htrue => ?_) hok
      by_contra hne
      exact hthread ⟨htrue, hne⟩

end Steps

/-! ## What a refresh has left to do -/

section Rest

omit [CTCLObjectProcessor] [ChannelAccess] in
/-- The variables that a refresh has yet to visit. -/
theorem rest_updating {t : Session ν} (vs : List CChannelVariable)
    (h : t.thread = Session.updating vs) : t.rest = vs := by
  unfold Session.rest
  rw [h]
  cases vs <;> rfl

variable [DecidableEq ν]

omit [ChannelAccess] in
/-- What an update leaves of the session. -/
theorem epicsUpdate_thread (resolve : String → ν) (args : EventHandlerArgs) (now : Int)
    (inTclThread : Bool) (t : Session ν) :
    (t.epicsUpdate resolve args now inTclThread).thread = t.thread := by
  unfold Session.epicsUpdate
  cases hslot : (t.command.pChannel.updateHandler args now).2 with
  | none => simp only [hslot]
  | some slot =>
    cases inTclThread with
    | false => simp [hslot]
    | true =>
      obtain ⟨vars, written, heq⟩ := update_frame resolve (getName t.command.name)
        ({ t with command := { t.command with
          pChannel := (t.command.pChannel.updateHandler args now).1 } } : Session ν)
      simp only [hslot, if_true, heq]

/-- A refresh that has nothing left to visit is over. -/
theorem refresh_left {t t' : Session ν} (ht : t.thread ≠ .inUpdate []) {a : SessionAction}
    (h : t.step resolve this a = some t') : t'.thread ≠ .inUpdate [] := by
  have hupdating : ∀ vs, Session.updating vs ≠ .inUpdate [] := by
    intro vs
    cases vs <;> simp [Session.updating]
  cases a with
  | link varname =>
    obtain ⟨-, rfl⟩ : t.thread = .idle ∧ t.beginLink resolve this varname = t' := by
      simpa [Session.step] using h
    unfold Session.beginLink
    cases t.command.find varname <;> simp
  | unlink varname =>
    obtain ⟨-, rfl⟩ : t.thread = .idle ∧ t.unlink varname = t' := by
      simpa [Session.step] using h
    unfold Session.unlink
    cases t.command.find varname with
    | none => exact ht
    | some i =>
      dsimp only
      split <;> exact ht
  | dispatch =>
    simp only [Session.step] at h
    split at h
    · split at h <;> cases h
      · exact hupdating _
      · exact ht
    · cases h
  | resume =>
    simp only [Session.step] at h
    split at h <;> cases h
    · simp [Session.endLink]
    · exact hupdating _
  | scriptWrite varname value =>
    simp only [Session.step] at h
    split at h <;> cases h
    exact ht
  | registry others =>
    simp only [Session.step] at h
    split at h <;> cases h
    exact ht
  | connection args =>
    cases h
    exact ht
  | epicsUpdate args now inTclThread =>
    simp only [Session.step] at h
    split at h <;> cases h
    rw [epicsUpdate_thread]
    exact ht

end Rest

/-! ## The names of the events -/

section Names

/-- The events carry the name that Tcl has for the command. -/
def Session.Named (s : Session ν) : Prop := ∀ ev ∈ s.events, ev.channelName = getName s.command.name

variable [DecidableEq ν] {s s' : Session ν}

omit [ChannelAccess] in
/-- An event of the channel gets the name that Tcl has for the command. -/
theorem Session.named_epicsUpdate (hnamed : Named s) (args : EventHandlerArgs) (now : Int)
    (inTclThread : Bool) : Named (s.epicsUpdate resolve args now inTclThread) := by
  intro ev hev
  rw [epicsUpdate_command]
  unfold Session.epicsUpdate at hev
  cases hslot : (s.command.pChannel.updateHandler args now).2 with
  | none =>
    simp only [hslot] at hev
    exact hnamed ev hev
  | some slot =>
    cases inTclThread with
    | false =>
      simp only [hslot, Bool.false_eq_true, if_false, List.mem_append, List.mem_singleton] at hev
      rcases hev with hev | rfl
      · exact hnamed ev hev
      · rfl
    | true =>
      obtain ⟨vars, written, heq⟩ := update_frame resolve (getName s.command.name)
        ({ s with command := { s.command with
          pChannel := (s.command.pChannel.updateHandler args now).1 } } : Session ν)
      simp only [hslot, if_true, heq] at hev
      exact hnamed ev hev

/-- A step keeps the command's name, and events get the name that Tcl has for
it. -/
theorem Session.named_step (hnamed : Named s) {a : SessionAction}
    (h : s.step resolve this a = some s') : Named s' ∧ s'.command.name = s.command.name := by
  cases a with
  | link varname =>
    obtain ⟨-, rfl⟩ : s.thread = .idle ∧ s.beginLink resolve this varname = s' := by
      simpa [Session.step] using h
    unfold Session.beginLink
    cases s.command.find varname <;> exact ⟨hnamed, rfl⟩
  | unlink varname =>
    obtain ⟨-, rfl⟩ : s.thread = .idle ∧ s.unlink varname = s' := by
      simpa [Session.step] using h
    unfold Session.unlink
    cases s.command.find varname with
    | none => exact ⟨hnamed, rfl⟩
    | some i =>
      dsimp only
      split <;> exact ⟨hnamed, rfl⟩
  | dispatch =>
    simp only [Session.step] at h
    split at h
    · next ev events _ hevents =>
      have hrest : ∀ e ∈ events, e.channelName = getName s.command.name :=
        fun e he => hnamed e (by rw [hevents]; exact List.mem_cons_of_mem _ he)
      split at h <;> cases h <;> exact ⟨hrest, rfl⟩
    · cases h
  | resume =>
    simp only [Session.step] at h
    split at h <;> cases h <;> exact ⟨hnamed, rfl⟩
  | scriptWrite varname value =>
    simp only [Session.step] at h
    split at h <;> cases h
    exact ⟨hnamed, rfl⟩
  | registry others =>
    simp only [Session.step] at h
    split at h <;> cases h
    exact ⟨hnamed, rfl⟩
  | connection args =>
    cases h
    exact ⟨hnamed, rfl⟩
  | epicsUpdate args now inTclThread =>
    simp only [Session.step] at h
    split at h <;> cases h
    exact ⟨named_epicsUpdate hnamed args now inTclThread, by rw [epicsUpdate_command]⟩

omit [DecidableEq ν] [ChannelAccess] in
/-- A name that Tcl keeps is always found. -/
theorem Session.heard_of_getName (hnamed : Named s)
    (hname : getName s.command.name = s.command.name)
    (a : SessionAction) : s.Heard a := by
  have hfound : s.haveChannel (getName s.command.name) = true := by
    simp [Session.haveChannel, hname]
  unfold Session.Heard
  split
  · intro ev hev
    rw [hnamed ev (List.mem_of_mem_head? hev)]
    exact hfound
  · exact fun _ => hfound
  · trivial

end Names

/-! ## Without interference -/

section Alone

variable [DecidableEq ν] {s : Session ν} {w w' : World ν} {id : CommandId}

/-- The session shows one command object of the process. -/
structure Shows (s : Session ν) (w : World ν) (id : CommandId) : Prop where
  object : w.objects id = some s.command
  vars : w.interp.vars = s.vars
  events : w.interp.events = s.events

omit [ChannelAccess] in
theorem link_alone (inv : WorldInv resolve w) (h : Shows s w id) (name : String) {varname : String}
    (hlinked : w.isLinked id varname = false) :
    Shows ((s.beginLink resolve id varname).endLink id)
      (w.link resolve id [name, "link", varname]).2 id := by
  obtain ⟨hobject, hvars, hevents⟩ := h
  unfold beginLink
  cases hfind : s.command.find varname with
  | some i =>
    rw [World.link_again hobject hlinked hfind]
    exact ⟨by simp [endLink], hvars, hevents⟩
  | none =>
    obtain ⟨ca, heq⟩ := World.link_new hobject name hlinked hfind
      (inv.trace_unlinked hobject hfind)
    rw [heq]
    refine ⟨by simp [endLink], ?_, hevents⟩
    simp [endLink, newEpicsValue, hvars]

omit [ChannelAccess] in
theorem unlink_alone (h : Shows s w id) (name varname : String) :
    Shows (s.unlink varname) (w.unlink resolve id [name, "unlink", varname]).2 id := by
  obtain ⟨hobject, hvars, hevents⟩ := h
  unfold Session.unlink
  cases hfind : s.command.find varname with
  | none =>
    rw [World.unlink_rejected hobject hfind]
    exact ⟨hobject, hvars, hevents⟩
  | some i =>
    obtain ⟨-, hname⟩ := CTCLChannelCommand.find_some hfind
    by_cases hcount : i.pLinkedVar.dereference.referenceCount = 0
    · rw [World.unlink_last hobject hfind hcount]
      simp only [hcount, if_true, hname]
      exact ⟨by simp, hvars, hevents⟩
    · rw [World.unlink_more hobject hfind hcount]
      simp only [hcount, if_false]
      exact ⟨by simp, hvars, hevents⟩

variable (resolve) in
omit [CTCLObjectProcessor] [ChannelAccess] in
/-- The variables after a refresh. -/
theorem refreshAll_vars (vs : List CChannelVariable) (s : Session ν) (x : ν) :
    (vs.foldl (fun s v => s.newEpicsValue resolve s.command.pChannel.getValue v) s).vars x =
      if ∃ v ∈ vs, resolve v.sVariable = x then some s.value else s.vars x := by
  induction vs generalizing s with
  | nil => simp
  | cons v vs ih =>
    have hvalue : (s.newEpicsValue resolve s.value v).value = s.value := rfl
    rw [List.foldl_cons]
    refine (ih (s.newEpicsValue resolve s.value v)).trans ?_
    rw [hvalue]
    by_cases hlater : ∃ u ∈ vs, resolve u.sVariable = x
    · have hin : ∃ u ∈ v :: vs, resolve u.sVariable = x :=
        hlater.imp fun u hu => ⟨List.mem_cons_of_mem _ hu.1, hu.2⟩
      rw [if_pos hlater, if_pos hin]
    · rw [if_neg hlater]
      by_cases hx : resolve v.sVariable = x
      · have hin : ∃ u ∈ v :: vs, resolve u.sVariable = x := ⟨v, List.mem_cons_self, hx⟩
        rw [if_pos hin]
        simp [newEpicsValue, hx]
      · have hout : ¬ ∃ u ∈ v :: vs, resolve u.sVariable = x := by
          rintro ⟨u, hu, hux⟩
          rcases List.mem_cons.mp hu with rfl | hu
          · exact hx hux
          · exact hlater ⟨u, hu, hux⟩
        rw [if_neg hout]
        simp [newEpicsValue, Function.update_of_ne (Ne.symm hx)]

omit [CTCLObjectProcessor] [ChannelAccess] in
theorem update_alone (inv : WorldInv resolve w) (h : Shows s w id)
    (hw : w.updateLinkedVariable resolve id = some w') :
    Shows (s.updateLinkedVariable resolve) w' id := by
  obtain ⟨hobject, hvars, hevents⟩ := h
  obtain ⟨vars, traces, ca, heq, -, hnew⟩ := World.refresh_frame s.command.pChannel.getValue
    (s.command.linkedVariables.map (·.pLinkedVar)) w inv.traces_nodup (inv.linked_traces hobject)
  simp only [World.updateLinkedVariable, hobject, heq, Option.some.injEq] at hw
  subst hw
  obtain ⟨vars', written, heq', -⟩ := refreshAll_frame resolve
    (s.command.linkedVariables.map (·.pLinkedVar)) s
  have hold := refreshAll_vars resolve
    (s.command.linkedVariables.map (·.pLinkedVar)) s
  unfold Session.updateLinkedVariable
  refine ⟨by rw [heq']; exact hobject, funext fun x => ?_, by rw [heq']; exact hevents⟩
  rw [hold x, ← hvars]
  exact hnew x

/-- The passes of `UpdateLinkedVariable`, one after another. -/
theorem resume_alone (vs : List CChannelVariable) (s : Session ν) :
    runAll (Session.step resolve this) { s with thread := updating vs }
        (List.replicate vs.length .resume) =
      some { vs.foldl (fun s v => s.newEpicsValue resolve s.command.pChannel.getValue v) s with
        thread := .idle } := by
  induction vs generalizing s with
  | nil => rfl
  | cons v vs ih => exact ih (s.newEpicsValue resolve s.value v)

end Alone

/-! ## Runs -/

variable [DecidableEq ν]

/-- An update in the gap that changes the value: `Link` ends, nothing is on
its way, and the variable it linked keeps the old value. -/
theorem gap_update_lost {s s' : Session ν} {a : SessionAction} (inv : SessionInv resolve s)
    (hbad : ¬ s.NoGapUpdate a) (h : s.step resolve this a = some s') :
    ∃ s'', s'.step resolve this .resume = some s'' ∧ s''.thread = .idle ∧ s''.events = [] ∧
      ¬ s''.Converged resolve := by
  cases a with
  | epicsUpdate args now inTclThread =>
    simp only [NoGapUpdate, Classical.not_imp] at hbad
    obtain ⟨⟨hthread, hnone, hevents⟩, hchanged⟩ := hbad
    have hslot : (s.command.pChannel.updateHandler args now).2 = none := by
      cases hfires : (s.command.pChannel.updateHandler args now).2 with
      | none => rfl
      | some slot =>
        rw [CChannel.updateHandler_fires hfires] at hnone
        cases hnone
    simp only [Session.step, hthread] at h
    split at h
    · cases h
    · cases h
      have heq : s.epicsUpdate resolve args now inTclThread = { s with command := { s.command with
          pChannel := (s.command.pChannel.updateHandler args now).1 } } := by
        simp only [Session.epicsUpdate, hslot]
      refine ⟨(s.epicsUpdate resolve args now inTclThread).endLink this, ?_, rfl, ?_,
        fun hconv => ?_⟩
      · simp only [Session.step, heq, hthread]
      · rw [heq]
        exact hevents
      rw [heq] at hconv
      obtain ⟨u, hu, hwritten⟩ := inv.gap hthread hnone
      have hrest : s.rest = [] := rest_of_ne (by simp [hthread])
      have hfresh := inv.fresh.resolve_left (fun h => h hevents) u hu (by simp [hrest]) hwritten
      have hnew : s.vars (resolve u) =
          some (s.command.pChannel.updateHandler args now).1.getValue := hconv u hu hwritten
      rw [hnew] at hfresh
      exact hchanged (Option.some.inj hfresh)
  | _ => exact absurd trivial hbad

/-- **No update is lost** in a run in which every update is noticed: whenever
nothing is running and no event is on its way, every linked variable that
no script wrote since its last refresh holds the channel's value. The first
update in the gap can be followed by a state where this is false. -/
theorem no_update_lost (name : String) (vars : ν → Option String) :
    (∀ as s, Run (Session.step resolve this) Noticed (Session.initial name vars) as s →
      s.thread = .idle → s.events = [] → s.Converged resolve) ∧
    (∀ as s a s', Run (Session.step resolve this) Noticed (Session.initial name vars) as s →
      ¬ s.NoGapUpdate a → s.step resolve this a = some s' →
      ∃ s'', s'.step resolve this .resume = some s'' ∧ s''.thread = .idle ∧ s''.events = [] ∧
        ¬ s''.Converged resolve) := by
  have hinv : ∀ as s,
      Run (Session.step resolve this) Noticed (Session.initial name vars) as s →
        SessionInv resolve s := fun as s hrun =>
    hrun.invariant _ (sessionInv_initial name vars) fun _ _ _ inv hok hstep =>
      sessionInv_step inv hok hstep
  constructor
  · intro as s hrun hidle hevents u hu
    have hrest : s.rest = [] := rest_of_ne (by simp [hidle])
    exact (hinv as s hrun).fresh.resolve_left (fun h => h hevents) u hu (by simp [hrest])
  · intro as s a s' hrun hbad hstep
    exact gap_update_lost (hinv as s hrun) hbad hstep

end

section

attribute [local instance] CTCLObjectProcessor.global ChannelAccess.numbering

/-- The channel connects, and its first value arrives while it is linked. -/
def gapRun : List SessionAction :=
  [.connection ⟨.connUp, dbfString⟩, .link "x", .epicsUpdate ⟨1, 1, [0x37, 0]⟩ 5 false, .resume]

/-- After `gapRun` the channel's value is "7" and the variable is empty. -/
theorem gap_update_stays_lost :
    ∃ s, Run (Session.step id 0) Always (Session.initial "a" fun _ => none) gapRun s ∧
      s.thread = .idle ∧ s.events = [] ∧ s.value = "7" ∧ s.vars "x" = some "" ∧
      ¬ s.Converged id := by
  refine ⟨_, run_iff_runAll.mpr (rfl : runAll _ _ gapRun = some _), rfl, rfl, by decide,
    by decide, fun h => ?_⟩
  have hx := h "x" (by decide) rfl
  revert hx
  decide

/-- The same value arriving after `Link` is dispatched to the variable. -/
theorem no_update_lost_after_link :
    ∃ s, Run (Session.step id 0) Session.Noticed (Session.initial "a" fun _ => none)
        [.connection ⟨.connUp, dbfString⟩, .link "x", .resume,
          .epicsUpdate ⟨1, 1, [0x37, 0]⟩ 5 false, .dispatch, .resume] s ∧
      s.Converged id ∧ s.vars "x" = some "7" := by
  have hrun : Run (Session.step id 0) Session.Noticed (Session.initial "a" fun _ => none)
      [.connection ⟨.connUp, dbfString⟩, .link "x", .resume,
        .epicsUpdate ⟨1, 1, [0x37, 0]⟩ 5 false, .dispatch, .resume] _ := run_of_runChecked _ rfl
  exact ⟨_, hrun, (no_update_lost "a" _).1 _ _ hrun rfl rfl, by decide⟩

end

section

attribute [local instance] CTCLObjectProcessor.nested ChannelAccess.numbering

/-- The event of the channel `A::B` carries the name `B`, which is not
registered: the update is never seen. -/
theorem qualified_update_stays_lost :
    ∃ s, Run (Session.step id 0) Session.NoGapUpdate (Session.initial "A::B" fun _ => none)
        [.connection ⟨.connUp, dbfString⟩, .link "x", .resume,
          .epicsUpdate ⟨1, 1, [0x37, 0]⟩ 5 false, .dispatch] s ∧
      s.thread = .idle ∧ s.events = [] ∧ s.value = "7" ∧ s.vars "x" = some "" ∧
      ¬ s.Converged id := by
  refine ⟨_, run_of_runChecked _ rfl, rfl, rfl, by decide, by decide, fun h => ?_⟩
  have hx := h "x" (by decide) rfl
  revert hx
  decide

end

end EpicsTcl.Command
