/-
EpicsTcl.Command.StepEffects — what a step does to the registry and to the
event queue.

Linking, unlinking and listing leave both alone (`run_quiet`). `delete`
keeps or drops its name. An EPICS update queues at most an event of its own
object. Only `epicschannel` registers a name for another object, and then
the name had none (`step_cases`). When channels are created under plain names
only, all registered names are plain (`plainNames_step`).
-/
import EpicsTcl.Command.WorldInvariant

namespace EpicsTcl.Command

open EpicsTcl.Channel EpicsTcl.Library

/-- An event that a registered channel can raise: it carries the channel's
object and the name that Tcl has for its command. -/
def World.Raises [CTCLObjectProcessor] {ν : Type*} (w : World ν) (ev : ChangeEvent) : Prop :=
  ∃ name, w.commandOf name = some ev.pChangedChannel ∧ getName name = ev.channelName

/-- Under a plain name the event names its own channel. -/
theorem World.Raises.commandOf [CTCLObjectProcessor] {ν : Type*} {w : World ν}
    {ev : ChangeEvent} (h : w.Raises ev) (hplain : w.PlainNames) :
    w.commandOf ev.channelName = some ev.pChangedChannel := by
  obtain ⟨name, hid, hname⟩ := h
  obtain ⟨info, hinfo, -⟩ := Option.map_eq_some_iff.mp hid
  have hsame := (hplain name (Option.isSome_iff_exists.mpr ⟨info, hinfo⟩)).getName
  rwa [← hname, hsame]

/-- `epicschannel` is given a plain name. -/
def TclCommand.PlainCreation [CTCLObjectProcessor] : TclCommand → Prop
  | .epicschannel name => Plain name
  | _ => True

instance [CTCLObjectProcessor] (c : TclCommand) : Decidable c.PlainCreation := by
  cases c <;> unfold TclCommand.PlainCreation <;> infer_instance

/-- So it is in a command. -/
def Action.PlainCreation [CTCLObjectProcessor] : Action → Prop
  | .command c => c.PlainCreation
  | _ => True

instance [CTCLObjectProcessor] (a : Action) : Decidable a.PlainCreation := by
  cases a <;> unfold Action.PlainCreation <;> infer_instance

namespace WorldInv

variable {ν : Type*} [DecidableEq ν] [CTCLObjectProcessor] [ChannelAccess] {resolve : String → ν}
variable {w w' : World ν} {id : CommandId} {c : CTCLChannelCommand}

/-! ## Linking, unlinking and listing -/

omit [ChannelAccess] in
theorem link_quiet (inv : WorldInv resolve w) (h : w.objects id = some c) (name varname : String) :
    w.Quiet (w.link resolve id [name, "link", varname]).2 := by
  cases hlinked : w.isLinked id varname with
  | true =>
    rw [World.link_rejected h hlinked]
    exact ⟨rfl, rfl, rfl⟩
  | false =>
    cases hfind : c.find varname with
    | some i =>
      rw [World.link_again h hlinked hfind]
      exact ⟨rfl, rfl, rfl⟩
    | none =>
      obtain ⟨ca, heq⟩ := World.link_new h name hlinked hfind (inv.trace_unlinked h hfind)
      rw [heq]
      exact ⟨rfl, rfl, rfl⟩

omit [ChannelAccess] in
theorem unlink_quiet (h : w.objects id = some c) (name varname : String) :
    w.Quiet (w.unlink resolve id [name, "unlink", varname]).2 := by
  cases hfind : c.find varname with
  | none =>
    rw [World.unlink_rejected h hfind]
    exact ⟨rfl, rfl, rfl⟩
  | some i =>
    by_cases hcount : i.pLinkedVar.dereference.referenceCount = 0
    · rw [World.unlink_last h hfind hcount]
      exact ⟨rfl, rfl, rfl⟩
    · rw [World.unlink_more h hfind hcount]
      exact ⟨rfl, rfl, rfl⟩

theorem run_quiet (inv : WorldInv resolve w) (cmd : TclCommand)
    (hnew : ∀ name, cmd ≠ .epicschannel name) (hdelete : ∀ name, cmd ≠ .delete name) :
    w.Quiet (w.run resolve cmd).2 := by
  cases cmd with
  | epicschannel name => exact absurd rfl (hnew name)
  | delete name => exact absurd rfl (hdelete name)
  | link name varname =>
    cases h : w.haveChannel name with
    | none => simpa [World.run, World.onChannel_unregistered h] using World.Quiet.refl w
    | some info =>
      obtain ⟨c, hc, -⟩ := inv.lookup h
      rw [World.run_link h]
      exact inv.link_quiet hc name varname
  | unlink name varname =>
    cases h : w.haveChannel name with
    | none => simpa [World.run, World.onChannel_unregistered h] using World.Quiet.refl w
    | some info =>
      obtain ⟨c, hc, -⟩ := inv.lookup h
      rw [World.run_unlink h]
      exact unlink_quiet hc name varname
  | listlinks name =>
    cases h : w.haveChannel name with
    | none => simpa [World.run, World.onChannel_unregistered h] using World.Quiet.refl w
    | some info =>
      obtain ⟨c, hc, -⟩ := inv.lookup h
      rw [World.run_listlinks h hc]
      exact ⟨rfl, rfl, rfl⟩

/-! ## The registry and the event queue -/

omit [CTCLObjectProcessor] [ChannelAccess] in
/-- `delete` queues nothing, makes no object, and keeps or drops its name. -/
theorem deleteChannel_registry (inv : WorldInv resolve w) (name : String) :
    (∀ n id, (w.deleteChannel resolve name).commandOf n = some id → w.commandOf n = some id) ∧
      (w.deleteChannel resolve name).nextObject = w.nextObject ∧
      (w.deleteChannel resolve name).interp.events = w.interp.events := by
  cases h : w.haveChannel name with
  | none =>
    rw [World.deleteChannel_unregistered h]
    exact ⟨fun _ _ => id, rfl, rfl⟩
  | some info =>
    obtain ⟨c, hc, -⟩ := inv.lookup h
    rcases World.deleteChannel_cases resolve h with ⟨-, heq⟩ | ⟨-, heq⟩ <;> rw [heq]
    · refine ⟨fun n id hid => ?_, rfl, rfl⟩
      rwa [World.commandOf_recount h] at hid
    · have hobj : ({ w with channelInfo := w.channelInfo.erase name }).objects info.pChannel =
          some c := hc
      rw [World.destroyCommand_eq hobj]
      refine ⟨fun n id hid => ?_, rfl, rfl⟩
      have herase : _ = some id := (World.commandOf_erase w n name).symm.trans hid
      by_cases hn : n = name
      · simp [hn] at herase
      · rwa [if_neg hn] at herase

omit [ChannelAccess] in
/-- `markChange` leaves the registry alone, and queues at most the event
of its own object. -/
theorem markChange_registry {inTclThread : Bool}
    (inv : WorldInv resolve w) (h : w.markChange resolve id inTclThread = some w') :
    w'.channelInfo = w.channelInfo ∧ w'.nextObject = w.nextObject ∧
      ∀ ev ∈ w'.interp.events, ev ∈ w.interp.events ∨
        w.Raises ev := by
  obtain ⟨c, hc, ⟨-, hupdate⟩ | ⟨-, rfl⟩⟩ := World.markChange_cases h
  · obtain ⟨vars, traces, ca, rfl, -⟩ := inv.update_eq hupdate
    exact ⟨rfl, rfl, fun ev hev => .inl hev⟩
  · refine ⟨rfl, rfl, fun ev hev => ?_⟩
    rcases List.mem_append.mp hev with hev | hev
    · exact .inl hev
    · obtain rfl := List.mem_singleton.mp hev
      exact .inr ⟨c.name, inv.alive _ _ hc, rfl⟩

/-- What a step other than `epicschannel` and `delete` does to the registry
and the event queue. -/
theorem step_other {a : Action} (inv : WorldInv resolve w)
    (hnew : ∀ name, a ≠ .command (.epicschannel name))
    (hdelete : ∀ name, a ≠ .command (.delete name)) (h : w.step resolve a = some w') :
    w'.channelInfo = w.channelInfo ∧ w'.nextObject = w.nextObject ∧
      ∀ ev ∈ w'.interp.events, ev ∈ w.interp.events ∨
        w.Raises ev := by
  cases a with
  | command cmd =>
    cases h
    have hquiet : w.Quiet (w.run resolve cmd).2 :=
      inv.run_quiet cmd (fun name heq => hnew name (by rw [heq]))
        (fun name heq => hdelete name (by rw [heq]))
    exact ⟨hquiet.channelInfo, hquiet.nextObject, fun ev hev => .inl (hquiet.events ▸ hev)⟩
  | scriptWrite varname value =>
    cases h
    obtain ⟨ca, heq⟩ := World.setVar_frame resolve (resolve varname) value w
    rw [heq]
    exact ⟨rfl, rfl, fun ev hev => .inl hev⟩
  | connection id args =>
    obtain ⟨c, -, rfl⟩ := World.connection_cases h
    exact ⟨rfl, rfl, fun ev hev => .inl hev⟩
  | epicsUpdate id args now inTclThread =>
    obtain ⟨c, hc, ⟨-, rfl⟩ | ⟨this, -, hmark⟩⟩ := World.epicsUpdate_cases h
    · exact ⟨rfl, rfl, fun ev hev => .inl hev⟩
    · have inv' := inv.replace_channel hc (c.pChannel.updateHandler args now).1
        (CChannel.updateHandler_pHandler ..)
      exact inv'.markChange_registry hmark
  | dispatch =>
    obtain ⟨ev, rest, hq, hupdate⟩ := World.dispatch_cases h
    have inv' : WorldInv resolve { w with interp := { w.interp with events := rest } } :=
      inv.congr rfl rfl (fun _ => rfl) (.refl _)
    obtain ⟨vars, traces, ca, rfl, -⟩ := inv'.update_eq hupdate
    refine ⟨rfl, rfl, fun e he => .inl ?_⟩
    rw [hq]
    exact List.mem_cons_of_mem _ he

/-- What a step does to the registry and the queue: it makes a new command
for an unregistered name, or it registers no name for another object; and
an event in the queue after it was queued before or belongs to a registered
object. -/
theorem step_cases {a : Action} (inv : WorldInv resolve w)
    (h : w.step resolve a = some w') :
    ((∃ name, a = .command (.epicschannel name) ∧ w.haveChannel name = none ∧
        (∀ n, w'.commandOf n = if n = name then some w.nextObject else w.commandOf n) ∧
        w'.nextObject = w.nextObject + 1) ∨
      ((∀ n id, w'.commandOf n = some id → w.commandOf n = some id) ∧
        w'.nextObject = w.nextObject)) ∧
    ∀ ev ∈ w'.interp.events, ev ∈ w.interp.events ∨
      w.Raises ev := by
  by_cases hnew : ∃ name, a = .command (.epicschannel name)
  · obtain ⟨name, rfl⟩ := hnew
    cases h
    cases hname : w.haveChannel name with
    | none =>
      rw [World.run_epicschannel_new hname]
      refine ⟨.inl ⟨name, rfl, hname, fun n => ?_, rfl⟩, fun ev hev => .inl hev⟩
      exact World.commandOf_insert w n name ⟨1, w.nextObject⟩
    | some info =>
      rw [World.run_epicschannel_registered hname]
      refine ⟨.inr ⟨fun n id hid => ?_, rfl⟩, fun ev hev => .inl hev⟩
      rwa [World.commandOf_recount hname] at hid
  · by_cases hdelete : ∃ name, a = .command (.delete name)
    · obtain ⟨name, rfl⟩ := hdelete
      cases h
      rcases World.run_delete_cases resolve w name with heq | heq <;> rw [heq]
      · exact ⟨.inr ⟨fun _ _ => id, rfl⟩, fun _ => .inl⟩
      · obtain ⟨hreg, hnext, hevents⟩ := inv.deleteChannel_registry (getName name)
        exact ⟨.inr ⟨hreg, hnext⟩, fun ev hev => .inl (hevents ▸ hev)⟩
    · obtain ⟨hinfo, hnext, hevents⟩ := inv.step_other (fun name heq => hnew ⟨name, heq⟩)
        (fun name heq => hdelete ⟨name, heq⟩) h
      refine ⟨.inr ⟨fun n id hid => ?_, hnext⟩, hevents⟩
      rwa [World.commandOf, World.haveChannel, hinfo] at hid

/-- Plain creations keep the registered names plain. -/
theorem plainNames_step {a : Action} (inv : WorldInv resolve w) (hnames : w.PlainNames)
    (hplain : a.PlainCreation) (h : w.step resolve a = some w') : w'.PlainNames := by
  intro n hn
  obtain ⟨info, hinfo⟩ := Option.isSome_iff_exists.mp hn
  have hid : w'.commandOf n = some info.pChannel := by simp [World.commandOf, hinfo]
  have hold : ∀ id, w.commandOf n = some id → Plain n := fun id hid => by
    obtain ⟨old, hold, -⟩ := Option.map_eq_some_iff.mp hid
    exact hnames n (Option.isSome_iff_exists.mpr ⟨old, hold⟩)
  rcases (inv.step_cases h).1 with ⟨name, rfl, -, hreg, -⟩ | ⟨hreg, -⟩
  · rw [hreg] at hid
    by_cases heq : n = name
    · exact heq ▸ hplain
    · rw [if_neg heq] at hid
      exact hold _ hid
  · exact hold _ (hreg _ _ hid)

theorem plainNames_run (inv : WorldInv resolve w) (hnames : w.PlainNames) {c : TclCommand}
    (hplain : c.PlainCreation) : (w.run resolve c).2.PlainNames := by
  have hstep : w.step resolve (.command c) = some (w.run resolve c).2 := rfl
  have haction : Action.PlainCreation (.command c) := hplain
  exact inv.plainNames_step hnames haction hstep

end WorldInv

end EpicsTcl.Command
