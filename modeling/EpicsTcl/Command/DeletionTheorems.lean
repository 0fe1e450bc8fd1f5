/-
EpicsTcl.Command.DeletionTheorems — `deleteChannel`, access by access.

`deleteChannel` gets a pointer to a registry entry from `haveChannel` and
uses it for the rest of the function. `Deletion` carries out its statements
in order and writes down, for each use of the entry, whether the entry is in
the map at that moment. What a use reads after the entry was erased is
whatever is stored there by then: the parameter `freed`.

`last_delete` says when all uses are of an entry in the map and the right
object is destroyed. `deleteSteps_world` connects this to
`World.deleteChannel`, which takes `freed` to be what the entry held.
-/
import EpicsTcl.Command.WorldTheorems

namespace EpicsTcl.Command

open EpicsTcl.Channel EpicsTcl.Library

variable {ν : Type*} [DecidableEq ν]

/-! ## The statements of `deleteChannel` -/

/-- A use of a registry entry, and whether it was in the map. -/
structure EntryAccess where
  name : String
  present : Bool
  deriving DecidableEq, Repr

/-- `deleteChannel` under way: the process, the entries used so far and the
command objects deleted so far. -/
structure Deletion (ν : Type*) where
  world : World ν
  accesses : List EntryAccess := []
  destroyed : List CommandId := []

namespace Deletion

/-- Use the entry of a name. -/
def access (name : String) (d : Deletion ν) : Deletion ν :=
  { d with accesses := d.accesses ++ [⟨name, (d.world.haveChannel name).isSome⟩] }

/-- What a pointer to the entry of a name points to. -/
def entry (freed : RefCountedChannel) (name : String) (d : Deletion ν) : RefCountedChannel :=
  (d.world.haveChannel name).getD freed

/-- `pInfo->s_refcount--`. -/
def decrement (freed : RefCountedChannel) (name : String) (d : Deletion ν) : Deletion ν :=
  let info := d.entry freed name
  let d := d.access name
  { d with world := { d.world with
      channelInfo := d.world.channelInfo.insert name
        { info with refcount := wrapInt (info.refcount - 1) } } }

/-- `m_channelInfo.erase(i)`. -/
def erase (name : String) (d : Deletion ν) : Deletion ν :=
  let d := d.access name
  { d with world := { d.world with channelInfo := d.world.channelInfo.erase name } }

/-- `delete` of a command object. -/
def destroy (resolve : String → ν) (id : CommandId) (d : Deletion ν) : Deletion ν :=
  { d with
    world := d.world.destroyCommand resolve id
    destroyed := d.destroyed ++ [id] }

end Deletion

variable (resolve : String → ν)

/-- `deleteChannel`. -/
def World.deleteSteps (freed : RefCountedChannel) (name : String) (w : World ν) : Deletion ν :=
  match w.haveChannel name with
  | none => { world := w }
  | some _ =>
    let d := Deletion.decrement freed name { world := w }
    -- `if(!pInfo->s_refcount)`
    let refcount := (d.entry freed name).refcount
    let d := d.access name
    if refcount = 0 then
      let d := d.erase name
      -- `delete pInfo->s_pChannel`
      let pChannel := (d.entry freed name).pChannel
      (d.access name).destroy resolve pChannel
    else d

/-! ## When it is right -/

/-- The count of a registered channel reaches zero when it is deleted. -/
def World.LastReference (name : String) (w : World ν) : Prop :=
  ∃ info, w.haveChannel name = some info ∧ wrapInt (info.refcount - 1) = 0

/-- What a deletion should have done: used entries of the map only, and
destroyed the object registered under the name, once, if that was the last
reference to it, and nothing else. -/
structure World.DeletesRight (name : String) (w : World ν) (d : Deletion ν) : Prop where
  present : ∀ a ∈ d.accesses, a.present = true
  last : ∀ info, w.haveChannel name = some info → wrapInt (info.refcount - 1) = 0 →
    d.destroyed = [info.pChannel]
  notLast : ¬ w.LastReference name → d.destroyed = []
  others : ∀ id, id ∉ d.destroyed → d.world.objects id = w.objects id

variable {resolve} {freed : RefCountedChannel} {name : String} {w : World ν}

theorem deleteSteps_unregistered (h : w.haveChannel name = none) :
    w.deleteSteps resolve freed name = { world := w } := by
  simp only [World.deleteSteps, h]

omit [DecidableEq ν] in
/-- What `pInfo->s_refcount--` does. -/
theorem decrement_eq {info : RefCountedChannel} (h : w.haveChannel name = some info) :
    Deletion.decrement freed name { world := w } =
      { world := { w with channelInfo :=
          w.channelInfo.insert name { info with refcount := wrapInt (info.refcount - 1) } }
        accesses := [⟨name, true⟩] } := by
  simp [Deletion.decrement, Deletion.access, Deletion.entry, h]

omit [DecidableEq ν] in
/-- An entry that was written and then erased is as good as never written. -/
theorem erase_insert (info : RefCountedChannel) :
    (w.channelInfo.insert name info).erase name = w.channelInfo.erase name := by
  apply AList.ext
  show List.kerase name (w.channelInfo.insert name info).entries =
    List.kerase name w.channelInfo.entries
  simp [List.kerase_cons_eq]

/-- More than one reference: the count is written back. -/
theorem deleteSteps_more {info : RefCountedChannel} (h : w.haveChannel name = some info)
    (hcount : wrapInt (info.refcount - 1) ≠ 0) :
    w.deleteSteps resolve freed name =
      { world := { w with channelInfo :=
          w.channelInfo.insert name { info with refcount := wrapInt (info.refcount - 1) } }
        accesses := [⟨name, true⟩, ⟨name, true⟩] } := by
  simp [World.deleteSteps, h, decrement_eq h, Deletion.entry, Deletion.access,
    World.haveChannel_insert, hcount]

/-- The last reference: the entry is used once more after it was erased. -/
theorem deleteSteps_last {info : RefCountedChannel} (h : w.haveChannel name = some info)
    (hcount : wrapInt (info.refcount - 1) = 0) :
    w.deleteSteps resolve freed name =
      { world := { w with channelInfo := w.channelInfo.erase name }.destroyCommand resolve
          freed.pChannel
        accesses := [⟨name, true⟩, ⟨name, true⟩, ⟨name, true⟩, ⟨name, false⟩]
        destroyed := [freed.pChannel] } := by
  have herased := World.haveChannel_erase w name name
  rw [if_pos rfl] at herased
  simp [World.deleteSteps, h, decrement_eq h, Deletion.entry, Deletion.access, Deletion.erase,
    Deletion.destroy, World.haveChannel_insert, hcount, erase_insert, herased]

/-- If the freed memory still holds the entry, the process goes on as
`World.deleteChannel` says. -/
theorem deleteSteps_world {info : RefCountedChannel} (h : w.haveChannel name = some info)
    (hfreed : freed.pChannel = info.pChannel) :
    (w.deleteSteps resolve freed name).world = w.deleteChannel resolve name := by
  rcases World.deleteChannel_cases resolve h with ⟨hcount, heq⟩ | ⟨hcount, heq⟩
  · rw [deleteSteps_more h hcount, heq]
  · rw [deleteSteps_last h hcount, heq, hfreed]

/-- **The last delete**: for every registry and every name, each use of an
entry is of one in the map and the right object is destroyed exactly if the
deletion is not that of the last reference. -/
theorem last_delete (resolve : String → ν) (w : World ν) (name : String)
    (freed : RefCountedChannel) :
    w.DeletesRight name (w.deleteSteps resolve freed name) ↔ ¬ w.LastReference name := by
  constructor
  · rintro right ⟨info, h, hcount⟩
    have hpresent := right.present ⟨name, false⟩
    rw [deleteSteps_last h hcount] at hpresent
    simp at hpresent
  · intro hnot
    cases h : w.haveChannel name with
    | none =>
      rw [deleteSteps_unregistered h]
      exact
        { present := by simp
          last := by simp [h]
          notLast := fun _ => rfl
          others := fun _ _ => rfl }
    | some info =>
      have hcount : wrapInt (info.refcount - 1) ≠ 0 := fun hzero => hnot ⟨info, h, hzero⟩
      rw [deleteSteps_more h hcount]
      exact
        { present := by simp
          last := fun info' h' hzero => absurd ⟨info', h', hzero⟩ hnot
          notLast := fun _ => rfl
          others := fun _ _ => rfl }

attribute [local instance] CTCLObjectProcessor.global ChannelAccess.numbering

/-- `epicschannel a`, then `a delete`. -/
theorem first_delete_reads_erased :
    ∃ w : World String,
      Run (World.step id) Always (World.initial fun _ => none)
        [.command (.epicschannel "a")] w ∧
      ∀ freed, ¬ w.DeletesRight "a" (w.deleteSteps id freed "a") := by
  have h : Run (World.step id) Always (World.initial fun _ : String => none)
      [.command (.epicschannel "a")] _ := run_iff_runAll.mpr rfl
  refine ⟨_, h, fun freed right => ?_⟩
  have hpresent := right.present ⟨"a", false⟩
  have hlast : ((World.initial fun _ : String => none).run id (.epicschannel "a")).2.haveChannel
      "a" = some ⟨1, 0⟩ := by decide
  rw [deleteSteps_last hlast (by decide)] at hpresent
  simp at hpresent

end EpicsTcl.Command
