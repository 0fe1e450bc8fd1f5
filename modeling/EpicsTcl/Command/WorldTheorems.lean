/-
EpicsTcl.Command.WorldTheorems — what each operation of the epics package
does.

The effect of each operation is stated once: writing a variable
(`setVar_frame`), refreshing linked variables (`refresh_frame`), the
registry operations (`run_epicschannel`, `deleteChannel_cases`,
`destroyCommand_eq`), the link operations (`link_rejected`,
`link_again`, `link_new`, `unlink_rejected`, `unlink_more`,
`unlink_last`) and the events (`markChange_cases`, `connection_cases`,
`epicsUpdate_cases`, `dispatch_cases`). Later modules use these and do not
unfold the operations.
-/
import EpicsTcl.Command.ChannelCommand
import EpicsTcl.Library.Runs

namespace EpicsTcl.Command

open EpicsTcl.Channel EpicsTcl.Library

variable {ν : Type*} {resolve : String → ν} {tcl : CTCLObjectProcessor} {access : ChannelAccess}

/-- A small count does not wrap around. -/
theorem wrapInt_of_lt {k : Int} (h : 0 ≤ k) (h' : k < 2 ^ 31) : wrapInt k = k := by
  unfold wrapInt
  exact Int.bmod_eq_of_le_mul_two (by omega) (by omega)

/-! ## Linked variables -/

namespace CChannelVariable

@[simp] theorem reference_sVariable (v : CChannelVariable) :
    v.reference.sVariable = v.sVariable := rfl

@[simp] theorem reference_pChannel (v : CChannelVariable) :
    v.reference.pChannel = v.pChannel := rfl

@[simp] theorem dereference_sVariable (v : CChannelVariable) :
    v.dereference.sVariable = v.sVariable := rfl

@[simp] theorem dereference_pChannel (v : CChannelVariable) :
    v.dereference.pChannel = v.pChannel := rfl

end CChannelVariable

namespace World

/-! ## The registry and the heap -/

/-- The command object registered under a name. -/
def commandOf (name : String) (w : World ν) : Option CommandId :=
  (w.haveChannel name).map (·.pChannel)

theorem haveChannel_insert (w : World ν) (m n : String) (info : RefCountedChannel) :
    ({ w with channelInfo := w.channelInfo.insert n info }).haveChannel m =
      if m = n then some info else w.haveChannel m := by
  unfold haveChannel
  by_cases h : m = n
  · subst h; simp
  · simp [h, AList.lookup_insert_ne h]

theorem haveChannel_erase (w : World ν) (m n : String) :
    ({ w with channelInfo := w.channelInfo.erase n }).haveChannel m =
      if m = n then none else w.haveChannel m := by
  unfold haveChannel
  by_cases h : m = n
  · subst h; simp
  · simp [h, AList.lookup_erase_ne h]

theorem commandOf_insert (w : World ν) (m n : String) (info : RefCountedChannel) :
    ({ w with channelInfo := w.channelInfo.insert n info }).commandOf m =
      if m = n then some info.pChannel else w.commandOf m := by
  rw [commandOf, haveChannel_insert, commandOf]
  split <;> rfl

theorem commandOf_erase (w : World ν) (m n : String) :
    ({ w with channelInfo := w.channelInfo.erase n }).commandOf m =
      if m = n then none else w.commandOf m := by
  rw [commandOf, haveChannel_erase, commandOf]
  split <;> rfl

/-- Counting a reference registers no other object. -/
theorem commandOf_recount {w : World ν} {name : String} {info : RefCountedChannel}
    (h : w.haveChannel name = some info) (count : Int) (n : String) :
    ({ w with channelInfo :=
        w.channelInfo.insert name { info with refcount := count } }).commandOf n =
      w.commandOf n := by
  rw [commandOf_insert]
  split
  · next hn => rw [hn, commandOf, h, Option.map_some]
  · rfl

/-- The registry and the event queue stay as they are. -/
structure Quiet (w w' : World ν) : Prop where
  channelInfo : w'.channelInfo = w.channelInfo
  nextObject : w'.nextObject = w.nextObject
  events : w'.interp.events = w.interp.events

theorem Quiet.refl (w : World ν) : w.Quiet w := ⟨rfl, rfl, rfl⟩

theorem Quiet.haveChannel {w w' : World ν} (h : w.Quiet w') (name : String) :
    w'.haveChannel name = w.haveChannel name := by
  rw [World.haveChannel, h.channelInfo, World.haveChannel]

theorem Quiet.commandOf {w w' : World ν} (h : w.Quiet w') (name : String) :
    w'.commandOf name = w.commandOf name := by
  rw [World.commandOf, h.haveChannel, World.commandOf]

@[simp] theorem setObject_objects (id : CommandId) (c : CTCLChannelCommand) (w : World ν) :
    (w.setObject id c).objects = Function.update w.objects id (some c) := rfl

@[simp] theorem setObject_setObject (id : CommandId) (c c' : CTCLChannelCommand) (w : World ν) :
    (w.setObject id c).setObject id c' = w.setObject id c' := by
  simp [setObject]

/-- Setting the slot of an object that was just replaced. -/
theorem setSlot_setObject (id : CommandId) (c : CTCLChannelCommand) (handler : Option CommandId)
    (w : World ν) : (w.setObject id c).setSlot id handler =
      w.setObject id { c with pChannel := c.pChannel.setSlot handler } := by
  simp [setSlot]

/-! ## Subcommands of a channel -/

theorem onChannel_unregistered {w : World ν} {name : String} (h : w.haveChannel name = none)
    (f : CommandId → World ν → TclCode × World ν) : w.onChannel name f = (.error, w) := by
  simp [onChannel, h]

theorem onChannel_registered {w : World ν} {name : String} {info : RefCountedChannel}
    (h : w.haveChannel name = some info) (f : CommandId → World ν → TclCode × World ν) :
    w.onChannel name f = f info.pChannel w := by
  simp [onChannel, h]

/-! ## Variables and traces -/

variable (resolve) in
theorem fireTrace_frame (w : World ν) (t : Trace ν) :
    ∃ ca, w.fireTrace resolve t = { w with ca } := by
  unfold fireTrace
  split
  · exact ⟨w.ca, rfl⟩
  · exact ⟨_, rfl⟩

theorem fireTraces_frame (ts : List (Trace ν)) (w : World ν) :
    ∃ ca, ts.foldl (fireTrace resolve) w = { w with ca } := by
  induction ts generalizing w with
  | nil => exact ⟨w.ca, rfl⟩
  | cons t ts ih =>
    obtain ⟨ca, h⟩ := fireTrace_frame resolve w t
    obtain ⟨ca', h'⟩ := ih { w with ca }
    exact ⟨ca', by rw [List.foldl_cons, h, h']⟩

variable [DecidableEq ν]

variable (resolve) in
/-- A write stores the value; its traces only reach Channel Access. -/
theorem setVar_frame (target : ν) (value : String) (w : World ν) :
    ∃ ca, w.setVar resolve target value =
      { w with
        interp := { w.interp with vars := Function.update w.interp.vars target (some value) }
        ca } :=
  fireTraces_frame _ _

variable (resolve) in
/-- A refresh stores the value and moves the variable's trace to the
front. -/
theorem newEpicsValue_frame (value : String) (w : World ν) (v : CChannelVariable) :
    ∃ ca, w.newEpicsValue resolve value v =
      { w with
        interp := { w.interp with
          vars := Function.update w.interp.vars (resolve v.sVariable) (some value)
          traces := v.trace resolve ::
            (w.interp.traces.erase (v.trace resolve)).erase (v.trace resolve) }
        ca } := by
  obtain ⟨ca, h⟩ := setVar_frame resolve (resolve v.sVariable) value
    (w.disableTracing resolve v)
  exact ⟨ca, by rw [newEpicsValue, h]; rfl⟩

/-- Two traces lists with the same traces, whatever their order. -/
theorem perm_cons_erase_erase {ts : List (Trace ν)} {t : Trace ν} (hnodup : ts.Nodup)
    (ht : t ∈ ts) : (t :: (ts.erase t).erase t).Perm ts := by
  have hnot : t ∉ ts.erase t := hnodup.not_mem_erase
  rw [List.erase_of_not_mem hnot]
  exact (List.perm_cons_erase ht).symm

/-- **Refreshing variables** whose traces are enabled changes variables,
the order of the traces and Channel Access, and nothing else. -/
theorem refresh_frame (value : String) (vs : List CChannelVariable) (w : World ν)
    (hnodup : w.interp.traces.Nodup) (hvs : ∀ v ∈ vs, v.trace resolve ∈ w.interp.traces) :
    ∃ vars traces ca, vs.foldl (newEpicsValue resolve value) w =
      { w with interp := { w.interp with vars, traces }, ca } ∧
      traces.Perm w.interp.traces ∧
      ∀ x, vars x = if ∃ v ∈ vs, resolve v.sVariable = x then some value
        else w.interp.vars x := by
  induction vs generalizing w with
  | nil => exact ⟨w.interp.vars, w.interp.traces, w.ca, rfl, .refl _, by simp⟩
  | cons v vs ih =>
    obtain ⟨ca, h⟩ := newEpicsValue_frame resolve value w v
    have hperm := perm_cons_erase_erase hnodup (hvs v List.mem_cons_self)
    obtain ⟨vars, traces, ca', h', hperm', hvars⟩ := ih (w.newEpicsValue resolve value v)
      (by rw [h]; exact hperm.nodup_iff.mpr hnodup)
      (by
        intro u hu
        rw [h]
        exact hperm.mem_iff.mpr (hvs u (List.mem_cons_of_mem _ hu)))
    refine ⟨vars, traces, ca', ?_, ?_, ?_⟩
    · rw [List.foldl_cons, h', h]
    · rw [h] at hperm'
      exact hperm'.trans hperm
    · intro x
      rw [hvars x, h]
      simp only [List.mem_cons, exists_eq_or_imp]
      by_cases hin : ∃ u ∈ vs, resolve u.sVariable = x
      · simp [hin]
      · simp only [hin, if_false, or_false]
        by_cases hx : resolve v.sVariable = x
        · simp [hx]
        · simp [hx, Function.update_of_ne (Ne.symm hx)]

/-! ## The registry operations -/

/-- `epicschannel name` of a registered channel counts one more reference. -/
theorem run_epicschannel_registered {w : World ν} {name : String} {info : RefCountedChannel}
    (h : w.haveChannel name = some info) :
    w.run resolve (.epicschannel name) =
      (.ok, { w with channelInfo :=
        w.channelInfo.insert name { info with refcount := wrapInt (info.refcount + 1) } }) := by
  simp [run, epicsCommand, h, referenceChannel]

/-- `epicschannel name` of another name makes a new command object. -/
theorem run_epicschannel_new {w : World ν} {name : String} (h : w.haveChannel name = none) :
    w.run resolve (.epicschannel name) =
      (.ok, { w with
        channelInfo := w.channelInfo.insert name ⟨1, w.nextObject⟩
        objects := Function.update w.objects w.nextObject
          (some ⟨name, ((CChannel.new name).connect w.ca).1, []⟩)
        nextObject := w.nextObject + 1
        ca := ((CChannel.new name).connect w.ca).2 }) := by
  have hone : wrapInt 1 = 1 := by decide
  simp only [run, epicsCommand, h]
  simp [createChannel, newChannelCommand, referenceChannel, haveChannel, setObject, hone]

theorem disableTracings_frame (is : List VariableInfo) (w : World ν) :
    is.foldl (fun w i => w.disableTracing resolve i.pLinkedVar) w =
      { w with interp := { w.interp with
        traces :=
          is.foldl (fun ts i => ts.erase (i.pLinkedVar.trace resolve)) w.interp.traces } } := by
  induction is generalizing w with
  | nil => rfl
  | cons i is ih => rw [List.foldl_cons, ih]; rfl

variable (resolve) in
/-- The traces left after disabling those of some list entries. -/
theorem mem_disableTracings (is : List VariableInfo) {ts : List (Trace ν)} (hnodup : ts.Nodup) :
    (is.foldl (fun ts i => ts.erase (i.pLinkedVar.trace resolve)) ts).Nodup ∧
      ∀ t, t ∈ is.foldl (fun ts i => ts.erase (i.pLinkedVar.trace resolve)) ts ↔
        t ∈ ts ∧ ∀ i ∈ is, i.pLinkedVar.trace resolve ≠ t := by
  induction is generalizing ts with
  | nil => exact ⟨hnodup, fun t => by simp⟩
  | cons i is ih =>
    obtain ⟨hn, hmem⟩ := ih (hnodup.erase (i.pLinkedVar.trace resolve))
    refine ⟨hn, fun t => ?_⟩
    rw [List.foldl_cons, hmem t, hnodup.mem_erase_iff]
    simp only [List.forall_mem_cons, ne_eq, eq_comm (a := t)]
    tauto

variable (resolve) in
/-- `deleteChannel` of a registered name either counts one reference less
or unregisters the name and destroys its object. -/
theorem deleteChannel_cases {w : World ν} {name : String} {info : RefCountedChannel}
    (h : w.haveChannel name = some info) :
    (wrapInt (info.refcount - 1) ≠ 0 ∧ w.deleteChannel resolve name =
      { w with channelInfo :=
        w.channelInfo.insert name { info with refcount := wrapInt (info.refcount - 1) } }) ∨
    (wrapInt (info.refcount - 1) = 0 ∧ w.deleteChannel resolve name =
      ({ w with channelInfo := w.channelInfo.erase name }).destroyCommand resolve
        info.pChannel) := by
  by_cases hzero : wrapInt (info.refcount - 1) = 0
  · exact .inr ⟨hzero, by simp [deleteChannel, h, hzero]⟩
  · exact .inl ⟨hzero, by simp [deleteChannel, h, hzero]⟩

/-- Destroying a live object removes it and the traces of its variables. -/
theorem destroyCommand_eq {w : World ν} {id : CommandId} {c : CTCLChannelCommand}
    (h : w.objects id = some c) :
    w.destroyCommand resolve id =
      { w with
        objects := Function.update w.objects id none
        interp := { w.interp with
          traces := c.linkedVariables.foldl (fun ts i => ts.erase (i.pLinkedVar.trace resolve))
            w.interp.traces }
        ca := c.pChannel.destroy w.ca } := by
  simp only [destroyCommand, h, disableTracings_frame]

/-- A name that is not registered is not deleted. -/
theorem deleteChannel_unregistered {w : World ν} {name : String} (h : w.haveChannel name = none) :
    w.deleteChannel resolve name = w := by
  simp [deleteChannel, h]

variable (resolve) in
/-- The registry entries after `epicschannel`. -/
theorem run_epicschannel_haveChannel [CTCLObjectProcessor] [ChannelAccess] (w : World ν)
    (name n : String) :
    (w.run resolve (.epicschannel name)).2.haveChannel n =
      if n = name then
        some (match w.haveChannel name with
          | some info => { info with refcount := wrapInt (info.refcount + 1) }
          | none => ⟨1, w.nextObject⟩)
      else w.haveChannel n := by
  cases h : w.haveChannel name with
  | some info =>
    rw [run_epicschannel_registered h]
    exact haveChannel_insert w n name _
  | none =>
    rw [run_epicschannel_new h]
    exact haveChannel_insert w n name _

variable (resolve) in
/-- `name delete` does nothing, or deletes the name that Tcl has for the
command. -/
theorem run_delete_cases [CTCLObjectProcessor] [ChannelAccess] (w : World ν) (name : String) :
    (w.run resolve (.delete name)).2 = w ∨
      (w.run resolve (.delete name)).2 = w.deleteChannel resolve (getName name) := by
  cases h : w.haveChannel name with
  | none => exact .inl (by simp [run, onChannel_unregistered h])
  | some info => exact .inr (by simp [run, onChannel_registered h])

/-- The names that are registered are plain. -/
def PlainNames [CTCLObjectProcessor] (w : World ν) : Prop :=
  ∀ name, (w.haveChannel name).isSome → Plain name

variable (resolve) in
/-- `name delete`, whether the name is registered or not. -/
theorem run_delete [CTCLObjectProcessor] [ChannelAccess] {w : World ν} (hplain : w.PlainNames)
    (name : String) :
    (w.run resolve (.delete name)).2 = w.deleteChannel resolve name := by
  cases h : w.haveChannel name with
  | none => simp [run, onChannel_unregistered h, deleteChannel_unregistered h]
  | some info => simp [run, onChannel_registered h, (hplain name (by simp [h])).getName]

theorem destroyCommand_channelInfo (id : CommandId) (w : World ν) :
    (w.destroyCommand resolve id).channelInfo = w.channelInfo := by
  cases h : w.objects id with
  | none => simp [destroyCommand, h]
  | some c => rw [destroyCommand_eq h]

variable (resolve) in
/-- The registry entries after `delete`. -/
theorem run_delete_haveChannel [CTCLObjectProcessor] [ChannelAccess] {w : World ν}
    (hplain : w.PlainNames) (name n : String) :
    (w.run resolve (.delete name)).2.haveChannel n =
      if n = name then
        (w.haveChannel name).bind fun info =>
          if wrapInt (info.refcount - 1) = 0 then none
          else some { info with refcount := wrapInt (info.refcount - 1) }
      else w.haveChannel n := by
  rw [run_delete resolve hplain]
  cases h : w.haveChannel name with
  | none =>
    rw [deleteChannel_unregistered h]
    by_cases hn : n = name <;> simp [hn, h]
  | some info =>
    rcases deleteChannel_cases resolve h with ⟨hcount, heq⟩ | ⟨hcount, heq⟩ <;> rw [heq]
    · rw [haveChannel_insert, Option.bind_some, if_neg hcount]
    · rw [haveChannel, destroyCommand_channelInfo, Option.bind_some, if_pos hcount]
      exact haveChannel_erase w n name

theorem run_link {w : World ν} {name : String} {info : RefCountedChannel}
    (h : w.haveChannel name = some info) (varname : String) :
    w.run resolve (.link name varname) = w.link resolve info.pChannel [name, "link", varname] := by
  rw [run, onChannel_registered h]

theorem run_unlink {w : World ν} {name : String} {info : RefCountedChannel}
    (h : w.haveChannel name = some info) (varname : String) :
    w.run resolve (.unlink name varname) =
      w.unlink resolve info.pChannel [name, "unlink", varname] := by
  rw [run, onChannel_registered h]

end World

/-! ## The link operations -/

namespace CTCLChannelCommand

theorem find_some {c : CTCLChannelCommand} {varname : String} {i : VariableInfo}
    (h : c.find varname = some i) : i ∈ c.linkedVariables ∧ i.varname = varname := by
  refine ⟨List.mem_of_find?_eq_some h, ?_⟩
  simpa using List.find?_some h

theorem find_none {c : CTCLChannelCommand} {varname : String} (h : c.find varname = none) :
    ∀ i ∈ c.linkedVariables, i.varname ≠ varname := by
  simpa [find, List.find?_eq_none] using h

theorem find_isSome_iff {c : CTCLChannelCommand} {varname : String} :
    (c.find varname).isSome = true ↔ ∃ i ∈ c.linkedVariables, i.varname = varname := by
  simp [find, List.find?_isSome]

@[simp] theorem updateLinked_varname (varname : String) (v : CChannelVariable)
    (l : List VariableInfo) :
    (updateLinked varname v l).map (·.varname) = l.map (·.varname) := by
  induction l with
  | nil => rfl
  | cons i l ih =>
    simp only [updateLinked]
    split <;> simp [ih]

theorem of_mem_updateLinked {varname : String} {v : CChannelVariable} {l : List VariableInfo}
    {j : VariableInfo} (h : j ∈ updateLinked varname v l) : j = ⟨varname, v⟩ ∨ j ∈ l := by
  induction l with
  | nil => cases h
  | cons i l ih =>
    simp only [updateLinked] at h
    split at h
    · next hi =>
      rcases List.mem_cons.mp h with rfl | h
      · exact .inl (by rw [hi])
      · exact .inr (List.mem_cons_of_mem _ h)
    · rcases List.mem_cons.mp h with rfl | h
      · exact .inr List.mem_cons_self
      · exact (ih h).imp id (List.mem_cons_of_mem _)

/-- The entries after replacing the variable of one name. -/
theorem mem_updateLinked {varname : String} {v : CChannelVariable} {l : List VariableInfo}
    (hnodup : (l.map (·.varname)).Nodup) (hmem : ∃ i ∈ l, i.varname = varname)
    (j : VariableInfo) :
    j ∈ updateLinked varname v l ↔ j = ⟨varname, v⟩ ∨ (j ∈ l ∧ j.varname ≠ varname) := by
  induction l with
  | nil => simp at hmem
  | cons i l ih =>
    simp only [List.map_cons, List.nodup_cons, List.mem_map, not_exists, not_and] at hnodup
    obtain ⟨hnot, hrest⟩ := hnodup
    simp only [updateLinked]
    by_cases hi : i.varname = varname
    · subst hi
      have hne : ∀ j ∈ l, j.varname ≠ i.varname := hnot
      simp only [if_true, List.mem_cons]
      constructor
      · rintro (rfl | hj)
        · exact .inl rfl
        · exact .inr ⟨.inr hj, hne j hj⟩
      · rintro (rfl | ⟨rfl | hj, hne'⟩)
        · exact .inl rfl
        · exact absurd rfl hne'
        · exact .inr hj
    · have hmem' : ∃ i ∈ l, i.varname = varname := by
        obtain ⟨k, hk, hkv⟩ := hmem
        rcases List.mem_cons.mp hk with rfl | hk
        · exact absurd hkv hi
        · exact ⟨k, hk, hkv⟩
      simp only [if_neg hi, List.mem_cons, ih hrest hmem']
      constructor
      · rintro (rfl | rfl | ⟨hj, hne⟩)
        · exact .inr ⟨.inl rfl, hi⟩
        · exact .inl rfl
        · exact .inr ⟨.inr hj, hne⟩
      · rintro (rfl | ⟨rfl | hj, hne⟩)
        · exact .inr (.inl rfl)
        · exact .inl rfl
        · exact .inr (.inr ⟨hj, hne⟩)

/-- The entries after erasing the one of a name. -/
theorem mem_eraseLinked (varname : String) {l : List VariableInfo}
    (hnodup : (l.map (·.varname)).Nodup) (j : VariableInfo) :
    j ∈ l.eraseP (·.varname = varname) ↔ j ∈ l ∧ j.varname ≠ varname := by
  induction l with
  | nil => simp
  | cons i l ih =>
    simp only [List.map_cons, List.nodup_cons, List.mem_map, not_exists, not_and] at hnodup
    obtain ⟨hnot, hrest⟩ := hnodup
    by_cases hi : i.varname = varname
    · subst hi
      have hne : ∀ j ∈ l, j.varname ≠ i.varname := hnot
      rw [List.eraseP_cons_of_pos (by simp)]
      constructor
      · exact fun hj => ⟨List.mem_cons_of_mem _ hj, hne j hj⟩
      · rintro ⟨hj, hne'⟩
        rcases List.mem_cons.mp hj with rfl | hj
        · exact absurd rfl hne'
        · exact hj
    · rw [List.eraseP_cons_of_neg (by simpa using hi), List.mem_cons, List.mem_cons, ih hrest]
      constructor
      · rintro (rfl | ⟨hj, hne⟩)
        · exact ⟨.inl rfl, hi⟩
        · exact ⟨.inr hj, hne⟩
      · rintro ⟨rfl | hj, hne⟩
        · exact .inl rfl
        · exact .inr ⟨hj, hne⟩

end CTCLChannelCommand

namespace World

variable {w : World ν} {id : CommandId} {c : CTCLChannelCommand}

/-- What `isLinked` looks for. -/
theorem isLinked_iff {varname : String} :
    w.isLinked id varname = true ↔ ∃ name info item, w.haveChannel name = some info ∧
      w.objects info.pChannel = some item ∧ info.pChannel ≠ id ∧
      ∃ i ∈ item.linkedVariables, i.varname = varname := by
  simp only [isLinked, List.any_eq_true, haveChannel]
  constructor
  · rintro ⟨⟨name, info⟩, hmem, hitem⟩
    have hlookup : w.channelInfo.lookup name = some info :=
      AList.mem_lookup_iff.mpr hmem
    cases hobj : w.objects info.pChannel with
    | none => simp [hobj] at hitem
    | some item =>
      simp only [hobj, Bool.and_eq_true, decide_eq_true_eq,
        CTCLChannelCommand.find_isSome_iff] at hitem
      exact ⟨name, info, item, hlookup, hobj, hitem.2, hitem.1⟩
  · rintro ⟨name, info, item, hlookup, hobj, hne, hi⟩
    refine ⟨⟨name, info⟩, AList.mem_lookup_iff.mp hlookup, ?_⟩
    simp only [hobj, Bool.and_eq_true, decide_eq_true_eq, CTCLChannelCommand.find_isSome_iff]
    exact ⟨hi, hne⟩

variable [DecidableEq ν]

/-- `link` of a variable already linked to another channel. -/
theorem link_rejected (h : w.objects id = some c) {name varname : String}
    (hlinked : w.isLinked id varname = true) :
    w.link resolve id [name, "link", varname] =
      (.error, w.setResult (.text (varname ++ " is already linked to a different channel"))) := by
  simp [link, h, hlinked]

/-- `link` of a variable the channel is already linked to: one more
reference, and the slot is set once more. -/
theorem link_again (h : w.objects id = some c) {name varname : String} {i : VariableInfo}
    (hlinked : w.isLinked id varname = false) (hfind : c.find varname = some i) :
    w.link resolve id [name, "link", varname] =
      (.ok, w.setObject id { c with
        linkedVariables := CTCLChannelCommand.updateLinked varname i.pLinkedVar.reference
          c.linkedVariables
        pChannel := c.pChannel.setSlot (some id) }) := by
  simp [link, h, hlinked, hfind, setSlot_setObject]

/-- `link` of a variable without a link: a new variable object, with its
trace enabled, holds the channel's value; the slot is set. -/
theorem link_new (h : w.objects id = some c) (name : String) {varname : String}
    (hlinked : w.isLinked id varname = false) (hfind : c.find varname = none)
    (hnew : (⟨resolve varname, varname, id⟩ : Trace ν) ∉ w.interp.traces) :
    ∃ ca, w.link resolve id [name, "link", varname] =
      (.ok, { w with
        objects := Function.update w.objects id (some { c with
          linkedVariables := c.linkedVariables ++ [⟨varname, ⟨varname, id, 1⟩⟩]
          pChannel := c.pChannel.setSlot (some id) })
        interp := { w.interp with
          vars := Function.update w.interp.vars (resolve varname) (some c.pChannel.getValue)
          traces := ⟨resolve varname, varname, id⟩ :: w.interp.traces }
        ca }) := by
  obtain ⟨ca, hframe⟩ := newEpicsValue_frame resolve c.pChannel.getValue
    (w.enableTracing resolve ⟨varname, id, 1⟩) ⟨varname, id, 1⟩
  refine ⟨ca, ?_⟩
  have htrace : CChannelVariable.trace resolve ⟨varname, id, 1⟩ = ⟨resolve varname, varname, id⟩ :=
    rfl
  simp only [link, h, hlinked, hfind, linkNew, hframe, setSlot_setObject]
  simp [enableTracing, htrace, List.erase_of_not_mem hnew, setObject]

/-- `unlink` of a variable that is not linked. -/
theorem unlink_rejected (h : w.objects id = some c) {name varname : String}
    (hfind : c.find varname = none) :
    w.unlink resolve id [name, "unlink", varname] =
      (.error, w.setResult (.text ("The variable " ++ varname ++ " is not linked to " ++
        getName c.name ++ "\n" ++ c.usage))) := by
  simp [unlink, h, hfind]

/-- `unlink` of a variable that keeps other references. -/
theorem unlink_more (h : w.objects id = some c) {name varname : String} {i : VariableInfo}
    (hfind : c.find varname = some i) (hcount : i.pLinkedVar.dereference.referenceCount ≠ 0) :
    w.unlink resolve id [name, "unlink", varname] =
      (.ok, w.setObject id { c with
        linkedVariables := CTCLChannelCommand.updateLinked varname i.pLinkedVar.dereference
          c.linkedVariables }) := by
  simp [unlink, h, hfind, hcount]

/-- `unlink` of the last reference: the trace goes, the entry goes, and
with the last entry the slot. -/
theorem unlink_last (h : w.objects id = some c) {name varname : String} {i : VariableInfo}
    (hfind : c.find varname = some i) (hcount : i.pLinkedVar.dereference.referenceCount = 0) :
    w.unlink resolve id [name, "unlink", varname] =
      (.ok, { w with
        objects := Function.update w.objects id (some { c with
          linkedVariables := c.linkedVariables.eraseP (·.varname = varname)
          pChannel := if c.linkedVariables.eraseP (·.varname = varname) = [] then
            c.pChannel.setSlot none else c.pChannel })
        interp := { w.interp with
          traces := w.interp.traces.erase (i.pLinkedVar.trace resolve) } }) := by
  obtain ⟨-, hname⟩ := CTCLChannelCommand.find_some hfind
  simp only [unlink, h, hfind, hcount, if_true, unlinkLast, hname]
  split
  · simp only [setSlot_setObject]
    rfl
  · rfl

/-- `listlinks` without a pattern. -/
theorem run_listlinks {name : String} {info : RefCountedChannel}
    (hname : w.haveChannel name = some info) (h : w.objects info.pChannel = some c) :
    w.run resolve (.listlinks name) = (.ok, w.setResult (.list (matchingLinks "*" c))) := by
  simp [run, onChannel, hname, listLinks, h]

/-! ## The events -/

variable {w' : World ν}

/-- `markChange` handles the change at once or queues an event. -/
theorem markChange_cases {inTclThread : Bool}
    (h : w.markChange resolve id inTclThread = some w') :
    ∃ c, w.objects id = some c ∧
      ((inTclThread = true ∧ w.update resolve ⟨id, getName c.name⟩ = some w') ∨
        (inTclThread = false ∧ w' = { w with interp := { w.interp with
          events := w.interp.events ++ [⟨id, getName c.name⟩] } })) := by
  unfold markChange at h
  cases hc : w.objects id with
  | none =>
    rw [hc] at h
    cases h
  | some c =>
    refine ⟨c, rfl, ?_⟩
    rw [hc] at h
    cases inTclThread with
    | true => exact .inl ⟨rfl, h⟩
    | false =>
      cases h
      exact .inr ⟨rfl, rfl⟩

/-- A connection event changes the channel and the Channel Access client. -/
theorem connection_cases {args : ConnectionHandlerArgs}
    (h : w.step resolve (.connection id args) = some w') :
    ∃ c, w.objects id = some c ∧
      w' = { w.setObject id { c with pChannel := (c.pChannel.stateHandler args w.ca).1 } with
        ca := (c.pChannel.stateHandler args w.ca).2 } := by
  simp only [step] at h
  cases hc : w.objects id with
  | none => simp [hc] at h
  | some c =>
    rw [hc] at h
    cases h
    exact ⟨c, rfl, rfl⟩

/-- An update event changes the channel, and tells the command object in its
slot. -/
theorem epicsUpdate_cases {args : EventHandlerArgs} {now : Int} {inTclThread : Bool}
    (h : w.step resolve (.epicsUpdate id args now inTclThread) = some w') :
    ∃ c, w.objects id = some c ∧
      (((c.pChannel.updateHandler args now).2 = none ∧
          w' = w.setObject id { c with pChannel := (c.pChannel.updateHandler args now).1 }) ∨
        ∃ this, (c.pChannel.updateHandler args now).2 = some this ∧
          (w.setObject id { c with pChannel := (c.pChannel.updateHandler args now).1 }).markChange
            resolve this inTclThread = some w') := by
  simp only [step] at h
  cases hc : w.objects id with
  | none => simp [hc] at h
  | some c =>
    refine ⟨c, rfl, ?_⟩
    simp only [hc] at h
    cases hslot : (c.pChannel.updateHandler args now).2 with
    | none =>
      rw [hslot] at h
      cases h
      exact .inl ⟨rfl, rfl⟩
    | some this =>
      rw [hslot] at h
      exact .inr ⟨this, rfl, h⟩

/-- A dispatch takes the first event out of the queue. -/
theorem dispatch_cases (h : w.step resolve .dispatch = some w') :
    ∃ ev rest, w.interp.events = ev :: rest ∧
      { w with interp := { w.interp with events := rest } }.update resolve ev = some w' := by
  simp only [step] at h
  cases hq : w.interp.events with
  | nil => simp [hq] at h
  | cons ev rest =>
    rw [hq] at h
    exact ⟨ev, rest, rfl, h⟩

end World

end EpicsTcl.Command
