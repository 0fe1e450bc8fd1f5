/-
EpicsTcl.Command.WorldInvariant — the structural invariant of the epics
package: how the registry, the heap of command objects and the traces of
the interpreter fit together in every reachable state.

* A name is registered for an object exactly when the object is alive and
  has that name, so a live object is registered and a destroyed one is not.
* A channel's slot is installed, for its own command object, exactly when
  its list of linked variables is not empty.
* A list holds at most one entry for a variable name, and no name is in
  the lists of two objects.
* The traces enabled in the interpreter are those of the list entries.

Every operation replaces one object, adds one or removes one; `congr`,
`replace`, `add` and `remove` say when the invariant survives that, and
`worldInv_step` puts the operations together.
-/
import EpicsTcl.Command.WorldTheorems

namespace EpicsTcl.Command

open EpicsTcl.Channel EpicsTcl.Library

variable {ν : Type*} {resolve : String → ν} {tcl : CTCLObjectProcessor} {access : ChannelAccess}

/-- The invariant. -/
structure WorldInv (resolve : String → ν) (w : World ν) : Prop where
  registered : ∀ name id, w.commandOf name = some id →
    ∃ c, w.objects id = some c ∧ c.name = name
  alive : ∀ id c, w.objects id = some c → w.commandOf c.name = some id
  fresh : ∀ id c, w.objects id = some c → id < w.nextObject
  slot : ∀ id c, w.objects id = some c →
    c.pChannel.pHandler = if c.linkedVariables = [] then none else some id
  owned : ∀ id c, w.objects id = some c → ∀ i ∈ c.linkedVariables,
    i.pLinkedVar.pChannel = id ∧ i.pLinkedVar.sVariable = i.varname
  nodup : ∀ id c, w.objects id = some c → (c.linkedVariables.map (·.varname)).Nodup
  disjoint : ∀ id c id' c', w.objects id = some c → w.objects id' = some c' →
    ∀ i ∈ c.linkedVariables, ∀ i' ∈ c'.linkedVariables, i.varname = i'.varname → id = id'
  traces : ∀ t, t ∈ w.interp.traces ↔ ∃ id c, w.objects id = some c ∧
    ∃ i ∈ c.linkedVariables, i.pLinkedVar.trace resolve = t
  traces_nodup : w.interp.traces.Nodup

namespace WorldInv

variable {w w' : World ν} {id : CommandId} {c c' : CTCLChannelCommand}

/-- The object registered under a name, and its name. -/
theorem lookup (inv : WorldInv resolve w) {name : String} {info : RefCountedChannel}
    (h : w.haveChannel name = some info) :
    ∃ c, w.objects info.pChannel = some c ∧ c.name = name :=
  inv.registered name info.pChannel (by simp [World.commandOf, h])

/-- The registry entry of a live object. -/
theorem entry (inv : WorldInv resolve w) (h : w.objects id = some c) :
    ∃ info, w.haveChannel c.name = some info ∧ info.pChannel = id := by
  have := inv.alive id c h
  simpa [World.commandOf] using this

theorem entry_trace (inv : WorldInv resolve w) (h : w.objects id = some c) {i : VariableInfo}
    (hi : i ∈ c.linkedVariables) :
    i.pLinkedVar.trace resolve = ⟨resolve i.varname, i.varname, id⟩ := by
  obtain ⟨hid, hname⟩ := inv.owned id c h i hi
  simp [CChannelVariable.trace, hid, hname]

/-- A trace of a live object's is the trace of one of its entries. -/
theorem trace_entry (inv : WorldInv resolve w) (h : w.objects id = some c) {t : Trace ν}
    (ht : t ∈ w.interp.traces) (hid : t.pChannel = id) :
    ∃ i ∈ c.linkedVariables, t = ⟨resolve i.varname, i.varname, id⟩ := by
  obtain ⟨id', c', hc', i, hi, rfl⟩ := (inv.traces t).mp ht
  rw [inv.entry_trace hc' hi] at hid ⊢
  obtain rfl : id' = id := hid
  rw [h] at hc'
  obtain rfl := Option.some.inj hc'
  exact ⟨i, hi, rfl⟩

theorem trace_mem (inv : WorldInv resolve w) (h : w.objects id = some c) {i : VariableInfo}
    (hi : i ∈ c.linkedVariables) : i.pLinkedVar.trace resolve ∈ w.interp.traces :=
  (inv.traces _).mpr ⟨id, c, h, i, hi, rfl⟩

/-- The traces of the variables an object refreshes are enabled. -/
theorem linked_traces (inv : WorldInv resolve w) (h : w.objects id = some c) :
    ∀ v ∈ c.linkedVariables.map (·.pLinkedVar), v.trace resolve ∈ w.interp.traces := by
  intro v hv
  obtain ⟨i, hi, rfl⟩ := List.mem_map.mp hv
  exact inv.trace_mem h hi

/-! ## When the invariant survives -/

/-- The objects of a heap in which one was put: that one, or another that
was there before. -/
theorem objects_update {objects : CommandId → Option CTCLChannelCommand} {id₁ : CommandId}
    {c₁ : CTCLChannelCommand} (h : Function.update objects id (some c) id₁ = some c₁) :
    (id₁ = id ∧ c₁ = c) ∨ (id₁ ≠ id ∧ objects id₁ = some c₁) := by
  by_cases heq : id₁ = id
  · subst heq
    rw [Function.update_self] at h
    exact .inl ⟨rfl, (Option.some.inj h).symm⟩
  · rw [Function.update_of_ne heq] at h
    exact .inr ⟨heq, h⟩

/-- A change of variables, events, results, Channel Access, reference
counts or the order of the traces. -/
theorem congr (inv : WorldInv resolve w) (hobj : w'.objects = w.objects)
    (hnext : w'.nextObject = w.nextObject) (hreg : ∀ n, w'.commandOf n = w.commandOf n)
    (htraces : w'.interp.traces.Perm w.interp.traces) : WorldInv resolve w' where
  registered := by simpa only [hobj, hreg] using inv.registered
  alive := by simpa only [hobj, hreg] using inv.alive
  fresh := by simpa only [hobj, hnext] using inv.fresh
  slot := by simpa only [hobj] using inv.slot
  owned := by simpa only [hobj] using inv.owned
  nodup := by simpa only [hobj] using inv.nodup
  disjoint := by simpa only [hobj] using inv.disjoint
  traces := by simpa only [hobj, htraces.mem_iff] using inv.traces
  traces_nodup := htraces.nodup_iff.mpr inv.traces_nodup

/-- Replacing an object by one of the same name: the new list has its own
names, its slot is right, and the traces follow the list. -/
theorem replace (inv : WorldInv resolve w) (h : w.objects id = some c)
    (hobj : w'.objects = Function.update w.objects id (some c'))
    (hnext : w'.nextObject = w.nextObject) (hreg : ∀ n, w'.commandOf n = w.commandOf n)
    (hname : c'.name = c.name)
    (hslot : c'.pChannel.pHandler = if c'.linkedVariables = [] then none else some id)
    (howned : ∀ i ∈ c'.linkedVariables,
      i.pLinkedVar.pChannel = id ∧ i.pLinkedVar.sVariable = i.varname)
    (hnodup : (c'.linkedVariables.map (·.varname)).Nodup)
    (hdisjoint : ∀ id₂ c₂, id₂ ≠ id → w.objects id₂ = some c₂ →
      ∀ i ∈ c'.linkedVariables, ∀ i₂ ∈ c₂.linkedVariables, i.varname ≠ i₂.varname)
    (htraces : ∀ t, t ∈ w'.interp.traces ↔ (t ∈ w.interp.traces ∧ t.pChannel ≠ id) ∨
      ∃ i ∈ c'.linkedVariables, i.pLinkedVar.trace resolve = t)
    (htnodup : w'.interp.traces.Nodup) : WorldInv resolve w' := by
  have hcases : ∀ id₁ c₁, w'.objects id₁ = some c₁ →
      (id₁ = id ∧ c₁ = c') ∨ (id₁ ≠ id ∧ w.objects id₁ = some c₁) :=
    fun id₁ c₁ hc₁ => objects_update (hobj ▸ hc₁)
  have hself : w'.objects id = some c' := by rw [hobj, Function.update_self]
  have hother : ∀ id₁, id₁ ≠ id → w'.objects id₁ = w.objects id₁ := by
    intro id₁ hne
    rw [hobj, Function.update_of_ne hne]
  constructor
  case registered =>
    intro name id₁ hid
    rw [hreg] at hid
    obtain ⟨c₁, hc₁, hn⟩ := inv.registered name id₁ hid
    by_cases heq : id₁ = id
    · subst heq
      rw [h] at hc₁
      obtain rfl := Option.some.inj hc₁
      exact ⟨c', hself, hname.trans hn⟩
    · exact ⟨c₁, by rw [hother _ heq]; exact hc₁, hn⟩
  case alive =>
    intro id₁ c₁ hc₁
    rw [hreg]
    rcases hcases id₁ c₁ hc₁ with ⟨rfl, rfl⟩ | ⟨-, hc₁⟩
    · rw [hname]; exact inv.alive _ _ h
    · exact inv.alive _ _ hc₁
  case fresh =>
    intro id₁ c₁ hc₁
    rw [hnext]
    rcases hcases id₁ c₁ hc₁ with ⟨rfl, rfl⟩ | ⟨-, hc₁⟩
    · exact inv.fresh _ _ h
    · exact inv.fresh _ _ hc₁
  case slot =>
    intro id₁ c₁ hc₁
    rcases hcases id₁ c₁ hc₁ with ⟨rfl, rfl⟩ | ⟨-, hc₁⟩
    · exact hslot
    · exact inv.slot _ _ hc₁
  case owned =>
    intro id₁ c₁ hc₁
    rcases hcases id₁ c₁ hc₁ with ⟨rfl, rfl⟩ | ⟨-, hc₁⟩
    · exact howned
    · exact inv.owned _ _ hc₁
  case nodup =>
    intro id₁ c₁ hc₁
    rcases hcases id₁ c₁ hc₁ with ⟨rfl, rfl⟩ | ⟨-, hc₁⟩
    · exact hnodup
    · exact inv.nodup _ _ hc₁
  case disjoint =>
    intro id₁ c₁ id₂ c₂ hc₁ hc₂ i hi i₂ hi₂ heq
    rcases hcases id₁ c₁ hc₁ with ⟨rfl, rfl⟩ | ⟨hne₁, hc₁⟩ <;>
      rcases hcases id₂ c₂ hc₂ with ⟨rfl, rfl⟩ | ⟨hne₂, hc₂⟩
    · rfl
    · exact absurd heq (hdisjoint _ _ hne₂ hc₂ i hi i₂ hi₂)
    · exact absurd heq.symm (hdisjoint _ _ hne₁ hc₁ i₂ hi₂ i hi)
    · exact inv.disjoint _ _ _ _ hc₁ hc₂ i hi i₂ hi₂ heq
  case traces =>
    intro t
    rw [htraces]
    constructor
    · rintro (⟨ht, hne⟩ | ⟨i, hi, rfl⟩)
      · obtain ⟨id₁, c₁, hc₁, i, hi, rfl⟩ := (inv.traces t).mp ht
        rw [inv.entry_trace hc₁ hi] at hne
        exact ⟨id₁, c₁, by rw [hother _ hne]; exact hc₁, i, hi, rfl⟩
      · exact ⟨id, c', hself, i, hi, rfl⟩
    · rintro ⟨id₁, c₁, hc₁, i, hi, rfl⟩
      rcases hcases id₁ c₁ hc₁ with ⟨rfl, rfl⟩ | ⟨hne, hc₁⟩
      · exact .inr ⟨i, hi, rfl⟩
      · exact .inl ⟨inv.trace_mem hc₁ hi, by rw [inv.entry_trace hc₁ hi]; exact hne⟩
  case traces_nodup => exact htnodup

/-- Replacing an object by one with the same name, list and slot. -/
theorem replace_channel (inv : WorldInv resolve w) (h : w.objects id = some c)
    (channel : CChannel) (hslot : channel.pHandler = c.pChannel.pHandler) :
    WorldInv resolve (w.setObject id { c with pChannel := channel }) := by
  refine inv.replace h rfl rfl (fun _ => rfl) rfl (hslot.trans (inv.slot id c h))
    (inv.owned id c h) (inv.nodup id c h) ?_ ?_ inv.traces_nodup
  · intro id₂ c₂ hne hc₂ i hi i₂ hi₂ heq
    exact hne (inv.disjoint _ _ _ _ h hc₂ i hi i₂ hi₂ heq).symm
  · intro t
    constructor
    · intro ht
      by_cases hid : t.pChannel = id
      · obtain ⟨i, hi, rfl⟩ := inv.trace_entry h ht hid
        exact .inr ⟨i, hi, inv.entry_trace h hi⟩
      · exact .inl ⟨ht, hid⟩
    · rintro (⟨ht, -⟩ | ⟨i, hi, rfl⟩)
      · exact ht
      · exact inv.trace_mem h hi

/-- A new object, with a new name and no links. -/
theorem add (inv : WorldInv resolve w) {name : String} {channel : CChannel}
    (hnew : w.commandOf name = none) (hslot : channel.pHandler = none)
    (hobj : w'.objects = Function.update w.objects w.nextObject (some ⟨name, channel, []⟩))
    (hnext : w'.nextObject = w.nextObject + 1)
    (hreg : ∀ n, w'.commandOf n = if n = name then some w.nextObject else w.commandOf n)
    (htraces : w'.interp.traces = w.interp.traces) : WorldInv resolve w' := by
  have hcases : ∀ id₁ c₁, w'.objects id₁ = some c₁ →
      (id₁ = w.nextObject ∧ c₁ = ⟨name, channel, []⟩) ∨
        (id₁ ≠ w.nextObject ∧ w.objects id₁ = some c₁) :=
    fun id₁ c₁ hc₁ => objects_update (hobj ▸ hc₁)
  have hother : ∀ id₁ c₁, w.objects id₁ = some c₁ → w'.objects id₁ = some c₁ := by
    intro id₁ c₁ hc₁
    have hne : id₁ ≠ w.nextObject := fun heq => Nat.lt_irrefl _ (heq ▸ inv.fresh _ _ hc₁)
    rw [hobj, Function.update_of_ne hne]
    exact hc₁
  have hself : w'.objects w.nextObject = some ⟨name, channel, []⟩ := by
    rw [hobj, Function.update_self]
  constructor
  case registered =>
    intro n id₁ hid
    rw [hreg] at hid
    by_cases heq : n = name
    · rw [if_pos heq] at hid
      obtain rfl := Option.some.inj hid
      exact ⟨_, hself, heq.symm⟩
    · rw [if_neg heq] at hid
      obtain ⟨c₁, hc₁, hn⟩ := inv.registered n id₁ hid
      exact ⟨c₁, hother _ _ hc₁, hn⟩
  case alive =>
    intro id₁ c₁ hc₁
    rw [hreg]
    rcases hcases id₁ c₁ hc₁ with ⟨rfl, rfl⟩ | ⟨-, hc₁⟩
    · rw [if_pos rfl]
    · have hreg₁ := inv.alive _ _ hc₁
      have hne : c₁.name ≠ name := fun heq => by
        rw [heq, hnew] at hreg₁
        cases hreg₁
      rw [if_neg hne]
      exact hreg₁
  case fresh =>
    intro id₁ c₁ hc₁
    rw [hnext]
    rcases hcases id₁ c₁ hc₁ with ⟨rfl, rfl⟩ | ⟨-, hc₁⟩
    · exact Nat.lt_succ_self _
    · exact Nat.lt_succ_of_lt (inv.fresh _ _ hc₁)
  case slot =>
    intro id₁ c₁ hc₁
    rcases hcases id₁ c₁ hc₁ with ⟨rfl, rfl⟩ | ⟨-, hc₁⟩
    · exact hslot
    · exact inv.slot _ _ hc₁
  case owned =>
    intro id₁ c₁ hc₁
    rcases hcases id₁ c₁ hc₁ with ⟨rfl, rfl⟩ | ⟨-, hc₁⟩
    · intro i hi; cases hi
    · exact inv.owned _ _ hc₁
  case nodup =>
    intro id₁ c₁ hc₁
    rcases hcases id₁ c₁ hc₁ with ⟨rfl, rfl⟩ | ⟨-, hc₁⟩
    · exact List.nodup_nil
    · exact inv.nodup _ _ hc₁
  case disjoint =>
    intro id₁ c₁ id₂ c₂ hc₁ hc₂ i hi i₂ hi₂ heq
    rcases hcases id₁ c₁ hc₁ with ⟨-, rfl⟩ | ⟨-, hc₁⟩
    · cases hi
    rcases hcases id₂ c₂ hc₂ with ⟨-, rfl⟩ | ⟨-, hc₂⟩
    · cases hi₂
    exact inv.disjoint _ _ _ _ hc₁ hc₂ i hi i₂ hi₂ heq
  case traces =>
    intro t
    rw [htraces, inv.traces]
    constructor
    · rintro ⟨id₁, c₁, hc₁, i, hi, rfl⟩
      exact ⟨id₁, c₁, hother _ _ hc₁, i, hi, rfl⟩
    · rintro ⟨id₁, c₁, hc₁, i, hi, rfl⟩
      rcases hcases id₁ c₁ hc₁ with ⟨-, rfl⟩ | ⟨-, hc₁⟩
      · cases hi
      · exact ⟨id₁, c₁, hc₁, i, hi, rfl⟩
  case traces_nodup => rw [htraces]; exact inv.traces_nodup

/-- An object is unregistered and destroyed, its traces disabled. -/
theorem remove (inv : WorldInv resolve w) (h : w.objects id = some c)
    (hobj : w'.objects = Function.update w.objects id none)
    (hnext : w'.nextObject = w.nextObject)
    (hreg : ∀ n, w'.commandOf n = if n = c.name then none else w.commandOf n)
    (htraces : ∀ t, t ∈ w'.interp.traces ↔ t ∈ w.interp.traces ∧
      ∀ i ∈ c.linkedVariables, i.pLinkedVar.trace resolve ≠ t)
    (htnodup : w'.interp.traces.Nodup) : WorldInv resolve w' := by
  have hcases : ∀ id₁ c₁, w'.objects id₁ = some c₁ ↔ id₁ ≠ id ∧ w.objects id₁ = some c₁ := by
    intro id₁ c₁
    rw [hobj]
    by_cases heq : id₁ = id
    · subst heq; simp
    · simp [heq]
  constructor
  case registered =>
    intro n id₁ hid
    rw [hreg] at hid
    by_cases heq : n = c.name
    · simp [heq] at hid
    · rw [if_neg heq] at hid
      obtain ⟨c₁, hc₁, hn⟩ := inv.registered n id₁ hid
      refine ⟨c₁, (hcases id₁ c₁).mpr ⟨?_, hc₁⟩, hn⟩
      rintro rfl
      rw [h] at hc₁
      exact heq (by rw [← hn, Option.some.inj hc₁])
  case alive =>
    intro id₁ c₁ hc₁
    obtain ⟨hne, hc₁⟩ := (hcases id₁ c₁).mp hc₁
    have hreg₁ := inv.alive _ _ hc₁
    have hname : c₁.name ≠ c.name := fun heq => by
      rw [heq, inv.alive _ _ h] at hreg₁
      exact hne (Option.some.inj hreg₁).symm
    rw [hreg, if_neg hname]
    exact hreg₁
  case fresh => exact fun id₁ c₁ hc₁ => hnext ▸ inv.fresh _ _ ((hcases id₁ c₁).mp hc₁).2
  case slot => exact fun id₁ c₁ hc₁ => inv.slot _ _ ((hcases id₁ c₁).mp hc₁).2
  case owned => exact fun id₁ c₁ hc₁ => inv.owned _ _ ((hcases id₁ c₁).mp hc₁).2
  case nodup => exact fun id₁ c₁ hc₁ => inv.nodup _ _ ((hcases id₁ c₁).mp hc₁).2
  case disjoint =>
    exact fun id₁ c₁ id₂ c₂ hc₁ hc₂ =>
      inv.disjoint _ _ _ _ ((hcases id₁ c₁).mp hc₁).2 ((hcases id₂ c₂).mp hc₂).2
  case traces =>
    intro t
    rw [htraces]
    constructor
    · rintro ⟨ht, hne⟩
      obtain ⟨id₁, c₁, hc₁, i, hi, rfl⟩ := (inv.traces t).mp ht
      refine ⟨id₁, c₁, (hcases id₁ c₁).mpr ⟨?_, hc₁⟩, i, hi, rfl⟩
      rintro rfl
      rw [h] at hc₁
      obtain rfl := Option.some.inj hc₁
      exact hne i hi rfl
    · rintro ⟨id₁, c₁, hc₁, i, hi, rfl⟩
      obtain ⟨hne, hc₁⟩ := (hcases id₁ c₁).mp hc₁
      refine ⟨inv.trace_mem hc₁ hi, fun j hj heq => ?_⟩
      rw [inv.entry_trace h hj, inv.entry_trace hc₁ hi] at heq
      exact hne (congrArg Trace.pChannel heq).symm
  case traces_nodup => exact htnodup

/-- Replacing the variable object of an entry by one for the same variable
of the same channel. -/
theorem replace_variable (inv : WorldInv resolve w) (h : w.objects id = some c) {i : VariableInfo}
    (hi : i ∈ c.linkedVariables) {v : CChannelVariable} (hv : v.pChannel = id)
    (hvar : v.sVariable = i.varname) {channel : CChannel} (hslot : channel.pHandler = some id) :
    WorldInv resolve (w.setObject id { c with
      linkedVariables := CTCLChannelCommand.updateLinked i.varname v c.linkedVariables
      pChannel := channel }) := by
  have hmem := CTCLChannelCommand.mem_updateLinked (v := v) (inv.nodup id c h) ⟨i, hi, rfl⟩
  have hne : CTCLChannelCommand.updateLinked i.varname v c.linkedVariables ≠ [] :=
    List.ne_nil_of_mem ((hmem _).mpr (.inl rfl))
  have htrace : v.trace resolve = i.pLinkedVar.trace resolve := by
    rw [inv.entry_trace h hi]
    simp [CChannelVariable.trace, hv, hvar]
  refine inv.replace h rfl rfl (fun _ => rfl) rfl ?_ ?_ ?_ ?_ ?_ inv.traces_nodup
  · rw [if_neg hne]
    exact hslot
  · intro j hj
    rcases (hmem j).mp hj with rfl | ⟨hj, -⟩
    · exact ⟨hv, hvar⟩
    · exact inv.owned id c h j hj
  · simpa using inv.nodup id c h
  · intro id₂ c₂ hid hc₂ j hj i₂ hi₂ heq
    rcases (hmem j).mp hj with rfl | ⟨hj, -⟩
    · exact hid (inv.disjoint _ _ _ _ h hc₂ i hi i₂ hi₂ heq).symm
    · exact hid (inv.disjoint _ _ _ _ h hc₂ j hj i₂ hi₂ heq).symm
  · intro t
    constructor
    · intro ht
      by_cases hid : t.pChannel = id
      · obtain ⟨j, hj, rfl⟩ := inv.trace_entry h ht hid
        by_cases hji : j.varname = i.varname
        · refine .inr ⟨_, (hmem _).mpr (.inl rfl), ?_⟩
          rw [htrace, inv.entry_trace h hi, hji]
        · exact .inr ⟨j, (hmem j).mpr (.inr ⟨hj, hji⟩), inv.entry_trace h hj⟩
      · exact .inl ⟨ht, hid⟩
    · rintro (⟨ht, -⟩ | ⟨j, hj, rfl⟩)
      · exact ht
      · rcases (hmem j).mp hj with rfl | ⟨hj, -⟩
        · rw [htrace]
          exact inv.trace_mem h hi
        · exact inv.trace_mem h hj

/-- A variable that no other channel's list has, as `isLinked` found. -/
theorem unlinked (inv : WorldInv resolve w) {varname : String}
    (hlinked : w.isLinked id varname = false) {id₂ : CommandId} {c₂ : CTCLChannelCommand}
    (hne : id₂ ≠ id) (hc₂ : w.objects id₂ = some c₂) :
    ∀ i ∈ c₂.linkedVariables, i.varname ≠ varname := by
  intro i hi heq
  obtain ⟨info, hinfo, rfl⟩ := inv.entry hc₂
  have : w.isLinked id varname = true :=
    World.isLinked_iff.mpr ⟨c₂.name, info, c₂, hinfo, hc₂, hne, i, hi, heq⟩
  rw [hlinked] at this
  cases this

theorem trace_unlinked (inv : WorldInv resolve w) (h : w.objects id = some c) {varname : String}
    (hfind : c.find varname = none) :
    (⟨resolve varname, varname, id⟩ : Trace ν) ∉ w.interp.traces := by
  intro ht
  obtain ⟨i, hi, heq⟩ := inv.trace_entry h ht rfl
  exact CTCLChannelCommand.find_none hfind i hi (congrArg Trace.sVariable heq).symm

end WorldInv

/-! ## Every operation keeps the invariant -/

namespace WorldInv

variable [DecidableEq ν] {w w' : World ν} {id : CommandId} {c : CTCLChannelCommand}

omit [DecidableEq ν] in
theorem initial (vars : ν → Option String) : WorldInv resolve (World.initial vars) where
  registered := by intro name id h; cases h
  alive := by intro id c h; cases h
  fresh := by intro id c h; cases h
  slot := by intro id c h; cases h
  owned := by intro id c h; cases h
  nodup := by intro id c h; cases h
  disjoint := by intro id c id' c' h; cases h
  traces := by
    intro t
    constructor
    · intro h; cases h
    · rintro ⟨id, c, h, -⟩; cases h
  traces_nodup := List.nodup_nil

theorem setVar (inv : WorldInv resolve w) (target : ν) (value : String) :
    WorldInv resolve (w.setVar resolve target value) := by
  obtain ⟨ca, h⟩ := World.setVar_frame resolve target value w
  rw [h]
  exact inv.congr rfl rfl (fun _ => rfl) (.refl _)

theorem epicschannel (inv : WorldInv resolve w) (name : String) :
    WorldInv resolve (w.run resolve (.epicschannel name)).2 := by
  cases h : w.haveChannel name with
  | some info =>
    rw [World.run_epicschannel_registered h]
    exact inv.congr rfl rfl (World.commandOf_recount h _) (.refl _)
  | none =>
    rw [World.run_epicschannel_new h]
    refine inv.add (by simp [World.commandOf, h]) ?_ rfl rfl (fun n => ?_) rfl
    · simp [CChannel.connect, CChannel.new]
    · exact World.commandOf_insert w n name ⟨1, w.nextObject⟩

theorem deleteChannel (inv : WorldInv resolve w) (name : String) :
    WorldInv resolve (w.deleteChannel resolve name) := by
  cases h : w.haveChannel name with
  | none => rw [World.deleteChannel_unregistered h]; exact inv
  | some info =>
    obtain ⟨c, hc, hname⟩ := inv.lookup h
    rcases World.deleteChannel_cases resolve h with ⟨-, heq⟩ | ⟨-, heq⟩ <;> rw [heq]
    · exact inv.congr rfl rfl (World.commandOf_recount h _) (.refl _)
    · have hobj : ({ w with channelInfo := w.channelInfo.erase name }).objects info.pChannel =
          some c := hc
      rw [World.destroyCommand_eq hobj]
      obtain ⟨hnodup, hmem⟩ :=
        World.mem_disableTracings resolve c.linkedVariables inv.traces_nodup
      refine inv.remove hc rfl rfl (fun n => ?_) hmem hnodup
      rw [hname]
      exact World.commandOf_erase w n name

theorem link (inv : WorldInv resolve w) (h : w.objects id = some c) (name varname : String) :
    WorldInv resolve (w.link resolve id [name, "link", varname]).2 := by
  cases hlinked : w.isLinked id varname with
  | true =>
    rw [World.link_rejected h hlinked]
    exact inv.congr rfl rfl (fun _ => rfl) (.refl _)
  | false =>
    cases hfind : c.find varname with
    | some i =>
      obtain ⟨hi, rfl⟩ := CTCLChannelCommand.find_some hfind
      obtain ⟨hown, hvar⟩ := inv.owned id c h i hi
      rw [World.link_again h hlinked hfind]
      exact inv.replace_variable h hi (by simpa using hown) (by simpa using hvar) rfl
    | none =>
      have hnew := inv.trace_unlinked h hfind
      obtain ⟨ca, heq⟩ := World.link_new h name hlinked hfind hnew
      rw [heq]
      have hnone := CTCLChannelCommand.find_none hfind
      refine inv.replace h rfl rfl (fun _ => rfl) rfl ?_ ?_ ?_ ?_ ?_ ?_
      · simp [CChannel.setSlot]
      · intro j hj
        rcases List.mem_append.mp hj with hj | hj
        · exact inv.owned id c h j hj
        · obtain rfl := List.mem_singleton.mp hj
          exact ⟨rfl, rfl⟩
      · rw [List.map_append]
        refine (inv.nodup id c h).append (List.nodup_singleton _) ?_
        simpa [List.disjoint_left] using hnone
      · intro id₂ c₂ hid hc₂ j hj i₂ hi₂ heq₂
        rcases List.mem_append.mp hj with hj | hj
        · exact hid (inv.disjoint _ _ _ _ h hc₂ j hj i₂ hi₂ heq₂).symm
        · obtain rfl := List.mem_singleton.mp hj
          exact inv.unlinked hlinked hid hc₂ i₂ hi₂ heq₂.symm
      · intro t
        simp only [List.mem_cons, List.mem_append, List.not_mem_nil, or_false]
        constructor
        · rintro (rfl | ht)
          · exact .inr ⟨_, .inr rfl, rfl⟩
          · by_cases hid : t.pChannel = id
            · obtain ⟨j, hj, rfl⟩ := inv.trace_entry h ht hid
              exact .inr ⟨j, .inl hj, inv.entry_trace h hj⟩
            · exact .inl ⟨ht, hid⟩
        · rintro (⟨ht, -⟩ | ⟨j, hj | rfl, rfl⟩)
          · exact .inr ht
          · exact .inr (inv.trace_mem h hj)
          · exact .inl rfl
      · exact List.nodup_cons.mpr ⟨hnew, inv.traces_nodup⟩

theorem unlink (inv : WorldInv resolve w) (h : w.objects id = some c) (name varname : String) :
    WorldInv resolve (w.unlink resolve id [name, "unlink", varname]).2 := by
  cases hfind : c.find varname with
  | none =>
    rw [World.unlink_rejected h hfind]
    exact inv.congr rfl rfl (fun _ => rfl) (.refl _)
  | some i =>
    obtain ⟨hi, rfl⟩ := CTCLChannelCommand.find_some hfind
    obtain ⟨hown, hvar⟩ := inv.owned id c h i hi
    have hslot := inv.slot id c h
    rw [if_neg (List.ne_nil_of_mem hi)] at hslot
    by_cases hcount : i.pLinkedVar.dereference.referenceCount = 0
    · have hmem := CTCLChannelCommand.mem_eraseLinked i.varname (inv.nodup id c h)
      have hsub := List.eraseP_sublist (p := fun j : VariableInfo => decide (j.varname = i.varname))
        (l := c.linkedVariables)
      rw [World.unlink_last h hfind hcount]
      refine inv.replace h rfl rfl (fun _ => rfl) rfl ?_ ?_ ?_ ?_ ?_ (inv.traces_nodup.erase _)
      · by_cases hnil : c.linkedVariables.eraseP (·.varname = i.varname) = []
        · simp [hnil, CChannel.setSlot]
        · simp [hnil, hslot]
      · exact fun j hj => inv.owned id c h j ((hmem j).mp hj).1
      · exact (inv.nodup id c h).sublist (hsub.map _)
      · intro id₂ c₂ hid hc₂ j hj i₂ hi₂ heq
        exact hid (inv.disjoint _ _ _ _ h hc₂ j ((hmem j).mp hj).1 i₂ hi₂ heq).symm
      · intro t
        rw [inv.traces_nodup.mem_erase_iff]
        constructor
        · rintro ⟨hne, ht⟩
          by_cases hid : t.pChannel = id
          · obtain ⟨j, hj, rfl⟩ := inv.trace_entry h ht hid
            refine .inr ⟨j, (hmem j).mpr ⟨hj, fun hji => hne ?_⟩, inv.entry_trace h hj⟩
            rw [inv.entry_trace h hi, hji]
          · exact .inl ⟨ht, hid⟩
        · rintro (⟨ht, hid⟩ | ⟨j, hj, rfl⟩)
          · refine ⟨fun heq => hid ?_, ht⟩
            rw [heq, inv.entry_trace h hi]
          · obtain ⟨hj, hji⟩ := (hmem j).mp hj
            refine ⟨fun heq => hji ?_, inv.trace_mem h hj⟩
            rw [inv.entry_trace h hi, inv.entry_trace h hj] at heq
            exact congrArg Trace.sVariable heq
    · rw [World.unlink_more h hfind hcount]
      exact inv.replace_variable h hi (by simpa using hown) (by simpa using hvar) hslot

/-- `UpdateLinkedVariable` changes variables, the order of the traces and
Channel Access, and nothing else. -/
theorem updateLinkedVariable_eq (inv : WorldInv resolve w)
    (h : w.updateLinkedVariable resolve id = some w') :
    ∃ vars traces ca, w' = { w with interp := { w.interp with vars, traces }, ca } ∧
      traces.Perm w.interp.traces := by
  unfold World.updateLinkedVariable at h
  cases hc : w.objects id with
  | none => rw [hc] at h; cases h
  | some c =>
    obtain ⟨vars, traces, ca, heq, hperm, -⟩ := World.refresh_frame c.pChannel.getValue _ w
      inv.traces_nodup (inv.linked_traces hc)
    simp only [hc, heq, Option.some.injEq] at h
    exact ⟨vars, traces, ca, h.symm, hperm⟩

/-- So does `update`. -/
theorem update_eq (inv : WorldInv resolve w) {ev : ChangeEvent}
    (h : w.update resolve ev = some w') :
    ∃ vars traces ca, w' = { w with interp := { w.interp with vars, traces }, ca } ∧
      traces.Perm w.interp.traces := by
  unfold World.update at h
  split at h
  · exact inv.updateLinkedVariable_eq h
  · cases h
    exact ⟨w.interp.vars, w.interp.traces, w.ca, rfl, .refl _⟩

theorem update (inv : WorldInv resolve w) {ev : ChangeEvent}
    (h : w.update resolve ev = some w') : WorldInv resolve w' := by
  obtain ⟨vars, traces, ca, rfl, hperm⟩ := inv.update_eq h
  exact inv.congr rfl rfl (fun _ => rfl) hperm

theorem markChange (inv : WorldInv resolve w) {inTclThread : Bool}
    (h : w.markChange resolve id inTclThread = some w') : WorldInv resolve w' := by
  obtain ⟨c, -, ⟨-, hupdate⟩ | ⟨-, rfl⟩⟩ := World.markChange_cases h
  · exact inv.update hupdate
  · exact inv.congr rfl rfl (fun _ => rfl) (.refl _)

theorem run (inv : WorldInv resolve w) (cmd : TclCommand) :
    WorldInv resolve (w.run resolve cmd).2 := by
  cases cmd with
  | epicschannel name => exact inv.epicschannel name
  | delete name =>
    rcases World.run_delete_cases resolve w name with heq | heq <;> rw [heq]
    · exact inv
    · exact inv.deleteChannel _
  | link name varname =>
    cases h : w.haveChannel name with
    | none => simpa [World.run, World.onChannel_unregistered h] using inv
    | some info =>
      obtain ⟨c, hc, -⟩ := inv.lookup h
      rw [World.run_link h]
      exact inv.link hc name varname
  | unlink name varname =>
    cases h : w.haveChannel name with
    | none => simpa [World.run, World.onChannel_unregistered h] using inv
    | some info =>
      obtain ⟨c, hc, -⟩ := inv.lookup h
      rw [World.run_unlink h]
      exact inv.unlink hc name varname
  | listlinks name =>
    cases h : w.haveChannel name with
    | none => simpa [World.run, World.onChannel_unregistered h] using inv
    | some info =>
      obtain ⟨c, hc, -⟩ := inv.lookup h
      rw [World.run_listlinks h hc]
      exact inv.congr rfl rfl (fun _ => rfl) (.refl _)

/-- **One step keeps the invariant.** -/
theorem step (inv : WorldInv resolve w) {a : Action} (h : w.step resolve a = some w') :
    WorldInv resolve w' := by
  cases a with
  | command cmd => cases h; exact inv.run cmd
  | scriptWrite varname value => cases h; exact inv.setVar _ value
  | connection id args =>
    obtain ⟨c, hc, rfl⟩ := World.connection_cases h
    refine (inv.replace_channel hc (c.pChannel.stateHandler args w.ca).1 ?_).congr rfl rfl
      (fun _ => rfl) (.refl _)
    exact (CChannel.stateHandler_frame args c.pChannel w.ca).1
  | epicsUpdate id args now inTclThread =>
    obtain ⟨c, hc, hslot⟩ := World.epicsUpdate_cases h
    have inv' := inv.replace_channel hc (c.pChannel.updateHandler args now).1
      (CChannel.updateHandler_pHandler ..)
    obtain ⟨-, rfl⟩ | ⟨this, -, hmark⟩ := hslot
    · exact inv'
    · exact inv'.markChange hmark
  | dispatch =>
    obtain ⟨ev, rest, -, hupdate⟩ := World.dispatch_cases h
    have inv' : WorldInv resolve { w with interp := { w.interp with events := rest } } :=
      inv.congr rfl rfl (fun _ => rfl) (.refl _)
    exact inv'.update hupdate

/-- **Every reachable state satisfies the invariant.** -/
theorem reachable {vars : ν → Option String} {ok : World ν → Action → Prop} {as : List Action}
    (h : Run (World.step resolve) ok (World.initial vars) as w) : WorldInv resolve w :=
  h.invariant _ (initial vars) fun _ _ _ inv _ hstep => inv.step hstep

end WorldInv

end EpicsTcl.Command
