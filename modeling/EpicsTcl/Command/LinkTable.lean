/-
EpicsTcl.Command.LinkTable — the lists of linked variables of all command
objects, read as one table.

`linkCount name varname` is the reference count of the entry for `varname`
in the list of the channel registered under `name`; without such an entry
it is `none`. Only three commands change the table: a successful `link`
raises one count (`run_link_cases`), a successful `unlink` lowers one and
drops it at zero (`run_unlink_cases`), and the last `delete` of a channel
empties its row (`deleteChannel_linkCount`). `step_linkCount` says that nothing
else does.
-/
import EpicsTcl.Command.WorldInvariant

namespace EpicsTcl.Command

open EpicsTcl.Channel EpicsTcl.Library

/-! ## Finding an entry in a changed list -/

namespace CTCLChannelCommand

theorem find?_updateLinked (varname : String) (v : CChannelVariable) (l : List VariableInfo)
    (hmem : ∃ i ∈ l, i.varname = varname) (u : String) :
    (updateLinked varname v l).find? (·.varname = u) =
      if u = varname then some ⟨varname, v⟩ else l.find? (·.varname = u) := by
  induction l with
  | nil => simp at hmem
  | cons i l ih =>
    simp only [updateLinked]
    by_cases hi : i.varname = varname
    · subst hi
      by_cases hu : u = i.varname
      · simp [hu]
      · simp [hu, Ne.symm hu]
    · have hmem' : ∃ i ∈ l, i.varname = varname := by
        obtain ⟨k, hk, hkv⟩ := hmem
        rcases List.mem_cons.mp hk with rfl | hk
        · exact absurd hkv hi
        · exact ⟨k, hk, hkv⟩
      rw [if_neg hi, List.find?_cons, List.find?_cons, ih hmem']
      by_cases hu : u = varname
      · subst hu
        simp [hi]
      · simp [hu]

theorem find?_append_new {l : List VariableInfo} {varname : String} {v : CChannelVariable}
    (hnone : ∀ i ∈ l, i.varname ≠ varname) (u : String) :
    (l ++ [(⟨varname, v⟩ : VariableInfo)]).find? (·.varname = u) =
      if u = varname then some ⟨varname, v⟩ else l.find? (·.varname = u) := by
  rw [List.find?_append]
  by_cases hu : u = varname
  · subst hu
    have hl : l.find? (·.varname = u) = none := by simpa [List.find?_eq_none] using hnone
    simp [hl]
  · simp [hu, Ne.symm hu]

theorem find?_eraseLinked {l : List VariableInfo} (hnodup : (l.map (·.varname)).Nodup)
    (varname u : String) :
    (l.eraseP (·.varname = varname)).find? (·.varname = u) =
      if u = varname then none else l.find? (·.varname = u) := by
  by_cases hu : u = varname
  · rw [if_pos hu, List.find?_eq_none]
    intro i hi
    simpa [hu] using ((mem_eraseLinked varname hnodup i).mp hi).2
  · rw [if_neg hu]
    induction l with
    | nil => rfl
    | cons i l ih =>
      by_cases hi : i.varname = varname
      · rw [List.eraseP_cons_of_pos (by simpa using hi)]
        simp [hi, Ne.symm hu]
      · rw [List.eraseP_cons_of_neg (by simpa using hi), List.find?_cons, List.find?_cons,
          ih (List.nodup_cons.mp hnodup).2]

end CTCLChannelCommand

/-! ## The table -/

variable {ν : Type*} {resolve : String → ν}

namespace World

/-- The command object of a registered name. -/
def objectOf (name : String) (w : World ν) : Option CTCLChannelCommand :=
  (w.commandOf name).bind w.objects

/-- The reference count of the link of a variable to a channel. -/
def linkCount (name varname : String) (w : World ν) : Option Nat :=
  (w.objectOf name).bind fun c => (c.find varname).map (·.pLinkedVar.referenceCount)

theorem objectOf_registered {w : World ν} {name : String} {info : RefCountedChannel}
    {c : CTCLChannelCommand} (h : w.haveChannel name = some info)
    (hc : w.objects info.pChannel = some c) : w.objectOf name = some c := by
  simp [objectOf, commandOf, h, hc]

theorem linkCount_congr {w w' : World ν} (hobj : w'.objects = w.objects)
    (hreg : ∀ n, w'.commandOf n = w.commandOf n) (n u : String) :
    w'.linkCount n u = w.linkCount n u := by
  simp only [linkCount, objectOf, hreg, hobj]

theorem linkCount_of_object {w : World ν} {name : String} {c : CTCLChannelCommand}
    (h : w.objectOf name = some c) (varname : String) :
    w.linkCount name varname = (c.find varname).map (·.pLinkedVar.referenceCount) := by
  simp [linkCount, h]

end World

namespace WorldInv

variable {w w' : World ν} {id : CommandId} {c c' : CTCLChannelCommand}

/-- A live object is the one of its name. -/
theorem objectOf_iff (inv : WorldInv resolve w) {name : String} :
    w.objectOf name = some c ↔ ∃ id, w.objects id = some c ∧ c.name = name := by
  constructor
  · intro h
    obtain ⟨id, hid, hc⟩ := Option.bind_eq_some_iff.mp h
    obtain ⟨c₁, hc₁, hname⟩ := inv.registered name id hid
    rw [hc] at hc₁
    obtain rfl := Option.some.inj hc₁
    exact ⟨id, hc, hname⟩
  · rintro ⟨id, hc, rfl⟩
    simp [World.objectOf, inv.alive id c hc, hc]

/-- A name that has a link entry, and its object. -/
theorem linkCount_isSome_iff (inv : WorldInv resolve w) {name varname : String} :
    (w.linkCount name varname).isSome ↔
      ∃ id c, w.objects id = some c ∧ c.name = name ∧
        ∃ i ∈ c.linkedVariables, i.varname = varname := by
  constructor
  · intro h
    cases hobj : w.objectOf name with
    | none => simp [World.linkCount, hobj] at h
    | some c =>
      rw [World.linkCount_of_object hobj, Option.isSome_map,
        CTCLChannelCommand.find_isSome_iff] at h
      obtain ⟨id, hc, hname⟩ := inv.objectOf_iff.mp hobj
      exact ⟨id, c, hc, hname, h⟩
  · rintro ⟨id, c, hc, hname, hi⟩
    rw [World.linkCount_of_object (inv.objectOf_iff.mpr ⟨id, hc, hname⟩), Option.isSome_map,
      CTCLChannelCommand.find_isSome_iff]
    exact hi

/-- A variable is in the table under one channel name at most. -/
theorem linkCount_unique (inv : WorldInv resolve w) {n n' varname : String}
    (h : (w.linkCount n varname).isSome) (h' : (w.linkCount n' varname).isSome) : n = n' := by
  obtain ⟨id, c, hc, rfl, i, hi, hv⟩ := inv.linkCount_isSome_iff.mp h
  obtain ⟨id', c', hc', rfl, i', hi', hv'⟩ := inv.linkCount_isSome_iff.mp h'
  obtain rfl := inv.disjoint _ _ _ _ hc hc' i hi i' hi' (hv.trans hv'.symm)
  rw [hc] at hc'
  rw [Option.some.inj hc']

/-- What `isLinked` looks for, in the table. -/
theorem isLinked_iff_linkCount (inv : WorldInv resolve w) {name varname : String}
    {info : RefCountedChannel} (h : w.haveChannel name = some info) :
    w.isLinked info.pChannel varname = true ↔
      ∃ n, n ≠ name ∧ (w.linkCount n varname).isSome := by
  obtain ⟨c, hc, hname⟩ := inv.lookup h
  rw [World.isLinked_iff]
  constructor
  · rintro ⟨n, info', item, hinfo', hitem, hne, hi⟩
    obtain ⟨c', hc', hname'⟩ := inv.lookup hinfo'
    rw [hitem] at hc'
    obtain rfl := Option.some.inj hc'
    refine ⟨n, ?_, inv.linkCount_isSome_iff.mpr ⟨_, _, hitem, hname', hi⟩⟩
    rintro rfl
    rw [h] at hinfo'
    exact hne (by rw [Option.some.inj hinfo'])
  · rintro ⟨n, hne, hsome⟩
    obtain ⟨id, item, hitem, rfl, hi⟩ := inv.linkCount_isSome_iff.mp hsome
    obtain ⟨info', hinfo', rfl⟩ := inv.entry hitem
    refine ⟨item.name, info', item, hinfo', hitem, fun heq => hne ?_, hi⟩
    rw [heq, hc] at hitem
    rw [← Option.some.inj hitem, hname]

/-! ## Changes of one object -/

theorem objectOf_replace (inv : WorldInv resolve w) (h : w.objects id = some c)
    (hobj : w'.objects = Function.update w.objects id (some c'))
    (hreg : ∀ n, w'.commandOf n = w.commandOf n) (n : String) :
    w'.objectOf n = if n = c.name then some c' else w.objectOf n := by
  unfold World.objectOf
  rw [hreg, hobj]
  by_cases hn : n = c.name
  · subst hn
    simp [inv.alive id c h]
  · rw [if_neg hn]
    cases hid : w.commandOf n with
    | none => rfl
    | some id' =>
      have hne : id' ≠ id := by
        rintro rfl
        obtain ⟨c₁, hc₁, hname⟩ := inv.registered n id' hid
        rw [h] at hc₁
        exact hn (by rw [← hname, Option.some.inj hc₁])
      simp [hne]

/-- Replacing an object changes the row of its name. -/
theorem linkCount_replace (inv : WorldInv resolve w) (h : w.objects id = some c)
    (hobj : w'.objects = Function.update w.objects id (some c'))
    (hreg : ∀ n, w'.commandOf n = w.commandOf n) (n u : String) :
    w'.linkCount n u = if n = c.name then (c'.find u).map (·.pLinkedVar.referenceCount)
      else w.linkCount n u := by
  have hobject := inv.objectOf_replace h hobj hreg n
  by_cases hn : n = c.name
  · rw [if_pos hn] at hobject ⊢
    exact World.linkCount_of_object hobject u
  · rw [if_neg hn] at hobject ⊢
    simp [World.linkCount, hobject]

/-- Replacing an object by one whose list differs in one entry. -/
theorem linkCount_replace_entry (inv : WorldInv resolve w) (h : w.objects id = some c)
    (hobj : w'.objects = Function.update w.objects id (some c'))
    (hreg : ∀ n, w'.commandOf n = w.commandOf n) {l : List VariableInfo}
    (hlist : c'.linkedVariables = l) {varname : String} {i : Option VariableInfo}
    (hfind : ∀ u, l.find? (·.varname = u) =
      if u = varname then i else c.linkedVariables.find? (·.varname = u))
    {x : Option Nat} (hx : i.map (·.pLinkedVar.referenceCount) = x) (n u : String) :
    w'.linkCount n u = if n = c.name ∧ u = varname then x else w.linkCount n u := by
  rw [inv.linkCount_replace h hobj hreg, CTCLChannelCommand.find, hlist, hfind]
  by_cases hn : n = c.name
  · have hobject : w.objectOf n = some c := inv.objectOf_iff.mpr ⟨id, h, hn.symm⟩
    by_cases hu : u = varname
    · simp [hn, hu, hx]
    · simp only [hn, hu, if_true, if_false, and_false]
      rw [← hn, World.linkCount_of_object hobject, CTCLChannelCommand.find]
  · simp [hn]

/-- Replacing an object by one with the same list. -/
theorem linkCount_replace_same (inv : WorldInv resolve w) (h : w.objects id = some c)
    (hobj : w'.objects = Function.update w.objects id (some c'))
    (hreg : ∀ n, w'.commandOf n = w.commandOf n) (hlist : c'.linkedVariables = c.linkedVariables)
    (n u : String) : w'.linkCount n u = w.linkCount n u := by
  rw [inv.linkCount_replace h hobj hreg]
  by_cases hn : n = c.name
  · have hobject : w.objectOf n = some c := inv.objectOf_iff.mpr ⟨id, h, hn.symm⟩
    rw [if_pos hn, World.linkCount_of_object hobject, CTCLChannelCommand.find, hlist,
      CTCLChannelCommand.find]
  · rw [if_neg hn]

end WorldInv

/-! ## The commands that change the table -/

/-- The count of an entry after `link`. -/
def countLinked : Option Nat → Nat
  | none => 1
  | some k => (k + 1) % 2 ^ 32

/-- The count of an entry after `unlink`. -/
def countUnlinked (k : Nat) : Option Nat :=
  let k := if k = 0 then 2 ^ 32 - 1 else k - 1
  if k = 0 then none else some k

namespace WorldInv

variable [DecidableEq ν] [CTCLObjectProcessor] [ChannelAccess] {w w' : World ν}

/-- **`link`** fails and leaves the table alone, or it succeeds, on a
registered channel and a variable that no other channel has, and raises
one count. -/
theorem run_link_cases (inv : WorldInv resolve w) (name varname : String) :
    ((w.run resolve (.link name varname)).1 = .error ∧
      ((w.haveChannel name).isSome → ∃ n, n ≠ name ∧ (w.linkCount n varname).isSome) ∧
      ∀ n u, (w.run resolve (.link name varname)).2.linkCount n u = w.linkCount n u) ∨
    ((w.run resolve (.link name varname)).1 = .ok ∧ (w.haveChannel name).isSome ∧
      (∀ n, n ≠ name → w.linkCount n varname = none) ∧
      ∀ n u, (w.run resolve (.link name varname)).2.linkCount n u =
        if n = name ∧ u = varname then some (countLinked (w.linkCount name varname))
        else w.linkCount n u) := by
  cases h : w.haveChannel name with
  | none => exact .inl (by simp [World.run, World.onChannel_unregistered h])
  | some info =>
    obtain ⟨c, hc, rfl⟩ := inv.lookup h
    have hobject := World.objectOf_registered h hc
    rw [World.run_link h]
    cases hlinked : w.isLinked info.pChannel varname with
    | true =>
      rw [World.link_rejected hc hlinked]
      exact .inl ⟨rfl, fun _ => (inv.isLinked_iff_linkCount h).mp hlinked, fun _ _ => rfl⟩
    | false =>
      have hnone : ∀ n, n ≠ c.name → w.linkCount n varname = none := by
        intro n hn
        by_contra hsome
        have := (inv.isLinked_iff_linkCount h).mpr ⟨n, hn, Option.isSome_iff_ne_none.mpr hsome⟩
        rw [hlinked] at this
        cases this
      right
      rw [World.linkCount_of_object hobject]
      cases hfind : c.find varname with
      | some i =>
        obtain ⟨hi, hvar⟩ := CTCLChannelCommand.find_some hfind
        rw [World.link_again hc hlinked hfind]
        refine ⟨rfl, rfl, hnone, fun n u => ?_⟩
        apply inv.linkCount_replace_entry hc
        · rfl
        · exact fun _ => rfl
        · rfl
        · exact CTCLChannelCommand.find?_updateLinked _ i.pLinkedVar.reference _ ⟨i, hi, hvar⟩
        · rfl
      | none =>
        obtain ⟨ca, heq⟩ := World.link_new hc c.name hlinked hfind (inv.trace_unlinked hc hfind)
        rw [heq]
        refine ⟨rfl, rfl, hnone, fun n u => ?_⟩
        apply inv.linkCount_replace_entry hc
        · rfl
        · exact fun _ => rfl
        · rfl
        · exact CTCLChannelCommand.find?_append_new (CTCLChannelCommand.find_none hfind)
        · rfl

/-- **`unlink`** fails and leaves the table alone, or it lowers the count
of an entry. -/
theorem run_unlink_cases (inv : WorldInv resolve w) (name varname : String) :
    ((w.run resolve (.unlink name varname)).1 = .error ∧ w.linkCount name varname = none ∧
      ∀ n u, (w.run resolve (.unlink name varname)).2.linkCount n u = w.linkCount n u) ∨
    ((w.run resolve (.unlink name varname)).1 = .ok ∧
      ∃ k, w.linkCount name varname = some k ∧
        ∀ n u, (w.run resolve (.unlink name varname)).2.linkCount n u =
          if n = name ∧ u = varname then countUnlinked k else w.linkCount n u) := by
  cases h : w.haveChannel name with
  | none =>
    left
    simp [World.run, World.onChannel_unregistered h, World.linkCount, World.objectOf,
      World.commandOf, h]
  | some info =>
    obtain ⟨c, hc, rfl⟩ := inv.lookup h
    have hobject := World.objectOf_registered h hc
    rw [World.run_unlink h, World.linkCount_of_object hobject]
    cases hfind : c.find varname with
    | none =>
      rw [World.unlink_rejected hc hfind]
      exact .inl ⟨rfl, rfl, fun _ _ => rfl⟩
    | some i =>
      obtain ⟨hi, hvar⟩ := CTCLChannelCommand.find_some hfind
      refine .inr ?_
      by_cases hcount : i.pLinkedVar.dereference.referenceCount = 0
      · have hzero : countUnlinked i.pLinkedVar.referenceCount = none := if_pos hcount
        rw [World.unlink_last hc hfind hcount]
        refine ⟨rfl, _, rfl, fun n u => ?_⟩
        rw [hzero]
        apply inv.linkCount_replace_entry hc
        · rfl
        · exact fun _ => rfl
        · rfl
        · exact CTCLChannelCommand.find?_eraseLinked (inv.nodup _ _ hc) varname
        · rfl
      · have hmore : countUnlinked i.pLinkedVar.referenceCount =
            some i.pLinkedVar.dereference.referenceCount := if_neg hcount
        rw [World.unlink_more hc hfind hcount]
        refine ⟨rfl, _, rfl, fun n u => ?_⟩
        rw [hmore]
        apply inv.linkCount_replace_entry hc
        · rfl
        · exact fun _ => rfl
        · rfl
        · exact CTCLChannelCommand.find?_updateLinked _ i.pLinkedVar.dereference _ ⟨i, hi, hvar⟩
        · rfl

omit [CTCLObjectProcessor] [ChannelAccess] in
/-- **`deleteChannel`** leaves the table alone, or it is the last one and
empties the row of its name. -/
theorem deleteChannel_linkCount (inv : WorldInv resolve w) (name : String) :
    ((∀ info, w.haveChannel name = some info → wrapInt (info.refcount - 1) ≠ 0) ∧
      ∀ n u, (w.deleteChannel resolve name).linkCount n u = w.linkCount n u) ∨
    ((∃ info, w.haveChannel name = some info ∧ wrapInt (info.refcount - 1) = 0) ∧
      (w.deleteChannel resolve name).haveChannel name = none ∧
      ∀ n u, (w.deleteChannel resolve name).linkCount n u =
        if n = name then none else w.linkCount n u) := by
  cases h : w.haveChannel name with
  | none =>
    rw [World.deleteChannel_unregistered h]
    exact .inl ⟨fun _ hinfo => (by cases hinfo), fun _ _ => rfl⟩
  | some info =>
    obtain ⟨c, hc, rfl⟩ := inv.lookup h
    rcases World.deleteChannel_cases resolve h with ⟨hcount, heq⟩ | ⟨hcount, heq⟩ <;> rw [heq]
    · refine .inl ⟨?_, fun n u => ?_⟩
      · rintro info' ⟨⟩
        exact hcount
      · apply World.linkCount_congr
        · rfl
        · exact World.commandOf_recount h _
    · have hobj : ({ w with channelInfo := w.channelInfo.erase c.name }).objects info.pChannel =
          some c := hc
      have herase := World.haveChannel_erase w
      simp only [World.haveChannel] at herase
      rw [World.destroyCommand_eq hobj]
      refine .inr ⟨⟨info, rfl, hcount⟩, ?_, fun n u => ?_⟩
      · simp [World.haveChannel]
      by_cases hn : n = c.name
      · subst hn
        simp [World.linkCount, World.objectOf, World.commandOf, World.haveChannel]
      · have hother : ∀ id, w.commandOf n = some id → id ≠ info.pChannel := by
          rintro id hid rfl
          obtain ⟨c₁, hc₁, hname⟩ := inv.registered n _ hid
          rw [hc] at hc₁
          exact hn (by rw [← hname, Option.some.inj hc₁])
        rw [if_neg hn]
        simp only [World.linkCount, World.objectOf, World.commandOf, World.haveChannel, herase,
          if_neg hn] at hother ⊢
        cases hl : w.channelInfo.lookup n with
        | none => rfl
        | some info' =>
          have := hother info'.pChannel (by simp [hl])
          simp [this]

/-- **`epicschannel`** leaves the table alone: a new channel has no links. -/
theorem run_epicschannel_linkCount (inv : WorldInv resolve w) (name n u : String) :
    (w.run resolve (.epicschannel name)).2.linkCount n u = w.linkCount n u := by
  cases h : w.haveChannel name with
  | some info =>
    rw [World.run_epicschannel_registered h]
    apply World.linkCount_congr
    · rfl
    · exact World.commandOf_recount h _
  | none =>
    rw [World.run_epicschannel_new h]
    have hinsert := World.haveChannel_insert w n name ⟨1, w.nextObject⟩
    simp only [World.haveChannel] at hinsert h
    simp only [World.linkCount, World.objectOf, World.commandOf, World.haveChannel, hinsert]
    by_cases hn : n = name
    · subst hn
      simp [h, CTCLChannelCommand.find]
    · rw [if_neg hn]
      cases hl : w.channelInfo.lookup n with
      | none => rfl
      | some info =>
        obtain ⟨c, hc, -⟩ := inv.lookup hl
        have hne : info.pChannel ≠ w.nextObject := Nat.ne_of_lt (inv.fresh _ _ hc)
        simp [hne]

omit [ChannelAccess] in
theorem markChange_linkCount (inv : WorldInv resolve w) {id : CommandId} {inTclThread : Bool}
    (h : w.markChange resolve id inTclThread = some w') (n u : String) :
    w'.linkCount n u = w.linkCount n u := by
  obtain ⟨c, -, ⟨-, hupdate⟩ | ⟨-, rfl⟩⟩ := World.markChange_cases h
  · obtain ⟨vars, traces, ca, rfl, -⟩ := inv.update_eq hupdate
    rfl
  · rfl

/-- **Nothing else changes the table.** -/
theorem step_linkCount (inv : WorldInv resolve w) {a : Action} (h : w.step resolve a = some w')
    (hlink : ∀ n u, a ≠ .command (.link n u)) (hunlink : ∀ n u, a ≠ .command (.unlink n u))
    (hdelete : ∀ n, a ≠ .command (.delete n)) (n u : String) :
    w'.linkCount n u = w.linkCount n u := by
  cases a with
  | command cmd =>
    cases h
    cases cmd with
    | epicschannel name => exact inv.run_epicschannel_linkCount name n u
    | delete name => exact absurd rfl (hdelete name)
    | link name varname => exact absurd rfl (hlink name varname)
    | unlink name varname => exact absurd rfl (hunlink name varname)
    | listlinks name =>
      cases hname : w.haveChannel name with
      | none => simp [World.run, World.onChannel_unregistered hname]
      | some info =>
        obtain ⟨c, hc, -⟩ := inv.lookup hname
        rw [World.run_listlinks hname hc]
        rfl
  | scriptWrite varname value =>
    cases h
    obtain ⟨ca, heq⟩ := World.setVar_frame resolve (resolve varname) value w
    rw [heq]
    rfl
  | connection id args =>
    obtain ⟨c, hc, rfl⟩ := World.connection_cases h
    apply inv.linkCount_replace_same hc
    · rfl
    · exact fun _ => rfl
    · rfl
  | epicsUpdate id args now inTclThread =>
    obtain ⟨c, hc, hslot⟩ := World.epicsUpdate_cases h
    have inv' := inv.replace_channel hc (c.pChannel.updateHandler args now).1
      (CChannel.updateHandler_pHandler ..)
    have hsame : (w.setObject id { c with
        pChannel := (c.pChannel.updateHandler args now).1 }).linkCount n u = w.linkCount n u := by
      apply inv.linkCount_replace_same hc
      · rfl
      · exact fun _ => rfl
      · rfl
    obtain ⟨-, rfl⟩ | ⟨this, -, hmark⟩ := hslot
    · exact hsame
    · rw [← hsame]
      exact inv'.markChange_linkCount hmark n u
  | dispatch =>
    obtain ⟨ev, rest, -, hupdate⟩ := World.dispatch_cases h
    have inv' : WorldInv resolve { w with interp := { w.interp with events := rest } } :=
      inv.congr rfl rfl (fun _ => rfl) (.refl _)
    obtain ⟨vars, traces, ca, rfl, -⟩ := inv'.update_eq hupdate
    rfl

end WorldInv

end EpicsTcl.Command
