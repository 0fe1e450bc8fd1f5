/-
EpicsTcl.Command.ReentranceTheorems — `UpdateLinkedVariable` while the
scripts in write traces change what it walks over.

The loop holds an iterator into the list of linked variables, and the
`CChannelVariable` of that list node, across the write of the variable; the
write runs scripts. A `Refresh` is the loop of one command object under way.
Its iterator is the position of the node in the list, and no position once
the node was erased. `touches` writes down each use the loop makes of the
command object, of a list node and of a variable object, and whether that
was still there.

While a variable is being written any commands may run. Linking a new
variable writes that one, which may again run scripts: it is either one
action or the two actions `linkBegin` and `linkEnd` with others between
them.

§1 is the loop, §2 what commands do to the node, §3 the runs.
`refresh_alone` says that without scripts the loop is
`World.updateLinkedVariable`.
-/
import EpicsTcl.Command.DeletionTheorems
import EpicsTcl.Command.WorldInvariant

namespace EpicsTcl.Command

open EpicsTcl.Channel EpicsTcl.Library

/-! ## §1 The loop -/

/-- What the loop uses. -/
inductive Touch where
  | command
  | node
  | variable
  deriving DecidableEq, Repr

/-- Where the loop is: at its test with the iterator at a position, or
writing the variable of a node. -/
inductive RefreshPhase where
  | test (i : Nat)
  | write (i : Option Nat)
  | done
  /-- It went on with something that is not there any more. -/
  | wild
  deriving DecidableEq, Repr

structure Refresh (ν : Type*) where
  world : World ν
  phase : RefreshPhase := .test 0
  /-- The links that wait for their write, the innermost first. -/
  pending : List (CommandId × String) := []
  touches : List (Touch × Bool) := []

inductive RefreshAction where
  /-- The loop goes on, up to and with its next write or its end. -/
  | advance
  /-- A script runs a command. -/
  | script (c : TclCommand)
  /-- A script runs `name link varname` for a new link, up to its write. -/
  | linkBegin (name varname : String)
  /-- The rest of the innermost of these. -/
  | linkEnd
  deriving DecidableEq, Repr

/-- The names of the linked variables, in the order of the list. -/
def CTCLChannelCommand.names (c : CTCLChannelCommand) : List String :=
  c.linkedVariables.map (·.varname)

section

variable {ν : Type*} [DecidableEq ν] [CTCLObjectProcessor] [ChannelAccess] (resolve : String → ν)

namespace World

/-- `disableTracing` and the write of `newEpicsValue`. -/
def beginValue (value : String) (v : CChannelVariable) (w : World ν) : World ν :=
  (w.disableTracing resolve v).setVar resolve (resolve v.sVariable) value

/-- `Link` of a new variable, up to the write. -/
def linkWrite (this : CommandId) (c : CTCLChannelCommand) (tclVarName : String) (w : World ν) :
    World ν :=
  let v : CChannelVariable := { sVariable := tclVarName, pChannel := this }
  (w.enableTracing resolve v).beginValue resolve c.pChannel.getValue v

/-- `Link` of a new variable, from the end of the write. -/
def linkAppend (this : CommandId) (c : CTCLChannelCommand) (tclVarName : String) (w : World ν) :
    World ν :=
  let v : CChannelVariable := { sVariable := tclVarName, pChannel := this }
  let w := w.enableTracing resolve v
  let w := w.setObject this { c with linkedVariables := c.linkedVariables ++ [⟨tclVarName, v⟩] }
  w.setSlot this (some this)

/-- The position of the node that `name unlink varname` erases from the list
of `this`. -/
def erasedBy (this : CommandId) (name varname : String) (w : World ν) : Option Nat :=
  if w.commandOf name = some this then
    (w.objects this).bind fun c => (c.find varname).bind fun i =>
      if i.pLinkedVar.dereference.referenceCount = 0 then c.names.idxOf? varname else none
  else none

/-- `name delete` destroys `this`. -/
def destroyedBy (this : CommandId) (name : String) (w : World ν) : Bool :=
  (w.haveChannel name).isSome &&
    match w.haveChannel (getName name) with
    | some info => decide (info.pChannel = this ∧ wrapInt (info.refcount - 1) = 0)
    | none => false

/-- Where a command leaves the node at a position of the list of `this`. -/
def movedTo (this : CommandId) (w : World ν) (i : Nat) : TclCommand → Option Nat
  | .unlink name varname =>
    match w.erasedBy this name varname with
    | some k => if k = i then none else some (if k < i then i - 1 else i)
    | none => some i
  | .delete name => if w.destroyedBy this name then none else some i
  | _ => some i

end World

namespace Refresh

/-- The list entry the iterator points to. -/
def entry (this : CommandId) (i : Option Nat) (s : Refresh ν) : Option VariableInfo :=
  i.bind fun i => (s.world.objects this).bind fun c => c.linkedVariables[i]?

/-- What the loop does next. -/
def advance (this : CommandId) (s : Refresh ν) : Option (Refresh ν) :=
  match s.phase with
  | .test i =>
    match s.world.objects this with
    | none => some { s with phase := .wild, touches := s.touches ++ [(.command, false)] }
    | some c =>
      match c.linkedVariables[i]? with
      -- `i != m_linkedVariables.end()`
      | none => some { s with phase := .done, touches := s.touches ++ [(.command, true)] }
      -- `i->m_pLinkedVar`, `m_pChannel->getValue()` and the variable's `Set`
      | some info =>
        some { s with
          world := s.world.beginValue resolve c.pChannel.getValue info.pLinkedVar
          phase := .write (some i)
          touches := s.touches ++
            [(.command, true), (.node, true), (.command, true), (.variable, true)] }
  | .write i =>
    match s.entry this i with
    -- the variable's `enableTracing` and `i++`
    | some info =>
      some { s with
        world := s.world.enableTracing resolve info.pLinkedVar
        phase := .test (i.getD 0 + 1)
        touches := s.touches ++ [(.variable, true), (.node, true)] }
    | none =>
      some { s with phase := .wild, touches := s.touches ++ [(.variable, false), (.node, false)] }
  | .done => none
  | .wild => none

/-- One step of the loop of `this` or of a script. -/
def step (this : CommandId) (s : Refresh ν) : RefreshAction → Option (Refresh ν)
  -- not before the links that a script has begun are through
  | .advance => if s.pending.isEmpty then s.advance resolve this else none
  | .script c =>
    match s.phase with
    | .write i =>
      some { s with
        world := (s.world.run resolve c).2
        phase := .write (i.bind fun i => s.world.movedTo this i c) }
    | _ => none
  | .linkBegin name varname =>
    match s.phase, s.world.commandOf name with
    | .write _, some id =>
      match s.world.objects id with
      | some c =>
        if !s.world.isLinked id varname && (c.find varname).isNone then
          some { s with
            world := s.world.linkWrite resolve id c varname
            pending := (id, varname) :: s.pending }
        else none
      | none => none
    | _, _ => none
  | .linkEnd =>
    match s.phase, s.pending with
    | .write _, (id, varname) :: rest =>
      match s.world.objects id with
      | some c =>
        some { s with
          world := s.world.linkAppend resolve id c varname
          pending := rest }
      -- `Link` itself goes on with an object that is not there any more
      | none => none
    | _, _ => none

/-- The scripts leave the node being refreshed and the command alone. -/
def Spares (this : CommandId) (s : Refresh ν) : RefreshAction → Prop
  | .script (.unlink name varname) =>
    ∀ i, s.phase = .write (some i) → s.world.erasedBy this name varname ≠ some i
  | .script (.delete name) => ∀ i, s.phase = .write (some i) → s.world.destroyedBy this name = false
  | _ => True

/-- Everything the loop used was still there. -/
def Safe (s : Refresh ν) : Prop := ∀ t ∈ s.touches, t.2 = true

end Refresh

variable {resolve} {this : CommandId} {w : World ν} {c : CTCLChannelCommand}

omit [CTCLObjectProcessor] [ChannelAccess] in
/-- Without scripts in between, the two parts of `Link` are `Link`. -/
theorem linkNew_split (id : CommandId) (c : CTCLChannelCommand) (varname : String) (w : World ν) :
    (w.linkNew resolve id c varname).setSlot id (some id) =
      (w.linkWrite resolve id c varname).linkAppend resolve id c varname := rfl

/-! ## §2 What commands do to the node -/

variable (resolve) in
omit [CTCLObjectProcessor] [ChannelAccess] in
theorem beginValue_frame (value : String) (v : CChannelVariable) (w : World ν) :
    (w.beginValue resolve value v).objects = w.objects ∧
      (w.beginValue resolve value v).nextObject = w.nextObject := by
  obtain ⟨ca, h⟩ := World.setVar_frame resolve (resolve v.sVariable) value
    (w.disableTracing resolve v)
  rw [World.beginValue, h]
  exact ⟨rfl, rfl⟩

variable (resolve) in
omit [CTCLObjectProcessor] [ChannelAccess] in
theorem linkWrite_frame (id : CommandId) (c : CTCLChannelCommand) (varname : String)
    (w : World ν) :
    (w.linkWrite resolve id c varname).objects = w.objects ∧
      (w.linkWrite resolve id c varname).nextObject = w.nextObject :=
  beginValue_frame resolve _ _ _

variable (resolve) in
omit [CTCLObjectProcessor] [ChannelAccess] in
/-- Appending the new entry. -/
theorem linkAppend_objects (id : CommandId) (c : CTCLChannelCommand) (varname : String)
    (w : World ν) :
    ∃ c', (w.linkAppend resolve id c varname).objects =
        Function.update w.objects id (some c') ∧
      c'.names = c.names ++ [varname] ∧
      (w.linkAppend resolve id c varname).nextObject = w.nextObject := by
  refine ⟨{ c with
      linkedVariables := c.linkedVariables ++ [⟨varname, ⟨varname, id, 1⟩⟩]
      pChannel := c.pChannel.setSlot (some id) }, ?_, ?_, ?_⟩
  · simp only [World.linkAppend, World.setSlot_setObject, World.setObject_objects]
    rfl
  · simp [CTCLChannelCommand.names]
  · simp only [World.linkAppend, World.setSlot_setObject]
    rfl

variable (resolve) in
omit [ChannelAccess] in
/-- What `Link` does to the object it is called for: the list keeps its
entries in their order. -/
theorem link_objects {id : CommandId} (h : w.objects id = some c) (name varname : String) :
    ∃ c', (w.link resolve id [name, "link", varname]).2.objects =
        Function.update w.objects id (some c') ∧
      c.names <+: c'.names ∧
      (w.link resolve id [name, "link", varname]).2.nextObject = w.nextObject := by
  have hsame : Function.update w.objects id (some c) = w.objects := by
    rw [← h, Function.update_eq_self]
  cases hlinked : w.isLinked id varname with
  | true =>
    rw [World.link_rejected h hlinked]
    exact ⟨c, hsame.symm, List.prefix_rfl, rfl⟩
  | false =>
    cases hfind : c.find varname with
    | some i =>
      rw [World.link_again h hlinked hfind]
      refine ⟨_, rfl, ?_, rfl⟩
      simp [CTCLChannelCommand.names, CTCLChannelCommand.updateLinked_varname]
    | none =>
      obtain ⟨c', hobj, hnames, hnext⟩ :=
        linkAppend_objects resolve id c varname (w.linkWrite resolve id c varname)
      obtain ⟨hobj', hnext'⟩ := linkWrite_frame resolve id c varname w
      simp only [World.link, h, hlinked, hfind, linkNew_split]
      rw [hobj'] at hobj
      exact ⟨c', hobj, hnames ▸ List.prefix_append _ _, hnext.trans hnext'⟩

variable (resolve) in
omit [ChannelAccess] in
/-- What `Unlink` does to the object it is called for: it erases the first
entry of the name, or keeps the entries. -/
theorem unlink_objects {id : CommandId} (h : w.objects id = some c) (name varname : String) :
    ∃ c', (w.unlink resolve id [name, "unlink", varname]).2.objects =
        Function.update w.objects id (some c') ∧
      c'.names = ((c.find varname).bind fun i =>
          if i.pLinkedVar.dereference.referenceCount = 0 then c.names.idxOf? varname
          else none).elim c.names c.names.eraseIdx ∧
      (w.unlink resolve id [name, "unlink", varname]).2.nextObject = w.nextObject := by
  have hsame : Function.update w.objects id (some c) = w.objects := by
    rw [← h, Function.update_eq_self]
  cases hfind : c.find varname with
  | none =>
    rw [World.unlink_rejected h hfind]
    exact ⟨c, hsame.symm, rfl, rfl⟩
  | some i =>
    by_cases hcount : i.pLinkedVar.dereference.referenceCount = 0
    · rw [World.unlink_last h hfind hcount]
      refine ⟨_, rfl, ?_, rfl⟩
      have herase : (c.linkedVariables.eraseP (·.varname = varname)).map (·.varname) =
          c.names.erase varname := by
        rw [CTCLChannelCommand.names, List.erase_eq_eraseP', List.eraseP_map]
        congr 2
      simp only [Option.bind_some, hcount, if_true]
      rw [CTCLChannelCommand.names, herase, List.erase_eq_eraseIdx]
      cases c.names.idxOf? varname <;> rfl
    · rw [World.unlink_more h hfind hcount]
      refine ⟨_, rfl, ?_, rfl⟩
      simp [CTCLChannelCommand.names, hcount]

omit [CTCLObjectProcessor] [ChannelAccess] in
/-- An entry keeps its place when the list is only added to. -/
theorem getElem?_of_prefix {l l' : List String} (h : l <+: l') {i : Nat} {u : String}
    (hu : l[i]? = some u) : l'[i]? = some u := by
  obtain ⟨t, rfl⟩ := h
  rw [List.getElem?_append_left (List.getElem?_eq_some_iff.mp hu).1, hu]

omit [CTCLObjectProcessor] [ChannelAccess] in
/-- Where the entries of a list go when another is erased. -/
theorem getElem?_of_eraseIdx {l : List String} {i k : Nat} {u : String} (hu : l[i]? = some u)
    (hne : k ≠ i) : (l.eraseIdx k)[if k < i then i - 1 else i]? = some u := by
  rw [List.getElem?_eraseIdx]
  by_cases hki : k < i
  · have hback : i - 1 + 1 = i := by omega
    have hnot : ¬ i - 1 < k := by omega
    simp [hki, hnot, hback, hu]
  · have hik : i < k := by omega
    simp [hki, hik, hu]

omit [CTCLObjectProcessor] [ChannelAccess] in
/-- An operation on one object leaves another alone and does `P` to its own. -/
theorem objects_operate {objects : CommandId → Option CTCLChannelCommand} {id : CommandId}
    {c₂ c' : CTCLChannelCommand} {P : CTCLChannelCommand → Prop}
    (h : objects this = some c) (h₂ : objects id = some c₂) (hsame : P c)
    (hown : id = this → c₂ = c → P c') :
    ∃ d, Function.update objects id (some c') this = some d ∧ P d := by
  by_cases hid : id = this
  · subst hid
    rw [h] at h₂
    exact ⟨c', Function.update_self .., hown rfl (Option.some.inj h₂).symm⟩
  · exact ⟨c, by rw [Function.update_of_ne (Ne.symm hid), h], hsame⟩

/-- The command object is still there, with the entry `u` at position `i`. -/
def World.HasEntry (this : CommandId) (i : Nat) (u : String) (w : World ν) : Prop :=
  this < w.nextObject ∧ ∃ c, w.objects this = some c ∧ c.names[i]? = some u

variable {i j : Nat} {u : String}

theorem epicschannel_hasEntry (h : w.HasEntry this i u) (name : String) :
    (w.run resolve (.epicschannel name)).2.HasEntry this i u := by
  obtain ⟨hfresh, c, hc, hu⟩ := h
  cases hname : w.haveChannel name with
  | some info =>
    rw [World.run_epicschannel_registered hname]
    exact ⟨hfresh, c, hc, hu⟩
  | none =>
    rw [World.run_epicschannel_new hname]
    have hother := Function.update_of_ne (Nat.ne_of_lt hfresh)
      (some (⟨name, ((CChannel.new name).connect w.ca).1, []⟩ : CTCLChannelCommand)) w.objects
    exact ⟨Nat.lt_succ_of_lt hfresh, c, hother.trans hc, hu⟩

omit [CTCLObjectProcessor] [ChannelAccess] in
theorem destroyCommand_hasEntry (h : w.HasEntry this i u) {id : CommandId} (hne : this ≠ id) :
    (w.destroyCommand resolve id).HasEntry this i u := by
  obtain ⟨hfresh, c, hc, hu⟩ := h
  cases hobj : w.objects id with
  | none =>
    simp only [World.destroyCommand, hobj]
    exact ⟨hfresh, c, hc, hu⟩
  | some d =>
    rw [World.destroyCommand_eq hobj]
    exact ⟨hfresh, c, (Function.update_of_ne hne _ _).trans hc, hu⟩

/-- `delete` of a command object's name, as long as it does not destroy
`this`. -/
theorem delete_hasEntry (h : w.HasEntry this i u) {name : String}
    (hkeep : w.destroyedBy this name = false) :
    (w.run resolve (.delete name)).2.HasEntry this i u := by
  cases hword : w.haveChannel name with
  | none => simpa [World.run, World.onChannel_unregistered hword] using h
  | some _ =>
    have hrun : (w.run resolve (.delete name)).2 = w.deleteChannel resolve (getName name) := by
      rw [World.run, World.onChannel_registered hword]
    rw [hrun]
    obtain ⟨hfresh, c, hc, hu⟩ := h
    cases hname : w.haveChannel (getName name) with
    | none =>
      rw [World.deleteChannel_unregistered hname]
      exact ⟨hfresh, c, hc, hu⟩
    | some info =>
      rcases World.deleteChannel_cases resolve hname with ⟨-, heq⟩ | ⟨hcount, heq⟩ <;> rw [heq]
      · exact ⟨hfresh, c, hc, hu⟩
      · have hne : this ≠ info.pChannel := by
          rintro rfl
          simp [World.destroyedBy, hword, hname, hcount] at hkeep
        have herased : ({ w with
            channelInfo := w.channelInfo.erase (getName name) }).HasEntry this i u :=
          ⟨hfresh, c, hc, hu⟩
        exact destroyCommand_hasEntry herased hne

theorem link_hasEntry (h : w.HasEntry this i u) (name varname : String) :
    (w.run resolve (.link name varname)).2.HasEntry this i u := by
  obtain ⟨hfresh, c, hc, hu⟩ := h
  cases hname : w.haveChannel name with
  | none =>
    simp only [World.run, World.onChannel_unregistered hname]
    exact ⟨hfresh, c, hc, hu⟩
  | some info =>
    rw [World.run_link hname]
    cases h₂ : w.objects info.pChannel with
    | none =>
      simp only [World.link, h₂]
      exact ⟨hfresh, c, hc, hu⟩
    | some c₂ =>
      obtain ⟨c', hobj, hnames, hnext⟩ := link_objects resolve h₂ name varname
      rw [World.HasEntry, hobj, hnext]
      refine ⟨hfresh, objects_operate hc h₂ hu fun _ hsame => ?_⟩
      subst hsame
      exact getElem?_of_prefix hnames hu

/-- `unlink`, as long as it does not erase the node. -/
theorem unlink_hasEntry (h : w.HasEntry this i u) {name varname : String}
    (hmoved : w.movedTo this i (.unlink name varname) = some j) :
    (w.run resolve (.unlink name varname)).2.HasEntry this j u := by
  obtain ⟨hfresh, c, hc, hu⟩ := h
  cases hname : w.haveChannel name with
  | none =>
    have hstay : i = j := by
      simpa [World.movedTo, World.erasedBy, World.commandOf, hname] using hmoved
    simp only [World.run, World.onChannel_unregistered hname]
    exact ⟨hfresh, c, hc, hstay ▸ hu⟩
  | some info =>
    rw [World.run_unlink hname]
    have hcommand : w.commandOf name = some info.pChannel := by simp [World.commandOf, hname]
    cases h₂ : w.objects info.pChannel with
    | none =>
      have hne : info.pChannel ≠ this := by
        rintro rfl
        rw [hc] at h₂
        cases h₂
      have hstay : i = j := by simpa [World.movedTo, World.erasedBy, hcommand, hne] using hmoved
      simp only [World.unlink, h₂]
      exact ⟨hfresh, c, hc, hstay ▸ hu⟩
    | some c₂ =>
      obtain ⟨c', hobj, hnames, hnext⟩ := unlink_objects resolve h₂ name varname
      by_cases hid : info.pChannel = this
      · subst hid
        rw [hc] at h₂
        obtain rfl := Option.some.inj h₂
        have herased : w.erasedBy info.pChannel name varname = (c.find varname).bind fun i =>
            if i.pLinkedVar.dereference.referenceCount = 0 then c.names.idxOf? varname
            else none := by
          simp [World.erasedBy, hcommand, hc]
        rw [← herased] at hnames
        rw [World.HasEntry, hobj, hnext, Function.update_self]
        refine ⟨hfresh, c', rfl, ?_⟩
        rw [hnames]
        simp only [World.movedTo] at hmoved
        cases hpos : w.erasedBy info.pChannel name varname with
        | none =>
          simp only [hpos, Option.some.injEq] at hmoved
          exact hmoved ▸ hu
        | some k =>
          simp only [hpos] at hmoved
          split at hmoved
          · cases hmoved
          · next hne =>
            obtain rfl := Option.some.inj hmoved
            exact getElem?_of_eraseIdx hu hne
      · have hstay : i = j := by simpa [World.movedTo, World.erasedBy, hcommand, hid] using hmoved
        rw [World.HasEntry, hobj, hnext, Function.update_of_ne (Ne.symm hid)]
        exact ⟨hfresh, c, hc, hstay ▸ hu⟩

theorem listlinks_hasEntry (h : w.HasEntry this i u) (name : String) :
    (w.run resolve (.listlinks name)).2.HasEntry this i u := by
  cases hname : w.haveChannel name with
  | none => simpa only [World.run, World.onChannel_unregistered hname] using h
  | some info =>
    simp only [World.run, World.onChannel_registered hname, World.listLinks]
    split <;> exact h

/-- **What a command does to a node**: unless it erases the node or destroys
the command object, both are there afterwards, the node at its new place. -/
theorem run_hasEntry (h : w.HasEntry this i u) (cmd : TclCommand)
    (hmoved : w.movedTo this i cmd = some j) : (w.run resolve cmd).2.HasEntry this j u := by
  cases cmd with
  | epicschannel name =>
    cases hmoved
    exact epicschannel_hasEntry h name
  | delete name =>
    cases hkeep : w.destroyedBy this name with
    | true => simp [World.movedTo, hkeep] at hmoved
    | false =>
      have hstay : i = j := by simpa [World.movedTo, hkeep] using hmoved
      exact hstay ▸ delete_hasEntry h hkeep
  | link name varname =>
    cases hmoved
    exact link_hasEntry h name varname
  | unlink name varname => exact unlink_hasEntry h hmoved
  | listlinks name =>
    cases hmoved
    exact listlinks_hasEntry h name

omit [DecidableEq ν] [CTCLObjectProcessor] [ChannelAccess] in
theorem hasEntry_congr {w' : World ν} (h : w.HasEntry this i u) (hobj : w'.objects = w.objects)
    (hnext : w'.nextObject = w.nextObject) : w'.HasEntry this i u := by
  rwa [World.HasEntry, hobj, hnext]

omit [CTCLObjectProcessor] [ChannelAccess] in
theorem linkAppend_hasEntry (h : w.HasEntry this i u) {id : CommandId} {d : CTCLChannelCommand}
    (hd : w.objects id = some d) (varname : String) :
    (w.linkAppend resolve id d varname).HasEntry this i u := by
  obtain ⟨hfresh, c, hc, hu⟩ := h
  obtain ⟨c', hobj, hnames, hnext⟩ := linkAppend_objects resolve id d varname w
  rw [World.HasEntry, hobj, hnext]
  refine ⟨hfresh, objects_operate hc hd hu fun _ hsame => ?_⟩
  subst hsame
  exact getElem?_of_prefix (hnames ▸ List.prefix_append _ _) hu

/-! ## §3 Runs -/

namespace Refresh

variable {s s' : Refresh ν} {a : RefreshAction}

/-- What holds of a loop that has come to no harm: at its test the iterator
is within the list, and during a write the node is still in it. -/
def Phase.Sound (this : CommandId) (w : World ν) : RefreshPhase → Prop
  | .test i => this < w.nextObject ∧ ∃ c, w.objects this = some c ∧ i ≤ c.linkedVariables.length
  | .write (some i) => ∃ u, w.HasEntry this i u
  | .write none => False
  | .done => True
  | .wild => False

structure Inv (this : CommandId) (s : Refresh ν) : Prop where
  safe : s.Safe
  sound : Phase.Sound this s.world s.phase

omit [DecidableEq ν] [CTCLObjectProcessor] [ChannelAccess] in
theorem safe_append {s : Refresh ν} (h : s.Safe) {ts : List (Touch × Bool)}
    (hts : ∀ t ∈ ts, t.2 = true) : ∀ t ∈ s.touches ++ ts, t.2 = true := by
  intro t ht
  rcases List.mem_append.mp ht with ht | ht
  · exact h t ht
  · exact hts t ht

omit [CTCLObjectProcessor] [ChannelAccess] in
/-- The loop goes on safely. -/
theorem inv_advance (inv : Inv this s) (h : s.advance resolve this = some s') : Inv this s' := by
  obtain ⟨safe, sound⟩ := inv
  unfold advance at h
  split at h
  · next i hphase =>
    rw [hphase] at sound
    obtain ⟨hfresh, c, hc, hi⟩ := sound
    simp only [hc] at h
    split at h
    · cases h
      exact ⟨safe_append safe (by simp), trivial⟩
    · next info hinfo =>
      cases h
      obtain ⟨hobj, hnext⟩ := beginValue_frame resolve c.pChannel.getValue
        info.pLinkedVar s.world
      refine ⟨safe_append safe (by simp), info.varname, ?_⟩
      have hentry : s.world.HasEntry this i info.varname :=
        ⟨hfresh, c, hc, by simp [CTCLChannelCommand.names, hinfo]⟩
      exact hasEntry_congr hentry hobj hnext
  · next i hphase =>
    rw [hphase] at sound
    cases i with
    | none => cases sound
    | some i =>
      obtain ⟨u, hfresh, c, hc, hu⟩ := sound
      have hlt : i < c.linkedVariables.length := by
        simpa [CTCLChannelCommand.names] using (List.getElem?_eq_some_iff.mp hu).1
      have hentry : s.entry this (some i) = some c.linkedVariables[i] := by
        simp [entry, hc, hlt]
      simp only [hentry] at h
      cases h
      exact ⟨safe_append safe (by simp), hfresh, c, hc, hlt⟩
  · cases h
  · cases h

omit [DecidableEq ν] [ChannelAccess] in
/-- A command that spares the node and the command object moves the node. -/
theorem movedTo_of_spares {i : Nat} (hphase : s.phase = .write (some i)) {cmd : TclCommand}
    (hspares : Spares this s (.script cmd)) : ∃ j, s.world.movedTo this i cmd = some j := by
  cases cmd with
  | epicschannel name => exact ⟨i, rfl⟩
  | link name varname => exact ⟨i, rfl⟩
  | listlinks name => exact ⟨i, rfl⟩
  | delete name => exact ⟨i, by simp [World.movedTo, hspares i hphase]⟩
  | unlink name varname =>
    simp only [World.movedTo]
    cases hpos : s.world.erasedBy this name varname with
    | none => exact ⟨i, rfl⟩
    | some k =>
      have hne : k ≠ i := fun heq => hspares i hphase (heq ▸ hpos)
      exact ⟨_, if_neg hne⟩

/-- **Step lemma**: the loop, and scripts that spare what it uses, keep the
invariant. -/
theorem inv_step (inv : Inv this s) (hspares : Spares this s a)
    (h : s.step resolve this a = some s') : Inv this s' := by
  cases a with
  | advance =>
    simp only [step] at h
    split at h
    · exact inv_advance inv h
    · cases h
  | script cmd =>
    simp only [step] at h
    split at h
    · next i hphase =>
      cases h
      have sound := inv.sound
      rw [hphase] at sound
      cases i with
      | none => cases sound
      | some i =>
        obtain ⟨u, hentry⟩ := sound
        obtain ⟨j, hmoved⟩ := movedTo_of_spares hphase hspares
        refine ⟨inv.safe, ?_⟩
        rw [Option.bind_some, hmoved]
        exact ⟨u, run_hasEntry hentry cmd hmoved⟩
    · cases h
  | linkBegin name varname =>
    simp only [step] at h
    split at h
    · next i id hphase _ =>
      split at h
      · next d hd =>
        split at h
        · cases h
          have sound := inv.sound
          obtain ⟨hobj, hnext⟩ := linkWrite_frame resolve id d varname s.world
          refine ⟨inv.safe, ?_⟩
          rw [hphase] at sound ⊢
          cases i with
          | none => cases sound
          | some i => exact sound.imp fun u hentry => hasEntry_congr hentry hobj hnext
        · cases h
      · cases h
    · cases h
  | linkEnd =>
    simp only [step] at h
    split at h
    · next i id varname rest hphase _ =>
      split at h
      · next d hd =>
        cases h
        have sound := inv.sound
        refine ⟨inv.safe, ?_⟩
        rw [hphase] at sound ⊢
        cases i with
        | none => cases sound
        | some i => exact sound.imp fun u hentry => linkAppend_hasEntry hentry hd varname
      · cases h
    · cases h

/-! What happens after a script that does not spare the node. -/

omit [DecidableEq ν] [ChannelAccess] in
/-- It loses the node. -/
theorem movedTo_of_not_spares {cmd : TclCommand} (h : ¬ Spares this s (.script cmd)) :
    ∃ i, s.phase = .write (some i) ∧ s.world.movedTo this i cmd = none := by
  cases cmd with
  | epicschannel name => exact absurd trivial h
  | link name varname => exact absurd trivial h
  | listlinks name => exact absurd trivial h
  | delete name =>
    simp only [Spares, not_forall, Bool.not_eq_false] at h
    obtain ⟨i, hphase, hdestroyed⟩ := h
    exact ⟨i, hphase, by simp [World.movedTo, hdestroyed]⟩
  | unlink name varname =>
    simp only [Spares, not_forall, not_not] at h
    obtain ⟨i, hphase, herased⟩ := h
    exact ⟨i, hphase, by simp [World.movedTo, herased]⟩

theorem lost_of_not_spares (hnot : ¬ Spares this s a) (h : s.step resolve this a = some s') :
    s'.phase = .write none := by
  cases a with
  | advance => exact absurd trivial hnot
  | linkBegin name varname => exact absurd trivial hnot
  | linkEnd => exact absurd trivial hnot
  | script cmd =>
    obtain ⟨i, hphase, hmoved⟩ := movedTo_of_not_spares hnot
    simp only [step, hphase, Option.bind_some, hmoved, Option.some.injEq] at h
    rw [← h]

/-- No script brings it back. -/
theorem lost_step (hlost : s.phase = .write none) (hscript : a ≠ .advance)
    (h : s.step resolve this a = some s') : s'.phase = .write none := by
  cases a with
  | advance => exact absurd rfl hscript
  | script cmd =>
    simp only [step, hlost, Option.bind_none, Option.some.injEq] at h
    rw [← h]
  | linkBegin name varname =>
    simp only [step, hlost] at h
    split at h
    · split at h
      · split at h
        · cases h
          rfl
        · cases h
      · cases h
    · cases h
  | linkEnd =>
    simp only [step, hlost] at h
    split at h
    · split at h
      · cases h
        rfl
      · cases h
    · cases h

/-- The loop then uses what is not there. -/
theorem unsafe_of_lost (hlost : s.phase = .write none)
    (h : s.step resolve this .advance = some s') : ¬ s'.Safe := by
  simp only [step, advance, hlost, entry, Option.bind_none] at h
  split at h
  · cases h
    intro safe
    have hvar := safe (.variable, false) (by simp)
    cases hvar
  · cases h

end Refresh

/-! ## Refreshing -/

/-- **Refreshing and scripts**: for every list of linked variables and
whatever the scripts do, as long as no script command erases the node that is
being refreshed or destroys its command object, everything the loop uses is
still there. After the first command that does so, the loop uses something
that is not there as soon as it goes on. -/
theorem refresh_safe {vars : ν → Option String} {acts : List Action}
    (reach : Run (World.step resolve) Always (World.initial vars) acts w)
    (alive : w.objects this = some c) {as : List RefreshAction} {s : Refresh ν}
    (h : Run (Refresh.step resolve this) (Refresh.Spares this) { world := w } as s) :
    s.Safe ∧
      ∀ a s₁ bs s₂ s₃, ¬ s.Spares this a → s.step resolve this a = some s₁ →
        Run (Refresh.step resolve this) (fun _ b => b ≠ .advance) s₁ bs s₂ →
        s₂.step resolve this .advance = some s₃ → ¬ s₃.Safe := by
  have start : Refresh.Inv this ({ world := w } : Refresh ν) :=
    ⟨by simp [Refresh.Safe], (WorldInv.reachable reach).fresh this c alive, c, alive, Nat.zero_le _⟩
  have inv := h.invariant _ start fun _ _ _ inv hok hstep => Refresh.inv_step inv hok hstep
  refine ⟨inv.safe, fun a s₁ bs s₂ s₃ hnot h₁ hscripts h₃ => ?_⟩
  have hlost : s₂.phase = .write none :=
    hscripts.invariant (fun t => t.phase = .write none) (Refresh.lost_of_not_spares hnot h₁)
      fun _ _ _ hlost hscript hstep => Refresh.lost_step hlost hscript hstep
  exact Refresh.unsafe_of_lost hlost h₃

end

section

attribute [local instance] CTCLObjectProcessor.global ChannelAccess.numbering

/-- The channel `a`, linked to the variables `x` and `y`. -/
def linkedToTwo : World String :=
  ((((World.initial fun _ => none).run id (.epicschannel "a")).2.run id (.link "a" "x")).2.run id
    (.link "a" "y")).2

theorem linkedToTwo_reachable :
    Run (World.step id) Always (World.initial fun _ : String => none)
      [.command (.epicschannel "a"), .command (.link "a" "x"), .command (.link "a" "y")]
      linkedToTwo := run_iff_runAll.mpr rfl

/-- A script that runs while `x` is written links a third variable and unlinks
the second. -/
theorem refresh_safe_two :
    ∃ s : Refresh String, s.Safe ∧ s.phase = .done ∧ s.touches.length = 13 := by
  have begun : Run (Refresh.step id 0) (Refresh.Spares 0) { world := linkedToTwo } _ _ :=
    .snoc (a := .script (.link "a" "z"))
      (.snoc (a := .advance) .nil (by exact trivial) rfl) (by exact trivial) rfl
  have unlinked : Run (Refresh.step id 0) (Refresh.Spares 0) { world := linkedToTwo } _ _ :=
    .snoc (a := .script (.unlink "a" "y")) begun (by intro i h; cases h; decide) rfl
  have finished : Run (Refresh.step id 0) (Refresh.Spares 0) { world := linkedToTwo } _ _ :=
    .snoc (a := .advance) (.snoc (a := .advance) (.snoc (a := .advance) (.snoc (a := .advance)
      unlinked (by exact trivial) rfl) (by exact trivial) rfl) (by exact trivial) rfl)
      (by exact trivial) rfl
  exact ⟨_, (refresh_safe linkedToTwo_reachable rfl finished).1, rfl, rfl⟩

/-- A script that runs while `x` is written unlinks `x`. -/
theorem unlink_in_trace :
    ∃ s : Refresh String,
      Run (Refresh.step id 0) Always { world := linkedToTwo }
        [.advance, .script (.unlink "a" "x"), .advance] s ∧ ¬ s.Safe := by
  have run : Run (Refresh.step id 0) Always { world := linkedToTwo }
      [.advance, .script (.unlink "a" "x"), .advance] _ := run_iff_runAll.mpr rfl
  refine ⟨_, run, fun safe => ?_⟩
  have hvar := safe (.variable, false) (by decide)
  cases hvar

end

/-! ## Without scripts -/

section

variable {ν : Type*} [DecidableEq ν] [CTCLObjectProcessor] [ChannelAccess] {resolve : String → ν}
  {this : CommandId} {w : World ν} {c : CTCLChannelCommand}

variable (resolve) in
/-- The rest of the loop, from its test on. -/
theorem refresh_rest (alive : w.objects this = some c) (n i : Nat)
    (hn : i + n = c.linkedVariables.length) (touches : List (Touch × Bool)) :
    ∃ s, runAll (Refresh.step resolve this) { world := w, phase := .test i, touches }
        (List.replicate (2 * n + 1) .advance) = some s ∧
      s.phase = .done ∧
      s.world = ((c.linkedVariables.drop i).map (·.pLinkedVar)).foldl
        (World.newEpicsValue resolve c.pChannel.getValue) w := by
  induction n generalizing w i touches with
  | zero =>
    have hend : c.linkedVariables.length ≤ i := by omega
    have hnone : c.linkedVariables[i]? = none := List.getElem?_eq_none hend
    simp [runAll, Refresh.step, Refresh.advance, alive, hnone, List.drop_eq_nil_of_le hend]
  | succ n ih =>
    have hi : i < c.linkedVariables.length := by omega
    have hcount : 2 * (n + 1) + 1 = 2 * n + 1 + 1 + 1 := by omega
    obtain ⟨hobj, -⟩ := beginValue_frame resolve c.pChannel.getValue
      c.linkedVariables[i].pLinkedVar w
    have alive' : (w.newEpicsValue resolve c.pChannel.getValue
        c.linkedVariables[i].pLinkedVar).objects this = some c := hobj ▸ alive
    obtain ⟨s, hrun, hdone, hworld⟩ := ih alive' (i + 1) (by omega)
      (touches ++ [(.command, true), (.node, true), (.command, true), (.variable, true)] ++
        [(.variable, true), (.node, true)])
    refine ⟨s, ?_, hdone, ?_⟩
    · rw [hcount, List.replicate_succ, List.replicate_succ]
      simp only [runAll, Refresh.step, Refresh.advance, alive, List.getElem?_eq_getElem hi,
        Refresh.entry, Option.bind_some, hobj, List.isEmpty_nil, if_true, Option.getD_some]
      exact hrun
    · rw [hworld, List.drop_eq_getElem_cons hi]
      rfl

/-- When no script runs, the loop is `UpdateLinkedVariable` as a whole. -/
theorem refresh_alone (alive : w.objects this = some c) :
    ∃ s, Run (Refresh.step resolve this) Always { world := w }
        (List.replicate (2 * c.linkedVariables.length + 1) .advance) s ∧
      s.phase = .done ∧ w.updateLinkedVariable resolve this = some s.world := by
  obtain ⟨s, hrun, hdone, hworld⟩ :=
    refresh_rest resolve alive c.linkedVariables.length 0 (Nat.zero_add _) []
  refine ⟨s, run_iff_runAll.mpr hrun, hdone, ?_⟩
  simp only [World.updateLinkedVariable, alive, hworld, List.drop_zero]

end

end EpicsTcl.Command
