/-
EpicsTcl.Command.ChannelCommand — the Tcl side of the epics package:
`CTCLEpicsCommand` (the `epicschannel` command and the registry of
channels), `CTCLChannelCommand` (the command made for each channel) and
`CChannelVariable` (a Tcl variable linked to a channel).

`World ν` is the whole interpreter process: the registry, the heap of
command objects, the Tcl interpreter (variables, write traces, the event
queue) and the Channel Access library. Objects have an identity that is
never used again; a destroyed object is absent from the heap, and a call
on it has no next state (`none`), because in the code it is undefined.

`ν` is the type of global Tcl variables and `resolve` says which variable
a variable name denotes, so that two names may denote the same variable.

A `CChannelVariable` is known to Tcl by its address. At any time at most
one exists for a command object and a name (`link` looks the name up
first), so a trace records those two instead of an address.

The command word that names a channel reaches the command object made for
that name, which registers itself with the interpreter when it is
constructed and unregisters when it is destroyed. The error text that the
interpreter leaves for other words is left out.

The registry knows a channel by the word given to `epicschannel`. `Delete`,
the change events and the error texts take the name from `getName`, which
asks Tcl; `Plain` says of a name that the two are the same.
-/
import EpicsTcl.Channel.Channel
import EpicsTcl.Library.Glob
import Mathlib.Data.List.AList
import Mathlib.Data.List.Sort
import Mathlib.Logic.Function.Basic
import Mathlib.Data.String.Basic

namespace EpicsTcl.Command

open EpicsTcl.Channel EpicsTcl.Library

/-! ## The Tcl++ library -/

/-- `CTCLObjectProcessor`, the base class of the commands, which is not part
of this repository. `getName` is the name that Tcl has for the command that
was registered under a name (`Tcl_GetCommandName`): it has no namespace, so
that of `A::B` is `B`. -/
class CTCLObjectProcessor where
  getName : String → String

export CTCLObjectProcessor (getName)

/-- Tcl where no name has a namespace. -/
@[reducible] def CTCLObjectProcessor.global : CTCLObjectProcessor := ⟨id⟩

/-- Tcl where `A::B` is the only name with a namespace. -/
@[reducible] def CTCLObjectProcessor.nested : CTCLObjectProcessor :=
  ⟨fun name => if name = "A::B" then "B" else name⟩

/-- A name that the command keeps, and that is not the package's own
command, which a channel of that name replaces. -/
structure Plain [CTCLObjectProcessor] (name : String) : Prop where
  getName : getName name = name
  command : name ≠ "epicschannel"

instance [CTCLObjectProcessor] (name : String) : Decidable (Plain name) :=
  decidable_of_iff (getName name = name ∧ name ≠ "epicschannel")
    ⟨fun h => ⟨h.1, h.2⟩, fun h => ⟨h.getName, h.command⟩⟩

/-! ## Data -/

/-- The identity of a `CTCLChannelCommand`. -/
abbrev CommandId := Nat

/-- What a command procedure returns to Tcl. -/
inductive TclCode where
  | ok
  | error
  deriving DecidableEq, Repr

/-- The interpreter result: a text or a list. -/
inductive TclResult where
  | text (s : String)
  | list (l : List String)
  deriving DecidableEq, Repr

/-- `CTCLEpicsCommand::RefCountedChannel`. `refcount` is a 32-bit `int`. -/
structure RefCountedChannel where
  refcount : Int
  pChannel : CommandId
  deriving DecidableEq, Repr

/-- `s_refcount` after arithmetic: a 32-bit `int`. -/
def wrapInt (n : Int) : Int := Int.bmod n (2 ^ 32)

/-- `CChannelVariable`; `pChannel` is the command whose channel it is
linked to. `referenceCount` is an `unsigned int`. -/
structure CChannelVariable where
  sVariable : String
  pChannel : CommandId
  referenceCount : Nat := 1
  deriving DecidableEq, Repr

namespace CChannelVariable

/-- `Reference`. -/
def reference (v : CChannelVariable) : CChannelVariable :=
  { v with referenceCount := (v.referenceCount + 1) % 2 ^ 32 }

/-- `Dereference`, which returns the count it leaves. -/
def dereference (v : CChannelVariable) : CChannelVariable :=
  { v with referenceCount :=
      if v.referenceCount = 0 then 2 ^ 32 - 1 else v.referenceCount - 1 }

end CChannelVariable

/-- `CTCLChannelCommand::VariableInfo`. -/
structure VariableInfo where
  varname : String
  pLinkedVar : CChannelVariable
  deriving DecidableEq, Repr

/-- `CTCLChannelCommand`. -/
structure CTCLChannelCommand where
  name : String
  pChannel : CChannel
  linkedVariables : List VariableInfo := []
  deriving DecidableEq, Repr

/-- `CTCLChannelCommand::ChangeEvent`. -/
structure ChangeEvent where
  pChangedChannel : CommandId
  channelName : String
  deriving DecidableEq, Repr

/-- A write trace enabled on a variable by a `CChannelVariable`. -/
structure Trace (ν : Type*) where
  target : ν
  sVariable : String
  pChannel : CommandId
  deriving DecidableEq

/-- The Tcl interpreter. Traces are listed the latest first, which is the
order in which Tcl calls them; `events` is the event queue, its head the
next to be dispatched. -/
structure Interp (ν : Type*) where
  vars : ν → Option String
  traces : List (Trace ν) := []
  result : TclResult := .text ""
  events : List ChangeEvent := []

structure World (ν : Type*) where
  channelInfo : AList (fun _ : String => RefCountedChannel) := ∅
  objects : CommandId → Option CTCLChannelCommand := fun _ => none
  nextObject : CommandId := 0
  interp : Interp ν
  ca : CaClient := {}

variable {ν : Type*} [DecidableEq ν] [CTCLObjectProcessor] [ChannelAccess] (resolve : String → ν)

/-- No channel, no link, no event; the variables hold anything. -/
def World.initial (vars : ν → Option String) : World ν := { interp := { vars } }

def World.setResult (r : TclResult) (w : World ν) : World ν :=
  { w with interp := { w.interp with result := r } }

/-- Replace a command object. -/
def World.setObject (id : CommandId) (c : CTCLChannelCommand) (w : World ν) : World ν :=
  { w with objects := Function.update w.objects id (some c) }

/-! ## CChannelVariable -/

/-- The trace a `CChannelVariable` enables. -/
def CChannelVariable.trace (v : CChannelVariable) : Trace ν :=
  ⟨resolve v.sVariable, v.sVariable, v.pChannel⟩

namespace World

/-- `disableTracing`. -/
def disableTracing (v : CChannelVariable) (w : World ν) : World ν :=
  { w with interp := { w.interp with traces := w.interp.traces.erase (v.trace resolve) } }

/-- `enableTracing`: a trace still set is removed first. -/
def enableTracing (v : CChannelVariable) (w : World ν) : World ν :=
  { w with interp := { w.interp with
      traces := v.trace resolve :: w.interp.traces.erase (v.trace resolve) } }

/-- `CChannelVariable::operator()`, called by Tcl after a write: the
channel is assigned the variable's value. -/
def fireTrace (w : World ν) (t : Trace ν) : World ν :=
  match w.objects t.pChannel with
  | none => w
  | some c =>
    { w with ca := c.pChannel.assignString ((w.interp.vars (resolve t.sVariable)).getD "") w.ca }

/-- Write a variable (`Tcl_SetVar`): store the value, then call every
write trace enabled on the variable. -/
def setVar (target : ν) (value : String) (w : World ν) : World ν :=
  let w := { w with interp := { w.interp with
      vars := Function.update w.interp.vars target (some value) } }
  (w.interp.traces.filter (·.target = target)).foldl (fireTrace resolve) w

/-- `newEpicsValue`. -/
def newEpicsValue (value : String) (w : World ν) (v : CChannelVariable) : World ν :=
  ((w.disableTracing resolve v).setVar resolve (resolve v.sVariable) value).enableTracing resolve v

end World

/-! ## CTCLEpicsCommand -/

namespace World

/-- `haveChannel`. -/
def haveChannel (name : String) (w : World ν) : Option RefCountedChannel :=
  w.channelInfo.lookup name

/-- The constructor of `CTCLChannelCommand`. -/
def newChannelCommand (name : String) (w : World ν) : CommandId × World ν :=
  let (channel, ca) := (CChannel.new name).connect w.ca
  (w.nextObject, { w.setObject w.nextObject { name, pChannel := channel } with
    nextObject := w.nextObject + 1
    ca })

/-- The destructor of `CTCLChannelCommand`: the channel first, then every
linked variable, whose destructor disables its trace. -/
def destroyCommand (id : CommandId) (w : World ν) : World ν :=
  match w.objects id with
  | none => w
  | some c =>
    let w := { w with ca := c.pChannel.destroy w.ca }
    let w := c.linkedVariables.foldl (fun w i => w.disableTracing resolve i.pLinkedVar) w
    { w with objects := Function.update w.objects id none }

/-- `pExisting->s_refcount++`. -/
def referenceChannel (name : String) (w : World ν) : World ν :=
  match w.haveChannel name with
  | none => w
  | some info =>
    { w with channelInfo :=
        w.channelInfo.insert name { info with refcount := wrapInt (info.refcount + 1) } }

/-- Make a command for a channel that is not registered yet. -/
def createChannel (name : String) (w : World ν) : World ν :=
  let (pChannel, w) := w.newChannelCommand name
  { w with channelInfo := w.channelInfo.insert name ⟨0, pChannel⟩ }

/-- `CTCLEpicsCommand::operator()`. -/
def epicsCommand (objv : List String) (w : World ν) : TclCode × World ν :=
  match objv with
  | [_, channelName] =>
    let w :=
      match w.haveChannel channelName with
      | some _ => w
      | none => w.createChannel channelName
    (.ok, w.referenceChannel channelName)
  | _ =>
    (.ok, w.setResult (.text ("epicschannel -- incorrect number of parameters\n" ++ "Usage:\n" ++
      "   epicschannel name\n" ++
      "      name - the name of an epics channel or data record field\n")))

/-- `deleteChannel`. The code reads `s_pChannel` of an entry that it has just
erased; here it is the pointer that the entry held. -/
def deleteChannel (name : String) (w : World ν) : World ν :=
  match w.haveChannel name with
  | none => w
  | some info =>
    let refcount := wrapInt (info.refcount - 1)
    if refcount = 0 then
      ({ w with channelInfo := w.channelInfo.erase name }).destroyCommand resolve info.pChannel
    else
      { w with channelInfo := w.channelInfo.insert name { info with refcount } }

end World

/-! ## CTCLChannelCommand -/

namespace CTCLChannelCommand

/-- `find`: the first entry with that variable name. -/
def find (variableName : String) (c : CTCLChannelCommand) : Option VariableInfo :=
  c.linkedVariables.find? (·.varname = variableName)

/-- Replace the `CChannelVariable` of the entry that `find` found. -/
def updateLinked (variableName : String) (v : CChannelVariable) :
    List VariableInfo → List VariableInfo
  | [] => []
  | i :: l =>
    if i.varname = variableName then { i with pLinkedVar := v } :: l
    else i :: updateLinked variableName v l

/-- `Usage`. -/
def usage (c : CTCLChannelCommand) : String :=
  "Usage: \n" ++
  getName c.name ++ "  get ?count?\n" ++
  getName c.name ++ " set value_list ?string|int|real?\n" ++
  getName c.name ++ " link tclVariableName\n" ++
  getName c.name ++ " unlink tclVariableName\n" ++
  getName c.name ++ " listlinks ?pattern?\n" ++
  getName c.name ++ " updatetime\n" ++
  getName c.name ++ " delete\n" ++
  getName c.name ++ " values\n" ++
  getName c.name ++ " size\n"

end CTCLChannelCommand

/-- Insert into a `set<string>`. -/
def setInsert (s : List String) (x : String) : List String :=
  if x ∈ s then s else s.orderedInsert (· ≤ ·) x

namespace World

/-- `isLinked`: another registered channel has the variable in its list. -/
def isLinked (this : CommandId) (variableName : String) (w : World ν) : Bool :=
  w.channelInfo.entries.any fun e =>
    match w.objects e.2.pChannel with
    | none => false
    | some item => (item.find variableName).isSome && decide (e.2.pChannel ≠ this)

/-- The part of `Link` for a variable that has no link yet: a new
`CChannelVariable` is given the channel's value and appended. -/
def linkNew (this : CommandId) (c : CTCLChannelCommand) (tclVarName : String) (w : World ν) :
    World ν :=
  let v : CChannelVariable := { sVariable := tclVarName, pChannel := this }
  let w := w.enableTracing resolve v
  let w := w.newEpicsValue resolve c.pChannel.getValue v
  w.setObject this { c with linkedVariables := c.linkedVariables ++ [⟨tclVarName, v⟩] }

/-- The last statement of `Link` and `Unlink`: `m_pChannel->setSlot`. -/
def setSlot (this : CommandId) (handler : Option CommandId) (w : World ν) : World ν :=
  match w.objects this with
  | none => w
  | some c => w.setObject this { c with pChannel := c.pChannel.setSlot handler }

/-- `Link`. -/
def link (this : CommandId) (objv : List String) (w : World ν) : TclCode × World ν :=
  match w.objects this with
  | none => (.error, w)
  | some c =>
    match objv with
    | [_, _, tclVarName] =>
      if w.isLinked this tclVarName then
        (.error, w.setResult (.text (tclVarName ++ " is already linked to a different channel")))
      else
        let w :=
          match c.find tclVarName with
          | some i => w.setObject this { c with
              linkedVariables := CTCLChannelCommand.updateLinked tclVarName
                i.pLinkedVar.reference c.linkedVariables }
          | none => w.linkNew resolve this c tclVarName
        (.ok, w.setSlot this (some this))
    | _ =>
      (.error, w.setResult (.text (getName c.name ++ " - insufficient parameters\n" ++ c.usage)))

/-- The part of `Unlink` that drops the last link of a variable. -/
def unlinkLast (this : CommandId) (c : CTCLChannelCommand) (i : VariableInfo) (w : World ν) :
    World ν :=
  let w := w.disableTracing resolve i.pLinkedVar
  let rest := c.linkedVariables.eraseP (·.varname = i.varname)
  let w := w.setObject this { c with linkedVariables := rest }
  if rest = [] then w.setSlot this none else w

/-- `Unlink`. A wrong number of words leaves a message and returns
`TCL_OK`. -/
def unlink (this : CommandId) (objv : List String) (w : World ν) : TclCode × World ν :=
  match w.objects this with
  | none => (.error, w)
  | some c =>
    match objv with
    | [_, _, tclVarName] =>
      match c.find tclVarName with
      | some i =>
        let v := i.pLinkedVar.dereference
        if v.referenceCount = 0 then (.ok, w.unlinkLast resolve this c i)
        else
          (.ok, w.setObject this { c with
            linkedVariables := CTCLChannelCommand.updateLinked tclVarName v c.linkedVariables })
      | none =>
        (.error, w.setResult (.text ("The variable " ++ tclVarName ++ " is not linked to " ++
          getName c.name ++ "\n" ++ c.usage)))
    | _ =>
      (.ok,
        w.setResult (.text ("Invalid number of parameers for channel-name unlink\n" ++ c.usage)))

/-- The linked names that match a pattern, as `ListLinks` collects them. -/
def matchingLinks (pattern : String) (c : CTCLChannelCommand) : List String :=
  ((c.linkedVariables.map (·.varname)).filter (globMatch pattern)).foldl setInsert []

/-- `ListLinks`. -/
def listLinks (this : CommandId) (objv : List String) (w : World ν) : TclCode × World ν :=
  match w.objects this with
  | none => (.error, w)
  | some c =>
    match objv with
    | [_, _, pattern] => (.ok, w.setResult (.list (matchingLinks pattern c)))
    | _ :: _ :: _ :: _ =>
      (.error, w.setResult (.text ("Too many parametesr to linklist subcommand\n" ++ c.usage)))
    | _ => (.ok, w.setResult (.list (matchingLinks "*" c)))

/-- `UpdateLinkedVariable`. -/
def updateLinkedVariable (this : CommandId) (w : World ν) : Option (World ν) :=
  match w.objects this with
  | none => none
  | some c =>
    some ((c.linkedVariables.map (·.pLinkedVar)).foldl
      (newEpicsValue resolve c.pChannel.getValue) w)

/-- `update`, the procedure of a `ChangeEvent`. -/
def update (ev : ChangeEvent) (w : World ν) : Option (World ν) :=
  match w.haveChannel ev.channelName with
  | some _ => w.updateLinkedVariable resolve ev.pChangedChannel
  | none => some w

/-- `markChange`: in the interpreter's own thread the event is handled at
once, in any other it is queued. -/
def markChange (this : CommandId) (inTclThread : Bool) (w : World ν) : Option (World ν) :=
  match w.objects this with
  | none => none
  | some c =>
    if inTclThread then w.update resolve ⟨this, getName c.name⟩
    else some { w with interp := { w.interp with
      events := w.interp.events ++ [⟨this, getName c.name⟩] } }

end World

/-! ## What can happen -/

/-- The Tcl commands, with the words a script gives them. -/
inductive TclCommand where
  | epicschannel (name : String)
  | delete (name : String)
  | link (name varname : String)
  | unlink (name varname : String)
  | listlinks (name : String)
  deriving DecidableEq, Repr

/-- Everything that can happen to the process, in any order. -/
inductive Action where
  | command (c : TclCommand)
  | scriptWrite (varname value : String)
  | connection (id : CommandId) (args : ConnectionHandlerArgs)
  | epicsUpdate (id : CommandId) (args : EventHandlerArgs) (now : Int) (inTclThread : Bool)
  | dispatch

namespace World

/-- Run a subcommand of the channel command `name`; without such a
command Tcl reports an error. -/
def onChannel (name : String) (w : World ν)
    (f : CommandId → World ν → TclCode × World ν) : TclCode × World ν :=
  match w.haveChannel name with
  | none => (.error, w)
  | some info => f info.pChannel w

/-- Run a command to completion. -/
def run (w : World ν) : TclCommand → TclCode × World ν
  | .epicschannel name => w.epicsCommand ["epicschannel", name]
  | .delete name => w.onChannel name fun _ w => (.ok, w.deleteChannel resolve (getName name))
  | .link name varname => w.onChannel name fun id w => w.link resolve id [name, "link", varname]
  | .unlink name varname =>
    w.onChannel name fun id w => w.unlink resolve id [name, "unlink", varname]
  | .listlinks name => w.onChannel name fun id w => w.listLinks id [name, "listlinks"]

/-- One step of the process. -/
def step (w : World ν) : Action → Option (World ν)
  | .command c => some (w.run resolve c).2
  | .scriptWrite varname value => some (w.setVar resolve (resolve varname) value)
  | .connection id args =>
    match w.objects id with
    | none => none
    | some c =>
      let (channel, ca) := c.pChannel.stateHandler args w.ca
      some { w.setObject id { c with pChannel := channel } with ca }
  | .epicsUpdate id args now inTclThread =>
    match w.objects id with
    | none => none
    | some c =>
      let (channel, slot) := c.pChannel.updateHandler args now
      let w := w.setObject id { c with pChannel := channel }
      match slot with
      | none => some w
      | some this => w.markChange resolve this inTclThread
  | .dispatch =>
    match w.interp.events with
    | [] => none
    | ev :: rest => { w with interp := { w.interp with events := rest } }.update resolve ev

end World

end EpicsTcl.Command
