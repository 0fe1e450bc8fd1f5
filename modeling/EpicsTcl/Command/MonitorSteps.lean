/-
EpicsTcl.Command.MonitorSteps — one channel command seen at the grain of
its channel's monitor.

In `ChannelCommand` a command runs to its end. Here the thread of the
interpreter and the threads of Channel Access take turns at every call made
under the channel's monitor (`getValue`, `setSlot`, `Update` with its slot
function, `StateHandler`). A step of the interpreter's thread is one such
call with the code around it that only this thread can see (the list of
linked variables, the Tcl variables): `Link` is `beginLink`, up to and with
the copy of the value, then `endLink`, the call of `setSlot`; `Unlink`
makes at most one call, its last; `UpdateLinkedVariable` makes one call for
each variable (`refreshNext`).

`written` is history: the variables that a script wrote after their last
refresh. The command is registered throughout; `others` says whether another
channel is registered under the name that Tcl has for it, so that
`haveChannel` in `update` finds that name. Left out are `isLinked`, which
concerns the links of other channels, and the calls into Channel Access, so
that the identifier of a subscription is always the first one.
-/
import EpicsTcl.Command.ChannelCommand

namespace EpicsTcl.Command

open EpicsTcl.Channel EpicsTcl.Library

/-- What the thread of the interpreter is in the middle of: nothing, `Link`
before its `setSlot`, or `UpdateLinkedVariable` with some variables left. -/
inductive TclThread where
  | idle
  | inLink
  | inUpdate (rest : List CChannelVariable)
  deriving DecidableEq, Repr

/-- A command object, the Tcl variables, the events queued for it, and the
thread of the interpreter. -/
structure Session (ν : Type*) where
  command : CTCLChannelCommand
  vars : ν → Option String
  events : List ChangeEvent := []
  thread : TclThread := .idle
  written : ν → Bool := fun _ => false
  others : Bool := false

variable {ν : Type*} [DecidableEq ν] [CTCLObjectProcessor] [ChannelAccess] (resolve : String → ν)
  (this : CommandId)

namespace Session

/-- A new command, whose channel has called `Connect`. -/
def initial (name : String) (vars : ν → Option String) : Session ν :=
  { command := { name, pChannel := ((CChannel.new name).connect {}).1 }, vars }

/-- `newEpicsValue` of a variable of this channel. -/
def newEpicsValue (value : String) (v : CChannelVariable) (s : Session ν) : Session ν :=
  { s with
    vars := Function.update s.vars (resolve v.sVariable) (some value)
    written := Function.update s.written (resolve v.sVariable) false }

/-- `Link` up to its call of `setSlot`. -/
def beginLink (tclVarName : String) (s : Session ν) : Session ν :=
  match s.command.find tclVarName with
  | some i =>
    { s with
      command := { s.command with
        linkedVariables := CTCLChannelCommand.updateLinked tclVarName i.pLinkedVar.reference
          s.command.linkedVariables }
      thread := .inLink }
  | none =>
    let v : CChannelVariable := { sVariable := tclVarName, pChannel := this }
    let s := s.newEpicsValue resolve s.command.pChannel.getValue v
    { s with
      command := { s.command with
        linkedVariables := s.command.linkedVariables ++ [⟨tclVarName, v⟩] }
      thread := .inLink }

/-- The call of `setSlot` at the end of `Link`. -/
def endLink (s : Session ν) : Session ν :=
  { s with
    command := { s.command with pChannel := s.command.pChannel.setSlot (some this) }
    thread := .idle }

/-- `Unlink`. -/
def unlink (tclVarName : String) (s : Session ν) : Session ν :=
  match s.command.find tclVarName with
  | none => s
  | some i =>
    let v := i.pLinkedVar.dereference
    if v.referenceCount = 0 then
      let rest := s.command.linkedVariables.eraseP (·.varname = i.varname)
      let channel := if rest = [] then s.command.pChannel.setSlot none else s.command.pChannel
      { s with command := { s.command with linkedVariables := rest, pChannel := channel } }
    else
      { s with command := { s.command with
          linkedVariables := CTCLChannelCommand.updateLinked tclVarName v
            s.command.linkedVariables } }

/-- `haveChannel` of a name that an event carries: it is the name under which
the command is registered, or another channel has it. -/
def haveChannel (name : String) (s : Session ν) : Bool := decide (name = s.command.name) || s.others

/-- The loop of `UpdateLinkedVariable` with these variables left. -/
def updating : List CChannelVariable → TclThread
  | [] => .idle
  | v :: rest => .inUpdate (v :: rest)

/-- One pass through the loop of `UpdateLinkedVariable`. -/
def refreshNext (v : CChannelVariable) (rest : List CChannelVariable) (s : Session ν) :
    Session ν :=
  { s.newEpicsValue resolve s.command.pChannel.getValue v with thread := updating rest }

/-- All passes at once. -/
def updateLinkedVariable (s : Session ν) : Session ν :=
  (s.command.linkedVariables.map (·.pLinkedVar)).foldl
    (fun s v => s.newEpicsValue resolve s.command.pChannel.getValue v) s

/-- `update` as `markChange` calls it in the interpreter's own thread, with
the monitor held. -/
def update (name : String) (s : Session ν) : Session ν :=
  if s.haveChannel name then s.updateLinkedVariable resolve else s

/-- `Update` and its slot function `markChange`. -/
def epicsUpdate (args : EventHandlerArgs) (now : Int) (inTclThread : Bool) (s : Session ν) :
    Session ν :=
  let (channel, slot) := s.command.pChannel.updateHandler args now
  let s := { s with command := { s.command with pChannel := channel } }
  match slot with
  | none => s
  | some this =>
    if inTclThread then s.update resolve (getName s.command.name)
    else { s with events := s.events ++ [⟨this, getName s.command.name⟩] }

end Session

/-- What can happen: the interpreter's thread starts a command, an event
or a script write when it is idle, or makes the next call of what it is in
the middle of; Channel Access calls at any time, in a thread of its own or,
when it is idle, in the interpreter's. `registry` is a command that creates or
deletes other channels. -/
inductive SessionAction where
  | link (varname : String)
  | unlink (varname : String)
  | dispatch
  | resume
  | scriptWrite (varname value : String)
  | registry (others : Bool)
  | connection (args : ConnectionHandlerArgs)
  | epicsUpdate (args : EventHandlerArgs) (now : Int) (inTclThread : Bool)

namespace Session

/-- One step. -/
def step (s : Session ν) : SessionAction → Option (Session ν)
  | .link varname => if s.thread = .idle then some (s.beginLink resolve this varname) else none
  | .unlink varname => if s.thread = .idle then some (s.unlink varname) else none
  | .dispatch =>
    match s.thread, s.events with
    | .idle, ev :: events =>
      if s.haveChannel ev.channelName then
        some { s with events, thread := updating (s.command.linkedVariables.map (·.pLinkedVar)) }
      else some { s with events }
    | _, _ => none
  | .resume =>
    match s.thread with
    | .inLink => some (s.endLink this)
    | .inUpdate (v :: rest) => some (s.refreshNext resolve v rest)
    | _ => none
  | .scriptWrite varname value =>
    if s.thread = .idle then
      some { s with
        vars := Function.update s.vars (resolve varname) (some value)
        written := Function.update s.written (resolve varname) true }
    else none
  | .registry others => if s.thread = .idle then some { s with others } else none
  | .connection args =>
    some { s with command := { s.command with
      pChannel := (s.command.pChannel.stateHandler args {}).1 } }
  | .epicsUpdate args now inTclThread =>
    if inTclThread = true ∧ s.thread ≠ .idle then none
    else some (s.epicsUpdate resolve args now inTclThread)

end Session

end EpicsTcl.Command
