/-
EpicsTcl.Widget.TypeNGo — the entry with a button of `typeNGo.tcl`, and
`epicsTypeNGo` (`epicsTypeNGo.tcl`), which sets a channel with it.

The scripts of `-validate` and `-command` are run by `eval`. While one of them
runs, anything can happen: it may call the methods of the widget, press the
button again or enter the event loop, where the user types or leaves the
entry. So a script that runs is a frame, with the text that has been put in
for `%V`; what it returns, or that it raises an error, is an action, and so is
everything that happens before.

`accepted`, `commands` and `assigned` are history: the texts that the
validation has let through, those that have been given to the command, and the
values of `Set`.
-/
import EpicsTcl.Library.TclList
import EpicsTcl.Widget.Buttons

namespace EpicsTcl.Widget

open EpicsTcl.Library

/-- The options that `onClick` reads. -/
structure TypeNGoOptions where
  command : String := ""
  validate : String := ""
  deriving DecidableEq, Repr

structure TypeNGo where
  options : TypeNGoOptions
  /-- The contents of `$win.entry`. -/
  entry : String := ""
  lastValue : String := ""
  deriving DecidableEq, Repr

/-- An `onClick` that waits for a script, with the text in it. -/
inductive Dispatch where
  | validate (value : String)
  | command (value : String)
  deriving DecidableEq, Repr

namespace TypeNGo

/-- `Get`. -/
def get (w : TypeNGo) : String := w.entry

/-- `Set`. -/
def set (value : String) (w : TypeNGo) : TypeNGo := { w with entry := value, lastValue := value }

/-- `restoreLast`. -/
def restoreLast (w : TypeNGo) : TypeNGo := w.set w.lastValue

end TypeNGo

/-! ## The widget and its scripts -/

structure TypeNGoProcess where
  widget : TypeNGo
  /-- The innermost script first. -/
  frames : List Dispatch := []
  accepted : List String := []
  commands : List String := []
  assigned : List String := []
  deriving DecidableEq, Repr

inductive TypeNGoAction where
  /-- The user changes the text of the entry. -/
  | type (text : String)
  | focusOut
  | set (value : String)
  /-- The button, `<Return>`, or `Invoke`. -/
  | invoke
  /-- The innermost script returns. -/
  | returns (result : String)
  /-- The innermost script raises an error, and `onClick` with it. -/
  | raises
  deriving DecidableEq, Repr

namespace TypeNGoProcess

/-- The end of `onClick`. -/
def commit (s : TypeNGoProcess) : TypeNGoProcess :=
  { s with widget := { s.widget with lastValue := s.widget.get } }

/-- The part of `onClick` from `dispatch -command` on. -/
def dispatchCommand (s : TypeNGoProcess) : TypeNGoProcess :=
  if s.widget.options.command ≠ "" then
    { s with
      frames := .command s.widget.get :: s.frames
      commands := s.commands ++ [s.widget.get] }
  else s.commit

/-- `onClick`. -/
def onClick (s : TypeNGoProcess) : TypeNGoProcess :=
  if s.widget.options.validate ≠ "" then
    { s with frames := .validate s.widget.get :: s.frames }
  else s.dispatchCommand

/-- One step; `nonzero` is what `if` makes of numbers. -/
def step (nonzero : Nonzero) (s : TypeNGoProcess) : TypeNGoAction → Option TypeNGoProcess
  | .type text => some { s with widget := { s.widget with entry := text } }
  | .focusOut => some { s with widget := s.widget.restoreLast }
  | .set value => some { s with widget := s.widget.set value, assigned := s.assigned ++ [value] }
  | .invoke => some s.onClick
  | .returns result =>
    match s.frames with
    | [] => none
    | .validate value :: frames =>
      let s := { s with frames }
      match condition nonzero result with
      | some true => some { s with accepted := s.accepted ++ [value] }.dispatchCommand
      | some false => some { s with widget := s.widget.restoreLast }
      | none => some s
    | .command _ :: frames => some { s with frames }.commit
  | .raises =>
    match s.frames with
    | [] => none
    | _ :: frames => some { s with frames }

def initial (options : TypeNGoOptions) : TypeNGoProcess := { widget := { options } }

/-- Where the validation accepts a text, the entry still has it. -/
def Unchanged (nonzero : Nonzero) (s : TypeNGoProcess) : TypeNGoAction → Prop
  | .returns result =>
    match s.frames with
    | .validate value :: _ => condition nonzero result = some true → s.widget.get = value
    | _ => True
  | _ => True

/-- Where a command returns, the entry still has the text that it was given. -/
def Kept (s : TypeNGoProcess) : TypeNGoAction → Prop
  | .returns _ =>
    match s.frames with
    | .command value :: _ => s.widget.get = value
    | _ => True
  | _ => True

end TypeNGoProcess

/-! ## epicsTypeNGo -/

/-- The command of the channel. -/
inductive ChannelState where
  | connected
  | disconnected
  /-- A script has deleted the command. -/
  | deleted
  deriving DecidableEq, Repr

/-- A text that `set` can read as a list. -/
def IsList (text : String) : Bool := (splitList text).isSome

/-- `$channel set`: what is put, or an error. On a disconnected channel it
returns and puts nothing. -/
def ChannelState.set (value : String) : ChannelState → Option (List String)
  | connected => if IsList value then some [value] else none
  | disconnected => if IsList value then some [] else none
  | deleted => none

/-- How a text came to be the last value of the widget. -/
inductive Confirmed where
  | set (value : String)
  /-- `$channel set` has returned. -/
  | given (value : String)
  deriving DecidableEq, Repr

def Confirmed.value : Confirmed → String
  | set value => value
  | given value => value

/-- `epicsTypeNGo`: the `-command` of its `typeNGo` is its method `onChanged`,
unless the caller has given another one. `confirmed`, `calls` (with what the
channel was then) and `puts` are history. -/
structure EpicsTypeNGo where
  base : TypeNGoProcess
  /-- The caller has given no `-command`. -/
  own : Bool
  channel : ChannelState := .disconnected
  confirmed : List Confirmed := []
  calls : List (String × ChannelState) := []
  puts : List String := []
  deriving DecidableEq, Repr

inductive EpicsTypeNGoAction where
  | base (action : TypeNGoAction)
  | channel (state : ChannelState)
  deriving DecidableEq, Repr

namespace EpicsTypeNGo

/-- The options that the constructor gives to its `typeNGo`: the arguments of
the caller follow its own `-command`, and the last one counts. -/
def baseOptions (command : Option String) (validate : String) : TypeNGoOptions :=
  { command := command.getD "onChanged", validate }

def initial (command : Option String) (validate : String) : EpicsTypeNGo where
  base := .initial (baseOptions command validate)
  own := command.isNone

/-- `onChanged`, and the rest of the `onClick` that has called it. -/
def onChanged (s : EpicsTypeNGo) : EpicsTypeNGo :=
  match s.base.frames with
  | .command _ :: frames =>
    let newValue := s.base.widget.get
    let called := { s with calls := s.calls ++ [(newValue, s.channel)] }
    match s.channel.set newValue with
    | some put =>
      { called with
        base := { s.base with frames }.commit
        confirmed := s.confirmed ++ [.given newValue]
        puts := s.puts ++ put }
    | none => { called with base := { s.base with frames } }
  | _ => s

/-- `Set` confirms its value. -/
def recorded (confirmed : List Confirmed) : TypeNGoAction → List Confirmed
  | .set value => confirmed ++ [.set value]
  | _ => confirmed

/-- One step: nothing comes between `dispatch -command` and `onChanged`. -/
def step (nonzero : Nonzero) (s : EpicsTypeNGo) : EpicsTypeNGoAction → Option EpicsTypeNGo
  | .base a =>
    (s.base.step nonzero a).map fun base =>
      let stepped := { s with base, confirmed := recorded s.confirmed a }
      if s.own then stepped.onChanged else stepped
  | .channel state => some { s with channel := state }

end EpicsTypeNGo

end EpicsTcl.Widget
