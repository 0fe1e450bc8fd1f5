/-
EpicsTcl.Widget.Loaders — the widgets that ask for a first value every 100 ms
until there is one: `epicsTypeNGo` (`loadEntry`), `epicsEnumeratedControl`
(`updateRadio`) and `epicsSpinbox` (`getValue`).

Each of them gives its method to `after`, as `[mymethod …]`, which calls this
instance, or as `[list $self …]`, which calls whatever has this path name when
the time has come. Only `epicsTypeNGo` takes the call back when it is
destroyed. A call that reaches nothing is a background error.

What `get` returns is part of the action: `none` is an error. `loads` and
`errors` are history: the values that a loader has put into its widget, but
for the empty ones, and the calls that have failed.
-/
import EpicsTcl.Library.Objects

namespace EpicsTcl.Widget

open EpicsTcl.Library

inductive LoaderKind where
  | epicsTypeNGo
  | epicsEnumeratedControl
  | epicsSpinbox
  deriving DecidableEq, Repr

/-- What a script that waits in `after` calls. -/
inductive Target where
  | self (serial : Nat)
  | path (name : String)
  deriving DecidableEq, Repr

structure Loader where
  kind : LoaderKind
  channel : String
  /-- `timerId` of `epicsTypeNGo`; `none` is -1. -/
  timerId : Option Nat := none
  /-- `read` of `epicsSpinbox`. -/
  read : Bool := false
  /-- The entry, the radio button or the spinbox. -/
  shown : String
  loads : List String := []
  deriving DecidableEq, Repr

structure LoaderProcess where
  widgets : Objects Loader := .empty
  /-- The scripts that wait, by their identifiers. -/
  after : Nat → Option Target := fun _ => none
  nextId : Nat := 0
  errors : List Target := []

inductive LoaderAction where
  /-- `shown` is what the widget shows at first: for the radio buttons the
  value of the linked variable. -/
  | create (kind : LoaderKind) (name channel shown : String)
  | destroy (name : String)
  /-- The user, or a script, changes what the widget shows. -/
  | edit (name text : String)
  /-- A script of `after` runs. -/
  | fire (id : Nat) (reading : Option String)
  deriving DecidableEq, Repr

/-- Modicon points have no `SETV`. -/
def modicon (channel : String) : Bool := decide (channel.toList.take 2 = "P#".toList)

namespace Loader

/-- The widget asks for a value when it has been made. -/
def asks (l : Loader) : Bool :=
  match l.kind with
  | .epicsSpinbox => true
  | _ => !modicon l.channel

/-- The widget has got a value. -/
def load (value : String) (l : Loader) : Loader :=
  { l with shown := value, loads := l.loads ++ [value] }

end Loader

namespace LoaderProcess

/-- `after 100`. -/
def schedule (target : Target) (s : LoaderProcess) : LoaderProcess :=
  { s with after := Function.update s.after s.nextId (some target), nextId := s.nextId + 1 }

/-- Change an instance. -/
def put (serial : Nat) (l : Loader) (s : LoaderProcess) : LoaderProcess :=
  { s with widgets := s.widgets.put serial l }

/-- `after cancel`; a script that has run is no longer there. -/
def cancel (id : Nat) (s : LoaderProcess) : LoaderProcess :=
  { s with after := Function.update s.after id none }

/-- `loadEntry`. -/
def loadEntry (serial : Nat) (l : Loader) (reading : Option String) (s : LoaderProcess) :
    LoaderProcess :=
  match reading with
  | none | some "" =>
    (s.put serial { l with timerId := some s.nextId }).schedule (.self serial)
  | some value => s.put serial { l.load value with timerId := none }

/-- `updateRadio`. -/
def updateRadio (serial : Nat) (l : Loader) (reading : Option String) (s : LoaderProcess) :
    LoaderProcess :=
  match reading with
  | none | some "" => s.schedule (.self serial)
  | some value => s.put serial (l.load value)

/-- `getValue`. -/
def getValue (serial : Nat) (name : String) (l : Loader) (reading : Option String)
    (s : LoaderProcess) : LoaderProcess :=
  if l.read then s
  else
    match reading with
    | none => s.schedule (.path name)
    | some "" => (s.put serial { l with shown := "" }).schedule (.path name)
    | some value => s.put serial { l.load value with read := true }

/-- The loader of an instance. -/
def load (serial : Nat) (o : Object Loader) (reading : Option String) (s : LoaderProcess) :
    LoaderProcess :=
  match o.state.kind with
  | .epicsTypeNGo => s.loadEntry serial o.state reading
  | .epicsEnumeratedControl => s.updateRadio serial o.state reading
  | .epicsSpinbox => s.getValue serial o.name o.state reading

/-- The instance that a call reaches: by its path only `getValue` is called,
which the other widgets do not have. -/
def reached (s : LoaderProcess) : Target → Option (Nat × Object Loader)
  | .self serial => (s.widgets.living serial).map fun o => (serial, o)
  | .path name => (s.widgets.find name).filter fun p => decide (p.2.state.kind = .epicsSpinbox)

/-- The constructors, from their first `after` on. -/
def create (kind : LoaderKind) (name channel shown : String) (s : LoaderProcess)
    (hfree : s.widgets.names name = none) : LoaderProcess :=
  let l : Loader := { kind, channel, shown }
  if l.asks then
    let timerId := if kind = .epicsTypeNGo then some s.nextId else none
    let widgets := s.widgets.create name { l with timerId } hfree
    { s with widgets }.schedule (.self s.widgets.serial)
  else { s with widgets := s.widgets.create name l hfree }

/-- `destroy`; the destructor of `epicsTypeNGo` takes its call back. -/
def destroy (serial : Nat) (l : Loader) (s : LoaderProcess) : LoaderProcess :=
  let s := { s with widgets := s.widgets.destroy serial }
  match l.timerId with
  | some id => s.cancel id
  | none => s

/-- One step. -/
def step (s : LoaderProcess) : LoaderAction → Option LoaderProcess
  | .create kind name channel shown =>
    match hname : s.widgets.names name with
    | some _ => none
    | none => some (s.create kind name channel shown hname)
  | .destroy name => (s.widgets.find name).map fun (serial, o) => s.destroy serial o.state
  | .edit name text =>
    (s.widgets.find name).map fun (serial, o) => s.put serial { o.state with shown := text }
  | .fire id reading =>
    (s.after id).map fun target =>
      match s.reached target with
      | some (serial, o) => (s.cancel id).load serial o reading
      | none => { s.cancel id with errors := s.errors ++ [target] }

end LoaderProcess

end EpicsTcl.Widget
