/-
EpicsTcl.Widget.Leds — the lamps of `led.tcl`, of which an `epicsLed`
(`epicsLed.tcl`) is one that tracks the variable linked to its channel.

A lamp has a write trace on its `-variable`, which calls the instance, and
once asks for the value by `after 10`, which calls its path name. When it is
destroyed, its trace stays, and a call to an instance that is gone is an
error. Any number of lamps, and other commands, can be attached to a variable,
which is a scalar. What a trace is told is the name by which the variable was
written; `varTrace` takes it for a global one.

`global n` is the variable `::n`. `lit` and `recolored` are history: the state
that was drawn last, and whether a color has been configured since.
-/
import EpicsTcl.Library.Objects
import EpicsTcl.Library.TclValue
import EpicsTcl.Library.Traces

namespace EpicsTcl.Widget

open EpicsTcl.Library

structure LedOptions where
  on : String := "green"
  off : String := "black"
  variableName : String := ""
  deriving DecidableEq, Repr

/-- The color of a state. -/
def LedOptions.color (options : LedOptions) : Bool → String
  | true => options.on
  | false => options.off

structure Led where
  options : LedOptions
  /-- The color of the circle. -/
  fill : String
  lit : Bool := false
  recolored : Bool := false
  deriving DecidableEq, Repr

/-- A lamp that tracks nothing. -/
def Led.new (options : LedOptions) : Led :=
  { options := { options with variableName := "" }, fill := options.off }

/-- `setstate`. -/
def Led.setstate (value : Bool) (l : Led) : Led :=
  { l with fill := l.options.color value, lit := value, recolored := false }

/-- What is attached to a variable: a lamp, or a command of another script. -/
inductive WriteTrace where
  | led (serial : Nat)
  | other (id : Nat)
  deriving DecidableEq, Repr

structure LedProcess (ν : Type) where
  lamps : Objects Led := .empty
  vars : ν → Option String
  /-- The newest first. -/
  traces : ν → List WriteTrace := fun _ => []
  /-- The scripts of `after 10`: the widget and the name of the variable. -/
  after : List (String × String) := []

/-- `fails` says which of the other commands raise an error. -/
inductive LedAction (ν : Type) where
  | create (name : String) (options : LedOptions)
  | destroy (name : String)
  | configureVariable (name variableName : String)
  | configureColor (name : String) (options : LedOptions)
  /-- `on` or `off`. -/
  | switch (name : String) (value : Bool) (fails : Nat → Bool)
  /-- Whoever writes a variable, by which name. -/
  | write (x : ν) (name value : String) (fails : Nat → Bool)
  | unset (x : ν)
  | addTrace (x : ν) (id : Nat)
  | removeTrace (x : ν) (id : Nat)
  /-- The oldest script of `after 10` runs. -/
  | after

variable {ν : Type} [DecidableEq ν] (global : String → ν)

namespace LedProcess

/-- A lamp changes. -/
def put (serial : Nat) (l : Led) (s : LedProcess ν) : LedProcess ν :=
  { s with lamps := s.lamps.put serial l }

/-- `varTrace`: without a value it raises an error. -/
def varTrace (serial : Nat) (l : Led) (name : String) (s : LedProcess ν) : LedProcess ν × Bool :=
  match s.vars (global name) with
  | none => (s, false)
  | some value =>
    match truth value with
    | some b => (s.put serial (l.setstate b), true)
    | none => (s, true)

/-- A trace is called. -/
def callTrace (name : String) (fails : Nat → Bool) (t : WriteTrace) (s : LedProcess ν) :
    LedProcess ν × Bool :=
  match t with
  | .led serial =>
    match s.lamps.living serial with
    | some o => s.varTrace global serial o.state name
    | none => (s, false)
  | .other id => (s, !fails id)

/-- `set`, with the traces. -/
def write (x : ν) (name value : String) (fails : Nat → Bool) (s : LedProcess ν) : LedProcess ν :=
  callTraces (callTrace global name fails) (s.traces x)
    { s with vars := Function.update s.vars x (some value) }

/-- `trace add`. -/
def addTrace (x : ν) (t : WriteTrace) (s : LedProcess ν) : LedProcess ν :=
  { s with traces := Function.update s.traces x (t :: s.traces x) }

/-- `trace remove`. -/
def removeTrace (x : ν) (t : WriteTrace) (s : LedProcess ν) : LedProcess ν :=
  { s with traces := Function.update s.traces x ((s.traces x).erase t) }

/-- `onconfigure -variable`. -/
def configureVariable (serial : Nat) (o : Object Led) (name : String) (s : LedProcess ν) :
    LedProcess ν :=
  let options := o.state.options
  let s :=
    if options.variableName ≠ "" then s.removeTrace (global options.variableName) (.led serial)
    else s
  let s := s.addTrace (global name) (.led serial)
  let s := s.put serial { o.state with options := { options with variableName := name } }
  { s with after := s.after ++ [(o.name, name)] }

/-- The constructor; without `-variable` its handler is not called. (An empty
one that is given is configured at once.) -/
def create (name : String) (options : LedOptions) (s : LedProcess ν)
    (hfree : s.lamps.names name = none) : LedProcess ν :=
  let s₁ := { s with lamps := s.lamps.create name (.new options) hfree }
  if options.variableName ≠ "" then
    s₁.configureVariable global s.lamps.serial { name, state := .new options }
      options.variableName
  else s₁

/-- `on` and `off`. -/
def switch (serial : Nat) (l : Led) (value : Bool) (fails : Nat → Bool) (s : LedProcess ν) :
    LedProcess ν :=
  if l.options.variableName ≠ "" then
    s.write global (global l.options.variableName) ("::" ++ l.options.variableName)
      (if value then "1" else "0") fails
  else s.put serial (l.setstate value)

/-- One step. -/
def step (s : LedProcess ν) : LedAction ν → Option (LedProcess ν)
  | .create name options =>
    match hname : s.lamps.names name with
    | some _ => none
    | none => some (s.create global name options hname)
  | .destroy name =>
    (s.lamps.find name).map fun (serial, _) => { s with lamps := s.lamps.destroy serial }
  | .configureVariable name variableName =>
    (s.lamps.find name).map fun (serial, o) => s.configureVariable global serial o variableName
  | .configureColor name options =>
    (s.lamps.find name).map fun (serial, o) =>
      s.put serial { o.state with
        options := { options with variableName := o.state.options.variableName }
        recolored := true }
  | .switch name value fails =>
    (s.lamps.find name).map fun (serial, o) => s.switch global serial o.state value fails
  | .write x name value fails => some (s.write global x name value fails)
  | .unset x =>
    some { s with
      vars := Function.update s.vars x none
      traces := Function.update s.traces x [] }
  | .addTrace x id => some (s.addTrace x (.other id))
  | .removeTrace x id => some (s.removeTrace x (.other id))
  | .after =>
    match s.after with
    | [] => none
    | (name, variableName) :: after =>
      let s := { s with after }
      match s.lamps.find name with
      | some (serial, o) => some (s.varTrace global serial o.state variableName).1
      | none => some s

end LedProcess

end EpicsTcl.Widget
