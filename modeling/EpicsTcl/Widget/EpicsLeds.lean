/-
EpicsTcl.Widget.EpicsLeds — lamps on a channel (`epicsLed.tcl`): the
constructor of an `epicsLed` makes a lamp, links a variable to the channel and
lets the lamp track this variable.

The channel is a `Session`, the lamps are a `LedProcess`, and the variables
are the same: a step of the session makes its `assignments`, one after the
other, and each of them calls the traces. The interpreter does one thing at a
time, so what is done with the lamps needs a session that is idle. A lamp that
tracks a variable is switched by a script's write of this variable.
-/
import EpicsTcl.Command.RefreshTheorems
import EpicsTcl.Widget.LedTheorems

namespace EpicsTcl.Command

open EpicsTcl.Channel

/-- The calls that are left of what this thread is in the middle of. -/
def TclThread.left : TclThread → Nat
  | .idle => 0
  | .inLink => 1
  | .inUpdate rest => rest.length

namespace Session

variable {ν : Type*} [CTCLObjectProcessor] [ChannelAccess]

/-- What a step writes: names of variables, with their values. -/
def assignments (s : Session ν) : SessionAction → List (String × String)
  | .link varname =>
    match s.command.find varname with
    | some _ => []
    | none => [(varname, s.command.pChannel.getValue)]
  | .resume =>
    match s.thread with
    | .inUpdate (v :: _) => [(v.sVariable, s.command.pChannel.getValue)]
    | _ => []
  | .scriptWrite varname value => [(varname, value)]
  | .epicsUpdate args now true =>
    match s.command.pChannel.updateHandler args now with
    | (_, none) => []
    | (channel, some _) =>
      if s.haveChannel (getName s.command.name) then
        s.command.linkedVariables.map fun i => (i.pLinkedVar.sVariable, channel.getValue)
      else []
  | _ => []

/-- The steps that the interpreter's thread has left to do, if nothing happens. -/
def work (s : Session ν) : Nat :=
  s.events.length * (s.command.linkedVariables.length + 1) + s.thread.left

end Session

end EpicsTcl.Command

namespace EpicsTcl.Widget

open EpicsTcl.Channel EpicsTcl.Command EpicsTcl.Library

structure EpicsLeds (ν : Type) where
  session : Session ν
  leds : LedProcess ν

/-- `fails` as in `LedAction`. -/
inductive EpicsLedsAction (ν : Type) where
  | session (a : SessionAction) (fails : Nat → Bool)
  | leds (a : LedAction ν)

variable {ν : Type} [DecidableEq ν] [CTCLObjectProcessor] [ChannelAccess] (global : String → ν)
  (this : CommandId)

/-- Some writes, one after the other. -/
def LedProcess.assign (fails : Nat → Bool) (writes : List (String × String)) (s : LedProcess ν) :
    LedProcess ν :=
  writes.foldl (fun s p => s.write global (global p.1) p.1 p.2 fails) s

namespace EpicsLeds

/-- A new channel command, and no lamps. -/
def initial (name : String) (vars : ν → Option String) : EpicsLeds ν :=
  { session := Session.initial name vars, leds := { vars } }

/-- A step of the session, with the traces that it fires. -/
def sessionStep (a : SessionAction) (fails : Nat → Bool) (s : EpicsLeds ν) :
    Option (EpicsLeds ν) :=
  (s.session.step global this a).map fun session =>
    { session, leds := s.leds.assign global fails (s.session.assignments a) }

/-- `on` or `off`. -/
def switch (name : String) (value : Bool) (fails : Nat → Bool) (s : EpicsLeds ν) :
    Option (EpicsLeds ν) :=
  match s.leds.lamps.find name with
  | none => none
  | some (_, o) =>
    let n := o.state.options.variableName
    if n ≠ "" then
      s.sessionStep global this (.scriptWrite ("::" ++ n) (if value then "1" else "0")) fails
    else (s.leds.step global (.switch name value fails)).map fun leds => { s with leds }

/-- One step. -/
def step (s : EpicsLeds ν) : EpicsLedsAction ν → Option (EpicsLeds ν)
  | .session a fails => s.sessionStep global this a fails
  | .leds a =>
    if s.session.thread = .idle then
      match a with
      | .write .. | .unset _ => none
      | .switch name value fails => s.switch global this name value fails
      | a => (s.leds.step global a).map fun leds => { s with leds }
    else none

/-- As for the session and for the lamps: no update falls into the gap of
`link`, no other command on the variables fails, and a lamp that tracks a
variable goes on tracking. -/
def Fair (s : EpicsLeds ν) : EpicsLedsAction ν → Prop
  | .session a fails => s.session.NoGapUpdate a ∧ ∀ p ∈ s.session.assignments a,
    ∀ id, .other id ∈ s.leds.traces (global p.1) → fails id = false
  | .leds a => s.leds.Fair global a

/-- What the interpreter's thread still does by itself. -/
def Own (s : EpicsLeds ν) (a : EpicsLedsAction ν) : Prop :=
  s.Fair global a ∧ (a = .leds .after ∨
    ∃ fails, a = .session .dispatch fails ∨ a = .session .resume fails)

def work (s : EpicsLeds ν) : Nat := s.session.work + s.leds.after.length

/-- Nothing is running and nothing is on its way. -/
structure Quiet (s : EpicsLeds ν) : Prop where
  idle : s.session.thread = .idle
  events : s.session.events = []
  after : s.leds.after = []

end EpicsLeds

end EpicsTcl.Widget
