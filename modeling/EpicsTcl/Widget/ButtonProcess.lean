/-
EpicsTcl.Widget.ButtonProcess — an `epicsButton` and the channel that it
shows (`epicsButton.tcl`).

The state channel is a `Session`: its command object at the grain of the
channel's monitor, with other scripts that link variables to it, unlink them
and write them, and with the threads of Channel Access. The constructor of
the button links its variable to the channel, sets a write trace on the
variable and has `update` called once more after 10 ms. `update` asks the
channel for its value, which is one call under the monitor, and shows it.

When the interpreter's thread writes the variable, the trace calls `update`
before anything else that this thread does (`tracing`); while an update is
handled in this thread, the monitor is held and `update` runs at once. The
traces that the links set put the written value on the state channel.

`heard` and `called` are history: whether the channel has had a value since
it connected, and whether a script has called a method that changes what the
button shows, since `update` last showed a value. `sets` are the values that
have been put on the channel of the button (`-channel`), which need not be
the state channel.
-/
import EpicsTcl.Channel.Values
import EpicsTcl.Command.RefreshTheorems
import EpicsTcl.Widget.ButtonTheorems

namespace EpicsTcl.Widget

open EpicsTcl.Channel EpicsTcl.Command EpicsTcl.Library

/-- How far the constructor has come with its channel. -/
inductive ButtonStage where
  | before
  | linking
  | done
  deriving DecidableEq, Repr

structure ButtonProcess (ν : Type) where
  session : Session ν
  widget : EpicsButton
  stage : ButtonStage := .before
  tracing : Bool := false
  timer : Bool := false
  heard : Bool := false
  called : Bool := false
  /-- The channel of the button is connected, if it is not the state channel. -/
  controlled : Bool := false
  sets : List String := []

/-- What the button needs from around it: the color of its window, and how
`if` reads the list that `get` returns. -/
structure ButtonEnvironment where
  color : String
  nonzero : Nonzero
  listText : List String → String

inductive ButtonAction where
  | create
  | session (a : SessionAction)
  | trace
  | timer
  | press (which : OnOff)
  | call (m : ButtonMethod)
  /-- The channel of the button connects or disconnects. -/
  | control (connected : Bool)

variable {ν : Type} [DecidableEq ν] [CTCLObjectProcessor] [ChannelAccess] (resolve : String → ν)
  (this : CommandId) (env : ButtonEnvironment)

/-- The names of the variables that a step writes. -/
def Session.writes (s : Session ν) : SessionAction → List String
  | .link varname =>
    match s.command.find varname with
    | some _ => []
    | none => [varname]
  | .resume =>
    match s.thread with
    | .inUpdate (v :: _) => [v.sVariable]
    | _ => []
  | .scriptWrite varname _ => [varname]
  | _ => []

/-- The names by which the channel's command writes variables in a step. -/
def Session.refreshes (s : Session ν) : SessionAction → List String
  | .epicsUpdate args now true =>
    if (s.command.pChannel.updateHandler args now).2.isSome &&
        s.haveChannel (getName s.command.name) then
      s.command.linkedVariables.map (·.pLinkedVar.sVariable)
    else []
  | .scriptWrite _ _ => []
  | a => Session.writes s a

/-- The links to the variable that a name stands for. -/
def Session.namesOf (s : Session ν) (varname : String) : List String :=
  (s.command.linkedVariables.map (·.pLinkedVar.sVariable)).filter
    fun u => resolve u = resolve varname

/-- What the traces of the links assign to the channel. The command has the
trace of the name that it writes disabled. -/
def Session.assigns (s : Session ν) : SessionAction → List String
  | .scriptWrite varname value => (Session.namesOf resolve s varname).map fun _ => value
  | .epicsUpdate args now inTclThread =>
    (Session.refreshes s (.epicsUpdate args now inTclThread)).flatMap fun v =>
      ((Session.namesOf resolve s v).filter (· ≠ v)).map fun _ =>
        (s.command.pChannel.updateHandler args now).1.getValue
  | a => (Session.refreshes s a).flatMap fun v =>
      ((Session.namesOf resolve s v).filter (· ≠ v)).map fun _ => s.command.pChannel.getValue

/-- Steps of the threads of Channel Access. -/
def Session.outside : SessionAction → Bool
  | .connection _ => true
  | .epicsUpdate _ _ inTclThread => !inTclThread
  | _ => false

namespace ButtonProcess

/-- The name of the linked variable. -/
def variableName (s : ButtonProcess ν) : String := s.widget.variableName

/-- What `update` gets: `get` fails without a connection, and `if` fails
without a truth value. -/
def reading (s : ButtonProcess ν) : Option Bool :=
  match s.session.command.pChannel.getVector 0 with
  | .ok data => condition env.nonzero (env.listText data)
  | .error _ => none

/-- `update`. -/
def update (s : ButtonProcess ν) : ButtonProcess ν :=
  match s.reading env with
  | none => s
  | some b => { s with widget := s.widget.update env.color (some b), called := false }

/-- The variable is traced, and a step has written it. -/
def traced (names : List String) (s : ButtonProcess ν) : Bool :=
  decide (s.stage = .done) && names.any fun u => resolve u = resolve s.variableName

/-- What `heard` is after a step. -/
def hears (s : ButtonProcess ν) : SessionAction → Bool
  | .connection args =>
    match args.op with
    | .other => s.heard
    | _ => false
  | .epicsUpdate args _ _ =>
    if args.status = ecaNormal ∧ s.session.command.pChannel.pConverter.isSome then true else s.heard
  | _ => s.heard

/-- The button sets the channel that it shows. -/
def setsState (s : ButtonProcess ν) : Bool :=
  decide (s.widget.statechannel = s.widget.options.channel)

/-- The channel of the button is connected. -/
def connected (s : ButtonProcess ν) : Bool :=
  if s.setsState then s.session.command.pChannel.fConnected else s.controlled

/-- What a step of the session puts on the channel of the button. -/
def assigned (s : ButtonProcess ν) (a : SessionAction) : List String :=
  if s.setsState && s.session.command.pChannel.fConnected then Session.assigns resolve s.session a
  else []

/-- A step of the session, with the traces it fires. -/
def sessionStep (a : SessionAction) (s : ButtonProcess ν) : Option (ButtonProcess ν) :=
  (s.session.step resolve this a).map fun session =>
    let s' := { s with
      session
      heard := s.hears a
      tracing := s.tracing || s.traced resolve (Session.writes s.session a)
      sets := s.sets ++ s.assigned resolve a }
    match a with
    | .epicsUpdate _ _ true =>
      if s.traced resolve (Session.refreshes s.session a) then s'.update env else s'
    | .resume =>
      if s.stage = .linking then { s' with stage := .done, timer := true } else s'
    | _ => s'

/-- `onOn` or `onOff`: `set` puts nothing on a channel that is not
connected. -/
def click (script : Option ClickMethod) (s : ButtonProcess ν) : ButtonProcess ν :=
  match script with
  | none => s
  | some method =>
    if s.connected then { s with sets := s.sets ++ [s.widget.clicked method] } else s

/-- The interpreter can take something new from its event loop. -/
def idle (s : ButtonProcess ν) : Bool := decide (s.session.thread = .idle) && !s.tracing

/-- One step. -/
def step (s : ButtonProcess ν) : ButtonAction → Option (ButtonProcess ν)
  | .create =>
    if s.stage = .before ∧ s.idle then
      some { s with
        session := s.session.beginLink resolve this s.variableName
        stage := .linking
        sets := s.sets ++ s.assigned resolve (.link s.variableName) }
    else none
  | .session a =>
    if s.tracing ∧ ¬ Session.outside a then none else s.sessionStep resolve this env a
  | .trace => if s.tracing then some { s.update env with tracing := false } else none
  | .timer => if s.timer ∧ s.idle then some { s.update env with timer := false } else none
  | .press which =>
    if s.stage = .done ∧ s.idle then some (s.click (s.widget.button.press which)) else none
  | .call m =>
    if s.stage = .done ∧ s.idle then
      match s.widget.button.call env.color m with
      | (.ok script, button) =>
        some ({ s with
          widget := { s.widget with button }
          called := s.called || decide (m ≠ ButtonMethod.invoke) }.click script)
      | (.error _, _) => some s
    else none
  | .control connected => some { s with controlled := connected }

/-- The button before its constructor touches the channel, which may have
been in use. -/
def initial (name : String) (vars : ν → Option String) (widget : EpicsButton) :
    ButtonProcess ν :=
  { session := Session.initial name vars, widget }

/-- Other scripts unlink the button's variable only as often as they have
linked it. -/
def KeepsLink (s : ButtonProcess ν) : ButtonAction → Prop
  | .session (.unlink varname) => s.stage ≠ .before → varname = s.variableName →
    ∀ i, s.session.command.find varname = some i → i.pLinkedVar.dereference.referenceCount ≠ 0
  | _ => True

/-- Nothing is running and nothing is on its way. -/
structure Quiet (s : ButtonProcess ν) : Prop where
  made : s.stage = .done
  idle : s.session.thread = .idle
  events : s.session.events = []
  tracing : s.tracing = false
  timer : s.timer = false

end ButtonProcess

end EpicsTcl.Widget
