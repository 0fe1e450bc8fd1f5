/-
EpicsTcl.Server.EpicsServer — `epicsServer.tcl`, the server that answers a
line of channel names with a line of values and units.

A `State` holds the script's global variables, the process variables (PVs)
that the epics package monitors for it, the sockets, and the history of
what happened, the newest event first. The history is only written; it is
what the theorems talk about.

The procedures are scripts (`Library.Script`): each returns or raises, and
what it did before raising stays done. A socket that can no longer be
written, the order of `array names`, and EPICS updates that arrive while a
variable is being linked are choices of the `Environment`, made anew for
every step. `csv::split` and `csv::join` are parameters.

What the epics package does for the server is modelled at the level of its
documentation: a PV has a value, a list of linked array elements and an
event queue in which every update of a linked PV is entered; `link` stores
the present value and then attaches the variable. An event carries the name
that Tcl has for the channel's command, and is ignored if no channel has this
name (`Config.getName`). Storing fires the server's trace. The package's own
traces, which send what a script writes back to EPICS, never fire here: the
server writes no linked element.

A `Socket` is one connection and is never used again. `gets` is modelled as
a whole line. A channel by the name of a command that the script runs
(`puts`, `close`) replaces the command, and what the procedures do then is not
that of their bodies: `keepsCommands` is about the requests that name no such
channel, `CommandsKept` about the states in which there is none.
-/
import EpicsTcl.Library.Glob
import EpicsTcl.Library.Script
import EpicsTcl.Library.Runs
import Mathlib.Data.List.AList

namespace EpicsTcl.Server

open EpicsTcl.Library

/-! ## Data -/

abbrev Socket := Nat

inductive SocketOp where
  | gets
  | puts
  | flush
  | close
  deriving DecidableEq, Repr

/-- The two arrays whose elements are linked to channels. -/
inductive Table where
  | values
  | units
  deriving DecidableEq, Repr

namespace Table

def other : Table → Table
  | .values => .units
  | .units => .values

def name : Table → String
  | .values => "values"
  | .units => "units"

/-- The PV whose value the element of a channel is linked to. -/
def pvName : Table → String → String
  | .values, channel => channel
  | .units, channel => channel ++ ".EGU"

end Table

/-- The texts an element of `knownChannels` can have: `""`, `1`, `2` and
`connected`. -/
inductive Known where
  | blank
  | one
  | two
  | connected
  deriving DecidableEq, Repr

/-- What `epicsUpdate` makes of it. -/
def Known.next : Known → Known
  | .blank => .one
  | .one => .two
  | .two => .connected
  | .connected => .connected

/-- An element of `pendingRequests`. -/
structure Request where
  socket : Socket
  startTime : Nat
  channels : List String
  deriving DecidableEq, Repr

inductive TclError where
  | noSuchElement (array element : String)
  | noSuchChannel (socket : Socket) (op : SocketOp)
  | io (socket : Socket) (op : SocketOp)
  | badLine (line : String)
  | invalidCommand (name : String)
  | alreadyLinked (varname : String)
  deriving DecidableEq, Repr

/-- A process variable as the epics package holds it. -/
structure PV where
  value : String := ""
  links : List (Table × String) := []
  deriving DecidableEq, Repr

/-- Which pass completed a request. -/
inductive Cause where
  | satisfied
  | timeout
  deriving DecidableEq, Repr

/-- The elements of a channel at the moment its request is completed. -/
structure Reading where
  channel : String
  value : Option String
  units : Option String
  deriving DecidableEq, Repr

structure Completion where
  index : Nat
  request : Request
  cause : Cause
  tick : Nat
  readings : List Reading
  fields : List String
  deriving DecidableEq, Repr

/-- What happened. `puts`, `flush` and `close` are recorded whether or not
they succeed. -/
inductive Event where
  | delivered (pv text : String)
  | queued (index : Nat) (request : Request)
  | completed (c : Completion)
  | puts (socket : Socket) (line : String) (ok : Bool)
  | flush (socket : Socket) (ok : Bool)
  | close (socket : Socket) (ok : Bool)
  deriving DecidableEq, Repr

structure State where
  tick : Nat := 1
  requestIndex : Nat := 0
  pendingRequests : AList (fun _ : Nat => Request) := ∅
  knownChannels : AList (fun _ : String => Known) := ∅
  values : AList (fun _ : String => String) := ∅
  units : AList (fun _ : String => String) := ∅
  pvs : AList (fun _ : String => PV) := ∅
  events : List String := []
  openSockets : List Socket := []
  readable : List Socket := []
  nextSocket : Socket := 0
  running : Bool := true
  history : List Event := []

/-- What the server is started with. -/
structure Config where
  split : String → Option (List String)
  join : List String → String
  timeout : Int
  /-- `Tcl_GetCommandName` of the command of a channel. -/
  getName : String → String
  /-- The names of the commands, of Tcl and its own, that the script runs. -/
  isCommand : String → Bool

/-- What is not up to the server in one step. `early` are the updates that
arrive before a PV's value is read for a variable, `gap` those between
that and the end of `link`. -/
structure Environment where
  order : List Nat → List Nat := id
  order_perm : ∀ l, (order l).Perm l := by exact List.Perm.refl
  socketFault : Socket → SocketOp → Bool := fun _ _ => false
  early : String → Table → List String := fun _ _ => []
  gap : String → Table → List String := fun _ _ => []

/-- A procedure of the script. -/
abbrev Proc := Script State TclError

/-! ## Arrays -/

/-- `[array names a pattern] ne ""`. -/
def hasNames {β : Type} (a : AList fun _ : String => β) (pattern : String) : Bool :=
  a.keys.any (globMatch pattern)

theorem hasNames_of_self {β : Type} {a : AList fun _ : String => β} {c : String}
    (hself : globMatch c c = true) (h : c ∈ a) : hasNames a c = true :=
  List.any_eq_true.mpr ⟨c, h, hself⟩

/-- `$name(key)`. -/
def element {κ β : Type} [DecidableEq κ] [ToString κ] (name : String) (a : AList fun _ : κ => β)
    (key : κ) : Except TclError β :=
  match a.lookup key with
  | some x => .ok x
  | none => .error (.noSuchElement name (toString key))

namespace State

def table (s : State) : Table → AList (fun _ : String => String)
  | .values => s.values
  | .units => s.units

/-- Store a text in an element. -/
def store (t : Table) (index text : String) (s : State) : State :=
  match t with
  | .values => { s with values := s.values.insert index text }
  | .units => { s with units := s.units.insert index text }

def record (e : Event) (s : State) : State := { s with history := e :: s.history }

end State

variable (cfg : Config) (env : Environment)

/-! ## Sockets -/

/-- `puts`, `flush` or `close` on a socket. A failing `close` closes, too. -/
def onSocket (op : SocketOp) (socket : Socket) (event : Bool → Event) : Proc Unit := fun s =>
  let known := decide (socket ∈ s.openSockets)
  let ok := known && !env.socketFault socket op
  let s' := s.record (event ok)
  let s' :=
    if op = .close then { s' with openSockets := s'.openSockets.filter (· ≠ socket) } else s'
  if ok then (.ok (), s')
  else (.error (if known then .io socket op else .noSuchChannel socket op), s')

def puts (socket : Socket) (line : String) : Proc Unit :=
  onSocket env .puts socket (.puts socket line)

def flush (socket : Socket) : Proc Unit := onSocket env .flush socket (.flush socket)

def close (socket : Socket) : Proc Unit := onSocket env .close socket (.close socket)

/-! ## Completing requests -/

namespace State

/-- The loop of `satisfyRequests` over the channels of a request. -/
def allThere (s : State) : List String → Except TclError Bool
  | [] => .ok true
  | channel :: channels =>
    if !hasNames s.values channel || !hasNames s.units channel then .ok false
    else do
      let known ← element "::knownChannels" s.knownChannels channel
      if known ≠ .connected then .ok false else s.allThere channels

/-- The two fields of one channel. -/
def channelFields (s : State) (channel : String) : Except TclError (List String) :=
  if !hasNames s.values channel || !hasNames s.units channel then .ok ["", ""]
  else do
    let value ← element "::values" s.values channel
    let unit ← element "::units" s.units channel
    return [value, unit]

/-- The loop of `completeRequest` over the channels of a request. -/
def replyFields (s : State) : List String → Except TclError (List String)
  | [] => .ok []
  | channel :: channels => do
    let two ← s.channelFields channel
    let result ← s.replyFields channels
    return two ++ result

def reading (s : State) (channel : String) : Reading :=
  ⟨channel, s.values.lookup channel, s.units.lookup channel⟩

end State

/-- `completeRequest`. The cause goes to the history only. -/
def completeRequest (cause : Cause) (index : Nat) : Proc Unit := do
  let request ← .evaluates fun s => element "::pendingRequests" s.pendingRequests index
  .modify fun s => { s with pendingRequests := s.pendingRequests.erase index }
  let result ← .evaluates fun s => s.replyFields request.channels
  .modify fun s => s.record
    (.completed ⟨index, request, cause, s.tick, request.channels.map s.reading, result⟩)
  puts env request.socket (cfg.join result)
  flush env request.socket
  close env request.socket

/-- The body of the loop in `satisfyRequests`. -/
def satisfyRequest (index : Nat) : Proc Unit := do
  let request ← .evaluates fun s => element "::pendingRequests" s.pendingRequests index
  let allThere ← .evaluates fun s => s.allThere request.channels
  if allThere then completeRequest cfg env .satisfied index

/-- `satisfyRequests`. -/
def satisfyRequests : Proc Unit := do
  let indices ← .reads fun s => env.order s.pendingRequests.keys
  .forEach indices (satisfyRequest cfg env)

/-- `$::tick - $startTime > $::timeout`. -/
def State.expired (cfg : Config) (s : State) (request : Request) : Bool :=
  decide ((s.tick : Int) - request.startTime > cfg.timeout)

/-- The body of the loop in `processTimeouts`. -/
def processTimeout (index : Nat) : Proc Unit := do
  let request ← .evaluates fun s => element "::pendingRequests" s.pendingRequests index
  let expired ← .reads fun s => s.expired cfg request
  if expired then completeRequest cfg env .timeout index

/-- `processTimeouts`. -/
def processTimeouts : Proc Unit := do
  let indices ← .reads fun s => env.order s.pendingRequests.keys
  .forEach indices (processTimeout cfg env)

/-! ## Channels -/

namespace State

/-- The `catch` of `epicsUpdate`: count an update of a channel. -/
def countUpdate (index : String) (s : State) : State :=
  if hasNames s.values index && hasNames s.units index then
    match s.knownChannels.lookup index with
    | some known => { s with knownChannels := s.knownChannels.insert index known.next }
    | none => s
  else s

/-- EPICS delivers a text for a PV: the channel holds it, and an event is
queued if variables are linked. -/
def deliver (name : String) (s : State) (text : String) : State :=
  match s.pvs.lookup name with
  | none => s
  | some pv =>
    let s := s.record (.delivered name text)
    { s with
      pvs := s.pvs.insert name { pv with value := text }
      events := if pv.links = [] then s.events else s.events ++ [name] }

/-- Another PV has the variable in its list. -/
def isLinked (name : String) (link : Table × String) (s : State) : Bool :=
  s.pvs.entries.any fun e => decide (link ∈ e.2.links) && decide (e.1 ≠ name)

def addLink (name : String) (link : Table × String) (s : State) : State :=
  match s.pvs.lookup name with
  | none => s
  | some pv => { s with pvs := s.pvs.insert name { pv with links := pv.links ++ [link] } }

/-- The variables linked to a PV. -/
def linksOf (name : String) (s : State) : List (Table × String) :=
  match s.pvs.lookup name with
  | some pv => pv.links
  | none => []

/-- A channel command for a PV, unless there is one. -/
def addPV (name : String) (s : State) : State :=
  if name ∈ s.pvs then s else { s with pvs := s.pvs.insert name {} }

/-- The value the package holds for a PV. -/
def pvValue (name : String) (s : State) : String :=
  match s.pvs.lookup name with
  | some pv => pv.value
  | none => ""

end State

/-- `epicsUpdate`. -/
def epicsUpdate (index : String) : Proc Unit := do
  .modify (State.countUpdate index)
  satisfyRequests cfg env

/-- The package gives a linked element the value of its PV; the trace runs,
and the package ignores its errors. -/
def newEpicsValue (name : String) (link : Table × String) : Proc Unit := do
  .modify fun s => (env.early name link.1).foldl (State.deliver name) s
  .modify fun s => s.store link.1 link.2 (s.pvValue name)
  let _ ← .attempt (epicsUpdate cfg env link.2)

/-- `epicschannel name`. -/
def epicschannel (name : String) : Proc Unit := .modify (State.addPV name)

/-- `name link table(index)`. -/
def link (name : String) (link : Table × String) : Proc Unit := do
  let links ← .evaluates fun s =>
    if name ∈ s.pvs then .ok (s.linksOf name) else .error (.invalidCommand name)
  let linked ← .reads (State.isLinked name link)
  if linked then .raise (.alreadyLinked (link.1.name ++ "(" ++ link.2 ++ ")"))
  else if link ∈ links then pure ()
  else
    newEpicsValue cfg env name link
    .modify fun s => (env.gap name link.1).foldl (State.deliver name) s
    .modify (State.addLink name link)

/-- The body of the loop in `monitorChannels`. -/
def monitorChannel (channel : String) : Proc Unit := do
  let known ← .reads fun s => hasNames s.knownChannels channel
  if known then pure ()
  else
    epicschannel channel
    epicschannel (channel ++ ".EGU")
    .modify fun s => { s with knownChannels := s.knownChannels.insert channel .blank }
    link cfg env channel (.values, channel)
    link cfg env (channel ++ ".EGU") (.units, channel)

/-- `monitorChannels`. -/
def monitorChannels (channelList : List String) : Proc Unit :=
  .forEach channelList (monitorChannel cfg env)

/-- `UpdateLinkedVariable`: every variable linked to the PV gets its value. -/
def updateLinkedVariables (name : String) : Proc Unit := do
  let links ← .reads (State.linksOf name)
  .forEach links (newEpicsValue cfg env name)

/-! ## Requests -/

/-- Enter a request in `pendingRequests`. -/
def State.enqueue (socket : Socket) (channels : List String) (s : State) : State :=
  let request : Request := ⟨socket, s.tick, channels⟩
  { s.record (.queued s.requestIndex request) with
    pendingRequests := s.pendingRequests.insert s.requestIndex request
    requestIndex := s.requestIndex + 1 }

/-- `readRequest` as far as the request is queued. -/
def queueRequest (socket : Socket) (line : String) : Proc Unit := do
  let request ← .evaluates fun _ =>
    match cfg.split line with
    | some channels => .ok channels
    | none => .error (.badLine line)
  monitorChannels cfg env request
  .modify (State.enqueue socket request)

/-- `fileevent $socket readable ""`. -/
def State.unreadable (socket : Socket) (s : State) : State :=
  { s with readable := s.readable.erase socket }

/-- `readRequest`, with the line that `gets` returns. -/
def readRequest (socket : Socket) (line : String) : Proc Unit := do
  -- a file event whose script raises loses its handler, so it is gone if `gets` raises, too
  .modify (State.unreadable socket)
  if env.socketFault socket .gets then .raise (.io socket .gets)
  else if line = "" then close env socket
  else
    let status ← .attempt do
      queueRequest cfg env socket line
      satisfyRequests cfg env
    match status with
    | .ok _ => pure ()
    | .error _ => close env socket

/-! ## What can happen -/

inductive Action where
  | connect
  | request (socket : Socket) (line : String)
  | deliver (pv text : String)
  | dispatch
  | tick
  deriving DecidableEq, Repr

namespace State

/-- The main loop has no `catch`: an error ends the server. -/
def afterTimeouts : Except TclError Unit × State → State
  | (.ok _, s) => s
  | (.error _, s) => { s with running := false }

/-- One step of the server, in the environment that comes with the action. -/
def step (cfg : Config) (s : State) (a : Environment × Action) : Option State :=
  if s.running then
    match a.2 with
    | .connect =>
      some { s with
        openSockets := s.nextSocket :: s.openSockets
        readable := s.nextSocket :: s.readable
        nextSocket := s.nextSocket + 1 }
    | .request socket line =>
      if socket ∈ s.readable then some (readRequest cfg a.1 socket line s).2 else none
    | .deliver pv text => if pv ∈ s.pvs then some (s.deliver pv text) else none
    | .dispatch =>
      match s.events with
      | [] => none
      | pv :: rest =>
        if cfg.getName pv ∈ s.pvs then
          some (updateLinkedVariables cfg a.1 pv { s with events := rest }).2
        else some { s with events := rest }
    | .tick => some (afterTimeouts (processTimeouts cfg a.1 { s with tick := s.tick + 1 }))
  else none

/-- The server when it enters its main loop: `ticker` has run once. -/
def initial : State := {}

/-- No channel has replaced a command. -/
def CommandsKept (cfg : Config) (s : State) : Prop := ∀ name ∈ s.pvs, cfg.isCommand name = false

end State

/-- A state in which no channel has replaced a command. -/
structure Intact (cfg : Config) where
  state : State
  commands : state.CommandsKept cfg

/-- No name of the request line is that of a command, and none becomes one
with `.EGU`. -/
def keepsCommands (cfg : Config) (a : Environment × Action) : Bool :=
  match a.2 with
  | .request _ line => ((cfg.split line).getD []).all fun channel =>
    !cfg.isCommand channel && !cfg.isCommand (channel ++ ".EGU")
  | _ => true

/-- The server with its default timeout, for lines that are one plain
channel name and fields without separators or quotes. -/
def plain : Config where
  split line := some [line]
  join fields := String.intercalate "," fields
  timeout := 10
  getName := id
  isCommand name := name ∈ ["after", "array", "break", "catch", "close", "completeRequest",
    "csv::join", "csv::split", "epicschannel", "epicsUpdate", "expr", "fconfigure", "fileevent",
    "flush", "foreach", "gets", "if", "incr", "lappend", "lindex", "list", "monitorChannels",
    "processConnection", "processTimeouts", "puts", "readRequest", "return", "satisfyRequests",
    "set", "ticker", "unset", "vwait", "while"]

/-- Nothing fails and nothing happens in between. -/
def calm : Environment := {}

end EpicsTcl.Server
