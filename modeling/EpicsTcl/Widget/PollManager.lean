/-
EpicsTcl.Widget.PollManager — the snit type `pollManager`
(`pollmanager.tcl`), with the part of the event loop that concerns it.

`pending` are the timers that `after` has made and that have neither fired
nor been cancelled. What a script does when it is evaluated is not up to the
poll manager: it may call the methods of the object (`Call`), and it may
raise an error. A method that raises inside a script is either caught there,
or the script raises, too.

`history` is what happened, the latest first. Nothing reads it.
-/
import EpicsTcl.Library.Log
import EpicsTcl.Server.EpicsServer

namespace EpicsTcl.Widget

open EpicsTcl.Library EpicsTcl.Server

inductive PollError where
  /-- The `error` command. -/
  | script (message : String)
  | noSuchElement (array element : String)
  /-- An error of one of the scripts. -/
  | raised (id : String)
  deriving DecidableEq, Repr

/-- A call of a method. -/
inductive Call where
  | start
  | stop
  | add (script : String)
  | remove (id : String)
  deriving DecidableEq, Repr

/-- One evaluation of a script. -/
structure Evaluation where
  calls : List Call
  raises : Bool
  deriving DecidableEq, Repr

/-- A timer for `DispatchScripts`. -/
structure Timer where
  id : Nat
  ms : Int
  deriving DecidableEq, Repr

inductive PollEvent where
  | started
  | stopped
  | dispatched (id : String)
  | raised (id : String)
  deriving DecidableEq, Repr

structure PollManager where
  self : String
  period : Int := 1000
  afterId : Option Nat := none
  scripts : AList fun _ : String => String := ∅
  scriptSerial : Nat := 0
  pending : List Timer := []
  nextTimer : Nat := 0
  history : List PollEvent := []

namespace PollManager

abbrev Method := Script PollManager PollError

def record (e : PollEvent) : Method Unit := .modify fun s => { s with history := e :: s.history }

/-- `after $options(-period) [mymethod DispatchScripts]`. -/
def after : Method Nat := fun s =>
  (.ok s.nextTimer,
    { s with
      pending := s.pending ++ [⟨s.nextTimer, s.period⟩]
      nextTimer := s.nextTimer + 1 })

/-- `after cancel`. -/
def cancel (id : Nat) : Method Unit :=
  .modify fun s => { s with pending := s.pending.filter (·.id ≠ id) }

/-- `set afterId [after …]`. -/
def schedule : Method Unit := do
  let id ← after
  .modify fun s => { s with afterId := some id }

def start : Method Unit := do
  record .started
  let afterId ← .reads (·.afterId)
  match afterId with
  | none => schedule
  | some _ => pure ()

def stop : Method Unit := do
  record .stopped
  let afterId ← .reads (·.afterId)
  match afterId with
  | some id => do
    cancel id
    .modify fun s => { s with afterId := none }
  | none => pure ()

def add (script : String) : Method String := do
  .modify fun s => { s with scriptSerial := s.scriptSerial + 1 }
  let index ← .reads fun s => s.self ++ "_" ++ toString s.scriptSerial
  .modify fun s => { s with scripts := s.scripts.insert index script }
  pure index

def remove (id : String) : Method Unit := do
  let found ← .reads fun s => hasNames s.scripts id
  if found then do
    let _ ← .evaluates fun s =>
      match s.scripts.lookup id with
      | some script => .ok script
      | none => .error (.noSuchElement "scripts" id)
    .modify fun s => { s with scripts := s.scripts.erase id }
  else .raise (.script ("No script with the id " ++ id ++ " exists in this pollManager"))

def call : Call → Method Unit
  | .start => start
  | .stop => stop
  | .add script => do
    let _ ← add script
    pure ()
  | .remove id => remove id

/-- What a dispatch meets outside: the order of `array names`, and what each
script does in it. -/
structure Outside where
  order : List String → List String := id
  order_perm : ∀ l, (order l).Perm l := by exact List.Perm.refl
  evaluation : String → String → Evaluation

/-- `eval $script`. -/
def eval (id : String) (e : Evaluation) : Method Unit := do
  record (.dispatched id)
  .forEach e.calls fun c => do
    let _ ← .attempt (call c)
    pure ()
  if e.raises then do
    record (.raised id)
    .raise (.raised id)

/-- The body of the loop in `DispatchScripts`. -/
def dispatch (o : Outside) (index : String) : Method Unit := do
  let script ← .evaluates fun s =>
    match s.scripts.lookup index with
    | some script => .ok script
    | none => .error (.noSuchElement "scripts" index)
  eval index (o.evaluation index script)

def dispatchScripts (o : Outside) : Method Unit := do
  let names ← .reads fun s => o.order s.scripts.keys
  .forEach names (dispatch o)
  schedule

inductive Action where
  | call (c : Call)
  | fire (id : Nat) (o : Outside)

/-- A call from outside a dispatch, or a timer that fires. -/
def step (s : PollManager) : Action → Option PollManager
  | .call c => some (call c s).2
  | .fire id o =>
    if s.pending.any (·.id = id) then
      some (dispatchScripts o { s with pending := s.pending.filter (·.id ≠ id) }).2
    else none

end PollManager

end EpicsTcl.Widget
