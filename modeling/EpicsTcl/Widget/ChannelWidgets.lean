/-
EpicsTcl.Widget.ChannelWidgets — the widgets that show and control channels,
next to the objects of `ChannelOwners`: `epicsLabel`, `epicsLed`,
`epicsButton`, `epicsCommandButton`, `epicsTypeNGo`, `epicsEnumeratedControl`,
`epicsPullDown`, `bcmMeter`, `epicsMeter` and `epicsSpinbox`.

Of their constructors the commands on channels are kept, as in
`ChannelOwners`. Two widgets leave their channels to an `epicsLabelWithUnits`
in them, whose destructor runs when the widget is destroyed. The others have
no destructor that gives a channel back; what the constructor has taken before
an error stays taken, too.

`taken` is history: the commands that the constructors of those widgets have
run with success.
-/
import EpicsTcl.Widget.ChannelOwners

namespace EpicsTcl.Widget

open EpicsTcl.Channel EpicsTcl.Command EpicsTcl.Library

/-- A widget, with the options that name its channels. -/
inductive ChannelWidget where
  /-- An object with a destructor. -/
  | owner (o : ChannelOwner)
  | epicsLabel (channel : String)
  | epicsLed (channel : String)
  | epicsButton (channel statechannel : String)
  | epicsCommandButton (channel : String)
  | epicsTypeNGo (channel : String)
  | epicsEnumeratedControl (channel : String)
  /-- `selfns` is the namespace of the instance. -/
  | epicsPullDown (channel selfns : String)
  | bcmMeter (channel : String)
  | epicsMeter (channel : String)
  | epicsSpinbox (channel : String)
  deriving DecidableEq, Repr

namespace ChannelWidget

open ChannelOwner (linkedVariable egu)

/-- The options that the constructor requires. -/
def channels : ChannelWidget → List String
  | owner o => o.channels
  | epicsLabel channel => [channel]
  | epicsLed channel => [channel]
  | epicsButton channel _ => [channel]
  | epicsCommandButton channel => [channel]
  | epicsTypeNGo channel => [channel]
  | epicsEnumeratedControl channel => [channel]
  | epicsPullDown channel _ => [channel]
  | bcmMeter channel => [channel]
  | epicsMeter channel => [channel]
  | epicsSpinbox channel => [channel]

/-- The part of the widget that gives its channels back. -/
def component : ChannelWidget → Option ChannelOwner
  | owner o => some o
  | epicsMeter channel => some (.epicsLabelWithUnits channel)
  | epicsSpinbox channel => some (.epicsLabelWithUnits channel)
  | _ => none

/-- A channel and its variable. -/
def linked (channel : String) : List TclCommand :=
  [.epicschannel channel, .link channel (linkedVariable channel)]

/-- `$channel.SETV`, except for a modicon. -/
def preloaded (channel : String) : List TclCommand :=
  if channel.toList.take 2 = "P#".toList then [] else [.epicschannel (channel ++ ".SETV")]

/-- What the constructor itself runs. -/
def constructor : ChannelWidget → List TclCommand
  | epicsLabel channel => linked channel
  | epicsLed channel => linked channel
  | epicsButton channel statechannel =>
    let statechannel := if statechannel = "" then channel else statechannel
    [.epicschannel channel] ++
      (if statechannel = channel then [] else [.epicschannel statechannel]) ++
      [.link statechannel (linkedVariable statechannel)]
  | epicsCommandButton channel => [.epicschannel channel]
  | epicsTypeNGo channel => linked channel ++ preloaded channel
  | epicsEnumeratedControl channel => linked channel ++ preloaded channel
  | epicsPullDown channel selfns =>
    [.epicschannel channel, .link channel (selfns ++ "::channelValue")]
  | bcmMeter channel =>
    [.epicschannel channel,
      .epicschannel (egu channel),
      .epicschannel (channel ++ ".MRNG"),
      .epicschannel (channel ++ ".MSRN"),
      .epicschannel (channel ++ ".MRRN"),
      .link channel (linkedVariable channel),
      .link (egu channel) (linkedVariable (egu channel)),
      .link (channel ++ ".MRNG") (linkedVariable (channel ++ ".MRNG"))]
  | _ => []

/-- The commands on channels of a construction. -/
def commands (w : ChannelWidget) : List TclCommand :=
  match w.component with
  | some o => o.constructor
  | none => w.constructor

/-- What a construction that succeeds takes. -/
def holdings (w : ChannelWidget) : Holdings :=
  match w.component with
  | some o => o.holdings
  | none => (w.constructor.map TclCommand.effect).sum

end ChannelWidget

/-! ## The process -/

section Process

variable {κ ν : Type} [DecidableEq κ] [DecidableEq ν] [CTCLObjectProcessor] [ChannelAccess]
variable (resolve : String → ν)

/-- The process, the widgets that live, the commands of other clients that
have succeeded, and what the constructors have taken. -/
structure Widgets (κ ν : Type) where
  world : World ν
  living : List ChannelWidget := []
  log : List (κ × TclCommand) := []
  taken : List TclCommand := []

inductive WidgetsEvent (κ : Type) where
  | construct (w : ChannelWidget)
  /-- A constructor that comes to so many of its commands before another
  command of it fails. -/
  | fail (w : ChannelWidget) (reached : Nat)
  | destroy (w : ChannelWidget)
  | client (k : κ) (c : TclCommand)
  /-- Anything that is not a command. -/
  | environment (a : Command.Action)

/-- The channels that a step creates have plain names. -/
def WidgetsEvent.PlainCreation : WidgetsEvent κ → Prop
  | .construct w | .fail w _ => ∀ c ∈ w.commands, c.PlainCreation
  | .client _ c => c.PlainCreation
  | _ => True

instance (e : WidgetsEvent κ) : Decidable e.PlainCreation := by
  cases e <;> unfold WidgetsEvent.PlainCreation <;> infer_instance

namespace Widgets

/-- A command of a constructor that nothing will take back. -/
def take (c : TclCommand) : Script (Widgets κ ν) Unit Unit := fun s =>
  match s.world.run resolve c with
  | (.ok, world) => (.ok (), { s with world, taken := c :: s.taken })
  | (.error, world) => (.error (), { s with world })

/-- One step. The construction of an object with a destructor succeeds, or it
is no step. -/
def step (s : Widgets κ ν) : WidgetsEvent κ → Option (Widgets κ ν)
  | .construct w =>
    if "" ∈ w.channels then none
    else
      match w.component with
      | some o =>
        match Script.forEach o.constructor (tclCommand resolve) s.world with
        | (.ok _, world) => some { s with world, living := w :: s.living }
        | (.error _, _) => none
      | none =>
        match Script.forEach w.constructor (take resolve) s with
        | (.ok _, s) => some { s with living := w :: s.living }
        | (.error _, s) => some s
  | .fail w reached =>
    if "" ∈ w.channels ∨ w.component.isSome then none
    else some (Script.forEach (w.constructor.take reached) (take resolve) s).2
  | .destroy w =>
    if w ∈ s.living then
      match w.component with
      | some o =>
        let world := (Script.forEach o.destructor (tclCommand resolve) s.world).2
        some { s with world, living := s.living.erase w }
      | none => some { s with living := s.living.erase w }
    else none
  | .client k c =>
    match s.world.run resolve c with
    | (.ok, world) => some { s with world, log := (k, c) :: s.log }
    | (.error, world) => some { s with world }
  | .environment (.command _) => none
  | .environment a => (s.world.step resolve a).map fun world => { s with world }

/-- How often a client has run a command. -/
def times (s : Widgets κ ν) (k : κ) (c : TclCommand) : Nat := s.log.count (k, c)

/-- The other clients balance their commands, as among `Owners`. -/
def Balanced (s : Widgets κ ν) : WidgetsEvent κ → Prop
  | .client k (.delete n) =>
    s.times k (.delete n) < s.times k (.epicschannel n) ∧
      (s.times k (.delete n) + 1 = s.times k (.epicschannel n) →
        ∀ u, s.times k (.unlink n u) = s.times k (.link n u))
  | .client k (.link n _) => s.times k (.delete n) < s.times k (.epicschannel n)
  | .client k (.unlink n u) => s.times k (.unlink n u) < s.times k (.link n u)
  | _ => True

/-- The objects that will give back what they have. -/
def owners (s : Widgets κ ν) : List ChannelOwner := s.living.filterMap (·.component)

/-- What somebody can give back. -/
def held (s : Widgets κ ν) : Holdings :=
  (s.owners.map ChannelOwner.holdings).sum + Owners.clientHoldings s.log

/-- What the counters count. -/
def holdings (s : Widgets κ ν) : Holdings := s.held + (s.taken.map TclCommand.effect).sum

/-- The counters can count what is taken next. -/
def InRange (s : Widgets κ ν) : WidgetsEvent κ → Prop
  | .construct w | .fail w _ => (s.holdings + w.holdings).InRange
  | .client _ c => (s.holdings + c.effect).InRange
  | _ => True

end Widgets

end Process

end EpicsTcl.Widget
