/-
EpicsTcl.Widget.ChannelOwners — the objects that take channels when they are
made and give them back when they are destroyed: `epicsLabelWithUnits`
(`epicsLabelWithUnits.tcl`), `channelHistory` (`epicsStripChart.tcl`) and
`channelPairHistory` (`epicsgraph.tcl`).

Of their constructors and destructors the commands on channels are kept:
they alone touch the reference counts. Next to these objects there are other
clients, which run commands of their own, and whatever else happens to the
process.
-/
import EpicsTcl.Command.Holdings
import EpicsTcl.Library.Script

namespace EpicsTcl.Widget

open EpicsTcl.Channel EpicsTcl.Command EpicsTcl.Library

/-- An object, with the options that name its channels. -/
inductive ChannelOwner where
  | epicsLabelWithUnits (channel : String)
  | channelHistory (channel : String)
  | channelPairHistory (xchannel ychannel : String)
  deriving DecidableEq, Repr

namespace ChannelOwner

/-- The options that the constructor requires: it raises an error if one of
them is empty. -/
def channels : ChannelOwner → List String
  | epicsLabelWithUnits channel => [channel]
  | channelHistory channel => [channel]
  | channelPairHistory xchannel ychannel => [xchannel, ychannel]

/-- `${channel}.EGU`. -/
def egu (channel : String) : String := channel ++ ".EGU"

/-- `::controlwidget::$channel`. -/
def linkedVariable (channel : String) : String := "::controlwidget::" ++ channel

/-- What the constructor runs. -/
def constructor : ChannelOwner → List TclCommand
  | epicsLabelWithUnits channel =>
    [.epicschannel channel,
      .epicschannel (egu channel),
      .link channel (linkedVariable channel),
      .link (egu channel) (linkedVariable (egu channel))]
  | channelHistory channel => [.epicschannel channel]
  | channelPairHistory xchannel ychannel => [.epicschannel xchannel, .epicschannel ychannel]

/-- What the destructor runs. -/
def destructor : ChannelOwner → List TclCommand
  | epicsLabelWithUnits channel =>
    if channel = "" then []
    else
      [.unlink channel (linkedVariable channel),
        .unlink (egu channel) (linkedVariable (egu channel)),
        .delete channel,
        .delete (egu channel)]
  | channelHistory channel => [.delete channel]
  | channelPairHistory xchannel ychannel => [.delete xchannel, .delete ychannel]

/-- What the object holds while it lives: all that its constructor took. -/
def holdings (o : ChannelOwner) : Holdings := (o.constructor.map TclCommand.effect).sum

end ChannelOwner

/-! ## The process -/

section Process

variable {κ ν : Type} [DecidableEq κ] [DecidableEq ν] [CTCLObjectProcessor] [ChannelAccess]
  (resolve : String → ν)

/-- A command in a script: an error of the command stops the script. -/
def tclCommand (c : TclCommand) : Script (World ν) Unit Unit := fun w =>
  match w.run resolve c with
  | (.ok, w) => (.ok (), w)
  | (.error, w) => (.error (), w)

/-- The process, the objects that live, and the commands of other clients
that have succeeded, the last one first. -/
structure Owners (κ ν : Type) where
  world : World ν
  living : List ChannelOwner := []
  log : List (κ × TclCommand) := []

inductive OwnersEvent (κ : Type) where
  | construct (o : ChannelOwner)
  | destroy (o : ChannelOwner)
  | client (k : κ) (c : TclCommand)
  /-- Anything that is not a command. -/
  | environment (a : Command.Action)

/-- The channels that a step creates have plain names. -/
def OwnersEvent.PlainCreation : OwnersEvent κ → Prop
  | .construct o => ∀ c ∈ o.constructor, c.PlainCreation
  | .client _ c => c.PlainCreation
  | _ => True

instance (e : OwnersEvent κ) : Decidable e.PlainCreation := by
  cases e <;> unfold OwnersEvent.PlainCreation <;> infer_instance

namespace Owners

/-- One step: the construction of an object succeeds, or it is no step;
whatever a destructor meets, its object is gone. -/
def step (s : Owners κ ν) : OwnersEvent κ → Option (Owners κ ν)
  | .construct o =>
    if "" ∈ o.channels then none
    else
      match Script.forEach o.constructor (tclCommand resolve) s.world with
      | (.ok _, world) => some { s with world, living := o :: s.living }
      | (.error _, _) => none
  | .destroy o =>
    if o ∈ s.living then
      let world := (Script.forEach o.destructor (tclCommand resolve) s.world).2
      some { s with world, living := s.living.erase o }
    else none
  | .client k c =>
    match s.world.run resolve c with
    | (.ok, world) => some { s with world, log := (k, c) :: s.log }
    | (.error, world) => some { s with world }
  | .environment (.command _) => none
  | .environment a => (s.world.step resolve a).map fun world => { s with world }

/-- How often a client has run a command. -/
def times (s : Owners κ ν) (k : κ) (c : TclCommand) : Nat := s.log.count (k, c)

/-- A client that balances its commands: it deletes a channel at most as
often as it has created it, unlinks a variable at most as often as it has
linked it, and has a channel only linked while it holds it. -/
def MayRun (s : Owners κ ν) (k : κ) : TclCommand → Prop
  | .delete n =>
    s.times k (.delete n) < s.times k (.epicschannel n) ∧
      (s.times k (.delete n) + 1 = s.times k (.epicschannel n) →
        ∀ u, s.times k (.unlink n u) = s.times k (.link n u))
  | .link n _ => s.times k (.delete n) < s.times k (.epicschannel n)
  | .unlink n u => s.times k (.unlink n u) < s.times k (.link n u)
  | _ => True

/-- The other clients balance their commands. -/
def Balanced (s : Owners κ ν) : OwnersEvent κ → Prop
  | .client k c => s.MayRun k c
  | _ => True

/-- The process that the other clients alone would have left. -/
def alone (vars : ν → Option String) (log : List (κ × TclCommand)) : World ν :=
  log.foldr (fun e w => (w.run resolve e.2).2) (World.initial vars)

/-- Every object that lives has its channels, and a label its links. Once
there are none, the counters are what the other clients alone would have
left. -/
structure GivesBack (vars : ν → Option String) (s : Owners κ ν) : Prop where
  registered : ∀ o ∈ s.living, ∀ n, .epicschannel n ∈ o.constructor →
    (s.world.haveChannel n).isSome
  linked : ∀ o ∈ s.living, ∀ n u, .link n u ∈ o.constructor → (s.world.linkCount n u).isSome
  refcount : s.living = [] → ∀ n, (s.world.haveChannel n).map (·.refcount) =
    ((alone resolve vars s.log).haveChannel n).map (·.refcount)
  linkCount : s.living = [] → ∀ n u, s.world.linkCount n u =
    (alone resolve vars s.log).linkCount n u

/-! ## What is held -/

/-- What the other clients hold together. -/
def clientHoldings (log : List (κ × TclCommand)) : Holdings :=
  (log.map fun e => e.2.effect).sum

/-- What everybody holds together. -/
def holdings (s : Owners κ ν) : Holdings :=
  (s.living.map ChannelOwner.holdings).sum + clientHoldings s.log

/-- What is taken next does not take the references to a channel to 2^31,
or the links of a variable to 2^32. -/
def InRange (s : Owners κ ν) : OwnersEvent κ → Prop
  | .construct o => (s.holdings + o.holdings).InRange
  | .client _ c => (s.holdings + c.effect).InRange
  | _ => True

end Owners

end Process

end EpicsTcl.Widget
