/-
EpicsTcl.Channel.ChannelList — the class `CChannelList` (`CChannelList.cpp`),
which owns the channels in it, and its two visitors, `CLookupVisitor`
(`CLookupVisitor.cpp`) and `CBuildChannelData` (`CBuildChannelData.cpp`).

`ChannelList.step` is a program with one such list: it pushes channels, calls
their member functions and lets visitors go through them, and at any time
Channel Access calls the handlers of a channel that has been asked for. The
destructor of the list takes a step for each channel that it deletes, and two
for a channel with units, because each of these deletions waits for events.
While it runs, the program does nothing else.

A channel is pushed before anything else is done with it; a program that calls
`Connect` first differs by the order of two calls that do not touch each other.
-/
import EpicsTcl.Channel.LifetimeTheorems

namespace EpicsTcl.Channel

namespace ChannelObject

/-- A new object of either class. -/
def new (units : Bool) (name : String) : ChannelObject :=
  if units then .unitChannel (CUnitChannel.new name) else .channel (CChannel.new name)

/-- `Connect`, which is virtual. -/
def connect [ChannelAccess] (o : ChannelObject) (ca : CaClient) : ChannelObject × CaClient :=
  match o with
  | .channel c => (.channel (c.connect ca).1, (c.connect ca).2)
  | .unitChannel u => (.unitChannel (u.connect ca).1, (u.connect ca).2)

end ChannelObject

/-! ## The visitors -/

/-- `foreach`; `σ` is what the visitor works on. -/
def CChannelList.foreach {σ : Type*} (visitor : ChannelObject → σ → ChannelObject × σ) :
    List ChannelObject → σ → List ChannelObject × σ
  | [], x => ([], x)
  | o :: os, x =>
    let (o, x) := visitor o x
    let (os, x) := foreach visitor os x
    (o :: os, x)

/-- `operator()` of a `CLookupVisitor`. -/
def CLookupVisitor.visit [ChannelAccess] (o : ChannelObject) (ca : CaClient) :
    ChannelObject × CaClient :=
  if !o.base.fConnected then o.connect ca else (o, ca)

/-- `CBuildChannelData::ChannelData`. -/
structure ChannelData where
  sValue : String
  sUnits : String
  updated : Int
  deriving DecidableEq, Repr

namespace CBuildChannelData

/-- The item of a channel with units. -/
def item (u : CUnitChannel) : String × ChannelData :=
  (u.base.sName, {
    sValue := u.base.getValue
    sUnits := u.getUnits
    updated := u.base.lastUpdateTime })

/-- `operator()`: `none` is the NULL pointer that the `dynamic_cast` makes of
a channel without units. -/
def visit (o : ChannelObject) (data : Option (List (String × ChannelData))) :
    ChannelObject × Option (List (String × ChannelData)) :=
  match o with
  | .channel _ => (o, none)
  | .unitChannel u => (o, data.map (· ++ [item u]))

end CBuildChannelData

/-! ## The list -/

structure ChannelList where
  channels : List ChannelObject := []
  ca : CaClient := {}
  /-- The destructor has begun. -/
  destroying : Bool := false

inductive ListAction where
  | pushBack (units : Bool) (name : String)
  /-- `foreach` with a `CLookupVisitor`. -/
  | lookup
  /-- Something happens to the channel at this position. -/
  | member (i : Nat) (a : LifetimeAction)
  /-- The destructor of the list goes on. -/
  | delete

/-- Channel Access calls a handler when the channel has been asked for. -/
def ChannelObject.mayHappen : ChannelObject → LifetimeAction → Bool
  | o, .handler _ => o.base.fConnectionHandlerEstablished
  | .unitChannel u, .unitsHandler _ => u.pUnits.fConnectionHandlerEstablished
  | _, _ => true

/-- Calls of the program. -/
def LifetimeAction.isCall : LifetimeAction → Bool
  | .connect => true
  | .connectUnits => true
  | _ => false

namespace ChannelList

/-- One step. -/
def step [ChannelAccess] (s : ChannelList) : ListAction → Option ChannelList
  | .pushBack units name =>
    if s.destroying then none
    else some { s with channels := s.channels ++ [.new units name] }
  | .lookup =>
    if s.destroying then none
    else
      let (channels, ca) := CChannelList.foreach CLookupVisitor.visit s.channels s.ca
      some { s with channels, ca }
  | .member i a =>
    if s.destroying && a.isCall then none
    else do
      let o ← s.channels[i]?
      if o.mayHappen a then
        let t ← Lifetime.step ⟨o, s.ca⟩ a
        some { s with channels := s.channels.set i t.object, ca := t.ca }
      else none
  | .delete =>
    match s.channels with
    | [] => none
    | .channel c :: rest =>
      some { channels := rest, ca := c.destroy s.ca, destroying := true }
    | .unitChannel u :: rest =>
      -- `m_pUnits` is deleted, and the destructor of the base class is still to run
      some { channels := .channel u.base :: rest, ca := u.pUnits.destroy s.ca, destroying := true }

end ChannelList

end EpicsTcl.Channel
