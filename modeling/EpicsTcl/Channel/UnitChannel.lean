/-
EpicsTcl.Channel.UnitChannel — the class `CUnitChannel` (`CUnitChannel.h`,
`CUnitChannel.cpp`): a channel that owns a second one for its units.
-/
import EpicsTcl.Channel.Channel

namespace EpicsTcl.Channel

/-- `CUnitChannel`: the base class, and the channel `m_pUnits` points to. -/
structure CUnitChannel where
  base : CChannel
  pUnits : CChannel
  deriving DecidableEq, Repr

/-- A call of one of the handlers a channel has given to Channel Access. -/
inductive HandlerCall where
  | stateHandler (args : ConnectionHandlerArgs)
  | updateHandler (args : EventHandlerArgs) (now : Int)

/-- What a channel makes of it. -/
def CChannel.handle [ChannelAccess] (call : HandlerCall) (c : CChannel) (ca : CaClient) :
    CChannel × CaClient :=
  match call with
  | .stateHandler args => c.stateHandler args ca
  | .updateHandler args now => ((c.updateHandler args now).1, ca)

/-- The calls that arrive during a `doEvents`, one after the other. -/
def CChannel.handleAll [ChannelAccess] (calls : List HandlerCall) (c : CChannel) (ca : CaClient) :
    CChannel × CaClient :=
  calls.foldl (fun s call => s.1.handle call s.2) (c, ca)

namespace CUnitChannel

/-- The constructor. -/
def new (name : String) : CUnitChannel where
  base := CChannel.new name
  pUnits := CChannel.new (name ++ ".EGU")

/-- `getUnitsName`. -/
def getUnitsName (u : CUnitChannel) : String := u.pUnits.sName

/-- `Connect`, which overrides that of the base class. -/
def connect [ChannelAccess] (u : CUnitChannel) (ca : CaClient) : CUnitChannel × CaClient :=
  let (base, ca) := u.base.connect ca
  let (pUnits, ca) := u.pUnits.connect ca
  ({ base, pUnits }, ca)

/-- `getUnitsChannel()->Connect()`. -/
def connectUnits [ChannelAccess] (u : CUnitChannel) (ca : CaClient) : CUnitChannel × CaClient :=
  let (pUnits, ca) := u.pUnits.connect ca
  ({ u with pUnits }, ca)

/-- `hasUnits`. -/
def hasUnits (u : CUnitChannel) : Bool := u.pUnits.fConnected

/-- `getUnits`. -/
def getUnits (u : CUnitChannel) : String := u.pUnits.getValue

/-- The destructor: it deletes the units channel, whose destructor lets
events run (`events`, as far as they are for the other channel), and then the
destructor of the base class runs. -/
def destroy [ChannelAccess] (events : List HandlerCall) (u : CUnitChannel) (ca : CaClient) :
    CaClient :=
  let ca := u.pUnits.destroy ca
  let (base, ca) := u.base.handleAll events ca
  base.destroy ca

end CUnitChannel

end EpicsTcl.Channel
