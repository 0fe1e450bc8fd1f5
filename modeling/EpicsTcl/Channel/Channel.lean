/-
EpicsTcl.Channel.Channel — the class `CChannel` (`CChannel.h`,
`CChannel.cpp`): the state of one EPICS channel and the handlers that
Channel Access calls when its connection or its value changes.

Each member function that runs under the channel's monitor is one function
on the channel's state. Channel Access itself is not part of the repository:
`ChannelAccess` is what it answers to a call that creates something, an
identifier or a failure, and `CaClient.calls` records the calls with their
answers, oldest first. The code looks at no status, so a call that fails
leaves the variable that it was to write as it was.

`m_pHandler` and `m_pHandlerData` are only ever set together, to
`CTCLChannelCommand::markChange` and the command object, or both to NULL.
They are one field: the identity of that command object, or `none`.
-/
import EpicsTcl.Channel.Converter

namespace EpicsTcl.Channel

/-! ## The Channel Access client library -/

/-- A call into Channel Access. One that creates something comes with the
identifier that it has written, if it succeeded. -/
inductive CaCall where
  | createChannel (name : String) (chan : Option Nat)
  | clearChannel (chan : Nat)
  | createSubscription (type : Int) (chan : Nat) (event : Option Nat)
  | clearSubscription (event : Nat)
  | put (type : Int) (chan : Nat) (value : String)
  | arrayPut (type : Int) (count : Nat) (chan : Nat) (value : List UInt8)
  deriving DecidableEq, Repr

/-- The call created what it was to create. -/
def CaCall.Succeeded : CaCall → Prop
  | .createChannel _ chan => chan.isSome
  | .createSubscription _ _ event => event.isSome
  | _ => True

instance (call : CaCall) : Decidable call.Succeeded := by
  unfold CaCall.Succeeded
  cases call <;> infer_instance

/-- The client library as the code sees it: the calls made so far, and those
of the rest of the process. -/
structure CaClient where
  calls : List CaCall := []
  others : List CaCall := []
  deriving DecidableEq, Repr

/-- Channel Access: the identifier that a call writes, `none` when it fails.
The answer may depend on everything the process has asked before. -/
class ChannelAccess where
  createChannel : String → CaClient → Option Nat
  createSubscription : Int → Nat → CaClient → Option Nat

/-- What is documented of the identifiers: those of channels are not zero,
and no two calls create the same thing. A channel must have a name. -/
structure ChannelAccess.Documented [ChannelAccess] : Prop where
  chid_ne_zero : ∀ {name ca chan}, createChannel name ca = some chan → chan ≠ 0
  chid_new : ∀ {name ca chan}, createChannel name ca = some chan →
    ∀ name', .createChannel name' (some chan) ∉ ca.calls
  evid_new : ∀ {type chan ca event}, createSubscription type chan ca = some event →
    ∀ type' chan', .createSubscription type' chan' (some event) ∉ ca.calls
  no_name : ∀ ca, createChannel "" ca = none

/-- The identifier of what a call has created. -/
def CaCall.identifier : CaCall → Nat
  | .createChannel _ chan => chan.getD 0
  | .createSubscription _ _ event => event.getD 0
  | _ => 0

/-- An identifier that no call has written. -/
def CaClient.unused (ca : CaClient) : Nat :=
  ca.calls.foldr (fun call i => max call.identifier i) 0 + 1

theorem CaClient.identifier_lt_unused {ca : CaClient} {call : CaCall} (h : call ∈ ca.calls) :
    call.identifier < ca.unused := by
  unfold unused
  generalize ca.calls = calls at h
  induction calls with
  | nil => cases h
  | cons c calls ih =>
    rcases List.mem_cons.mp h with rfl | h
    · exact Nat.lt_succ_of_le (le_max_left _ _)
    · exact (ih h).trans_le (Nat.succ_le_succ (le_max_right _ _))

/-- A library that numbers what it creates, and creates any channel with a
name. -/
@[reducible] def ChannelAccess.numbering : ChannelAccess where
  createChannel name ca := if name = "" then none else some ca.unused
  createSubscription _ _ ca := some ca.unused

theorem ChannelAccess.numbering_documented : @Documented numbering := by
  have hchan {name : String} {ca : CaClient} {chan : Nat}
      (h : @createChannel numbering name ca = some chan) : chan = ca.unused := by
    simp [createChannel] at h
    exact h.2.symm
  refine @Documented.mk numbering ?chid_ne_zero ?chid_new ?evid_new ?no_name
  case chid_ne_zero =>
    intro name ca chan h
    rw [hchan h]
    exact Nat.succ_ne_zero _
  case chid_new =>
    intro name ca chan h name' hmem
    have := CaClient.identifier_lt_unused hmem
    exact Nat.lt_irrefl _ (hchan h ▸ this)
  case evid_new =>
    intro type chan ca event h type' chan' hmem
    have := CaClient.identifier_lt_unused hmem
    exact Nat.lt_irrefl _ (Option.some.inj h ▸ this)
  case no_name => exact fun _ => rfl

namespace CaClient

/-- `ca_create_channel`, and what it writes. -/
def createChannel [ChannelAccess] (name : String) (ca : CaClient) : Option Nat × CaClient :=
  let chan := ChannelAccess.createChannel name ca
  (chan, { ca with calls := ca.calls ++ [.createChannel name chan] })

/-- `ca_clear_channel`. -/
def clearChannel (chan : Nat) (ca : CaClient) : CaClient :=
  { ca with calls := ca.calls ++ [.clearChannel chan] }

/-- `ca_create_subscription`, and what it writes. -/
def createSubscription [ChannelAccess] (type : Int) (chan : Nat) (ca : CaClient) :
    Option Nat × CaClient :=
  let event := ChannelAccess.createSubscription type chan ca
  (event, { ca with calls := ca.calls ++ [.createSubscription type chan event] })

/-- `ca_clear_subscription`. -/
def clearSubscription (event : Nat) (ca : CaClient) : CaClient :=
  { ca with calls := ca.calls ++ [.clearSubscription event] }

/-- `ca_put`. -/
def put (type : Int) (chan : Nat) (value : String) (ca : CaClient) : CaClient :=
  { ca with calls := ca.calls ++ [.put type chan value] }

/-- `ca_array_put`, with the bytes from its pointer argument on. -/
def arrayPut (type : Int) (count : Nat) (chan : Nat) (value : List UInt8) (ca : CaClient) :
    CaClient :=
  { ca with calls := ca.calls ++ [.arrayPut type count chan value] }

end CaClient

/-! ## The channel -/

/-- `CChannel`. `updateEventId` is not initialised by the constructor; its
initial value stands for whatever the memory held. -/
structure CChannel where
  sName : String
  fConnected : Bool := false
  nChannel : Nat := 0
  fUpdateHandlerEstablished : Bool := false
  fConnectionHandlerEstablished : Bool := false
  sValue : String := ""
  vectorValue : List String := []
  lastUpdateTime : Int := 0
  pConverter : Option CConverter := none
  pHandler : Option Nat := none
  updateEventId : Nat := 0
  deriving DecidableEq, Repr

/-- The operation of a connection event. -/
inductive ConnectionOp where
  | connUp
  | connDown
  | other
  deriving DecidableEq, Repr

/-- `connection_handler_args`, with what `ca_field_type` reports for the
channel at that moment. -/
structure ConnectionHandlerArgs where
  op : ConnectionOp
  fieldType : Int := 0
  deriving DecidableEq, Repr

namespace CChannel

/-- The constructor. -/
def new (name : String) : CChannel := { sName := name }

/-- `Connect`: the channel is created at the first call only, and that call
counts whether or not it succeeds. -/
def connect [ChannelAccess] (c : CChannel) (ca : CaClient) : CChannel × CaClient :=
  let (c, ca) :=
    if !c.fConnectionHandlerEstablished then
      let (chan, ca) := ca.createChannel c.sName
      ({ c with nChannel := chan.getD c.nChannel }, ca)
    else (c, ca)
  ({ c with fConnectionHandlerEstablished := true }, ca)

/-- The destructor: what it asks of Channel Access. -/
def destroy (c : CChannel) (ca : CaClient) : CaClient :=
  let ca :=
    if c.fConnected || c.fUpdateHandlerEstablished then ca.clearSubscription c.updateEventId
    else ca
  ca.clearChannel c.nChannel

/-- `getValue`. -/
def getValue (c : CChannel) : String := c.sValue

/-- `setSlot`. -/
def setSlot (handler : Option Nat) (c : CChannel) : CChannel := { c with pHandler := handler }

/-- `operator=(string)`: nothing when not connected. -/
def assignString (value : String) (c : CChannel) (ca : CaClient) : CaClient :=
  if c.fConnected then ca.put dbrString c.nChannel value else ca

/-- `StateHandler`. -/
def stateHandler [ChannelAccess] (args : ConnectionHandlerArgs) (c : CChannel) (ca : CaClient) :
    CChannel × CaClient :=
  match args.op with
  | .connUp =>
    let converter := c.pConverter.getD (CConversionFactory.converter args.fieldType)
    let c := { c with fConnected := true, pConverter := some converter }
    if !c.fUpdateHandlerEstablished then
      let (event, ca) := ca.createSubscription converter.requestType c.nChannel
      ({ c with
          updateEventId := event.getD c.updateEventId
          fUpdateHandlerEstablished := true }, ca)
    else (c, ca)
  | .connDown =>
    ({ c with fConnected := false, fUpdateHandlerEstablished := false, pConverter := none },
      ca.clearSubscription c.updateEventId)
  | .other => (c, ca)

/-- `Update`: the new state, and the slot function to call, which the code
does with the monitor held. -/
def update (args : EventHandlerArgs) (now : Int) (c : CChannel) : CChannel × Option Nat :=
  let c :=
    match c.pConverter with
    | some converter =>
      let (value, converter) := converter.scalar args
      let (vector, converter) := converter.getVector args
      { c with
        lastUpdateTime := now
        sValue := value
        vectorValue := vector
        pConverter := some converter }
    | none => c
  (c, c.pHandler)

/-- `UpdateHandler`. -/
def updateHandler (args : EventHandlerArgs) (now : Int) (c : CChannel) : CChannel × Option Nat :=
  if args.status = ecaNormal then c.update args now else (c, none)

/-! ## What the members ask of Channel Access -/

theorem connect_calls [ChannelAccess] (c : CChannel) (ca : CaClient) :
    ca.calls <+: (c.connect ca).2.calls := by
  unfold connect
  cases c.fConnectionHandlerEstablished with
  | false => exact List.prefix_append _ _
  | true => exact List.prefix_rfl

theorem stateHandler_calls [ChannelAccess] (args : ConnectionHandlerArgs) (c : CChannel)
    (ca : CaClient) : ca.calls <+: (c.stateHandler args ca).2.calls := by
  unfold stateHandler
  cases args.op with
  | connUp =>
    cases c.fUpdateHandlerEstablished with
    | false => exact List.prefix_append _ _
    | true => exact List.prefix_rfl
  | connDown => exact List.prefix_append _ _
  | other => exact List.prefix_rfl

/-! ## What the handlers leave unchanged -/

/-- An update changes the value, its time and what the converter has
learned, and nothing else. -/
theorem updateHandler_frame (args : EventHandlerArgs) (now : Int) (c : CChannel) :
    ∃ time value vector converter,
      (c.updateHandler args now).1 =
        { c with
          lastUpdateTime := time
          sValue := value
          vectorValue := vector
          pConverter := converter } ∧
      converter.map (·.cls) = c.pConverter.map (·.cls) := by
  unfold updateHandler update
  split
  · cases hc : c.pConverter with
    | none => exact ⟨c.lastUpdateTime, c.sValue, c.vectorValue, none, by simp [← hc], rfl⟩
    | some conv =>
      exact ⟨now, _, _, some ((conv.scalar args).2.getVector args).2, rfl, by simp⟩
  · exact ⟨c.lastUpdateTime, c.sValue, c.vectorValue, c.pConverter, rfl, rfl⟩

@[simp] theorem updateHandler_pHandler (args : EventHandlerArgs) (now : Int) (c : CChannel) :
    (c.updateHandler args now).1.pHandler = c.pHandler := by
  obtain ⟨_, _, _, _, h, _⟩ := updateHandler_frame args now c
  rw [h]

/-- The slot an update fires is the one installed. -/
theorem updateHandler_fires {args : EventHandlerArgs} {now : Int} {c : CChannel} {slot : Nat}
    (h : (c.updateHandler args now).2 = some slot) : c.pHandler = some slot := by
  unfold updateHandler update at h
  split at h
  · cases hc : c.pConverter <;> simpa [hc] using h
  · cases h

/-- An update that changes the value fires the slot. -/
theorem updateHandler_slot {args : EventHandlerArgs} {now : Int} {c : CChannel}
    (h : (c.updateHandler args now).1.sValue ≠ c.sValue) :
    (c.updateHandler args now).2 = c.pHandler := by
  unfold updateHandler update at h ⊢
  split
  · cases c.pConverter <;> rfl
  · next hstatus => simp [hstatus] at h

/-- A connection event leaves the value and the slot alone. -/
theorem stateHandler_frame [ChannelAccess] (args : ConnectionHandlerArgs) (c : CChannel)
    (ca : CaClient) :
    (c.stateHandler args ca).1.pHandler = c.pHandler ∧
      (c.stateHandler args ca).1.sValue = c.sValue := by
  unfold stateHandler
  cases args.op with
  | connUp => simp only; split <;> exact ⟨rfl, rfl⟩
  | connDown => exact ⟨rfl, rfl⟩
  | other => exact ⟨rfl, rfl⟩

end CChannel

end EpicsTcl.Channel
