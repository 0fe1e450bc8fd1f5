/-
EpicsTcl.Channel.ConnectionTheorems — the Channel Access state machine of
`CChannel`: flags, converter and subscription over any number of
reconnects.

`Endpoint` is one channel together with the Channel Access library it
talks to, plus one piece of history, `lastUp`: the field type reported by
the last connection event if that was an UP. `start name` is the channel
after its first `Connect`; from there on further `Connect` calls,
connection events and value updates arrive in any order, where
`Alternating` says that connection events alternate UP, DOWN, UP, ….

`EndpointInv` ties the three flags, the converter and the log of
subscriptions to `lastUp`. It holds after `start` and is preserved by
every step (`endpointInv_step`) as long as the calls of Channel Access
succeed, hence in every reachable state; the destructor is one more step from
there (`destroy_subscriptions`).
-/
import EpicsTcl.Channel.Channel
import EpicsTcl.Library.Resource
import EpicsTcl.Library.Runs

namespace EpicsTcl.Channel

open EpicsTcl.Library

/-! ## Logs of Channel Access calls -/

/-- Creating and clearing a subscription, as uses of a resource. -/
def subscriptionUse : CaCall → Option (Use Nat)
  | .createSubscription _ _ event => event.map .acquire
  | .clearSubscription event => some (.release event)
  | _ => none

/-- The subscriptions created and cleared by a list of calls. -/
def subscriptions (calls : List CaCall) : List (Use Nat) := calls.filterMap subscriptionUse

@[simp] theorem subscriptions_append (l l' : List CaCall) :
    subscriptions (l ++ l') = subscriptions l ++ subscriptions l' :=
  List.filterMap_append

@[simp] theorem subscriptions_createSubscription (t : Int) (c e : Nat) :
    subscriptions [.createSubscription t c (some e)] = [.acquire e] := rfl

@[simp] theorem subscriptions_clearSubscription (e : Nat) :
    subscriptions [.clearSubscription e] = [.release e] := rfl

@[simp] theorem subscriptions_clearChannel (c : Nat) :
    subscriptions [.clearChannel c] = [] := rfl

/-- The calls of `ca_create_channel`. -/
def channelCreations (calls : List CaCall) : List (String × Option Nat) :=
  calls.filterMap fun
    | .createChannel name chan => some (name, chan)
    | _ => none

/-- All calls have created what they were to create. -/
def Succeeded (calls : List CaCall) : Prop := ∀ call ∈ calls, call.Succeeded

/-- A subscription that is created is a new one. -/
theorem evid_fresh [ChannelAccess] (lib : ChannelAccess.Documented) {type : Int} {chan event : Nat}
    {ca : CaClient} (h : ChannelAccess.createSubscription type chan ca = some event) :
    .acquire event ∉ subscriptions ca.calls := by
  intro hmem
  obtain ⟨call, hcall, huse⟩ := List.mem_filterMap.mp hmem
  cases call with
  | createSubscription type' chan' event' =>
    simp only [subscriptionUse, Option.map_eq_some_iff, Use.acquire.injEq,
      exists_eq_right] at huse
    exact lib.evid_new h type' chan' (huse ▸ hcall)
  | clearSubscription event' => simp [subscriptionUse] at huse
  | createChannel | clearChannel | put | arrayPut => cases huse

/-- A prefix of an extended log has at most one live resource if the log
and its extension do. -/
theorem single_concat {log : List (Use Nat)} {u : Use Nat}
    (h : ∀ p, p <+: log → (live p).length ≤ 1) (hu : (live (log ++ [u])).length ≤ 1) :
    ∀ p, p <+: log ++ [u] → (live p).length ≤ 1 := by
  intro p hp
  rcases List.prefix_concat_iff.mp hp with rfl | hp'
  · exact hu
  · exact h p hp'

section

variable [ChannelAccess]

/-! ## The system -/

/-- A channel and its Channel Access library. -/
structure Endpoint where
  channel : CChannel
  ca : CaClient
  /-- The field type seen at the last connection event, if it was UP. -/
  lastUp : Option Int := none
  deriving DecidableEq, Repr

/-- What can happen to a channel between construction and destruction. -/
inductive ChannelAction where
  | connect
  | connection (args : ConnectionHandlerArgs)
  | update (args : EventHandlerArgs) (now : Int)

/-- The channel after construction and its first `Connect`. -/
def Endpoint.start (name : String) : Endpoint :=
  let (channel, ca) := (CChannel.new name).connect {}
  { channel, ca }

def Endpoint.step (s : Endpoint) : ChannelAction → Option Endpoint
  | .connect =>
    let (channel, ca) := s.channel.connect s.ca
    some { s with channel, ca }
  | .connection args =>
    let (channel, ca) := s.channel.stateHandler args s.ca
    let lastUp :=
      match args.op with
      | .connUp => some args.fieldType
      | .connDown => none
      | .other => s.lastUp
    some { channel, ca, lastUp }
  | .update args now => some { s with channel := (s.channel.updateHandler args now).1 }

/-- Connection events alternate: UP only when the last one was not UP,
DOWN only when it was. -/
def Endpoint.Alternating (s : Endpoint) : ChannelAction → Prop
  | .connection args =>
    match args.op with
    | .connUp => s.lastUp = none
    | .connDown => s.lastUp ≠ none
    | .other => True
  | _ => True

instance (s : Endpoint) (a : ChannelAction) : Decidable (s.Alternating a) := by
  unfold Endpoint.Alternating
  cases a with
  | connection args => cases args with | mk op _ => cases op <;> infer_instance
  | connect => infer_instance
  | update _ _ => infer_instance

/-! ## The invariant -/

/-- What ties a channel's flags and its subscription to the last
connection event. -/
structure EndpointInv (name : String) (s : Endpoint) : Prop where
  established : s.channel.fConnectionHandlerEstablished = true
  created : channelCreations s.ca.calls = [(name, some s.channel.nChannel)]
  connected : s.channel.fConnected = s.lastUp.isSome
  handler : s.channel.fUpdateHandlerEstablished = s.lastUp.isSome
  converter : s.channel.pConverter.map (·.cls) =
    s.lastUp.map fun type => (CConversionFactory.converter type).cls
  disciplined : Disciplined (subscriptions s.ca.calls)
  live : live (subscriptions s.ca.calls) =
    if s.lastUp.isSome then [s.channel.updateEventId] else []
  single : ∀ p, p <+: subscriptions s.ca.calls → (Library.live p).length ≤ 1

theorem endpointInv_start {name : String} (h : Succeeded (Endpoint.start name).ca.calls) :
    EndpointInv name (Endpoint.start name) := by
  obtain ⟨chan, hchan⟩ := Option.isSome_iff_exists.mp (h _ List.mem_cons_self)
  constructor
  case established => rfl
  case created =>
    have hchan : ChannelAccess.createChannel name {} = some chan := hchan
    simp [Endpoint.start, CChannel.connect, CChannel.new, CaClient.createChannel, channelCreations,
      hchan]
  case connected => rfl
  case handler => rfl
  case converter => rfl
  case disciplined => exact .nil
  case live => rfl
  case single =>
    intro p hp
    rw [List.prefix_nil.mp hp]
    simp

/-- Once the connection handler is established `Connect` does nothing. -/
theorem connect_of_established {c : CChannel} (h : c.fConnectionHandlerEstablished = true)
    (ca : CaClient) : c.connect ca = (c, ca) := by
  unfold CChannel.connect
  rw [h]
  cases c
  simp_all

/-- The UP event: connects, picks the converter, subscribes. -/
theorem endpointInv_up (lib : ChannelAccess.Documented) {name : String} {s : Endpoint}
    (inv : EndpointInv name s) (hdown : s.lastUp = none) (type : Int)
    (hsucceeded : Succeeded (s.channel.stateHandler ⟨.connUp, type⟩ s.ca).2.calls) :
    EndpointInv name
      { channel := (s.channel.stateHandler ⟨.connUp, type⟩ s.ca).1
        ca := (s.channel.stateHandler ⟨.connUp, type⟩ s.ca).2
        lastUp := some type } := by
  have hestab : s.channel.fUpdateHandlerEstablished = false := by simp [inv.handler, hdown]
  have hnone : s.channel.pConverter = none := by
    have h := inv.converter
    rw [hdown] at h
    simpa using h
  have hlive : Library.live (subscriptions s.ca.calls) = [] := by simp [inv.live, hdown]
  -- the subscription of the event was created
  have hcall : CaCall.createSubscription (CConversionFactory.converter type).requestType
      s.channel.nChannel (ChannelAccess.createSubscription
        (CConversionFactory.converter type).requestType s.channel.nChannel s.ca) ∈
      (s.channel.stateHandler ⟨.connUp, type⟩ s.ca).2.calls := by
    simp [CChannel.stateHandler, hestab, hnone, CaClient.createSubscription]
  obtain ⟨event, hevent⟩ := Option.isSome_iff_exists.mp (hsucceeded _ hcall)
  have hnew := evid_fresh lib hevent
  have hstep : s.channel.stateHandler ⟨.connUp, type⟩ s.ca =
      ({ s.channel with
          fConnected := true
          pConverter := some (CConversionFactory.converter type)
          updateEventId := event
          fUpdateHandlerEstablished := true },
        { s.ca with
          calls := s.ca.calls ++ [.createSubscription
            (CConversionFactory.converter type).requestType s.channel.nChannel
            (some event)] }) := by
    simp [CChannel.stateHandler, hestab, hnone, CaClient.createSubscription, hevent]
  rw [hstep]
  constructor
  case established => exact inv.established
  case created => simpa [channelCreations] using inv.created
  case connected => rfl
  case handler => rfl
  case converter => rfl
  case disciplined =>
    rw [subscriptions_append]
    exact .acquire inv.disciplined hnew
  case live => simp [hlive]
  case single =>
    rw [subscriptions_append]
    exact single_concat inv.single (by simp [hlive])

/-- The DOWN event: clears the subscription and forgets the converter. -/
theorem endpointInv_down {name : String} {s : Endpoint} (inv : EndpointInv name s)
    (hup : s.lastUp ≠ none) (type : Int) :
    EndpointInv name
      { channel := (s.channel.stateHandler ⟨.connDown, type⟩ s.ca).1
        ca := (s.channel.stateHandler ⟨.connDown, type⟩ s.ca).2
        lastUp := none } := by
  have hsome : s.lastUp.isSome = true := Option.isSome_iff_ne_none.mpr hup
  have hlive : Library.live (subscriptions s.ca.calls) = [s.channel.updateEventId] := by
    simp [inv.live, hsome]
  simp only [CChannel.stateHandler, CaClient.clearSubscription]
  constructor
  case established => exact inv.established
  case created => simpa [channelCreations] using inv.created
  case connected => rfl
  case handler => rfl
  case converter => rfl
  case disciplined =>
    rw [subscriptions_append]
    exact .release inv.disciplined (by simp [hlive])
  case live => simp [hlive]
  case single =>
    rw [subscriptions_append]
    exact single_concat inv.single (by simp [hlive])

/-- The calls of Channel Access only grow. -/
theorem step_calls {s s' : Endpoint} {a : ChannelAction} (hstep : s.step a = some s') :
    s.ca.calls <+: s'.ca.calls := by
  cases a with
  | connect => cases hstep; exact s.channel.connect_calls s.ca
  | connection args => cases hstep; exact s.channel.stateHandler_calls args s.ca
  | update args now => cases hstep; exact List.prefix_rfl

/-- **Step lemma**: every step allowed by `Alternating` whose calls succeed
keeps the invariant. -/
theorem endpointInv_step (lib : ChannelAccess.Documented) {name : String} {s s' : Endpoint}
    {a : ChannelAction} (inv : EndpointInv name s) (halt : s.Alternating a)
    (hstep : s.step a = some s') (hsucceeded : Succeeded s'.ca.calls) :
    EndpointInv name s' := by
  cases a with
  | connect =>
    simp only [Endpoint.step, connect_of_established inv.established, Option.some.injEq] at hstep
    exact hstep ▸ inv
  | update args now =>
    simp only [Endpoint.step, Option.some.injEq] at hstep
    subst hstep
    obtain ⟨_, _, _, _, hframe, hcls⟩ := s.channel.updateHandler_frame args now
    rw [hframe]
    exact { inv with converter := hcls.trans inv.converter }
  | connection args =>
    obtain ⟨op, type⟩ := args
    simp only [Endpoint.step, Option.some.injEq] at hstep
    subst hstep
    cases op with
    | connUp => exact endpointInv_up lib inv halt type hsucceeded
    | connDown => exact endpointInv_down inv halt type
    | other => exact inv

theorem endpointInv_run (lib : ChannelAccess.Documented) {name : String}
    {as : List ChannelAction} {s : Endpoint}
    (h : Run Endpoint.step Endpoint.Alternating (Endpoint.start name) as s) :
    Succeeded s.ca.calls → EndpointInv name s :=
  h.invariant (fun s => Succeeded s.ca.calls → EndpointInv name s) endpointInv_start
    fun _ _ _ inv halt hstep hsucceeded =>
      endpointInv_step lib (inv fun call hcall => hsucceeded call ((step_calls hstep).subset hcall))
        halt hstep hsucceeded

/-! ## Destruction -/

omit [ChannelAccess] in
/-- What the destructor does to the subscriptions: the one that is live,
if any, is cleared. -/
theorem destroy_subscriptions {name : String} {s : Endpoint} (inv : EndpointInv name s) :
    Disciplined (subscriptions (s.channel.destroy s.ca).calls) ∧
      live (subscriptions (s.channel.destroy s.ca).calls) = [] := by
  cases hup : s.lastUp with
  | none =>
    have hflags : (s.channel.fConnected || s.channel.fUpdateHandlerEstablished) = false := by
      simp [inv.connected, inv.handler, hup]
    have hlive : live (subscriptions s.ca.calls) = [] := by simp [inv.live, hup]
    simp only [CChannel.destroy, hflags, CaClient.clearChannel, subscriptions_append,
      subscriptions_clearChannel, List.append_nil]
    exact ⟨inv.disciplined, hlive⟩
  | some type =>
    have hflags : (s.channel.fConnected || s.channel.fUpdateHandlerEstablished) = true := by
      simp [inv.connected, hup]
    have hlive : live (subscriptions s.ca.calls) = [s.channel.updateEventId] := by
      simp [inv.live, hup]
    simp only [CChannel.destroy, hflags, if_true, CaClient.clearSubscription,
      CaClient.clearChannel, subscriptions_append, subscriptions_clearSubscription,
      subscriptions_clearChannel, List.append_nil]
    exact ⟨.release inv.disciplined (by simp [hlive]), by simp [hlive]⟩

/-- A step that clears a subscription is a DOWN event. -/
theorem step_clears_only_down {name : String} {s s' : Endpoint} {a : ChannelAction} {e : Nat}
    (inv : EndpointInv name s) (hstep : s.step a = some s')
    (hclear : (subscriptions s'.ca.calls).count (.release e) ≠
      (subscriptions s.ca.calls).count (.release e)) :
    ∃ type, a = .connection ⟨.connDown, type⟩ := by
  cases a with
  | connect =>
    simp only [Endpoint.step, connect_of_established inv.established, Option.some.injEq] at hstep
    exact absurd (by rw [← hstep]) hclear
  | update args now =>
    simp only [Endpoint.step, Option.some.injEq] at hstep
    exact absurd (by rw [← hstep]) hclear
  | connection args =>
    obtain ⟨op, type⟩ := args
    simp only [Endpoint.step, Option.some.injEq] at hstep
    subst hstep
    cases op with
    | connDown => exact ⟨type, rfl⟩
    | other => exact absurd rfl hclear
    | connUp =>
      refine absurd ?_ hclear
      simp only [CChannel.stateHandler]
      split
      · rw [CaClient.createSubscription, subscriptions_append, List.count_append,
          Nat.add_eq_left, List.count_eq_zero, subscriptions, List.mem_filterMap]
        rintro ⟨call, hcall, huse⟩
        obtain rfl := List.mem_singleton.mp hcall
        obtain ⟨_, -, hevent⟩ := Option.map_eq_some_iff.mp huse
        cases hevent
      · rfl

/-! ## The state machine -/

/-- What holds of a channel between events. -/
structure ConnectionFacts (name : String) (s : Endpoint) : Prop where
  /-- `ca_create_channel` was called exactly once. -/
  created_once : channelCreations s.ca.calls = [(name, some s.channel.nChannel)]
  /-- Both flags and the presence of the converter equal "the last
  connection event was UP". -/
  flags : s.channel.fConnected = s.lastUp.isSome ∧
    s.channel.fUpdateHandlerEstablished = s.lastUp.isSome ∧
    s.channel.pConverter.isSome = s.lastUp.isSome
  /-- The converter is the factory's for the type seen at that UP. -/
  converter : ∀ type, s.lastUp = some type → ∃ c, s.channel.pConverter = some c ∧
    c.cls = (CConversionFactory.converter type).cls
  /-- At every moment so far at most one subscription was live. -/
  one_live : ∀ calls, calls <+: s.ca.calls → (live (subscriptions calls)).length ≤ 1
  /-- A subscription is live exactly while connected, and it is the one
  the channel remembers. -/
  live_iff : live (subscriptions s.ca.calls) =
    if s.channel.fConnected then [s.channel.updateEventId] else []
  /-- No subscription was cleared while not live, none twice. -/
  cleared_live : Disciplined (subscriptions s.ca.calls)
  /-- The destructor keeps to that and leaves every subscription ever
  created cleared exactly once. -/
  destroyed : Disciplined (subscriptions (s.channel.destroy s.ca).calls) ∧
    ∀ e, .acquire e ∈ subscriptions (s.channel.destroy s.ca).calls →
      (subscriptions (s.channel.destroy s.ca).calls).count (.release e) = 1
  /-- Before the destructor only a DOWN event clears a subscription. -/
  cleared_by : ∀ a s' e, s.step a = some s' →
    (subscriptions s'.ca.calls).count (.release e) ≠
      (subscriptions s.ca.calls).count (.release e) →
    ∃ type, a = .connection ⟨.connDown, type⟩

end

section

attribute [local instance] ChannelAccess.numbering

end

end EpicsTcl.Channel
