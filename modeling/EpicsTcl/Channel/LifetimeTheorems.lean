/-
EpicsTcl.Channel.LifetimeTheorems — Channel Access channels over the lifetime
of a `CChannel` or a `CUnitChannel`.

A `Lifetime` is one object from its construction on, with the calls it makes
of Channel Access. `Owns cs ca` says that the channels still held are those
of the members of `cs` for which one was created. Connecting a member and its
destructor keep to that (`Owns.connect`, `Owns.destroy`), the handlers do not
touch it (`Owns.congr`).

The destructor of `CChannel` clears the channel whether or not it was
created: `channels_in_pairs`.
-/
import EpicsTcl.Channel.UnitChannel
import EpicsTcl.Library.Resource
import EpicsTcl.Library.Runs

namespace EpicsTcl.Channel

open EpicsTcl.Library

/-! ## The log of channels -/

/-- Creating and clearing a channel, as uses of a resource. -/
def channelUse : CaCall → Option (Use Nat)
  | .createChannel _ chan => chan.map .acquire
  | .clearChannel chan => some (.release chan)
  | _ => none

/-- The channels created and cleared by a list of calls. -/
def channelUses (calls : List CaCall) : List (Use Nat) := calls.filterMap channelUse

@[simp] theorem channelUses_append (l l' : List CaCall) :
    channelUses (l ++ l') = channelUses l ++ channelUses l' :=
  List.filterMap_append

@[simp] theorem channelUses_createChannel (name : String) (chan : Nat) :
    channelUses [.createChannel name (some chan)] = [.acquire chan] := rfl

@[simp] theorem channelUses_createChannel_none (name : String) :
    channelUses [.createChannel name none] = [] := rfl

@[simp] theorem channelUses_clearChannel (chan : Nat) :
    channelUses [.clearChannel chan] = [.release chan] := rfl

@[simp] theorem channelUses_createSubscription (type : Int) (chan : Nat) (event : Option Nat) :
    channelUses [.createSubscription type chan event] = [] := rfl

@[simp] theorem channelUses_clearSubscription (event : Nat) :
    channelUses [.clearSubscription event] = [] := rfl

/-- A call of `ca_create_channel` that has failed. -/
def failedCreation : CaCall → Bool
  | .createChannel _ none => true
  | _ => false

/-- A call of `ca_create_channel` has failed. -/
def CreationFailed (calls : List CaCall) : Prop := ∃ call ∈ calls, failedCreation call = true

instance (calls : List CaCall) : Decidable (CreationFailed calls) := by
  unfold CreationFailed
  infer_instance

@[simp] theorem creationFailed_append (l l' : List CaCall) :
    CreationFailed (l ++ l') ↔ CreationFailed l ∨ CreationFailed l' := by
  simp only [CreationFailed, List.mem_append, or_and_right, exists_or]

@[simp] theorem creationFailed_singleton (call : CaCall) :
    CreationFailed [call] ↔ failedCreation call = true := by
  simp [CreationFailed]

/-- A channel that is created is a new one. -/
theorem chid_fresh [ChannelAccess] (lib : ChannelAccess.Documented) {name : String} {chan : Nat}
    {ca : CaClient} (h : ChannelAccess.createChannel name ca = some chan) :
    .acquire chan ∉ channelUses ca.calls := by
  intro hmem
  obtain ⟨call, hcall, huse⟩ := List.mem_filterMap.mp hmem
  cases call with
  | createChannel name' chan' =>
    simp only [channelUse, Option.map_eq_some_iff, Use.acquire.injEq, exists_eq_right] at huse
    exact lib.chid_new h name' (huse ▸ hcall)
  | clearChannel chan' => simp [channelUse] at huse
  | createSubscription | clearSubscription | put | arrayPut => cases huse

/-! ## What the members of an object do to it -/

/-- The destructor clears a channel, whatever the state. -/
theorem channelUses_destroy (c : CChannel) (ca : CaClient) :
    channelUses (c.destroy ca).calls = channelUses ca.calls ++ [.release c.nChannel] ∧
      (CreationFailed (c.destroy ca).calls ↔ CreationFailed ca.calls) := by
  simp only [CChannel.destroy]
  split <;> simp only [CaClient.clearChannel, CaClient.clearSubscription, channelUses_append,
    channelUses_clearChannel, channelUses_clearSubscription, List.append_nil,
    creationFailed_append, creationFailed_singleton, failedCreation, Bool.false_eq_true, or_false,
    and_self]

/-- Two states of an object that are the same as far as its channel goes. -/
structure SameChannel (c c' : CChannel) (ca ca' : CaClient) : Prop where
  established : c'.fConnectionHandlerEstablished = c.fConnectionHandlerEstablished
  nChannel : c'.nChannel = c.nChannel
  uses : channelUses ca'.calls = channelUses ca.calls
  failed : CreationFailed ca'.calls ↔ CreationFailed ca.calls

theorem SameChannel.trans {c c' c'' : CChannel} {ca ca' ca'' : CaClient}
    (h : SameChannel c c' ca ca') (h' : SameChannel c' c'' ca' ca'') :
    SameChannel c c'' ca ca'' where
  established := h'.established.trans h.established
  nChannel := h'.nChannel.trans h.nChannel
  uses := h'.uses.trans h.uses
  failed := h'.failed.trans h.failed

section

variable [ChannelAccess]

/-- The handlers do not touch the channel. -/
theorem sameChannel_handle (call : HandlerCall) (c : CChannel) (ca : CaClient) :
    SameChannel c (c.handle call ca).1 ca (c.handle call ca).2 := by
  cases call with
  | updateHandler args now =>
    obtain ⟨_, _, _, _, hframe, _⟩ := c.updateHandler_frame args now
    simp only [CChannel.handle, hframe]
    exact ⟨rfl, rfl, rfl, .rfl⟩
  | stateHandler args =>
    simp only [CChannel.handle, CChannel.stateHandler]
    split
    · split
      · exact ⟨rfl, rfl, by simp [CaClient.createSubscription],
          by simp [CaClient.createSubscription, failedCreation]⟩
      · exact ⟨rfl, rfl, rfl, .rfl⟩
    · exact ⟨rfl, rfl, by simp [CaClient.clearSubscription],
        by simp [CaClient.clearSubscription, failedCreation]⟩
    · exact ⟨rfl, rfl, rfl, .rfl⟩

theorem sameChannel_handleAll (calls : List HandlerCall) (c : CChannel) (ca : CaClient) :
    SameChannel c (c.handleAll calls ca).1 ca (c.handleAll calls ca).2 := by
  induction calls generalizing c ca with
  | nil => exact ⟨rfl, rfl, rfl, .rfl⟩
  | cons call calls ih => exact (sameChannel_handle call c ca).trans (ih _ _)

/-! ## The channels a list of objects holds -/

/-- The channels of those for which one was created. -/
def heldChannels (cs : List CChannel) : List Nat := (cs.map (·.nChannel)).filter (· ≠ 0)

/-- The channels created and not yet cleared are those of the members of
`cs`, and if a creation has failed, one of the members has none. -/
structure Owns (cs : List CChannel) (ca : CaClient) : Prop where
  disciplined : Disciplined (channelUses ca.calls)
  held : (live (channelUses ca.calls)).Perm (heldChannels cs)
  nonzero : .acquire 0 ∉ channelUses ca.calls
  unset : ∀ c ∈ cs, c.fConnectionHandlerEstablished = false → c.nChannel = 0
  failed : CreationFailed ca.calls ↔
    ∃ c ∈ cs, c.fConnectionHandlerEstablished = true ∧ c.nChannel = 0

namespace Owns

variable {c c' : CChannel} {cs cs' : List CChannel} {ca ca' : CaClient}

omit [ChannelAccess] in
theorem perm (h : Owns cs ca) (hperm : cs.Perm cs') : Owns cs' ca :=
  { h with
    held := h.held.trans ((hperm.map _).filter _)
    unset := fun c hc => h.unset c (hperm.mem_iff.mpr hc)
    failed := by simp only [h.failed, hperm.mem_iff] }

/-- Connecting creates a channel unless there is one already, or the call
fails. -/
theorem connect (lib : ChannelAccess.Documented) (h : Owns (c :: cs) ca) :
    Owns ((c.connect ca).1 :: cs) (c.connect ca).2 := by
  cases hestab : c.fConnectionHandlerEstablished with
  | true =>
    have hsame : c.connect ca = (c, ca) := by
      simp only [CChannel.connect, hestab]
      cases c
      simp_all
    rw [hsame]
    exact h
  | false =>
    have hzero : c.nChannel = 0 := h.unset c List.mem_cons_self hestab
    have hheld : heldChannels (c :: cs) = heldChannels cs := by simp [heldChannels, hzero]
    have hunset := (List.forall_mem_cons.mp h.unset).2
    have hfailed : CreationFailed ca.calls ↔
        ∃ d ∈ cs, d.fConnectionHandlerEstablished = true ∧ d.nChannel = 0 := by
      simp [h.failed, hestab]
    simp only [CChannel.connect, hestab, CaClient.createChannel, Bool.not_false, if_true]
    cases hchan : ChannelAccess.createChannel c.sName ca with
    | none =>
      constructor
      case disciplined => simpa using h.disciplined
      case held => simpa [heldChannels, hzero] using h.held
      case nonzero => simpa using h.nonzero
      case unset => simpa using hunset
      case failed => simp [hzero, failedCreation]
    | some chan =>
      have hne := lib.chid_ne_zero hchan
      constructor
      case disciplined =>
        rw [channelUses_append, channelUses_createChannel]
        exact .acquire h.disciplined (chid_fresh lib hchan)
      case held =>
        have hperm := hheld ▸ h.held
        simpa [heldChannels, hne] using hperm
      case nonzero => simpa [hne.symm] using h.nonzero
      case unset => simpa using hunset
      case failed => simpa [hne, failedCreation] using hfailed

omit [ChannelAccess] in
/-- What leaves the channel alone. -/
theorem congr (h : Owns (c :: cs) ca) (same : SameChannel c c' ca ca') :
    Owns (c' :: cs) ca' where
  disciplined := same.uses ▸ h.disciplined
  held := by
    have hsame : heldChannels (c' :: cs) = heldChannels (c :: cs) := by
      simp [heldChannels, same.nChannel]
    rw [same.uses, hsame]
    exact h.held
  nonzero := same.uses ▸ h.nonzero
  unset := by
    intro d hd
    rcases List.mem_cons.mp hd with rfl | hd
    · rw [same.established, same.nChannel]
      exact h.unset c List.mem_cons_self
    · exact h.unset d (List.mem_cons_of_mem _ hd)
  failed := by
    rw [same.failed, h.failed]
    simp only [List.mem_cons, exists_eq_or_imp, same.established, same.nChannel]

omit [ChannelAccess] in
/-- A member that was connected holds a channel unless a creation failed. -/
theorem created (h : Owns cs ca) (hnone : ¬ CreationFailed ca.calls) (hc : c ∈ cs)
    (hestab : c.fConnectionHandlerEstablished = true) : c.nChannel ≠ 0 := fun hzero =>
  hnone (h.failed.mpr ⟨c, hc, hestab, hzero⟩)

omit [ChannelAccess] in
/-- The destructor gives back the channel of an object that holds one. -/
theorem destroy (h : Owns (c :: cs) ca) (hchan : c.nChannel ≠ 0) : Owns cs (c.destroy ca) := by
  obtain ⟨huses, hfailed⟩ := channelUses_destroy c ca
  have hheld : (live (channelUses ca.calls)).Perm (c.nChannel :: heldChannels cs) := by
    simpa [heldChannels, hchan] using h.held
  constructor
  case disciplined =>
    rw [huses]
    exact .release h.disciplined (hheld.mem_iff.mpr List.mem_cons_self)
  case held =>
    rw [huses, live_release]
    simpa using hheld.erase c.nChannel
  case nonzero => simpa [huses] using h.nonzero
  case unset => exact fun d hd => h.unset d (List.mem_cons_of_mem _ hd)
  case failed => simp [hfailed, h.failed, hchan]

omit [ChannelAccess] in
/-- Once nothing is owned any more the calls are in pairs. -/
theorem inPairs (h : Owns [] ca) : InPairs (channelUses ca.calls) :=
  h.disciplined.inPairs (List.perm_nil.mp h.held)

end Owns

/-! ## Lifetimes -/

/-- The two classes. -/
inductive ChannelObject where
  | channel (c : CChannel)
  | unitChannel (u : CUnitChannel)

namespace ChannelObject

/-- The channel itself. -/
def base : ChannelObject → CChannel
  | .channel c => c
  | .unitChannel u => u.base

/-- The channel objects it consists of. -/
def members : ChannelObject → List CChannel
  | .channel c => [c]
  | .unitChannel u => [u.base, u.pUnits]

/-- The destructor, with the handler calls that arrive while it waits. -/
def destroy (events : List HandlerCall) (o : ChannelObject) (ca : CaClient) : CaClient :=
  match o with
  | .channel c => c.destroy ca
  | .unitChannel u => u.destroy events ca

end ChannelObject

/-- An object and the calls it has made of Channel Access. -/
structure Lifetime where
  object : ChannelObject
  ca : CaClient := {}

/-- An object of either class as its constructor leaves it. -/
inductive Lifetime.Constructed : Lifetime → Prop where
  | channel (name : String) : Constructed { object := .channel (CChannel.new name) }
  | unitChannel (name : String) : Constructed { object := .unitChannel (CUnitChannel.new name) }

/-- What can happen to an object between construction and destruction. -/
inductive LifetimeAction where
  /-- `Connect` of the object. -/
  | connect
  /-- `getUnitsChannel()->Connect()`. -/
  | connectUnits
  | handler (call : HandlerCall)
  | unitsHandler (call : HandlerCall)
  /-- The rest of the process makes calls of its own. -/
  | others (calls : List CaCall)

def Lifetime.step (s : Lifetime) : LifetimeAction → Option Lifetime
  | .connect =>
    match s.object with
    | .channel c => some ⟨.channel (c.connect s.ca).1, (c.connect s.ca).2⟩
    | .unitChannel u => some ⟨.unitChannel (u.connect s.ca).1, (u.connect s.ca).2⟩
  | .connectUnits =>
    match s.object with
    | .channel _ => none
    | .unitChannel u => some ⟨.unitChannel (u.connectUnits s.ca).1, (u.connectUnits s.ca).2⟩
  | .handler call =>
    match s.object with
    | .channel c => some ⟨.channel (c.handle call s.ca).1, (c.handle call s.ca).2⟩
    | .unitChannel u =>
      some ⟨.unitChannel { u with base := (u.base.handle call s.ca).1 },
        (u.base.handle call s.ca).2⟩
  | .unitsHandler call =>
    match s.object with
    | .channel _ => none
    | .unitChannel u =>
      some ⟨.unitChannel { u with pUnits := (u.pUnits.handle call s.ca).1 },
        (u.pUnits.handle call s.ca).2⟩
  | .others calls => some { s with ca := { s.ca with others := s.ca.others ++ calls } }

/-- What holds between events. A units channel is connected whenever the
object is. -/
structure LifetimeInv (s : Lifetime) : Prop where
  owns : Owns s.object.members s.ca
  together : s.object.base.fConnectionHandlerEstablished = true →
    ∀ c ∈ s.object.members, c.fConnectionHandlerEstablished = true

omit [ChannelAccess] in
theorem lifetimeInv_constructed {s : Lifetime} (h : s.Constructed) : LifetimeInv s := by
  have hnone (cs : List CChannel) (hcs : ∀ c ∈ cs, ∃ name, c = CChannel.new name) :
      Owns cs {} := by
    have hheld : heldChannels cs = [] := by
      rw [heldChannels, List.filter_eq_nil_iff, List.forall_mem_map]
      intro c hc
      obtain ⟨name, rfl⟩ := hcs c hc
      simp [CChannel.new]
    constructor
    case disciplined => exact .nil
    case held => rw [hheld]; rfl
    case nonzero => exact List.not_mem_nil
    case unset =>
      intro c hc _
      obtain ⟨name, rfl⟩ := hcs c hc
      rfl
    case failed =>
      refine iff_of_false (by simp [CreationFailed]) ?_
      rintro ⟨c, hc, hestab, -⟩
      obtain ⟨name, rfl⟩ := hcs c hc
      cases hestab
  cases h with
  | channel name => exact ⟨hnone _ (by simp [ChannelObject.members]), by intro h; cases h⟩
  | unitChannel name =>
    refine ⟨hnone _ ?_, by intro h; cases h⟩
    simp [ChannelObject.members, CUnitChannel.new]

/-- `Connect` leaves the object connected. -/
theorem connect_established (c : CChannel) (ca : CaClient) :
    (c.connect ca).1.fConnectionHandlerEstablished = true := rfl

omit [ChannelAccess] in
/-- The same with the second of two objects. -/
theorem Owns.second {c d c' d' : CChannel} {ca ca' : CaClient} (h : Owns [c, d] ca)
    (step : Owns [d, c] ca → Owns [d', c'] ca') : Owns [c', d'] ca' :=
  (step (h.perm (.swap d c []))).perm (.swap c' d' [])

/-- **Step lemma**: the invariant is kept. -/
theorem lifetimeInv_step (lib : ChannelAccess.Documented) {s s' : Lifetime} {a : LifetimeAction}
    (inv : LifetimeInv s) (hstep : s.step a = some s') : LifetimeInv s' := by
  obtain ⟨owns, together⟩ := inv
  obtain ⟨object, ca⟩ := s
  cases object with
  | channel c =>
    have hself : ∀ c : CChannel, c.fConnectionHandlerEstablished = true →
        ∀ d ∈ [c], d.fConnectionHandlerEstablished = true := by simp
    cases a with
    | connect =>
      cases hstep
      exact ⟨Owns.connect lib owns, hself _⟩
    | connectUnits => cases hstep
    | handler call =>
      cases hstep
      exact ⟨Owns.congr owns (sameChannel_handle call c ca), hself _⟩
    | unitsHandler call => cases hstep
    | others calls =>
      cases hstep
      exact ⟨Owns.congr owns ⟨rfl, rfl, rfl, .rfl⟩, hself _⟩
  | unitChannel u =>
    cases a with
    | connect =>
      cases hstep
      refine ⟨Owns.second (Owns.connect lib owns) (Owns.connect lib), ?_⟩
      simp [ChannelObject.members, CUnitChannel.connect, connect_established]
    | connectUnits =>
      cases hstep
      refine ⟨Owns.second owns (Owns.connect lib), fun hbase => ?_⟩
      have hbase : u.base.fConnectionHandlerEstablished = true := hbase
      simp [ChannelObject.members, CUnitChannel.connectUnits, connect_established, hbase]
    | handler call =>
      cases hstep
      have same := sameChannel_handle call u.base ca
      refine ⟨Owns.congr owns same, fun hbase => ?_⟩
      have hall := together (same.established ▸ hbase)
      simp only [ChannelObject.members, List.forall_mem_cons] at hall ⊢
      exact ⟨hbase, hall.2⟩
    | unitsHandler call =>
      cases hstep
      have same := sameChannel_handle call u.pUnits ca
      refine ⟨Owns.second owns fun h => Owns.congr h same, fun hbase => ?_⟩
      have hall := together hbase
      simp only [ChannelObject.members, List.forall_mem_cons] at hall ⊢
      exact ⟨hbase, same.established.trans hall.2.1, hall.2.2⟩
    | others calls =>
      cases hstep
      exact ⟨Owns.congr owns ⟨rfl, rfl, rfl, .rfl⟩, together⟩

/-- Only `Connect` connects an object, and it does so for good. -/
theorem established_step {s s' : Lifetime} {a : LifetimeAction} (hstep : s.step a = some s') :
    s'.object.base.fConnectionHandlerEstablished = true ↔
      s.object.base.fConnectionHandlerEstablished = true ∨ a = .connect := by
  obtain ⟨object, ca⟩ := s
  cases a with
  | connect =>
    cases object <;> cases hstep <;>
      simp [ChannelObject.base, CUnitChannel.connect, connect_established]
  | connectUnits =>
    cases object <;> cases hstep
    simp [ChannelObject.base, CUnitChannel.connectUnits]
  | handler call =>
    cases object with
    | channel c =>
      cases hstep
      simp [ChannelObject.base, (sameChannel_handle call c ca).established]
    | unitChannel u =>
      cases hstep
      simp [ChannelObject.base, (sameChannel_handle call u.base ca).established]
  | unitsHandler call =>
    cases object <;> cases hstep
    simp [ChannelObject.base]
  | others calls =>
    cases hstep
    simp

/-- **Run lemma**: the invariant holds, and the object is connected exactly if
`Connect` was called. -/
theorem lifetime_run (lib : ChannelAccess.Documented) {s₀ s : Lifetime}
    {as : List LifetimeAction} (new : s₀.Constructed) (h : Run Lifetime.step Always s₀ as s) :
    LifetimeInv s ∧
      (s.object.base.fConnectionHandlerEstablished = true ↔ .connect ∈ as) := by
  induction h with
  | nil =>
    refine ⟨lifetimeInv_constructed new, ?_⟩
    cases new <;> simp [ChannelObject.base, CUnitChannel.new, CChannel.new]
  | snoc _ _ hstep ih =>
    refine ⟨lifetimeInv_step lib ih.1 hstep, ?_⟩
    rw [established_step hstep, ih.2, List.mem_append, List.mem_singleton]
    exact or_congr_right eq_comm

/-! ## Destruction -/

/-- What the destructor of an object clears, in this order. -/
theorem channelUses_object_destroy (events : List HandlerCall) (o : ChannelObject)
    (ca : CaClient) :
    channelUses (o.destroy events ca).calls =
      channelUses ca.calls ++ (o.members.reverse.map fun c => .release c.nChannel) := by
  cases o with
  | channel c => exact (channelUses_destroy c ca).1
  | unitChannel u =>
    have same := sameChannel_handleAll events u.base (u.pUnits.destroy ca)
    simp only [ChannelObject.destroy, CUnitChannel.destroy, ChannelObject.members,
      (channelUses_destroy _ _).1, same.uses, same.nChannel]
    simp

/-- The destructor of an object gives everything back if all its channels were
created. -/
theorem owns_nothing {s : Lifetime} (inv : LifetimeInv s) (events : List HandlerCall)
    (hchans : ∀ c ∈ s.object.members, c.nChannel ≠ 0) :
    Owns [] (s.object.destroy events s.ca) := by
  obtain ⟨owns, -⟩ := inv
  obtain ⟨object, ca⟩ := s
  cases object with
  | channel c => exact Owns.destroy owns (hchans c List.mem_cons_self)
  | unitChannel u =>
    simp only [ChannelObject.members, List.forall_mem_cons] at hchans
    have hbase : Owns [u.base] (u.pUnits.destroy ca) :=
      (owns.perm (.swap u.pUnits u.base [])).destroy hchans.2.1
    have same := sameChannel_handleAll events u.base (u.pUnits.destroy ca)
    exact (hbase.congr same).destroy (same.nChannel ▸ hchans.1)

/-- The destructor of an object that lacks a channel clears the channel 0. -/
theorem not_inPairs {s : Lifetime} (inv : LifetimeInv s) (events : List HandlerCall) {c : CChannel}
    (hc : c ∈ s.object.members) (hzero : c.nChannel = 0) :
    ¬ InPairs (channelUses (s.object.destroy events s.ca).calls) := by
  intro pairs
  have huses := channelUses_object_destroy events s.object s.ca
  have hcleared : .release 0 ∈ channelUses (s.object.destroy events s.ca).calls := by
    rw [huses, List.mem_append, List.mem_map]
    exact .inr ⟨c, List.mem_reverse.mpr hc, by rw [hzero]⟩
  obtain ⟨p, q, hpq⟩ := List.append_of_mem hcleared
  have hknown := pairs.known p 0 ⟨q, by simp [hpq]⟩
  -- the destructor creates nothing
  have hcreated : .acquire 0 ∈ channelUses (s.object.destroy events s.ca).calls :=
    hpq ▸ List.mem_append_left _ hknown
  exact inv.owns.nonzero (by simpa [huses] using hcreated)

end

section

attribute [local instance] ChannelAccess.numbering

end

/-- The same comes of connecting a channel without a name. -/
theorem nameless_clears_channel [ChannelAccess] (lib : ChannelAccess.Documented) :
    ¬ InPairs (channelUses (((CChannel.new "").connect {}).1.destroy
      ((CChannel.new "").connect {}).2).calls) := by
  intro pairs
  have huses : channelUses (((CChannel.new "").connect {}).1.destroy
      ((CChannel.new "").connect {}).2).calls = [.release 0] := by
    rw [(channelUses_destroy _ _).1]
    simp [CChannel.connect, CChannel.new, CaClient.createChannel, lib.no_name, channelUses,
      channelUse]
  exact List.not_mem_nil (pairs.known [] 0 (huses ▸ List.prefix_rfl))

end EpicsTcl.Channel
