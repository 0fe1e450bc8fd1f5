/-
EpicsTcl.Server.Effects — what the procedures of the server can do, said
once for each of them.

* `completeRequest_replied`: the ways in which completing a request can go
  (`Replied`), with everything that changes. Which one it is can be told
  beforehand, by `replyVerdict`.
* `satisfyRequest_run`, `processTimeout_run`: the two loop bodies.
* `DataOnly`: the changes that touch nothing but channel data, and
  `Allows.monitorChannels`, `Allows.updateLinkedVariables`: an effect that
  allows these and the completion of requests allows every procedure up to
  `readRequest`.
* `step_cases`: what one step can do, and `KeptBy.step`: what is enough to
  know that a step keeps a property that does not look at sockets.
-/
import EpicsTcl.Server.EpicsServer

namespace EpicsTcl.Server

open EpicsTcl.Library EpicsTcl.Library.Script

variable {cfg : Config} {env : Environment} {cause : Cause} {index : Nat} {r : Request}
  {s t : State}

/-! ## Verdicts -/

/-- What becomes of a pending request when a pass reaches it: it stays, it
is completed, or an error is raised by the readiness test, by its reply
before that is out, or by the `close` after it. -/
inductive Verdict where
  | waits
  | completes
  | checkFails
  | replyFails
  | closeFails
  deriving DecidableEq, Repr

/-- An error is raised. -/
def Verdict.fails : Verdict → Bool
  | .waits => false
  | .completes => false
  | .checkFails => true
  | .replyFails => true
  | .closeFails => true

namespace State

/-- How `completeRequest` ends. -/
def replyVerdict (env : Environment) (s : State) (r : Request) : Verdict :=
  match s.replyFields r.channels with
  | .error _ => .replyFails
  | .ok _ =>
    if r.socket ∉ s.openSockets ∨ env.socketFault r.socket .puts = true ∨
        env.socketFault r.socket .flush = true then .replyFails
    else if env.socketFault r.socket .close = true then .closeFails
    else .completes

/-- What `satisfyRequests` does with a request. -/
def satisfyVerdict (env : Environment) (s : State) (r : Request) : Verdict :=
  match s.allThere r.channels with
  | .error _ => .checkFails
  | .ok false => .waits
  | .ok true => s.replyVerdict env r

/-- What `processTimeouts` does with a request. -/
def timeoutVerdict (cfg : Config) (env : Environment) (s : State) (r : Request) : Verdict :=
  if s.expired cfg r then s.replyVerdict env r else .waits

/-- The record of a completion. -/
def completion (cause : Cause) (index : Nat) (r : Request) (fields : List String) (s : State) :
    Completion :=
  ⟨index, r, cause, s.tick, r.channels.map s.reading, fields⟩

/-- What the completion of a request leaves. -/
def afterReply (index : Nat) (socket : Socket) (events : List Event) (closed : Bool) (s : State) :
    State :=
  { s with
    pendingRequests := s.pendingRequests.erase index
    openSockets := if closed then s.openSockets.filter (· ≠ socket) else s.openSockets
    history := events ++ s.history }

end State

/-- The ways in which `completeRequest` can go. -/
inductive Replied (cfg : Config) (cause : Cause) (index : Nat) (r : Request) (s : State) :
    Except TclError Unit × State → Verdict → Prop where
  | noFields (e : TclError) :
      s.replyFields r.channels = .error e →
      Replied cfg cause index r s (.error e, s.afterReply index r.socket [] false) .replyFails
  | putsFails (e : TclError) (fields : List String) :
      s.replyFields r.channels = .ok fields →
      Replied cfg cause index r s
        (.error e, s.afterReply index r.socket
          [.puts r.socket (cfg.join fields) false,
            .completed (s.completion cause index r fields)] false) .replyFails
  | flushFails (e : TclError) (fields : List String) :
      s.replyFields r.channels = .ok fields → r.socket ∈ s.openSockets →
      Replied cfg cause index r s
        (.error e, s.afterReply index r.socket
          [.flush r.socket false, .puts r.socket (cfg.join fields) true,
            .completed (s.completion cause index r fields)] false) .replyFails
  | closeFails (e : TclError) (fields : List String) :
      s.replyFields r.channels = .ok fields → r.socket ∈ s.openSockets →
      Replied cfg cause index r s
        (.error e, s.afterReply index r.socket
          [.close r.socket false, .flush r.socket true, .puts r.socket (cfg.join fields) true,
            .completed (s.completion cause index r fields)] true) .closeFails
  | completes (fields : List String) :
      s.replyFields r.channels = .ok fields → r.socket ∈ s.openSockets →
      Replied cfg cause index r s
        (.ok (), s.afterReply index r.socket
          [.close r.socket true, .flush r.socket true, .puts r.socket (cfg.join fields) true,
            .completed (s.completion cause index r fields)] true) .completes

/-! ## Events -/

namespace Event

/-- The socket that the event writes to, flushes or closes. -/
def socket? : Event → Option Socket
  | .puts k _ _ => some k
  | .flush k _ => some k
  | .close k _ => some k
  | _ => none

/-- A line is written to the socket. -/
def isPuts (k : Socket) : Event → Bool
  | .puts k' _ _ => decide (k' = k)
  | _ => false

end Event

/-- In whichever way a reply goes, it is recorded after the completion that
it belongs to: the line, and what followed it. -/
theorem Replied.events {result : Except TclError Unit × State} {v : Verdict}
    (h : Replied cfg cause index r s result v) :
    ∃ events closed, result.2 = s.afterReply index r.socket events closed ∧
      (events = [] ∨ ∃ fields ok rest, s.replyFields r.channels = .ok fields ∧
        events = rest ++ [.puts r.socket (cfg.join fields) ok,
          .completed (s.completion cause index r fields)] ∧
        ∀ e ∈ rest, e.socket? = some r.socket ∧ ∀ k, e.isPuts k = false) := by
  cases h with
  | noFields e => exact ⟨_, _, rfl, .inl rfl⟩
  | putsFails e fields hfields =>
    exact ⟨_, _, rfl, .inr ⟨fields, false, [], hfields, rfl, by simp⟩⟩
  | flushFails e fields hfields =>
    refine ⟨_, _, rfl, .inr ⟨fields, true, [_], hfields, rfl, ?_⟩⟩
    simp [Event.socket?, Event.isPuts]
  | closeFails e fields hfields =>
    refine ⟨_, _, rfl, .inr ⟨fields, true, [_, _], hfields, rfl, ?_⟩⟩
    simp [Event.socket?, Event.isPuts]
  | completes fields hfields =>
    refine ⟨_, _, rfl, .inr ⟨fields, true, [_, _], hfields, rfl, ?_⟩⟩
    simp [Event.socket?, Event.isPuts]

/-! ## What the pure tests depend on -/

theorem allThere_congr (hv : s.values = t.values) (hu : s.units = t.units)
    (hk : s.knownChannels = t.knownChannels) (channels : List String) :
    s.allThere channels = t.allThere channels := by
  induction channels with
  | nil => rfl
  | cons c channels ih => simp only [State.allThere, hv, hu, hk, ih]

theorem channelFields_congr (hv : s.values = t.values) (hu : s.units = t.units) (c : String) :
    s.channelFields c = t.channelFields c := by
  simp only [State.channelFields, hv, hu]

theorem replyFields_congr (hv : s.values = t.values) (hu : s.units = t.units)
    (channels : List String) : s.replyFields channels = t.replyFields channels := by
  induction channels with
  | nil => rfl
  | cons c channels ih => simp only [State.replyFields, channelFields_congr hv hu, ih]

theorem State.table_congr (hv : t.values = s.values) (hu : t.units = s.units) (tb : Table) :
    t.table tb = s.table tb := by
  cases tb with
  | values => exact hv
  | units => exact hu

theorem State.mem_table_congr (hv : t.values = s.values) (hu : t.units = s.units) (tb : Table)
    (c : String) (hc : c ∈ s.table tb) : c ∈ t.table tb := by
  rwa [State.table_congr hv hu]

/-! ## Completing a request -/

theorem element_ok {κ β : Type} [DecidableEq κ] [ToString κ] {name : String}
    {a : AList fun _ : κ => β} {key : κ} {x : β} (h : a.lookup key = some x) :
    element name a key = .ok x := by
  simp only [element, h]

theorem element_error {κ β : Type} [DecidableEq κ] [ToString κ] {name : String}
    {a : AList fun _ : κ => β} {key : κ} (h : a.lookup key = none) :
    element name a key = .error (.noSuchElement name (toString key)) := by
  simp only [element, h]

/-! ### Sockets -/

section Sockets

variable {op : SocketOp} {socket : Socket} (event : Bool → Event)

/-- What is left of a socket operation that succeeds, or that fails. -/
def State.afterSocket (op : SocketOp) (socket : Socket) (e : Event) (s : State) : State :=
  { s with
    openSockets := if op = .close then s.openSockets.filter (· ≠ socket) else s.openSockets
    history := e :: s.history }

theorem onSocket_ok (hopen : socket ∈ s.openSockets) (hfault : env.socketFault socket op = false) :
    onSocket env op socket event s = (.ok (), s.afterSocket op socket (event true)) := by
  have hok : (decide (socket ∈ s.openSockets) && !env.socketFault socket op) = true := by
    simp [hopen, hfault]
  simp only [onSocket, hok, if_true]
  by_cases h : op = .close <;> simp [h, State.afterSocket, State.record]

theorem onSocket_error (h : socket ∉ s.openSockets ∨ env.socketFault socket op = true) :
    ∃ e, onSocket env op socket event s = (.error e, s.afterSocket op socket (event false)) := by
  have hok : (decide (socket ∈ s.openSockets) && !env.socketFault socket op) = false := by
    rcases h with h | h <;> simp [h]
  refine ⟨if socket ∈ s.openSockets then .io socket op else .noSuchChannel socket op, ?_⟩
  simp only [onSocket, hok, Bool.false_eq_true, if_false, decide_eq_true_eq]
  by_cases h : op = .close <;> simp [h, State.afterSocket, State.record]

end Sockets

/-- The three statements that send a reply. -/
def reply (env : Environment) (socket : Socket) (line : String) : Proc Unit := do
  puts env socket line
  flush env socket
  close env socket

section Reply

variable {socket : Socket} (line : String)

theorem reply_puts_error (h : socket ∉ s.openSockets ∨ env.socketFault socket .puts = true) :
    ∃ e, reply env socket line s =
      (.error e, { s with history := .puts socket line false :: s.history }) := by
  obtain ⟨e, hputs⟩ := onSocket_error (.puts socket line) h
  exact ⟨e, bind_error hputs⟩

theorem reply_flush_error (hopen : socket ∈ s.openSockets)
    (hputs : env.socketFault socket .puts = false) (h : env.socketFault socket .flush = true) :
    ∃ e, reply env socket line s =
      (.error e, { s with
        history := .flush socket false :: .puts socket line true :: s.history }) := by
  obtain ⟨e, hflush⟩ := onSocket_error (.flush socket) (.inr h)
    (s := { s with history := .puts socket line true :: s.history })
  refine ⟨e, ?_⟩
  calc reply env socket line s
      = (do flush env socket; close env socket : Proc Unit)
          { s with history := .puts socket line true :: s.history } :=
        bind_ok (onSocket_ok _ hopen hputs)
    _ = _ := bind_error hflush

theorem reply_flushed (hopen : socket ∈ s.openSockets)
    (hputs : env.socketFault socket .puts = false)
    (hflush : env.socketFault socket .flush = false) :
    reply env socket line s = close env socket
      { s with history := .flush socket true :: .puts socket line true :: s.history } := by
  calc reply env socket line s
      = (do flush env socket; close env socket : Proc Unit)
          { s with history := .puts socket line true :: s.history } :=
        bind_ok (onSocket_ok _ hopen hputs)
    _ = _ := bind_ok (onSocket_ok _ hopen hflush)

end Reply

theorem completeRequest_eq (h : s.pendingRequests.lookup index = some r) :
    completeRequest cfg env cause index s =
      match s.replyFields r.channels with
      | .error e => (.error e, s.afterReply index r.socket [] false)
      | .ok fields => reply env r.socket (cfg.join fields)
          (s.afterReply index r.socket [.completed (s.completion cause index r fields)] false) := by
  have hfields : State.replyFields { s with pendingRequests := s.pendingRequests.erase index }
      r.channels = s.replyFields r.channels := by
    apply replyFields_congr
    · rfl
    · rfl
  unfold completeRequest
  simp only [bind_apply, evaluates_apply, element_ok h, modify_apply, hfields]
  cases s.replyFields r.channels with
  | error e => rfl
  | ok fields => rfl

/-- Completing a request goes in one of the ways of `Replied`, and which of
them follows from the state before it. -/
theorem completeRequest_replied (cfg : Config) (env : Environment) (cause : Cause)
    (h : s.pendingRequests.lookup index = some r) :
    Replied cfg cause index r s (completeRequest cfg env cause index s)
      (s.replyVerdict env r) := by
  rw [completeRequest_eq h, State.replyVerdict]
  cases hr : s.replyFields r.channels with
  | error e => exact .noFields e hr
  | ok fields =>
    let s₁ := s.afterReply index r.socket [.completed (s.completion cause index r fields)] false
    by_cases hputs : r.socket ∉ s₁.openSockets ∨ env.socketFault r.socket .puts = true
    · obtain ⟨e, hrun⟩ := reply_puts_error (cfg.join fields) hputs
      have hcond : r.socket ∉ s.openSockets ∨ env.socketFault r.socket .puts = true ∨
          env.socketFault r.socket .flush = true := hputs.imp_right .inl
      simp only [if_pos hcond, s₁] at hrun ⊢
      rw [hrun]
      exact .putsFails e fields hr
    · rw [not_or, not_not, Bool.not_eq_true] at hputs
      obtain ⟨hopen, hputs⟩ := hputs
      have hopen' : r.socket ∈ s.openSockets := hopen
      cases hflush : env.socketFault r.socket .flush with
      | true =>
        obtain ⟨e, hrun⟩ := reply_flush_error (cfg.join fields) hopen hputs hflush
        simp only [or_true, if_true, s₁] at hrun ⊢
        rw [hrun]
        exact .flushFails e fields hr hopen'
      | false =>
        have hcond : ¬ (r.socket ∉ s.openSockets ∨ env.socketFault r.socket .puts = true ∨
            false = true) := by simp [hopen', hputs]
        have hrun := reply_flushed (cfg.join fields) hopen hputs hflush
        simp only [if_neg hcond, s₁] at hrun ⊢
        rw [hrun]
        let s₂ : State := { s₁ with
          history := .flush r.socket true :: .puts r.socket (cfg.join fields) true :: s₁.history }
        have hopen₂ : r.socket ∈ s₂.openSockets := hopen
        cases hclose : env.socketFault r.socket .close with
        | true =>
          obtain ⟨e, hlast⟩ := onSocket_error (.close r.socket) (s := s₂) (.inr hclose)
          show Replied cfg cause index r s (onSocket env .close r.socket (.close r.socket) s₂) _
          rw [hlast]
          exact .closeFails e fields hr hopen'
        | false =>
          have hlast := onSocket_ok (.close r.socket) hopen₂ hclose
          show Replied cfg cause index r s (onSocket env .close r.socket (.close r.socket) s₂) _
          rw [hlast]
          exact .completes fields hr hopen'

/-- Of everything else, completing a request leaves the state as it was. -/
theorem completeRequest_snd (cfg : Config) (env : Environment) (cause : Cause)
    (h : s.pendingRequests.lookup index = some r) :
    ∃ events closed, (completeRequest cfg env cause index s).2 =
      s.afterReply index r.socket events closed := by
  have hreplied := completeRequest_replied cfg env cause h
  generalize completeRequest cfg env cause index s = result at hreplied ⊢
  generalize s.replyVerdict env r = v at hreplied
  cases hreplied <;> exact ⟨_, _, rfl⟩

/-! ## The passes -/

/-- One round of `satisfyRequests`. -/
theorem satisfyRequest_run (h : s.pendingRequests.lookup index = some r) :
    satisfyRequest cfg env index s =
      match s.allThere r.channels with
      | .error e => (.error e, s)
      | .ok false => (.ok (), s)
      | .ok true => completeRequest cfg env .satisfied index s := by
  simp only [satisfyRequest, bind_apply, evaluates_apply, element_ok h]
  cases s.allThere r.channels with
  | error e => rfl
  | ok there => cases there <;> rfl

/-- One round of `processTimeouts`. -/
theorem processTimeout_run (h : s.pendingRequests.lookup index = some r) :
    processTimeout cfg env index s =
      if s.expired cfg r then completeRequest cfg env .timeout index s else (.ok (), s) := by
  simp only [processTimeout, bind_apply, evaluates_apply, element_ok h, reads_apply]
  cases s.expired cfg r <;> rfl

variable (cfg env) in
theorem satisfyRequest_missing (h : s.pendingRequests.lookup index = none) :
    ∃ e, satisfyRequest cfg env index s = (.error e, s) :=
  ⟨_, bind_error (by rw [evaluates_apply, element_error h])⟩

variable (cfg env) in
theorem processTimeout_missing (h : s.pendingRequests.lookup index = none) :
    ∃ e, processTimeout cfg env index s = (.error e, s) :=
  ⟨_, bind_error (by rw [evaluates_apply, element_error h])⟩

/-- The record of texts that EPICS delivered. -/
def deliveries (told : List (String × String)) : List Event :=
  told.map fun d => .delivered d.1 d.2

/-- A change of channel data and nothing else: elements may be stored but
not removed, PVs may be added and be told new values. -/
structure DataOnly (s t : State) : Prop where
  rest : ∃ values units known pvs events told,
    t = { s with
      values, units, knownChannels := known, pvs, events
      history := deliveries told ++ s.history }
  table : ∀ tb c, c ∈ s.table tb → c ∈ t.table tb
  known : ∀ c, c ∈ s.knownChannels → c ∈ t.knownChannels

theorem DataOnly.refl (s : State) : DataOnly s s :=
  ⟨⟨_, _, _, _, _, [], rfl⟩, fun _ _ => id, fun _ => id⟩

theorem countUpdate_dataOnly (channel : String) (s : State) :
    DataOnly s (s.countUpdate channel) := by
  unfold State.countUpdate
  split
  · split
    · refine ⟨⟨_, _, _, _, _, [], rfl⟩, State.mem_table_congr rfl rfl, fun c hc => ?_⟩
      exact (AList.mem_insert _).mpr (.inr hc)
    · exact .refl s
  · exact .refl s

theorem store_dataOnly (table : Table) (channel text : String) (s : State) :
    DataOnly s (s.store table channel text) := by
  cases table with
  | values =>
    refine ⟨⟨_, _, _, _, _, [], rfl⟩, fun tb c hc => ?_, fun _ => id⟩
    cases tb with
    | values => exact (AList.mem_insert _).mpr (.inr hc)
    | units => exact hc
  | units =>
    refine ⟨⟨_, _, _, _, _, [], rfl⟩, fun tb c hc => ?_, fun _ => id⟩
    cases tb with
    | values => exact hc
    | units => exact (AList.mem_insert _).mpr (.inr hc)

theorem deliver_dataOnly (name text : String) (s : State) : DataOnly s (s.deliver name text) := by
  unfold State.deliver
  split
  · exact .refl s
  · exact ⟨⟨_, _, _, _, _, [(name, text)], rfl⟩, State.mem_table_congr rfl rfl,
      fun _ => id⟩

theorem addLink_dataOnly (name : String) (link : Table × String) (s : State) :
    DataOnly s (s.addLink name link) := by
  unfold State.addLink
  split
  · exact .refl s
  · exact ⟨⟨_, _, _, _, _, [], rfl⟩, State.mem_table_congr rfl rfl, fun _ => id⟩

theorem addPV_dataOnly (name : String) (s : State) : DataOnly s (s.addPV name) := by
  unfold State.addPV
  split
  · exact .refl s
  · exact ⟨⟨_, _, _, _, _, [], rfl⟩, State.mem_table_congr rfl rfl, fun _ => id⟩

/-- The effect allows completing requests, each in the pass that its state
calls for, and changing channel data. -/
structure Allows (cfg : Config) (env : Environment) (E : Effect State) : Prop where
  satisfied : ∀ s index r, s.pendingRequests.lookup index = some r →
    s.allThere r.channels = .ok true → E.rel s (completeRequest cfg env .satisfied index s).2
  timeout : ∀ s index r, s.pendingRequests.lookup index = some r →
    s.expired cfg r = true → E.rel s (completeRequest cfg env .timeout index s).2
  data : ∀ s t, DataOnly s t → E.rel s t

/-- The effect allows what giving a PV's value to the linked element `x`
does. -/
structure AllowsUpdate (cfg : Config) (env : Environment) (E : Effect State) (name : String)
    (x : Table × String) : Prop where
  satisfied : ∀ s index r, s.pendingRequests.lookup index = some r →
    s.allThere r.channels = .ok true → E.rel s (completeRequest cfg env .satisfied index s).2
  deliver : ∀ s text, E.rel s (s.deliver name text)
  store : ∀ s text, E.rel s (s.store x.1 x.2 text)
  count : ∀ s, E.rel s (s.countUpdate x.2)

/-- It is enough to look at the ways of `Replied`. -/
theorem Allows.of_replied {E : Effect State}
    (replied : ∀ cause s index r result v, s.pendingRequests.lookup index = some r →
      Replied cfg cause index r s result v →
      (cause = .satisfied → s.allThere r.channels = .ok true) →
      (cause = .timeout → s.expired cfg r = true) → E.rel s result.2)
    (data : ∀ s t, DataOnly s t → E.rel s t) : Allows cfg env E where
  satisfied s index r hr hthere :=
    replied .satisfied s index r _ _ hr (completeRequest_replied cfg env _ hr) (fun _ => hthere)
      nofun
  timeout s index r hr hexpired :=
    replied .timeout s index r _ _ hr (completeRequest_replied cfg env _ hr) nofun fun _ => hexpired
  data := data

section Updates

variable {E : Effect State} {name : String} {x : Table × String}

theorem satisfyRequests_within
    (satisfied : ∀ s index r, s.pendingRequests.lookup index = some r →
      s.allThere r.channels = .ok true →
      E.rel s (completeRequest cfg env .satisfied index s).2) :
    Within E (satisfyRequests cfg env) := by
  apply Within.bind
  · exact Within.reads _
  intro indices
  refine Within.forEach fun index _ s => ?_
  cases hr : s.pendingRequests.lookup index with
  | none =>
    obtain ⟨e, hrun⟩ := satisfyRequest_missing cfg env hr
    rw [hrun]
    exact E.refl s
  | some r =>
    rw [satisfyRequest_run hr]
    split
    · exact E.refl s
    · exact E.refl s
    · next hthere => exact satisfied s index r hr hthere

theorem processTimeouts_within
    (timeout : ∀ s index r, s.pendingRequests.lookup index = some r →
      s.expired cfg r = true → E.rel s (completeRequest cfg env .timeout index s).2) :
    Within E (processTimeouts cfg env) := by
  apply Within.bind
  · exact Within.reads _
  intro indices
  refine Within.forEach fun index _ s => ?_
  cases hr : s.pendingRequests.lookup index with
  | none =>
    obtain ⟨e, hrun⟩ := processTimeout_missing cfg env hr
    rw [hrun]
    exact E.refl s
  | some r =>
    rw [processTimeout_run hr]
    split
    · next hexpired => exact timeout s index r hr hexpired
    · exact E.refl s

theorem deliveries_rel (deliver : ∀ s text, E.rel s (s.deliver name text)) (texts : List String)
    (s : State) : E.rel s (texts.foldl (State.deliver name) s) := by
  induction texts generalizing s with
  | nil => exact E.refl s
  | cons text texts ih => exact E.trans (deliver s text) (ih _)

theorem AllowsUpdate.newEpicsValue (h : AllowsUpdate cfg env E name x) :
    Within E (newEpicsValue cfg env name x) := by
  apply Within.bind
  · exact Within.modify (deliveries_rel h.deliver _)
  intro _
  apply Within.bind
  · exact Within.modify fun s => h.store s _
  intro _
  apply Within.bind
  · apply Within.attempt
    apply Within.bind
    · exact Within.modify h.count
    · exact fun _ => satisfyRequests_within h.satisfied
  · exact fun _ => Within.pure _

theorem AllowsUpdate.link (h : AllowsUpdate cfg env E name x)
    (hlink : ∀ s, E.rel s (s.addLink name x)) : Within E (link cfg env name x) := by
  apply Within.bind
  · exact Within.evaluates _
  intro pv
  apply Within.bind
  · exact Within.reads _
  intro linked
  split
  · exact Within.raise _
  split
  · exact Within.pure _
  apply Within.bind h.newEpicsValue
  intro _
  apply Within.bind
  · exact Within.modify (deliveries_rel h.deliver _)
  intro _
  exact Within.modify hlink

theorem monitorChannel_within {channel : String} (hvalue : Within E (epicschannel channel))
    (hunits : Within E (epicschannel (channel ++ ".EGU")))
    (hknown : ∀ s : State,
      E.rel s { s with knownChannels := s.knownChannels.insert channel .blank })
    (hlinkValue : Within E (link cfg env channel (.values, channel)))
    (hlinkUnits : Within E (link cfg env (channel ++ ".EGU") (.units, channel))) :
    Within E (monitorChannel cfg env channel) := by
  apply Within.bind
  · exact Within.reads _
  intro known
  split
  · exact Within.pure _
  apply Within.bind hvalue
  intro _
  apply Within.bind hunits
  intro _
  apply Within.bind
  · exact Within.modify hknown
  intro _
  apply Within.bind hlinkValue
  exact fun _ => hlinkUnits

end Updates

namespace Allows

variable {E : Effect State}

theorem satisfyRequests (h : Allows cfg env E) : Within E (satisfyRequests cfg env) :=
  satisfyRequests_within h.satisfied

theorem processTimeouts (h : Allows cfg env E) : Within E (processTimeouts cfg env) :=
  processTimeouts_within h.timeout

theorem update (h : Allows cfg env E) (name : String) (x : Table × String) :
    AllowsUpdate cfg env E name x where
  satisfied := h.satisfied
  deliver s text := h.data _ _ (deliver_dataOnly name text s)
  store s text := h.data _ _ (store_dataOnly _ _ text s)
  count s := h.data _ _ (countUpdate_dataOnly _ s)

theorem link (h : Allows cfg env E) (name : String) (x : Table × String) :
    Within E (link cfg env name x) :=
  (h.update name x).link fun s => h.data _ _ (addLink_dataOnly name x s)

theorem epicschannel (h : Allows cfg env E) (name : String) : Within E (epicschannel name) :=
  Within.modify fun s => h.data _ _ (addPV_dataOnly name s)

theorem monitorChannel (h : Allows cfg env E) (channel : String) :
    Within E (monitorChannel cfg env channel) := by
  refine monitorChannel_within (h.epicschannel channel) (h.epicschannel _) (fun s => h.data _ _ ?_)
    (h.link channel _) (h.link _ _)
  exact ⟨⟨_, _, _, _, _, [], rfl⟩, State.mem_table_congr rfl rfl,
    fun c hc => (AList.mem_insert _).mpr (.inr hc)⟩

theorem monitorChannels (h : Allows cfg env E) (channels : List String) :
    Within E (monitorChannels cfg env channels) :=
  Within.forEach fun channel _ => h.monitorChannel channel

theorem updateLinkedVariables (h : Allows cfg env E) (name : String) :
    Within E (updateLinkedVariables cfg env name) := by
  apply Within.bind
  · exact Within.reads _
  · exact fun links => Within.forEach fun x _ => (h.update name x).newEpicsValue

end Allows

/-! ## Reading a request -/

section Requests

variable {socket : Socket} {line : String}

theorem close_run (env : Environment) (socket : Socket) (s : State) :
    ∃ ok, (close env socket s).2 = s.afterSocket .close socket (.close socket ok) := by
  by_cases h : socket ∈ s.openSockets ∧ env.socketFault socket .close = false
  · rw [close, onSocket_ok _ h.1 h.2]
    exact ⟨true, rfl⟩
  · rw [not_and_or, Bool.not_eq_false] at h
    obtain ⟨e, hrun⟩ := onSocket_error (.close socket) h
    rw [close, hrun]
    exact ⟨false, rfl⟩

/-- How queueing a request can go. -/
inductive Queued (cfg : Config) (env : Environment) (socket : Socket) (line : String) (s : State) :
    Except TclError Unit × State → Prop where
  | badLine (e : TclError) : Queued cfg env socket line s (.error e, s)
  | monitorFails (e : TclError) (channels : List String) :
      cfg.split line = some channels → (monitorChannels cfg env channels s).1 = .error e →
      Queued cfg env socket line s (.error e, (monitorChannels cfg env channels s).2)
  | queued (channels : List String) :
      cfg.split line = some channels → (monitorChannels cfg env channels s).1 = .ok () →
      Queued cfg env socket line s
        (.ok (), (monitorChannels cfg env channels s).2.enqueue socket channels)

variable (cfg env s socket line) in
theorem queueRequest_queued :
    Queued cfg env socket line s (queueRequest cfg env socket line s) := by
  unfold queueRequest
  simp only [bind_apply, evaluates_apply, modify_apply]
  cases hsplit : cfg.split line with
  | none => exact .badLine _
  | some channels =>
    cases hrun : monitorChannels cfg env channels s with
    | mk result t =>
      cases result with
      | error e =>
        have h : Queued cfg env socket line s (.error e, (monitorChannels cfg env channels s).2) :=
          .monitorFails e channels hsplit (by rw [hrun])
        rw [hrun] at h
        simpa only [hrun] using h
      | ok u =>
        have h : Queued cfg env socket line s
            (.ok (), (monitorChannels cfg env channels s).2.enqueue socket channels) :=
          .queued channels hsplit (by rw [hrun])
        rw [hrun] at h
        simpa only [hrun] using h

/-- How reading a request can go. -/
inductive ReadRequest (cfg : Config) (env : Environment) (socket : Socket) (line : String)
    (s : State) : State → Prop where
  | getsFails : env.socketFault socket .gets = true →
      ReadRequest cfg env socket line s (s.unreadable socket)
  | closed (ok : Bool) : line = "" →
      ReadRequest cfg env socket line s
        ((s.unreadable socket).afterSocket .close socket (.close socket ok))
  | rejected (e : TclError) (t : State) (ok : Bool) :
      queueRequest cfg env socket line (s.unreadable socket) = (.error e, t) →
      ReadRequest cfg env socket line s (t.afterSocket .close socket (.close socket ok))
  | accepted (t u : State) :
      env.socketFault socket .gets = false → line ≠ "" →
      queueRequest cfg env socket line (s.unreadable socket) = (.ok (), t) →
      satisfyRequests cfg env t = (.ok (), u) →
      ReadRequest cfg env socket line s u
  | failed (e : TclError) (t u : State) (ok : Bool) :
      env.socketFault socket .gets = false → line ≠ "" →
      queueRequest cfg env socket line (s.unreadable socket) = (.ok (), t) →
      satisfyRequests cfg env t = (.error e, u) →
      ReadRequest cfg env socket line s (u.afterSocket .close socket (.close socket ok))

theorem readRequest_cases :
    ReadRequest cfg env socket line s (readRequest cfg env socket line s).2 := by
  unfold readRequest
  simp only [bind_apply, modify_apply]
  by_cases hgets : env.socketFault socket .gets = true
  · rw [if_pos hgets]
    exact .getsFails hgets
  rw [if_neg hgets]
  rw [Bool.not_eq_true] at hgets
  by_cases hline : line = ""
  · rw [if_pos hline]
    obtain ⟨ok, hclose⟩ := close_run env socket (s.unreadable socket)
    rw [hclose]
    exact .closed ok hline
  rw [if_neg hline]
  simp only [bind_apply, attempt_apply]
  cases hqueue : queueRequest cfg env socket line (s.unreadable socket) with
  | mk result t =>
    cases result with
    | error e =>
      obtain ⟨ok, hclose⟩ := close_run env socket t
      simp only [hclose]
      exact .rejected e t ok hqueue
    | ok _ =>
      cases hsatisfy : satisfyRequests cfg env t with
      | mk result u =>
        cases result with
        | error e =>
          obtain ⟨ok, hclose⟩ := close_run env socket u
          simp only [hsatisfy, hclose]
          exact .failed e t u ok hgets hline hqueue hsatisfy
        | ok _ =>
          simp only [hsatisfy]
          exact .accepted t u hgets hline hqueue hsatisfy

end Requests

/-! ## One step -/

/-- What one step of the server can do. -/
inductive Step (cfg : Config) (env : Environment) (s : State) : Action → State → Prop where
  | connect : Step cfg env s .connect { s with
      openSockets := s.nextSocket :: s.openSockets
      readable := s.nextSocket :: s.readable
      nextSocket := s.nextSocket + 1 }
  | request (socket : Socket) (line : String) (t : State) : socket ∈ s.readable →
      ReadRequest cfg env socket line s t → Step cfg env s (.request socket line) t
  | deliver (pv text : String) : pv ∈ s.pvs → Step cfg env s (.deliver pv text) (s.deliver pv text)
  | dispatch (pv : String) (rest : List String) : s.events = pv :: rest →
      Step cfg env s .dispatch (updateLinkedVariables cfg env pv { s with events := rest }).2
  | ignored (pv : String) (rest : List String) : s.events = pv :: rest →
      Step cfg env s .dispatch { s with events := rest }
  | tick (t : State) : processTimeouts cfg env { s with tick := s.tick + 1 } = (.ok (), t) →
      Step cfg env s .tick t
  | lastTick (e : TclError) (t : State) :
      processTimeouts cfg env { s with tick := s.tick + 1 } = (.error e, t) →
      Step cfg env s .tick { t with running := false }

theorem step_cases {a : Action} (h : s.step cfg (env, a) = some t) : Step cfg env s a t := by
  unfold State.step at h
  split at h
  · cases a with
    | connect =>
      cases h
      exact .connect
    | request socket line =>
      simp only at h
      split at h
      · next hreadable =>
        cases h
        exact .request socket line _ hreadable readRequest_cases
      · cases h
    | deliver pv text =>
      simp only at h
      split at h
      · next hpv =>
        cases h
        exact .deliver pv text hpv
      · cases h
    | dispatch =>
      simp only at h
      split at h
      · cases h
      · next pv rest hevents =>
        split at h
        · cases h
          exact .dispatch pv rest hevents
        · cases h
          exact .ignored pv rest hevents
    | tick =>
      simp only [Option.some.injEq] at h
      subst h
      cases hrun : processTimeouts cfg env { s with tick := s.tick + 1 } with
      | mk result t =>
        cases result with
        | ok _ => exact .tick t hrun
        | error e => exact .lastTick e t hrun
  · cases h

/-! ## Invariants that do not look at sockets -/

/-- Nothing is done to requests, channels and the history. -/
structure Idle (s t : State) : Prop where
  pendingRequests : t.pendingRequests = s.pendingRequests
  requestIndex : t.requestIndex = s.requestIndex
  knownChannels : t.knownChannels = s.knownChannels
  values : t.values = s.values
  units : t.units = s.units
  pvs : t.pvs = s.pvs
  history : t.history = s.history
  events : ∀ p ∈ t.events, p ∈ s.events

/-- What has to be shown of a property to know that the step `a` from `s`
keeps it. -/
structure KeptBy (cfg : Config) (env : Environment) (s : State) (a : Action)
    (P : State → Prop) : Prop where
  idle : ∀ u v, P u → Idle u v → P v
  closed : ∀ u socket ok, P u → P (u.afterSocket .close socket (.close socket ok))
  queued : ∀ u socket line, a = .request socket line → P u →
    P (queueRequest cfg env socket line u).2
  satisfied : ∀ u, P u → P (satisfyRequests cfg env u).2
  timeouts : ∀ u, P u → P (processTimeouts cfg env u).2
  deliver : ∀ pv text, P s → P (s.deliver pv text)
  dispatch : ∀ pv rest, a = .dispatch → s.events = pv :: rest → P s →
    P (updateLinkedVariables cfg env pv { s with events := rest }).2

theorem KeptBy.readRequest {P : State → Prop} {socket : Socket} {line : String}
    (k : KeptBy cfg env s (.request socket line) P) (hread : ReadRequest cfg env socket line s t)
    (h : P s) : P t := by
  have hstart : P (s.unreadable socket) :=
    k.idle s _ h ⟨rfl, rfl, rfl, rfl, rfl, rfl, rfl, fun _ => id⟩
  have hqueue := k.queued _ socket line rfl hstart
  cases hread with
  | getsFails => exact hstart
  | closed ok => exact k.closed _ socket ok hstart
  | rejected e v ok hrun =>
    rw [hrun] at hqueue
    exact k.closed _ socket ok hqueue
  | accepted v u _ _ hrun hpass =>
    rw [hrun] at hqueue
    have hend := k.satisfied v hqueue
    rwa [hpass] at hend
  | failed e v u ok _ _ hrun hpass =>
    rw [hrun] at hqueue
    have hend := k.satisfied v hqueue
    rw [hpass] at hend
    exact k.closed _ socket ok hend

theorem KeptBy.step {P : State → Prop} {a : Action} (k : KeptBy cfg env s a P)
    (hstep : s.step cfg (env, a) = some t) (h : P s) : P t := by
  cases step_cases hstep with
  | connect => exact k.idle s _ h ⟨rfl, rfl, rfl, rfl, rfl, rfl, rfl, fun _ => id⟩
  | request socket line t _ hread => exact k.readRequest hread h
  | deliver pv text => exact k.deliver pv text h
  | dispatch pv rest hevents => exact k.dispatch pv rest rfl hevents h
  | ignored pv rest hevents =>
    refine k.idle s _ h ⟨rfl, rfl, rfl, rfl, rfl, rfl, rfl, ?_⟩
    intro p hp
    rw [hevents]
    exact List.mem_cons_of_mem pv hp
  | tick t hrun =>
    have hticked := k.idle s { s with tick := s.tick + 1 } h
      ⟨rfl, rfl, rfl, rfl, rfl, rfl, rfl, fun _ => id⟩
    have hend := k.timeouts _ hticked
    rwa [hrun] at hend
  | lastTick e t hrun =>
    have hticked := k.idle s { s with tick := s.tick + 1 } h
      ⟨rfl, rfl, rfl, rfl, rfl, rfl, rfl, fun _ => id⟩
    have hend := k.timeouts _ hticked
    rw [hrun] at hend
    exact k.idle t _ hend ⟨rfl, rfl, rfl, rfl, rfl, rfl, rfl, fun _ => id⟩

/-! ## The names of the channels -/

section Commands

/-- New channels have allowed names. -/
def newNames (allowed : String → Prop) : Effect State where
  rel s t := ∀ name ∈ t.pvs, name ∈ s.pvs ∨ allowed name
  refl _ _ h := .inl h
  trans h h' _ hname := (h' _ hname).elim (h _) .inr

variable {allowed : String → Prop} {name : String}

theorem newNames_of_pvs (h : t.pvs = s.pvs) : (newNames allowed).rel s t :=
  fun _ hname => .inl (h ▸ hname)

theorem newNames_completeRequest (hr : s.pendingRequests.lookup index = some r) :
    (newNames allowed).rel s (completeRequest cfg env cause index s).2 := by
  obtain ⟨events, closed, hrun⟩ := completeRequest_snd cfg env cause hr
  rw [hrun]
  exact newNames_of_pvs rfl

/-- A PV that there is gets other data. -/
theorem newNames_insert {pv pv' : PV} (h : s.pvs.lookup name = some pv)
    (ht : t.pvs = s.pvs.insert name pv') : (newNames allowed).rel s t := by
  intro n hn
  rw [ht, AList.mem_insert] at hn
  rcases hn with rfl | hn
  · exact .inl (AList.lookup_isSome.mp (by rw [h]; rfl))
  · exact .inl hn

theorem newNames_deliver (name : String) (s : State) (text : String) :
    (newNames allowed).rel s (s.deliver name text) := by
  unfold State.deliver
  split
  · exact (newNames allowed).refl s
  · next pv hpv => exact newNames_insert hpv rfl

theorem newNames_countUpdate (index : String) (s : State) :
    (newNames allowed).rel s (s.countUpdate index) := by
  unfold State.countUpdate
  split
  · split <;> exact newNames_of_pvs rfl
  · exact newNames_of_pvs rfl

theorem newNames_update (cfg : Config) (env : Environment) (name : String) (x : Table × String) :
    AllowsUpdate cfg env (newNames allowed) name x where
  satisfied _ _ _ hr _ := newNames_completeRequest hr
  deliver := newNames_deliver name
  store s text := newNames_of_pvs (by unfold State.store; split <;> rfl)
  count := newNames_countUpdate x.2

theorem newNames_link (cfg : Config) (env : Environment) (name : String) (x : Table × String) :
    Within (newNames allowed) (link cfg env name x) := by
  refine (newNames_update cfg env name x).link fun s => ?_
  unfold State.addLink
  split
  · exact (newNames allowed).refl s
  · next pv hpv => exact newNames_insert hpv rfl

theorem newNames_epicschannel (h : allowed name) :
    Within (newNames allowed) (epicschannel name) := by
  refine Within.modify fun s n hn => ?_
  unfold State.addPV at hn
  split at hn
  · exact .inl hn
  · rcases (AList.mem_insert _).mp hn with rfl | hn
    · exact .inr h
    · exact .inl hn

theorem newNames_monitorChannels {channels : List String}
    (h : ∀ channel ∈ channels, allowed channel ∧ allowed (channel ++ ".EGU")) :
    Within (newNames allowed) (monitorChannels cfg env channels) := by
  refine Within.forEach fun channel hchannel => ?_
  obtain ⟨hvalue, hunits⟩ := h channel hchannel
  exact monitorChannel_within (newNames_epicschannel hvalue) (newNames_epicschannel hunits)
    (fun s => newNames_of_pvs rfl) (newNames_link cfg env _ _) (newNames_link cfg env _ _)

/-- Allowed names leave the commands alone. -/
theorem commandsKept_of_newNames (h : s.CommandsKept cfg)
    (hnames : (newNames fun name => cfg.isCommand name = false).rel s t) : t.CommandsKept cfg :=
  fun name hname => (hnames name hname).elim (h name) id

/-- **A request that names no command replaces none.** -/
theorem commandsKept_step {a : Action} (h : s.CommandsKept cfg)
    (hok : keepsCommands cfg (env, a) = true) (hstep : s.step cfg (env, a) = some t) :
    t.CommandsKept cfg := by
  have kept : KeptBy cfg env s a (State.CommandsKept cfg) := {
    idle := fun u v hu hidle => commandsKept_of_newNames hu (newNames_of_pvs hidle.pvs)
    closed := fun u socket ok hu => hu
    queued := by
      rintro u socket line rfl hu
      have hmonitor : ∀ channels, cfg.split line = some channels →
          (monitorChannels cfg env channels u).2.CommandsKept cfg := by
        intro channels hsplit
        refine commandsKept_of_newNames hu (newNames_monitorChannels (fun channel hchannel => ?_) u)
        simp only [keepsCommands, hsplit, Option.getD_some, List.all_eq_true] at hok
        simpa using hok channel hchannel
      have hqueue := queueRequest_queued cfg env u socket line
      generalize queueRequest cfg env socket line u = result at hqueue ⊢
      cases hqueue with
      | badLine e => exact hu
      | monitorFails e channels hsplit => exact hmonitor channels hsplit
      | queued channels hsplit => exact hmonitor channels hsplit
    satisfied := fun u hu => commandsKept_of_newNames hu
      (satisfyRequests_within (fun _ _ _ hr _ => newNames_completeRequest hr) u)
    timeouts := fun u hu => commandsKept_of_newNames hu
      (processTimeouts_within (fun _ _ _ hr _ => newNames_completeRequest hr) u)
    deliver := fun pv text hs => commandsKept_of_newNames hs (newNames_deliver pv s text)
    dispatch := by
      intro pv rest _ _ hs
      have hrun : Within (newNames fun name => cfg.isCommand name = false)
          (updateLinkedVariables cfg env pv) := by
        apply Within.bind
        · exact Within.reads _
        · exact fun links => Within.forEach fun x _ => (newNames_update cfg env pv x).newEpicsValue
      exact commandsKept_of_newNames (s := { s with events := rest }) hs (hrun _) }
  exact kept.step hstep h

theorem commandsKept_run {as : List (Environment × Action)}
    (h : Run (State.step cfg) (fun _ a => keepsCommands cfg a = true) State.initial as s) :
    s.CommandsKept cfg :=
  h.invariant (State.CommandsKept cfg) (fun _ hname => nomatch hname)
    fun _ ⟨_, _⟩ _ hinv hok hstep => commandsKept_step hinv hok hstep

end Commands

end EpicsTcl.Server
