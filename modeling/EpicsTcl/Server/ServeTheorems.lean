/-
EpicsTcl.Server.ServeTheorems — every accepted request is served once.

`OwnSockets` holds in every run: no two pending requests, and no request
and no socket that is still to be read, share a socket. What is written to
the sockets and when they are closed is said by `ServesOnce`.

`readRequest` treats every error of its `satisfyRequests` as an error of
the request it has just read, and closes that socket. This is right only if
the error is the request's own, raised after its entry was removed and
before its socket was closed; `failsAlone` says that this is so. In the
runs in which it is so at every request, the server serves once
(`serves_once`), by the invariant `Orderly`. `foreign_error_keeps_entry` is
a run in which it is not: a channel name with a glob character passes for a
known channel, its readiness test raises, the socket is closed and the
entry stays.
-/
import EpicsTcl.Server.Passes
import EpicsTcl.Library.Log

namespace EpicsTcl.Server

open EpicsTcl.Library EpicsTcl.Library.Script

variable {cfg : Config} {env : Environment} {cause : Cause} {index : Nat} {r : Request}
  {s t u : State} {hand : List Socket} {socket : Socket} {channels : List String}

/-! ## Whose socket it is -/

/-- Sockets belong to one request each. `hand` are the sockets that
`readRequest` is about to enter. -/
structure OwnSockets (hand : List Socket) (s : State) : Prop where
  once : s.OneRequestPerSocket
  free : ∀ k ∈ hand ++ s.readable, ∀ i r, s.pendingRequests.lookup i = some r → r.socket ≠ k
  nodup : (hand ++ s.readable).Nodup
  idle_old : ∀ k ∈ hand ++ s.readable, k < s.nextSocket
  held_old : ∀ i r, s.pendingRequests.lookup i = some r → r.socket < s.nextSocket

namespace OwnSockets

theorem initial : OwnSockets [] State.initial where
  once _ _ _ _ h := nomatch h
  free _ h := nomatch h
  nodup := List.nodup_nil
  idle_old _ h := nomatch h
  held_old _ _ h := nomatch h

theorem congr (h : OwnSockets hand s) (hpending : t.pendingRequests = s.pendingRequests)
    (hreadable : t.readable = s.readable) (hnext : t.nextSocket = s.nextSocket) :
    OwnSockets hand t where
  once i j r q hi hj := h.once i j r q (hpending ▸ hi) (hpending ▸ hj)
  free k hk i r hi := h.free k (hreadable ▸ hk) i r (hpending ▸ hi)
  nodup := hreadable ▸ h.nodup
  idle_old k hk := hnext ▸ h.idle_old k (hreadable ▸ hk)
  held_old i r hi := hnext ▸ h.held_old i r (hpending ▸ hi)

theorem data (h : OwnSockets hand s) (hd : DataOnly s t) : OwnSockets hand t := by
  obtain ⟨_, _, _, _, _, _, rfl⟩ := hd.rest
  exact h.congr rfl rfl rfl

theorem afterReply (h : OwnSockets hand s) (events : List Event) (closed : Bool) :
    OwnSockets hand (s.afterReply index socket events closed) := by
  have hpending := (afterReply_progress (s := s) index socket events closed).pending
  exact {
    once := fun i j r q hi hj => h.once i j r q (hpending i r hi) (hpending j q hj)
    free := fun k hk i r hi => h.free k hk i r (hpending i r hi)
    nodup := h.nodup
    idle_old := h.idle_old
    held_old := fun i r hi => h.held_old i r (hpending i r hi) }

theorem allows (cfg : Config) (env : Environment) (hand : List Socket) :
    Allows cfg env (Effect.keeps (OwnSockets hand)) := by
  apply Allows.of_replied
  · intro cause s index r result v _ hreplied _ _ h
    cases hreplied <;> exact h.afterReply _ _
  · exact fun s t hd h => h.data hd

theorem enqueue (h : OwnSockets [socket] s) : OwnSockets [] (s.enqueue socket channels) := by
  have hfree : ∀ i r, s.pendingRequests.lookup i = some r → r.socket ≠ socket :=
    h.free socket (by simp)
  -- an entry is either the new one or an old one
  have hcases : ∀ i r, (s.enqueue socket channels).pendingRequests.lookup i = some r →
      (i = s.requestIndex ∧ r.socket = socket) ∨ s.pendingRequests.lookup i = some r := by
    intro i r hi
    by_cases heq : i = s.requestIndex
    · subst heq
      simp only [State.enqueue, AList.lookup_insert, Option.some.injEq] at hi
      exact .inl ⟨rfl, by rw [← hi]⟩
    · rw [State.enqueue, AList.lookup_insert_ne heq] at hi
      exact .inr hi
  have hidle : ∀ k ∈ s.readable, k ∈ [socket] ++ s.readable := fun k hk => by simp [hk]
  have hnodup := List.nodup_cons.mp h.nodup
  constructor
  case once =>
    intro i j r q hi hj heq
    rcases hcases i r hi with ⟨rfl, hr⟩ | hi' <;> rcases hcases j q hj with ⟨rfl, hq⟩ | hj'
    · rfl
    · exact absurd (heq.symm.trans hr) (hfree j q hj')
    · exact absurd (heq.trans hq) (hfree i r hi')
    · exact h.once i j r q hi' hj' heq
  case free =>
    intro k hk i r hi
    rcases hcases i r hi with ⟨rfl, hr⟩ | hi'
    · rw [hr]
      rintro rfl
      exact hnodup.1 hk
    · exact h.free k (hidle k hk) i r hi'
  case nodup => exact hnodup.2
  case idle_old => exact fun k hk => h.idle_old k (hidle k hk)
  case held_old =>
    intro i r hi
    rcases hcases i r hi with ⟨rfl, hr⟩ | hi'
    · rw [hr]
      exact h.idle_old socket (by simp)
    · exact h.held_old i r hi'

theorem unreadable (h : OwnSockets [] s) (hk : socket ∈ s.readable) :
    OwnSockets [socket] (s.unreadable socket) := by
  have hperm : (socket :: s.readable.erase socket).Perm s.readable :=
    (List.perm_cons_erase hk).symm
  exact {
    once := h.once
    free := fun k hk => h.free k (hperm.mem_iff.mp hk)
    nodup := hperm.nodup_iff.mpr h.nodup
    idle_old := fun k hk => h.idle_old k (hperm.mem_iff.mp hk)
    held_old := h.held_old }

/-- The socket in hand is let go. -/
theorem drop (h : OwnSockets [socket] s) : OwnSockets [] s where
  once := h.once
  free k hk := h.free k (List.mem_cons_of_mem socket hk)
  nodup := (List.nodup_cons.mp h.nodup).2
  idle_old k hk := h.idle_old k (List.mem_cons_of_mem socket hk)
  held_old := h.held_old

theorem afterSocket (h : OwnSockets hand s) (op : SocketOp) (e : Event) :
    OwnSockets hand (s.afterSocket op socket e) :=
  h.congr rfl rfl rfl

theorem connect (h : OwnSockets [] s) : OwnSockets [] { s with
    openSockets := s.nextSocket :: s.openSockets
    readable := s.nextSocket :: s.readable
    nextSocket := s.nextSocket + 1 } := by
  have hnew : s.nextSocket ∉ s.readable := fun hmem => Nat.lt_irrefl _ (h.idle_old _ hmem)
  constructor
  case once => exact h.once
  case free =>
    intro k hk i r hi
    rcases List.mem_cons.mp hk with rfl | hk
    · exact Nat.ne_of_lt (h.held_old i r hi)
    · exact h.free k hk i r hi
  case nodup => exact List.nodup_cons.mpr ⟨hnew, h.nodup⟩
  case idle_old =>
    intro k hk
    rcases List.mem_cons.mp hk with rfl | hk
    · exact Nat.lt_succ_self _
    · exact Nat.lt_succ_of_lt (h.idle_old k hk)
  case held_old => exact fun i r hi => Nat.lt_succ_of_lt (h.held_old i r hi)

theorem queued {line : String} (h : OwnSockets [socket] s)
    {result : Except TclError Unit × State} (hq : Queued cfg env socket line s result) :
    (∃ e, result.1 = .error e ∧ OwnSockets [socket] result.2) ∨
      (result.1 = .ok () ∧ OwnSockets [] result.2) := by
  have hmonitor : ∀ channels, OwnSockets [socket] (monitorChannels cfg env channels s).2 :=
    fun channels => (allows cfg env [socket]).monitorChannels channels s h
  cases hq with
  | badLine e => exact .inl ⟨e, rfl, h⟩
  | monitorFails e channels => exact .inl ⟨e, rfl, hmonitor channels⟩
  | queued channels => exact .inr ⟨rfl, (hmonitor channels).enqueue⟩

theorem readRequest {line : String} (h : OwnSockets [] s) (hk : socket ∈ s.readable)
    (hread : ReadRequest cfg env socket line s t) : OwnSockets [] t := by
  have hstart := h.unreadable hk
  have hqueue := hstart.queued (queueRequest_queued cfg env _ socket line)
  have hsatisfy : ∀ t, OwnSockets [] t → OwnSockets [] (satisfyRequests cfg env t).2 :=
    fun t => (allows cfg env []).satisfyRequests t
  cases hread with
  | getsFails => exact hstart.drop
  | closed => exact hstart.drop.afterSocket _ _
  | rejected e t ok hrun =>
    rw [hrun] at hqueue
    rcases hqueue with ⟨_, _, hown⟩ | ⟨herror, _⟩
    · exact hown.drop.afterSocket _ _
    · cases herror
  | accepted v u _ _ hrun hpass =>
    rw [hrun] at hqueue
    rcases hqueue with ⟨_, herror, _⟩ | ⟨_, hown⟩
    · cases herror
    · have hend := hsatisfy v hown
      rwa [hpass] at hend
  | failed e v u ok _ _ hrun hpass =>
    rw [hrun] at hqueue
    rcases hqueue with ⟨_, herror, _⟩ | ⟨_, hown⟩
    · cases herror
    · have hend := hsatisfy v hown
      rw [hpass] at hend
      exact hend.afterSocket _ _

theorem step {a : Action} (h : OwnSockets [] s) (hstep : s.step cfg (env, a) = some t) :
    OwnSockets [] t := by
  cases step_cases hstep with
  | connect => exact h.connect
  | request socket line t hk hread => exact h.readRequest hk hread
  | deliver pv text => exact h.data (deliver_dataOnly pv text s)
  | dispatch pv rest =>
    exact (allows cfg env []).updateLinkedVariables pv _ (h.congr rfl rfl rfl)
  | ignored pv rest => exact h.congr rfl rfl rfl
  | tick t hrun =>
    have hend := (allows cfg env []).processTimeouts { s with tick := s.tick + 1 }
      (h.congr rfl rfl rfl)
    rwa [hrun] at hend
  | lastTick e t hrun =>
    have hend := (allows cfg env []).processTimeouts { s with tick := s.tick + 1 }
      (h.congr rfl rfl rfl)
    rw [hrun] at hend
    exact hend.congr rfl rfl rfl

end OwnSockets

/-- In every run, no two pending requests have the same socket. -/
theorem requests_have_own_sockets {as : List (Environment × Action)}
    (h : Run (State.step cfg) Always State.initial as s) : s.OneRequestPerSocket := by
  have hown : OwnSockets [] s := h.invariant (OwnSockets []) OwnSockets.initial
    fun _ ⟨_, _⟩ _ hinv _ hstep => hinv.step hstep
  exact hown.once

/-! ## What is done to the sockets -/

/-- The server serves every accepted request exactly once. A reply is out
when it has been flushed. -/
structure ServesOnce (s : State) : Prop where
  held_open : ∀ i r, s.pendingRequests.lookup i = some r → r.socket ∈ s.openSockets
  held_once : s.OneRequestPerSocket
  closed_untouched : ∀ later e earlier k, s.history = later ++ e :: earlier →
    e.socket? = some k → ∀ ok, .close k ok ∉ earlier
  one_line : ∀ k, s.history.countP (Event.isPuts k) ≤ 1
  reply_closed : ∀ later earlier k, s.history = later ++ .flush k true :: earlier →
    ∃ ok, .close k ok ∈ later
  closed_released : ∀ k ok, .close k ok ∈ s.history →
    ∀ i r, s.pendingRequests.lookup i = some r → r.socket ≠ k

/-- Nothing has been done to the socket. -/
def Untouched (log : List Event) (k : Socket) : Prop :=
  ∀ e ∈ log, e.socket? ≠ some k

/-- The event finds its socket not closed, and no line written if it writes
one. -/
def InPlace (earlier : List Event) (e : Event) : Prop :=
  ∀ k, (e.socket? = some k → ∀ ok, .close k ok ∉ earlier) ∧
    (e.isPuts k = true → ∀ x ∈ earlier, x.isPuts k = false)

/-- The invariant behind `ServesOnce`. -/
structure Orderly (hand : List Socket) (s : State) : Prop where
  own : OwnSockets hand s
  idle_open : ∀ k ∈ hand ++ s.readable, k ∈ s.openSockets
  idle_untouched : ∀ k ∈ hand ++ s.readable, Untouched s.history k
  held_open : ∀ i r, s.pendingRequests.lookup i = some r → r.socket ∈ s.openSockets
  held_untouched : ∀ i r, s.pendingRequests.lookup i = some r → Untouched s.history r.socket
  open_old : ∀ k ∈ s.openSockets, k < s.nextSocket
  touched_old : ∀ e ∈ s.history, ∀ k, e.socket? = some k → k < s.nextSocket
  placed : Each InPlace s.history
  replied_closed : ∀ k, .flush k true ∈ s.history → ∃ ok, .close k ok ∈ s.history
  closed_gone : ∀ k ok, .close k ok ∈ s.history → k ∉ s.openSockets

theorem Untouched.no_close {log : List Event} {k : Socket} (h : Untouched log k) (ok : Bool) :
    .close k ok ∉ log := fun hmem => h _ hmem rfl

theorem Untouched.no_puts {log : List Event} {k : Socket} (h : Untouched log k) :
    ∀ x ∈ log, x.isPuts k = false := by
  intro x hx
  have hsocket := h x hx
  cases x with
  | puts k' line ok =>
    simp only [Event.socket?, ne_eq, Option.some.injEq] at hsocket
    simpa [Event.isPuts] using hsocket
  | _ => rfl

theorem inPlace_puts {log : List Event} {k : Socket} {line : String} {ok : Bool}
    (hclose : ∀ ok, .close k ok ∉ log) (hputs : ∀ x ∈ log, x.isPuts k = false) :
    InPlace log (.puts k line ok) := by
  intro k'
  constructor
  · intro heq
    cases heq
    exact hclose
  · intro heq
    simp only [Event.isPuts, decide_eq_true_eq] at heq
    subst heq
    exact hputs

theorem inPlace_of_socket {log : List Event} {k : Socket} {e : Event}
    (hclose : ∀ ok, .close k ok ∉ log) (hsocket : ∀ k', e.socket? = some k' → k' = k)
    (hputs : ∀ k', e.isPuts k' = false) : InPlace log e := by
  intro k'
  constructor
  · intro heq
    rw [hsocket k' heq]
    exact hclose
  · intro heq
    rw [hputs] at heq
    cases heq

theorem inPlace_of_no_socket {log : List Event} {e : Event} (hsocket : e.socket? = none) :
    InPlace log e := by
  intro k
  constructor
  · rw [hsocket]
    nofun
  · cases e <;> simp_all [Event.socket?, Event.isPuts]

/-- The events of one reply. -/
structure ReplyLog (k : Socket) (events : List Event) (closed : Bool) : Prop where
  own : ∀ e ∈ events, ∀ k', e.socket? = some k' → k' = k
  placed : ∀ log, Untouched log k → Each InPlace log → Each InPlace (events ++ log)
  replied : ∀ k', .flush k' true ∈ events → closed = true
  closes : closed = true ↔ ∃ ok, .close k ok ∈ events

/-- A line is written on a socket that nothing was done to. -/
theorem each_written {log : List Event} {k : Socket} (c : Completion) (line : String) (ok : Bool)
    (hlog : Untouched log k) (h : Each InPlace log) :
    Each InPlace (.puts k line ok :: .completed c :: log) := by
  refine ⟨inPlace_puts ?_ ?_, inPlace_of_no_socket rfl, h⟩
  · simp [hlog.no_close]
  · simpa [Event.isPuts] using hlog.no_puts

theorem replyLog_written (c : Completion) (k : Socket) (line : String) (ok : Bool) :
    ReplyLog k [.puts k line ok, .completed c] false where
  own := by simp [Event.socket?]
  placed log hlog h := each_written c line ok hlog h
  replied := by simp
  closes := by simp

theorem replyLog_flushFails (c : Completion) (k : Socket) (line : String) :
    ReplyLog k [.flush k false, .puts k line true, .completed c] false where
  own := by simp [Event.socket?]
  placed log hlog h := by
    refine ⟨inPlace_of_socket (k := k) ?_ ?_ ?_, each_written c line true hlog h⟩
    · simp [hlog.no_close]
    · simp [Event.socket?]
    · simp [Event.isPuts]
  replied := by simp
  closes := by simp

theorem replyLog_closed (c : Completion) (k : Socket) (line : String) (ok : Bool) :
    ReplyLog k [.close k ok, .flush k true, .puts k line true, .completed c] true where
  own := by simp [Event.socket?]
  placed log hlog h := by
    refine ⟨inPlace_of_socket (k := k) ?_ ?_ ?_, inPlace_of_socket (k := k) ?_ ?_ ?_,
      each_written c line true hlog h⟩
    · simp [hlog.no_close]
    · simp [Event.socket?]
    · simp [Event.isPuts]
    · simp [hlog.no_close]
    · simp [Event.socket?]
    · simp [Event.isPuts]
  replied := by simp
  closes := by simp

/-- In whichever way a reply goes, its events are in order. -/
theorem Replied.log {result : Except TclError Unit × State} {v : Verdict}
    (h : Replied cfg cause index r s result v) :
    ∃ events closed, ReplyLog r.socket events closed ∧
      result.2 = s.afterReply index r.socket events closed ∧
      (v = .replyFails → closed = false) := by
  cases h with
  | noFields e =>
    refine ⟨[], false, ⟨?_, fun _ _ h => h, ?_, ?_⟩, rfl, fun _ => rfl⟩ <;> simp
  | putsFails e fields => exact ⟨_, _, replyLog_written _ _ _ _, rfl, fun _ => rfl⟩
  | flushFails e fields => exact ⟨_, _, replyLog_flushFails _ _ _, rfl, fun _ => rfl⟩
  | closeFails e fields => exact ⟨_, _, replyLog_closed _ _ _ _, rfl, nofun⟩
  | completes fields => exact ⟨_, _, replyLog_closed _ _ _ _, rfl, nofun⟩

namespace Orderly

/-- Completing a pending request. -/
theorem afterReply (h : Orderly hand s) (hr : s.pendingRequests.lookup index = some r)
    {events : List Event} {closed : Bool} (hlog : ReplyLog r.socket events closed) :
    Orderly hand (s.afterReply index r.socket events closed) := by
  have hown : OwnSockets hand (s.afterReply index r.socket events closed) :=
    h.own.afterReply events closed
  have hprogress := afterReply_progress (s := s) index r.socket events closed
  -- who is idle or still pending has another socket
  have hidle : ∀ k ∈ hand ++ s.readable, k ≠ r.socket :=
    fun k hk heq => h.own.free k hk index r hr heq.symm
  have hheld : ∀ i q, (s.afterReply index r.socket events closed).pendingRequests.lookup i =
      some q → q.socket ≠ r.socket := by
    intro i q hi heq
    have hindex := h.own.once i index q r (hprogress.pending i q hi) hr heq
    subst hindex
    rw [State.afterReply, AList.lookup_erase] at hi
    cases hi
  have hopen : ∀ k, k ≠ r.socket → k ∈ s.openSockets →
      k ∈ (s.afterReply index r.socket events closed).openSockets := by
    intro k hne hk
    cases closed with
    | false => exact hk
    | true => exact List.mem_filter.mpr ⟨hk, by simpa using hne⟩
  have huntouched : ∀ k, k ≠ r.socket → Untouched s.history k →
      Untouched (events ++ s.history) k := by
    intro k hne hk e he
    rcases List.mem_append.mp he with he | he
    · exact fun heq => hne (hlog.own e he k heq)
    · exact hk e he
  constructor
  case own => exact hown
  case idle_open => exact fun k hk => hopen k (hidle k hk) (h.idle_open k hk)
  case idle_untouched => exact fun k hk => huntouched k (hidle k hk) (h.idle_untouched k hk)
  case held_open =>
    intro i q hi
    exact hopen q.socket (hheld i q hi) (h.held_open i q (hprogress.pending i q hi))
  case held_untouched =>
    intro i q hi
    exact huntouched q.socket (hheld i q hi) (h.held_untouched i q (hprogress.pending i q hi))
  case open_old => exact fun k hk => h.open_old k (hprogress.opened k hk)
  case touched_old =>
    intro e he k hk
    rcases List.mem_append.mp he with he | he
    · rw [hlog.own e he k hk]
      exact h.own.held_old index r hr
    · exact h.touched_old e he k hk
  case placed => exact hlog.placed s.history (h.held_untouched index r hr) h.placed
  case replied_closed =>
    intro k hk
    rcases List.mem_append.mp hk with hk | hk
    · obtain ⟨ok, hclose⟩ := hlog.closes.mp (hlog.replied k hk)
      have hsocket : k = r.socket := hlog.own _ hk k rfl
      exact ⟨ok, List.mem_append_left _ (hsocket ▸ hclose)⟩
    · obtain ⟨ok, hclose⟩ := h.replied_closed k hk
      exact ⟨ok, List.mem_append_right _ hclose⟩
  case closed_gone =>
    intro k ok hk
    rcases List.mem_append.mp hk with hk | hk
    · have hsocket : k = r.socket := hlog.own _ hk k rfl
      have hclosed := hlog.closes.mpr ⟨ok, hsocket ▸ hk⟩
      simp [State.afterReply, hclosed, hsocket]
    · exact fun hmem => h.closed_gone k ok hk (hprogress.opened k hmem)

theorem initial : Orderly [] State.initial where
  own := OwnSockets.initial
  idle_open _ h := nomatch h
  idle_untouched _ h := nomatch h
  held_open _ _ h := nomatch h
  held_untouched _ _ h := nomatch h
  open_old _ h := nomatch h
  touched_old _ h := nomatch h
  placed := trivial
  replied_closed _ h := nomatch h
  closed_gone _ _ h := nomatch h

/-- Events that have no socket, and no change to sockets and requests. -/
theorem quiet (h : Orderly hand s) (new : List Event) (hnew : ∀ e ∈ new, e.socket? = none)
    (hpending : t.pendingRequests = s.pendingRequests)
    (hopen : t.openSockets = s.openSockets) (hreadable : t.readable = s.readable)
    (hnext : t.nextSocket = s.nextSocket) (hhistory : t.history = new ++ s.history) :
    Orderly hand t := by
  have huntouched : ∀ k, Untouched s.history k → Untouched t.history k := by
    intro k hk e he
    rw [hhistory] at he
    rcases List.mem_append.mp he with he | he
    · rw [hnew e he]
      nofun
    · exact hk e he
  have hold : ∀ e ∈ t.history, ∀ k, e.socket? = some k → e ∈ s.history := by
    intro e he k hk
    rw [hhistory] at he
    rcases List.mem_append.mp he with he | he
    · rw [hnew e he] at hk
      cases hk
    · exact he
  have hmem : ∀ e ∈ s.history, e ∈ t.history := fun e he => by
    rw [hhistory]
    exact List.mem_append_right _ he
  constructor
  case own => exact h.own.congr hpending hreadable hnext
  case idle_open => exact fun k hk => hopen ▸ h.idle_open k (hreadable ▸ hk)
  case idle_untouched => exact fun k hk => huntouched k (h.idle_untouched k (hreadable ▸ hk))
  case held_open => exact fun i r hi => hopen ▸ h.held_open i r (hpending ▸ hi)
  case held_untouched =>
    exact fun i r hi => huntouched r.socket (h.held_untouched i r (hpending ▸ hi))
  case open_old => exact fun k hk => hnext ▸ h.open_old k (hopen ▸ hk)
  case touched_old => exact fun e he k hk => hnext ▸ h.touched_old e (hold e he k hk) k hk
  case placed =>
    rw [hhistory]
    exact h.placed.append fun _ e he => inPlace_of_no_socket (hnew e he)
  case replied_closed =>
    intro k hk
    obtain ⟨ok, hclose⟩ := h.replied_closed k (hold _ hk k rfl)
    exact ⟨ok, hmem _ hclose⟩
  case closed_gone => exact fun k ok hk => hopen ▸ h.closed_gone k ok (hold _ hk k rfl)

theorem data (h : Orderly hand s) (hd : DataOnly s t) : Orderly hand t := by
  obtain ⟨_, _, _, _, _, told, rfl⟩ := hd.rest
  refine h.quiet (deliveries told) ?_ rfl rfl rfl rfl rfl
  intro e he
  obtain ⟨d, -, rfl⟩ := List.mem_map.mp he
  rfl

theorem replied {result : Except TclError Unit × State} {v : Verdict} (h : Orderly hand s)
    (hr : s.pendingRequests.lookup index = some r)
    (hreplied : Replied cfg cause index r s result v) : Orderly hand result.2 := by
  obtain ⟨events, closed, hlog, hresult, -⟩ := hreplied.log
  rw [hresult]
  exact h.afterReply hr hlog

theorem allows (cfg : Config) (env : Environment) (hand : List Socket) :
    Allows cfg env (Effect.keeps (Orderly hand)) := by
  apply Allows.of_replied
  · exact fun cause s index r result v hr hreplied _ _ h => h.replied hr hreplied
  · exact fun s t hd h => h.data hd

theorem enqueue (h : Orderly [socket] s) : Orderly [] (s.enqueue socket channels) := by
  have hown : OwnSockets [] (s.enqueue socket channels) := h.own.enqueue
  have hidle : ∀ k ∈ s.readable, k ∈ [socket] ++ s.readable := fun k hk => by simp [hk]
  -- the new entry takes over the socket in hand
  have hcases : ∀ i r, (s.enqueue socket channels).pendingRequests.lookup i = some r →
      r.socket ∈ s.openSockets ∧ Untouched s.history r.socket := by
    intro i r hi
    by_cases heq : i = s.requestIndex
    · subst heq
      simp only [State.enqueue, AList.lookup_insert, Option.some.injEq] at hi
      rw [← hi]
      exact ⟨h.idle_open socket (by simp), h.idle_untouched socket (by simp)⟩
    · rw [State.enqueue, AList.lookup_insert_ne heq] at hi
      exact ⟨h.held_open i r hi, h.held_untouched i r hi⟩
  have huntouched : ∀ k, Untouched s.history k →
      Untouched (s.enqueue socket channels).history k := by
    intro k hk e he
    rcases List.mem_cons.mp he with rfl | he
    · nofun
    · exact hk e he
  constructor
  case own => exact hown
  case idle_open => exact fun k hk => h.idle_open k (hidle k hk)
  case idle_untouched => exact fun k hk => huntouched k (h.idle_untouched k (hidle k hk))
  case held_open => exact fun i r hi => (hcases i r hi).1
  case held_untouched => exact fun i r hi => huntouched r.socket (hcases i r hi).2
  case open_old => exact h.open_old
  case touched_old =>
    intro e he k hk
    rcases List.mem_cons.mp he with rfl | he
    · cases hk
    · exact h.touched_old e he k hk
  case placed => exact ⟨inPlace_of_no_socket rfl, h.placed⟩
  case replied_closed =>
    intro k hk
    obtain ⟨ok, hclose⟩ := h.replied_closed k (by simpa [State.enqueue, State.record] using hk)
    exact ⟨ok, List.mem_cons_of_mem _ hclose⟩
  case closed_gone =>
    intro k ok hk
    exact h.closed_gone k ok (by simpa [State.enqueue, State.record] using hk)

theorem unreadable (h : Orderly [] s) (hk : socket ∈ s.readable) :
    Orderly [socket] (s.unreadable socket) := by
  have hperm : (socket :: s.readable.erase socket).Perm s.readable :=
    (List.perm_cons_erase hk).symm
  exact {
    h with
    own := h.own.unreadable hk
    idle_open := fun k hk => h.idle_open k (hperm.mem_iff.mp hk)
    idle_untouched := fun k hk => h.idle_untouched k (hperm.mem_iff.mp hk) }

theorem drop (h : Orderly [socket] s) : Orderly [] s :=
  { h with
    own := h.own.drop
    idle_open := fun k hk => h.idle_open k (List.mem_cons_of_mem socket hk)
    idle_untouched := fun k hk => h.idle_untouched k (List.mem_cons_of_mem socket hk) }

/-- Closing an open socket that nobody waits for. -/
theorem close (h : Orderly [] s) (ok : Bool) (hopen : socket ∈ s.openSockets)
    (hidle : socket ∉ s.readable)
    (hheld : ∀ i r, s.pendingRequests.lookup i = some r → r.socket ≠ socket) :
    Orderly [] (s.afterSocket .close socket (.close socket ok)) := by
  have hmem : ∀ k, k ≠ socket → k ∈ s.openSockets →
      k ∈ (s.afterSocket .close socket (.close socket ok)).openSockets :=
    fun k hne hk => List.mem_filter.mpr ⟨hk, by simpa using hne⟩
  have huntouched : ∀ k, k ≠ socket → Untouched s.history k →
      Untouched (.close socket ok :: s.history) k := by
    intro k hne hk e he
    rcases List.mem_cons.mp he with rfl | he
    · exact fun heq => hne (Option.some.inj heq).symm
    · exact hk e he
  have hne : ∀ k ∈ s.readable, k ≠ socket := fun k hk heq => hidle (heq ▸ hk)
  constructor
  case own => exact h.own.afterSocket _ _
  case idle_open => exact fun k hk => hmem k (hne k hk) (h.idle_open k hk)
  case idle_untouched => exact fun k hk => huntouched k (hne k hk) (h.idle_untouched k hk)
  case held_open => exact fun i r hi => hmem r.socket (hheld i r hi) (h.held_open i r hi)
  case held_untouched =>
    exact fun i r hi => huntouched r.socket (hheld i r hi) (h.held_untouched i r hi)
  case open_old => exact fun k hk => h.open_old k (List.mem_filter.mp hk).1
  case touched_old =>
    intro e he k hk
    rcases List.mem_cons.mp he with rfl | he
    · cases hk
      exact h.open_old socket hopen
    · exact h.touched_old e he k hk
  case placed =>
    -- an open socket has not been closed yet
    refine ⟨inPlace_of_socket (k := socket) ?_ ?_ ?_, h.placed⟩
    · exact fun ok hclose => h.closed_gone socket ok hclose hopen
    · simp [Event.socket?]
    · simp [Event.isPuts]
  case replied_closed =>
    intro k hk
    have hk : .flush k true ∈ s.history := by simpa [State.afterSocket] using hk
    obtain ⟨ok', hclose⟩ := h.replied_closed k hk
    exact ⟨ok', List.mem_cons_of_mem _ hclose⟩
  case closed_gone =>
    intro k ok' hk hmem
    obtain ⟨hmem, hne⟩ := List.mem_filter.mp hmem
    rcases List.mem_cons.mp hk with heq | hk
    · cases heq
      simp at hne
    · exact h.closed_gone k ok' hk hmem

/-- Closing the socket in hand. -/
theorem closeHand (h : Orderly [socket] s) (ok : Bool) :
    Orderly [] (s.afterSocket .close socket (.close socket ok)) :=
  h.drop.close ok (h.idle_open socket (by simp)) (List.nodup_cons.mp h.own.nodup).1
    (h.own.free socket (by simp))

theorem connect (h : Orderly [] s) : Orderly [] { s with
    openSockets := s.nextSocket :: s.openSockets
    readable := s.nextSocket :: s.readable
    nextSocket := s.nextSocket + 1 } := by
  constructor
  case own => exact h.own.connect
  case idle_open =>
    intro k hk
    rcases List.mem_cons.mp hk with rfl | hk
    · exact List.mem_cons_self
    · exact List.mem_cons_of_mem _ (h.idle_open k hk)
  case idle_untouched =>
    intro k hk
    rcases List.mem_cons.mp hk with rfl | hk
    · exact fun e he heq => Nat.lt_irrefl _ (h.touched_old e he _ heq)
    · exact h.idle_untouched k hk
  case held_open => exact fun i r hi => List.mem_cons_of_mem _ (h.held_open i r hi)
  case held_untouched => exact h.held_untouched
  case open_old =>
    intro k hk
    rcases List.mem_cons.mp hk with rfl | hk
    · exact Nat.lt_succ_self _
    · exact Nat.lt_succ_of_lt (h.open_old k hk)
  case touched_old => exact fun e he k hk => Nat.lt_succ_of_lt (h.touched_old e he k hk)
  case placed => exact h.placed
  case replied_closed => exact h.replied_closed
  case closed_gone =>
    intro k ok hk hmem
    rcases List.mem_cons.mp hmem with rfl | hmem
    · exact Nat.lt_irrefl _ (h.touched_old _ hk _ rfl)
    · exact h.closed_gone k ok hk hmem

theorem servesOnce (h : Orderly [] s) : ServesOnce s where
  held_open := h.held_open
  held_once := h.own.once
  closed_untouched later e earlier k heq hsocket :=
    (each_iff.mp h.placed later e earlier heq k).1 hsocket
  one_line k := (h.placed.mono fun _ _ hplaced => (hplaced k).2).countP_le_one
  reply_closed later earlier k heq := by
    obtain ⟨ok, hclose⟩ := h.replied_closed k (by rw [heq]; simp)
    have hbefore := (each_iff.mp h.placed later _ earlier heq k).1 rfl ok
    refine ⟨ok, ?_⟩
    simpa [heq, hbefore] using hclose
  closed_released k ok hclose i r hi heq :=
    h.closed_gone k ok hclose (heq ▸ h.held_open i r hi)

end Orderly

/-! ## Whose error it is -/

/-- The readiness test or the completion of the request raises. -/
def State.fails (env : Environment) (s : State) (index : Nat) : Bool :=
  match s.pendingRequests.lookup index with
  | some r => (s.satisfyVerdict env r).fails
  | none => false

/-- The first pending request in array order that fails, if there is one,
is the latest, and it fails while its reply is put together, written or
flushed. -/
def failsAlone (env : Environment) (s : State) : Bool :=
  match (env.order s.pendingRequests.keys).find? (s.fails env) with
  | none => true
  | some index =>
    match s.pendingRequests.lookup index with
    | some r => decide (index + 1 = s.requestIndex ∧ s.satisfyVerdict env r = .replyFails)
    | none => false

/-- If the step is a request, the error that `satisfyRequests` raises in it,
if it raises one, is its own. -/
def errorIsOwn (cfg : Config) (s : State) (a : Environment × Action) : Bool :=
  match a.2 with
  | .request socket line =>
    a.1.socketFault socket .gets || decide (line = "") ||
      match queueRequest cfg a.1 socket line (s.unreadable socket) with
      | (.ok _, t) => failsAlone a.1 t
      | (.error _, _) => true
  | _ => true

/-- A failure of this kind leaves the socket to the caller, open. -/
theorem own_failure {e : TclError} (h : Orderly [] s) (halone : failsAlone env s = true)
    (hrun : satisfyRequests cfg env s = (.error e, t)) :
    ∃ i r, i + 1 = s.requestIndex ∧ s.pendingRequests.lookup i = some r ∧ Orderly [] t ∧
      r.socket ∈ t.openSockets ∧ r.socket ∉ t.readable ∧
      ∀ j q, t.pendingRequests.lookup j = some q → q.socket ≠ r.socket := by
  let P := satisfyPass cfg env
  have hnodup := order_nodup env s
  have hpresent : ∀ i ∈ env.order s.pendingRequests.keys,
      ∃ r, s.pendingRequests.lookup i = some r := fun i hi => mem_order.mp hi
  rw [satisfyRequests_eq] at hrun
  unfold failsAlone at halone
  cases hfind : (env.order s.pendingRequests.keys).find? (s.fails env) with
  | none =>
    -- without a failure the pass would have returned
    have hok : ∀ i ∈ env.order s.pendingRequests.keys, ¬ P.failsAt s i = true :=
      List.find?_eq_none.mp hfind
    rw [← List.append_nil (env.order _)] at hnodup hpresent
    obtain ⟨u, hreturns, -⟩ := P.runs_through h.own.once hnodup hpresent hok
    rw [hrun] at hreturns
    cases hreturns
  | some i =>
    obtain ⟨hfails, pre, post, horder, hfree⟩ := List.find?_eq_some_iff_append.mp hfind
    rw [horder] at hnodup hpresent hrun
    have hbefore : ∀ j ∈ pre, ¬ s.fails env j = true := by simpa using hfree
    obtain ⟨u, e', hpre, hahead, -, hstop⟩ :=
      P.stops h.own.once hnodup hpresent hbefore hfails
    obtain ⟨r, hr⟩ := hahead.present i List.mem_cons_self
    simp only [hfind, hr, decide_eq_true_eq] at halone
    obtain ⟨hindex, hverdict⟩ := halone
    rw [hstop] at hrun
    cases hrun
    have hu : Orderly [] u := by
      have hwithin := P.within (E := Effect.keeps (Orderly []))
        (fun _ _ _ _ _ _ hr hreplied h => h.replied hr hreplied) pre s h
      rwa [hpre] at hwithin
    have hru : u.pendingRequests.lookup i = some r := by
      rw [hahead.pending i List.mem_cons_self, hr]
    have hround := hahead.round hr
    rw [show P.verdict s r = .replyFails from hverdict] at hround
    generalize P.body i u = result at hround ⊢
    cases hround with
    | replied cause hreplied =>
      obtain ⟨events, closed, hlog, hresult, hclosed⟩ := hreplied.log
      have hend := hu.afterReply hru hlog
      rw [hclosed rfl] at hresult hend
      rw [hresult]
      refine ⟨i, r, hindex, hr, hend, hu.held_open i r hru, ?_, ?_⟩
      · exact fun hmem => hu.own.free r.socket hmem i r hru rfl
      · intro j q hj heq
        by_cases hji : j = i
        · subst hji
          rw [State.afterReply, AList.lookup_erase] at hj
          cases hj
        · rw [State.afterReply, AList.lookup_erase_ne hji] at hj
          exact hji (hu.own.once j i q r hj hru heq)

namespace Orderly

/-- Where `queueRequest` leaves the socket: still in hand, or entered as
the latest request. -/
theorem queued {line : String} (h : Orderly [socket] s)
    {result : Except TclError Unit × State} (hq : Queued cfg env socket line s result) :
    (∃ e, result.1 = .error e ∧ Orderly [socket] result.2) ∨
      (result.1 = .ok () ∧ Orderly [] result.2 ∧ ∀ i r, i + 1 = result.2.requestIndex →
        result.2.pendingRequests.lookup i = some r → r.socket = socket) := by
  have hmonitor : ∀ channels, Orderly [socket] (monitorChannels cfg env channels s).2 :=
    fun channels => (allows cfg env [socket]).monitorChannels channels s h
  cases hq with
  | badLine e => exact .inl ⟨e, rfl, h⟩
  | monitorFails e channels => exact .inl ⟨e, rfl, hmonitor channels⟩
  | queued channels =>
    refine .inr ⟨rfl, (hmonitor channels).enqueue, fun i r hi hr => ?_⟩
    have hi : i = (monitorChannels cfg env channels s).2.requestIndex := Nat.succ.inj hi
    subst hi
    simp only [State.enqueue, AList.lookup_insert, Option.some.injEq] at hr
    rw [← hr]

theorem readRequest {line : String} (h : Orderly [] s) (hk : socket ∈ s.readable)
    (hown : errorIsOwn cfg s (env, .request socket line) = true)
    (hread : ReadRequest cfg env socket line s t) : Orderly [] t := by
  have hstart := h.unreadable hk
  have hqueue := hstart.queued (queueRequest_queued cfg env _ socket line)
  cases hread with
  | getsFails => exact hstart.drop
  | closed ok => exact hstart.closeHand ok
  | rejected e v ok hrun =>
    rw [hrun] at hqueue
    rcases hqueue with ⟨_, _, hv⟩ | ⟨herror, _⟩
    · exact hv.closeHand ok
    · cases herror
  | accepted v u _ _ hrun hpass =>
    rw [hrun] at hqueue
    rcases hqueue with ⟨_, herror, _⟩ | ⟨_, hv, _⟩
    · cases herror
    · have hend := (allows cfg env []).satisfyRequests v hv
      rwa [hpass] at hend
  | failed e v u ok hgets hline hrun hpass =>
    rw [hrun] at hqueue
    rcases hqueue with ⟨_, herror, _⟩ | ⟨_, hv, hlatest⟩
    · cases herror
    · have halone : failsAlone env v = true := by
        simpa [errorIsOwn, hgets, hline, hrun] using hown
      obtain ⟨i, r, hi, hr, hu, hopen, hidle, hheld⟩ := own_failure hv halone hpass
      rw [hlatest i r hi hr] at hopen hidle hheld
      exact hu.close ok hopen hidle hheld

theorem step {a : Action} (h : Orderly [] s) (hown : errorIsOwn cfg s (env, a) = true)
    (hstep : s.step cfg (env, a) = some t) : Orderly [] t := by
  cases step_cases hstep with
  | connect => exact h.connect
  | request socket line t hk hread => exact h.readRequest hk hown hread
  | deliver pv text => exact h.data (deliver_dataOnly pv text s)
  | dispatch pv rest =>
    exact (allows cfg env []).updateLinkedVariables pv _
      (h.quiet [] (by simp) rfl rfl rfl rfl rfl)
  | ignored pv rest => exact h.quiet [] (by simp) rfl rfl rfl rfl rfl
  | tick t hrun =>
    have hend := (allows cfg env []).processTimeouts { s with tick := s.tick + 1 }
      (h.quiet [] (by simp) rfl rfl rfl rfl rfl)
    rwa [hrun] at hend
  | lastTick e t hrun =>
    have hend := (allows cfg env []).processTimeouts { s with tick := s.tick + 1 }
      (h.quiet [] (by simp) rfl rfl rfl rfl rfl)
    rw [hrun] at hend
    exact hend.quiet [] (by simp) rfl rfl rfl rfl rfl

end Orderly

/-- The request names no command, and the error that is raised in it, if one
is, is its own. -/
def Serves (cfg : Config) (s : State) (a : Environment × Action) : Prop :=
  keepsCommands cfg a = true ∧ errorIsOwn cfg s a = true

instance (s : State) (a : Environment × Action) : Decidable (Serves cfg s a) :=
  inferInstanceAs (Decidable (_ ∧ _))

/-- The server serves every accepted request exactly once, in every run in
which the requests name no command and an error in `readRequest` is the
request's own. -/
theorem serves_once {as : List (Environment × Action)}
    (h : Run (State.step cfg) (Serves cfg) State.initial as s) :
    ServesOnce s ∧ s.CommandsKept cfg := by
  constructor
  · have horderly : Orderly [] s := h.invariant (Orderly []) Orderly.initial
      fun _ ⟨_, _⟩ _ hinv hok hstep => hinv.step hok.2 hstep
    exact horderly.servesOnce
  · exact commandsKept_run (h.mono fun _ _ => And.left)

/-- Two requests that wait for the same channel, and are both served. -/
def twoRequests : List (Environment × Action) :=
  [(calm, .connect), (calm, .connect), (calm, .request 0 "a"), (calm, .request 1 "a"),
    (calm, .deliver "a" "1"), (calm, .dispatch), (calm, .deliver "a.EGU" "V"), (calm, .dispatch)]

theorem serves_once_two :
    ∃ s, runChecked (State.step plain) (Serves plain) State.initial twoRequests = some s ∧
      s.history.filterMap Event.socket? = [0, 0, 0, 1, 1, 1] ∧ ServesOnce s := by
  have hrun : (runChecked (State.step plain) (Serves plain) State.initial twoRequests).map
      (fun s => s.history.filterMap Event.socket?) = some [0, 0, 0, 1, 1, 1] := by decide +kernel
  obtain ⟨s, hs, hsockets⟩ := Option.map_eq_some_iff.mp hrun
  exact ⟨s, hs, hsockets, (serves_once (run_of_runChecked twoRequests hs)).1⟩

/-- The name `x?` matches the known channel `xy`, so it is not monitored. -/
def foreignError : List (Environment × Action) :=
  [(calm, .connect), (calm, .connect), (calm, .request 0 "xy"), (calm, .request 1 "x?")]

/-- The readiness test of the second request raises, its socket is closed
and its entry is left. -/
theorem foreign_error_keeps_entry :
    ∃ s, Run (State.step plain) Always State.initial foreignError s ∧ ¬ ServesOnce s := by
  have hrun : (runAll (State.step plain) State.initial foreignError).map
      (fun s => (s.pendingRequests.lookup 1, s.openSockets)) =
        some (some ⟨1, 1, ["x?"]⟩, [0]) := by decide +kernel
  obtain ⟨s, hs, hstate⟩ := Option.map_eq_some_iff.mp hrun
  simp only [Prod.mk.injEq] at hstate
  refine ⟨s, run_iff_runAll.mpr hs, fun h => ?_⟩
  have hopen := h.held_open 1 _ hstate.1
  rw [hstate.2] at hopen
  revert hopen
  decide

end EpicsTcl.Server
