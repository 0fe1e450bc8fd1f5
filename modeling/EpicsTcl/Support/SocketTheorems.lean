/-
EpicsTcl.Support.SocketTheorems — the state of a `CSocket` and its descriptor.

A lost connection is closed and replaced by a new descriptor. Other errors of
`read(2)` and `write(2)` only set the state: the object says that it is
disconnected and still has the descriptor of the connection. `Write` looks at
no state. `usable_run_iff` says which calls keep clear of that.

§1 is the statement, §2 the last round of `Write`, §3 one call, §4 runs.
-/
import EpicsTcl.Library.Runs
import EpicsTcl.Support.WriteTheorems

namespace EpicsTcl.Support

open EpicsTcl.Channel EpicsTcl.Library EpicsTcl.Library.Script

/-- The call is to transfer data. -/
def SocketCall.transfers : SocketCall → Bool
  | .read _ _ _ => true
  | .write _ _ _ _ => true
  | _ => false

namespace CSocket

/-! ## §1 Statement -/

/-- `m_Fd` is the last descriptor obtained; it is open and new. The others have been
closed once. -/
def Usable (s : CSocket) : Prop :=
  ∃ d rest, s.descriptors = d :: rest ∧ (d.number : Int) = s.fd ∧ d.closes = 0 ∧
    d.connected = false ∧ d.bound = false ∧ ∀ e ∈ rest, e.closes = 1

/-- After the call a disconnected object is usable; without a connection no
data are transferred, and the exception says so. -/
def Right (s : CSocket) (call : SocketCall) : Prop :=
  ∀ t, s.step call = some t →
    (t.state = .disconnected → Usable t) ∧
      (call.transfers → s.state ≠ .connected → t.calls = s.calls ∧
        ∃ action, (invoke call s).1 =
          .error (.raised (.badSocketState s.state [.connected] action)))

/-- The loop of `Write` goes on from `w`, and its last round is that of `w'`. -/
inductive LastRound (answers : Nat → Answer) : Writing → Writing → Prop where
  | here {w : Writing} (h : ¬ (w.resid ≠ 0 ∧ 0 < w.n answers)) : LastRound answers w w
  | later {w w' : Writing} (h : w.resid ≠ 0 ∧ 0 < w.n answers)
      (hlast : LastRound answers (w.next answers) w') : LastRound answers w w'

/-- `Read` gets no error, `Write` only on a connection and no error that is not
`EPIPE` before something is written; `OpenSocket` finds its pointer set where it
is called. -/
def Obeys (s : CSocket) : SocketCall → Prop
  | .shutdown shuts reopen => s.state = .connected → shuts = true → reopen.entry = true
  | .read nBytes transfer reopen =>
    s.state = .connected →
      0 ≤ narrow (transfer.value nBytes) ∧
        (narrow (transfer.value nBytes) = 0 → reopen.entry = true)
  | .write nBytes answers reopen _ =>
    s.state = .connected ∧
      ∀ w, LastRound answers { resid := intOfSize nBytes } w → w.resid ≠ 0 → ¬ 0 < w.nWritten →
        (answers w.calls).epipe = true ∧ reopen.entry = true
  | _ => True

/-! ## §2 The last round of `Write` -/

section LastRound

variable {answers : Nat → Answer} {reopen : Reopening} {w w' w'' : Writing}

theorem LastRound.unique (h : LastRound answers w w') (h' : LastRound answers w w'') :
    w' = w'' := by
  induction h with
  | here hstop =>
    cases h' with
    | here => rfl
    | later hgo => exact absurd hgo hstop
  | later hgo _ ih =>
    cases h' with
    | here hstop => exact absurd hgo hstop
    | later _ hlast => exact ih hlast

/-- What `Write` leaves when its first call has failed. -/
def failed (s : CSocket) (reopen : Reopening) (epipe : Bool) : CSocket :=
  if epipe then
    if reopen.entry then s.dropped.reopened reopen.number else s.dropped
  else { s with state := .disconnected }

variable (answers reopen) in
/-- **How the loop ends**: it returns and has changed nothing else, or the connection
has failed. -/
theorem loop_last (rounds : Nat) (w : Writing) (s : CSocket) :
    (Script.loop (writeRound answers reopen) rounds w s).1 = .error .running ∨
      ∃ w' calls, LastRound answers w w' ∧
        ((w'.resid = 0 ∨ 0 < w'.nWritten) ∧
            Script.loop (writeRound answers reopen) rounds w s =
              (.ok w'.nWritten, { s with calls := calls }) ∨
          (w'.resid ≠ 0 ∧ ¬ 0 < w'.nWritten) ∧ ∃ e, e.ofState = false ∧
            Script.loop (writeRound answers reopen) rounds w s =
              (.error (.raised e),
                failed { s with calls := calls } reopen (answers w'.calls).epipe)) := by
  induction rounds generalizing w s with
  | zero => exact .inl rfl
  | succ rounds ih =>
    by_cases hgo : w.resid ≠ 0 ∧ 0 < w.n answers
    · rw [loop_again (writeRound_again hgo.1 hgo.2)]
      rcases ih (w.next answers) (s.logged (w.call answers)) with hrunning | ⟨w', calls, hlast, h⟩
      · exact .inl hrunning
      · exact .inr ⟨w', calls, .later hgo hlast, h⟩
    · right
      by_cases hresid : w.resid = 0
      · exact ⟨w, s.calls, .here hgo, .inl ⟨.inl hresid, loop_left (writeRound_done hresid)⟩⟩
      · have hn : ¬ 0 < w.n answers := fun hn => hgo ⟨hresid, hn⟩
        by_cases hwritten : 0 < w.nWritten
        · exact ⟨w, _, .here hgo,
            .inl ⟨.inr hwritten, loop_left (writeRound_stops hresid hn hwritten)⟩⟩
        · obtain ⟨e, he, hraises⟩ := writeRound_raises reopen s hresid hn hwritten
          exact ⟨w, _, .here hgo, .inr ⟨⟨hresid, hwritten⟩, e, he, bind_error hraises⟩⟩

end LastRound

/-! ## §3 One call -/

section Call

variable {s t : CSocket} {call : SocketCall} {reopen : Reopening}

/-- The last descriptor is that of the object and open, the others have been closed; it is
new where the object says so, and that of a connection where there is one. -/
def Sound (s : CSocket) : Prop :=
  ∃ d rest, s.descriptors = d :: rest ∧ (d.number : Int) = s.fd ∧ d.closes = 0 ∧
    (∀ e ∈ rest, e.closes = 1) ∧
    (s.state = .disconnected → d.connected = false ∧ d.bound = false) ∧
    (s.state = .connected → d.connected = true)

theorem Sound.usable (h : Sound s) (hstate : s.state = .disconnected) : Usable s := by
  obtain ⟨d, rest, hlist, hnumber, hcloses, hrest, hnew, -⟩ := h
  obtain ⟨hconnected, hbound⟩ := hnew hstate
  exact ⟨d, rest, hlist, hnumber, hcloses, hconnected, hbound, hrest⟩

theorem Sound.withCalls (h : Sound s) (calls : List IOCall) : Sound { s with calls := calls } := h

/-- A system call on `m_Fd`. -/
theorem Sound.onFd (h : Sound s) (change : Descriptor → Descriptor) :
    ∃ d rest, s.descriptors = d :: rest ∧ onLast s.fd change s.descriptors = change d :: rest ∧
      (d.number : Int) = s.fd ∧ d.closes = 0 ∧ ∀ e ∈ rest, e.closes = 1 := by
  obtain ⟨d, rest, hlist, hnumber, hcloses, hrest, -, -⟩ := h
  exact ⟨d, rest, hlist, by rw [hlist, onLast, if_pos hnumber], hnumber, hcloses, hrest⟩

/-- The old descriptor is closed, and there is a new one. -/
theorem Sound.reopened (h : Sound s) (number : Nat) : Sound (s.dropped.reopened number) := by
  obtain ⟨d, rest, -, hlast, -, hcloses, hrest⟩ :=
    h.onFd fun d => { d with closes := d.closes + 1 }
  refine ⟨{ number := number }, { d with closes := d.closes + 1 } :: rest, ?_, rfl, rfl, ?_,
    fun _ => ⟨rfl, rfl⟩, fun hstate => ?_⟩
  · exact congrArg (List.cons _) hlast
  · intro e he
    rcases List.mem_cons.mp he with rfl | he
    · exact congrArg (· + 1) hcloses
    · exact hrest e he
  · cases hstate

/-- The old descriptor is closed, and there is no new one. -/
theorem Sound.not_usable_dropped (h : Sound s) {u : CSocket}
    (hu : u.descriptors = s.dropped.descriptors) : ¬ Usable u := by
  obtain ⟨d, rest, -, hlast, -, hcloses, -⟩ := h.onFd fun d => { d with closes := d.closes + 1 }
  rintro ⟨d', rest', hlist, -, hopen, -⟩
  replace hlast : s.dropped.descriptors = _ := hlast
  rw [hu, hlast] at hlist
  cases hlist
  exact absurd hopen (Nat.succ_ne_zero _)

/-- The descriptor of the connection is kept. -/
theorem Sound.not_usable_kept (h : Sound s) (hstate : s.state = .connected) {u : CSocket}
    (hu : u.descriptors = s.descriptors) : ¬ Usable u := by
  obtain ⟨d, rest, hlist, -, -, -, -, hconnected⟩ := h
  rintro ⟨d', rest', hlist', -, -, hnew, -⟩
  rw [hu, hlist] at hlist'
  cases hlist'
  rw [hconnected hstate] at hnew
  cases hnew

theorem Sound.setConnected (h : Sound s) : Sound
    { s with
      state := .connected
      descriptors := onLast s.fd (fun d => { d with connected := true }) s.descriptors } := by
  obtain ⟨d, rest, -, hlast, hnumber, hcloses, hrest⟩ :=
    h.onFd fun d => { d with connected := true }
  exact ⟨_, rest, hlast, hnumber, hcloses, hrest, nofun, fun _ => rfl⟩

theorem Sound.setBound (h : Sound s) : Sound
    { s with
      state := .bound
      descriptors := onLast s.fd (fun d => { d with bound := true }) s.descriptors } := by
  obtain ⟨d, rest, -, hlast, hnumber, hcloses, hrest⟩ := h.onFd fun d => { d with bound := true }
  exact ⟨_, rest, hlast, hnumber, hcloses, hrest, nofun, nofun⟩

theorem Sound.setListening (h : Sound s) : Sound { s with state := .listening } := by
  obtain ⟨d, rest, hlist, hnumber, hcloses, hrest, -, -⟩ := h
  exact ⟨d, rest, hlist, hnumber, hcloses, hrest, nofun, nofun⟩

/-- What is known of a call afterwards. -/
def Settled (s : CSocket) (call : SocketCall) (t : CSocket) : Prop :=
  Obeys s call ∧ Right s call ∧ Sound t ∨ ¬ Obeys s call ∧ ¬ Right s call

theorem step_of_invoke {result : Except (Stop SocketError) Unit}
    (h : invoke call s = (result, t)) (hends : result ≠ .error .running) :
    s.step call = some t := by
  rw [step, h]
  split
  · next heq =>
    cases heq
    exact absurd rfl hends
  · next heq =>
    cases heq
    rfl

theorem settled_of_sound (hstep : s.step call = some t) (hobeys : Obeys s call) (ht : Sound t)
    (htransfers : call.transfers → s.state = .connected) : Settled s call t := by
  refine .inl ⟨hobeys, fun u hu => ?_, ht⟩
  rw [hstep] at hu
  cases hu
  exact ⟨ht.usable, fun hcall hstate => absurd (htransfers hcall) hstate⟩

theorem settled_of_broken (hstep : s.step call = some t) (hobeys : ¬ Obeys s call)
    (hstate : t.state = .disconnected) (hbroken : ¬ Usable t) : Settled s call t :=
  .inr ⟨hobeys, fun hright => hbroken ((hright t hstep).1 hstate)⟩

theorem required {α : Type} {allowed : SocketState} {action : String} {m : Method α}
    (h : s.state = allowed) : (require allowed action >>= fun _ => m) s = m s := by
  have hrequire : require allowed action s = (.ok (), s) :=
    (bind_ok (reads_apply _ s)).trans (by rw [if_neg (not_not_intro h)]; rfl)
  exact bind_ok hrequire

theorem refused {α : Type} {allowed : SocketState} {action : String} {m : Method α}
    (h : s.state ≠ allowed) : (require allowed action >>= fun _ => m) s =
      (.error (.raised (.badSocketState s.state [allowed] action)), s) := by
  have hrequire : require allowed action s =
      (.error (.raised (.badSocketState s.state [allowed] action)), s) :=
    (bind_ok (reads_apply _ s)).trans (by rw [if_pos h]; rfl)
  exact bind_error hrequire

/-- A call that is no transfer raises, and changes nothing. -/
theorem settled_of_raised {e : SocketError} (hs : Sound s) (hcall : call.transfers = false)
    (hobeys : Obeys s call) (h : invoke call s = (.error (.raised e), s)) :
    ∃ t, s.step call = some t ∧ Settled s call t :=
  ⟨s, step_of_invoke h (by simp), settled_of_sound (step_of_invoke h (by simp)) hobeys hs
    (by simp [hcall])⟩

/-- A call that is no transfer has done its work. -/
theorem settled_of_returned (hcall : call.transfers = false) (hobeys : Obeys s call)
    (h : invoke call s = (.ok (), t)) (ht : Sound t) : ∃ t, s.step call = some t ∧
      Settled s call t :=
  ⟨t, step_of_invoke h (by simp), settled_of_sound (step_of_invoke h (by simp)) hobeys ht
    (by simp [hcall])⟩

theorem settled_connect (hs : Sound s) (connects : Bool) :
    ∃ t, s.step (.connect connects) = some t ∧ Settled s (.connect connects) t := by
  by_cases hstate : s.state = .disconnected
  · cases connects with
    | true => exact settled_of_returned rfl trivial (required hstate) hs.setConnected
    | false => exact settled_of_raised hs rfl trivial (required hstate)
  · exact settled_of_raised hs rfl trivial (refused hstate)

theorem settled_connectTo (hs : Sound s) (host service connects : Bool) :
    ∃ t, s.step (.connectTo host service connects) = some t ∧
      Settled s (.connectTo host service connects) t := by
  by_cases hstate : s.state = .disconnected
  · cases host with
    | false => exact settled_of_raised hs rfl trivial (required hstate)
    | true =>
      cases service with
      | false => exact settled_of_raised hs rfl trivial (required hstate)
      | true =>
        have hconnect : invoke (.connectTo true true connects) s = connect connects s :=
          required hstate
        cases connects with
        | true =>
          exact settled_of_returned rfl trivial (hconnect.trans (required hstate)) hs.setConnected
        | false => exact settled_of_raised hs rfl trivial (hconnect.trans (required hstate))
  · exact settled_of_raised hs rfl trivial (refused hstate)

theorem settled_bind (hs : Sound s) (service binds : Bool) :
    ∃ t, s.step (.bind service binds) = some t ∧ Settled s (.bind service binds) t := by
  by_cases hstate : s.state = .disconnected
  · cases service with
    | false => exact settled_of_raised hs rfl trivial (required hstate)
    | true =>
      cases binds with
      | true => exact settled_of_returned rfl trivial (required hstate) hs.setBound
      | false => exact settled_of_raised hs rfl trivial (required hstate)
  · exact settled_of_raised hs rfl trivial (refused hstate)

theorem settled_listen (hs : Sound s) (listens : Bool) :
    ∃ t, s.step (.listen listens) = some t ∧ Settled s (.listen listens) t := by
  by_cases hstate : s.state = .bound
  · cases listens with
    | true => exact settled_of_returned rfl trivial (required hstate) hs.setListening
    | false => exact settled_of_raised hs rfl trivial (required hstate)
  · exact settled_of_raised hs rfl trivial (refused hstate)

theorem settled_accept (hs : Sound s) (peer : Option Nat) :
    ∃ t, s.step (.accept peer) = some t ∧ Settled s (.accept peer) t := by
  by_cases hstate : s.state = .listening
  · cases peer with
    | none => exact settled_of_raised hs rfl trivial (bind_error (required hstate))
    | some peerFd => exact settled_of_returned rfl trivial (bind_ok (required hstate)) hs
  · exact settled_of_raised hs rfl trivial (bind_error (refused hstate))

theorem settled_shutdown (hs : Sound s) (shuts : Bool) (reopen : Reopening) :
    ∃ t, s.step (.shutdown shuts reopen) = some t ∧ Settled s (.shutdown shuts reopen) t := by
  by_cases hstate : s.state = .connected
  · cases shuts with
    | false => exact settled_of_raised hs rfl (fun _ hno => nomatch hno) (required hstate)
    | true =>
      have hclosed : invoke (.shutdown true reopen) s =
          openSocket reopen { s.dropped with fd := -1 } := required hstate
      cases hentry : reopen.entry with
      | true =>
        exact settled_of_returned rfl (fun _ _ => hentry)
          (hclosed.trans (openSocket_entry hentry _)) (hs.reopened reopen.number)
      | false =>
        have hstep := step_of_invoke (hclosed.trans (openSocket_null hentry _)) (by simp)
        refine ⟨_, hstep, settled_of_broken hstep ?_ rfl (hs.not_usable_dropped rfl)⟩
        intro hobeys
        rw [hobeys hstate rfl] at hentry
        cases hentry
  · exact settled_of_raised hs rfl (fun hconnected => absurd hconnected hstate) (refused hstate)

/-- A connection that is lost is settled by what `OpenSocket` finds. -/
theorem settled_of_failed {e : SocketError} {calls : List IOCall} {epipe : Bool} (hs : Sound s)
    (hcall : call.transfers → s.state = .connected) (hstate : s.state = .connected)
    (h : invoke call s =
      (.error (.raised e), failed { s with calls := calls } reopen epipe))
    (hobeys : Obeys s call ↔ epipe = true ∧ reopen.entry = true) :
    ∃ t, s.step call = some t ∧ Settled s call t := by
  have hstep := step_of_invoke h (by simp)
  refine ⟨_, hstep, ?_⟩
  cases epipe with
  | false =>
    refine settled_of_broken hstep (by simp [hobeys]) rfl (hs.not_usable_kept hstate rfl)
  | true =>
    cases hentry : reopen.entry with
    | false =>
      have hdropped : failed { s with calls := calls } reopen true =
          dropped { s with calls := calls } := by simp [failed, hentry]
      rw [hdropped] at hstep ⊢
      exact settled_of_broken hstep (by simp [hobeys, hentry]) rfl
        ((hs.withCalls calls).not_usable_dropped rfl)
    | true =>
      have hreopened : failed { s with calls := calls } reopen true =
          (dropped { s with calls := calls }).reopened reopen.number := by simp [failed, hentry]
      rw [hreopened] at hstep ⊢
      exact settled_of_sound hstep (hobeys.mpr ⟨rfl, hentry⟩)
        ((hs.withCalls calls).reopened reopen.number) hcall

theorem settled_read (hs : Sound s) (nBytes : Nat) (transfer : Transfer) (reopen : Reopening) :
    ∃ t, s.step (.read nBytes transfer reopen) = some t ∧
      Settled s (.read nBytes transfer reopen) t := by
  by_cases hstate : s.state = .connected
  · generalize hn : narrow (transfer.value nBytes) = n
    have hread : read nBytes transfer reopen s =
        (if n = 0 then do
          setState .disconnected
          close
          openSocket reopen
          throw (.connectionLost "CSocket::Read: from read(2)")
        else if n < 0 then do
          setState .disconnected
          throw (.errnoException "CSocket::Read failed read(2)")
        else pure n : Method Int) (s.logged (.read nBytes (transfer.value nBytes))) := by
      rw [← hn]
      exact required hstate
    rcases lt_trichotomy n 0 with hneg | rfl | hpos
    · rw [if_neg hneg.ne, if_pos hneg] at hread
      have hinvoke : invoke (.read nBytes transfer reopen) s =
          (.error (.raised (.errnoException "CSocket::Read failed read(2)")),
            failed (s.logged (.read nBytes (transfer.value nBytes))) reopen false) :=
        bind_error hread
      refine settled_of_failed hs (fun _ => hstate) hstate hinvoke (iff_of_false ?_ (by simp))
      intro hobeys
      have hnonneg := (hobeys hstate).1
      omega
    · rw [if_pos rfl] at hread
      obtain ⟨e, -, hlost⟩ := lost_apply reopen Int "CSocket::Read: from read(2)"
        (s.logged (.read nBytes (transfer.value nBytes)))
      have hinvoke : invoke (.read nBytes transfer reopen) s =
          (.error (.raised e),
            failed (s.logged (.read nBytes (transfer.value nBytes))) reopen true) :=
        bind_error (hread.trans hlost)
      refine settled_of_failed hs (fun _ => hstate) hstate hinvoke ?_
      exact ⟨fun hobeys => ⟨rfl, (hobeys hstate).2 hn⟩, fun hentry _ => ⟨hn.ge, fun _ => hentry.2⟩⟩
    · rw [if_neg hpos.ne', if_neg hpos.not_gt] at hread
      have hinvoke : invoke (.read nBytes transfer reopen) s =
          (.ok (), s.logged (.read nBytes (transfer.value nBytes))) := bind_ok hread
      have hstep := step_of_invoke hinvoke (by simp)
      refine ⟨_, hstep, settled_of_sound hstep (fun _ => ?_) (hs.withCalls _) fun _ => hstate⟩
      exact ⟨hn ▸ hpos.le, fun hzero => absurd (hn.symm.trans hzero) hpos.ne'⟩
  · have hinvoke : invoke (.read nBytes transfer reopen) s = _ := bind_error (refused hstate)
    have hstep := step_of_invoke hinvoke (by simp)
    refine ⟨s, hstep, .inl ⟨fun hconnected => absurd hconnected hstate, fun u hu => ?_, hs⟩⟩
    rw [hstep] at hu
    cases hu
    exact ⟨hs.usable, fun _ _ => ⟨rfl, _, congrArg Prod.fst hinvoke⟩⟩

/-- `Write` without a connection does not say so. -/
theorem settled_of_unconnected {nBytes : Nat} {answers : Nat → Answer} {rounds : Nat}
    {result : Except (Stop SocketError) Unit} (hstate : s.state ≠ .connected)
    (h : invoke (.write nBytes answers reopen rounds) s = (result, t))
    (hends : result ≠ .error .running)
    (hresult : ∀ e, result = .error (.raised e) → e.ofState = false) :
    Settled s (.write nBytes answers reopen rounds) t := by
  refine .inr ⟨fun hobeys => hstate hobeys.1, fun hright => ?_⟩
  obtain ⟨-, action, hbad⟩ := (hright t (step_of_invoke h hends)).2 rfl hstate
  rw [h] at hbad
  exact absurd (hresult _ hbad) (by simp [SocketError.ofState])

theorem settled_write (hs : Sound s) (nBytes : Nat) (answers : Nat → Answer)
    (reopen : Reopening) (rounds : Nat)
    (hstep : s.step (.write nBytes answers reopen rounds) = some t) :
    Settled s (.write nBytes answers reopen rounds) t := by
  rcases loop_last answers reopen rounds { resid := intOfSize nBytes } s
    with hrunning | ⟨w, calls, hlast, ⟨hend, hloop⟩ | ⟨⟨hresid, hwritten⟩, e, he, hloop⟩⟩
  · have hinvoke : invoke (.write nBytes answers reopen rounds) s = (.error .running, _) :=
      bind_error (Prod.ext hrunning rfl)
    rw [step, hinvoke] at hstep
    cases hstep
  · have hinvoke : invoke (.write nBytes answers reopen rounds) s =
        (.ok (), { s with calls := calls }) := bind_ok hloop
    have hstep' := step_of_invoke hinvoke (by simp)
    rw [hstep] at hstep'
    cases hstep'
    by_cases hstate : s.state = .connected
    · refine settled_of_sound hstep ⟨hstate, fun w' hlast' hresid hwritten => ?_⟩
        (hs.withCalls calls) fun _ => hstate
      obtain rfl := hlast.unique hlast'
      exact absurd hend (not_or.mpr ⟨hresid, hwritten⟩)
    · exact settled_of_unconnected hstate hinvoke (by simp) nofun
  · have hinvoke : invoke (.write nBytes answers reopen rounds) s =
        (.error (.raised e), failed { s with calls := calls } reopen (answers w.calls).epipe) :=
      bind_error hloop
    by_cases hstate : s.state = .connected
    · obtain ⟨u, hu, hsettled⟩ := settled_of_failed hs (fun _ => hstate) hstate hinvoke (by
        constructor
        · exact fun hobeys => hobeys.2 w hlast hresid hwritten
        · refine fun hentry => ⟨hstate, fun w' hlast' _ _ => ?_⟩
          obtain rfl := hlast.unique hlast'
          exact hentry)
      rw [hstep] at hu
      cases hu
      exact hsettled
    · have hstep' := step_of_invoke hinvoke (by simp)
      rw [hstep] at hstep'
      cases hstep'
      refine settled_of_unconnected hstate hinvoke (by simp) fun e' he' => ?_
      cases he'
      exact he

/-- **One call**: it is right exactly if it obeys. -/
theorem settled_of_step (hs : Sound s) (hstep : s.step call = some t) : Settled s call t := by
  have hsettled (hu : ∃ u, s.step call = some u ∧ Settled s call u) : Settled s call t := by
    obtain ⟨u, hu, h⟩ := hu
    rw [hstep] at hu
    cases hu
    exact h
  cases call with
  | connect connects => exact hsettled (settled_connect hs connects)
  | connectTo host service connects => exact hsettled (settled_connectTo hs host service connects)
  | bind service binds => exact hsettled (settled_bind hs service binds)
  | listen listens => exact hsettled (settled_listen hs listens)
  | accept peer => exact hsettled (settled_accept hs peer)
  | shutdown shuts reopen => exact hsettled (settled_shutdown hs shuts reopen)
  | read nBytes transfer reopen => exact hsettled (settled_read hs nBytes transfer reopen)
  | write nBytes answers reopen rounds => exact settled_write hs nBytes answers reopen rounds hstep

end Call

/-! ## §4 Runs -/

section Runs

variable {s s₀ : CSocket} {reopen : Reopening} {as : List SocketCall}

theorem sound_of_construct (h : construct reopen = (.ok (), s₀)) : Sound s₀ := by
  cases hentry : reopen.entry with
  | false =>
    rw [construct, openSocket_null hentry] at h
    cases h
  | true =>
    rw [construct, openSocket_entry hentry] at h
    cases h
    exact ⟨{ number := reopen.number }, [], rfl, rfl, rfl, by simp, fun _ => ⟨rfl, rfl⟩, nofun⟩

/-- **An object at work**: every call of a run is right exactly if every call obeys. -/
theorem usable_run_iff (hbuild : construct reopen = (.ok (), s₀)) :
    Run step Right s₀ as s ↔ Run step Obeys s₀ as s := by
  refine Run.congr_of_invariant Sound (sound_of_construct hbuild) ?_ ?_
  · intro s call t hs hright hstep
    rcases settled_of_step hs hstep with ⟨-, -, ht⟩ | ⟨-, hwrong⟩
    · exact ht
    · exact absurd hright hwrong
  · intro s call t hs hstep
    rcases settled_of_step hs hstep with ⟨hobeys, hright, -⟩ | ⟨hdisobeys, hwrong⟩
    · exact iff_of_true hright hobeys
    · exact iff_of_false hwrong hdisobeys

/-- An object whose descriptor is 3, and its connection. -/
def opened : CSocket := { fd := 3, descriptors := [{ number := 3 }] }

def online : CSocket :=
  { fd := 3, state := .connected, descriptors := [{ number := 3, connected := true }] }

/-- The connection is made and shut down: both calls are right. -/
theorem usable_run_iff_shutdown :
    Run step Right opened [.connect true, .shutdown true ⟨true, 4⟩]
      { fd := 4, descriptors := [⟨4, false, false, 0⟩, ⟨3, true, false, 1⟩] } := by
  have hbuild : construct ⟨true, 3⟩ = (.ok (), opened) := rfl
  have hconnect : Run step Obeys opened [.connect true] online := .snoc .nil trivial rfl
  have hreopens : Obeys online (.shutdown true ⟨true, 4⟩) := fun _ _ => rfl
  exact (usable_run_iff hbuild).mpr (hconnect.snoc hreopens rfl)

/-- `read(2)` fails, and the object keeps the descriptor of the connection. -/
theorem read_error_keeps_connection :
    ¬ ∀ (reopen : Reopening) (s₀ s : CSocket) (as : List SocketCall),
      construct reopen = (.ok (), s₀) → Run step Always s₀ as s → Run step Right s₀ as s := by
  intro hall
  have hconnect : Run step Always opened [.connect true] online := .snoc .nil trivial rfl
  have hrun : Run step Always opened [.connect true, .read 1 .error ⟨true, 4⟩] _ :=
    hconnect.snoc trivial rfl
  have hright := hall ⟨true, 3⟩ _ _ _ rfl hrun
  obtain ⟨t, u, ht, hu, hright⟩ := hrun.iff_each.mp hright [.connect true] _ [] rfl
  obtain rfl := ht.unique hconnect
  have husable := (hright u hu).1
  cases hu
  obtain ⟨d, rest, hlist, -, -, hnew, -⟩ := husable rfl
  cases hlist
  cases hnew

end Runs

end CSocket

end EpicsTcl.Support
