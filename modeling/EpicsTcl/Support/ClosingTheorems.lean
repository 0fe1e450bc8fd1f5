/-
EpicsTcl.Support.ClosingTheorems — the descriptors of a `CSocket` are closed
once.

`Effect` says what a call does to the descriptors: it keeps the last one,
closes it and gets a new one, or closes it and gets none, since `OpenSocket`
has failed (`Reopens` excludes this). After such a failure in `Read` or `Write`
the object still has the number of the descriptor, and closes it again when it
is destroyed; `Shutdown` has forgotten it.
-/
import EpicsTcl.Support.SocketTheorems

namespace EpicsTcl.Support

open EpicsTcl.Channel EpicsTcl.Library EpicsTcl.Library.Script

/-- One more call of `close(2)`. -/
def Descriptor.close (d : Descriptor) : Descriptor := { d with closes := d.closes + 1 }

theorem onLast_same {change : Descriptor → Descriptor} (h : ∀ d, change d = d) (number : Int)
    (ds : List Descriptor) : onLast number change ds = ds := by
  induction ds with
  | nil => rfl
  | cons d ds ih => simp [onLast, h, ih]

/-- The call sets `m_Fd` to -1 when it has closed the descriptor. -/
def SocketCall.forgets : SocketCall → Bool
  | .shutdown _ _ => true
  | _ => false

namespace CSocket

/-! ## What a call does to the descriptors -/

/-- `OpenSocket` finds its pointer set where it is called. -/
def Reopens (s : CSocket) : SocketCall → Prop
  | .shutdown shuts reopen => s.state = .connected → shuts = true → reopen.entry = true
  | .read nBytes transfer reopen =>
    s.state = .connected → narrow (transfer.value nBytes) = 0 → reopen.entry = true
  | .write nBytes answers reopen _ =>
    ∀ w, LastRound answers { resid := intOfSize nBytes } w → w.resid ≠ 0 → ¬ 0 < w.nWritten →
      (answers w.calls).epipe = true → reopen.entry = true
  | _ => True

/-- The descriptors after `m_Fd` has been closed. -/
def closed (s : CSocket) : List Descriptor := onLast s.fd Descriptor.close s.descriptors

inductive Effect (s : CSocket) (call : SocketCall) (t : CSocket) : Prop where
  | kept (change : Descriptor → Descriptor) (hreopens : Reopens s call)
      (hchange : ∀ d, (change d).number = d.number ∧ (change d).closes = d.closes)
      (hfd : t.fd = s.fd) (hlist : t.descriptors = onLast s.fd change s.descriptors)
  | reopened (number : Nat) (hreopens : Reopens s call) (hfd : t.fd = number)
      (hlist : t.descriptors = { number } :: closed s)
  | dropped (hnot : ¬ Reopens s call) (hstate : t.state = .disconnected)
      (hfd : t.fd = if call.forgets then -1 else s.fd)
      (hlist : t.descriptors = closed s)

section Call

variable {s t : CSocket} {call : SocketCall} {reopen : Reopening}

/-- The descriptors are as they were. -/
theorem Effect.same (hreopens : Reopens s call) (hfd : t.fd = s.fd)
    (hlist : t.descriptors = s.descriptors) : Effect s call t :=
  .kept id hreopens (fun _ => ⟨rfl, rfl⟩) hfd (hlist.trans (onLast_same (fun _ => rfl) _ _).symm)

/-- The state after a call that ends. -/
theorem effect_of_invoke {result : Except (Stop SocketError) Unit} {u : CSocket}
    (hstep : s.step call = some t) (h : invoke call s = (result, u))
    (hends : result ≠ .error .running) (heffect : Effect s call u) : Effect s call t := by
  have hstep' := step_of_invoke h hends
  rw [hstep] at hstep'
  rw [Option.some.inj hstep']
  exact heffect

theorem effect_raised {e : SocketError} (hreopens : Reopens s call)
    (hstep : s.step call = some t) (h : invoke call s = (.error (.raised e), s)) :
    Effect s call t :=
  effect_of_invoke hstep h (by simp) (.same hreopens rfl rfl)

theorem effect_connect (connects : Bool) (hstep : s.step (.connect connects) = some t) :
    Effect s (.connect connects) t := by
  by_cases hstate : s.state = .disconnected
  · cases connects with
    | true =>
      exact effect_of_invoke hstep (required hstate) (by simp)
        (.kept (fun d => { d with connected := true }) trivial (fun _ => ⟨rfl, rfl⟩) rfl rfl)
    | false => exact effect_raised trivial hstep (required hstate)
  · exact effect_raised trivial hstep (refused hstate)

theorem effect_connectTo (host service connects : Bool)
    (hstep : s.step (.connectTo host service connects) = some t) :
    Effect s (.connectTo host service connects) t := by
  by_cases hstate : s.state = .disconnected
  · cases host with
    | false => exact effect_raised trivial hstep (required hstate)
    | true =>
      cases service with
      | false => exact effect_raised trivial hstep (required hstate)
      | true =>
        have hconnect : invoke (.connectTo true true connects) s = connect connects s :=
          required hstate
        cases connects with
        | true =>
          exact effect_of_invoke hstep (hconnect.trans (required hstate)) (by simp)
            (.kept (fun d => { d with connected := true }) trivial (fun _ => ⟨rfl, rfl⟩) rfl rfl)
        | false => exact effect_raised trivial hstep (hconnect.trans (required hstate))
  · exact effect_raised trivial hstep (refused hstate)

theorem effect_bind (service binds : Bool) (hstep : s.step (.bind service binds) = some t) :
    Effect s (.bind service binds) t := by
  by_cases hstate : s.state = .disconnected
  · cases service with
    | false => exact effect_raised trivial hstep (required hstate)
    | true =>
      cases binds with
      | true =>
        exact effect_of_invoke hstep (required hstate) (by simp)
          (.kept (fun d => { d with bound := true }) trivial (fun _ => ⟨rfl, rfl⟩) rfl rfl)
      | false => exact effect_raised trivial hstep (required hstate)
  · exact effect_raised trivial hstep (refused hstate)

theorem effect_listen (listens : Bool) (hstep : s.step (.listen listens) = some t) :
    Effect s (.listen listens) t := by
  by_cases hstate : s.state = .bound
  · cases listens with
    | true => exact effect_of_invoke hstep (required hstate) (by simp) (.same trivial rfl rfl)
    | false => exact effect_raised trivial hstep (required hstate)
  · exact effect_raised trivial hstep (refused hstate)

theorem effect_accept (peer : Option Nat) (hstep : s.step (.accept peer) = some t) :
    Effect s (.accept peer) t := by
  by_cases hstate : s.state = .listening
  · cases peer with
    | none => exact effect_raised trivial hstep (bind_error (required hstate))
    | some peerFd =>
      exact effect_of_invoke hstep (bind_ok (required hstate)) (by simp) (.same trivial rfl rfl)
  · exact effect_raised trivial hstep (bind_error (refused hstate))

theorem effect_shutdown (shuts : Bool) (reopen : Reopening)
    (hstep : s.step (.shutdown shuts reopen) = some t) : Effect s (.shutdown shuts reopen) t := by
  by_cases hstate : s.state = .connected
  · cases shuts with
    | false => exact effect_raised (fun _ h => by cases h) hstep (required hstate)
    | true =>
      have hclosed : invoke (.shutdown true reopen) s =
          openSocket reopen { s.dropped with fd := -1 } := required hstate
      cases hentry : reopen.entry with
      | true =>
        exact effect_of_invoke hstep (hclosed.trans (openSocket_entry hentry _)) (by simp)
          (.reopened reopen.number (fun _ _ => hentry) rfl rfl)
      | false =>
        refine effect_of_invoke hstep (hclosed.trans (openSocket_null hentry _)) (by simp)
          (.dropped ?_ rfl rfl rfl)
        intro hreopens
        rw [hreopens hstate rfl] at hentry
        cases hentry
  · exact effect_raised (fun hconnected => absurd hconnected hstate) hstep (refused hstate)

/-- A connection that has failed. -/
theorem effect_failed {e : SocketError} {calls : List IOCall} {epipe : Bool}
    (hforgets : call.forgets = false) (hstep : s.step call = some t)
    (h : invoke call s = (.error (.raised e), failed { s with calls } reopen epipe))
    (hreopens : Reopens s call ↔ (epipe = true → reopen.entry = true)) : Effect s call t := by
  refine effect_of_invoke hstep h (by simp) ?_
  cases epipe with
  | false => exact .same (hreopens.mpr fun h => by cases h) rfl rfl
  | true =>
    cases hentry : reopen.entry with
    | true =>
      simp only [failed, hentry, if_true]
      exact .reopened reopen.number (hreopens.mpr fun _ => hentry) rfl rfl
    | false =>
      simp only [failed, hentry, if_true, Bool.false_eq_true, if_false]
      refine .dropped ?_ rfl (by simp [hforgets, dropped]) rfl
      intro h
      rw [hreopens.mp h rfl] at hentry
      cases hentry

theorem effect_read (nBytes : Nat) (transfer : Transfer) (reopen : Reopening)
    (hstep : s.step (.read nBytes transfer reopen) = some t) :
    Effect s (.read nBytes transfer reopen) t := by
  by_cases hstate : s.state = .connected
  · have hread : read nBytes transfer reopen s =
        (if narrow (transfer.value nBytes) = 0 then do
          setState .disconnected
          close
          openSocket reopen
          throw (.connectionLost "CSocket::Read: from read(2)")
        else if narrow (transfer.value nBytes) < 0 then do
          setState .disconnected
          throw (.errnoException "CSocket::Read failed read(2)")
        else pure (narrow (transfer.value nBytes)) : Method Int)
          (s.logged (.read nBytes (transfer.value nBytes))) := required hstate
    by_cases hzero : narrow (transfer.value nBytes) = 0
    · rw [if_pos hzero] at hread
      obtain ⟨e, -, hlost⟩ := lost_apply reopen Int "CSocket::Read: from read(2)"
        (s.logged (.read nBytes (transfer.value nBytes)))
      have hinvoke : invoke (.read nBytes transfer reopen) s = (.error (.raised e),
          failed (s.logged (.read nBytes (transfer.value nBytes))) reopen true) :=
        bind_error (hread.trans hlost)
      exact effect_failed rfl hstep hinvoke ⟨fun h _ => h hstate hzero, fun h _ _ => h rfl⟩
    · have hreopens : Reopens s (.read nBytes transfer reopen) :=
        fun _ h => absurd h hzero
      rw [if_neg hzero] at hread
      by_cases hneg : narrow (transfer.value nBytes) < 0
      · rw [if_pos hneg] at hread
        have hinvoke : invoke (.read nBytes transfer reopen) s =
            (.error (.raised (.errnoException "CSocket::Read failed read(2)")),
              failed (s.logged (.read nBytes (transfer.value nBytes))) reopen false) :=
          bind_error hread
        exact effect_failed rfl hstep hinvoke ⟨fun _ => nofun, fun _ => hreopens⟩
      · rw [if_neg hneg] at hread
        exact effect_of_invoke hstep (bind_ok hread) (by simp) (.same hreopens rfl rfl)
  · exact effect_raised (fun h => absurd h hstate) hstep (bind_error (refused hstate))

theorem effect_write (nBytes : Nat) (answers : Nat → Answer) (reopen : Reopening) (rounds : Nat)
    (hstep : s.step (.write nBytes answers reopen rounds) = some t) :
    Effect s (.write nBytes answers reopen rounds) t := by
  rcases loop_last answers reopen rounds { resid := intOfSize nBytes } s
    with hrunning | ⟨w, calls, hlast, ⟨hend, hloop⟩ | ⟨⟨hresid, hwritten⟩, e, -, hloop⟩⟩
  · have hinvoke : invoke (.write nBytes answers reopen rounds) s = (.error .running, _) :=
      bind_error (Prod.ext hrunning rfl)
    rw [step, hinvoke] at hstep
    cases hstep
  · refine effect_of_invoke hstep (bind_ok hloop) (by simp) (.same ?_ rfl rfl)
    intro w' hlast' hresid hwritten
    rw [← hlast.unique hlast'] at hresid hwritten
    exact absurd hend (not_or.mpr ⟨hresid, hwritten⟩)
  · refine effect_failed rfl hstep (bind_error hloop) ?_
    refine ⟨fun h => h w hlast hresid hwritten, ?_⟩
    intro h w' hlast' _ _
    rw [← hlast.unique hlast']
    exact h

theorem effect_of_step (hstep : s.step call = some t) : Effect s call t := by
  cases call with
  | connect connects => exact effect_connect connects hstep
  | connectTo host service connects => exact effect_connectTo host service connects hstep
  | bind service binds => exact effect_bind service binds hstep
  | listen listens => exact effect_listen listens hstep
  | accept peer => exact effect_accept peer hstep
  | shutdown shuts reopen => exact effect_shutdown shuts reopen hstep
  | read nBytes transfer reopen => exact effect_read nBytes transfer reopen hstep
  | write nBytes answers reopen rounds => exact effect_write nBytes answers reopen rounds hstep

end Call

/-! ## Runs -/

section Runs

variable {s s₀ t : CSocket} {call : SocketCall} {reopen : Reopening} {as : List SocketCall}

/-- The last descriptor is that of the object and open, the others have been
closed once. -/
def Owned (s : CSocket) : Prop :=
  ∃ d rest, s.descriptors = d :: rest ∧ (d.number : Int) = s.fd ∧ d.closes = 0 ∧
    ∀ e ∈ rest, e.closes = 1

/-- After the call. -/
def KeepsOwned (s : CSocket) (call : SocketCall) : Prop := ∀ t, s.step call = some t → Owned t

theorem owned_of_construct (h : construct reopen = (.ok (), s₀)) : Owned s₀ := by
  obtain ⟨d, rest, hlist, hnumber, hcloses, hrest, -⟩ := sound_of_construct h
  exact ⟨d, rest, hlist, hnumber, hcloses, hrest⟩

/-- A system call on `m_Fd`. -/
theorem Owned.onLast (h : Owned s) : ∃ d rest, (d.number : Int) = s.fd ∧ d.closes = 0 ∧
    (∀ e ∈ rest, e.closes = 1) ∧
    ∀ change : Descriptor → Descriptor, onLast s.fd change s.descriptors = change d :: rest := by
  obtain ⟨d, rest, hlist, hnumber, hcloses, hrest⟩ := h
  refine ⟨d, rest, hnumber, hcloses, hrest, ?_⟩
  intro change
  rw [hlist, Support.onLast, if_pos hnumber]

theorem Owned.closed (h : Owned s) : ∃ d rest, (d.number : Int) = s.fd ∧
    s.closed = d :: rest ∧ ∀ e ∈ s.closed, e.closes = 1 := by
  obtain ⟨d, rest, hnumber, hcloses, hrest, hchange⟩ := h.onLast
  refine ⟨d.close, rest, hnumber, hchange _, ?_⟩
  intro e he
  rw [CSocket.closed, hchange] at he
  rcases List.mem_cons.mp he with he | he
  · rw [he, Descriptor.close, hcloses]
  · exact hrest e he

theorem owned_of_effect (h : Owned s) (heffect : Effect s call t) :
    Reopens s call ∧ Owned t ∨ ¬ Reopens s call ∧ ¬ Owned t := by
  cases heffect with
  | kept change hreopens hkeeps hfd hlist =>
    obtain ⟨d, rest, hnumber, hcloses, hrest, hchange⟩ := h.onLast
    refine .inl ⟨hreopens, change d, rest, hlist.trans (hchange change), ?_, ?_, hrest⟩
    · rw [(hkeeps d).1, hnumber, hfd]
    · rw [(hkeeps d).2, hcloses]
  | reopened number hreopens hfd hlist =>
    obtain ⟨-, -, -, -, hclosed⟩ := h.closed
    exact .inl ⟨hreopens, { number }, s.closed, hlist, hfd.symm, rfl, hclosed⟩
  | dropped hnot hstate hfd hlist =>
    refine .inr ⟨hnot, ?_⟩
    intro ⟨d, rest, hlist', _, hopen, _⟩
    obtain ⟨-, -, -, -, hclosed⟩ := h.closed
    rw [hlist] at hlist'
    rw [hclosed d (by rw [hlist']; exact List.mem_cons_self)] at hopen
    cases hopen

theorem owned_run_iff (hbuild : construct reopen = (.ok (), s₀)) :
    Run step KeepsOwned s₀ as s ↔ Run step Reopens s₀ as s := by
  refine Run.congr_of_invariant Owned (owned_of_construct hbuild) ?_ ?_
  · intro s call t _ hkeeps hstep
    exact hkeeps t hstep
  · intro s call t hs hstep
    have hkeeps : KeepsOwned s call ↔ Owned t := by
      refine ⟨fun h => h t hstep, ?_⟩
      intro ht u hu
      rw [hstep] at hu
      rw [← Option.some.inj hu]
      exact ht
    rw [hkeeps]
    rcases owned_of_effect hs (effect_of_step hstep) with ⟨hreopens, ht⟩ | ⟨hnot, ht⟩
    · exact iff_of_true ht hreopens
    · exact iff_of_false ht hnot

/-! ## The end -/

theorem closeIfPositive_apply (s : CSocket) : closeIfPositive s =
    (.ok (), if 0 < s.fd then { s with descriptors := s.closed } else s) := by
  unfold closeIfPositive
  simp only [bind_apply, reads_apply]
  split <;> rfl

theorem destroy_disconnected (hstate : s.state ≠ .connected) (shuts : Bool)
    (reopen : Reopening) : destroy shuts reopen s = closeIfPositive s := by
  unfold destroy
  simp only [bind_apply, reads_apply, if_neg hstate]

theorem destroy_connected (hstate : s.state = .connected) (hentry : reopen.entry = true) :
    destroy true reopen s =
      closeIfPositive ({ s.dropped with fd := -1 }.reopened reopen.number) := by
  have hshutdown : shutdown true reopen s =
      (.ok (), { s.dropped with fd := -1 }.reopened reopen.number) :=
    (required hstate).trans (openSocket_entry hentry _)
  unfold destroy
  simp only [bind_apply, reads_apply, if_pos hstate, hshutdown]

/-- The descriptors of an object that has been destroyed: the last one has been
closed so often, and the others once. -/
def Left (u : CSocket) (closes : Descriptor → Nat) : Prop :=
  ∃ d rest, u.descriptors = d :: rest ∧ d.closes = closes d ∧ ∀ e ∈ rest, e.closes = 1

theorem Owned.destroyed (h : Owned s) : ∃ u, closeIfPositive s = (.ok (), u) ∧
    Left u fun d => if d.number = 0 then 0 else 1 := by
  refine ⟨_, closeIfPositive_apply s, ?_⟩
  obtain ⟨d, rest, hlist, hnumber, hcloses, hrest⟩ := h
  split
  · next hpos =>
    refine ⟨d.close, rest, ?_, ?_, hrest⟩
    · rw [CSocket.closed, hlist, Support.onLast, if_pos hnumber]
    · have hne : d.number ≠ 0 := by omega
      simp [Descriptor.close, hcloses, hne]
  · next hpos =>
    refine ⟨d, rest, hlist, ?_, hrest⟩
    have hzero : d.number = 0 := by omega
    simp [hcloses, hzero]

theorem destroyed_dropped (h : Owned s) (hstate : t.state = .disconnected)
    (hfd : t.fd = if call.forgets then -1 else s.fd) (hlist : t.descriptors = s.closed)
    (shuts : Bool) (reopen : Reopening) : ∃ u, destroy shuts reopen t = (.ok (), u) ∧
      Left u fun d => if call.forgets ∨ d.number = 0 then 1 else 2 := by
  rw [destroy_disconnected (by simp [hstate])]
  refine ⟨_, closeIfPositive_apply t, ?_⟩
  obtain ⟨d, rest, hnumber, hcloses, hrest, hchange⟩ := h.onLast
  rw [CSocket.closed, hchange] at hlist
  split
  · next hpos =>
    have hforgets : call.forgets = false := by
      cases hf : call.forgets with
      | false => rfl
      | true => simp [hfd, hf] at hpos
    simp only [hforgets, Bool.false_eq_true, if_false] at hfd
    have hne : d.number ≠ 0 := by omega
    refine ⟨d.close.close, rest, ?_, ?_, hrest⟩
    · rw [CSocket.closed, hlist, Support.onLast, if_pos (by rw [hfd, ← hnumber]; rfl)]
    · simp [Descriptor.close, hcloses, hforgets, hne]
  · next hpos =>
    refine ⟨d.close, rest, hlist, ?_, hrest⟩
    have hzero : call.forgets = true ∨ d.number = 0 := by
      cases hf : call.forgets with
      | true => exact .inl rfl
      | false =>
        simp only [hf, Bool.false_eq_true, if_false] at hfd
        right
        omega
    have hnumber' : d.close.number = d.number := rfl
    simp [Descriptor.close, hcloses, hzero]

/-- **The descriptors of an object.** As long as `OpenSocket` succeeds, and no
longer, the object owns one open descriptor and has closed the others once.
The destructor then closes it, unless its number is 0. When `OpenSocket` fails
in `Read` or `Write`, the destructor closes the descriptor for the second
time. -/
theorem descriptors_closed_once (hbuild : construct reopen = (.ok (), s₀)) :
    (Run step KeepsOwned s₀ as s ↔ Run step Reopens s₀ as s) ∧
    (Run step Reopens s₀ as s →
      (∀ shuts reopen', (s.state = .connected → shuts = true ∧ reopen'.entry = true) →
        ∃ u, destroy shuts reopen' s = (.ok (), u) ∧
          Left u fun d => if d.number = 0 then 0 else 1) ∧
      ∀ call t, s.step call = some t → ¬ Reopens s call → ∀ shuts reopen',
        ∃ u, destroy shuts reopen' t = (.ok (), u) ∧
          Left u fun d => if call.forgets ∨ d.number = 0 then 1 else 2) := by
  refine ⟨owned_run_iff hbuild, ?_⟩
  intro hrun
  have howned : Owned s := hrun.invariant Owned (owned_of_construct hbuild) ?_
  · refine ⟨?_, ?_⟩
    · intro shuts reopen' hconnected
      by_cases hstate : s.state = .connected
      · obtain ⟨rfl, hentry⟩ := hconnected hstate
        rw [destroy_connected hstate hentry]
        obtain ⟨-, -, -, -, hclosed⟩ := howned.closed
        exact Owned.destroyed ⟨{ number := reopen'.number }, s.closed, rfl, rfl, rfl, hclosed⟩
      · rw [destroy_disconnected hstate]
        exact howned.destroyed
    · intro call t hstep hnot shuts reopen'
      cases effect_of_step hstep with
      | kept change hreopens => exact absurd hreopens hnot
      | reopened number hreopens => exact absurd hreopens hnot
      | dropped _ hstate hfd hlist =>
        exact destroyed_dropped howned hstate hfd hlist shuts reopen'
  · intro s call t hs hreopens hstep
    rcases owned_of_effect hs (effect_of_step hstep) with ⟨-, ht⟩ | ⟨hnot, -⟩
    · exact ht
    · exact absurd hreopens hnot

/-- The connection is lost, and `OpenSocket` fails. -/
def lost : CSocket :=
  { fd := 3, descriptors := [{ number := 3, connected := true, closes := 1 }]
    calls := [.read 1 0] }

/-- The destructor closes the descriptor 3 again. -/
theorem failed_reopening_closes_twice : ∃ u, destroy false ⟨true, 4⟩ lost = (.ok (), u) ∧
    ∀ d ∈ u.descriptors, d.number = 3 → d.closes = 2 := by
  have hrun : Run step Reopens opened [.connect true] online := .snoc .nil trivial rfl
  have hnot : ¬ Reopens online (.read 1 .nothing ⟨false, 4⟩) := by
    intro h
    cases h rfl rfl
  obtain ⟨-, hfails⟩ := (descriptors_closed_once (rfl : construct ⟨true, 3⟩ = (.ok (), opened))).2
    hrun
  obtain ⟨u, hu, d, rest, hlist, hcloses, -⟩ :=
    hfails (.read 1 .nothing ⟨false, 4⟩) lost rfl hnot false ⟨true, 4⟩
  refine ⟨u, hu, ?_⟩
  cases hu
  obtain ⟨rfl, rfl⟩ : { number := 3, connected := true, closes := 2 } = d ∧ [] = rest :=
    List.cons.inj hlist
  intro e he _
  rw [List.mem_singleton.mp he]

end Runs

end CSocket

end EpicsTcl.Support
