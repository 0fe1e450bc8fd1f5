/-
EpicsTcl.Server.IsolationTheorems — what one client can do to the others.

Both passes over the pending requests complete one request after another,
and an error in one of them ends the pass: the requests behind it are not
reached, and an error of `processTimeouts` ends the server. `one_peer` says
exactly when the passes do reach everyone (`Isolated`): no expired request
may fail (`expired` in `NoFailureAhead`), and no request in front of one
that could be answered (`satisfiable`).

That no two requests have the same socket holds in every run
(`requests_have_own_sockets`).
-/
import EpicsTcl.Server.ServeTheorems

namespace EpicsTcl.Server

open EpicsTcl.Library EpicsTcl.Library.Script

variable {cfg : Config} {env : Environment} {cause : Cause} {index : Nat} {r : Request}
  {s t u : State}

namespace State

/-- The socket of the request can be written, flushed and closed. -/
def accepts (env : Environment) (s : State) (r : Request) : Bool :=
  decide (r.socket ∈ s.openSockets) && !env.socketFault r.socket .puts &&
    !env.socketFault r.socket .flush && !env.socketFault r.socket .close

/-- Nothing prevents a reply to the request. -/
def Answerable (env : Environment) (s : State) (r : Request) : Prop :=
  s.accepts env r = true ∧ ∃ fields, s.replyFields r.channels = .ok fields

/-- The readiness test of the request does not raise, nor does its
completion if it is ready. -/
def Harmless (env : Environment) (s : State) (r : Request) : Prop :=
  ∃ there, s.allThere r.channels = .ok there ∧ (there = true → s.Answerable env r)

theorem replyVerdict_completes : s.replyVerdict env r = .completes ↔ s.Answerable env r := by
  rw [replyVerdict, Answerable, accepts]
  cases s.replyFields r.channels with
  | error e => simp
  | ok fields =>
    by_cases hopen : r.socket ∈ s.openSockets
    · cases env.socketFault r.socket .puts <;> cases env.socketFault r.socket .flush <;>
        cases env.socketFault r.socket .close <;> simp [hopen]
    · simp [hopen]

theorem replyVerdict_fails : (s.replyVerdict env r).fails = false ↔ s.Answerable env r := by
  rw [← replyVerdict_completes, replyVerdict]
  split
  · simp [Verdict.fails]
  · split
    · simp [Verdict.fails]
    · split <;> simp [Verdict.fails]

theorem satisfyVerdict_fails : (s.satisfyVerdict env r).fails = false ↔ s.Harmless env r := by
  rw [satisfyVerdict, Harmless]
  cases s.allThere r.channels with
  | error e => simp [Verdict.fails]
  | ok there =>
    cases there with
    | false => simp [Verdict.fails]
    | true => simp [replyVerdict_fails]

theorem timeoutVerdict_fails :
    (s.timeoutVerdict cfg env r).fails = false ↔ (s.expired cfg r = true → s.Answerable env r) := by
  rw [timeoutVerdict]
  cases s.expired cfg r with
  | false => simp [Verdict.fails]
  | true => simp [replyVerdict_fails]

end State

/-- Everyone who can be answered is, and the server goes on. -/
structure Isolated (cfg : Config) (env : Environment) (s : State) : Prop where
  returns : ∃ t, processTimeouts cfg env s = (.ok (), t)
  expired : ∀ i r, s.pendingRequests.lookup i = some r → s.expired cfg r = true →
    s.accepts env r = true → Answered s (processTimeouts cfg env s).2 i r
  satisfiable : ∀ i r, s.pendingRequests.lookup i = some r → s.allThere r.channels = .ok true →
    s.accepts env r = true → Answered s (satisfyRequests cfg env s).2 i r

/-- Every expired request can be answered, and so can every satisfiable
one whose socket accepts writes, and every ready request in front of it. -/
structure NoFailureAhead (cfg : Config) (env : Environment) (s : State) : Prop where
  expired : ∀ i r, s.pendingRequests.lookup i = some r → s.expired cfg r = true →
    s.Answerable env r
  satisfiable : ∀ pre i post r, env.order s.pendingRequests.keys = pre ++ i :: post →
    s.pendingRequests.lookup i = some r → s.allThere r.channels = .ok true →
    s.accepts env r = true →
    (∃ fields, s.replyFields r.channels = .ok fields) ∧
      ∀ j ∈ pre, ∀ q, s.pendingRequests.lookup j = some q → s.Harmless env q

/-! ## One pass -/

namespace Pass

variable {P : Pass cfg} {l pre post : List Nat}

theorem failsAt_eq (hr : s.pendingRequests.lookup index = some r) :
    P.failsAt s index = (P.verdict s r).fails := by
  rw [failsAt, hr]

/-- A pass that returns met no failure. -/
theorem no_failure_of_returns (hone : s.OneRequestPerSocket) (hnodup : l.Nodup)
    (hpresent : ∀ i ∈ l, ∃ r, s.pendingRequests.lookup i = some r)
    (hreturns : forEach l P.body s = (.ok (), t)) : ∀ i ∈ l, P.failsAt s i = false := by
  intro i hi
  by_contra hfails
  have hsome : (l.find? (P.failsAt s)).isSome := by
    rw [List.find?_isSome]
    exact ⟨i, hi, by simpa using hfails⟩
  obtain ⟨j, hj⟩ := Option.isSome_iff_exists.mp hsome
  obtain ⟨hjfails, pre, post, rfl, hpre⟩ := List.find?_eq_some_iff_append.mp hj
  obtain ⟨u, e, -, -, -, herror⟩ := P.stops hone hnodup hpresent (by simpa using hpre) hjfails
  rw [herror] at hreturns
  cases hreturns

/-- A request is completed if nothing in front of it fails. -/
theorem answers (hone : s.OneRequestPerSocket) (hnodup : (pre ++ index :: post).Nodup)
    (hpresent : ∀ i ∈ pre ++ index :: post, ∃ r, s.pendingRequests.lookup i = some r)
    (hok : ∀ i ∈ pre, P.failsAt s i = false) (hr : s.pendingRequests.lookup index = some r)
    (hv : P.verdict s r = .completes) :
    Answered s (forEach (pre ++ index :: post) P.body s).2 index r := by
  have hlist : pre ++ index :: post = (pre ++ [index]) ++ post := by simp
  have hindex : index ∉ post := by
    intro hmem
    rw [List.nodup_append] at hnodup
    exact (List.nodup_cons.mp hnodup.2.1).1 hmem
  have hall : ∀ i ∈ pre ++ [index], ¬ P.failsAt s i = true := by
    intro i hi
    rcases List.mem_append.mp hi with hi | hi
    · simp [hok i hi]
    · rw [List.mem_singleton.mp hi, failsAt_eq hr, hv]
      simp [Verdict.fails]
  rw [hlist] at hnodup hpresent ⊢
  obtain ⟨t, hrun, hahead⟩ := P.runs_through hone hnodup hpresent hall
  rw [forEach_append hrun]
  exact (hahead.answered index (by simp) hindex r hr hv).progress (P.progress post t)

/-- The round that fails answers nobody, unless it is the `close` that
fails. -/
theorem not_answered {j : Nat} {rest : List Nat} (hahead : Ahead P s l (j :: rest) t)
    (hfails : P.failsAt s j = true) (hmem : index ∈ j :: rest)
    (hr : s.pendingRequests.lookup index = some r) (hv : P.verdict s r ≠ .closeFails) :
    ¬ Answered s (P.body j t).2 index r := by
  intro h
  have ht : t.pendingRequests.lookup index = some r := by rw [hahead.pending index hmem, hr]
  obtain ⟨q, hq⟩ := hahead.present j List.mem_cons_self
  have hround := hahead.round hq
  rw [failsAt_eq hq] at hfails
  generalize hresult : P.body j t = result at hround h
  by_cases hj : index = j
  · subst hj
    rw [hr] at hq
    cases hq
    obtain ⟨old, hold, hclosed⟩ := hahead.unclosed
    obtain ⟨new, hnew, -, hclose⟩ := h.replied
    -- the events of this round come on top of `old`, and none is a successful close
    have hnone : ∀ events, .close r.socket true ∉ events →
        result.2.history = events ++ t.history → False := by
      intro events hevents heq
      rw [heq, hold, ← List.append_assoc, List.append_cancel_right_eq] at hnew
      rw [← hnew] at hclose
      rcases List.mem_append.mp hclose with hmem' | hmem'
      · exact hevents hmem'
      · exact hclosed index hmem r hr true hmem'
    generalize P.verdict s r = v at hround hfails hv
    cases hround with
    | waits => cases hfails
    | checkFails e => exact hnone [] List.not_mem_nil rfl
    | replied cause hreplied =>
      cases hreplied with
      | noFields => exact hnone _ (by simp) rfl
      | putsFails => exact hnone _ (by simp) rfl
      | flushFails => exact hnone _ (by simp) rfl
      | closeFails => exact hv rfl
      | completes => cases hfails
  · have hkeep : result.2.pendingRequests.lookup index = t.pendingRequests.lookup index := by
      generalize P.verdict s q = v at hround
      cases hround with
      | waits | checkFails => rfl
      | replied cause hreplied => cases hreplied <;> exact AList.lookup_erase_ne hj
    have hgone := h.gone
    rw [hkeep, ht] at hgone
    cases hgone

/-- A request that is completed does not fail, and nothing in front of it
does. -/
theorem no_failure_of_answered (hone : s.OneRequestPerSocket)
    (hnodup : (pre ++ index :: post).Nodup)
    (hpresent : ∀ i ∈ pre ++ index :: post, ∃ r, s.pendingRequests.lookup i = some r)
    (hr : s.pendingRequests.lookup index = some r) (hv : P.verdict s r ≠ .closeFails)
    (h : Answered s (forEach (pre ++ index :: post) P.body s).2 index r) :
    ∀ i ∈ pre ++ [index], P.failsAt s i = false := by
  intro i hi
  by_contra hfails
  have hsome : ((pre ++ [index]).find? (P.failsAt s)).isSome := by
    rw [List.find?_isSome]
    exact ⟨i, hi, by simpa using hfails⟩
  obtain ⟨j, hj⟩ := Option.isSome_iff_exists.mp hsome
  obtain ⟨hjfails, before, after, hsplit, hbefore⟩ := List.find?_eq_some_iff_append.mp hj
  have hlist : pre ++ index :: post = before ++ j :: (after ++ post) := by
    rw [← List.cons_append, ← List.append_assoc, ← hsplit]
    simp
  -- `index` ends the searched list, so it is not in front of the failure
  have hmem : index ∈ j :: (after ++ post) := by
    have hlast : (before ++ j :: after).getLast? = some index := by
      rw [← hsplit]
      simp
    rw [List.getLast?_append_of_ne_nil _ (List.cons_ne_nil _ _)] at hlast
    rw [← List.cons_append]
    exact List.mem_append_left _ (List.mem_of_getLast? hlast)
  rw [hlist] at hnodup hpresent h
  obtain ⟨t, e, -, hahead, -, hrun⟩ := P.stops hone hnodup hpresent (by simpa using hbefore) hjfails
  rw [hrun] at h
  exact not_answered hahead hjfails hmem hr hv h

end Pass

/-! ## Both passes -/

theorem verdict_closeFails (h : s.accepts env r = true) :
    (satisfyPass cfg env).verdict s r ≠ .closeFails := by
  simp only [State.accepts, Bool.and_eq_true, Bool.not_eq_true'] at h
  simp only [satisfyPass, State.satisfyVerdict, State.replyVerdict]
  split
  · exact Verdict.noConfusion
  · exact Verdict.noConfusion
  · split
    · exact Verdict.noConfusion
    · simp only [h, Bool.false_eq_true, if_false]
      split <;> exact Verdict.noConfusion

/-- One client cannot harm another one or the server exactly when nothing
that is due fails, where no channel has replaced a command. -/
theorem one_peer (env : Environment) (intact : Intact cfg)
    (hone : intact.state.OneRequestPerSocket) :
    Isolated cfg env intact.state ↔ NoFailureAhead cfg env intact.state := by
  generalize intact.state = s at hone ⊢
  have hnodup := order_nodup env s
  have hpresent : ∀ i ∈ env.order s.pendingRequests.keys,
      ∃ r, s.pendingRequests.lookup i = some r := fun i hi => mem_order.mp hi
  constructor
  · intro h
    constructor
    case expired =>
      intro i r hr hexpired
      obtain ⟨t, ht⟩ := h.returns
      rw [processTimeouts_eq] at ht
      have hok := Pass.no_failure_of_returns hone hnodup hpresent ht i (mem_order.mpr ⟨r, hr⟩)
      rw [Pass.failsAt_eq hr] at hok
      exact State.timeoutVerdict_fails.mp hok hexpired
    case satisfiable =>
      intro pre i post r horder hr hthere haccepts
      have hanswered := h.satisfiable i r hr hthere haccepts
      rw [satisfyRequests_eq, horder] at hanswered
      rw [horder] at hnodup hpresent
      have hok := Pass.no_failure_of_answered hone hnodup hpresent hr
        (verdict_closeFails haccepts) hanswered
      constructor
      · have hself := hok i (by simp)
        rw [Pass.failsAt_eq hr] at hself
        obtain ⟨there, hthere', hready⟩ := State.satisfyVerdict_fails.mp hself
        rw [hthere] at hthere'
        cases hthere'
        exact (hready rfl).2
      · intro j hj q hq
        have hother := hok j (List.mem_append_left _ hj)
        rw [Pass.failsAt_eq hq] at hother
        exact State.satisfyVerdict_fails.mp hother
  · intro h
    have hexpired : ∀ i ∈ env.order s.pendingRequests.keys,
        (timeoutPass cfg env).failsAt s i = false := by
      intro i hi
      obtain ⟨r, hr⟩ := hpresent i hi
      rw [Pass.failsAt_eq hr]
      exact State.timeoutVerdict_fails.mpr (h.expired i r hr)
    constructor
    case returns =>
      rw [← List.append_nil (env.order _)] at hnodup hpresent
      obtain ⟨t, hrun, -⟩ := (timeoutPass cfg env).runs_through hone hnodup hpresent
        fun i hi => by simp [hexpired i hi]
      exact ⟨t, hrun⟩
    case expired =>
      intro i r hr hi _
      obtain ⟨pre, post, horder⟩ := List.append_of_mem (mem_order.mpr ⟨r, hr⟩)
      rw [processTimeouts_eq, horder]
      rw [horder] at hnodup hpresent hexpired
      refine Pass.answers hone hnodup hpresent ?_ hr ?_
      · exact fun j hj => hexpired j (List.mem_append_left _ hj)
      · simp only [timeoutPass, State.timeoutVerdict, hi, if_true]
        exact State.replyVerdict_completes.mpr (h.expired i r hr hi)
    case satisfiable =>
      intro i r hr hthere haccepts
      obtain ⟨pre, post, horder⟩ := List.append_of_mem (mem_order.mpr ⟨r, hr⟩)
      obtain ⟨hfields, hbefore⟩ := h.satisfiable pre i post r horder hr hthere haccepts
      rw [satisfyRequests_eq, horder]
      rw [horder] at hnodup hpresent
      refine Pass.answers hone hnodup hpresent ?_ hr ?_
      · intro j hj
        obtain ⟨q, hq⟩ := hpresent j (List.mem_append_left _ hj)
        rw [Pass.failsAt_eq hq]
        exact State.satisfyVerdict_fails.mpr (hbefore j hj q hq)
      · simp only [satisfyPass, State.satisfyVerdict, hthere]
        exact State.replyVerdict_completes.mpr ⟨haccepts, hfields⟩

/-- It is enough that no request fails in either pass. -/
theorem noFailureAhead_of_verdicts (h : ∀ i r, s.pendingRequests.lookup i = some r →
    (s.timeoutVerdict cfg env r).fails = false ∧ (s.satisfyVerdict env r).fails = false) :
    NoFailureAhead cfg env s where
  expired i r hr := State.timeoutVerdict_fails.mp (h i r hr).1
  satisfiable := by
    intro pre i post r _ hr hthere _
    obtain ⟨there, hthere', hready⟩ := State.satisfyVerdict_fails.mp (h i r hr).2
    rw [hthere] at hthere'
    cases hthere'
    exact ⟨(hready rfl).2, fun j _ q hq => State.satisfyVerdict_fails.mp (h j q hq).2⟩

/-! ### One peer that has gone away -/

/-- The peer of one socket has gone away. -/
def gone (socket : Socket) : Environment where
  socketFault k _ := decide (k = socket)

/-- Two clients wait until their requests are overdue. -/
def twoOverdue : List (Environment × Action) :=
  [(calm, .connect), (calm, .connect), (calm, .request 0 "a"), (calm, .request 1 "b")] ++
    List.replicate 10 (calm, .tick)

/-- In the next tick the peer of the later request is gone. That request is
the first in array order; the timeout pass raises. -/
theorem gone_peer_ends_server :
    ∃ s, Run (State.step plain) Always State.initial twoOverdue s ∧
      ¬ Isolated plain (gone 1) { s with tick := s.tick + 1 } := by
  have hrun : (runAll (State.step plain) State.initial twoOverdue).map
      (fun s => (processTimeouts plain (gone 1) { s with tick := s.tick + 1 }).1.isOk) =
        some false := by decide +kernel
  obtain ⟨s, hs, herror⟩ := Option.map_eq_some_iff.mp hrun
  refine ⟨s, run_iff_runAll.mpr hs, fun h => ?_⟩
  obtain ⟨t, ht⟩ := h.returns
  rw [ht] at herror
  cases herror

/-- Two clients whose requests are overdue, both there: both are answered. -/
theorem one_peer_two :
    ∃ s, Run (State.step plain) Always State.initial twoOverdue s ∧
      s.pendingRequests.keys = [1, 0] ∧ Isolated plain calm { s with tick := s.tick + 1 } := by
  let fine (s : State) (r : Request) : Bool :=
    !(s.timeoutVerdict plain calm r).fails && !(s.satisfyVerdict calm r).fails
  have hend : (runChecked (State.step plain) (fun _ a => keepsCommands plain a = true)
      State.initial twoOverdue).map (fun s => (s.pendingRequests.keys,
        s.pendingRequests.entries.all fun e => fine { s with tick := s.tick + 1 } e.2)) =
          some ([1, 0], true) := by
    decide +kernel
  obtain ⟨s, hs, hfine⟩ := Option.map_eq_some_iff.mp hend
  obtain ⟨hkeys, hfine⟩ := Prod.mk.inj hfine
  have hrun := run_of_runChecked _ hs
  have halways : Run (State.step plain) Always State.initial twoOverdue s :=
    hrun.mono fun _ _ _ => trivial
  have hkept : s.CommandsKept plain := commandsKept_run hrun
  let intact : Intact plain := ⟨{ s with tick := s.tick + 1 }, hkept⟩
  have hone : intact.state.OneRequestPerSocket :=
    fun i j r q hi hj => requests_have_own_sockets halways i j r q hi hj
  refine ⟨s, halways, hkeys, (one_peer calm intact hone).mpr (noFailureAhead_of_verdicts ?_)⟩
  intro i r hr
  have hall := List.all_eq_true.mp hfine ⟨i, r⟩ (AList.mem_lookup_iff.mp hr)
  simpa [fine] using hall

end EpicsTcl.Server
