/-
EpicsTcl.Server.Passes — `satisfyRequests` and `processTimeouts` as two
instances of one pass over the pending requests.

A `Pass` goes through the requests in the order of `array names`; what its
body does with a request is told by a verdict that depends on the channel
data, the tick, the request and its own socket only. Completing one request
changes nothing of this for another one, as long as no two requests have
the same socket (`OneRequestPerSocket`). So all verdicts can be taken
before the pass, and:

* `Pass.runs_through` — as far as no verdict is a failure, the pass runs
  and completes what its verdicts say;
* `Pass.stops` — the first failure ends it.
-/
import EpicsTcl.Server.Effects

namespace EpicsTcl.Server

open EpicsTcl.Library EpicsTcl.Library.Script

variable {cfg : Config} {env : Environment} {cause : Cause} {index : Nat} {r : Request}
  {s t u : State}

/-- No two pending requests have the same socket. -/
def State.OneRequestPerSocket (s : State) : Prop :=
  ∀ i j r q, s.pendingRequests.lookup i = some r → s.pendingRequests.lookup j = some q →
    r.socket = q.socket → i = j

/-! ## Progress -/

/-- Requests have been completed and nothing else happened. -/
structure Progress (s t : State) : Prop where
  pending : ∀ i r, t.pendingRequests.lookup i = some r → s.pendingRequests.lookup i = some r
  opened : ∀ k, k ∈ t.openSockets → k ∈ s.openSockets
  history : ∃ new, t.history = new ++ s.history

theorem Progress.refl (s : State) : Progress s s :=
  ⟨fun _ _ => id, fun _ => id, [], rfl⟩

theorem Progress.trans (h : Progress s t) (h' : Progress t u) : Progress s u := by
  obtain ⟨new, hnew⟩ := h.history
  obtain ⟨new', hnew'⟩ := h'.history
  exact ⟨fun i r hi => h.pending i r (h'.pending i r hi), fun k hk => h.opened k (h'.opened k hk),
    new' ++ new, by rw [hnew', hnew, List.append_assoc]⟩

def Progress.effect : Effect State := ⟨Progress, Progress.refl, Progress.trans⟩

/-- The request got its reply, and its socket was closed. -/
structure Answered (s t : State) (index : Nat) (r : Request) : Prop where
  gone : t.pendingRequests.lookup index = none
  replied : ∃ new, t.history = new ++ s.history ∧ .flush r.socket true ∈ new ∧
    .close r.socket true ∈ new

theorem Answered.progress (h : Answered s t index r) (hp : Progress t u) :
    Answered s u index r := by
  obtain ⟨new, hnew, hflush, hclose⟩ := h.replied
  obtain ⟨more, hmore⟩ := hp.history
  constructor
  · cases hu : u.pendingRequests.lookup index with
    | none => rfl
    | some q =>
      have ht := hp.pending index q hu
      rw [h.gone] at ht
      cases ht
  · exact ⟨more ++ new, by rw [hmore, hnew, List.append_assoc], List.mem_append_right _ hflush,
      List.mem_append_right _ hclose⟩

/-- What was answered after `t` was answered after `s`. -/
theorem Answered.since (h : Answered t u index r) (hp : Progress s t) : Answered s u index r := by
  obtain ⟨new, hnew, hflush, hclose⟩ := h.replied
  obtain ⟨old, hold⟩ := hp.history
  exact ⟨h.gone, new ++ old, by rw [hnew, hold, List.append_assoc],
    List.mem_append_left _ hflush, List.mem_append_left _ hclose⟩

theorem afterReply_progress (index : Nat) (socket : Socket) (events : List Event) (closed : Bool) :
    Progress s (s.afterReply index socket events closed) := by
  refine ⟨fun i q hi => ?_, fun k hk => ?_, events, rfl⟩
  · by_cases h : i = index
    · subst h
      rw [State.afterReply, AList.lookup_erase] at hi
      cases hi
    · rwa [State.afterReply, AList.lookup_erase_ne h] at hi
  · cases closed with
    | true => exact (List.mem_filter.mp hk).1
    | false => exact hk

/-! ## Rounds -/

/-- What a body may do with a request of verdict `v`. -/
inductive Round (cfg : Config) (index : Nat) (r : Request) (s : State) :
    Except TclError Unit × State → Verdict → Prop where
  | waits : Round cfg index r s (.ok (), s) .waits
  | checkFails (e : TclError) : Round cfg index r s (.error e, s) .checkFails
  | replied {result : Except TclError Unit × State} {v : Verdict} (cause : Cause) :
      Replied cfg cause index r s result v → Round cfg index r s result v

/-- What a verdict depends on. -/
structure SameFor (r : Request) (s t : State) : Prop where
  tick : s.tick = t.tick
  values : s.values = t.values
  units : s.units = t.units
  knownChannels : s.knownChannels = t.knownChannels
  opened : r.socket ∈ s.openSockets ↔ r.socket ∈ t.openSockets

/-- A pass over the pending requests. -/
structure Pass (cfg : Config) where
  body : Nat → Proc Unit
  verdict : State → Request → Verdict
  missing : ∀ s i, s.pendingRequests.lookup i = none → ∃ e, body i s = (.error e, s)
  round : ∀ s i r, s.pendingRequests.lookup i = some r → Round cfg i r s (body i s) (verdict s r)
  same : ∀ s t r, SameFor r s t → verdict s r = verdict t r

theorem replyVerdict_same (h : SameFor r s t) : s.replyVerdict env r = t.replyVerdict env r := by
  simp only [State.replyVerdict, replyFields_congr h.values h.units, h.opened]

/-- `satisfyRequests`. -/
def satisfyPass (cfg : Config) (env : Environment) : Pass cfg where
  body := satisfyRequest cfg env
  verdict s r := s.satisfyVerdict env r
  missing s i h := satisfyRequest_missing cfg env h
  round s i r h := by
    rw [satisfyRequest_run h, State.satisfyVerdict]
    cases s.allThere r.channels with
    | error e => exact .checkFails e
    | ok there =>
      cases there with
      | false => exact .waits
      | true => exact .replied .satisfied (completeRequest_replied cfg env _ h)
  same s t r h := by
    simp only [State.satisfyVerdict, allThere_congr h.values h.units h.knownChannels,
      replyVerdict_same h]

/-- `processTimeouts`. -/
def timeoutPass (cfg : Config) (env : Environment) : Pass cfg where
  body := processTimeout cfg env
  verdict s r := s.timeoutVerdict cfg env r
  missing s i h := processTimeout_missing cfg env h
  round s i r h := by
    rw [processTimeout_run h, State.timeoutVerdict]
    split
    · exact .replied .timeout (completeRequest_replied cfg env _ h)
    · exact .waits
  same s t r h := by
    have hexpired : s.expired cfg r = t.expired cfg r := by
      rw [State.expired, State.expired, h.tick]
    rw [State.timeoutVerdict, State.timeoutVerdict, hexpired, replyVerdict_same h]

theorem satisfyRequests_eq : satisfyRequests cfg env s =
    forEach (env.order s.pendingRequests.keys) (satisfyPass cfg env).body s := rfl

theorem processTimeouts_eq : processTimeouts cfg env s =
    forEach (env.order s.pendingRequests.keys) (timeoutPass cfg env).body s := rfl

theorem order_nodup (env : Environment) (s : State) :
    (env.order s.pendingRequests.keys).Nodup :=
  (env.order_perm _).nodup_iff.mpr s.pendingRequests.keys_nodup

theorem mem_order {i : Nat} :
    i ∈ env.order s.pendingRequests.keys ↔ ∃ r, s.pendingRequests.lookup i = some r := by
  rw [(env.order_perm _).mem_iff, ← Option.isSome_iff_exists, AList.lookup_isSome]
  rfl

/-! ## A whole pass -/

namespace Pass

/-- The request at this index fails when the pass reaches it. -/
def failsAt (P : Pass cfg) (s : State) (index : Nat) : Bool :=
  match s.pendingRequests.lookup index with
  | some r => (P.verdict s r).fails
  | none => false

/-- In the middle of a pass over `l` that started in `s`: for the requests
still to come (`rest`) all is as it was, the others are dealt with. -/
structure Ahead (P : Pass cfg) (s : State) (l rest : List Nat) (t : State) : Prop where
  nodup : rest.Nodup
  present : ∀ i ∈ rest, ∃ r, s.pendingRequests.lookup i = some r
  pending : ∀ i ∈ rest, t.pendingRequests.lookup i = s.pendingRequests.lookup i
  same : ∀ i ∈ rest, ∀ r, s.pendingRequests.lookup i = some r → SameFor r t s
  progress : Progress s t
  unclosed : ∃ new, t.history = new ++ s.history ∧
    ∀ i ∈ rest, ∀ r, s.pendingRequests.lookup i = some r → ∀ ok, .close r.socket ok ∉ new
  answered : ∀ i ∈ l, i ∉ rest → ∀ r, s.pendingRequests.lookup i = some r →
    P.verdict s r = .completes → Answered s t i r

variable {P : Pass cfg} {l rest pre post : List Nat}

theorem Ahead.start (hnodup : l.Nodup)
    (hpresent : ∀ i ∈ l, ∃ r, s.pendingRequests.lookup i = some r) : Ahead P s l l s where
  nodup := hnodup
  present := hpresent
  pending _ _ := rfl
  same _ _ _ _ := ⟨rfl, rfl, rfl, rfl, Iff.rfl⟩
  progress := Progress.refl s
  unclosed := ⟨[], rfl, fun _ _ _ _ _ => List.not_mem_nil⟩
  answered _ hi hrest := absurd hi hrest

/-- Leaving a request alone. -/
theorem Ahead.skip (h : Ahead P s l (index :: rest) t)
    (hr : s.pendingRequests.lookup index = some r) (hv : P.verdict s r ≠ .completes) :
    Ahead P s l rest t where
  nodup := (List.nodup_cons.mp h.nodup).2
  present i hi := h.present i (List.mem_cons_of_mem index hi)
  pending i hi := h.pending i (List.mem_cons_of_mem index hi)
  same i hi := h.same i (List.mem_cons_of_mem index hi)
  progress := h.progress
  unclosed := by
    obtain ⟨new, hnew, hclosed⟩ := h.unclosed
    exact ⟨new, hnew, fun i hi => hclosed i (List.mem_cons_of_mem index hi)⟩
  answered i hi hrest q hq hvq := by
    by_cases heq : i = index
    · subst heq
      rw [hr] at hq
      cases hq
      exact absurd hvq hv
    · exact h.answered i hi (by simp [heq, hrest]) q hq hvq

/-- Answering a request. -/
theorem Ahead.reply (hone : s.OneRequestPerSocket) (h : Ahead P s l (index :: rest) t)
    (hr : s.pendingRequests.lookup index = some r) (events : List Event)
    (hflush : .flush r.socket true ∈ events) (hclose : .close r.socket true ∈ events)
    (hown : ∀ k ok, .close k ok ∈ events → k = r.socket) :
    Ahead P s l rest (t.afterReply index r.socket events true) := by
  have hindex : index ∉ rest := (List.nodup_cons.mp h.nodup).1
  have hne : ∀ i ∈ rest, i ≠ index := fun i hi heq => hindex (heq ▸ hi)
  have hprogress : Progress t (t.afterReply index r.socket events true) :=
    afterReply_progress index r.socket events true
  have hsockets : ∀ i ∈ rest, ∀ q, s.pendingRequests.lookup i = some q → q.socket ≠ r.socket :=
    fun i hi q hq heq => hne i hi (hone i index q r hq hr heq)
  constructor
  case nodup => exact (List.nodup_cons.mp h.nodup).2
  case present => exact fun i hi => h.present i (List.mem_cons_of_mem index hi)
  case pending =>
    intro i hi
    rw [← h.pending i (List.mem_cons_of_mem index hi)]
    exact AList.lookup_erase_ne (hne i hi)
  case same =>
    intro i hi q hq
    have hsame := h.same i (List.mem_cons_of_mem index hi) q hq
    have hsocket := hsockets i hi q hq
    refine ⟨hsame.tick, hsame.values, hsame.units, hsame.knownChannels, ?_⟩
    rw [← hsame.opened]
    simp [State.afterReply, hsocket]
  case progress => exact h.progress.trans hprogress
  case unclosed =>
    obtain ⟨new, hnew, hclosed⟩ := h.unclosed
    refine ⟨events ++ new, by simp [State.afterReply, hnew], fun i hi q hq ok hmem => ?_⟩
    rcases List.mem_append.mp hmem with hmem | hmem
    · exact hsockets i hi q hq (hown _ _ hmem)
    · exact hclosed i (List.mem_cons_of_mem index hi) q hq ok hmem
  case answered =>
    intro i hi hrest q hq hvq
    by_cases heq : i = index
    · subst heq
      rw [hr] at hq
      cases hq
      have hnow : Answered t (t.afterReply i r.socket events true) i r :=
        ⟨AList.lookup_erase _ _, events, rfl, hflush, hclose⟩
      exact hnow.since h.progress
    · exact (h.answered i hi (by simp [heq, hrest]) q hq hvq).progress hprogress

/-- The verdict on the next request is the one it had before the pass. -/
theorem Ahead.round (h : Ahead P s l (index :: rest) t)
    (hr : s.pendingRequests.lookup index = some r) :
    Round cfg index r t (P.body index t) (P.verdict s r) := by
  have ht : t.pendingRequests.lookup index = some r := by
    rw [h.pending index List.mem_cons_self, hr]
  have hround := P.round t index r ht
  rwa [P.same t s r (h.same index List.mem_cons_self r hr)] at hround

/-- One round that does not fail. -/
theorem Ahead.go (hone : s.OneRequestPerSocket) (h : Ahead P s l (index :: rest) t)
    (hok : ¬ P.failsAt s index = true) :
    ∃ u, P.body index t = (.ok (), u) ∧ Ahead P s l rest u := by
  obtain ⟨r, hr⟩ := h.present index List.mem_cons_self
  have hround := h.round hr
  simp only [failsAt, hr] at hok
  generalize hv : P.verdict s r = v at hround hok
  generalize hresult : P.body index t = result at hround
  cases hround with
  | waits => exact ⟨t, rfl, h.skip hr (by simp [hv])⟩
  | checkFails e => exact absurd rfl hok
  | replied cause hreplied =>
    cases hreplied with
    | noFields | putsFails | flushFails | closeFails => exact absurd rfl hok
    | completes fields =>
      refine ⟨_, rfl, h.reply hone hr _ ?_ ?_ ?_⟩
      · simp
      · simp
      · simp

/-- What every completion may do, a pass may do. -/
theorem within (P : Pass cfg) {E : Effect State}
    (replied : ∀ cause s index r result v, s.pendingRequests.lookup index = some r →
      Replied cfg cause index r s result v → E.rel s result.2) (l : List Nat) :
    Within E (forEach l P.body) := by
  refine Within.forEach fun index _ t => ?_
  cases ht : t.pendingRequests.lookup index with
  | none =>
    obtain ⟨e, hrun⟩ := P.missing t index ht
    rw [hrun]
    exact E.refl t
  | some r =>
    have hround := P.round t index r ht
    generalize P.verdict t r = v at hround
    generalize P.body index t = result at hround ⊢
    cases hround with
    | waits | checkFails => exact E.refl t
    | replied cause hreplied => exact replied cause t index r _ _ ht hreplied

/-- Whatever happens in it, a pass only completes requests. -/
theorem progress (P : Pass cfg) (l : List Nat) (s : State) :
    Progress s (forEach l P.body s).2 := by
  refine P.within (E := Progress.effect) ?_ l s
  intro cause s index r result v _ hreplied
  cases hreplied <;> exact afterReply_progress _ _ _ _

/-- As far as nothing fails, the pass runs through. -/
theorem runs_through (P : Pass cfg) (hone : s.OneRequestPerSocket) (hnodup : (pre ++ rest).Nodup)
    (hpresent : ∀ i ∈ pre ++ rest, ∃ r, s.pendingRequests.lookup i = some r)
    (hok : ∀ i ∈ pre, ¬ P.failsAt s i = true) :
    ∃ t, forEach pre P.body s = (.ok (), t) ∧ Ahead P s (pre ++ rest) rest t := by
  refine forEach_of_go (P.failsAt s · = true) ?_ pre rest s (Ahead.start hnodup hpresent) hok
  exact fun index rest t h hok => h.go hone hok

/-- The first failure ends the pass. -/
theorem stops (P : Pass cfg) (hone : s.OneRequestPerSocket)
    (hnodup : (pre ++ index :: post).Nodup)
    (hpresent : ∀ i ∈ pre ++ index :: post, ∃ r, s.pendingRequests.lookup i = some r)
    (hok : ∀ i ∈ pre, ¬ P.failsAt s i = true) (hfails : P.failsAt s index = true) :
    ∃ t e, forEach pre P.body s = (.ok (), t) ∧
      Ahead P s (pre ++ index :: post) (index :: post) t ∧
      (P.body index t).1 = .error e ∧
      forEach (pre ++ index :: post) P.body s = (.error e, (P.body index t).2) := by
  obtain ⟨t, hpre, hahead⟩ := P.runs_through hone hnodup hpresent hok
  obtain ⟨r, hr⟩ := hahead.present index List.mem_cons_self
  have hround := hahead.round hr
  simp only [failsAt, hr] at hfails
  have herror : ∃ e, (P.body index t).1 = .error e := by
    generalize P.verdict s r = v at hround hfails
    generalize P.body index t = result at hround
    cases hround with
    | waits => cases hfails
    | checkFails e => exact ⟨e, rfl⟩
    | replied cause hreplied =>
      cases hreplied with
      | noFields e | putsFails e | flushFails e | closeFails e => exact ⟨e, rfl⟩
      | completes => cases hfails
  obtain ⟨e, he⟩ := herror
  refine ⟨t, e, hpre, hahead, he, ?_⟩
  rw [forEach_append hpre]
  exact bind_error (by rw [← he])

end Pass

end EpicsTcl.Server
