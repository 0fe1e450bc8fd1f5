/-
EpicsTcl.Server.TimingTheorems — when requests are completed, and the shape
of the reply.

`Indexed` is about request indices, completions and ticks and holds in
every run. `Regular` holds in the runs over channel names without glob
characters: both elements of every known channel have been stored
(`Monitored`), hence those of every channel of a pending request
(`Shaped`). Such a name matches itself only, so the reply has the two
elements of each channel, in the order of the request (`replyFields_eq`).

`timing_and_shape` puts them together, with what `processTimeouts` leaves
pending when it returns (`processTimeouts_inTime`).
-/
import EpicsTcl.Server.ChannelData
import EpicsTcl.Server.Passes
import EpicsTcl.Library.Log

namespace EpicsTcl.Server

open EpicsTcl.Library EpicsTcl.Library.Script

variable {cfg : Config} {env : Environment} {cause : Cause} {index : Nat} {r : Request}
  {s t : State} {name : String} {x : Table × String} {socket : Socket}

/-! ## Indices and ticks -/

/-- An index is given once. -/
def NewIndex (earlier : List Event) (e : Event) : Prop :=
  ∀ i r, e = .queued i r → ∀ q, .queued i q ∉ earlier

/-- What is completed was queued and has not been completed before. -/
def FirstCompletion (earlier : List Event) (e : Event) : Prop :=
  ∀ c, e = .completed c → .queued c.index c.request ∈ earlier ∧
    ∀ d, .completed d ∈ earlier → d.index ≠ c.index

/-- What the timeout pass completes has waited longer than the timeout. -/
def Waited (timeout : Int) (e : Event) : Prop :=
  ∀ c, e = .completed c → c.cause = .timeout → (c.tick : Int) - c.request.startTime > timeout

/-- A line is written for the completion before it, and is its fields
joined. -/
def JoinedLine (cfg : Config) (earlier : List Event) (e : Event) : Prop :=
  ∀ k line ok, e = .puts k line ok →
    ∃ c rest, earlier = .completed c :: rest ∧ k = c.request.socket ∧ line = cfg.join c.fields

structure Indexed (cfg : Config) (s : State) : Prop where
  pending : ∀ i r, s.pendingRequests.lookup i = some r →
    .queued i r ∈ s.history ∧ ∀ c, .completed c ∈ s.history → c.index ≠ i
  old : ∀ i r, .queued i r ∈ s.history → i < s.requestIndex
  new_index : Each NewIndex s.history
  first : Each FirstCompletion s.history
  waited : Each (fun _ e => Waited cfg.timeout e) s.history
  line : Each (JoinedLine cfg) s.history

namespace Indexed

theorem initial : Indexed cfg State.initial where
  pending _ _ h := nomatch h
  old _ _ h := nomatch h
  new_index := trivial
  first := trivial
  waited := trivial
  line := trivial

/-- Events that queue and complete nothing and write no line. -/
theorem quiet (h : Indexed cfg s) (new : List Event)
    (hqueued : ∀ i r, .queued i r ∉ new) (hcompleted : ∀ c, .completed c ∉ new)
    (hline : ∀ k line ok, .puts k line ok ∉ new)
    (hpending : t.pendingRequests = s.pendingRequests) (hnext : t.requestIndex = s.requestIndex)
    (hhistory : t.history = new ++ s.history) : Indexed cfg t := by
  constructor
  case pending =>
    intro i r hi
    rw [hpending] at hi
    obtain ⟨hmem, hnone⟩ := h.pending i r hi
    rw [hhistory]
    refine ⟨List.mem_append_right _ hmem, fun c hc => ?_⟩
    rcases List.mem_append.mp hc with hc | hc
    · exact absurd hc (hcompleted c)
    · exact hnone c hc
  case old =>
    intro i r hi
    rw [hhistory] at hi
    rw [hnext]
    rcases List.mem_append.mp hi with hi | hi
    · exact absurd hi (hqueued i r)
    · exact h.old i r hi
  case new_index =>
    rw [hhistory]
    exact h.new_index.append fun _ e he i r heq => absurd (heq ▸ he) (hqueued i r)
  case first =>
    rw [hhistory]
    exact h.first.append fun _ e he c heq => absurd (heq ▸ he) (hcompleted c)
  case waited =>
    rw [hhistory]
    exact h.waited.append fun _ e he c heq => absurd (heq ▸ he) (hcompleted c)
  case line =>
    rw [hhistory]
    exact h.line.append fun _ e he k line ok heq => absurd (heq ▸ he) (hline k line ok)

theorem data (h : Indexed cfg s) (hd : DataOnly s t) : Indexed cfg t := by
  obtain ⟨_, _, _, _, _, told, rfl⟩ := hd.rest
  refine h.quiet (deliveries told) ?_ ?_ ?_ rfl rfl rfl <;> simp [deliveries]

/-- Completing a request in the pass that its state calls for. -/
theorem replied {result : Except TclError Unit × State} {v : Verdict} (h : Indexed cfg s)
    (hr : s.pendingRequests.lookup index = some r)
    (hreplied : Replied cfg cause index r s result v)
    (hexpired : cause = .timeout → s.expired cfg r = true) : Indexed cfg result.2 := by
  obtain ⟨events, closed, hresult, hevents⟩ := hreplied.events
  obtain ⟨hqueued, hfirst⟩ := h.pending index r hr
  have hother : ∀ i q, (s.afterReply index r.socket events closed).pendingRequests.lookup i =
      some q → i ≠ index ∧ s.pendingRequests.lookup i = some q := by
    intro i q hi
    refine ⟨?_, (afterReply_progress index r.socket events closed).pending i q hi⟩
    rintro rfl
    rw [State.afterReply, AList.lookup_erase] at hi
    cases hi
  rw [hresult]
  rcases hevents with rfl | ⟨fields, ok, rest, -, rfl, hrest⟩
  · exact {
      pending := fun i q hi => h.pending i q (hother i q hi).2
      old := h.old
      new_index := h.new_index
      first := h.first
      waited := h.waited
      line := h.line }
  · have hhistory : (s.afterReply index r.socket (rest ++ [.puts r.socket (cfg.join fields) ok,
          .completed (s.completion cause index r fields)]) closed).history =
        rest ++ .puts r.socket (cfg.join fields) ok ::
          .completed (s.completion cause index r fields) :: s.history := by
      simp [State.afterReply]
    -- what follows the line is about the socket only
    have hrest_queued : ∀ i q, .queued i q ∉ rest := by
      intro i q hmem
      simpa [Event.socket?] using (hrest _ hmem).1
    have hrest_completed : ∀ d, .completed d ∉ rest := by
      intro d hmem
      simpa [Event.socket?] using (hrest _ hmem).1
    have hrest_line : ∀ k l o, .puts k l o ∉ rest := by
      intro k l o hmem
      simpa [Event.isPuts] using (hrest _ hmem).2 k
    constructor
    case pending =>
      intro i q hi
      obtain ⟨hne, hi⟩ := hother i q hi
      obtain ⟨hmem, hnone⟩ := h.pending i q hi
      rw [hhistory]
      refine ⟨by simp [hmem], fun d hd => ?_⟩
      rcases List.mem_append.mp hd with hd | hd
      · exact absurd hd (hrest_completed d)
      · simp only [List.mem_cons, Event.completed.injEq] at hd
        rcases hd with hd | hd | hd
        · cases hd
        · rw [hd]
          exact hne.symm
        · exact hnone d hd
    case old =>
      intro i q hi
      rw [hhistory] at hi
      apply h.old i q
      simpa [hrest_queued] using hi
    case new_index =>
      rw [hhistory]
      refine Each.append ⟨by simp [NewIndex], by simp [NewIndex], h.new_index⟩ ?_
      exact fun _ e he i q heq => absurd (heq ▸ he) (hrest_queued i q)
    case first =>
      rw [hhistory]
      refine Each.append ⟨by simp [FirstCompletion], ?_, h.first⟩ ?_
      · intro d heq
        cases heq
        exact ⟨hqueued, fun d hd => hfirst d hd⟩
      · exact fun _ e he d heq => absurd (heq ▸ he) (hrest_completed d)
    case waited =>
      rw [hhistory]
      refine Each.append ⟨by simp [Waited], ?_, h.waited⟩ ?_
      · intro d heq hcause
        cases heq
        exact of_decide_eq_true (hexpired hcause)
      · exact fun _ e he d heq => absurd (heq ▸ he) (hrest_completed d)
    case line =>
      rw [hhistory]
      refine Each.append ⟨?_, by simp [JoinedLine], h.line⟩ ?_
      · intro k l o heq
        cases heq
        exact ⟨s.completion cause index r fields, s.history, rfl, rfl, rfl⟩
      · exact fun _ e he k l o heq => absurd (heq ▸ he) (hrest_line k l o)

theorem allows (cfg : Config) (env : Environment) :
    Allows cfg env (Effect.keeps (Indexed cfg)) := by
  apply Allows.of_replied
  · exact fun cause s index r result v hr hreplied _ hexpired h => h.replied hr hreplied hexpired
  · exact fun s t hd h => h.data hd

theorem enqueue (h : Indexed cfg s) (channels : List String) :
    Indexed cfg (s.enqueue socket channels) := by
  let q : Request := ⟨socket, s.tick, channels⟩
  constructor
  case pending =>
    intro i r hi
    by_cases heq : i = s.requestIndex
    · subst heq
      simp only [State.enqueue, AList.lookup_insert, Option.some.injEq] at hi
      subst hi
      refine ⟨List.mem_cons_self, fun c hc heq => ?_⟩
      -- a completed request was queued, so its index is smaller
      have hc : .completed c ∈ s.history := by simpa [State.enqueue, State.record] using hc
      obtain ⟨later, earlier, hsplit⟩ := List.append_of_mem hc
      obtain ⟨hqueued, -⟩ := each_iff.mp h.first later _ earlier hsplit c rfl
      have hold := h.old c.index c.request (by rw [hsplit]; simp [hqueued])
      omega
    · rw [State.enqueue, AList.lookup_insert_ne heq] at hi
      obtain ⟨hmem, hnone⟩ := h.pending i r hi
      refine ⟨List.mem_cons_of_mem _ hmem, fun c hc => hnone c ?_⟩
      simpa [State.enqueue, State.record] using hc
  case old =>
    intro i r hi
    show i < s.requestIndex + 1
    rcases List.mem_cons.mp hi with heq | hi
    · cases heq
      omega
    · have := h.old i r hi
      omega
  case new_index =>
    refine ⟨fun i r heq q hq => ?_, h.new_index⟩
    cases heq
    exact Nat.lt_irrefl _ (h.old _ q hq)
  case first => exact ⟨by simp [FirstCompletion], h.first⟩
  case waited => exact ⟨by simp [Waited], h.waited⟩
  case line => exact ⟨by simp [JoinedLine], h.line⟩

theorem closed (h : Indexed cfg s) (ok : Bool) :
    Indexed cfg (s.afterSocket .close socket (.close socket ok)) :=
  h.quiet [.close socket ok] (by simp) (by simp) (by simp) rfl rfl rfl

theorem queued {line : String} {result : Except TclError Unit × State} (h : Indexed cfg s)
    (hq : Queued cfg env socket line s result) : Indexed cfg result.2 := by
  have hmonitor : ∀ channels, Indexed cfg (monitorChannels cfg env channels s).2 :=
    fun channels => (allows cfg env).monitorChannels channels s h
  cases hq with
  | badLine e => exact h
  | monitorFails e channels => exact hmonitor channels
  | queued channels => exact (hmonitor channels).enqueue channels

theorem idle (h : Indexed cfg s) (hidle : Idle s t) : Indexed cfg t :=
  h.quiet [] (by simp) (by simp) (by simp) hidle.pendingRequests hidle.requestIndex hidle.history

theorem step {a : Action} (h : Indexed cfg s) (hstep : s.step cfg (env, a) = some t) :
    Indexed cfg t := by
  have hkept : KeptBy cfg env s a (Indexed cfg) := {
    idle := fun _ _ h hidle => h.idle hidle
    closed := fun _ _ ok h => h.closed ok
    queued := fun _ _ _ _ h => h.queued (queueRequest_queued ..)
    satisfied := (allows cfg env).satisfyRequests
    timeouts := (allows cfg env).processTimeouts
    deliver := fun pv text h => h.data (deliver_dataOnly pv text s)
    dispatch := fun pv rest _ hevents h => by
      refine (allows cfg env).updateLinkedVariables pv _ (h.idle ?_)
      exact ⟨rfl, rfl, rfl, rfl, rfl, rfl, rfl, fun p hp => by simp [hevents, hp]⟩ }
  exact hkept.step hstep h

end Indexed

/-! ## Known channels -/

/-- Both elements of every known channel have been stored. -/
structure Monitored (s : State) : Prop where
  linked : Linked s
  known : ∀ c, c ∈ s.knownChannels → ∀ tb, c ∈ s.table tb

/-- No channel becomes known, and no element is removed. -/
structure SameChannels (s t : State) : Prop where
  known : ∀ c, c ∈ t.knownChannels → c ∈ s.knownChannels
  table : ∀ tb c, c ∈ s.table tb → c ∈ t.table tb

def SameChannels.effect : Effect State where
  rel := SameChannels
  refl _ := ⟨fun _ => id, fun _ _ => id⟩
  trans h h' := ⟨fun c hc => h.known c (h'.known c hc),
    fun tb c hc => h'.table tb c (h.table tb c hc)⟩

theorem mem_countUpdate {c channel : String} (h : c ∈ (s.countUpdate channel).knownChannels) :
    c ∈ s.knownChannels := by
  unfold State.countUpdate at h
  split at h
  · split at h
    · next known hknown =>
      rcases (AList.mem_insert _).mp h with rfl | h
      · exact AList.lookup_isSome.mp (by rw [hknown]; rfl)
      · exact h
    · exact h
  · exact h

theorem sameChannels_completeRequest (cfg : Config) (env : Environment) (cause : Cause)
    (hr : s.pendingRequests.lookup index = some r) :
    SameChannels s (completeRequest cfg env cause index s).2 := by
  refine ⟨?_, (sameLinks_completeRequest cfg env cause hr).table⟩
  obtain ⟨events, closed, hrun⟩ := completeRequest_snd cfg env cause hr
  rw [hrun]
  exact fun _ => id

theorem sameChannels_deliver (name : String) (s : State) (text : String) :
    SameChannels s (s.deliver name text) :=
  ⟨fun c hc => by simpa using hc, fun tb c hc => by simpa using hc⟩

section

variable (cfg env)

theorem sameChannels_newEpicsValue (name : String) (x : Table × String) (s : State) :
    SameChannels s (newEpicsValue cfg env name x s).2 := by
  have hallows : AllowsUpdate cfg env SameChannels.effect name x := {
    satisfied := fun _ _ _ hr _ => sameChannels_completeRequest cfg env .satisfied hr
    deliver := sameChannels_deliver name
    store := fun s text => ⟨fun c hc => by simpa using hc, fun tb c => State.mem_store text s⟩
    count := fun s => ⟨fun c => mem_countUpdate, fun tb c hc => by simpa using hc⟩ }
  exact hallows.newEpicsValue s

theorem sameChannels_linkTo (name : String) (x : Table × String) (s : State) :
    SameChannels s (s.linkTo cfg env name x) := by
  rw [State.linkTo_eq]
  split
  · exact SameChannels.effect.refl s
  · have hvalue := sameChannels_newEpicsValue cfg env name x s
    have hgap := deliveries_rel (E := SameChannels.effect) (sameChannels_deliver name)
      (env.gap name x.1) (newEpicsValue cfg env name x s).2
    have hboth : SameChannels s _ := SameChannels.effect.trans hvalue hgap
    refine ⟨fun c hc => hboth.known c ?_, fun tb c hc => ?_⟩
    · rwa [State.afterLink, State.addLink_knownChannels] at hc
    · rw [State.afterLink, State.addLink_table]
      exact hboth.table tb c hc

end

namespace Monitored

theorem initial : Monitored State.initial where
  linked := Linked.initial
  known _ h := nomatch h

theorem same (h : Monitored s) (hlinked : Linked t) (hs : SameChannels s t) : Monitored t where
  linked := hlinked
  known c hc tb := hs.table tb c (h.known c (hs.known c hc) tb)

/-- No change to channel data. -/
theorem quiet (h : Monitored s) (hpvs : t.pvs = s.pvs) (htable : ∀ tb, t.table tb = s.table tb)
    (hknown : t.knownChannels = s.knownChannels) : Monitored t := by
  have hchannels : SameChannels s t :=
    ⟨fun c hc => hknown ▸ hc, fun tb c hc => htable tb ▸ hc⟩
  refine h.same (h.linked.congr (fun p => ?_) hchannels.table) hchannels
  simp only [State.linksOf, hpvs]

theorem satisfyRequests (h : Monitored s) : Monitored (satisfyRequests cfg env s).2 :=
  satisfyRequests_within (E := Effect.keeps Monitored)
    (fun _ _ _ hr _ h => h.same (h.linked.same (sameLinks_completeRequest cfg env .satisfied hr))
      (sameChannels_completeRequest cfg env .satisfied hr)) s h

theorem processTimeouts (h : Monitored s) : Monitored (processTimeouts cfg env s).2 :=
  processTimeouts_within (E := Effect.keeps Monitored)
    (fun _ _ _ hr _ h => h.same (h.linked.same (sameLinks_completeRequest cfg env .timeout hr))
      (sameChannels_completeRequest cfg env .timeout hr)) s h

theorem updateLinkedVariables (h : Monitored s) :
    Monitored (updateLinkedVariables cfg env name s).2 :=
  Within.forEach (E := Effect.keeps Monitored)
    (fun x _ u h => h.same (h.linked.same (sameLinks_newEpicsValue cfg env name x u))
      (sameChannels_newEpicsValue cfg env name x u)) s h

/-- While a channel is being linked it is known without its elements; when
that is done it has them. -/
theorem monitorChannel (h : Monitored s) (channel : String) :
    Monitored (monitorChannel cfg env channel s).2 := by
  cases hknown : hasNames s.knownChannels channel with
  | true =>
    rw [monitorChannel_known hknown]
    exact h
  | false =>
    obtain ⟨hrun, hlinked⟩ := monitorChannel_unknown cfg env h.linked hknown
    rw [hrun]
    have hboth :
        SameChannels (s.register channel) ((s.register channel).linkBoth cfg env channel) :=
      SameChannels.effect.trans (sameChannels_linkTo cfg env channel (.values, channel) _)
        (sameChannels_linkTo cfg env (channel ++ ".EGU") (.units, channel) _)
    obtain ⟨hvalues, hunits⟩ := linkBoth_linksOf cfg env channel s
    refine ⟨hlinked, fun c hc tb => ?_⟩
    have hc := hboth.known c hc
    rw [State.register_knownChannels, AList.mem_insert] at hc
    rcases hc with rfl | hc
    · cases tb with
      | values => exact hlinked.stored c (.values, c) hvalues
      | units => exact hlinked.stored (c ++ ".EGU") (.units, c) hunits
    · apply hboth.table tb c
      rw [State.register_table]
      exact h.known c hc tb

theorem monitorChannels (h : Monitored s) (channels : List String) :
    Monitored (monitorChannels cfg env channels s).2 :=
  Within.forEach (E := Effect.keeps Monitored) (fun channel _ _ h => h.monitorChannel channel) s h

end Monitored

/-! ## Replies -/

/-- The fields are the two elements of every channel of the request, in its
order. -/
def Completion.Shaped (c : Completion) : Prop :=
  c.readings.map (·.channel) = c.request.channels ∧
    c.fields.map some = c.readings.flatMap fun x => [x.value, x.units]

theorem hasNames_iff {β : Type} {a : AList fun _ : String => β} {c : String}
    (hfree : globFree c = true) : hasNames a c = true ↔ c ∈ a := by
  simp only [hasNames, List.any_eq_true, globMatch_of_globFree hfree, decide_eq_true_eq]
  constructor
  · rintro ⟨key, hkey, rfl⟩
    exact hkey
  · exact fun hc => ⟨c, hc, rfl⟩

theorem channelFields_eq {c : String} (hfree : globFree c = true) (h : ∀ tb, c ∈ s.table tb) :
    ∃ value units, s.reading c = ⟨c, some value, some units⟩ ∧
      s.channelFields c = .ok [value, units] := by
  obtain ⟨value, hvalue⟩ := Option.isSome_iff_exists.mp (AList.lookup_isSome.mpr (h .values))
  obtain ⟨units, hunits⟩ := Option.isSome_iff_exists.mp (AList.lookup_isSome.mpr (h .units))
  have hvalue : s.values.lookup c = some value := hvalue
  have hunits : s.units.lookup c = some units := hunits
  refine ⟨value, units, by rw [State.reading, hvalue, hunits], ?_⟩
  have hvalues : hasNames s.values c = true := (hasNames_iff hfree).mpr (h .values)
  have hunit : hasNames s.units c = true := (hasNames_iff hfree).mpr (h .units)
  simp [State.channelFields, hvalues, hunit, element_ok hvalue, element_ok hunits, bind,
    Except.bind, pure, Except.pure]

/-- The reply to channels that have their elements. -/
theorem replyFields_eq {channels : List String}
    (h : ∀ c ∈ channels, globFree c = true ∧ ∀ tb, c ∈ s.table tb) :
    ∃ fields, s.replyFields channels = .ok fields ∧
      fields.map some = (channels.map s.reading).flatMap fun x => [x.value, x.units] := by
  induction channels with
  | nil => exact ⟨[], rfl, rfl⟩
  | cons c channels ih =>
    obtain ⟨fields, hfields, hshape⟩ := ih fun d hd => h d (List.mem_cons_of_mem c hd)
    obtain ⟨hfree, htable⟩ := h c List.mem_cons_self
    obtain ⟨value, units, hreading, htwo⟩ := channelFields_eq hfree htable
    refine ⟨[value, units] ++ fields, ?_, ?_⟩
    · simp only [State.replyFields, htwo, hfields, bind, Except.bind, pure, Except.pure]
    · simp [hreading, hshape]

/-- Every channel of a pending request has a plain name and both its
elements, and the replies so far had their shape. -/
structure Shaped (s : State) : Prop where
  pending : ∀ i r, s.pendingRequests.lookup i = some r →
    ∀ c ∈ r.channels, globFree c = true ∧ ∀ tb, c ∈ s.table tb
  replies : ∀ c, .completed c ∈ s.history → c.Shaped

namespace Shaped

theorem initial : Shaped State.initial where
  pending _ _ h := nomatch h
  replies _ h := nomatch h

theorem quiet (h : Shaped s) (new : List Event) (hcompleted : ∀ c, .completed c ∉ new)
    (hpending : t.pendingRequests = s.pendingRequests)
    (htable : ∀ tb c, c ∈ s.table tb → c ∈ t.table tb) (hhistory : t.history = new ++ s.history) :
    Shaped t := by
  constructor
  case pending =>
    intro i r hi c hc
    rw [hpending] at hi
    obtain ⟨hfree, hmem⟩ := h.pending i r hi c hc
    exact ⟨hfree, fun tb => htable tb c (hmem tb)⟩
  case replies =>
    intro c hc
    rw [hhistory, List.mem_append] at hc
    exact h.replies c (hc.resolve_left (hcompleted c))

theorem data (h : Shaped s) (hd : DataOnly s t) : Shaped t := by
  have htable := hd.table
  obtain ⟨_, _, _, _, _, told, rfl⟩ := hd.rest
  exact h.quiet (deliveries told) (by simp [deliveries]) rfl htable rfl

theorem replied {result : Except TclError Unit × State} {v : Verdict} (h : Shaped s)
    (hr : s.pendingRequests.lookup index = some r)
    (hreplied : Replied cfg cause index r s result v) : Shaped result.2 := by
  obtain ⟨events, closed, hresult, hevents⟩ := hreplied.events
  have hprogress : Progress s (s.afterReply index r.socket events closed) :=
    afterReply_progress index r.socket events closed
  rw [hresult]
  constructor
  case pending =>
    intro i q hi c hc
    obtain ⟨hfree, hmem⟩ := h.pending i q (hprogress.pending i q hi) c hc
    exact ⟨hfree, fun tb => State.mem_table_congr rfl rfl tb c (hmem tb)⟩
  case replies =>
    intro d hd
    rcases List.mem_append.mp hd with hd | hd
    · rcases hevents with rfl | ⟨fields, ok, rest, hfields, rfl, hrest⟩
      · cases hd
      · have hnot : .completed d ∉ rest := fun hmem => nomatch (hrest _ hmem).1
        simp only [List.mem_append, hnot, List.mem_cons, reduceCtorEq, Event.completed.injEq,
          List.not_mem_nil, or_false, false_or] at hd
        subst hd
        -- the fields are the ones of channels that have their elements
        obtain ⟨fields', hfields', hshape⟩ := replyFields_eq (h.pending index r hr)
        rw [hfields, Except.ok.injEq] at hfields'
        subst hfields'
        refine ⟨?_, hshape⟩
        simp only [State.completion, List.map_map]
        exact List.map_id _
    · exact h.replies d hd

theorem allows (cfg : Config) (env : Environment) : Allows cfg env (Effect.keeps Shaped) := by
  apply Allows.of_replied
  · exact fun cause s index r result v hr hreplied _ _ h => h.replied hr hreplied
  · exact fun s t hd h => h.data hd

theorem enqueue (h : Shaped s) {channels : List String}
    (hchannels : ∀ c ∈ channels, globFree c = true ∧ ∀ tb, c ∈ s.table tb) :
    Shaped (s.enqueue socket channels) := by
  constructor
  case pending =>
    intro i r hi c hc
    have hold : globFree c = true ∧ ∀ tb, c ∈ s.table tb := by
      by_cases heq : i = s.requestIndex
      · subst heq
        simp only [State.enqueue, AList.lookup_insert, Option.some.injEq] at hi
        subst hi
        exact hchannels c hc
      · rw [State.enqueue, AList.lookup_insert_ne heq] at hi
        exact h.pending i r hi c hc
    exact ⟨hold.1, fun tb => State.mem_table_congr rfl rfl tb c (hold.2 tb)⟩
  case replies =>
    intro c hc
    exact h.replies c (by simpa [State.enqueue, State.record] using hc)

end Shaped

/-! ## Channels of a request -/

/-- A known channel stays known. -/
theorem allows_known (cfg : Config) (env : Environment) (c : String) :
    Allows cfg env (Effect.keeps fun s => c ∈ s.knownChannels) := by
  apply Allows.of_replied
  · intro cause s index r result v _ hreplied _ _ h
    obtain ⟨events, closed, hresult, -⟩ := hreplied.events
    rw [hresult]
    exact h
  · exact fun s t hd h => hd.known c h

variable (cfg env) in
theorem known_monitorChannel {c : String} (hfree : globFree c = true) (s : State) :
    c ∈ (monitorChannel cfg env c s).2.knownChannels := by
  cases hknown : hasNames s.knownChannels c with
  | true =>
    rw [monitorChannel_known hknown]
    exact (hasNames_iff hfree).mp hknown
  | false =>
    rw [monitorChannel_register hknown]
    have hregister : c ∈ (s.register c).knownChannels := by simp
    have hallows := allows_known cfg env c
    exact (Within.bind (hallows.link c _) fun _ => hallows.link (c ++ ".EGU") _) _ hregister

/-- When `monitorChannels` returns, it knows every channel of the request. -/
theorem known_monitorChannels {channels : List String} (hfree : ∀ c ∈ channels, globFree c = true)
    (h : (monitorChannels cfg env channels s).1 = .ok ()) :
    ∀ c ∈ channels, c ∈ (monitorChannels cfg env channels s).2.knownChannels := by
  have hrun : forEach channels (monitorChannel cfg env) s =
      (.ok ⟨⟩, (monitorChannels cfg env channels s).2) := Prod.ext h rfl
  apply forEach_ok_each (Q := fun c u => c ∈ u.knownChannels) hrun
  · intro c hc t u hbody
    have hknown := known_monitorChannel cfg env (hfree c hc) t
    rwa [hbody] at hknown
  · exact fun c d u _ h => (allows_known cfg env c).monitorChannel d u h

/-- The names in the request line have no glob characters. -/
def plainNames (cfg : Config) : Action → Bool
  | .request _ line => match cfg.split line with
    | some channels => channels.all globFree
    | none => true
  | _ => true

/-- The two invariants about channels. -/
structure Regular (s : State) : Prop where
  monitored : Monitored s
  shaped : Shaped s

namespace Regular

theorem quiet (h : Regular s) (new : List Event) (hcompleted : ∀ c, .completed c ∉ new)
    (hpending : t.pendingRequests = s.pendingRequests) (hpvs : t.pvs = s.pvs)
    (hvalues : t.values = s.values) (hunits : t.units = s.units)
    (hknown : t.knownChannels = s.knownChannels) (hhistory : t.history = new ++ s.history) :
    Regular t where
  monitored := h.monitored.quiet hpvs (State.table_congr hvalues hunits) hknown
  shaped := h.shaped.quiet new hcompleted hpending (State.mem_table_congr hvalues hunits) hhistory

theorem closed (h : Regular s) (ok : Bool) :
    Regular (s.afterSocket .close socket (.close socket ok)) :=
  h.quiet [.close socket ok] (by simp) rfl rfl rfl rfl rfl rfl

theorem satisfyRequests (h : Regular s) : Regular (satisfyRequests cfg env s).2 where
  monitored := h.monitored.satisfyRequests
  shaped := (Shaped.allows cfg env).satisfyRequests s h.shaped

theorem processTimeouts (h : Regular s) : Regular (processTimeouts cfg env s).2 where
  monitored := h.monitored.processTimeouts
  shaped := (Shaped.allows cfg env).processTimeouts s h.shaped

theorem monitorChannels (h : Regular s) (channels : List String) :
    Regular (monitorChannels cfg env channels s).2 where
  monitored := h.monitored.monitorChannels channels
  shaped := (Shaped.allows cfg env).monitorChannels channels s h.shaped

theorem deliver (h : Regular s) (name text : String) : Regular (s.deliver name text) where
  monitored := h.monitored.same (h.monitored.linked.same (sameLinks_deliver name s text))
    (sameChannels_deliver name s text)
  shaped := h.shaped.data (deliver_dataOnly name text s)

theorem updateLinkedVariables (h : Regular s) :
    Regular (updateLinkedVariables cfg env name s).2 where
  monitored := h.monitored.updateLinkedVariables
  shaped := (Shaped.allows cfg env).updateLinkedVariables name s h.shaped

/-- A request is queued when all its channels are known. -/
theorem queued {line : String} {result : Except TclError Unit × State} (h : Regular s)
    (hplain : plainNames cfg (.request socket line) = true)
    (hq : Queued cfg env socket line s result) : Regular result.2 := by
  cases hq with
  | badLine e => exact h
  | monitorFails e channels => exact h.monitorChannels channels
  | queued channels hsplit hrun =>
    have hend : Regular (Server.monitorChannels cfg env channels s).2 := h.monitorChannels channels
    have hfree : ∀ c ∈ channels, globFree c = true := by
      simpa [plainNames, hsplit, List.all_eq_true] using hplain
    constructor
    case monitored => exact hend.monitored.quiet rfl (State.table_congr rfl rfl) rfl
    case shaped =>
      refine hend.shaped.enqueue fun c hc => ⟨hfree c hc, ?_⟩
      exact hend.monitored.known c (known_monitorChannels hfree hrun c hc)

theorem idle (h : Regular s) (hidle : Idle s t) : Regular t :=
  h.quiet [] (by simp) hidle.pendingRequests hidle.pvs hidle.values hidle.units
    hidle.knownChannels hidle.history

theorem step {a : Action} (h : Regular s) (hplain : plainNames cfg a = true)
    (hstep : s.step cfg (env, a) = some t) : Regular t := by
  have hkept : KeptBy cfg env s a Regular := {
    idle := fun _ _ h hidle => h.idle hidle
    closed := fun _ _ ok h => h.closed ok
    queued := by
      rintro u socket line rfl h
      exact h.queued hplain (queueRequest_queued ..)
    satisfied := fun _ h => h.satisfyRequests
    timeouts := fun _ h => h.processTimeouts
    deliver := fun pv text h => h.deliver pv text
    dispatch := fun pv rest _ hevents h => by
      refine Regular.updateLinkedVariables (h.idle ?_)
      exact ⟨rfl, rfl, rfl, rfl, rfl, rfl, rfl, fun p hp => by simp [hevents, hp]⟩ }
  exact hkept.step hstep h

theorem initial : Regular State.initial := ⟨Monitored.initial, Shaped.initial⟩

end Regular

/-! ## What the timeout pass leaves -/

/-- The request is gone, or it is not overdue. -/
def InTime (cfg : Config) (i : Nat) (s : State) : Prop :=
  ∀ r, s.pendingRequests.lookup i = some r → s.expired cfg r = false

theorem processTimeout_snd (cfg : Config) (env : Environment) (index : Nat) (s : State) :
    (processTimeout cfg env index s).2 = s ∨ ∃ socket events closed,
      (processTimeout cfg env index s).2 = s.afterReply index socket events closed := by
  cases hr : s.pendingRequests.lookup index with
  | none =>
    obtain ⟨e, hrun⟩ := processTimeout_missing cfg env hr
    rw [hrun]
    exact .inl rfl
  | some r =>
    rw [processTimeout_run hr]
    split
    · obtain ⟨events, closed, hrun⟩ := completeRequest_snd cfg env .timeout hr
      exact .inr ⟨r.socket, events, closed, hrun⟩
    · exact .inl rfl

/-- A body that returns has dealt with its request. -/
theorem processTimeout_inTime (hrun : processTimeout cfg env index s = (.ok (), t)) :
    InTime cfg index t := by
  intro q hq
  cases hr : s.pendingRequests.lookup index with
  | none =>
    obtain ⟨e, herror⟩ := processTimeout_missing cfg env hr
    rw [herror] at hrun
    cases hrun
  | some r =>
    rw [processTimeout_run hr] at hrun
    split at hrun
    · obtain ⟨events, closed, hend⟩ := completeRequest_snd cfg env .timeout hr
      rw [hrun] at hend
      have hend : t = s.afterReply index r.socket events closed := hend
      rw [hend, State.afterReply, AList.lookup_erase] at hq
      cases hq
    · next hexpired =>
      cases hrun
      rw [hr] at hq
      cases hq
      exact Bool.eq_false_iff.mpr hexpired

/-- The other bodies leave it so. -/
theorem InTime.processTimeout {i : Nat} (h : InTime cfg i s) :
    InTime cfg i (processTimeout cfg env index s).2 := by
  rcases processTimeout_snd cfg env index s with hsame | ⟨socket, events, closed, hreply⟩
  · rwa [hsame]
  · rw [hreply]
    exact fun r hr => h r ((afterReply_progress index socket events closed).pending i r hr)

/-- When `processTimeouts` returns, no pending request is overdue. -/
theorem processTimeouts_inTime (hrun : processTimeouts cfg env s = (.ok (), t)) (i : Nat) :
    InTime cfg i t := by
  intro r hr
  have hprogress := (timeoutPass cfg env).progress (env.order s.pendingRequests.keys) s
  rw [← processTimeouts_eq, hrun] at hprogress
  have hi : i ∈ env.order s.pendingRequests.keys := mem_order.mpr ⟨r, hprogress.pending i r hr⟩
  rw [processTimeouts_eq] at hrun
  exact forEach_ok_each (Q := InTime cfg) hrun (fun _ _ _ _ h => processTimeout_inTime h)
    (fun _ _ _ _ h => h.processTimeout) i hi r hr

/-! ## Runs -/

/-- In every run over plain channel names: an index is given once, and a
request is completed at most once; the timeout pass completes what has
waited longer than the timeout, and leaves pending what has not; a line is
the fields of its completion joined, and these are the two elements of each
channel of the request. -/
theorem timing_and_shape {as : List (Environment × Action)}
    (h : Run (State.step cfg) (fun _ a => plainNames cfg a.2 = true) State.initial as s) :
    Each NewIndex s.history ∧ Each FirstCompletion s.history ∧
      Each (fun _ e => Waited cfg.timeout e) s.history ∧ Each (JoinedLine cfg) s.history ∧
      (∀ c, .completed c ∈ s.history → c.Shaped) ∧
      ∀ env t, s.step cfg (env, .tick) = some t → t.running = true →
        ∀ i r, t.pendingRequests.lookup i = some r →
          (t.tick : Int) - r.startTime ≤ cfg.timeout := by
  have hindexed : Indexed cfg s := h.invariant (Indexed cfg) Indexed.initial
    fun _ ⟨_, _⟩ _ hinv _ hstep => hinv.step hstep
  have hregular : Regular s := h.invariant Regular Regular.initial
    fun _ ⟨_, _⟩ _ hinv hplain hstep => hinv.step hplain hstep
  refine ⟨hindexed.new_index, hindexed.first, hindexed.waited, hindexed.line,
    hregular.shaped.replies, fun env t hstep hrunning i r hr => ?_⟩
  cases step_cases hstep with
  | tick t hrun =>
    have hexpired := processTimeouts_inTime hrun i r hr
    simpa [State.expired] using hexpired
  | lastTick e t hrun => cases hrunning

/-- A request that is satisfied and one that runs out of time. -/
def satisfiedAndLate : List (Environment × Action) :=
  [(calm, .connect), (calm, .connect), (calm, .request 0 "a"), (calm, .request 1 "b"),
    (calm, .deliver "a" "1"), (calm, .dispatch), (calm, .deliver "a.EGU" "V"),
    (calm, .dispatch)] ++ List.replicate 11 (calm, .tick)

theorem timing_and_shape_two :
    ∃ s, runChecked (State.step plain) (fun _ a => plainNames plain a.2 = true) State.initial
        satisfiedAndLate = some s ∧
      s.pendingRequests.keys = [] ∧
      Each NewIndex s.history ∧ Each FirstCompletion s.history ∧
      Each (fun _ e => Waited plain.timeout e) s.history ∧ Each (JoinedLine plain) s.history ∧
      (∀ c, .completed c ∈ s.history → c.Shaped) ∧
      ∀ env t, s.step plain (env, .tick) = some t → t.running = true →
        ∀ i r, t.pendingRequests.lookup i = some r →
          (t.tick : Int) - r.startTime ≤ plain.timeout := by
  have hrun : (runChecked (State.step plain) (fun _ a => plainNames plain a.2 = true)
      State.initial satisfiedAndLate).map (·.pendingRequests.keys) = some [] := by decide +kernel
  obtain ⟨s, hs, hkeys⟩ := Option.map_eq_some_iff.mp hrun
  exact ⟨s, hs, hkeys, timing_and_shape (run_of_runChecked satisfiedAndLate hs)⟩

end EpicsTcl.Server
