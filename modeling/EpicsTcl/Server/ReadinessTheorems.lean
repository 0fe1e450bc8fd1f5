/-
EpicsTcl.Server.ReadinessTheorems — early answers and real data.

`epicsUpdate` counts the traces of a channel: `link` fires them twice, and
two more make the channel `connected`. Which of the two elements was
updated is not recorded, so two updates of one of them do.
`placeholder_answered` is a run in which the units are still the empty text
that `link` stored.

The count is right if the update that makes a channel `connected` finds the
other element heard of (`heardBoth`). In the runs in which it does at every
dispatched event, what `satisfyRequests` answers is what EPICS delivered
(`answers_real_data`). The invariant is `Ready`; that a channel is
`connected` only if both elements have been heard of is its middle part.
-/
import EpicsTcl.Server.ChannelData
import EpicsTcl.Library.Log

namespace EpicsTcl.Server

open EpicsTcl.Library EpicsTcl.Library.Script

variable {cfg : Config} {env : Environment} {cause : Cause} {index : Nat} {r : Request}
  {s t : State} {name : String} {x : Table × String}

/-! ## Statement -/

/-- The two elements hold texts that EPICS delivered for the channel. -/
def Reading.Real (log : List Event) (x : Reading) : Prop :=
  (∃ v, x.value = some v ∧ .delivered x.channel v ∈ log) ∧
    ∃ u, x.units = some u ∧ .delivered (x.channel ++ ".EGU") u ∈ log

/-- A request that `satisfyRequests` completes is answered with real data
for every channel. -/
def RealAnswer (earlier : List Event) (e : Event) : Prop :=
  ∀ c, e = .completed c → c.cause = .satisfied →
    c.readings.map (·.channel) = c.request.channels ∧ ∀ x ∈ c.readings, x.Real earlier

/-- The element holds a text that EPICS delivered for its PV. -/
def State.heard (s : State) (tb : Table) (c : String) : Bool :=
  match (s.table tb).lookup c with
  | some v => decide (.delivered (tb.pvName c) v ∈ s.history)
  | none => false

/-- If the step dispatches an event: the elements of the PV whose channels
have counted to two find the other element of the channel heard of. -/
def heardBoth (s : State) (a : Environment × Action) : Bool :=
  match a.2, s.events with
  | .dispatch, pv :: _ => (s.linksOf pv).all fun x =>
      decide (s.knownChannels.lookup x.2 ≠ some .two) || s.heard x.1.other x.2
  | _, _ => true

/-! ## Invariant -/

/-- EPICS delivered the value that the package holds for the PV. -/
def Told (s : State) (name : String) : Prop :=
  .delivered name (s.pvValue name) ∈ s.history

structure Ready (s : State) : Prop where
  linked : Linked s
  told : ∀ p ∈ s.events, Told s p
  connected : ∀ c, s.knownChannels.lookup c = some .connected → ∀ tb, s.heard tb c = true
  answers : Each RealAnswer s.history

theorem heard_iff {tb : Table} {c : String} :
    s.heard tb c = true ↔
      ∃ v, (s.table tb).lookup c = some v ∧ .delivered (tb.pvName c) v ∈ s.history := by
  unfold State.heard
  split
  · next v hv => simp [hv]
  · next hv => simp [hv]

theorem heard_mono {tb : Table} {c : String}
    (htable : (t.table tb).lookup c = (s.table tb).lookup c)
    (hhistory : ∀ e ∈ s.history, e ∈ t.history) (h : s.heard tb c = true) :
    t.heard tb c = true := by
  obtain ⟨v, hv, hdelivered⟩ := heard_iff.mp h
  exact heard_iff.mpr ⟨v, htable.trans hv, hhistory _ hdelivered⟩

/-- A request found ready has all its channels connected. -/
theorem allThere_connected {channels : List String} (h : s.allThere channels = .ok true) :
    ∀ c ∈ channels, s.knownChannels.lookup c = some .connected := by
  induction channels with
  | nil => intro c hc; cases hc
  | cons a channels ih =>
    rw [State.allThere] at h
    split at h
    · cases h
    · cases hknown : s.knownChannels.lookup a with
      | none =>
        rw [element_error hknown] at h
        cases h
      | some known =>
        rw [element_ok hknown] at h
        simp only [bind, Except.bind] at h
        split at h
        · cases h
        · next hconnected =>
          rw [not_not] at hconnected
          intro c hc
          rcases List.mem_cons.mp hc with rfl | hc
          · rw [hknown, hconnected]
          · exact ih h c hc

/-- Events that complete nothing, and no change to channel data. -/
theorem Ready.quiet (h : Ready s) (new : List Event) (hnew : ∀ e ∈ new, ∀ c, e ≠ .completed c)
    (hpvs : t.pvs = s.pvs) (htable : ∀ tb, t.table tb = s.table tb)
    (hknown : t.knownChannels = s.knownChannels) (hevents : ∀ p ∈ t.events, p ∈ s.events)
    (hhistory : t.history = new ++ s.history) : Ready t := by
  have hmem : ∀ e ∈ s.history, e ∈ t.history := fun e he => by
    rw [hhistory]
    exact List.mem_append_right _ he
  constructor
  case linked =>
    exact h.linked.congr (fun p => by simp only [State.linksOf, hpvs]) fun tb c hc => htable tb ▸ hc
  case told =>
    intro p hp
    have htold := hmem _ (h.told p (hevents p hp))
    simpa only [Told, State.pvValue, hpvs] using htold
  case connected =>
    intro c hc tb
    rw [hknown] at hc
    exact heard_mono (by rw [htable]) hmem (h.connected c hc tb)
  case answers =>
    rw [hhistory]
    exact h.answers.append fun _ e he c heq => absurd heq (hnew e he c)

/-- Completing a request, in the pass that its state calls for. -/
theorem Ready.complete (h : Ready s) (hr : s.pendingRequests.lookup index = some r)
    (hthere : cause = .satisfied → s.allThere r.channels = .ok true) :
    Ready (completeRequest cfg env cause index s).2 := by
  obtain ⟨events, closed, hresult, hevents⟩ := (completeRequest_replied cfg env cause hr).events
  rw [hresult]
  rcases hevents with rfl | ⟨fields, ok, rest, -, rfl, hrest⟩
  · exact h.quiet [] (by simp) rfl (State.table_congr rfl rfl) rfl (fun _ => id) rfl
  · have hcompleted : Ready (s.record (.completed (s.completion cause index r fields))) := by
      constructor
      case linked => exact h.linked.congr (fun _ => rfl) (State.mem_table_congr rfl rfl)
      case told => exact fun p hp => List.mem_cons_of_mem _ (h.told p hp)
      case connected =>
        intro c hc tb
        refine heard_mono ?_ (fun e he => List.mem_cons_of_mem _ he) (h.connected c hc tb)
        exact congrArg (AList.lookup c) (State.table_congr rfl rfl tb)
      case answers =>
        refine ⟨?_, h.answers⟩
        rintro c heq hcause
        cases heq
        refine ⟨?_, ?_⟩
        · simp only [State.completion, List.map_map]
          exact List.map_id _
        · intro x hx
          obtain ⟨c, hc, rfl⟩ := List.mem_map.mp hx
          have hconnected := allThere_connected (hthere hcause) c hc
          have hvalue := heard_iff.mp (h.connected c hconnected .values)
          have hunits := heard_iff.mp (h.connected c hconnected .units)
          exact ⟨hvalue, hunits⟩
    refine hcompleted.quiet (rest ++ [.puts r.socket (cfg.join fields) ok]) ?_ rfl
      (State.table_congr rfl rfl) rfl (fun _ => id) ?_
    · rintro e he c rfl
      rcases List.mem_append.mp he with he | he
      · cases (hrest _ he).1
      · cases List.mem_singleton.mp he
    · simp [State.afterReply, State.record]

theorem Ready.satisfyRequests (h : Ready s) : Ready (satisfyRequests cfg env s).2 :=
  satisfyRequests_within (E := Effect.keeps Ready)
    (fun _ _ _ hr hthere h => h.complete hr fun _ => hthere) s h

theorem Ready.processTimeouts (h : Ready s) : Ready (processTimeouts cfg env s).2 :=
  processTimeouts_within (E := Effect.keeps Ready)
    (fun _ _ _ hr _ h => h.complete hr nofun) s h

/-! ## Updates -/

theorem deliver_told (name text : String) (h : name ∈ s.pvs) : Told (s.deliver name text) name := by
  obtain ⟨pv, hpv⟩ := Option.isSome_iff_exists.mp (AList.lookup_isSome.mpr h)
  unfold State.deliver
  rw [hpv]
  simp [Told, State.pvValue, State.record]

theorem deliver_history (name text : String) (s : State) :
    ∀ e ∈ s.history, e ∈ (s.deliver name text).history := by
  intro e he
  unfold State.deliver
  split
  · exact he
  · exact List.mem_cons_of_mem _ he

/-- What has been told stays told. -/
theorem told_deliver (name text p : String) (h : Told s p) : Told (s.deliver name text) p := by
  by_cases hp : p = name
  · subst hp
    by_cases hmem : p ∈ s.pvs
    · exact deliver_told p text hmem
    · rwa [State.deliver, AList.lookup_eq_none.mpr hmem]
  · have hvalue : (s.deliver name text).pvValue p = s.pvValue p := by
      unfold State.deliver
      split
      · rfl
      · simp only [State.pvValue, AList.lookup_insert_ne hp, State.record]
    rw [Told, hvalue]
    exact deliver_history name text s _ h

theorem Ready.deliver (h : Ready s) (name text : String) : Ready (s.deliver name text) := by
  constructor
  case linked => exact h.linked.same (sameLinks_deliver name s text)
  case told =>
    intro p hp
    by_cases hmem : name ∈ s.pvs
    · by_cases hname : p = name
      · exact hname ▸ deliver_told name text hmem
      · apply told_deliver
        obtain ⟨pv, hpv⟩ := Option.isSome_iff_exists.mp (AList.lookup_isSome.mpr hmem)
        simp only [State.deliver, hpv, State.record] at hp
        split at hp
        · exact h.told p hp
        · rcases List.mem_append.mp hp with hp | hp
          · exact h.told p hp
          · exact absurd (List.mem_singleton.mp hp) hname
    · rw [State.deliver, AList.lookup_eq_none.mpr hmem] at hp ⊢
      exact h.told p hp
  case connected =>
    intro c hc tb
    rw [State.deliver_knownChannels] at hc
    exact heard_mono (by rw [State.deliver_table]) (deliver_history name text s)
      (h.connected c hc tb)
  case answers =>
    unfold State.deliver
    split
    · exact h.answers
    · exact ⟨by simp [RealAnswer], h.answers⟩

theorem Ready.deliveries (h : Ready s) (name : String) (texts : List String) :
    Ready (texts.foldl (State.deliver name) s) :=
  deliveries_rel (E := Effect.keeps Ready) (fun _ text h => h.deliver name text) texts s h

/-- What counting an update of `x` needs: a channel that is connected stays
so only with what EPICS delivered, and becomes connected only if the other
element was heard of. -/
structure CountsRight (s : State) (name : String) (x : Table × String) : Prop where
  told : s.knownChannels.lookup x.2 = some .two ∨ s.knownChannels.lookup x.2 = some .connected →
    Told s name
  other : s.knownChannels.lookup x.2 = some .two → s.heard x.1.other x.2 = true

theorem Table.eq_or_other (tb tb' : Table) : tb' = tb ∨ tb' = tb.other := by
  cases tb <;> cases tb' <;> simp [Table.other]

theorem Table.other_ne (tb : Table) : tb.other ≠ tb := by
  cases tb <;> exact Table.noConfusion

/-- Storing the value of a PV and counting it. -/
theorem Ready.update (h : Ready s) (hname : name = x.1.pvName x.2) (hcount : CountsRight s name x) :
    Ready ((s.store x.1 x.2 (s.pvValue name)).countUpdate x.2) := by
  constructor
  case linked =>
    have hallows := sameLinks_allowsUpdate plain calm name x
    exact (h.linked.same (hallows.store s _)).same (hallows.count _)
  case told =>
    intro p hp
    simpa [Told, State.pvValue] using h.told p (by simpa using hp)
  case connected =>
    intro c hc tb
    rw [heard_iff, State.countUpdate_table, State.countUpdate_history, State.store_history]
    by_cases hself : c = x.2
    · subst hself
      -- the channel was connected already, or had counted to two
      have hbefore : s.knownChannels.lookup x.2 = some .connected ∨
          s.knownChannels.lookup x.2 = some .two := by
        rcases State.countUpdate_self x.2 (s.store x.1 x.2 (s.pvValue name)) with
          hsame | ⟨known, hknown, hnext⟩
        · rw [hsame, State.store_knownChannels] at hc
          exact .inl hc
        · rw [State.store_knownChannels] at hknown
          rw [hnext, Option.some.injEq] at hc
          cases known with
          | blank | one => cases hc
          | two => exact .inr hknown
          | connected => exact .inl hknown
      rcases Table.eq_or_other x.1 tb with rfl | rfl
      · exact ⟨s.pvValue name, State.store_lookup_self _ _ _ _,
          hname ▸ hcount.told hbefore.symm⟩
      · rw [State.store_lookup_ne fun heq => Table.other_ne x.1 heq.1]
        rcases hbefore with hconnected | htwo
        · exact heard_iff.mp (h.connected x.2 hconnected x.1.other)
        · exact heard_iff.mp (hcount.other htwo)
    · rw [State.countUpdate_ne hself, State.store_knownChannels] at hc
      rw [State.store_lookup_ne fun heq => hself heq.2]
      exact heard_iff.mp (h.connected c hc tb)
  case answers =>
    rw [State.countUpdate_history, State.store_history]
    exact h.answers

theorem CountsRight.deliver (h : CountsRight s name x) (p text : String) :
    CountsRight (s.deliver p text) name x where
  told hknown := told_deliver p text name (h.told (by simpa using hknown))
  other hknown := heard_mono (by rw [State.deliver_table]) (deliver_history p text s)
    (h.other (by simpa using hknown))

theorem CountsRight.deliveries (h : CountsRight s name x) (p : String) (texts : List String) :
    CountsRight (texts.foldl (State.deliver p) s) name x :=
  deliveries_rel (E := Effect.keeps fun s => CountsRight s name x)
    (fun _ text h => h.deliver p text) texts s h

theorem Ready.newEpicsValue (h : Ready s) (hname : name = x.1.pvName x.2)
    (hcount : CountsRight s name x) : Ready (newEpicsValue cfg env name x s).2 := by
  rw [newEpicsValue_run]
  exact ((h.deliveries name _).update hname (hcount.deliveries name _)).satisfyRequests

/-! ## What an update leaves alone -/

/-- The channel counts as before, and its elements, if heard of, still
are. -/
structure SameChannel (c : String) (s t : State) : Prop where
  known : t.knownChannels.lookup c = s.knownChannels.lookup c
  table : ∀ tb, (t.table tb).lookup c = (s.table tb).lookup c
  history : ∀ e ∈ s.history, e ∈ t.history

def SameChannel.effect (c : String) : Effect State where
  rel := SameChannel c
  refl _ := ⟨rfl, fun _ => rfl, fun _ => id⟩
  trans h h' := ⟨h'.known.trans h.known, fun tb => (h'.table tb).trans (h.table tb),
    fun e he => h'.history e (h.history e he)⟩

theorem sameChannel_completeRequest (c : String) (cause : Cause)
    (hr : s.pendingRequests.lookup index = some r) :
    SameChannel c s (completeRequest cfg env cause index s).2 := by
  obtain ⟨events, closed, hrun⟩ := completeRequest_snd cfg env cause hr
  rw [hrun]
  exact ⟨rfl, fun tb => congrArg (AList.lookup c) (State.table_congr rfl rfl tb),
    fun e he => List.mem_append_right events he⟩

theorem sameChannel_newEpicsValue {c : String} (h : c ≠ x.2) :
    SameChannel c s (newEpicsValue cfg env name x s).2 := by
  have hallows : AllowsUpdate cfg env (SameChannel.effect c) name x := {
    satisfied := fun _ _ _ hr _ => sameChannel_completeRequest c .satisfied hr
    deliver := fun s text => ⟨by rw [State.deliver_knownChannels],
      fun tb => by rw [State.deliver_table], deliver_history name text s⟩
    store := fun s text => ⟨by rw [State.store_knownChannels],
      fun tb => State.store_lookup_ne (fun heq => h heq.2) text s, fun e he => by simpa using he⟩
    count := fun s => ⟨State.countUpdate_ne h s, fun tb => by rw [State.countUpdate_table],
      fun e he => by simpa using he⟩ }
  exact hallows.newEpicsValue s

theorem told_newEpicsValue {p : String} (h : Told s p) :
    Told (newEpicsValue cfg env name x s).2 p := by
  have hallows : AllowsUpdate cfg env (Effect.keeps fun s => Told s p) name x := {
    satisfied := fun s index r hr _ h => by
      obtain ⟨events, closed, hrun⟩ := completeRequest_snd cfg env .satisfied hr
      rw [hrun]
      exact List.mem_append_right events h
    deliver := fun s text h => told_deliver name text p h
    store := fun s text h => by simpa [Told, State.pvValue] using h
    count := fun s h => by simpa [Told, State.pvValue] using h }
  exact hallows.newEpicsValue s h

/-- The channel of an update counts one further, or as before. -/
theorem newEpicsValue_known (cfg : Config) (env : Environment) (name : String)
    (x : Table × String) (s : State) :
    (newEpicsValue cfg env name x s).2.knownChannels.lookup x.2 =
        s.knownChannels.lookup x.2 ∨
      ∃ known, s.knownChannels.lookup x.2 = some known ∧
        (newEpicsValue cfg env name x s).2.knownChannels.lookup x.2 = some known.next := by
  let told := (env.early name x.1).foldl (State.deliver name) s
  let counted := (told.store x.1 x.2 (told.pvValue name)).countUpdate x.2
  have htold : told.knownChannels = s.knownChannels :=
    deliveries_rel (E := ⟨fun s t => t.knownChannels = s.knownChannels, fun _ => rfl,
      fun h h' => h'.trans h⟩) (fun s text => s.deliver_knownChannels name text) _ s
  have hpass : (satisfyRequests cfg env counted).2.knownChannels.lookup x.2 =
      counted.knownChannels.lookup x.2 :=
    (satisfyRequests_within (E := SameChannel.effect x.2)
      (fun _ _ _ hr _ => sameChannel_completeRequest x.2 .satisfied hr) counted).known
  rw [newEpicsValue_run, hpass]
  have hcount := State.countUpdate_self x.2 (told.store x.1 x.2 (told.pvValue name))
  rwa [State.store_knownChannels, htold] at hcount

/-! ## Events and requests -/

/-- Two elements linked to one PV belong to different channels. -/
theorem channel_ne {y : Table × String} (hx : name = x.1.pvName x.2) (hy : name = y.1.pvName y.2)
    (hne : y ≠ x) : y.2 ≠ x.2 := by
  intro heq
  apply hne
  have hlength : ∀ c : String, c ≠ c ++ ".EGU" := by
    intro c hc
    have := congrArg String.length hc
    simp at this
  obtain ⟨tb, c⟩ := x
  obtain ⟨tb', c'⟩ := y
  simp only at heq
  subst heq
  cases tb <;> cases tb' <;> simp only [Table.pvName] at hx hy
  · rfl
  · exact absurd (hx.symm.trans hy) (hlength c')
  · exact absurd (hy.symm.trans hx) (hlength c')
  · rfl

/-- Refreshing several elements linked to one PV. -/
theorem Ready.refresh {links : List (Table × String)} (h : Ready s) (htold : Told s name)
    (hnodup : links.Nodup) (hnamed : ∀ x ∈ links, name = x.1.pvName x.2)
    (hother : ∀ x ∈ links, s.knownChannels.lookup x.2 = some .two → s.heard x.1.other x.2 = true) :
    Ready (forEach links (Server.newEpicsValue cfg env name) s).2 := by
  induction links generalizing s with
  | nil => exact h
  | cons x links ih =>
    obtain ⟨hnew, hnodup⟩ := List.nodup_cons.mp hnodup
    have hx := hnamed x List.mem_cons_self
    have hcount : CountsRight s name x :=
      ⟨fun _ => htold, hother x List.mem_cons_self⟩
    have hrest : ∀ y ∈ links, SameChannel y.2 s (Server.newEpicsValue cfg env name x s).2 := by
      intro y hy
      apply sameChannel_newEpicsValue
      exact channel_ne hx (hnamed y (List.mem_cons_of_mem x hy)) fun heq => hnew (heq ▸ hy)
    have hloop : forEach (x :: links) (Server.newEpicsValue cfg env name) s =
        forEach links (Server.newEpicsValue cfg env name)
          (Server.newEpicsValue cfg env name x s).2 :=
      bind_ok (newEpicsValue_run cfg env name x s)
    rw [hloop]
    refine ih (h.newEpicsValue hx hcount) (told_newEpicsValue htold) hnodup
      (fun y hy => hnamed y (List.mem_cons_of_mem x hy)) fun y hy htwo => ?_
    rw [(hrest y hy).known] at htwo
    exact heard_mono ((hrest y hy).table _) (hrest y hy).history
      (hother y (List.mem_cons_of_mem x hy) htwo)

theorem Ready.addLink (h : Ready s) (hlinked : Linked (s.addLink name x)) :
    Ready (s.addLink name x) := by
  have hvalue : ∀ p, (s.addLink name x).pvValue p = s.pvValue p := by
    intro p
    unfold State.addLink
    split
    · rfl
    · next pv hpv =>
      by_cases hp : p = name
      · subst hp
        simp only [State.pvValue, AList.lookup_insert, hpv]
      · simp only [State.pvValue, AList.lookup_insert_ne hp]
  have hevents : (s.addLink name x).events = s.events := by
    unfold State.addLink
    split <;> rfl
  constructor
  case linked => exact hlinked
  case told =>
    intro p hp
    rw [Told, hvalue, State.addLink_history]
    exact h.told p (hevents ▸ hp)
  case connected =>
    intro c hc tb
    rw [State.addLink_knownChannels] at hc
    exact heard_mono (by rw [State.addLink_table]) (fun e he => by rwa [State.addLink_history])
      (h.connected c hc tb)
  case answers =>
    rw [State.addLink_history]
    exact h.answers

/-- The channel has not counted further than `link` counts. -/
def Early (s : State) (c : String) : Prop :=
  s.knownChannels.lookup c = some .blank ∨ s.knownChannels.lookup c = some .one

theorem Early.countsRight (h : Early s x.2) : CountsRight s name x where
  told hknown := by rcases h with h | h <;> simp [h] at hknown
  other hknown := by rcases h with h | h <;> simp [h] at hknown

/-- Linking an element of a channel that is not waited for yet. -/
theorem Ready.linkTo (h : Ready s) (hname : name = x.1.pvName x.2) (hpv : name ∈ s.pvs)
    (hearly : Early s x.2) : Ready (s.linkTo cfg env name x) := by
  have hlinked := h.linked.linkTo cfg env hname hpv
  rw [State.linkTo_eq] at hlinked ⊢
  split
  · exact h
  · next hx =>
    rw [if_neg hx] at hlinked
    exact ((h.newEpicsValue hname hearly.countsRight).deliveries name _).addLink hlinked

/-- The first `link` of a channel leaves it early. -/
theorem early_linkTo (h : s.knownChannels.lookup x.2 = some .blank) :
    Early (s.linkTo cfg env name x) x.2 := by
  rw [State.linkTo_eq]
  split
  · exact .inl h
  · have hgap : ∀ u : State, ((env.gap name x.1).foldl (State.deliver name) u).knownChannels =
        u.knownChannels := fun u =>
      deliveries_rel (E := ⟨fun s t => t.knownChannels = s.knownChannels, fun _ => rfl,
        fun h h' => h'.trans h⟩) (fun s text => s.deliver_knownChannels name text) _ u
    rw [Early, State.afterLink, State.addLink_knownChannels, hgap]
    rcases newEpicsValue_known cfg env name x s with hsame | ⟨known, hknown, hnext⟩
    · exact .inl (hsame.trans h)
    · rw [h] at hknown
      cases hknown
      exact .inr hnext

theorem Ready.register (h : Ready s) (channel : String) : Ready (s.register channel) := by
  have hvalue : ∀ (q p : String) (u : State), (u.addPV q).pvValue p = u.pvValue p := by
    intro q p u
    unfold State.addPV
    split
    · rfl
    · next hq =>
      by_cases hp : p = q
      · subst hp
        simp only [State.pvValue, AList.lookup_insert, AList.lookup_eq_none.mpr hq]
      · simp only [State.pvValue, AList.lookup_insert_ne hp]
  have hhistory : (s.register channel).history = s.history := by simp [State.register]
  constructor
  case linked => exact h.linked.register channel
  case told =>
    intro p hp
    have htold := h.told p (by simpa [State.register] using hp)
    show .delivered p (((s.addPV channel).addPV (channel ++ ".EGU")).pvValue p) ∈
      (s.register channel).history
    rw [hvalue, hvalue, hhistory]
    exact htold
  case connected =>
    intro c hc tb
    rw [State.register_knownChannels] at hc
    by_cases hself : c = channel
    · subst hself
      rw [AList.lookup_insert] at hc
      cases hc
    · rw [AList.lookup_insert_ne hself] at hc
      exact heard_mono (by rw [State.register_table]) (fun e he => hhistory.symm ▸ he)
        (h.connected c hc tb)
  case answers =>
    rw [hhistory]
    exact h.answers

theorem Ready.monitorChannel (h : Ready s) (channel : String) :
    Ready (monitorChannel cfg env channel s).2 := by
  cases hknown : hasNames s.knownChannels channel with
  | true =>
    rw [monitorChannel_known hknown]
    exact h
  | false =>
    rw [(monitorChannel_unknown cfg env h.linked hknown).1]
    have hvalue : channel ∈ (s.register channel).pvs :=
      State.mem_addPV_of_mem (State.mem_addPV channel s)
    have hunit : channel ++ ".EGU" ∈ (s.register channel).pvs := State.mem_addPV _ _
    have hblank : (s.register channel).knownChannels.lookup channel = some .blank :=
      AList.lookup_insert _
    have hfirst : Ready ((s.register channel).linkTo cfg env channel (.values, channel)) :=
      (h.register channel).linkTo rfl hvalue (.inl hblank)
    exact hfirst.linkTo rfl ((linkTo_linksOf cfg env hvalue channel).2.2 _ hunit)
      (early_linkTo (x := (.values, channel)) hblank)

theorem Ready.monitorChannels (h : Ready s) (channels : List String) :
    Ready (monitorChannels cfg env channels s).2 :=
  Within.forEach (E := Effect.keeps Ready) (fun channel _ _ h => h.monitorChannel channel) s h

theorem Ready.queued {socket : Socket} {line : String} {result : Except TclError Unit × State}
    (h : Ready s) (hq : Queued cfg env socket line s result) : Ready result.2 := by
  cases hq with
  | badLine e => exact h
  | monitorFails e channels => exact h.monitorChannels channels
  | queued channels =>
    have hmonitored : Ready (Server.monitorChannels cfg env channels s).2 :=
      h.monitorChannels channels
    exact hmonitored.quiet [.queued _ _] (by simp) rfl (State.table_congr rfl rfl) rfl
      (fun _ => id) rfl

theorem Ready.closed {socket : Socket} (h : Ready s) (ok : Bool) :
    Ready (s.afterSocket .close socket (.close socket ok)) :=
  h.quiet [.close socket ok] (by simp) rfl (State.table_congr rfl rfl) rfl (fun _ => id) rfl

theorem Ready.idle (h : Ready s) (hidle : Idle s t) : Ready t :=
  h.quiet [] (by simp) hidle.pvs (State.table_congr hidle.values hidle.units) hidle.knownChannels
    hidle.events hidle.history

theorem Ready.dispatch {pv : String} {rest : List String} (h : Ready s)
    (hevents : s.events = pv :: rest) (hheard : heardBoth s (env, .dispatch) = true) :
    Ready (updateLinkedVariables cfg env pv { s with events := rest }).2 := by
  have htaken : Ready { s with events := rest } :=
    h.idle ⟨rfl, rfl, rfl, rfl, rfl, rfl, rfl, fun p hp => by
      rw [hevents]
      exact List.mem_cons_of_mem pv hp⟩
  have htold : Told s pv := h.told pv (by rw [hevents]; exact List.mem_cons_self)
  simp only [heardBoth, hevents, List.all_eq_true, Bool.or_eq_true, decide_eq_true_eq] at hheard
  refine htaken.refresh htold (h.linked.once pv) (h.linked.named pv) fun x hx htwo => ?_
  rcases hheard x hx with hnot | hother
  · exact absurd htwo hnot
  · refine heard_mono ?_ (fun _ => id) hother
    exact congrArg (AList.lookup x.2) (State.table_congr rfl rfl x.1.other)

theorem Ready.step {a : Action} (h : Ready s) (hheard : heardBoth s (env, a) = true)
    (hstep : s.step cfg (env, a) = some t) : Ready t := by
  have hkept : KeptBy cfg env s a Ready := {
    idle := fun _ _ h hidle => h.idle hidle
    closed := fun _ _ ok h => h.closed ok
    queued := fun _ _ _ _ h => h.queued (queueRequest_queued ..)
    satisfied := fun _ h => h.satisfyRequests
    timeouts := fun _ h => h.processTimeouts
    deliver := fun pv text h => h.deliver pv text
    dispatch := by
      rintro pv rest rfl hevents h
      exact h.dispatch hevents hheard }
  exact hkept.step hstep h

theorem Ready.initial : Ready State.initial where
  linked := Linked.initial
  told _ h := nomatch h
  connected _ h := nomatch h
  answers := trivial

/-! ## Runs -/

/-- In every run in which no channel is counted connected before both its
elements have been heard of, what `satisfyRequests` answers is what EPICS
delivered. -/
theorem answers_real_data {as : List (Environment × Action)}
    (h : Run (State.step cfg) (fun s a => heardBoth s a = true) State.initial as s) :
    ∀ later c earlier, s.history = later ++ .completed c :: earlier → c.cause = .satisfied →
      c.readings.map (·.channel) = c.request.channels ∧ ∀ x ∈ c.readings, x.Real earlier := by
  have hready : Ready s := h.invariant Ready Ready.initial
    fun _ ⟨_, _⟩ _ hinv hheard hstep => hinv.step hheard hstep
  intro later c earlier hsplit
  exact each_iff.mp hready.answers later _ earlier hsplit c rfl

/-- A request that is answered when both elements have been updated. -/
theorem answers_real_data_two :
    ∃ s, runChecked (State.step plain) (fun s a => heardBoth s a = true) State.initial
        [(calm, .connect), (calm, .request 0 "a"), (calm, .deliver "a" "1"), (calm, .dispatch),
          (calm, .deliver "a.EGU" "V"), (calm, .dispatch)] = some s ∧
      s.pendingRequests.keys = [] ∧
      ∀ later c earlier, s.history = later ++ .completed c :: earlier → c.cause = .satisfied →
        c.readings.map (·.channel) = c.request.channels ∧ ∀ x ∈ c.readings, x.Real earlier := by
  have hrun : (runChecked (State.step plain) (fun s a => heardBoth s a = true) State.initial
        [(calm, .connect), (calm, .request 0 "a"), (calm, .deliver "a" "1"), (calm, .dispatch),
          (calm, .deliver "a.EGU" "V"), (calm, .dispatch)]).map (·.pendingRequests.keys) =
      some [] := by decide +kernel
  obtain ⟨s, hs, hkeys⟩ := Option.map_eq_some_iff.mp hrun
  exact ⟨s, hs, hkeys, answers_real_data (run_of_runChecked _ hs)⟩

/-- Two updates of a value, and the request is answered with the units
that `link` stored. -/
def valueTwice : List (Environment × Action) :=
  [(calm, .connect), (calm, .request 0 "a"), (calm, .deliver "a" "1"), (calm, .dispatch),
    (calm, .deliver "a" "2"), (calm, .dispatch)]

def placeholderAnswer : Completion :=
  ⟨0, ⟨0, 1, ["a"]⟩, .satisfied, 1, [⟨"a", some "2", some ""⟩], ["2", ""]⟩

/-- EPICS delivered nothing for `a.EGU`. -/
theorem placeholder_answered :
    ∃ s later earlier, Run (State.step plain) Always State.initial valueTwice s ∧
      s.history = later ++ .completed placeholderAnswer :: earlier ∧
      placeholderAnswer.cause = .satisfied ∧
      ¬ ∀ x ∈ placeholderAnswer.readings, x.Real earlier := by
  have hrun : (runAll (State.step plain) State.initial valueTwice).map (·.history) =
      some ([.close 0 true, .flush 0 true, .puts 0 "2," true] ++ .completed placeholderAnswer ::
        [.delivered "a" "2", .delivered "a" "1", .queued 0 ⟨0, 1, ["a"]⟩]) := by decide +kernel
  obtain ⟨s, hs, hhistory⟩ := Option.map_eq_some_iff.mp hrun
  refine ⟨s, _, _, run_iff_runAll.mpr hs, hhistory, rfl, fun h => ?_⟩
  obtain ⟨-, u, -, hdelivered⟩ := h ⟨"a", some "2", some ""⟩ (by simp [placeholderAnswer])
  simp at hdelivered

end EpicsTcl.Server
