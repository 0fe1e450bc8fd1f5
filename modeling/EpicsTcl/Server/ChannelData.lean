/-
EpicsTcl.Server.ChannelData — the links between PVs and array elements.

`Linked` holds in every run: a PV is linked to the elements that are named
after it, to each once, and they have been stored. Under it
`monitorChannel` never raises, and `monitorChannel_unknown` says what it
does: it registers the channel (`State.register`) and links both elements
(`State.linkTo`).
-/
import EpicsTcl.Server.Effects

namespace EpicsTcl.Server

open EpicsTcl.Library EpicsTcl.Library.Script

variable {cfg : Config} {env : Environment} {cause : Cause} {index : Nat} {r : Request}
  {s t : State} {name : String} {x : Table × String}

/-! ## Elements -/

namespace State

theorem store_table_self (tb : Table) (channel text : String) (s : State) :
    (s.store tb channel text).table tb = (s.table tb).insert channel text := by
  cases tb <;> rfl

theorem store_table_other {tb tb' : Table} (h : tb' ≠ tb) (channel text : String) (s : State) :
    (s.store tb channel text).table tb' = s.table tb' := by
  cases tb <;> cases tb' <;> first | rfl | exact absurd rfl h

theorem store_lookup_self (tb : Table) (channel text : String) (s : State) :
    ((s.store tb channel text).table tb).lookup channel = some text := by
  rw [store_table_self, AList.lookup_insert]

theorem store_lookup_ne {tb tb' : Table} {channel c : String} (h : ¬ (tb' = tb ∧ c = channel))
    (text : String) (s : State) :
    ((s.store tb channel text).table tb').lookup c = (s.table tb').lookup c := by
  by_cases htb : tb' = tb
  · subst htb
    rw [store_table_self, AList.lookup_insert_ne fun hc => h ⟨rfl, hc⟩]
  · rw [store_table_other htb]

theorem mem_store {tb tb' : Table} {channel c : String} (text : String) (s : State)
    (h : c ∈ s.table tb') : c ∈ (s.store tb channel text).table tb' := by
  by_cases htb : tb' = tb
  · subst htb
    rw [store_table_self]
    exact (AList.mem_insert _).mpr (.inr h)
  · rwa [store_table_other htb]

@[simp] theorem store_pvs (tb : Table) (channel text : String) (s : State) :
    (s.store tb channel text).pvs = s.pvs := by
  cases tb <;> rfl

@[simp] theorem store_knownChannels (tb : Table) (channel text : String) (s : State) :
    (s.store tb channel text).knownChannels = s.knownChannels := by
  cases tb <;> rfl

@[simp] theorem store_history (tb : Table) (channel text : String) (s : State) :
    (s.store tb channel text).history = s.history := by
  cases tb <;> rfl

@[simp] theorem store_events (tb : Table) (channel text : String) (s : State) :
    (s.store tb channel text).events = s.events := by
  cases tb <;> rfl

@[simp] theorem countUpdate_pvs (c : String) (s : State) : (s.countUpdate c).pvs = s.pvs := by
  unfold countUpdate
  split
  · split <;> rfl
  · rfl

@[simp] theorem countUpdate_table (c : String) (s : State) (tb : Table) :
    (s.countUpdate c).table tb = s.table tb := by
  unfold countUpdate
  split
  · split <;> cases tb <;> rfl
  · rfl

@[simp] theorem countUpdate_history (c : String) (s : State) :
    (s.countUpdate c).history = s.history := by
  unfold countUpdate
  split
  · split <;> rfl
  · rfl

@[simp] theorem countUpdate_events (c : String) (s : State) :
    (s.countUpdate c).events = s.events := by
  unfold countUpdate
  split
  · split <;> rfl
  · rfl

theorem countUpdate_ne {c c' : String} (h : c' ≠ c) (s : State) :
    (s.countUpdate c).knownChannels.lookup c' = s.knownChannels.lookup c' := by
  unfold countUpdate
  split
  · split
    · exact AList.lookup_insert_ne h
    · rfl
  · rfl

/-- Counting takes a channel one state further, or leaves it. -/
theorem countUpdate_self (c : String) (s : State) :
    (s.countUpdate c).knownChannels.lookup c = s.knownChannels.lookup c ∨
      ∃ known, s.knownChannels.lookup c = some known ∧
        (s.countUpdate c).knownChannels.lookup c = some known.next := by
  unfold countUpdate
  split
  · split
    · next known hknown => exact .inr ⟨known, hknown, AList.lookup_insert _⟩
    · exact .inl rfl
  · exact .inl rfl

/-! ## PVs -/

theorem deliver_linksOf (name text : String) (s : State) (p : String) :
    (s.deliver name text).linksOf p = s.linksOf p := by
  unfold deliver
  split
  · rfl
  · next pv hpv =>
    by_cases hp : p = name
    · subst hp
      simp only [linksOf, AList.lookup_insert, hpv]
    · simp only [linksOf, AList.lookup_insert_ne hp, record]

theorem mem_deliver {name text p : String} {s : State} :
    p ∈ (s.deliver name text).pvs ↔ p ∈ s.pvs := by
  unfold deliver
  split
  · rfl
  · next pv hpv =>
    rw [AList.mem_insert]
    constructor
    · rintro (rfl | h)
      · exact AList.lookup_isSome.mp (by rw [hpv]; rfl)
      · exact h
    · exact .inr

@[simp] theorem deliver_table (name text : String) (s : State) (tb : Table) :
    (s.deliver name text).table tb = s.table tb := by
  unfold deliver
  split <;> cases tb <;> rfl

@[simp] theorem deliver_knownChannels (name text : String) (s : State) :
    (s.deliver name text).knownChannels = s.knownChannels := by
  unfold deliver
  split <;> rfl

theorem addLink_linksOf (h : name ∈ s.pvs) (x : Table × String) (p : String) :
    (s.addLink name x).linksOf p = if p = name then s.linksOf p ++ [x] else s.linksOf p := by
  obtain ⟨pv, hpv⟩ := Option.isSome_iff_exists.mp (AList.lookup_isSome.mpr h)
  unfold addLink
  rw [hpv]
  by_cases hp : p = name
  · subst hp
    simp only [linksOf, AList.lookup_insert, hpv, if_true]
  · simp only [linksOf, AList.lookup_insert_ne hp, if_neg hp]

theorem mem_addLink {p : String} (h : p ∈ s.pvs) : p ∈ (s.addLink name x).pvs := by
  unfold addLink
  split
  · exact h
  · exact (AList.mem_insert _).mpr (.inr h)

@[simp] theorem addLink_table (name : String) (x : Table × String) (s : State) (tb : Table) :
    (s.addLink name x).table tb = s.table tb := by
  unfold addLink
  split <;> cases tb <;> rfl

@[simp] theorem addLink_knownChannels (name : String) (x : Table × String) (s : State) :
    (s.addLink name x).knownChannels = s.knownChannels := by
  unfold addLink
  split <;> rfl

@[simp] theorem addLink_history (name : String) (x : Table × String) (s : State) :
    (s.addLink name x).history = s.history := by
  unfold addLink
  split <;> rfl

theorem addPV_linksOf (name : String) (s : State) (p : String) :
    (s.addPV name).linksOf p = s.linksOf p := by
  unfold addPV
  split
  · rfl
  · next h =>
    by_cases hp : p = name
    · subst hp
      simp only [linksOf, AList.lookup_insert, AList.lookup_eq_none.mpr h]
    · simp only [linksOf, AList.lookup_insert_ne hp]

@[simp] theorem addPV_table (name : String) (s : State) (tb : Table) :
    (s.addPV name).table tb = s.table tb := by
  unfold addPV
  split <;> cases tb <;> rfl

@[simp] theorem addPV_knownChannels (name : String) (s : State) :
    (s.addPV name).knownChannels = s.knownChannels := by
  unfold addPV
  split <;> rfl

@[simp] theorem addPV_events (name : String) (s : State) : (s.addPV name).events = s.events := by
  unfold addPV
  split <;> rfl

@[simp] theorem addPV_history (name : String) (s : State) :
    (s.addPV name).history = s.history := by
  unfold addPV
  split <;> rfl

theorem mem_addPV (name : String) (s : State) : name ∈ (s.addPV name).pvs := by
  unfold addPV
  split
  · assumption
  · exact (AList.mem_insert _).mpr (.inl rfl)

theorem mem_addPV_of_mem {p : String} (h : p ∈ s.pvs) : p ∈ (s.addPV name).pvs := by
  unfold addPV
  split
  · exact h
  · exact (AList.mem_insert _).mpr (.inr h)

end State

/-! ## Links -/

/-- PVs are linked to the elements named after them, once to each, and
these have been stored. -/
structure Linked (s : State) : Prop where
  named : ∀ p, ∀ x ∈ s.linksOf p, p = x.1.pvName x.2
  once : ∀ p, (s.linksOf p).Nodup
  stored : ∀ p, ∀ x ∈ s.linksOf p, x.2 ∈ s.table x.1

namespace Linked

theorem initial : Linked State.initial where
  named _ _ h := nomatch h
  once _ := List.nodup_nil
  stored _ _ h := nomatch h

theorem congr (h : Linked s) (hlinks : ∀ p, t.linksOf p = s.linksOf p)
    (htable : ∀ tb c, c ∈ s.table tb → c ∈ t.table tb) : Linked t where
  named p x hx := h.named p x (hlinks p ▸ hx)
  once p := hlinks p ▸ h.once p
  stored p x hx := htable x.1 x.2 (h.stored p x (hlinks p ▸ hx))

theorem addLink (h : Linked s) (hname : name = x.1.pvName x.2) (hpv : name ∈ s.pvs)
    (hnew : x ∉ s.linksOf name) (hstored : x.2 ∈ s.table x.1) : Linked (s.addLink name x) := by
  have hlinks := State.addLink_linksOf hpv x
  -- a link of the new state is the new link of `name`, or an old one
  have hcases : ∀ p, ∀ y ∈ (s.addLink name x).linksOf p,
      (p = name ∧ y = x) ∨ y ∈ s.linksOf p := by
    intro p y hy
    rw [hlinks p] at hy
    split at hy
    · next hp =>
      rcases List.mem_append.mp hy with hy | hy
      · exact .inr hy
      · exact .inl ⟨hp, List.mem_singleton.mp hy⟩
    · exact .inr hy
  constructor
  case named =>
    intro p y hy
    rcases hcases p y hy with ⟨rfl, rfl⟩ | hy
    · exact hname
    · exact h.named p y hy
  case once =>
    intro p
    rw [hlinks p]
    split
    · next hp =>
      subst hp
      rw [List.nodup_append]
      refine ⟨h.once p, List.nodup_singleton x, ?_⟩
      rintro a ha b hb rfl
      exact hnew (List.mem_singleton.mp hb ▸ ha)
    · exact h.once p
  case stored =>
    intro p y hy
    rw [State.addLink_table]
    rcases hcases p y hy with ⟨rfl, rfl⟩ | hy
    · exact hstored
    · exact h.stored p y hy

end Linked

/-- No link is made or broken, and no PV and no element is removed. -/
structure SameLinks (s t : State) : Prop where
  links : ∀ p, t.linksOf p = s.linksOf p
  pvs : ∀ p, p ∈ s.pvs → p ∈ t.pvs
  table : ∀ tb c, c ∈ s.table tb → c ∈ t.table tb

def SameLinks.effect : Effect State where
  rel := SameLinks
  refl _ := ⟨fun _ => rfl, fun _ => id, fun _ _ => id⟩
  trans h h' := ⟨fun p => (h'.links p).trans (h.links p), fun p hp => h'.pvs p (h.pvs p hp),
    fun tb c hc => h'.table tb c (h.table tb c hc)⟩

theorem Linked.same (h : Linked s) (hs : SameLinks s t) : Linked t :=
  h.congr hs.links hs.table

theorem sameLinks_completeRequest (cfg : Config) (env : Environment) (cause : Cause)
    (hr : s.pendingRequests.lookup index = some r) :
    SameLinks s (completeRequest cfg env cause index s).2 := by
  obtain ⟨events, closed, hrun⟩ := completeRequest_snd cfg env cause hr
  rw [hrun]
  exact ⟨fun _ => rfl, fun _ => id, State.mem_table_congr rfl rfl⟩

theorem sameLinks_deliver (name : String) (s : State) (text : String) :
    SameLinks s (s.deliver name text) :=
  ⟨s.deliver_linksOf name text, fun _ => State.mem_deliver.mpr, fun tb c hc => by simpa using hc⟩

theorem sameLinks_deliveries (name : String) (texts : List String) (s : State) :
    SameLinks s (texts.foldl (State.deliver name) s) :=
  deliveries_rel (E := SameLinks.effect) (sameLinks_deliver name) texts s

/-- A new value for an element changes no links. -/
theorem sameLinks_allowsUpdate (cfg : Config) (env : Environment) (name : String)
    (x : Table × String) : AllowsUpdate cfg env SameLinks.effect name x where
  satisfied _ _ _ hr _ := sameLinks_completeRequest cfg env .satisfied hr
  deliver := sameLinks_deliver name
  store s text := ⟨fun p => by simp only [State.linksOf, State.store_pvs],
    fun p hp => by simpa using hp, fun tb c => State.mem_store text s⟩
  count s := ⟨fun p => by simp only [State.linksOf, State.countUpdate_pvs],
    fun p hp => by simpa using hp, fun tb c hc => by simpa using hc⟩

/-! ## Linking -/

/-- What `newEpicsValue` does; it never raises. -/
theorem newEpicsValue_run (cfg : Config) (env : Environment) (name : String)
    (x : Table × String) (s : State) :
    let told := (env.early name x.1).foldl (State.deliver name) s
    newEpicsValue cfg env name x s =
      (.ok (), (satisfyRequests cfg env
        ((told.store x.1 x.2 (told.pvValue name)).countUpdate x.2)).2) := rfl

/-- What it takes to link an element that is not linked yet. -/
def State.afterLink (cfg : Config) (env : Environment) (name : String) (x : Table × String)
    (s : State) : State :=
  ((env.gap name x.1).foldl (State.deliver name) (newEpicsValue cfg env name x s).2).addLink name x

/-- What `link` does where it does not raise. -/
def State.linkTo (cfg : Config) (env : Environment) (name : String) (x : Table × String)
    (s : State) : State :=
  if (s.linksOf name).elem x then s else s.afterLink cfg env name x

variable (cfg env) in
theorem State.linkTo_eq (name : String) (x : Table × String) (s : State) :
    s.linkTo cfg env name x =
      if x ∈ s.linksOf name then s else s.afterLink cfg env name x := by
  simp [State.linkTo]

/-- No other PV has the element. -/
theorem Linked.isLinked (h : Linked s) (hname : name = x.1.pvName x.2) :
    s.isLinked name x = false := by
  rw [State.isLinked, List.any_eq_false]
  intro e he
  simp only [Bool.and_eq_true, decide_eq_true_eq, not_and, not_not]
  intro hx
  have hlookup : s.pvs.lookup e.1 = some e.2 := AList.mem_lookup_iff.mpr he
  rw [hname]
  exact h.named e.1 x (by simpa only [State.linksOf, hlookup] using hx)

theorem link_run (h : Linked s) (hname : name = x.1.pvName x.2) (hpv : name ∈ s.pvs) :
    link cfg env name x s = (.ok (), s.linkTo cfg env name x) := by
  rw [State.linkTo_eq]
  unfold link
  simp only [bind_apply, evaluates_apply, if_pos hpv, reads_apply, h.isLinked hname,
    Bool.false_eq_true, if_false]
  by_cases hx : x ∈ s.linksOf name
  · simp only [if_pos hx]
    rfl
  · simp only [if_neg hx]
    rfl

section LinkTo

variable (cfg env)

theorem sameLinks_newEpicsValue (name : String) (x : Table × String) (s : State) :
    SameLinks s (newEpicsValue cfg env name x s).2 :=
  (sameLinks_allowsUpdate cfg env name x).newEpicsValue s

/-- A new value is stored. -/
theorem stored_newEpicsValue (name : String) (x : Table × String) (s : State) :
    x.2 ∈ (newEpicsValue cfg env name x s).2.table x.1 := by
  rw [newEpicsValue_run]
  refine (satisfyRequests_within (E := SameLinks.effect) ?_ _).table x.1 x.2 ?_
  · exact fun _ _ _ hr _ => sameLinks_completeRequest cfg env .satisfied hr
  · rw [State.countUpdate_table, ← AList.lookup_isSome, State.store_lookup_self]
    rfl

theorem Linked.linkTo (h : Linked s) (hname : name = x.1.pvName x.2) (hpv : name ∈ s.pvs) :
    Linked (s.linkTo cfg env name x) := by
  rw [State.linkTo_eq]
  split
  · exact h
  · next hnew =>
    have hvalue := sameLinks_newEpicsValue cfg env name x s
    have hgap := sameLinks_deliveries name (env.gap name x.1)
      (newEpicsValue cfg env name x s).2
    have hboth := SameLinks.effect.trans hvalue hgap
    apply (h.same hboth).addLink hname
    · exact hboth.pvs name hpv
    · rwa [hboth.links name]
    · exact hgap.table x.1 x.2 (stored_newEpicsValue cfg env name x s)

theorem linkTo_linksOf (hpv : name ∈ s.pvs) (p : String) :
    (∀ y ∈ s.linksOf p, y ∈ (s.linkTo cfg env name x).linksOf p) ∧
      x ∈ (s.linkTo cfg env name x).linksOf name ∧
      ∀ q, q ∈ s.pvs → q ∈ (s.linkTo cfg env name x).pvs := by
  rw [State.linkTo_eq]
  split
  · next hx => exact ⟨fun _ => id, hx, fun _ => id⟩
  · have hboth := SameLinks.effect.trans (sameLinks_newEpicsValue cfg env name x s)
      (sameLinks_deliveries name (env.gap name x.1) _)
    have hlinks := State.addLink_linksOf (hboth.pvs name hpv) x
    refine ⟨fun y hy => ?_, ?_, fun q hq => State.mem_addLink (hboth.pvs q hq)⟩
    · rw [State.afterLink, hlinks p, hboth.links p]
      split
      · exact List.mem_append_left _ hy
      · exact hy
    · rw [State.afterLink, hlinks name, if_pos rfl]
      simp

end LinkTo

/-! ## Monitoring a channel -/

/-- What `monitorChannels` does before it links. -/
def State.register (channel : String) (s : State) : State :=
  let s := (s.addPV channel).addPV (channel ++ ".EGU")
  { s with knownChannels := s.knownChannels.insert channel .blank }

/-- Both elements of the channel are linked. -/
def State.linkBoth (cfg : Config) (env : Environment) (channel : String) (s : State) : State :=
  (s.linkTo cfg env channel (.values, channel)).linkTo cfg env (channel ++ ".EGU") (.units, channel)

@[simp] theorem State.register_linksOf (channel : String) (s : State) (p : String) :
    (s.register channel).linksOf p = s.linksOf p := by
  show ((s.addPV channel).addPV (channel ++ ".EGU")).linksOf p = s.linksOf p
  rw [State.addPV_linksOf, State.addPV_linksOf]

@[simp] theorem State.register_table (channel : String) (s : State) (tb : Table) :
    (s.register channel).table tb = s.table tb := by
  have htable : (s.register channel).table tb =
      ((s.addPV channel).addPV (channel ++ ".EGU")).table tb := State.table_congr rfl rfl tb
  rw [htable, State.addPV_table, State.addPV_table]

@[simp] theorem State.register_knownChannels (channel : String) (s : State) :
    (s.register channel).knownChannels = s.knownChannels.insert channel .blank := by
  simp [State.register]

theorem Linked.register (h : Linked s) (channel : String) : Linked (s.register channel) :=
  h.congr (s.register_linksOf channel) fun tb c hc => by rwa [State.register_table]

theorem monitorChannel_known {channel : String} (h : hasNames s.knownChannels channel = true) :
    monitorChannel cfg env channel s = (.ok (), s) := by
  simp only [monitorChannel, bind_apply, reads_apply, h, if_true]
  rfl

/-- A channel that is not known is registered before it is linked. -/
theorem monitorChannel_register {channel : String}
    (h : hasNames s.knownChannels channel = false) :
    monitorChannel cfg env channel s =
      (do
        link cfg env channel (.values, channel)
        link cfg env (channel ++ ".EGU") (.units, channel) : Proc Unit) (s.register channel) := by
  unfold monitorChannel
  simp only [bind_apply, reads_apply, h, Bool.false_eq_true, if_false]
  rfl

variable (cfg env) in
/-- Under `Linked` that raises no error. -/
theorem monitorChannel_unknown {channel : String} (h : Linked s)
    (hnew : hasNames s.knownChannels channel = false) :
    monitorChannel cfg env channel s = (.ok (), (s.register channel).linkBoth cfg env channel) ∧
      Linked ((s.register channel).linkBoth cfg env channel) := by
  have hregister := h.register channel
  have hvalue : channel ∈ (s.register channel).pvs :=
    State.mem_addPV_of_mem (State.mem_addPV channel s)
  have hunit : channel ++ ".EGU" ∈ (s.register channel).pvs := State.mem_addPV _ _
  let s₁ := (s.register channel).linkTo cfg env channel (.values, channel)
  have hfirst : Linked s₁ := hregister.linkTo cfg env rfl hvalue
  have hkeep : channel ++ ".EGU" ∈ s₁.pvs :=
    (linkTo_linksOf cfg env (x := (.values, channel)) hvalue channel).2.2 _ hunit
  have hrun₁ : link cfg env channel (.values, channel) (s.register channel) = (.ok (), s₁) :=
    link_run hregister rfl hvalue
  have hrun₂ : link cfg env (channel ++ ".EGU") (.units, channel) s₁ =
      (.ok (), s₁.linkTo cfg env (channel ++ ".EGU") (.units, channel)) :=
    link_run hfirst rfl hkeep
  refine ⟨?_, hfirst.linkTo cfg env rfl hkeep⟩
  rw [monitorChannel_register hnew]
  exact (bind_ok hrun₁).trans hrun₂

variable (cfg env) in
/-- Afterwards both elements are linked, hence stored. -/
theorem linkBoth_linksOf (channel : String) (s : State) :
    (.values, channel) ∈ ((s.register channel).linkBoth cfg env channel).linksOf channel ∧
      (.units, channel) ∈
        ((s.register channel).linkBoth cfg env channel).linksOf (channel ++ ".EGU") := by
  have hvalue : channel ∈ (s.register channel).pvs :=
    State.mem_addPV_of_mem (State.mem_addPV channel s)
  have hunit : channel ++ ".EGU" ∈ (s.register channel).pvs := State.mem_addPV _ _
  obtain ⟨-, hfirst, hpvs⟩ := linkTo_linksOf cfg env (x := (.values, channel)) hvalue channel
  obtain ⟨hkeep, hsecond, -⟩ := linkTo_linksOf cfg env (x := (.units, channel))
    (hpvs _ hunit) channel
  exact ⟨hkeep _ hfirst, hsecond⟩

end EpicsTcl.Server
