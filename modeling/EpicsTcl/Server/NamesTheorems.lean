/-
EpicsTcl.Server.NamesTheorems — channel names as exact strings.

`monitorChannels` and the tests before a lookup ask `array names` for the
elements that match a channel's name as a pattern, and then use the element
of that very name. `Traffic` adds to the server what it was asked for and
what it linked. `exactFor` says of the names of a request that the patterns
find what they should: each name matches itself, and one that is new matches
no name that is known when its turn comes.

§1 is the statement, §2 what monitoring a name does, §3 the lookups and the
errors of the passes, §4 the runs (`exact_names`), in which no name is that of
a command.
-/
import EpicsTcl.Server.ServeTheorems
import EpicsTcl.Server.TimingTheorems

namespace EpicsTcl.Server

open EpicsTcl.Library EpicsTcl.Library.Script

variable {cfg : Config} {env : Environment} {index : Nat} {r : Request} {s t : State}

/-! ## §1 Statement -/

/-- The names that a step passes to `monitorChannels`. -/
def requestedNames (cfg : Config) (a : Environment × Action) : List String :=
  match a.2 with
  | .request socket line =>
    if a.1.socketFault socket .gets || line = "" then [] else (cfg.split line).getD []
  | _ => []

/-- The names that `monitorChannels` links, in this order. -/
def registrations (cfg : Config) (env : Environment) : List String → State → List String
  | [], _ => []
  | c :: cs, s =>
    let rest := registrations cfg env cs (monitorChannel cfg env c s).2
    if hasNames s.knownChannels c then rest else c :: rest

/-- The server, what it was asked for, and what it linked. -/
structure Traffic where
  state : State := State.initial
  asked : List String := []
  linked : List String := []

def Traffic.step (cfg : Config) (s : Traffic) (a : Environment × Action) : Option Traffic :=
  (s.state.step cfg a).map fun t =>
    { state := t
      asked := (requestedNames cfg a).reverse ++ s.asked
      linked := s.linked ++
        match a.2 with
        | .request socket _ =>
          registrations cfg a.1 (requestedNames cfg a) (s.state.unreadable socket)
        | _ => [] }

/-- For each name in turn: it matches itself, and if it is not known yet it
matches nothing that is. -/
def exactFor : List String → List String → Bool
  | _, [] => true
  | known, c :: cs =>
    globMatch c c && (known.elem c || known.all fun k => !globMatch c k) && exactFor (c :: known) cs

/-- The names of the step's request line, when they are monitored, are exact,
and none is that of a command. -/
def Traffic.NamesExact (cfg : Config) (s : Traffic) (a : Environment × Action) : Prop :=
  keepsCommands cfg a = true ∧ exactFor s.state.knownChannels.keys (requestedNames cfg a) = true

instance (s : Traffic) (a : Environment × Action) : Decidable (s.NamesExact cfg a) :=
  inferInstanceAs (Decidable (_ ∧ _))

namespace State

/-- `satisfyRequests`' test by the elements of that very name. -/
def thereExactly (s : State) (c : String) : Bool :=
  (s.values.lookup c).isSome && (s.units.lookup c).isSome &&
    decide (s.knownChannels.lookup c = some .connected)

/-- `completeRequest`'s two fields by the elements of that very name. -/
def fieldsExactly (s : State) (c : String) : List String :=
  match s.values.lookup c, s.units.lookup c with
  | some value, some units => [value, units]
  | _, _ => ["", ""]

end State

/-- An error of a socket. -/
def TclError.OfSocket : TclError → Prop
  | .io _ _ => True
  | .noSuchChannel _ _ => True
  | _ => False

/-- Names are treated as exact strings. -/
structure Traffic.Exact (cfg : Config) (s : Traffic) : Prop where
  /-- Everything asked for was linked once, and nothing else was. -/
  once : ∀ c, s.linked.count c = if c ∈ s.asked then 1 else 0
  /-- Everything asked for, and nothing else, has its own entry. -/
  known : ∀ c, c ∈ s.state.knownChannels ↔ c ∈ s.asked
  /-- Asking again links nothing and changes nothing. -/
  again : ∀ c ∈ s.asked, ∀ env, registrations cfg env [c] s.state = [] ∧
    monitorChannel cfg env c s.state = (.ok (), s.state)
  /-- The tests and the fields of a pending request are those of the elements
  of its names. -/
  lookups : ∀ i r, s.state.pendingRequests.lookup i = some r →
    s.state.allThere r.channels = .ok (r.channels.all s.state.thereExactly) ∧
      s.state.replyFields r.channels = .ok (r.channels.flatMap s.state.fieldsExactly)
  /-- The passes raise no error but those of a socket. -/
  errors : ∀ env e t, satisfyRequests cfg env s.state = (.error e, t) ∨
    processTimeouts cfg env s.state = (.error e, t) → e.OfSocket
  /-- They return when the sockets of the pending requests work. -/
  returns : ∀ env, (∀ i r, s.state.pendingRequests.lookup i = some r →
      r.socket ∈ s.state.openSockets ∧ ∀ op, env.socketFault r.socket op = false) →
    (satisfyRequests cfg env s.state).1 = .ok () ∧ (processTimeouts cfg env s.state).1 = .ok ()
  /-- No channel has replaced a command. -/
  commands : s.state.CommandsKept cfg

/-! ## §2 Monitoring a name -/

/-- What is known is what was asked for, also of pending requests, and
matches itself. -/
structure Covers (asked : List String) (s : State) : Prop where
  monitored : Monitored s
  known : ∀ c, c ∈ s.knownChannels ↔ c ∈ asked
  pending : ∀ i r, s.pendingRequests.lookup i = some r → ∀ c ∈ r.channels, c ∈ asked
  self : ∀ c ∈ asked, globMatch c c = true

/-- No channel becomes known or unknown, and no request is queued. -/
structure Narrow (s t : State) : Prop where
  known : ∀ c, c ∈ t.knownChannels ↔ c ∈ s.knownChannels
  pending : ∀ i r, t.pendingRequests.lookup i = some r → s.pendingRequests.lookup i = some r

def Narrow.effect : Effect State where
  rel := Narrow
  refl _ := ⟨fun _ => Iff.rfl, fun _ _ => id⟩
  trans h h' := ⟨fun c => (h'.known c).trans (h.known c),
    fun i r hr => h.pending i r (h'.pending i r hr)⟩

theorem narrow_of_data (hd : DataOnly s t) (hs : SameChannels s t) : Narrow s t := by
  refine ⟨fun c => ⟨hs.known c, hd.known c⟩, ?_⟩
  obtain ⟨_, _, _, _, _, _, rfl⟩ := hd.rest
  exact fun _ _ => id

theorem narrow_completeRequest (cfg : Config) (env : Environment) (cause : Cause)
    (hr : s.pendingRequests.lookup index = some r) :
    Narrow s (completeRequest cfg env cause index s).2 := by
  obtain ⟨events, closed, hrun⟩ := completeRequest_snd cfg env cause hr
  rw [hrun]
  exact ⟨fun _ => Iff.rfl, (afterReply_progress index r.socket events closed).pending⟩

theorem narrow_newEpicsValue (cfg : Config) (env : Environment) (name : String)
    (x : Table × String) (s : State) : Narrow s (newEpicsValue cfg env name x s).2 := by
  have hallows : AllowsUpdate cfg env Narrow.effect name x := {
    satisfied := fun _ _ _ hr _ => narrow_completeRequest cfg env .satisfied hr
    deliver := fun s text =>
      narrow_of_data (deliver_dataOnly name text s) (sameChannels_deliver name s text)
    store := fun s text => narrow_of_data (store_dataOnly x.1 x.2 text s)
      ⟨fun c hc => by simpa using hc, fun tb c => State.mem_store text s⟩
    count := fun s => narrow_of_data (countUpdate_dataOnly x.2 s)
      ⟨fun c => mem_countUpdate, fun tb c hc => by simpa using hc⟩ }
  exact hallows.newEpicsValue s

theorem narrow_linkTo (cfg : Config) (env : Environment) (name : String) (x : Table × String)
    (s : State) : Narrow s (s.linkTo cfg env name x) := by
  rw [State.linkTo_eq]
  split
  · exact Narrow.effect.refl s
  · have hvalue := narrow_newEpicsValue cfg env name x s
    have hgap : Narrow _ ((env.gap name x.1).foldl (State.deliver name)
        (newEpicsValue cfg env name x s).2) :=
      deliveries_rel (E := Narrow.effect) (fun u text =>
        narrow_of_data (deliver_dataOnly name text u) (sameChannels_deliver name u text)) _ _
    refine Narrow.effect.trans hvalue (Narrow.effect.trans hgap (narrow_of_data ?_ ?_))
    · exact addLink_dataOnly name x _
    · constructor
      · intro c hc
        rwa [State.afterLink, State.addLink_knownChannels] at hc
      · intro tb c hc
        rwa [State.afterLink, State.addLink_table]

theorem narrow_linkBoth (cfg : Config) (env : Environment) (c : String) (s : State) :
    Narrow s (s.linkBoth cfg env c) :=
  Narrow.effect.trans (narrow_linkTo cfg env c (.values, c) s)
    (narrow_linkTo cfg env (c ++ ".EGU") (.units, c) _)

variable (cfg env) in
/-- What is known after a name that was not. -/
theorem mem_monitorChannel {c : String} (h : Linked s)
    (hnew : hasNames s.knownChannels c = false) (d : String) :
    d ∈ (monitorChannel cfg env c s).2.knownChannels ↔ d = c ∨ d ∈ s.knownChannels := by
  rw [(monitorChannel_unknown cfg env h hnew).1, (narrow_linkBoth cfg env c _).known d,
    State.register_knownChannels, AList.mem_insert]

namespace Covers

variable {asked : List String} {c : String}

theorem narrow (h : Covers asked s) (hmonitored : Monitored t) (hn : Narrow s t) :
    Covers asked t where
  monitored := hmonitored
  known c := (hn.known c).trans (h.known c)
  pending i r hr := h.pending i r (hn.pending i r hr)
  self := h.self

/-- What `array names` finds for a name that is exact. -/
theorem hasNames_iff (h : Covers asked s) (hself : globMatch c c = true)
    (hnew : c ∈ asked ∨ ∀ k ∈ s.knownChannels.keys, globMatch c k = false) :
    hasNames s.knownChannels c = true ↔ c ∈ asked := by
  constructor
  · intro hnames
    obtain ⟨k, hk, hmatch⟩ := List.any_eq_true.mp hnames
    rcases hnew with hc | hnone
    · exact hc
    · rw [hnone k hk] at hmatch
      cases hmatch
  · intro hc
    exact hasNames_of_self hself ((h.known c).mpr hc)

variable (cfg env) in
/-- **Monitoring an exact name**: it is linked if it was not asked for before,
and afterwards it is known. -/
theorem monitorChannel (h : Covers asked s) (hself : globMatch c c = true)
    (hnew : c ∈ asked ∨ ∀ k ∈ s.knownChannels.keys, globMatch c k = false) :
    Covers (c :: asked) (monitorChannel cfg env c s).2 := by
  have hmonitored : Monitored (Server.monitorChannel cfg env c s).2 :=
    h.monitored.monitorChannel c
  have hselves : ∀ d ∈ c :: asked, globMatch d d = true := by
    intro d hd
    rcases List.mem_cons.mp hd with rfl | hd
    · exact hself
    · exact h.self d hd
  cases hnames : hasNames s.knownChannels c with
  | true =>
    have hc : c ∈ asked := (h.hasNames_iff hself hnew).mp hnames
    rw [monitorChannel_known hnames] at hmonitored ⊢
    refine ⟨hmonitored, fun d => ?_, fun i r hr d hd => ?_, hselves⟩
    · rw [h.known d, List.mem_cons]
      exact ⟨.inr, fun hd => hd.elim (fun heq => heq ▸ hc) id⟩
    · exact List.mem_cons_of_mem c (h.pending i r hr d hd)
  | false =>
    have hmem := mem_monitorChannel cfg env h.monitored.linked hnames
    refine ⟨hmonitored, fun d => ?_, fun i r hr d hd => ?_, hselves⟩
    · rw [hmem d, h.known d, List.mem_cons]
    have hregister : (s.register c).pendingRequests = s.pendingRequests := by
      simp only [State.register, State.addPV]
      split <;> split <;> rfl
    rw [(monitorChannel_unknown cfg env h.monitored.linked hnames).1] at hr
    have hr := (narrow_linkBoth cfg env c _).pending i r hr
    rw [hregister] at hr
    exact List.mem_cons_of_mem c (h.pending i r hr d hd)

end Covers

/-- How often everything asked for was linked. -/
def LinkedOnce (asked linked : List String) : Prop :=
  ∀ c, linked.count c = if c ∈ asked then 1 else 0

variable (cfg env) in
/-- **The names of a request**, one after the other: `monitorChannels` returns,
and each has been linked once. -/
theorem Covers.monitorChannels {asked linked known : List String} (cs : List String)
    (h : Covers asked s) (honce : LinkedOnce asked linked) (hknown : ∀ c, c ∈ known ↔ c ∈ asked)
    (hexact : exactFor known cs = true) :
    (Server.monitorChannels cfg env cs s).1 = .ok () ∧
      Covers (cs.reverse ++ asked) (Server.monitorChannels cfg env cs s).2 ∧
      LinkedOnce (cs.reverse ++ asked) (linked ++ registrations cfg env cs s) := by
  induction cs generalizing s asked linked known with
  | nil => exact ⟨rfl, h, by simpa [registrations] using honce⟩
  | cons c cs ih =>
    simp only [exactFor, Bool.and_eq_true, Bool.or_eq_true, List.elem_eq_mem, decide_eq_true_eq,
      List.all_eq_true, Bool.not_eq_true'] at hexact
    obtain ⟨⟨hself, hnew⟩, hrest⟩ := hexact
    have hnew : c ∈ asked ∨ ∀ k ∈ s.knownChannels.keys, globMatch c k = false := by
      refine hnew.imp (hknown c).mp fun hnone k hk => hnone k ?_
      rw [hknown k, ← h.known k]
      exact hk
    have hnames := h.hasNames_iff hself hnew
    have hcovers := h.monitorChannel cfg env hself hnew
    have hbody : Server.monitorChannel cfg env c s =
        (.ok (), (Server.monitorChannel cfg env c s).2) := by
      cases hcase : hasNames s.knownChannels c with
      | true => rw [monitorChannel_known hcase]
      | false => rw [(monitorChannel_unknown cfg env h.monitored.linked hcase).1]
    have hloop : Server.monitorChannels cfg env (c :: cs) s =
        Server.monitorChannels cfg env cs (Server.monitorChannel cfg env c s).2 := bind_ok hbody
    have honce' : LinkedOnce (c :: asked)
        (linked ++ if hasNames s.knownChannels c then [] else [c]) := by
      intro d
      rw [List.count_append, honce d]
      cases hcase : hasNames s.knownChannels c with
      | true =>
        have hc := hnames.mp hcase
        by_cases hd : d = c
        · simp [hd, hc]
        · simp [hd]
      | false =>
        have hc : c ∉ asked := fun hc => by simp [hnames.mpr hc] at hcase
        by_cases hd : d = c
        · simp [hd, hc]
        · simp [hd, Ne.symm hd]
    obtain ⟨hok, hcovers, honce⟩ := ih hcovers honce'
      (show ∀ d, d ∈ c :: known ↔ d ∈ c :: asked from fun d => by simp [hknown d]) hrest
    have hregistrations : registrations cfg env (c :: cs) s =
        (if hasNames s.knownChannels c then [] else [c]) ++
          registrations cfg env cs (Server.monitorChannel cfg env c s).2 := by
      simp only [registrations]
      split <;> rfl
    rw [hloop, hregistrations, ← List.append_assoc]
    simp only [List.reverse_cons, List.append_assoc, List.singleton_append] at hcovers honce ⊢
    exact ⟨hok, hcovers, honce⟩

/-! What the steps of the server do besides. -/

namespace Covers

variable {asked linked : List String} {socket : Socket} {name : String}

theorem idle (h : Covers asked s) (hidle : Idle s t) : Covers asked t := by
  refine h.narrow ?_ ⟨fun c => by rw [hidle.knownChannels], fun i r hr => ?_⟩
  · exact h.monitored.quiet hidle.pvs (State.table_congr hidle.values hidle.units)
      hidle.knownChannels
  · rwa [hidle.pendingRequests] at hr

theorem closed (h : Covers asked s) (ok : Bool) :
    Covers asked (s.afterSocket .close socket (.close socket ok)) :=
  h.narrow (h.monitored.quiet rfl (State.table_congr rfl rfl) rfl)
    ⟨fun _ => Iff.rfl, fun _ _ => id⟩

variable (cfg env) in
theorem satisfyRequests (h : Covers asked s) :
    Covers asked (Server.satisfyRequests cfg env s).2 :=
  h.narrow h.monitored.satisfyRequests
    (satisfyRequests_within (E := Narrow.effect)
      (fun _ _ _ hr _ => narrow_completeRequest cfg env .satisfied hr) s)

variable (cfg env) in
theorem processTimeouts (h : Covers asked s) :
    Covers asked (Server.processTimeouts cfg env s).2 :=
  h.narrow h.monitored.processTimeouts
    (processTimeouts_within (E := Narrow.effect)
      (fun _ _ _ hr _ => narrow_completeRequest cfg env .timeout hr) s)

theorem updateLinkedVariables (h : Covers asked s) :
    Covers asked (Server.updateLinkedVariables cfg env name s).2 := by
  have hloop : Within Narrow.effect (Server.updateLinkedVariables cfg env name) :=
    Within.bind (Within.reads _) fun _ =>
      Within.forEach fun x _ u => narrow_newEpicsValue cfg env name x u
  exact h.narrow h.monitored.updateLinkedVariables (hloop s)

theorem deliver (h : Covers asked s) (name text : String) : Covers asked (s.deliver name text) := by
  have hsame := sameChannels_deliver name s text
  refine h.narrow ?_ (narrow_of_data (deliver_dataOnly name text s) hsame)
  exact h.monitored.same (h.monitored.linked.same (sameLinks_deliver name s text)) hsame

theorem enqueue (h : Covers asked s) {channels : List String} (hall : ∀ c ∈ channels, c ∈ asked) :
    Covers asked (s.enqueue socket channels) where
  monitored := h.monitored.quiet rfl (State.table_congr rfl rfl) rfl
  known := h.known
  pending := by
    intro i r hr c hc
    by_cases heq : i = s.requestIndex
    · subst heq
      simp only [State.enqueue, AList.lookup_insert, Option.some.injEq] at hr
      subst hr
      exact hall c hc
    · rw [State.enqueue, AList.lookup_insert_ne heq] at hr
      exact h.pending i r hr c hc
  self := h.self

theorem close (h : Covers asked s) : Covers asked (Server.close env socket s).2 := by
  obtain ⟨ok, hrun⟩ := close_run env socket s
  rw [hrun]
  exact h.closed ok

variable (cfg env) in
/-- Queueing a request whose names are exact. -/
theorem queueRequest {channels : List String} {line : String} (h : Covers asked s)
    (honce : LinkedOnce asked linked) (hsplit : cfg.split line = some channels)
    (hexact : exactFor s.knownChannels.keys channels = true) :
    (Server.queueRequest cfg env socket line s).1 = .ok () ∧
      Covers (channels.reverse ++ asked) (Server.queueRequest cfg env socket line s).2 ∧
      LinkedOnce (channels.reverse ++ asked) (linked ++ registrations cfg env channels s) := by
  obtain ⟨hrun, hcovers, honce⟩ :=
    h.monitorChannels cfg env channels honce h.known hexact
  have hmonitor : Server.monitorChannels cfg env channels s =
      (.ok (), (Server.monitorChannels cfg env channels s).2) := by rw [← hrun]
  have hqueue : Server.queueRequest cfg env socket line s =
      (.ok (), (Server.monitorChannels cfg env channels s).2.enqueue socket channels) := by
    simp only [Server.queueRequest, bind_apply, evaluates_apply, hsplit, modify_apply]
    rw [hmonitor]
  rw [hqueue]
  exact ⟨rfl, hcovers.enqueue fun c hc => List.mem_append_left _ (List.mem_reverse.mpr hc), honce⟩

variable (cfg env) in
/-- **Reading a request** whose names are exact. -/
theorem readRequest {line : String} (h : Covers asked s) (honce : LinkedOnce asked linked)
    (hexact : exactFor s.knownChannels.keys
      (requestedNames cfg (env, .request socket line)) = true) :
    Covers ((requestedNames cfg (env, .request socket line)).reverse ++ asked)
        (Server.readRequest cfg env socket line s).2 ∧
      LinkedOnce ((requestedNames cfg (env, .request socket line)).reverse ++ asked)
        (linked ++ registrations cfg env (requestedNames cfg (env, .request socket line))
          (s.unreadable socket)) := by
  have hstart : Covers asked (s.unreadable socket) :=
    h.idle ⟨rfl, rfl, rfl, rfl, rfl, rfl, rfl, fun _ => id⟩
  unfold Server.readRequest
  simp only [bind_apply, modify_apply]
  by_cases hgets : env.socketFault socket .gets = true
  · have hnone : requestedNames cfg (env, .request socket line) = [] := by
      simp [requestedNames, hgets]
    rw [if_pos hgets, hnone]
    exact ⟨hstart, by simpa [registrations] using honce⟩
  rw [if_neg hgets]
  rw [Bool.not_eq_true] at hgets
  by_cases hline : line = ""
  · have hnone : requestedNames cfg (env, .request socket line) = [] := by
      simp [requestedNames, hline]
    rw [if_pos hline, hnone]
    exact ⟨hstart.close, by simpa [registrations] using honce⟩
  rw [if_neg hline]
  have hnames : requestedNames cfg (env, .request socket line) = (cfg.split line).getD [] := by
    simp [requestedNames, hgets, hline]
  rw [hnames] at hexact ⊢
  simp only [bind_apply, attempt_apply]
  cases hsplit : cfg.split line with
  | none =>
    have hqueue : Server.queueRequest cfg env socket line (s.unreadable socket) =
        (.error (.badLine line), s.unreadable socket) := by
      simp only [Server.queueRequest, bind_apply, evaluates_apply, hsplit]
    rw [hqueue]
    exact ⟨hstart.close, by simpa [registrations] using honce⟩
  | some channels =>
    rw [hsplit, Option.getD_some] at hexact
    rw [Option.getD_some]
    obtain ⟨hok, hqueue, honce⟩ := hstart.queueRequest cfg env honce hsplit hexact
    refine ⟨?_, honce⟩
    cases hrun : Server.queueRequest cfg env socket line (s.unreadable socket) with
    | mk result t =>
      rw [hrun] at hok hqueue
      cases hok
      have hend := hqueue.satisfyRequests cfg env
      cases hpass : Server.satisfyRequests cfg env t with
      | mk result u =>
        rw [hpass] at hend
        cases result with
        | ok _ => simpa only [hpass, pure_apply] using hend
        | error e => simpa only [hpass] using hend.close

end Covers

/-! ## §3 The passes -/

/-- The tests and the fields of a request for known channels. -/
theorem Covers.lookups {asked channels : List String} (h : Covers asked s)
    (hall : ∀ c ∈ channels, c ∈ asked) :
    s.allThere channels = .ok (channels.all s.thereExactly) ∧
      s.replyFields channels = .ok (channels.flatMap s.fieldsExactly) := by
  induction channels with
  | nil => exact ⟨rfl, rfl⟩
  | cons c channels ih =>
    obtain ⟨hthere, hreply⟩ := ih fun d hd => hall d (List.mem_cons_of_mem c hd)
    have hc : c ∈ asked := hall c List.mem_cons_self
    have hself : globMatch c c = true := h.self c hc
    have hknown : c ∈ s.knownChannels := (h.known c).mpr hc
    obtain ⟨known, hstate⟩ := Option.isSome_iff_exists.mp (AList.lookup_isSome.mpr hknown)
    obtain ⟨value, hvalue⟩ := Option.isSome_iff_exists.mp
      (AList.lookup_isSome.mpr (h.monitored.known c hknown .values))
    obtain ⟨units, hunits⟩ := Option.isSome_iff_exists.mp
      (AList.lookup_isSome.mpr (h.monitored.known c hknown .units))
    have hvalue : s.values.lookup c = some value := hvalue
    have hunits : s.units.lookup c = some units := hunits
    have hnames : hasNames s.values c = true :=
      hasNames_of_self hself (h.monitored.known c hknown .values)
    have hnamesUnits : hasNames s.units c = true :=
      hasNames_of_self hself (h.monitored.known c hknown .units)
    constructor
    · simp only [State.allThere, hnames, hnamesUnits, element_ok hstate, hthere, List.all_cons,
        State.thereExactly, hvalue, hunits, hstate, bind, Except.bind]
      cases known <;> simp
    · simp only [State.replyFields, State.channelFields, hnames, hnamesUnits, element_ok hvalue,
        element_ok hunits, hreply, List.flatMap_cons, State.fieldsExactly, hvalue, hunits, bind,
        Except.bind, pure, Except.pure, Bool.not_true, Bool.or_self, Bool.false_eq_true, if_false]

theorem onSocket_ofSocket {op : SocketOp} {socket : Socket} {event : Bool → Event} {e : TclError}
    (h : onSocket env op socket event s = (.error e, t)) : e.OfSocket := by
  unfold onSocket at h
  simp only at h
  split at h
  · cases h
  · cases h
    by_cases hopen : socket ∈ s.openSockets <;> simp [hopen, TclError.OfSocket]

theorem reply_ofSocket {socket : Socket} {line : String} {e : TclError}
    (h : reply env socket line s = (.error e, t)) : e.OfSocket := by
  rcases of_bind_error h with h | ⟨_, _, -, h⟩
  · exact onSocket_ofSocket h
  rcases of_bind_error h with h | ⟨_, _, -, h⟩
  · exact onSocket_ofSocket h
  · exact onSocket_ofSocket h

namespace Covers

variable {asked : List String}

theorem afterReply (h : Covers asked s) (index : Nat) (socket : Socket) (events : List Event)
    (closed : Bool) : Covers asked (s.afterReply index socket events closed) :=
  h.narrow (h.monitored.quiet rfl (State.table_congr rfl rfl) rfl)
    ⟨fun _ => Iff.rfl, (afterReply_progress index socket events closed).pending⟩

theorem completeRequest_ofSocket {cause : Cause} {e : TclError} (h : Covers asked s)
    (hr : s.pendingRequests.lookup index = some r)
    (hrun : completeRequest cfg env cause index s = (.error e, t)) : e.OfSocket := by
  rw [completeRequest_eq hr, (h.lookups (h.pending index r hr)).2] at hrun
  exact reply_ofSocket hrun

/-- Some requests are still to come in a pass. -/
structure ToCome (asked : List String) (rest : List Nat) (s : State) : Prop where
  nodup : rest.Nodup
  pending : ∀ i ∈ rest, ∃ r, s.pendingRequests.lookup i = some r
  covers : Covers asked s

theorem ToCome.round {P : Pass cfg} {rest : List Nat} (h : ToCome asked (index :: rest) s)
    (hbody : P.body index s = (.ok (), t)) : ToCome asked rest t := by
  obtain ⟨hindex, hnodup⟩ := List.nodup_cons.mp h.nodup
  have hrest : ∀ i ∈ rest, ∃ r, s.pendingRequests.lookup i = some r :=
    fun i hi => h.pending i (List.mem_cons_of_mem index hi)
  obtain ⟨r, hr⟩ := h.pending index List.mem_cons_self
  have hround := P.round s index r hr
  rw [hbody] at hround
  generalize P.verdict s r = v at hround
  cases hround with
  | waits => exact ⟨hnodup, hrest, h.covers⟩
  | replied cause hreplied =>
    cases hreplied with
    | completes fields =>
      refine ⟨hnodup, fun i hi => ?_, h.covers.afterReply index r.socket _ true⟩
      obtain ⟨q, hq⟩ := hrest i hi
      have hne : i ≠ index := fun heq => hindex (heq ▸ hi)
      exact ⟨q, by rw [State.afterReply, AList.lookup_erase_ne hne, hq]⟩

/-- A pass raises what its bodies raise for pending requests. -/
theorem pass_error {P : Pass cfg} {Q : TclError → Prop} {e : TclError} (h : Covers asked s)
    (hbody : ∀ u i r e' t', Covers asked u → u.pendingRequests.lookup i = some r →
      P.body i u = (.error e', t') → Q e')
    (hrun : forEach (env.order s.pendingRequests.keys) P.body s = (.error e, t)) : Q e := by
  have hround : ∀ i rest u v, ToCome asked (i :: rest) u → P.body i u = (.ok (), v) →
      ToCome asked rest v := fun i rest u v hinv hok => hinv.round hok
  refine forEach_error hround ?_ ⟨order_nodup env s, fun i hi => mem_order.mp hi, h⟩ hrun
  intro i rest u v e' hinv herror
  obtain ⟨r, hr⟩ := hinv.pending i List.mem_cons_self
  exact hbody u i r e' v hinv.covers hr herror

theorem satisfyRequests_ofSocket {e : TclError} (h : Covers asked s)
    (hrun : Server.satisfyRequests cfg env s = (.error e, t)) : e.OfSocket := by
  refine h.pass_error (P := satisfyPass cfg env) ?_ hrun
  intro u i r e' t' hu hr hbody
  have hbody : satisfyRequest cfg env i u = (.error e', t') := hbody
  rw [satisfyRequest_run hr, (hu.lookups (hu.pending i r hr)).1] at hbody
  cases hthere : r.channels.all u.thereExactly with
  | true =>
    rw [hthere] at hbody
    exact hu.completeRequest_ofSocket hr hbody
  | false =>
    rw [hthere] at hbody
    cases hbody

theorem processTimeouts_ofSocket {e : TclError} (h : Covers asked s)
    (hrun : Server.processTimeouts cfg env s = (.error e, t)) : e.OfSocket := by
  refine h.pass_error (P := timeoutPass cfg env) ?_ hrun
  intro u i r e' t' hu hr hbody
  have hbody : processTimeout cfg env i u = (.error e', t') := hbody
  rw [processTimeout_run hr] at hbody
  split at hbody
  · exact hu.completeRequest_ofSocket hr hbody
  · cases hbody

/-- A pass that fails for no pending request returns. -/
theorem pass_returns {P : Pass cfg} (hone : s.OneRequestPerSocket)
    (hok : ∀ i r, s.pendingRequests.lookup i = some r → (P.verdict s r).fails = false) :
    (forEach (env.order s.pendingRequests.keys) P.body s).1 = .ok () := by
  have hfails : ∀ i ∈ env.order s.pendingRequests.keys, ¬ P.failsAt s i = true := by
    intro i _
    unfold Pass.failsAt
    split
    · next r hr => simp [hok i r hr]
    · exact Bool.false_ne_true
  have hnodup : (env.order s.pendingRequests.keys ++ []).Nodup := by simpa using order_nodup env s
  obtain ⟨t, hrun, -⟩ := P.runs_through hone hnodup
    (fun i hi => mem_order.mp (by simpa using hi)) hfails
  rw [hrun]

theorem replyVerdict_completes (h : Covers asked s) (hr : s.pendingRequests.lookup index = some r)
    (hopen : r.socket ∈ s.openSockets) (hfault : ∀ op, env.socketFault r.socket op = false) :
    s.replyVerdict env r = .completes := by
  simp [State.replyVerdict, (h.lookups (h.pending index r hr)).2, hopen, hfault]

theorem satisfyRequests_returns (h : Covers asked s) (hone : s.OneRequestPerSocket)
    (hsockets : ∀ i r, s.pendingRequests.lookup i = some r →
      r.socket ∈ s.openSockets ∧ ∀ op, env.socketFault r.socket op = false) :
    (Server.satisfyRequests cfg env s).1 = .ok () := by
  refine pass_returns (P := satisfyPass cfg env) hone fun i r hr => ?_
  obtain ⟨hopen, hfault⟩ := hsockets i r hr
  show (s.satisfyVerdict env r).fails = false
  rw [State.satisfyVerdict, (h.lookups (h.pending i r hr)).1]
  cases r.channels.all s.thereExactly with
  | true => simp [h.replyVerdict_completes hr hopen hfault, Verdict.fails]
  | false => rfl

theorem processTimeouts_returns (h : Covers asked s) (hone : s.OneRequestPerSocket)
    (hsockets : ∀ i r, s.pendingRequests.lookup i = some r →
      r.socket ∈ s.openSockets ∧ ∀ op, env.socketFault r.socket op = false) :
    (Server.processTimeouts cfg env s).1 = .ok () := by
  refine pass_returns (P := timeoutPass cfg env) hone fun i r hr => ?_
  obtain ⟨hopen, hfault⟩ := hsockets i r hr
  show (s.timeoutVerdict cfg env r).fails = false
  rw [State.timeoutVerdict]
  split
  · simp [h.replyVerdict_completes hr hopen hfault, Verdict.fails]
  · rfl

end Covers

/-! ## §4 Runs -/

theorem Covers.initial : Covers [] State.initial where
  monitored := Monitored.initial
  known _ := by
    constructor
    · exact fun h => nomatch h
    · exact fun h => nomatch h
  pending _ _ h := nomatch h
  self _ h := nomatch h

/-- What is not a request asks for nothing. -/
theorem Covers.step {asked : List String} {a : Action} (h : Covers asked s)
    (hother : ∀ socket line, a ≠ .request socket line) (hstep : Step cfg env s a t) :
    Covers asked t := by
  have hticked : Covers asked { s with tick := s.tick + 1 } :=
    h.idle ⟨rfl, rfl, rfl, rfl, rfl, rfl, rfl, fun _ => id⟩
  have hpass := hticked.processTimeouts cfg env
  cases hstep with
  | connect => exact h.idle ⟨rfl, rfl, rfl, rfl, rfl, rfl, rfl, fun _ => id⟩
  | request socket line => exact absurd rfl (hother socket line)
  | deliver pv text => exact h.deliver pv text
  | dispatch pv rest hevents =>
    refine Covers.updateLinkedVariables (h.idle ?_)
    exact ⟨rfl, rfl, rfl, rfl, rfl, rfl, rfl, fun p hp => by simp [hevents, hp]⟩
  | ignored pv rest hevents =>
    exact h.idle ⟨rfl, rfl, rfl, rfl, rfl, rfl, rfl, fun p hp => by simp [hevents, hp]⟩
  | tick t hrun => rwa [hrun] at hpass
  | lastTick e t hrun =>
    rw [hrun] at hpass
    exact hpass.idle ⟨rfl, rfl, rfl, rfl, rfl, rfl, rfl, fun _ => id⟩

/-- The server knows what it was asked for, and linked it once. -/
structure Traffic.Settled (cfg : Config) (s : Traffic) : Prop where
  covers : Covers s.asked s.state
  once : LinkedOnce s.asked s.linked
  sockets : OwnSockets [] s.state
  commands : s.state.CommandsKept cfg

theorem Traffic.Settled.step {x y : Traffic} {a : Environment × Action} (h : x.Settled cfg)
    (hok : x.NamesExact cfg a) (hstep : x.step cfg a = some y) : y.Settled cfg := by
  obtain ⟨hkeeps, hexact⟩ := hok
  obtain ⟨env, action⟩ := a
  obtain ⟨t, ht, rfl⟩ := Option.map_eq_some_iff.mp hstep
  have hsockets : OwnSockets [] t := h.sockets.step ht
  have hcommands : t.CommandsKept cfg := commandsKept_step h.commands hkeeps ht
  cases action with
  | request socket line =>
    have hrun : t = (readRequest cfg env socket line x.state).2 := by
      unfold State.step at ht
      simp only at ht
      split at ht
      · split at ht
        · exact (Option.some.inj ht).symm
        · cases ht
      · cases ht
    subst hrun
    obtain ⟨hcovers, honce⟩ := h.covers.readRequest cfg env h.once hexact
    exact ⟨hcovers, honce, hsockets, hcommands⟩
  | connect | deliver | dispatch | tick =>
    have hcovers : Covers x.asked t := h.covers.step (by simp) (step_cases ht)
    exact ⟨hcovers, by simpa [requestedNames] using h.once, hsockets, hcommands⟩

theorem Traffic.Settled.exact {x : Traffic} (h : x.Settled cfg) : x.Exact cfg where
  once := h.once
  known := h.covers.known
  again c hc env := by
    have hnames : hasNames x.state.knownChannels c = true :=
      hasNames_of_self (h.covers.self c hc) ((h.covers.known c).mpr hc)
    exact ⟨by simp [registrations, hnames], monitorChannel_known hnames⟩
  lookups i r hr := h.covers.lookups (h.covers.pending i r hr)
  errors _ _ _ hrun := hrun.elim h.covers.satisfyRequests_ofSocket h.covers.processTimeouts_ofSocket
  returns _ hsockets := ⟨h.covers.satisfyRequests_returns h.sockets.once hsockets,
    h.covers.processTimeouts_returns h.sockets.once hsockets⟩
  commands := h.commands

/-- What one name does to a server that is settled: it is linked once and
asking again changes nothing exactly when the patterns find what they should. -/
theorem Traffic.Settled.name_iff {x : Traffic} (h : x.Settled cfg) (env : Environment)
    (c : String) :
    ((x.linked ++ registrations cfg env [c] x.state).count c = 1 ∧
        c ∈ (monitorChannel cfg env c x.state).2.knownChannels ∧
        registrations cfg env [c] (monitorChannel cfg env c x.state).2 = []) ↔
      globMatch c c = true ∧
        (c ∈ x.state.knownChannels ∨ ∀ k ∈ x.state.knownChannels.keys, globMatch c k = false) := by
  constructor
  · rintro ⟨honce, hknown, hagain⟩
    cases hnames : hasNames x.state.knownChannels c with
    | true =>
      rw [monitorChannel_known hnames] at hknown
      have hc : c ∈ x.asked := (h.covers.known c).mp hknown
      exact ⟨h.covers.self c hc, .inl hknown⟩
    | false =>
      have hnone : ∀ k ∈ x.state.knownChannels.keys, globMatch c k = false := by
        simpa [hasNames] using hnames
      refine ⟨?_, .inr hnone⟩
      -- asked for again, only the name itself can match
      have hmatch : hasNames (monitorChannel cfg env c x.state).2.knownChannels c = true := by
        cases hcase : hasNames (monitorChannel cfg env c x.state).2.knownChannels c with
        | true => rfl
        | false => simp [registrations, hcase] at hagain
      obtain ⟨k, hk, hck⟩ := List.any_eq_true.mp hmatch
      rcases (mem_monitorChannel cfg env h.covers.monitored.linked hnames k).mp hk with rfl | hk
      · exact hck
      · rw [hnone k hk] at hck
        cases hck
  · rintro ⟨hself, hnew⟩
    have hnew : c ∈ x.asked ∨ ∀ k ∈ x.state.knownChannels.keys, globMatch c k = false :=
      hnew.imp_left (h.covers.known c).mp
    have hexact : exactFor x.state.knownChannels.keys [c] = true := by
      simp only [exactFor, hself, Bool.true_and, Bool.and_true, Bool.or_eq_true, List.elem_eq_mem,
        decide_eq_true_eq, List.all_eq_true, Bool.not_eq_true']
      exact hnew.imp_left (h.covers.known c).mpr
    obtain ⟨-, -, honce⟩ :=
      h.covers.monitorChannels cfg env [c] h.once h.covers.known hexact
    have hcovers := h.covers.monitorChannel cfg env hself hnew
    have hknown := (hcovers.known c).mpr List.mem_cons_self
    have hnames := hasNames_of_self hself hknown
    refine ⟨?_, hknown, by simp [registrations, hnames]⟩
    simpa using honce c

/-- In every run whose requests name channels exactly and no commands, each name is linked
once, has its own entry and is looked up as it is, and the passes raise
nothing of their own. At the end of such a run this goes on for a further
name exactly when it matches itself and, unless it is known already,
nothing that is known. -/
theorem exact_names {as : List (Environment × Action)} {x : Traffic}
    (h : Run (Traffic.step cfg) (Traffic.NamesExact cfg) {} as x) :
    x.Exact cfg ∧ ∀ env c,
      ((x.linked ++ registrations cfg env [c] x.state).count c = 1 ∧
          c ∈ (monitorChannel cfg env c x.state).2.knownChannels ∧
          registrations cfg env [c] (monitorChannel cfg env c x.state).2 = []) ↔
        globMatch c c = true ∧
          (c ∈ x.state.knownChannels ∨
            ∀ k ∈ x.state.knownChannels.keys, globMatch c k = false) := by
  have hinit : Traffic.Settled cfg {} :=
    ⟨Covers.initial, fun c => by simp, OwnSockets.initial, fun _ hname => nomatch hname⟩
  have hsettled : x.Settled cfg := h.invariant (Traffic.Settled cfg) hinit
    fun _ _ _ hinv hexact hstep => hinv.step hexact hstep
  exact ⟨hsettled.exact, fun env c => hsettled.name_iff env c⟩

/-- Two names, one of them a pattern, and the pattern again. -/
def patternAgain : List (Environment × Action) :=
  [(calm, .connect), (calm, .connect), (calm, .connect), (calm, .request 0 "a*"),
    (calm, .request 1 "b"), (calm, .request 2 "a*")]

theorem exact_names_again :
    ∃ x, runChecked (Traffic.step plain) (Traffic.NamesExact plain) {} patternAgain = some x ∧
      x.asked = ["a*", "b", "a*"] ∧ x.linked = ["a*", "b"] ∧ x.Exact plain := by
  have hrun : (runChecked (Traffic.step plain) (Traffic.NamesExact plain) {} patternAgain).map
      (fun x => (x.asked, x.linked)) = some (["a*", "b", "a*"], ["a*", "b"]) := by decide +kernel
  obtain ⟨x, hx, hboth⟩ := Option.map_eq_some_iff.mp hrun
  obtain ⟨hasked, hlinked⟩ := Prod.mk.inj hboth
  exact ⟨x, hx, hasked, hlinked, (exact_names (run_of_runChecked patternAgain hx)).1⟩

/-- The error of a pass. -/
def passError : Except TclError Unit × State → Option TclError
  | (.error e, _) => some e
  | (.ok _, _) => none

/-- A name that another one matches is not linked, and then every pass fails
for its request; a name that does not match itself is linked again. -/
theorem names_taken_as_patterns :
    (∃ x, runAll (Traffic.step plain) {} [(calm, .connect), (calm, .connect),
        (calm, .request 0 "xy"), (calm, .request 1 "x?")] = some x ∧
      x.asked = ["x?", "xy"] ∧ x.linked = ["xy"] ∧
      passError (satisfyRequests plain calm x.state) =
        some (.noSuchElement "::knownChannels" "x?") ∧ ¬ x.Exact plain) ∧
    ∃ x, runAll (Traffic.step plain) {} [(calm, .connect), (calm, .connect),
        (calm, .request 0 "x[1]"), (calm, .request 1 "x[1]")] = some x ∧
      x.asked = ["x[1]", "x[1]"] ∧ x.linked = ["x[1]", "x[1]"] ∧ ¬ x.Exact plain := by
  constructor
  · have hrun : (runAll (Traffic.step plain) {} [(calm, .connect), (calm, .connect),
        (calm, .request 0 "xy"), (calm, .request 1 "x?")]).map
        (fun x => (x.asked, x.linked, passError (satisfyRequests plain calm x.state))) =
        some (["x?", "xy"], ["xy"], some (.noSuchElement "::knownChannels" "x?")) := by
      decide +kernel
    obtain ⟨x, hx, hall⟩ := Option.map_eq_some_iff.mp hrun
    simp only [Prod.mk.injEq] at hall
    obtain ⟨hasked, hlinked, herror⟩ := hall
    refine ⟨x, hx, hasked, hlinked, herror, fun hexact => ?_⟩
    have honce := hexact.once "x?"
    simp [hasked, hlinked] at honce
  · have hrun : (runAll (Traffic.step plain) {} [(calm, .connect), (calm, .connect),
        (calm, .request 0 "x[1]"), (calm, .request 1 "x[1]")]).map
        (fun x => (x.asked, x.linked)) = some (["x[1]", "x[1]"], ["x[1]", "x[1]"]) := by
      decide +kernel
    obtain ⟨x, hx, hall⟩ := Option.map_eq_some_iff.mp hrun
    simp only [Prod.mk.injEq] at hall
    obtain ⟨hasked, hlinked⟩ := hall
    refine ⟨x, hx, hasked, hlinked, fun hexact => ?_⟩
    have honce := hexact.once "x[1]"
    simp [hasked, hlinked] at honce

end EpicsTcl.Server
