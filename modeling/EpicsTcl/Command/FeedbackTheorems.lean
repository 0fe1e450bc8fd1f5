/-
EpicsTcl.Command.FeedbackTheorems — traffic from EPICS to Tcl and from Tcl
to EPICS.

A refresh turns off the trace of the variable it writes, and no other. So
EPICS updates stay out of Channel Access exactly as long as no variable
carries a second trace of a connected channel. The traces are those of the
link entries, and an entry is found by its name as a string; two names may
denote one variable. `Unshared` says that this does not matter: a variable
with a connected channel has one entry.

* `refresh_puts` — what a refresh of any number of variables puts;
* `setVar_puts` — what a write by a script puts;
* `WorldInv.noEcho_iff` — in a state that satisfies the structural
  invariant, refreshes are free of feedback exactly when it is `Unshared`;
* `feedback_free` — every run that links no variable under a second name
  stays free of feedback.
-/
import EpicsTcl.Command.LinkTable
import Mathlib.Data.Set.Function

namespace EpicsTcl.Command

open EpicsTcl.Channel EpicsTcl.Library

/-! ## Puts -/

/-- The puts among the calls made so far: channel and text. -/
def puts (ca : CaClient) : List (Nat × String) :=
  ca.calls.filterMap fun
    | .put _ chan value => some (chan, value)
    | _ => none

variable {ν : Type*} {resolve : String → ν}

/-- The puts of a trace that fires when its variable holds `value`. -/
def sends (objects : CommandId → Option CTCLChannelCommand) (value : String) (t : Trace ν) :
    List (Nat × String) :=
  match objects t.pChannel with
  | none => []
  | some c => if c.pChannel.fConnected then [(c.pChannel.nChannel, value)] else []

theorem fireTrace_puts {w : World ν} {t : Trace ν} {value : String}
    (hvalue : w.interp.vars (resolve t.sVariable) = some value) :
    puts (w.fireTrace resolve t).ca = puts w.ca ++ sends w.objects value t := by
  unfold World.fireTrace sends
  cases w.objects t.pChannel with
  | none => simp
  | some c =>
    by_cases hconn : c.pChannel.fConnected
    · simp [CChannel.assignString, hconn, CaClient.put, puts, hvalue]
    · simp [CChannel.assignString, hconn]

/-- The traces of one variable fire one after another. -/
theorem fireTraces_puts (ts : List (Trace ν)) {w : World ν} {value : String}
    (hvalue : ∀ t ∈ ts, w.interp.vars (resolve t.sVariable) = some value) :
    puts (ts.foldl (World.fireTrace resolve) w).ca =
      puts w.ca ++ ts.flatMap (sends w.objects value) := by
  induction ts generalizing w with
  | nil => simp
  | cons t ts ih =>
    obtain ⟨ca, hframe⟩ := World.fireTrace_frame resolve w t
    have hput := fireTrace_puts (hvalue t List.mem_cons_self)
    rw [hframe] at hput
    have hrest := ih (w := { w with ca }) fun u hu => hvalue u (List.mem_cons_of_mem _ hu)
    rw [List.foldl_cons, hframe, hrest, hput]
    simp

variable [DecidableEq ν]

/-- What a write puts: its text, for each trace enabled on the variable. -/
theorem setVar_puts {w : World ν} {target : ν} {value : String}
    (htraces : ∀ t ∈ w.interp.traces, t.target = resolve t.sVariable) :
    puts (w.setVar resolve target value).ca = puts w.ca ++
      (w.interp.traces.filter (·.target = target)).flatMap (sends w.objects value) := by
  refine fireTraces_puts _ fun t ht => ?_
  obtain ⟨ht, htarget⟩ := List.mem_filter.mp ht
  have htarget : t.target = target := by simpa using htarget
  rw [htraces t ht] at htarget
  simp [htarget]

namespace WorldInv

variable {w : World ν} {id : CommandId} {c : CTCLChannelCommand}

omit [DecidableEq ν] in
theorem trace_target (inv : WorldInv resolve w) :
    ∀ t ∈ w.interp.traces, t.target = resolve t.sVariable := by
  intro t ht
  obtain ⟨id, c, -, i, -, rfl⟩ := (inv.traces t).mp ht
  rfl

/-- A refresh of one variable puts what the other traces of the variable
send. -/
theorem newEpicsValue_puts (inv : WorldInv resolve w) {v : CChannelVariable}
    (hv : v.trace resolve ∈ w.interp.traces) (value : String) :
    WorldInv resolve (w.newEpicsValue resolve value v) ∧
      (w.newEpicsValue resolve value v).objects = w.objects ∧
      (w.newEpicsValue resolve value v).interp.traces.Perm w.interp.traces ∧
      puts (w.newEpicsValue resolve value v).ca = puts w.ca ++
        ((w.interp.traces.erase (v.trace resolve)).filter
          (·.target = resolve v.sVariable)).flatMap (sends w.objects value) := by
  obtain ⟨ca, hframe⟩ := World.newEpicsValue_frame resolve value w v
  have hperm := World.perm_cons_erase_erase inv.traces_nodup hv
  refine ⟨?_, ?_, ?_, ?_⟩
  · rw [hframe]
    exact inv.congr rfl rfl (fun _ => rfl) hperm
  · rw [hframe]
  · rw [hframe]
    exact hperm
  · exact setVar_puts (w := w.disableTracing resolve v) fun t ht =>
      inv.trace_target t (List.mem_of_mem_erase ht)

/-- **What a refresh puts**: nothing exactly when no other trace of the
refreshed variables sends anything. The induction is on the variables; the
traces stay the same up to their order. -/
theorem refresh_puts (inv : WorldInv resolve w) (value : String) (vs : List CChannelVariable)
    (hvs : ∀ v ∈ vs, v.trace resolve ∈ w.interp.traces) :
    ∃ sent, puts (vs.foldl (World.newEpicsValue resolve value) w).ca = puts w.ca ++ sent ∧
      (sent = [] ↔ ∀ v ∈ vs, ∀ t ∈ w.interp.traces, t.target = resolve v.sVariable →
        t ≠ v.trace resolve → sends w.objects value t = []) := by
  induction vs generalizing w with
  | nil => exact ⟨[], by simp, by simp⟩
  | cons v vs ih =>
    obtain ⟨inv', hobj, hperm, hput⟩ := inv.newEpicsValue_puts (hvs v List.mem_cons_self) value
    obtain ⟨sent, hsent, hiff⟩ := ih inv' fun u hu =>
      hperm.mem_iff.mpr (hvs u (List.mem_cons_of_mem _ hu))
    refine ⟨_, by rw [List.foldl_cons, hsent, hput, List.append_assoc], ?_⟩
    rw [List.append_eq_nil_iff, hiff, hobj, List.forall_mem_cons]
    refine and_congr ?_ ?_
    · simp only [List.flatMap_eq_nil_iff, List.mem_filter, inv.traces_nodup.mem_erase_iff,
        decide_eq_true_eq]
      constructor
      · intro h t ht htarget hne
        exact h t ⟨⟨hne, ht⟩, htarget⟩
      · rintro h t ⟨⟨hne, ht⟩, htarget⟩
        exact h t ht htarget hne
    · simp only [hperm.mem_iff]

end WorldInv

/-! ## Freedom from feedback -/

/-- Dispatching an EPICS update stores the channel's value in every linked
variable and puts nothing. -/
def NoEcho (resolve : String → ν) (w : World ν) : Prop :=
  ∀ id c, w.objects id = some c → ∃ w', w.updateLinkedVariable resolve id = some w' ∧
    (∀ i ∈ c.linkedVariables, w'.interp.vars (resolve i.varname) = some c.pChannel.getValue) ∧
    puts w'.ca = puts w.ca

/-- A write to a variable linked to a connected channel puts its text once,
on that channel. -/
def OnePut (resolve : String → ν) (w : World ν) : Prop :=
  ∀ id c, w.objects id = some c → c.pChannel.fConnected → ∀ i ∈ c.linkedVariables, ∀ value,
    puts (w.setVar resolve (resolve i.varname) value).ca =
      puts w.ca ++ [(c.pChannel.nChannel, value)]

/-- A variable that a connected channel is linked to has no other link
entry. -/
def Unshared (resolve : String → ν) (w : World ν) : Prop :=
  ∀ id c id' c', w.objects id = some c → w.objects id' = some c' → c'.pChannel.fConnected →
    ∀ i ∈ c.linkedVariables, ∀ i' ∈ c'.linkedVariables,
      resolve i.varname = resolve i'.varname → id = id' ∧ i.varname = i'.varname

namespace WorldInv

variable {w : World ν}

omit [DecidableEq ν] in
/-- Where no variable is shared, no trace but the own one sends anything. -/
theorem sends_nil (inv : WorldInv resolve w) (h : Unshared resolve w) {id : CommandId}
    {c : CTCLChannelCommand} (hc : w.objects id = some c) {i : VariableInfo}
    (hi : i ∈ c.linkedVariables) (value : String) {t : Trace ν} (ht : t ∈ w.interp.traces)
    (htarget : t.target = resolve i.varname) (hne : t ≠ i.pLinkedVar.trace resolve) :
    sends w.objects value t = [] := by
  obtain ⟨id', c', hc', i', hi', rfl⟩ := (inv.traces t).mp ht
  rw [inv.entry_trace hc' hi'] at htarget hne ⊢
  simp only [sends, hc']
  split
  · next hconn =>
    obtain ⟨rfl, hname⟩ := h _ _ _ _ hc hc' hconn i hi i' hi' htarget.symm
    rw [inv.entry_trace hc hi, hname] at hne
    exact absurd rfl hne
  · rfl

theorem noEcho_iff (inv : WorldInv resolve w) : NoEcho resolve w ↔ Unshared resolve w := by
  constructor
  · intro h id c id' c' hc hc' hconn i hi i' hi' heq
    obtain ⟨w', hw', -, hputs⟩ := h id c hc
    obtain ⟨sent, hsent, hiff⟩ := inv.refresh_puts c.pChannel.getValue
      (c.linkedVariables.map (·.pLinkedVar)) (inv.linked_traces hc)
    simp only [World.updateLinkedVariable, hc, Option.some.injEq] at hw'
    rw [hw', hputs] at hsent
    have hnil : sent = [] := by simpa using hsent.symm
    by_contra hne
    have hsends := hiff.mp hnil i.pLinkedVar (List.mem_map_of_mem hi)
      (i'.pLinkedVar.trace resolve) (inv.trace_mem hc' hi') ?_ ?_
    · rw [inv.entry_trace hc' hi'] at hsends
      simp [sends, hc', hconn] at hsends
    · rw [inv.entry_trace hc' hi', (inv.owned _ _ hc i hi).2]
      exact heq.symm
    · intro htrace
      rw [inv.entry_trace hc' hi', inv.entry_trace hc hi, Trace.mk.injEq] at htrace
      exact hne ⟨htrace.2.2.symm, htrace.2.1.symm⟩
  · intro h id c hc
    obtain ⟨vars, traces, ca, hrefresh, -, hvars⟩ := World.refresh_frame c.pChannel.getValue
      (c.linkedVariables.map (·.pLinkedVar)) w inv.traces_nodup (inv.linked_traces hc)
    obtain ⟨sent, hsent, hiff⟩ := inv.refresh_puts c.pChannel.getValue
      (c.linkedVariables.map (·.pLinkedVar)) (inv.linked_traces hc)
    have hnil : sent = [] := by
      refine hiff.mpr fun v hv t ht htarget hne => ?_
      obtain ⟨i, hi, rfl⟩ := List.mem_map.mp hv
      rw [(inv.owned _ _ hc i hi).2] at htarget
      exact inv.sends_nil h hc hi _ ht htarget hne
    refine ⟨_, by simp only [World.updateLinkedVariable, hc]; rfl, fun i hi => ?_, ?_⟩
    · rw [hrefresh]
      have hex : ∃ v ∈ c.linkedVariables.map (·.pLinkedVar),
          resolve v.sVariable = resolve i.varname :=
        ⟨i.pLinkedVar, List.mem_map_of_mem hi, by rw [(inv.owned _ _ hc i hi).2]⟩
      exact (hvars _).trans (if_pos hex)
    · rw [hsent, hnil, List.append_nil]

theorem onePut_of_unshared (inv : WorldInv resolve w) (h : Unshared resolve w) :
    OnePut resolve w := by
  intro id c hc hconn i hi value
  have hown := inv.entry_trace hc hi
  have hperm : (w.interp.traces.filter (·.target = resolve i.varname)).Perm
      (i.pLinkedVar.trace resolve :: (w.interp.traces.erase (i.pLinkedVar.trace resolve)).filter
        (·.target = resolve i.varname)) := by
    have h := (List.perm_cons_erase (inv.trace_mem hc hi)).filter (·.target = resolve i.varname)
    rwa [List.filter_cons_of_pos (by simp [hown])] at h
  have hrest : ((w.interp.traces.erase (i.pLinkedVar.trace resolve)).filter
      (·.target = resolve i.varname)).flatMap (sends w.objects value) = [] := by
    rw [List.flatMap_eq_nil_iff]
    intro t ht
    obtain ⟨ht, htarget⟩ := List.mem_filter.mp ht
    obtain ⟨hne, ht⟩ := inv.traces_nodup.mem_erase_iff.mp ht
    exact inv.sends_nil h hc hi value ht (by simpa using htarget) hne
  have hsent := hperm.flatMap_right (sends w.objects value)
  rw [List.flatMap_cons, hrest, hown, List.append_nil] at hsent
  have hone : (w.interp.traces.filter (·.target = resolve i.varname)).flatMap
      (sends w.objects value) = [(c.pChannel.nChannel, value)] :=
    List.perm_singleton.mp (by simpa [sends, hc, hconn] using hsent)
  rw [setVar_puts inv.trace_target, hone]

end WorldInv

/-! ## Runs -/

namespace World

omit [DecidableEq ν] in
/-- The variable names that some channel is linked to. -/
def linkedNames (w : World ν) : Set String := {u | ∃ n, (w.linkCount n u).isSome}

/-- No two linked names denote the same variable. -/
def Unaliased (resolve : String → ν) (w : World ν) : Prop := Set.InjOn resolve w.linkedNames

end World

/-- No variable is linked under a second name. -/
def OneName (resolve : String → ν) (w : World ν) : Action → Prop
  | .command (.link name varname) => (w.haveChannel name).isSome →
    ∀ u ∈ w.linkedNames, resolve u = resolve varname → u = varname
  | _ => True

namespace WorldInv

variable {w w' : World ν}

/-- Only `link` adds a name. -/
theorem step_linkedNames [CTCLObjectProcessor] [ChannelAccess] (inv : WorldInv resolve w)
    {a : Action} (h : w.step resolve a = some w') {u : String} (hu : u ∈ w'.linkedNames) :
    u ∈ w.linkedNames ∨
      ∃ name, a = .command (.link name u) ∧ (w.haveChannel name).isSome := by
  obtain ⟨n, hn⟩ := hu
  by_cases hlink : ∃ name varname, a = .command (.link name varname)
  · obtain ⟨name, varname, rfl⟩ := hlink
    cases h
    rcases inv.run_link_cases name varname with ⟨-, -, hsame⟩ | ⟨-, hname, -, hcount⟩
    · rw [hsame] at hn
      exact .inl ⟨n, hn⟩
    · rw [hcount] at hn
      by_cases heq : n = name ∧ u = varname
      · obtain ⟨-, rfl⟩ := heq
        exact .inr ⟨name, rfl, hname⟩
      · rw [if_neg heq] at hn
        exact .inl ⟨n, hn⟩
  by_cases hunlink : ∃ name varname, a = .command (.unlink name varname)
  · obtain ⟨name, varname, rfl⟩ := hunlink
    cases h
    rcases inv.run_unlink_cases name varname with ⟨-, -, hsame⟩ | ⟨-, k, hk, hcount⟩
    · rw [hsame] at hn
      exact .inl ⟨n, hn⟩
    · rw [hcount] at hn
      by_cases heq : n = name ∧ u = varname
      · obtain ⟨rfl, rfl⟩ := heq
        exact .inl ⟨n, by rw [hk]; rfl⟩
      · rw [if_neg heq] at hn
        exact .inl ⟨n, hn⟩
  by_cases hdelete : ∃ name, a = .command (.delete name)
  · obtain ⟨name, rfl⟩ := hdelete
    cases h
    rcases World.run_delete_cases resolve w name with heq | heq <;> rw [heq] at hn
    · exact .inl ⟨n, hn⟩
    rcases inv.deleteChannel_linkCount (getName name) with ⟨-, hsame⟩ | ⟨-, -, hcount⟩
    · rw [hsame] at hn
      exact .inl ⟨n, hn⟩
    · rw [hcount] at hn
      by_cases heq : n = getName name
      · simp [heq] at hn
      · rw [if_neg heq] at hn
        exact .inl ⟨n, hn⟩
  · rw [inv.step_linkCount h (fun n u heq => hlink ⟨n, u, heq⟩)
      (fun n u heq => hunlink ⟨n, u, heq⟩) fun n heq => hdelete ⟨n, heq⟩] at hn
    exact .inl ⟨n, hn⟩

theorem unaliased_step [CTCLObjectProcessor] [ChannelAccess] (inv : WorldInv resolve w)
    (hinj : w.Unaliased resolve) {a : Action} (hok : OneName resolve w a)
    (h : w.step resolve a = some w') : w'.Unaliased resolve := by
  intro u hu v hv heq
  rcases inv.step_linkedNames h hu with hu | ⟨name, rfl, hname⟩
  · rcases inv.step_linkedNames h hv with hv | ⟨name, rfl, hname⟩
    · exact hinj hu hv heq
    · exact hok hname u hu heq
  · rcases inv.step_linkedNames h hv with hv | ⟨name', heq', -⟩
    · exact (hok hname v hv heq.symm).symm
    · cases heq'
      rfl

omit [DecidableEq ν] in
theorem unshared_of_unaliased (inv : WorldInv resolve w) (h : w.Unaliased resolve) :
    Unshared resolve w := by
  intro id c id' c' hc hc' _ i hi i' hi' heq
  have hmem : ∀ {id c}, w.objects id = some c → ∀ i ∈ c.linkedVariables,
      i.varname ∈ w.linkedNames := by
    intro id c hc i hi
    exact ⟨c.name, inv.linkCount_isSome_iff.mpr ⟨id, c, hc, rfl, i, hi, rfl⟩⟩
  have hname := h (hmem hc i hi) (hmem hc' i' hi') heq
  exact ⟨inv.disjoint _ _ _ _ hc hc' i hi i' hi' hname, hname⟩

end WorldInv

/-- **EPICS and Tcl never feed each other** in a run that links no variable
under a second name; and in any reachable state they do not exactly when no
variable that a connected channel is linked to has another link entry. -/
theorem feedback_free [CTCLObjectProcessor] [ChannelAccess] (vars : ν → Option String) :
    (∀ as w, Run (World.step resolve) (OneName resolve) (World.initial vars) as w →
      NoEcho resolve w ∧ OnePut resolve w) ∧
    (∀ as w, Run (World.step resolve) Always (World.initial vars) as w →
      (NoEcho resolve w ∧ OnePut resolve w ↔ Unshared resolve w)) := by
  constructor
  · intro as w hrun
    have hinv : WorldInv resolve w ∧ w.Unaliased resolve := by
      refine hrun.invariant (fun w => WorldInv resolve w ∧ w.Unaliased resolve)
        ⟨WorldInv.initial vars, ?_⟩ ?_
      · rintro u ⟨n, hn⟩
        cases hn
      · rintro s a s' ⟨inv, hinj⟩ hok hstep
        exact ⟨inv.step hstep, inv.unaliased_step hinj hok hstep⟩
    have hunshared := hinv.1.unshared_of_unaliased hinv.2
    exact ⟨hinv.1.noEcho_iff.mpr hunshared, hinv.1.onePut_of_unshared hunshared⟩
  · intro as w hrun
    have inv := WorldInv.reachable hrun
    constructor
    · rintro ⟨hecho, -⟩
      exact inv.noEcho_iff.mp hecho
    · intro h
      exact ⟨inv.noEcho_iff.mpr h, inv.onePut_of_unshared h⟩

/-- Global variables, where "::x" is another name for "x". -/
def globalName (s : String) : String := if s = "::x" then "x" else s

attribute [local instance] CTCLObjectProcessor.global ChannelAccess.numbering

/-- A connected channel is linked to "x", then to "::x". -/
def aliasRun : List Action :=
  [.command (.epicschannel "a"), .connection 0 ⟨.connUp, dbfString⟩, .command (.link "a" "x"),
    .command (.link "a" "::x")]

/-- After `aliasRun` a refresh puts the value back to the channel, and a
script write is put twice. -/
theorem alias_feeds_back :
    ∃ w, Run (World.step globalName) Always (World.initial fun _ => none) aliasRun w ∧
      ¬ NoEcho globalName w ∧ ¬ OnePut globalName w := by
  refine ⟨_, run_iff_runAll.mpr (rfl : runAll _ _ aliasRun = some _), ?_, ?_⟩
  · intro h
    obtain ⟨w', hw', -, hputs⟩ := h 0 _ rfl
    cases hw'
    revert hputs
    decide
  · intro h
    have hputs := h 0 _ rfl rfl ⟨"x", ⟨"x", 0, 1⟩⟩ (by decide) "7"
    revert hputs
    decide

/-- Under their own names two variables of a connected channel do neither. -/
theorem feedback_free_two :
    ∃ w, Run (World.step id) (OneName id) (World.initial fun _ => none)
        (aliasRun.take 3 ++ [.command (.link "a" "y")]) w ∧
      NoEcho id w ∧ OnePut id w := by
  have hrun : Run (World.step id) Always (World.initial fun _ => none)
      (aliasRun.take 3 ++ [.command (.link "a" "y")]) _ := run_iff_runAll.mpr rfl
  have hok : ∀ (w : World String) a, OneName id w a := by
    intro w a
    unfold OneName
    split
    · exact fun _ u _ heq => heq
    · trivial
  exact ⟨_, hrun.mono fun w a _ => hok w a,
    (feedback_free _).1 _ _ (hrun.mono fun w a _ => hok w a)⟩

end EpicsTcl.Command
