/-
EpicsTcl.Widget.TypeNGoTheorems — does `-command` only see what `-validate`
has accepted?

`dispatch -command` reads the entry anew. So the two agree in exactly the runs
in which the entry still has the accepted text whenever the validation accepts
(`validated_commands`); a script that enters the event loop can break that.

`onChanged` of an `epicsTypeNGo` returns before anything else happens. What
leaving the entry restores is then what was last set or sent to the channel
(`epicsTypeNGo_restores`).
-/
import EpicsTcl.Library.Simulation
import EpicsTcl.Widget.TypeNGo

namespace EpicsTcl.Widget

open EpicsTcl.Library

variable {nonzero : Nonzero}

namespace TypeNGoProcess

variable {options : TypeNGoOptions} {s s' : TypeNGoProcess}

/-! ## Steps -/

@[simp] theorem dispatchCommand_accepted (s : TypeNGoProcess) :
    s.dispatchCommand.accepted = s.accepted := by
  unfold dispatchCommand
  split <;> rfl

@[simp] theorem dispatchCommand_options (s : TypeNGoProcess) :
    s.dispatchCommand.widget.options = s.widget.options := by
  unfold dispatchCommand
  split <;> rfl

/-- What a script that returns does. -/
theorem step_returns {result : String} (h : s.step nonzero (.returns result) = some s') :
    (∃ value frames, s.frames = .validate value :: frames ∧ condition nonzero result = some true ∧
      s' = { s with frames, accepted := s.accepted ++ [value] }.dispatchCommand) ∨
    (∃ value frames, s.frames = .validate value :: frames ∧ condition nonzero result ≠ some true ∧
      (s' = { s with frames } ∨ s' = { s with frames, widget := s.widget.restoreLast })) ∨
    ∃ value frames, s.frames = .command value :: frames ∧ s' = { s with frames }.commit := by
  simp only [step] at h
  split at h
  · cases h
  · next value frames hframes =>
    split at h
    · next htrue =>
      cases h
      exact .inl ⟨value, frames, hframes, htrue, rfl⟩
    · next hfalse =>
      cases h
      exact .inr (.inl ⟨value, frames, hframes, by simp [hfalse], .inr rfl⟩)
    · next hnone =>
      cases h
      exact .inr (.inl ⟨value, frames, hframes, by simp [hnone], .inl rfl⟩)
  · next value frames hframes =>
    cases h
    exact .inr (.inr ⟨value, frames, hframes, rfl⟩)

theorem step_raises (h : s.step nonzero .raises = some s') :
    ∃ frame frames, s.frames = frame :: frames ∧ s' = { s with frames } := by
  simp only [step] at h
  split at h <;> cases h
  next frame frames hframes => exact ⟨frame, frames, hframes, rfl⟩

/-! ## Accepted texts and commands -/

/-- A command is run for an accepted text, with what the entry has then. -/
theorem step_lists (hcommand : s.widget.options.command ≠ "")
    (hvalidate : s.widget.options.validate ≠ "") {a : TypeNGoAction}
    (h : s.step nonzero a = some s') :
    s'.widget.options = s.widget.options ∧
      ((s'.commands = s.commands ∧ s'.accepted = s.accepted ∧ s.Unchanged nonzero a) ∨
        ∃ value, (s.Unchanged nonzero a ↔ s.widget.get = value) ∧
          s'.commands = s.commands ++ [s.widget.get] ∧ s'.accepted = s.accepted ++ [value]) := by
  cases a with
  | type text =>
    cases h
    exact ⟨rfl, .inl ⟨rfl, rfl, trivial⟩⟩
  | focusOut =>
    cases h
    exact ⟨rfl, .inl ⟨rfl, rfl, trivial⟩⟩
  | set value =>
    cases h
    exact ⟨rfl, .inl ⟨rfl, rfl, trivial⟩⟩
  | invoke =>
    cases h
    rw [onClick, if_pos hvalidate]
    exact ⟨rfl, .inl ⟨rfl, rfl, trivial⟩⟩
  | returns result =>
    rcases step_returns h with ⟨value, frames, hframes, htrue, rfl⟩ |
      ⟨value, frames, hframes, hnot, rfl | rfl⟩ | ⟨value, frames, hframes, rfl⟩
    · refine ⟨by simp, .inr ⟨value, ?_, ?_, by simp⟩⟩
      · simp [Unchanged, hframes, htrue]
      · rw [dispatchCommand, if_pos hcommand]
    · exact ⟨rfl, .inl ⟨rfl, rfl, by simp [Unchanged, hframes, hnot]⟩⟩
    · exact ⟨rfl, .inl ⟨rfl, rfl, by simp [Unchanged, hframes, hnot]⟩⟩
    · exact ⟨rfl, .inl ⟨rfl, rfl, by simp [Unchanged, hframes]⟩⟩
  | raises =>
    obtain ⟨frame, frames, -, rfl⟩ := step_raises h
    exact ⟨rfl, .inl ⟨rfl, rfl, trivial⟩⟩

theorem commands_iff (hcommand : options.command ≠ "") (hvalidate : options.validate ≠ "")
    {as : List TypeNGoAction} (hrun : Run (step nonzero) Always (initial options) as s) :
    s.widget.options = options ∧ (s.commands = s.accepted ↔
      Run (step nonzero) (Unchanged nonzero) (initial options) as s) := by
  induction hrun with
  | nil => exact ⟨rfl, fun _ => .nil, fun _ => rfl⟩
  | @snoc as a s s' hrun _ hstep ih =>
    obtain ⟨hoptions, hiff⟩ := ih
    have hlast : Run (step nonzero) (Unchanged nonzero) (initial options) (as ++ [a]) s' ↔
        Run (step nonzero) (Unchanged nonzero) (initial options) as s ∧ s.Unchanged nonzero a := by
      refine ⟨fun h => ?_, fun h => .snoc h.1 h.2 hstep⟩
      obtain ⟨t, ht, hok, -⟩ := h.of_snoc
      rw [← ht.unique hrun]
      exact ⟨ht, hok⟩
    obtain ⟨hsame, hlists⟩ := step_lists (hoptions ▸ hcommand) (hoptions ▸ hvalidate) hstep
    refine ⟨hsame.trans hoptions, ?_⟩
    rw [hlast, ← hiff]
    rcases hlists with ⟨hcommands, haccepted, hok⟩ | ⟨value, hok, hcommands, haccepted⟩
    · rw [hcommands, haccepted]
      simp [hok]
    · rw [hcommands, haccepted, hok]
      refine ⟨fun h => ?_, fun h => by rw [h.1, h.2]⟩
      obtain ⟨heq, hvalue⟩ := List.append_inj' h rfl
      exact ⟨heq, List.singleton_inj.mp hvalue⟩

/-! ## The last value -/

/-- The texts that somebody has confirmed. -/
structure Confirms (s : TypeNGoProcess) : Prop where
  last : s.widget.lastValue = "" ∨ s.widget.lastValue ∈ s.assigned ∨
    s.widget.lastValue ∈ s.accepted
  running : ∀ value, .command value ∈ s.frames → value ∈ s.accepted

theorem Confirms.dispatchCommand (h : s.Confirms) (hget : s.widget.get ∈ s.accepted) :
    s.dispatchCommand.Confirms := by
  unfold TypeNGoProcess.dispatchCommand
  split
  · refine ⟨h.last, ?_⟩
    intro value hvalue
    rcases List.mem_cons.mp hvalue with heq | hvalue
    · cases heq
      exact hget
    · exact h.running value hvalue
  · exact ⟨.inr (.inr hget), h.running⟩

theorem Confirms.pop (h : s.Confirms) {frame : Dispatch} {frames : List Dispatch}
    (hframes : s.frames = frame :: frames) : Confirms { s with frames } :=
  ⟨h.last, fun value hvalue =>
    h.running value (by rw [hframes]; exact List.mem_cons_of_mem _ hvalue)⟩

theorem confirms_step (hvalidate : s.widget.options.validate ≠ "") (h : s.Confirms)
    {a : TypeNGoAction} (hok : s.Unchanged nonzero a ∧ s.Kept a)
    (hstep : s.step nonzero a = some s') : s'.Confirms := by
  cases a with
  | type text =>
    cases hstep
    exact ⟨h.last, h.running⟩
  | focusOut =>
    cases hstep
    exact ⟨h.last, h.running⟩
  | set value =>
    cases hstep
    exact ⟨.inr (.inl (by simp [TypeNGo.set])), h.running⟩
  | invoke =>
    cases hstep
    rw [onClick, if_pos hvalidate]
    refine ⟨h.last, ?_⟩
    intro value hvalue
    exact h.running value (by simpa using hvalue)
  | returns result =>
    obtain ⟨hunchanged, hkept⟩ := hok
    rcases step_returns hstep with ⟨value, frames, hframes, htrue, rfl⟩ |
      ⟨value, frames, hframes, hnot, rfl | rfl⟩ | ⟨value, frames, hframes, rfl⟩
    · have hget : s.widget.get = value := by
        simp only [Unchanged, hframes] at hunchanged
        exact hunchanged htrue
      refine Confirms.dispatchCommand ?_ (by simp [hget])
      have hpop := h.pop hframes
      refine ⟨hpop.last.imp id (Or.imp id fun hmem => List.mem_append_left _ hmem), ?_⟩
      exact fun v hv => List.mem_append_left _ (hpop.running v hv)
    · exact h.pop hframes
    · exact ⟨(h.pop hframes).last, (h.pop hframes).running⟩
    · have hget : s.widget.get = value := by
        simpa only [Kept, hframes] using hkept
      refine ⟨.inr (.inr ?_), (h.pop hframes).running⟩
      show s.widget.get ∈ s.accepted
      rw [hget]
      exact h.running value (by simp [hframes])
  | raises =>
    obtain ⟨frame, frames, hframes, rfl⟩ := step_raises hstep
    exact h.pop hframes

/-- **The command sees what was validated**, in exactly the runs in which the
entry still has the accepted text whenever the validation accepts one. If it
also still has it when the command returns, then the last value, which leaving
the entry restores, is an accepted text or one that a script has set. -/
theorem validated_commands (hcommand : options.command ≠ "") (hvalidate : options.validate ≠ "")
    {as : List TypeNGoAction} (hrun : Run (step nonzero) Always (initial options) as s) :
    (s.commands = s.accepted ↔ Run (step nonzero) (Unchanged nonzero) (initial options) as s) ∧
    (Run (step nonzero) (fun s a => s.Unchanged nonzero a ∧ s.Kept a) (initial options) as s →
      s.widget.lastValue = "" ∨ s.widget.lastValue ∈ s.assigned ∨
        s.widget.lastValue ∈ s.accepted) := by
  refine ⟨(commands_iff hcommand hvalidate hrun).2, fun hkept => ?_⟩
  have hinv : s.widget.options = options ∧ s.Confirms := by
    refine hkept.invariant (fun s => s.widget.options = options ∧ s.Confirms) ?_ ?_
    · exact ⟨rfl, .inl rfl, by simp [initial]⟩
    · intro s a s' ⟨hoptions, hs⟩ hok hstep
      refine ⟨?_, confirms_step (hoptions ▸ hvalidate) hs hok hstep⟩
      exact (step_lists (hoptions ▸ hcommand) (hoptions ▸ hvalidate) hstep).1.trans hoptions
  exact hinv.2.last

/-! A validation that lets the user type. -/

/-- It accepts everything, and one that lets the user type meanwhile. -/
def typedRun (text : String) : List TypeNGoAction :=
  [.type "1", .invoke, .type text, .returns "1", .returns ""]

theorem typedRun_ends (text : String) : ∃ s, Run (step fun _ => some true) Always
    (initial { command := "c", validate := "v" }) (typedRun text) s ∧
      s.accepted = ["1"] ∧ s.commands = [text] ∧ s.assigned = [] ∧ s.widget.lastValue = text :=
  ⟨_, run_iff_runAll.mpr rfl, rfl, rfl, rfl, rfl⟩

/-- The text stays as it was, or the command gets the new one. -/
theorem validated_commands_typed :
    (∃ s, Run (step fun _ => some true) (Unchanged fun _ => some true)
      (initial { command := "c", validate := "v" }) (typedRun "1") s) ∧
    ¬ ∃ s, Run (step fun _ => some true) (Unchanged fun _ => some true)
      (initial { command := "c", validate := "v" }) (typedRun "2") s := by
  obtain ⟨s, hs, haccepted, hcommands, -⟩ := typedRun_ends "1"
  obtain ⟨t, ht, haccepted', hcommands', -⟩ := typedRun_ends "2"
  refine ⟨⟨s, (validated_commands (by decide) (by decide) hs).1.mp ?_⟩, ?_⟩
  · rw [haccepted, hcommands]
  · intro hrun
    obtain ⟨u, hu⟩ := hrun
    rw [hu.unique ht] at hu
    have heq := (validated_commands (by decide) (by decide) ht).1.mpr hu
    rw [haccepted', hcommands'] at heq
    exact absurd heq (by decide)

end TypeNGoProcess

/-! ## epicsTypeNGo -/

namespace EpicsTypeNGo

variable {command : Option String} {validate : String} {s s' : EpicsTypeNGo}

/-- The text that was confirmed last. -/
def lastConfirmed (s : EpicsTypeNGo) : String := (s.confirmed.getLast?.map Confirmed.value).getD ""

/-- The texts for which the channel was connected, without those that are no
lists. -/
def received (s : EpicsTypeNGo) : List String :=
  (s.calls.filter fun call => call.2 = .connected && IsList call.1).map Prod.fst

structure EpicsInv (s : EpicsTypeNGo) : Prop where
  own : s.own = true
  command : s.base.widget.options.command ≠ ""
  idle : ∀ value, .command value ∉ s.base.frames
  last : s.base.widget.lastValue = s.lastConfirmed
  puts : s.puts = s.received
  calls : s.calls.map Prod.fst = s.base.commands

/-- Without a command to run, `onChanged` is not called. -/
theorem onChanged_idle (h : ∀ value, .command value ∉ s.base.frames) : s.onChanged = s := by
  unfold onChanged
  split
  · next value frames hframes => exact absurd (by simp [hframes]) (h value)
  · rfl

/-- What a call puts is what it adds to the texts received. -/
theorem received_call (s : EpicsTypeNGo) (value : String) :
    received { s with calls := s.calls ++ [(value, s.channel)] } =
      s.received ++ (s.channel.set value).getD [] := by
  cases hchannel : s.channel <;> cases hlist : IsList value <;>
    simp [received, ChannelState.set, hlist]

/-- `dispatch -command` and `onChanged`. -/
theorem EpicsInv.dispatched (h : s.EpicsInv) :
    (onChanged { s with base := s.base.dispatchCommand }).EpicsInv := by
  have hdispatch : s.base.dispatchCommand = { s.base with
      frames := .command s.base.widget.get :: s.base.frames
      commands := s.base.commands ++ [s.base.widget.get] } := by
    rw [TypeNGoProcess.dispatchCommand, if_pos h.command]
  have hreceived := received_call s s.base.widget.get
  have hcalls : (s.calls ++ [(s.base.widget.get, s.channel)]).map Prod.fst =
      s.base.commands ++ [s.base.widget.get] := by
    rw [List.map_append, h.calls]
    rfl
  rw [hdispatch]
  unfold onChanged
  dsimp only
  cases hset : s.channel.set s.base.widget.get with
  | some put =>
    rw [hset] at hreceived
    refine ⟨h.own, h.command, h.idle, ?_, ?_, hcalls⟩
    · simp [TypeNGoProcess.commit, lastConfirmed, Confirmed.value]
    · rw [h.puts]
      exact hreceived.symm
  | none =>
    rw [hset, Option.getD_none, List.append_nil] at hreceived
    exact ⟨h.own, h.command, h.idle, h.last, h.puts.trans hreceived.symm, hcalls⟩

/-- A step of the `typeNGo` in which no command is called. -/
theorem EpicsInv.quiet (h : s.EpicsInv) {base : TypeNGoProcess}
    (hoptions : base.widget.options = s.base.widget.options)
    (hframes : ∀ value, .command value ∉ base.frames) (hcommands : base.commands = s.base.commands)
    (hlast : base.widget.lastValue = s.base.widget.lastValue) :
    (onChanged { s with base }).EpicsInv := by
  rw [onChanged_idle (s := { s with base }) hframes]
  exact ⟨h.own, hoptions ▸ h.command, hframes, hlast.trans h.last, h.puts,
    h.calls.trans hcommands.symm⟩

theorem epicsInv_step (h : s.EpicsInv) {a : EpicsTypeNGoAction}
    (hstep : s.step nonzero a = some s') : s'.EpicsInv := by
  cases a with
  | channel state =>
    cases hstep
    exact ⟨h.own, h.command, h.idle, h.last, h.puts, h.calls⟩
  | base a =>
    obtain ⟨base, hbase, hs'⟩ := Option.map_eq_some_iff.mp hstep
    rw [if_pos h.own] at hs'
    subst hs'
    have hpop : ∀ frame frames, s.base.frames = frame :: frames →
        ∀ value, .command value ∉ frames :=
      fun frame frames hframes value hvalue =>
        h.idle value (by rw [hframes]; exact List.mem_cons_of_mem _ hvalue)
    cases a with
    | type text =>
      cases hbase
      exact h.quiet rfl h.idle rfl rfl
    | focusOut =>
      cases hbase
      exact h.quiet rfl h.idle rfl rfl
    | set value =>
      cases hbase
      have hset : EpicsInv { s with
          base := { s.base with
            widget := s.base.widget.set value, assigned := s.base.assigned ++ [value] }
          confirmed := recorded s.confirmed (.set value) } := by
        refine ⟨h.own, h.command, h.idle, ?_, h.puts, h.calls⟩
        simp [TypeNGo.set, lastConfirmed, Confirmed.value, recorded]
      rw [onChanged_idle hset.idle]
      exact hset
    | invoke =>
      cases hbase
      unfold TypeNGoProcess.onClick
      split
      · refine h.quiet rfl ?_ rfl rfl
        intro value hvalue
        exact h.idle value (by simpa using hvalue)
      · exact h.dispatched
    | returns result =>
      rcases TypeNGoProcess.step_returns hbase with ⟨value, frames, hframes, -, rfl⟩ |
        ⟨value, frames, hframes, -, rfl | rfl⟩ | ⟨value, frames, hframes, rfl⟩
      · have hpopped : EpicsInv { s with base := { s.base with
            frames, accepted := s.base.accepted ++ [value] } } :=
          ⟨h.own, h.command, hpop _ _ hframes, h.last, h.puts, h.calls⟩
        exact hpopped.dispatched
      · exact h.quiet rfl (hpop _ _ hframes) rfl rfl
      · exact h.quiet rfl (hpop _ _ hframes) rfl rfl
      · exact absurd (by simp [hframes]) (h.idle value)
    | raises =>
      obtain ⟨frame, frames, hframes, rfl⟩ := TypeNGoProcess.step_raises hbase
      exact h.quiet rfl (hpop _ _ hframes) rfl rfl

/-- The condition of `TypeNGoProcess.Unchanged`, for the `typeNGo` in it. -/
def Unchanged (nonzero : Nonzero) (s : EpicsTypeNGo) : EpicsTypeNGoAction → Prop
  | .base a => s.base.Unchanged nonzero a
  | .channel _ => True

/-- `onChanged` is a command that returns, or raises an error, at once. -/
theorem onChanged_follows (nonzero : Nonzero) (s : EpicsTypeNGo) :
    ∃ bs t, Run (TypeNGoProcess.step nonzero) (TypeNGoProcess.Unchanged nonzero) s.base bs t ∧
      t = s.onChanged.base := by
  unfold onChanged
  dsimp only
  split
  · next value frames hframes =>
    split
    · refine ⟨[.returns ""], _, .single ?_ ?_, rfl⟩
      · simp [TypeNGoProcess.Unchanged, hframes]
      · simp [TypeNGoProcess.step, hframes]
    · refine ⟨[.raises], _, .single trivial ?_, rfl⟩
      simp [TypeNGoProcess.step, hframes]
  · exact ⟨[], _, .nil, rfl⟩

/-- The `typeNGo` in it does what a `typeNGo` does. -/
theorem base_follows : Follows (step nonzero) (Unchanged nonzero) (TypeNGoProcess.step nonzero)
    (TypeNGoProcess.Unchanged nonzero) fun s t => t = s.base := by
  intro s a s' t h hok hstep
  subst h
  cases a with
  | channel state =>
    cases hstep
    exact ⟨[], _, .nil, rfl⟩
  | base a =>
    obtain ⟨base, hbase, hs'⟩ := Option.map_eq_some_iff.mp hstep
    have hfirst : Run (TypeNGoProcess.step nonzero) (TypeNGoProcess.Unchanged nonzero) s.base [a]
        base := .single hok hbase
    by_cases hown : s.own = true
    · rw [if_pos hown] at hs'
      subst hs'
      obtain ⟨bs, t, hrest, ht⟩ := onChanged_follows nonzero
        { s with base, confirmed := recorded s.confirmed a }
      exact ⟨_, t, hfirst.trans hrest, ht⟩
    · rw [if_neg hown] at hs'
      subst hs'
      exact ⟨_, _, hfirst, rfl⟩

/-- With a command of the caller, nothing is put. -/
theorem puts_of_step (h : s.own = false ∧ s.puts = []) {a : EpicsTypeNGoAction}
    (hstep : s.step nonzero a = some s') : s'.own = false ∧ s'.puts = [] := by
  cases a with
  | channel state =>
    cases hstep
    exact h
  | base a =>
    obtain ⟨base, -, hs'⟩ := Option.map_eq_some_iff.mp hstep
    rw [if_neg (by simp [h.1])] at hs'
    subst hs'
    exact h

/-- **What leaving the entry restores was set or given to the channel.** In every
run of a widget without a command of the caller, the last value is the text that
was last set by a script or accepted by `set` of the channel. The channel gets
the texts that `onChanged` is called for while it is connected, except those
that are no lists; and as long as the entry keeps a text that the validation
accepts until it does, the texts that `onChanged` is called for are the accepted
ones. A command of the caller replaces `onChanged`. -/
theorem epicsTypeNGo_restores {as : List EpicsTypeNGoAction}
    (hrun : Run (step nonzero) Always (initial command validate) as s) :
    (command = none →
      s.step nonzero (.base .focusOut) = some { s with base := { s.base with
        widget := { s.base.widget with
          entry := s.lastConfirmed, lastValue := s.lastConfirmed } } } ∧
      s.puts = s.received ∧
      (validate ≠ "" →
        Run (step nonzero) (Unchanged nonzero) (initial command validate) as s →
          s.calls.map Prod.fst = s.base.accepted)) ∧
    (command ≠ none → s.puts = []) := by
  constructor
  · rintro rfl
    have hinv : s.EpicsInv := by
      refine hrun.invariant EpicsInv ?_ fun s a s' h _ hstep => epicsInv_step h hstep
      exact ⟨rfl, by simp [initial, TypeNGoProcess.initial, baseOptions],
        by simp [initial, TypeNGoProcess.initial], rfl, rfl, rfl⟩
    refine ⟨?_, hinv.puts, ?_⟩
    · let left : EpicsTypeNGo :=
        { s with base := { s.base with widget := s.base.widget.restoreLast } }
      show some (if s.own then left.onChanged else left) = _
      rw [if_pos hinv.own, onChanged_idle (s := left) hinv.idle]
      simp only [left, TypeNGo.restoreLast, TypeNGo.set, hinv.last]
    · intro hvalidate hunchanged
      obtain ⟨bs, t, hbs, rfl⟩ := hunchanged.followed base_follows rfl
      have hcommands := (TypeNGoProcess.commands_iff (by simp [baseOptions]) hvalidate
        (hbs.mono fun _ _ _ => trivial)).2.mpr hbs
      rw [hinv.calls, hcommands]
  · intro hcommand
    have howned : (initial command validate).own = false := by
      simpa [initial] using Option.isSome_iff_ne_none.mpr hcommand
    exact (hrun.invariant (fun s => s.own = false ∧ s.puts = []) ⟨howned, rfl⟩
      fun s a s' h _ hstep => puts_of_step h hstep).2

/-- Two texts, the second one no list, and what the user leaves behind. -/
theorem epicsTypeNGo_restores_first :
    ∃ s : EpicsTypeNGo, s.puts = ["5"] ∧
      ∀ s', s.step (fun _ => none) (.base .focusOut) = some s' → s'.base.widget.entry = "5" := by
  have hrun : ∃ s, Run (step fun _ => none) Always (initial none "")
      [.channel .connected, .base (.type "5"), .base .invoke, .base (.type "\x7b"), .base .invoke,
        .base (.type "7")] s ∧ s.lastConfirmed = "5" ∧ s.received = ["5"] :=
    ⟨_, run_iff_runAll.mpr rfl, rfl, by decide⟩
  obtain ⟨s, hs, hlast, hreceived⟩ := hrun
  obtain ⟨hout, hputs, -⟩ := (epicsTypeNGo_restores hs).1 rfl
  refine ⟨s, hputs.trans hreceived, fun s' hs' => ?_⟩
  rw [hout] at hs'
  cases hs'
  exact hlast

end EpicsTypeNGo

end EpicsTcl.Widget
