/-
EpicsTcl.Widget.PollTheorems — when a poll manager is on or off, and when it
is neither.

`afterId` is the only record of the timer. While scripts run, and after an
error, it still names the timer that has fired, so `start` takes the manager
for running; and at the end of a dispatch it is overwritten, whether or not a
script has called `stop`. A `Phase` says what the scripts of a dispatch have
done to the timers so far, and `obeys` goes through the scripts of a
dispatch to see whether it comes to harm.

§1 is the statement, §2 the methods, §3 a dispatch, §4 the runs
(`on_or_off`).
-/
import EpicsTcl.Widget.PollManager
import EpicsTcl.Library.Runs

namespace EpicsTcl.Widget

open EpicsTcl.Library EpicsTcl.Library.Script EpicsTcl.Server

/-! ## §1 Statement -/

/-- The last call of `start` or `stop` was a `start`, and no script has raised
an error since. -/
def isOn : List PollEvent → Bool
  | [] => false
  | .started :: _ => true
  | .stopped :: _ => false
  | .raised _ :: _ => false
  | .dispatched _ :: earlier => isOn earlier

/-- Scripts are dispatched only while the manager is on. -/
def DispatchedOn (earlier : List PollEvent) : PollEvent → Prop
  | .dispatched _ => isOn earlier = true
  | _ => True

/-- One timer if it is on, none if not; and what was dispatched, was dispatched
while it was on. -/
structure OnOrOff (s : PollManager) : Prop where
  timers : s.pending.length = if isOn s.history then 1 else 0
  dispatches : Each DispatchedOn s.history

/-- What the scripts of a dispatch have called so far: no `stop`; a `stop`,
and no `start` since; a `start` after a `stop`. -/
inductive Phase where
  | first
  | stopped
  | again
  deriving DecidableEq, Repr

def Phase.call : Phase → Call → Phase
  | _, .stop => .stopped
  | .stopped, .start => .again
  | p, _ => p

/-- The scripts, as far as calls change them. -/
structure ScriptTable where
  self : String
  scriptSerial : Nat
  scripts : AList fun _ : String => String

def PollManager.scriptTable (s : PollManager) : ScriptTable := ⟨s.self, s.scriptSerial, s.scripts⟩

def ScriptTable.call (tb : ScriptTable) : Call → ScriptTable
  | .add script =>
    { tb with
      scriptSerial := tb.scriptSerial + 1
      scripts := tb.scripts.insert (tb.self ++ "_" ++ toString (tb.scriptSerial + 1)) script }
  | .remove id =>
    if hasNames tb.scripts id && (tb.scripts.lookup id).isSome then
      { tb with scripts := tb.scripts.erase id }
    else tb
  | .start | .stop => tb

/-- A dispatch does no harm from here on. It may end after its last script if
none has called `stop`; at a script that an earlier one has removed if one
has; and with an error unless one has started the manager again. No script
may come after a `stop`. -/
def obeys (o : PollManager.Outside) : Phase → ScriptTable → List String → Bool
  | p, _, [] => decide (p = .first)
  | p, tb, index :: rest =>
    match tb.scripts.lookup index with
    | none => decide (p ≠ .first)
    | some script =>
      let e := o.evaluation index script
      decide (p ≠ .stopped) &&
        if e.raises then decide (e.calls.foldl Phase.call p ≠ .again)
        else obeys o (e.calls.foldl Phase.call p) (e.calls.foldl ScriptTable.call tb) rest

/-- From outside, `start` is called while the manager is on or its `afterId` is
empty; a dispatch does no harm. -/
def Obeys (s : PollManager) : PollManager.Action → Prop
  | .call .start => isOn s.history = true ∨ s.afterId = none
  | .call _ => True
  | .fire _ o => obeys o .first s.scriptTable (o.order s.scripts.keys) = true

instance (s : PollManager) (a : PollManager.Action) : Decidable (Obeys s a) :=
  match a with
  | .call .start => inferInstanceAs (Decidable (_ ∨ _))
  | .call .stop | .call (.add _) | .call (.remove _) => inferInstanceAs (Decidable True)
  | .fire _ _ => inferInstanceAs (Decidable (_ = true))

/-- What a call adds to the history. -/
def Call.events : Call → List PollEvent
  | .start => [.started]
  | .stop => [.stopped]
  | .add _ | .remove _ => []

namespace PollManager

variable {s t : PollManager} {p : Phase} {o : Outside}

/-! ## §2 The methods -/

/-- A timer for `DispatchScripts` is made and noted. -/
def scheduled (s : PollManager) : PollManager :=
  { s with
    pending := s.pending ++ [⟨s.nextTimer, s.period⟩]
    nextTimer := s.nextTimer + 1
    afterId := some s.nextTimer }

theorem schedule_apply (s : PollManager) : schedule s = (.ok (), s.scheduled) := rfl

def noted (e : PollEvent) (s : PollManager) : PollManager := { s with history := e :: s.history }

theorem start_none (h : s.afterId = none) : start s = (.ok (), (s.noted .started).scheduled) := by
  simp [start, record, bind_apply, h, schedule_apply, noted, scheduled]

theorem start_some {id : Nat} (h : s.afterId = some id) : start s = (.ok (), s.noted .started) := by
  simp [start, record, bind_apply, h, noted]

theorem stop_none (h : s.afterId = none) : stop s = (.ok (), s.noted .stopped) := by
  simp [stop, record, bind_apply, h, noted]

theorem stop_some {id : Nat} (h : s.afterId = some id) :
    stop s = (.ok (), { s.noted .stopped with
      pending := s.pending.filter (·.id ≠ id)
      afterId := none }) := by
  simp [stop, record, cancel, bind_apply, h, noted]

/-- What `add` and `remove` leave alone. -/
def timing (s : PollManager) : Option Nat × List Timer × List PollEvent :=
  (s.afterId, s.pending, s.history)

theorem remove_snd (id : String) (s : PollManager) :
    (remove id s).2 =
      if hasNames s.scripts id && (s.scripts.lookup id).isSome then
        { s with scripts := s.scripts.erase id }
      else s := by
  unfold remove
  simp only [bind_apply, reads_apply]
  cases hasNames s.scripts id with
  | false => rfl
  | true =>
    cases hlookup : s.scripts.lookup id with
    | none => simp [bind_apply, hlookup]
    | some script => simp [bind_apply, hlookup]

/-- A call changes the scripts as `ScriptTable.call` says. -/
theorem call_scriptTable (c : Call) (s : PollManager) :
    (call c s).2.scriptTable = s.scriptTable.call c := by
  cases c with
  | start =>
    cases h : s.afterId with
    | none => simp [call, start_none h, scriptTable, ScriptTable.call, scheduled, noted]
    | some id => simp [call, start_some h, scriptTable, ScriptTable.call, noted]
  | stop =>
    cases h : s.afterId with
    | none => simp [call, stop_none h, scriptTable, ScriptTable.call, noted]
    | some id => simp [call, stop_some h, scriptTable, ScriptTable.call, noted]
  | add script => rfl
  | remove id =>
    show (remove id s).2.scriptTable = _
    rw [remove_snd]
    by_cases hfound : (hasNames s.scripts id && (s.scripts.lookup id).isSome) = true
    · rw [if_pos hfound]
      exact (if_pos hfound).symm
    · rw [if_neg hfound]
      exact (if_neg hfound).symm

/-- Where the timers are during a dispatch. -/
inductive During (s : PollManager) : Phase → Prop where
  | first (id : Nat) : s.afterId = some id → s.pending = [] → isOn s.history = true →
      During s .first
  | stopped : s.afterId = none → s.pending = [] → isOn s.history = false → During s .stopped
  | again (timer : Timer) : s.afterId = some timer.id → s.pending = [timer] →
      isOn s.history = true → During s .again

/-- Where they are between two events. -/
inductive Between (s : PollManager) : Prop where
  | polling (timer : Timer) : s.afterId = some timer.id → s.pending = [timer] →
      isOn s.history = true → Between s
  | idle : s.pending = [] → isOn s.history = false → Between s

theorem During.timing_eq (h : During s p) (heq : t.timing = s.timing) : During t p := by
  simp only [timing, Prod.mk.injEq] at heq
  obtain ⟨hafter, hpending, hhistory⟩ := heq
  cases h with
  | first id ha hp ho => exact .first id (hafter.trans ha) (hpending.trans hp) (hhistory ▸ ho)
  | stopped ha hp ho => exact .stopped (hafter.trans ha) (hpending.trans hp) (hhistory ▸ ho)
  | again timer ha hp ho => exact .again timer (hafter.trans ha) (hpending.trans hp) (hhistory ▸ ho)

/-- `add` and `remove` do nothing to the timers. -/
theorem call_timing {c : Call} (h : c ≠ .start ∧ c ≠ .stop) (s : PollManager) :
    (call c s).2.timing = s.timing := by
  cases c with
  | start => exact absurd rfl h.1
  | stop => exact absurd rfl h.2
  | add script => rfl
  | remove id =>
    show (remove id s).2.timing = _
    rw [remove_snd]
    split <;> rfl

theorem call_history (c : Call) (s : PollManager) :
    (call c s).2.history = c.events ++ s.history := by
  cases c with
  | start =>
    show (start s).2.history = _
    cases h : s.afterId with
    | none => simp [start_none h, scheduled, noted, Call.events]
    | some id => simp [start_some h, noted, Call.events]
  | stop =>
    show (stop s).2.history = _
    cases h : s.afterId with
    | none => simp [stop_none h, noted, Call.events]
    | some id => simp [stop_some h, noted, Call.events]
  | add script => rfl
  | remove id =>
    show (remove id s).2.history = _
    rw [remove_snd]
    split <;> rfl

/-- A call within a dispatch. -/
theorem During.call (h : During s p) (c : Call) : During (PollManager.call c s).2 (p.call c) := by
  cases c with
  | add script =>
    have hphase : p.call (.add script) = p := by cases p <;> rfl
    rw [hphase]
    exact h.timing_eq (call_timing (by simp) s)
  | remove id =>
    have hphase : p.call (.remove id) = p := by cases p <;> rfl
    rw [hphase]
    exact h.timing_eq (call_timing (by simp) s)
  | start =>
    show During (start s).2 _
    cases h with
    | first id ha hp ho =>
      rw [start_some ha]
      exact .first id ha hp rfl
    | stopped ha hp ho =>
      rw [start_none ha]
      exact .again ⟨s.nextTimer, s.period⟩ rfl (by simp [scheduled, noted, hp]) rfl
    | again timer ha hp ho =>
      rw [start_some ha]
      exact .again timer ha hp rfl
  | stop =>
    show During (stop s).2 _
    cases h with
    | first id ha hp ho =>
      rw [stop_some ha]
      exact .stopped rfl (by simp [hp]) rfl
    | stopped ha hp ho =>
      rw [stop_none ha]
      exact .stopped ha hp rfl
    | again timer ha hp ho =>
      rw [stop_some ha]
      exact .stopped rfl (by simp [hp]) rfl

/-! ## §3 A dispatch -/

/-- The history grows. -/
def Grows : Effect PollManager where
  rel s t := s.history <:+ t.history
  refl _ := List.suffix_rfl
  trans h h' := h.trans h'

theorem grows_record (e : PollEvent) : Within Grows (record e) := fun _ => List.suffix_cons _ _

theorem grows_call (c : Call) : Within Grows (call c) := by
  intro s
  show s.history <:+ (call c s).2.history
  rw [call_history]
  exact List.suffix_append _ _

theorem grows_eval (id : String) (e : Evaluation) : Within Grows (eval id e) := by
  refine .bind (grows_record _) fun _ => .bind (.forEach fun c _ => ?_) fun _ => ?_
  · exact .bind (.attempt (grows_call c)) fun _ => .pure ()
  · split
    · exact .bind (grows_record _) fun _ => .raise _
    · exact .pure ()

theorem grows_dispatch (o : Outside) (index : String) : Within Grows (dispatch o index) :=
  .bind (.evaluates _) fun _ => grows_eval _ _

/-- A dispatch that has some scripts still to come. -/
def finish (o : Outside) (rest : List String) : Method Unit := do
  .forEach rest (dispatch o)
  schedule

theorem grows_finish (o : Outside) (rest : List String) : Within Grows (finish o rest) :=
  .bind (.forEach fun index _ => grows_dispatch o index) fun _ _ => List.suffix_rfl

/-- Calls are not dispatches. -/
theorem each_call (c : Call) (h : Each DispatchedOn s.history) :
    Each DispatchedOn (call c s).2.history := by
  rw [call_history]
  cases c with
  | start => exact ⟨trivial, h⟩
  | stop => exact ⟨trivial, h⟩
  | add script => exact h
  | remove id => exact h

/-- The calls of one script. -/
theorem During.calls (h : During s p) (calls : List Call) :
    ∃ t, Script.forEach calls (fun c => do
        let _ ← Script.attempt (PollManager.call c)
        pure () : Call → Method Unit) s = (.ok (), t) ∧
      During t (calls.foldl Phase.call p) ∧
      t.scriptTable = calls.foldl ScriptTable.call s.scriptTable ∧
      s.history <:+ t.history ∧ (Each DispatchedOn s.history → Each DispatchedOn t.history) := by
  induction calls generalizing s p with
  | nil => exact ⟨s, rfl, h, rfl, List.suffix_rfl, id⟩
  | cons c calls ih =>
    obtain ⟨t, hrun, hduring, htable, hgrows, heach⟩ := ih (h.call c)
    refine ⟨t, ?_, hduring, ?_, (grows_call c s).trans hgrows, fun hs => heach (each_call c hs)⟩
    · rw [← hrun]
      rfl
    · rw [htable, call_scriptTable, List.foldl_cons]

/-- One script of a dispatch, and what comes after it. -/
theorem finish_cons (h : During s p) {index script : String} (rest : List String)
    (hscript : s.scripts.lookup index = some script) :
    ∃ t, During t ((o.evaluation index script).calls.foldl Phase.call p) ∧
      t.scriptTable = (o.evaluation index script).calls.foldl ScriptTable.call s.scriptTable ∧
      (s.noted (.dispatched index)).history <:+ t.history ∧
      (Each DispatchedOn (s.noted (.dispatched index)).history → Each DispatchedOn t.history) ∧
      (finish o (index :: rest) s).2 =
        if (o.evaluation index script).raises then t.noted (.raised index)
        else (finish o rest t).2 := by
  have hnoted : During (s.noted (.dispatched index)) p := by
    cases h with
    | first id ha hp ho => exact .first id ha hp ho
    | stopped ha hp ho => exact .stopped ha hp ho
    | again timer ha hp ho => exact .again timer ha hp ho
  obtain ⟨t, hrun, hduring, htable, hgrows, heach⟩ := hnoted.calls (o.evaluation index script).calls
  refine ⟨t, hduring, htable, hgrows, heach, ?_⟩
  have hbody : dispatch o index s =
      if (o.evaluation index script).raises then (.error (.raised index), t.noted (.raised index))
      else (.ok (), t) := by
    rw [dispatch, bind_ok (show evaluates _ s = (.ok script, s) by simp [hscript]), eval,
      bind_ok (show record _ s = (.ok (), s.noted (.dispatched index)) from rfl), bind_ok hrun]
    split <;> rfl
  cases hraises : (o.evaluation index script).raises with
  | true =>
    rw [hraises, if_pos rfl] at hbody
    have hloop : Script.forEach (index :: rest) (dispatch o) s =
        (.error (.raised index), t.noted (.raised index)) := bind_error hbody
    rw [finish, bind_error hloop, if_pos rfl]
  | false =>
    rw [hraises, if_neg Bool.false_ne_true] at hbody
    have hloop : Script.forEach (index :: rest) (dispatch o) s =
        Script.forEach rest (dispatch o) t := bind_ok hbody
    rw [finish, bind_apply, hloop, if_neg Bool.false_ne_true, finish, bind_apply]

theorem onOrOff_between (h : Between s) (heach : Each DispatchedOn s.history) : OnOrOff s where
  timers := by
    cases h with
    | polling timer _ hp ho => simp [hp, ho]
    | idle hp ho => simp [hp, ho]
  dispatches := heach

/-- How a dispatch ends that has no script left. -/
theorem finish_nil (h : During s p) :
    (p = .first → Between s.scheduled) ∧ (OnOrOff s.scheduled → p = .first) := by
  cases h with
  | first id ha hp ho =>
    exact ⟨fun _ => .polling ⟨s.nextTimer, s.period⟩ rfl (by simp [scheduled, hp]) ho, fun _ => rfl⟩
  | stopped ha hp ho =>
    refine ⟨fun h => absurd h (by simp), fun h => ?_⟩
    have htimers := h.timers
    simp [scheduled, hp, ho] at htimers
  | again timer ha hp ho =>
    refine ⟨fun h => absurd h (by simp), fun h => ?_⟩
    have htimers := h.timers
    simp [scheduled, hp, ho] at htimers

/-- How it ends at a script that is gone. -/
theorem finish_gone (h : During s p) :
    (p ≠ .first → Between s) ∧ (OnOrOff s → p ≠ .first) := by
  cases h with
  | first id ha hp ho =>
    refine ⟨fun h => absurd rfl h, fun h => ?_⟩
    have htimers := h.timers
    simp [hp, ho] at htimers
  | stopped ha hp ho => exact ⟨fun _ => .idle hp ho, fun _ => by simp⟩
  | again timer ha hp ho => exact ⟨fun _ => .polling timer ha hp ho, fun _ => by simp⟩

/-- How it ends with an error of a script. -/
theorem finish_raised (h : During s p) (id : String) :
    (p ≠ .again → Between (s.noted (.raised id))) ∧
      (OnOrOff (s.noted (.raised id)) → p ≠ .again) := by
  cases h with
  | first id ha hp ho => exact ⟨fun _ => .idle hp rfl, fun _ => by simp⟩
  | stopped ha hp ho => exact ⟨fun _ => .idle hp rfl, fun _ => by simp⟩
  | again timer ha hp ho =>
    refine ⟨fun h => absurd rfl h, fun h => ?_⟩
    have htimers := h.timers
    simp [noted, hp, isOn] at htimers

/-- **A dispatch**, from any script on: the manager is on or off afterwards
exactly if the rest of the scripts obeys. -/
theorem finish_iff (rest : List String) (h : During s p) (heach : Each DispatchedOn s.history) :
    (obeys o p s.scriptTable rest = true →
      Between (finish o rest s).2 ∧ Each DispatchedOn (finish o rest s).2.history) ∧
    (OnOrOff (finish o rest s).2 → obeys o p s.scriptTable rest = true) := by
  induction rest generalizing s p with
  | nil =>
    obtain ⟨hgood, hbad⟩ := finish_nil h
    have hend : (finish o [] s).2 = s.scheduled := rfl
    rw [hend]
    simp only [obeys, decide_eq_true_eq]
    exact ⟨fun hp => ⟨hgood hp, heach⟩, hbad⟩
  | cons index rest ih =>
    cases hscript : s.scripts.lookup index with
    | none =>
      have hbody : dispatch o index s = (.error (.noSuchElement "scripts" index), s) := by
        simp [dispatch, bind_apply, hscript]
      have hend : (finish o (index :: rest) s).2 = s := by
        have hloop : Script.forEach (index :: rest) (dispatch o) s =
            (.error (.noSuchElement "scripts" index), s) := bind_error hbody
        rw [finish, bind_error hloop]
      obtain ⟨hgood, hbad⟩ := finish_gone h
      rw [hend]
      simp only [obeys, scriptTable, hscript, decide_eq_true_eq]
      exact ⟨fun hp => ⟨hgood hp, heach⟩, hbad⟩
    | some script =>
      obtain ⟨t, hduring, htable, hgrows, heach', hend⟩ := finish_cons (o := o) h rest hscript
      have hobeys : obeys o p s.scriptTable (index :: rest) =
          (decide (p ≠ .stopped) && if (o.evaluation index script).raises then
            decide ((o.evaluation index script).calls.foldl Phase.call p ≠ .again)
          else obeys o ((o.evaluation index script).calls.foldl Phase.call p) t.scriptTable
            rest) := by
        rw [obeys, htable]
        simp only [scriptTable, hscript]
      rw [hobeys, hend]
      by_cases hstop : p = .stopped
      · -- a script after a `stop`: that is out of order for good
        refine ⟨fun hp => absurd hp (by simp [hstop]), fun hbad => ?_⟩
        have hlast : t.history <:+ (if (o.evaluation index script).raises = true then
            t.noted (.raised index) else (finish o rest t).2).history := by
          split
          · exact List.suffix_cons _ _
          · exact grows_finish o rest t
        have hon := (hbad.dispatches.of_suffix (hgrows.trans hlast)).1
        subst hstop
        cases h with
        | stopped ha hp ho =>
          have hon : isOn s.history = true := hon
          rw [ho] at hon
          cases hon
      · have hon : isOn s.history = true := by
          cases h with
          | first id ha hp ho => exact ho
          | stopped => exact absurd rfl hstop
          | again timer ha hp ho => exact ho
        have hlog : Each DispatchedOn t.history := heach' ⟨hon, heach⟩
        simp only [ne_eq, hstop, not_false_eq_true, decide_true, Bool.true_and]
        split
        · obtain ⟨hgood, hbad⟩ := finish_raised hduring index
          simp only [decide_eq_true_eq]
          exact ⟨fun hp => ⟨hgood hp, trivial, hlog⟩, hbad⟩
        · exact ih hduring hlog

/-! ## §4 Runs -/

theorem Between.timing_eq (h : Between s) (heq : t.timing = s.timing) : Between t := by
  simp only [timing, Prod.mk.injEq] at heq
  obtain ⟨hafter, hpending, hhistory⟩ := heq
  cases h with
  | polling timer ha hp ho =>
    exact .polling timer (hafter.trans ha) (hpending.trans hp) (hhistory ▸ ho)
  | idle hp ho => exact .idle (hpending.trans hp) (hhistory ▸ ho)

/-- `start` from outside a dispatch. -/
theorem Between.start_iff (h : Between s) :
    ((isOn s.history = true ∨ s.afterId = none) → Between (start s).2) ∧
      (OnOrOff (start s).2 → isOn s.history = true ∨ s.afterId = none) := by
  cases h with
  | polling timer ha hp ho =>
    rw [start_some ha]
    exact ⟨fun _ => .polling timer ha hp rfl, fun _ => .inl ho⟩
  | idle hp ho =>
    cases ha : s.afterId with
    | none =>
      rw [start_none ha]
      exact ⟨fun _ => .polling ⟨s.nextTimer, s.period⟩ rfl (by simp [scheduled, noted, hp]) rfl,
        fun _ => .inr rfl⟩
    | some id =>
      rw [start_some ha]
      refine ⟨fun hobeys => by simp [ho] at hobeys, fun h => ?_⟩
      have htimers := h.timers
      simp [noted, hp, isOn] at htimers

theorem Between.stop (h : Between s) : Between (stop s).2 := by
  cases ha : s.afterId with
  | none =>
    rw [stop_none ha]
    cases h with
    | polling timer hafter =>
      rw [ha] at hafter
      cases hafter
    | idle hp ho => exact .idle hp rfl
  | some id =>
    rw [stop_some ha]
    cases h with
    | polling timer hafter hp ho =>
      rw [ha] at hafter
      cases hafter
      exact .idle (by simp [hp]) rfl
    | idle hp ho => exact .idle (by simp [hp]) rfl

/-- **One step**: from between two events, the manager is on or off after it
exactly if the step obeys. -/
theorem step_iff {a : Action} (h : Between s) (heach : Each DispatchedOn s.history)
    (hstep : s.step a = some t) :
    (Obeys s a → Between t ∧ Each DispatchedOn t.history) ∧ (OnOrOff t → Obeys s a) := by
  cases a with
  | call c =>
    cases hstep
    have hlog := each_call c heach
    cases c with
    | start =>
      obtain ⟨hgood, hbad⟩ := h.start_iff
      exact ⟨fun hobeys => ⟨hgood hobeys, hlog⟩, hbad⟩
    | stop => exact ⟨fun _ => ⟨h.stop, hlog⟩, fun _ => trivial⟩
    | add script => exact ⟨fun _ => ⟨h.timing_eq (call_timing (by simp) s), hlog⟩, fun _ => trivial⟩
    | remove id => exact ⟨fun _ => ⟨h.timing_eq (call_timing (by simp) s), hlog⟩, fun _ => trivial⟩
  | fire id o =>
    simp only [step] at hstep
    split at hstep
    · next hpending =>
      cases hstep
      cases h with
      | polling timer ha hp ho =>
        have hid : timer.id = id := by simpa [hp] using hpending
        have hduring : During { s with pending := s.pending.filter (·.id ≠ id) } .first :=
          .first timer.id ha (by simp [hp, hid]) ho
        exact finish_iff (o := o) (o.order s.scripts.keys) hduring heach
      | idle hp ho => simp [hp] at hpending
    · cases hstep

/-- **On or off**: in every run whose steps obey, and after one more step
exactly if that obeys, too. -/
theorem on_or_off {self : String} {period : Int} {as : List Action}
    (h : Run step Obeys { self, period } as s) :
    OnOrOff s ∧ ∀ a t, s.step a = some t → (OnOrOff t ↔ Obeys s a) := by
  have hboth : Between s ∧ Each DispatchedOn s.history :=
    h.invariant (fun s => Between s ∧ Each DispatchedOn s.history) ⟨.idle rfl rfl, trivial⟩
      fun _ _ _ hinv hobeys hstep => (step_iff hinv.1 hinv.2 hstep).1 hobeys
  refine ⟨onOrOff_between hboth.1 hboth.2, fun a t hstep => ?_⟩
  obtain ⟨hgood, hbad⟩ := step_iff hboth.1 hboth.2 hstep
  exact ⟨hbad, fun hobeys => onOrOff_between (hgood hobeys).1 (hgood hobeys).2⟩

/-- Every script makes these calls. -/
def everyScript (calls : List Call) (raises : Bool) : Outside where
  evaluation _ _ := ⟨calls, raises⟩

/-- A dispatch, a `stop`, and an error of a script that has called `stop`. -/
theorem on_or_off_again :
    ∃ s : PollManager, s.pending = [⟨3, 1000⟩] ∧ OnOrOff s ∧
      ∀ a t, s.step a = some t → (OnOrOff t ↔ Obeys s a) := by
  have hrun : (runChecked step Obeys { self := "::polls", period := 1000 }
      [.call .start, .call (.add "poll"), .fire 0 (everyScript [.start, .add "more"] false),
        .call .stop, .call .start, .fire 2 (everyScript [.stop] true), .call .start]).map
      (·.pending) = some [⟨3, 1000⟩] := by decide +kernel
  obtain ⟨s, hs, hpending⟩ := Option.map_eq_some_iff.mp hrun
  exact ⟨s, hpending, on_or_off (run_of_runChecked _ hs)⟩

/-- After an error `start` does nothing; after a `stop` by a script the timer
is made all the same; and if that script starts the manager again, there are
two. -/
theorem neither_on_nor_off :
    (∃ s, Run step Always { self := "::polls" }
        [.call .start, .call (.add "poll"), .fire 0 (everyScript [] true), .call .start] s ∧
      isOn s.history = true ∧ s.pending = [] ∧ ¬ OnOrOff s) ∧
    (∃ s, Run step Always { self := "::polls" }
        [.call .start, .call (.add "poll"), .fire 0 (everyScript [.stop] false)] s ∧
      isOn s.history = false ∧ s.pending = [⟨1, 1000⟩] ∧ ¬ OnOrOff s) ∧
    (∃ s, Run step Always { self := "::polls" }
        [.call .start, .call (.add "poll"), .fire 0 (everyScript [.stop, .start] false)] s ∧
      isOn s.history = true ∧ s.pending = [⟨1, 1000⟩, ⟨2, 1000⟩] ∧ ¬ OnOrOff s) := by
  refine ⟨⟨_, run_iff_runAll.mpr rfl, rfl, rfl, fun h => ?_⟩,
    ⟨_, run_iff_runAll.mpr rfl, rfl, rfl, fun h => ?_⟩,
    ⟨_, run_iff_runAll.mpr rfl, rfl, rfl, fun h => ?_⟩⟩
  · exact absurd h.timers (by decide +kernel)
  · exact absurd h.timers (by decide +kernel)
  · exact absurd h.timers (by decide +kernel)

end PollManager

end EpicsTcl.Widget
