/-
EpicsTcl.Widget.DispatchTheorems — which scripts one dispatch runs.

`DispatchScripts` walks through the ids that were registered when it began,
and looks each of them up when its turn comes. A script that has been removed
in between is still among the ids, and reading it raises an error: the
scripts after it do not run, and no further dispatch is scheduled.

§1 is the statement, §2 one dispatch (`dispatch_runs_all`).
-/
import EpicsTcl.Widget.PollTheorems
import Mathlib.Data.List.Count

namespace EpicsTcl.Widget

open EpicsTcl.Library EpicsTcl.Library.Script

/-! ## §1 Statement -/

/-- The scripts of a dispatch add and remove scripts, and do nothing else. -/
structure PollManager.Outside.OnlyEdits (o : PollManager.Outside) : Prop where
  raises : ∀ index script, (o.evaluation index script).raises = false
  calls : ∀ index script, ∀ c ∈ (o.evaluation index script).calls, c ≠ .start ∧ c ≠ .stop

/-- The scripts after these have had their turn. One that is gone by then does
not run. -/
def ScriptTable.after (o : PollManager.Outside) (tb : ScriptTable) : List String → ScriptTable
  | [] => tb
  | index :: rest =>
    match tb.scripts.lookup index with
    | none => tb.after o rest
    | some script => ((o.evaluation index script).calls.foldl ScriptTable.call tb).after o rest

namespace PollManager

/-- A script that is registered when the dispatch begins, and has not been
removed when its turn comes. -/
def Due (o : Outside) (s : PollManager) (index : String) : Prop :=
  ∃ before rest, o.order s.scripts.keys = before ++ index :: rest ∧
    index ∈ (s.scriptTable.after o before).scripts

/-- No script removes one that is still to come. -/
def NoneRemoved (o : Outside) (s : PollManager) : Prop :=
  ∀ before index rest, o.order s.scripts.keys = before ++ index :: rest →
    index ∈ (s.scriptTable.after o before).scripts

/-- What a dispatch should do: it runs what is due, once, and nothing else, and
schedules the next dispatch. -/
structure RunsAll (o : Outside) (s : PollManager) (result : Except PollError Unit × PollManager) :
    Prop where
  returns : result.1 = .ok ()
  once : ∀ index, s.Due o index →
    result.2.history.count (.dispatched index) = s.history.count (.dispatched index) + 1
  never : ∀ index, ¬ s.Due o index →
    result.2.history.count (.dispatched index) = s.history.count (.dispatched index)
  scheduled : ∃ timer, result.2.pending = s.pending ++ [timer] ∧ timer.ms = s.period ∧
    result.2.afterId = some timer.id

/-! ## §2 One dispatch -/

variable {o : Outside} {s t : PollManager}

/-- All the scripts of a list are there when their turn comes. -/
def AllThere (o : Outside) : ScriptTable → List String → Prop
  | _, [] => True
  | tb, index :: rest =>
    match tb.scripts.lookup index with
    | none => False
    | some script => AllThere o ((o.evaluation index script).calls.foldl ScriptTable.call tb) rest

theorem allThere_iff (names : List String) (tb : ScriptTable) :
    AllThere o tb names ↔ ∀ before index rest, names = before ++ index :: rest →
      index ∈ (tb.after o before).scripts := by
  induction names generalizing tb with
  | nil => simp [AllThere]
  | cons name names ih =>
    cases hscript : tb.scripts.lookup name with
    | none =>
      simp only [AllThere, hscript, false_iff]
      intro hall
      have hmem : name ∈ tb.scripts := hall [] name names rfl
      exact absurd hscript (by simpa [AList.lookup_eq_none] using hmem)
    | some script =>
      simp only [AllThere, hscript, ih]
      constructor
      · intro hall before index rest heq
        cases before with
        | nil =>
          cases heq
          exact AList.lookup_isSome.mp (by rw [ScriptTable.after, hscript]; rfl)
        | cons first before =>
          cases heq
          have hmem := hall before index rest rfl
          rw [ScriptTable.after]
          simpa only [hscript] using hmem
      · intro hall before index rest heq
        have hmem := hall (name :: before) index rest (by rw [heq]; rfl)
        rw [ScriptTable.after] at hmem
        simpa only [hscript] using hmem

/-- No call changes the period. -/
theorem call_period (c : Call) (s : PollManager) : (call c s).2.period = s.period := by
  cases c with
  | start =>
    show (start s).2.period = s.period
    cases h : s.afterId with
    | none => simp [start_none h, scheduled, noted]
    | some id => simp [start_some h, noted]
  | stop =>
    show (stop s).2.period = s.period
    cases h : s.afterId with
    | none => simp [stop_none h, noted]
    | some id => simp [stop_some h, noted]
  | add script => rfl
  | remove id =>
    show (remove id s).2.period = s.period
    rw [remove_snd]
    split <;> rfl

/-- The calls of a script that only adds and removes scripts. -/
theorem edits (calls : List Call) (h : ∀ c ∈ calls, c ≠ .start ∧ c ≠ .stop) (s : PollManager) :
    ∃ t, Script.forEach calls (fun c => do
        let _ ← Script.attempt (PollManager.call c)
        pure () : Call → Method Unit) s = (.ok (), t) ∧
      t.timing = s.timing ∧ t.period = s.period ∧
      t.scriptTable = calls.foldl ScriptTable.call s.scriptTable := by
  induction calls generalizing s with
  | nil => exact ⟨s, rfl, rfl, rfl, rfl⟩
  | cons c calls ih =>
    obtain ⟨t, hrun, htiming, hperiod, htable⟩ :=
      ih (fun c hc => h c (List.mem_cons_of_mem _ hc)) (call c s).2
    refine ⟨t, hrun, ?_, hperiod.trans (call_period c s), ?_⟩
    · rw [htiming, call_timing (h c List.mem_cons_self)]
    · rw [htable, call_scriptTable, List.foldl_cons]

/-- One script of such a dispatch. -/
theorem dispatch_edits (h : o.OnlyEdits) {index script : String}
    (hscript : s.scripts.lookup index = some script) :
    ∃ t, dispatch o index s = (.ok (), t) ∧
      t.history = .dispatched index :: s.history ∧ t.pending = s.pending ∧ t.period = s.period ∧
      t.scriptTable = (o.evaluation index script).calls.foldl ScriptTable.call s.scriptTable := by
  obtain ⟨t, hrun, htiming, hperiod, htable⟩ :=
    edits (o.evaluation index script).calls (h.calls index script) (s.noted (.dispatched index))
  simp only [timing, Prod.mk.injEq] at htiming
  refine ⟨t, ?_, htiming.2.2, htiming.2.1, hperiod, htable⟩
  rw [dispatch, bind_ok (show evaluates _ s = (.ok script, s) by simp [hscript]), eval,
    bind_ok (show record _ s = (.ok (), s.noted (.dispatched index)) from rfl), bind_ok hrun,
    h.raises]
  rfl

/-- The rest of a dispatch, if all its scripts are there. -/
theorem finish_edits (h : o.OnlyEdits) (names : List String)
    (hall : AllThere o s.scriptTable names) :
    ∃ t timer, finish o names s = (.ok (), t) ∧
      t.history = (names.map PollEvent.dispatched).reverse ++ s.history ∧
      t.pending = s.pending ++ [timer] ∧ timer.ms = s.period ∧ t.afterId = some timer.id := by
  induction names generalizing s with
  | nil => exact ⟨s.scheduled, ⟨s.nextTimer, s.period⟩, rfl, rfl, rfl, rfl, rfl⟩
  | cons index names ih =>
    cases hscript : s.scripts.lookup index with
    | none => simp [AllThere, scriptTable, hscript] at hall
    | some script =>
      obtain ⟨t, hrun, hhistory, hpending, hperiod, htable⟩ := dispatch_edits h hscript
      have hrest : AllThere o t.scriptTable names := by
        rw [htable]
        simpa only [AllThere, scriptTable, hscript] using hall
      obtain ⟨u, timer, hfinish, hhistory', hpending', hms, hafter⟩ := ih hrest
      refine ⟨u, timer, ?_, ?_, by rw [hpending', hpending], by rw [hms, hperiod], hafter⟩
      · rw [← hfinish, finish, bind_apply, forEach, bind_ok hrun, finish, bind_apply]
      · rw [hhistory', hhistory, List.map_cons, List.reverse_cons, List.append_assoc]
        rfl

/-- If one of them is gone, the dispatch raises. -/
theorem finish_raises (h : o.OnlyEdits) (names : List String)
    (hall : ¬ AllThere o s.scriptTable names) : (finish o names s).1 ≠ .ok () := by
  induction names generalizing s with
  | nil => exact absurd trivial hall
  | cons index names ih =>
    cases hscript : s.scripts.lookup index with
    | none =>
      have hbody : dispatch o index s = (.error (.noSuchElement "scripts" index), s) := by
        simp [dispatch, bind_apply, hscript]
      have hloop : Script.forEach (index :: names) (dispatch o) s =
          (.error (.noSuchElement "scripts" index), s) := bind_error hbody
      rw [finish, bind_error hloop]
      simp
    | some script =>
      obtain ⟨t, hrun, -, -, -, htable⟩ := dispatch_edits h hscript
      have hrest : ¬ AllThere o t.scriptTable names := by
        rw [htable]
        simpa only [AllThere, scriptTable, hscript] using hall
      have hstep : finish o (index :: names) s = finish o names t := by
        rw [finish, bind_apply, forEach, bind_ok hrun, finish, bind_apply]
      rw [hstep]
      exact ih hrest

/-- **One dispatch** runs every script that is due, once, and nothing else, and
schedules the next, exactly if no script removes one that is still to come. -/
theorem dispatch_runs_all (h : o.OnlyEdits) (s : PollManager) :
    RunsAll o s (dispatchScripts o s) ↔ NoneRemoved o s := by
  have hfinish : dispatchScripts o s = finish o (o.order s.scripts.keys) s := rfl
  rw [hfinish, NoneRemoved, ← allThere_iff]
  constructor
  · intro hruns
    by_contra hgone
    exact finish_raises h _ hgone hruns.returns
  · intro hall
    obtain ⟨t, timer, hrun, hhistory, hpending, hms, hafter⟩ := finish_edits h _ hall
    rw [hrun]
    have hnodup : (o.order s.scripts.keys).Nodup :=
      (o.order_perm _).nodup_iff.mpr s.scripts.nodupKeys
    have hcount (index : String) : t.history.count (.dispatched index) =
        (o.order s.scripts.keys).count index + s.history.count (.dispatched index) := by
      have hinjective : Function.Injective PollEvent.dispatched := fun _ _ heq => by cases heq; rfl
      rw [hhistory, List.count_append, List.count_reverse,
        List.count_map_of_injective _ _ hinjective]
    refine ⟨rfl, fun index hdue => ?_, fun index hnot => ?_, timer, hpending, hms, hafter⟩
    · obtain ⟨before, rest, heq, -⟩ := hdue
      have hmem : index ∈ o.order s.scripts.keys := by simp [heq]
      rw [hcount, List.count_eq_one_of_mem hnodup hmem, Nat.add_comm]
    · have hmem : index ∉ o.order s.scripts.keys := by
        intro hmem
        obtain ⟨before, rest, heq⟩ := List.append_of_mem hmem
        exact hnot ⟨before, rest, heq, (allThere_iff _ _).mp hall before index rest heq⟩
      rw [hcount, List.count_eq_zero_of_not_mem hmem, Nat.zero_add]

/-- The script `a` makes these calls, the others none. -/
def oneScript (calls : List Call) : Outside where
  evaluation _ script := ⟨if script = "a" then calls else [], false⟩

theorem oneScript_onlyEdits {calls : List Call} (h : ∀ c ∈ calls, c ≠ .start ∧ c ≠ .stop) :
    (oneScript calls).OnlyEdits where
  raises _ _ := rfl
  calls _ script c hc := by
    simp only [oneScript] at hc
    split at hc
    · exact h c hc
    · cases hc

/-- A manager with two scripts, when its first timer fires. The script that was
added last comes first. -/
def twoScripts : PollManager :=
  { self := "::polls"
    afterId := some 0
    scripts := (∅ : AList fun _ : String => String).insert "::polls_1" "b" |>.insert "::polls_2" "a"
    scriptSerial := 2
    nextTimer := 1
    history := [.started] }

/-- The first script removes itself and adds another: both scripts are run. -/
theorem dispatch_runs_all_twice :
    RunsAll (oneScript [.remove "::polls_2", .add "c"]) twoScripts
      (dispatchScripts (oneScript [.remove "::polls_2", .add "c"]) twoScripts) := by
  have hstays : NoneRemoved (oneScript [.remove "::polls_2", .add "c"]) twoScripts :=
    (allThere_iff _ _).mp trivial
  exact (dispatch_runs_all (oneScript_onlyEdits (by simp)) twoScripts).mpr hstays

/-- The first script removes the second: the dispatch raises an error and
schedules nothing. -/
theorem removed_script_raises :
    runAll step { self := "::polls" } [.call .start, .call (.add "b"), .call (.add "a")] =
        some { twoScripts with pending := [⟨0, 1000⟩] } ∧
      (dispatchScripts (oneScript [.remove "::polls_1"]) twoScripts).1 =
        .error (.noSuchElement "scripts" "::polls_1") ∧
      (dispatchScripts (oneScript [.remove "::polls_1"]) twoScripts).2.pending = [] ∧
      ¬ RunsAll (oneScript [.remove "::polls_1"]) twoScripts
        (dispatchScripts (oneScript [.remove "::polls_1"]) twoScripts) := by
  have hraises : (dispatchScripts (oneScript [.remove "::polls_1"]) twoScripts).1 =
      .error (.noSuchElement "scripts" "::polls_1") := by decide +kernel
  refine ⟨rfl, hraises, by decide +kernel, fun hruns => ?_⟩
  have hreturns := hruns.returns
  rw [hraises] at hreturns
  cases hreturns

end PollManager

end EpicsTcl.Widget
