/-
EpicsTcl.Widget.RadioTheorems — the two variables of a radio matrix.

The label shows the variable of `-variable`, the buttons show
`radioVariable`. The constructor copies the first to the second and nothing
does so later. So after a run the buttons show what was last put there by
`Set` or a click (`shown`), the variable holds what was last written
(`written`), and the two have to do with each other only as far as the
scripts see to it (`two_way_iff`).
-/
import EpicsTcl.Library.Runs
import EpicsTcl.Widget.LayoutTheorems

namespace EpicsTcl.Widget

open EpicsTcl.Library EpicsTcl.Library.Script

namespace Panel

/-! ## Statement -/

/-- A write of one of the values is followed by the buttons; at the end of a
click the variable has the value of the button. -/
def Follows (s : Panel) (e : PanelEvent) : Prop :=
  ∀ t, s.step e = some t →
    match e with
    | .write value => t.matrix.IsValue value → t.matrix.getValue = some t.tracked
    | .release button => t.tracked = button.value
    | _ => True

/-- What an event puts into `radioVariable`. -/
def shows : PanelEvent → Option String
  | .set value => some value
  | .press button => some button.value
  | _ => none

/-- What an event writes to the variable. -/
def writes : PanelEvent → Option String
  | .write value => some value
  | _ => none

/-- The value put into `radioVariable` last. -/
def shown (start : String) (as : List PanelEvent) : String :=
  ((as.filterMap shows).getLast?).getD start

/-- The value written last. -/
def written (start : String) (as : List PanelEvent) : String :=
  ((as.filterMap writes).getLast?).getD start

/-- The scripts see to it: a value is written that the buttons show already,
and before a click ends its value has been written. -/
def Agrees (matrix : RadioMatrix) (start : String) (before : List PanelEvent) :
    PanelEvent → Prop
  | .write value => matrix.IsValue value → value = shown start before
  | .release button => written start before = button.value
  | _ => True

/-! ## Runs -/

section Runs

variable {s t : Panel} {start : String} {as : List PanelEvent} {e : PanelEvent}

theorem shown_snoc (start : String) (as : List PanelEvent) (e : PanelEvent) :
    shown start (as ++ [e]) = (shows e).getD (shown start as) := by
  cases h : shows e <;> simp [shown, List.filterMap_append, h]

theorem written_snoc (start : String) (as : List PanelEvent) (e : PanelEvent) :
    written start (as ++ [e]) = (writes e).getD (written start as) := by
  cases h : writes e <;> simp [written, List.filterMap_append, h]

/-- **One event** changes at most one of the two variables. -/
theorem step_variables (h : s.step e = some t) :
    t.matrix.values = s.matrix.values ∧
      t.matrix.getValue = (shows e).or s.matrix.getValue ∧
      t.tracked = (writes e).getD s.tracked := by
  cases e with
  | write value =>
    cases h
    exact ⟨rfl, rfl, rfl⟩
  | set value =>
    cases h
    exact ⟨rfl, rfl, rfl⟩
  | press button =>
    simp only [step] at h
    split at h
    · cases h
      exact ⟨rfl, rfl, rfl⟩
    · cases h
  | release button =>
    simp only [step] at h
    split at h
    · cases h
    · split at h
      · cases h
        exact ⟨rfl, rfl, rfl⟩
      · cases h

/-- The two variables after a run. -/
structure Tracked (matrix : RadioMatrix) (start : String) (as : List PanelEvent) (s : Panel) :
    Prop where
  values : s.matrix.values = matrix.values
  buttons : s.matrix.getValue = some (shown start as)
  tracked : s.tracked = written start as

theorem tracked_of_run {matrix : RadioMatrix} (hstart : matrix.getValue = some start)
    (h : Run step Always ⟨matrix, start, []⟩ as s) : Tracked matrix start as s := by
  induction h with
  | nil => exact ⟨rfl, hstart, rfl⟩
  | @snoc as e s t _ _ hstep ih =>
    obtain ⟨hvalues, hbuttons, htracked⟩ := step_variables hstep
    refine ⟨hvalues.trans ih.values, ?_, ?_⟩
    · rw [hbuttons, ih.buttons, shown_snoc]
      cases shows e <;> rfl
    · rw [htracked, ih.tracked, written_snoc]

/-- What the claim says of an event, in terms of what came before. -/
theorem follows_iff {matrix : RadioMatrix} (h : Tracked matrix start as s)
    (hstep : s.step e = some t) : Follows s e ↔ Agrees matrix start as e := by
  obtain ⟨hvalues, hbuttons, htracked⟩ := step_variables hstep
  have hvalue (value : String) : t.matrix.IsValue value ↔ matrix.IsValue value := by
    rw [RadioMatrix.IsValue, RadioMatrix.IsValue, hvalues, h.values]
  simp only [Follows, hstep, Option.some.injEq, forall_eq']
  cases e with
  | write value =>
    simp only [Agrees, hvalue, hbuttons, htracked, shows, writes, Option.none_or, h.buttons,
      Option.getD_some, Option.some.injEq, eq_comm (a := value)]
  | release button =>
    simp only [Agrees, htracked, writes, h.tracked, Option.getD_none]
  | _ => exact Iff.rfl

end Runs

/-! ## Constructed widgets -/

/-- The constructor copies the variable. -/
theorem getValue_of_construct {n : Nat} {globals : String → String} {args : List RadioOption}
    {matrix : RadioMatrix} (h : RadioMatrix.construct n globals args = (.ok (), matrix))
    (hname : matrix.labelvar ≠ "") : matrix.getValue = some (globals matrix.labelvar) := by
  obtain ⟨⟨⟩, s₁, -, h⟩ := of_bind_ok h
  obtain ⟨⟨⟩, s₂, -, h⟩ := of_bind_ok h
  obtain ⟨⟨⟩, s₃, -, h⟩ := of_bind_ok h
  replace h := (bind_ok (reads_apply _ _)).symm.trans h
  obtain ⟨s₄, h⟩ : ∃ s₄, RadioMatrix.followLabel globals s₄ = (.ok (), matrix) := by
    by_cases hhorizontal : s₃.orient = "horizontal"
    · rw [if_pos hhorizontal] at h
      obtain ⟨⟨⟩, s₄, -, h⟩ := of_bind_ok h
      exact ⟨s₄, h⟩
    · rw [if_neg hhorizontal] at h
      by_cases hvertical : s₃.orient = "vertical"
      · rw [if_pos hvertical] at h
        obtain ⟨⟨⟩, s₄, -, h⟩ := of_bind_ok h
        exact ⟨s₄, h⟩
      · rw [if_neg hvertical] at h
        cases h
  replace h := (bind_ok (reads_apply _ _)).symm.trans h
  split at h
  · cases h
    rfl
  · next hempty =>
    cases h
    exact absurd hname hempty

/-- A widget that has just been constructed. -/
def initial (matrix : RadioMatrix) (globals : String → String) : Panel :=
  ⟨matrix, globals matrix.labelvar, []⟩

/-- **The association of the two variables**: in a run every event is followed as
it should be exactly if the scripts agree with it. -/
theorem two_way_iff {n : Nat} {globals : String → String} {args : List RadioOption}
    {matrix : RadioMatrix} {as : List PanelEvent} {s : Panel}
    (hbuild : RadioMatrix.construct n globals args = (.ok (), matrix))
    (hname : matrix.labelvar ≠ "") (hrun : Run step Always (initial matrix globals) as s) :
    Run step Follows (initial matrix globals) as s ↔
      ∀ before e after, as = before ++ e :: after →
        Agrees matrix (globals matrix.labelvar) before e := by
  have hstart := getValue_of_construct hbuild hname
  rw [hrun.iff_each]
  constructor
  · intro heach before e after heq
    obtain ⟨t, u, ht, hu, hfollows⟩ := heach before e after heq
    exact (follows_iff (tracked_of_run hstart ht) hu).mp hfollows
  · intro hagree before e after heq
    obtain ⟨t, u, ht, hu, -⟩ := hrun.iff_each.mp hrun before e after heq
    have hfollows := (follows_iff (tracked_of_run hstart ht) hu).mpr (hagree before e after heq)
    exact ⟨t, u, ht, hu, hfollows⟩

/-- Two buttons, and a variable that has the value of the first. -/
def twoButtons : Except (Stop RadioError) Unit × RadioMatrix :=
  RadioMatrix.construct 9 (fun _ => "on") [.values (some [["on"], ["off"]]), .variable "power"]

/-- The second button is clicked, and `-command` writes its value. -/
theorem two_way_iff_clicked :
    ∃ s, Run step Follows (initial twoButtons.2 fun _ => "on")
      [.press ⟨1, "off", "off", 0, 1⟩, .write "off", .release ⟨1, "off", "off", 0, 1⟩] s := by
  have hbuild : twoButtons = (.ok (), twoButtons.2) := Prod.ext (by decide) rfl
  have hrun : Run step Always (initial twoButtons.2 fun _ => "on")
      [.press ⟨1, "off", "off", 0, 1⟩, .write "off", .release ⟨1, "off", "off", 0, 1⟩] _ :=
    run_iff_runAll.mpr rfl
  refine ⟨_, (two_way_iff hbuild (by decide) hrun).mpr ?_⟩
  intro before e after hsplit
  rcases before with _ | ⟨_, _ | ⟨_, _ | ⟨_, before⟩⟩⟩
  · cases hsplit
    trivial
  · cases hsplit
    exact fun _ => rfl
  · cases hsplit
    rfl
  · simp at hsplit

/-- The variable is written, and the buttons show the old value. -/
theorem write_not_followed :
    ¬ ∀ (n : Nat) (globals : String → String) (args : List RadioOption) (matrix : RadioMatrix)
      (as : List PanelEvent) (s : Panel),
        RadioMatrix.construct n globals args = (.ok (), matrix) → matrix.labelvar ≠ "" →
          Run step Always (initial matrix globals) as s →
            Run step Follows (initial matrix globals) as s := by
  intro hall
  have hbuild : twoButtons = (.ok (), twoButtons.2) := Prod.ext (by decide) rfl
  have hrun : Run step Always (initial twoButtons.2 fun _ => "on") [.write "off"] _ :=
    run_iff_runAll.mpr rfl
  have heach := hrun.iff_each.mp (hall _ _ _ _ _ _ hbuild (by decide) hrun)
  obtain ⟨t, u, ht, hu, hfollows⟩ := heach [] _ [] rfl
  obtain rfl := ht.of_nil
  have hshown := hfollows _ rfl ⟨["off"], by decide, rfl⟩
  exact absurd hshown (by decide)

end Panel

end EpicsTcl.Widget
