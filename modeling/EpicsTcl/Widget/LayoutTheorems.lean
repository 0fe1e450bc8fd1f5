/-
EpicsTcl.Widget.LayoutTheorems — the layout of a radio matrix, and when the
constructor comes to an end.

Both layouts fill line after line (`arrange`), so value `i` is in line
`i / perLine` at place `i % perLine` (`arrange_returns`). If a line has no
places the outer loop makes no progress (`arrange_running`).

§1 are the loops, §2 the whole constructor, §3 the layouts
(`laid_out_completely`), §4 the two orientations (`never_mirrored`), §5 the
end of the constructor (`construction_ends`).
-/
import EpicsTcl.Widget.RadioMatrix
import Mathlib.Algebra.Order.Floor.Div
import Mathlib.Algebra.Order.Ring.Int
import Mathlib.Tactic.Linarith

namespace EpicsTcl.Widget

open EpicsTcl.Library EpicsTcl.Library.Script

/-- The button of value `index` in a cell. -/
def buttonAt (index : Nat) (item : List String) (cell : Nat × Nat) : Button :=
  ⟨index, (labelled item).1, (labelled item).2, cell.1, cell.2⟩

/-- The buttons of all values, in order. `cellOf` is the cell of a value. -/
def layout (values : List (List String)) (cellOf : Nat → Nat × Nat) : List Button :=
  values.mapIdx fun index item => buttonAt index item (cellOf index)

theorem layout_take_succ {values : List (List String)} {index : Nat} {item : List String}
    (h : values[index]? = some item) (cellOf : Nat → Nat × Nat) :
    layout (values.take (index + 1)) cellOf =
      layout (values.take index) cellOf ++ [buttonAt index item (cellOf index)] := by
  have hlength : (values.take index).length = index := by
    have hlt := (List.getElem?_eq_some_iff.mp h).1
    rw [List.length_take]
    omega
  rw [layout, List.take_add_one, h, Option.toList_some, List.mapIdx_concat, hlength, layout]

namespace RadioMatrix

variable {s : RadioMatrix} {values : List (List String)} {n per line index : Nat}
  {cell : Nat → Nat → Nat × Nat}

/-! ## §1 The loops -/

/-- The buttons that have been laid out so far. -/
def withButtons (s : RadioMatrix) (buttons : List Button) : RadioMatrix :=
  { s with buttons := s.buttons ++ buttons }

/-- The cell of a value if every line has `per` places. -/
def cellOf (per : Nat) (cell : Nat → Nat → Nat × Nat) (index : Nat) : Nat × Nat :=
  cell (index / per) (index % per)

/-- One line: it takes the next `per` values, or as many as there are. -/
theorem fillLine_returns (hn : per < n) (hline : line * per ≤ values.length) :
    fillLine n values per (cell line) (line * per)
        (s.withButtons (layout (values.take (line * per)) (cellOf per cell))) =
      (.ok (min (line * per + per) values.length),
        s.withButtons (layout (values.take (line * per + per)) (cellOf per cell))) := by
  have hloop : ∃ index t, fillLine n values per (cell line) (line * per)
      (s.withButtons (layout (values.take (line * per)) (cellOf per cell))) = (.ok index, t) ∧
        index = min (line * per + per) values.length ∧
        t = s.withButtons (layout (values.take (line * per + per)) (cellOf per cell)) := by
    refine loop_returns
      (fun b t => b.2 = line * per + b.1 ∧ b.1 ≤ per ∧ b.2 ≤ values.length ∧
        t = s.withButtons (layout (values.take b.2) (cellOf per cell)))
      (fun index t => index = min (line * per + per) values.length ∧
        t = s.withButtons (layout (values.take (line * per + per)) (cellOf per cell)))
      (fun b => per - b.1) ?_ ⟨rfl, Nat.zero_le _, hline, rfl⟩ (by simpa using hn)
    rintro ⟨i, index⟩ t ⟨hindex, hi, hlength, rfl⟩
    simp only at hindex hi hlength ⊢
    rcases Nat.lt_or_eq_of_le hi with hlt | rfl
    · rw [if_pos (by exact_mod_cast hlt)]
      cases hitem : values[index]? with
      | none =>
        -- the values are used up
        have hall : values.length ≤ index := List.getElem?_eq_none_iff.mp hitem
        refine .inl ⟨index, _, rfl, by omega, ?_⟩
        rw [List.take_of_length_le hall, List.take_of_length_le (by omega)]
      | some item =>
        have hcell : cell line i = cellOf per cell index := by
          have hpos : 0 < per := Nat.lt_of_le_of_lt (Nat.zero_le i) hlt
          rw [cellOf, hindex, Nat.mul_comm, Nat.mul_add_div hpos, Nat.div_eq_of_lt hlt,
            Nat.mul_add_mod, Nat.mod_eq_of_lt hlt, Nat.add_zero]
        have hsome := (List.getElem?_eq_some_iff.mp hitem).1
        refine .inr ⟨(i + 1, index + 1), _, rfl, ⟨by omega, hlt, hsome, ?_⟩, by simp only; omega⟩
        rw [layout_take_succ hitem, ← hcell]
        simp [withButtons, buttonAt]
    · rw [if_neg (by simp)]
      refine .inl ⟨index, _, rfl, by omega, by rw [hindex]⟩
  obtain ⟨index, t, hrun, rfl, rfl⟩ := hloop
  exact hrun

/-- **All lines**: value `i` is in line `i / per` at place `i % per`. -/
theorem arrange_returns (hper : values ≠ [] → 0 < per) (hn : per < n)
    (hlength : values.length < n) :
    arrange n values per cell s = (.ok (), s.withButtons (layout values (cellOf per cell))) := by
  have hloop : ∃ c t, arrange n values per cell s = (.ok c, t) ∧
      t = s.withButtons (layout values (cellOf per cell)) := by
    refine loop_returns
      (fun b t => b.1 = min (b.2 * per) values.length ∧
        t = s.withButtons (layout (values.take b.1) (cellOf per cell)))
      (fun _ t => t = s.withButtons (layout values (cellOf per cell)))
      (fun b => values.length - b.1) ?_ ⟨by simp, by simp [withButtons, layout]⟩
      (by simpa using hlength)
    rintro ⟨index, line⟩ t ⟨hindex, rfl⟩
    simp only at hindex ⊢
    by_cases hmore : index < values.length
    · rw [if_pos hmore]
      have hpos : 0 < per := hper (List.ne_nil_of_length_pos (by omega))
      have hline : index = line * per := by omega
      have hle : line * per ≤ values.length := by omega
      subst hline
      refine .inr ⟨(min (line * per + per) values.length, line + 1), _,
        bind_ok (fillLine_returns hn hle), ⟨?_, ?_⟩, ?_⟩
      · rw [Nat.succ_mul]
      · rcases Nat.le_total (line * per + per) values.length with hle | hle
        · rw [Nat.min_eq_left hle]
        · rw [Nat.min_eq_right hle, List.take_of_length_le hle, List.take_length]
      · show values.length - min (line * per + per) values.length < values.length - line * per
        omega
    · rw [if_neg hmore]
      have hall : values.length ≤ index := Nat.le_of_not_lt hmore
      exact .inl ⟨(), _, rfl, by rw [List.take_of_length_le hall]⟩
  obtain ⟨⟨⟩, t, hrun, rfl⟩ := hloop
  exact hrun

/-- Lines without places. -/
theorem arrange_running {per : Int} (hper : per ≤ 0) (hvalues : values ≠ []) (n : Nat)
    (cell : Nat → Nat → Nat × Nat) (s : RadioMatrix) :
    (arrange n values per cell s).1 = .error .running := by
  cases n with
  | zero => rfl
  | succ n =>
    refine loop_running (fun b _ => b.1 = 0) ?_ rfl _
    rintro ⟨index, line⟩ t hindex
    simp only at hindex ⊢
    rw [hindex, if_pos (List.length_pos_of_ne_nil hvalues)]
    have hline : fillLine (n + 1) values per (cell line) 0 t = (.ok 0, t) := by
      refine loop_left ?_
      simp only
      rw [if_neg (by simpa using hper)]
      rfl
    exact ⟨(0, line + 1), t, bind_ok hline, rfl⟩

/-! ## §2 The constructor -/

/-- The options that pass the check. -/
def Admitted (s : RadioMatrix) : Prop :=
  (s.values = none → s.rows ≠ none ∧ s.columns ≠ none) ∧
    (s.values ≠ none → s.rows = none ∨ s.columns = none)

theorem check_cases (s : RadioMatrix) :
    (Admitted s ∧ errorIfConstraintsNotMet s = (.ok (), s)) ∨
      (¬ Admitted s ∧ ∃ message,
        errorIfConstraintsNotMet s = (.error (.raised (.script message)), s)) := by
  simp only [errorIfConstraintsNotMet, error, bind_apply, reads_apply]
  by_cases hvalues : s.values = none
  · by_cases hempty : s.rows = none ∨ s.columns = none
    · rw [if_pos ⟨hvalues, hempty⟩]
      refine .inr ⟨fun hadmitted => ?_, _, rfl⟩
      have hboth := hadmitted.1 hvalues
      exact hempty.elim hboth.1 hboth.2
    · rw [if_neg fun h => hempty h.2, if_neg fun h => h.2 hvalues]
      exact .inl ⟨⟨fun _ => not_or.mp hempty, fun h => absurd hvalues h⟩, rfl⟩
  · rw [if_neg fun h => hvalues h.1]
    by_cases hboth : s.rows ≠ none ∧ s.columns ≠ none
    · rw [if_pos ⟨hboth, hvalues⟩]
      refine .inr ⟨fun hadmitted => ?_, _, rfl⟩
      exact (hadmitted.2 hvalues).elim hboth.1 hboth.2
    · rw [if_neg fun h => hboth h.1]
      refine .inl ⟨⟨fun h => absurd h hvalues, fun _ => ?_⟩, rfl⟩
      rwa [not_and_or, not_ne_iff, not_ne_iff] at hboth

theorem admitted_of_check (h : errorIfConstraintsNotMet s = (.ok (), s)) : Admitted s := by
  rcases check_cases s with ⟨hadmitted, -⟩ | ⟨-, message, hraises⟩
  · exact hadmitted
  · rw [h] at hraises
    cases hraises

theorem admitted_of_values (hvalues : s.values = some values)
    (hone : s.rows = none ∨ s.columns = none) : Admitted s :=
  ⟨fun hnone => absurd (hvalues.symm.trans hnone) (Option.some_ne_none _), fun _ => hone⟩

/-- The values that the constructor makes up. -/
def madeUp (n : Nat) : Option (List (List String)) :=
  if n = 0 then none else some ((List.range n).map fun i => [toString i])

theorem madeUp_getD (n : Nat) : (madeUp n).getD [] = (List.range n).map fun i => [toString i] := by
  unfold madeUp
  split
  · next h => simp [h]
  · rfl

theorem madeUp_succ (n : Nat) :
    some ((madeUp n).getD [] ++ [[toString n]]) = madeUp (n + 1) := by
  rw [madeUp_getD]
  simp [madeUp, List.range_succ]

/-- The matrix when its values are known. -/
def filled (s : RadioMatrix) : RadioMatrix :=
  match s.values, s.columns, s.rows with
  | none, some columns, some rows => { s with values := madeUp (columns * rows).toNat }
  | _, _, _ => s

theorem filled_of_values (h : s.values = some values) : s.filled = s := by simp [filled, h]

/-- The values that are laid out. -/
def laidValues (s : RadioMatrix) : List (List String) := s.filled.values.getD []

/-- A round of the loop that makes up values. -/
def fillRound (total : Int) (i : Nat) : Method (Nat ⊕ Unit) :=
  if (i : Int) < total then do
    lappend i
    pure (.inl (i + 1))
  else pure (.inr ())

theorem fillValues_none {rows columns : Int} (hvalues : s.values = none)
    (hrows : s.rows = some rows) (hcolumns : s.columns = some columns) (n : Nat) :
    fillValues n s = Script.loop (fillRound (columns * rows)) n 0 s := by
  simp only [fillValues, bind_apply, reads_apply, hvalues, hrows, hcolumns]
  rfl

theorem fillValues_returns (h : Admitted s) (hn : s.laidValues.length < n) :
    fillValues n s = (.ok (), s.filled) := by
  cases hvalues : s.values with
  | some values =>
    rw [filled_of_values hvalues]
    simp [fillValues, bind_apply, hvalues]
  | none =>
    obtain ⟨hrows, hcolumns⟩ := h.1 hvalues
    obtain ⟨rows, hrows⟩ := Option.ne_none_iff_exists'.mp hrows
    obtain ⟨columns, hcolumns⟩ := Option.ne_none_iff_exists'.mp hcolumns
    have hfilled : s.filled = { s with values := madeUp (columns * rows).toNat } := by
      simp [filled, hvalues, hcolumns, hrows]
    have hlength : s.laidValues.length = (columns * rows).toNat := by
      rw [laidValues, hfilled, madeUp_getD, List.length_map, List.length_range]
    have hmade : { s with values := madeUp 0 } = s := by rw [madeUp, if_pos rfl, ← hvalues]
    have hloop : ∃ c t, Script.loop (fillRound (columns * rows)) n 0 s = (.ok c, t) ∧
        t = s.filled := by
      refine loop_returns
        (fun i t => i ≤ (columns * rows).toNat ∧ t = { s with values := madeUp i })
        (fun _ t => t = s.filled) (fun i => (columns * rows).toNat - i) ?_
        ⟨Nat.zero_le _, hmade.symm⟩ (by omega)
      rintro i t ⟨hi, rfl⟩
      by_cases hmore : (i : Int) < columns * rows
      · rw [fillRound, if_pos hmore]
        refine .inr ⟨i + 1, _, rfl, ⟨by omega, ?_⟩, by omega⟩
        exact congrArg (fun values => { s with values }) (madeUp_succ i)
      · rw [fillRound, if_neg hmore]
        have hend : i = (columns * rows).toNat := by omega
        exact .inl ⟨(), _, rfl, by rw [hfilled, hend]⟩
    obtain ⟨⟨⟩, t, hrun, rfl⟩ := hloop
    rw [fillValues_none hvalues hrows hcolumns, hrun]

/-- More rounds make no difference to values that have been made up. -/
theorem fillValues_stable {m : Nat} (h : Admitted s) (hends : (fillValues n s).1 ≠ .error .running)
    (hle : n ≤ m) : fillValues m s = fillValues n s := by
  cases hvalues : s.values with
  | some values => simp [fillValues, bind_apply, hvalues]
  | none =>
    obtain ⟨hrows, hcolumns⟩ := h.1 hvalues
    obtain ⟨rows, hrows⟩ := Option.ne_none_iff_exists'.mp hrows
    obtain ⟨columns, hcolumns⟩ := Option.ne_none_iff_exists'.mp hcolumns
    rw [fillValues_none hvalues hrows hcolumns] at hends ⊢
    rw [fillValues_none hvalues hrows hcolumns]
    exact loop_stable hends hle

theorem fillValues_cases (h : Admitted s) (n : Nat) :
    (fillValues n s).1 = .error .running ∨ fillValues n s = (.ok (), s.filled) := by
  by_cases hrunning : (fillValues n s).1 = .error .running
  · exact .inl hrunning
  · right
    rw [← fillValues_stable h hrunning (le_max_left n (s.laidValues.length + 1))]
    exact fillValues_returns h (lt_of_lt_of_le (Nat.lt_succ_self _) (le_max_right _ _))

@[simp] theorem filled_rows (s : RadioMatrix) : s.filled.rows = s.rows := by
  unfold filled
  split <;> rfl

@[simp] theorem filled_columns (s : RadioMatrix) : s.filled.columns = s.columns := by
  unfold filled
  split <;> rfl

@[simp] theorem filled_orient (s : RadioMatrix) : s.filled.orient = s.orient := by
  unfold filled
  split <;> rfl

@[simp] theorem filled_buttons (s : RadioMatrix) : s.filled.buttons = s.buttons := by
  unfold filled
  split <;> rfl

/-- With both dimensions given, there is a value for every cell. -/
theorem length_laidValues (h : Admitted s) {rows columns : Int} (hrows : s.rows = some rows)
    (hcolumns : s.columns = some columns) : s.laidValues.length = (columns * rows).toNat := by
  have hvalues : s.values = none := by
    by_contra hvalues
    rcases h.2 hvalues with hnone | hnone
    · rw [hrows] at hnone
      cases hnone
    · rw [hcolumns] at hnone
      cases hnone
  simp [laidValues, filled, hvalues, hcolumns, hrows, madeUp_getD]

/-! ## §3 The layouts -/

/-- The number of places of a line: the given one, otherwise the smallest one
with which `other` lines hold all the values. -/
def PerLine (count : Nat) (given other : Option Int) (per : Nat) : Prop :=
  match given with
  | some given => given = per
  | none => ∀ lines, other = some lines → IsLeast {c : Nat | (count : Int) ≤ c * lines} per

/-- The values of `t` have been laid out: a button for each of them, in a
cell of its own, within the given dimensions. -/
structure LaidOut (t : RadioMatrix) (cellOf : Nat → Nat × Nat)
    (run : Except (Stop RadioError) Unit × RadioMatrix) : Prop where
  returns : run.1 = .ok ()
  buttons : run.2.buttons = layout (t.values.getD []) cellOf
  apart : (run.2.buttons.map fun b => (b.row, b.column)).Nodup
  rows : ∀ rows, t.rows = some rows → ∀ b ∈ run.2.buttons, (b.row : Int) < rows
  columns : ∀ columns, t.columns = some columns → ∀ b ∈ run.2.buttons, (b.column : Int) < columns

theorem ceiling_returns {len lines : Nat} (hlines : 0 < lines) (s : RadioMatrix) :
    ceiling len (some (lines : Int)) s = (.ok ((len ⌈/⌉ lines : Nat) : Int), s) := by
  have hdiv : ((len : Int) + lines - 1).fdiv lines = ((len ⌈/⌉ lines : Nat) : Int) := by
    have hcast : (len : Int) + lines - 1 = ((len + lines - 1 : Nat) : Int) := by omega
    rw [hcast, Int.fdiv_eq_ediv_of_nonneg _ (by omega), Nat.ceilDiv_eq_add_pred_div]
    rfl
  simp [ceiling, hlines.ne', hdiv]

/-- The number of places of a line, as both arrangements find it. -/
def findPerLine (count : Nat) (given other : Option Int) : Method Int :=
  match given with
  | some given => pure given
  | none => ceiling count other

theorem arrangeHorizontally_apply (n : Nat) (s : RadioMatrix) :
    arrangeHorizontally n s =
      (findPerLine (s.values.getD []).length s.columns s.rows >>= fun cols =>
        arrange n (s.values.getD []) cols fun rowNum i => (rowNum, i)) s := by
  simp only [arrangeHorizontally, findPerLine, bind_apply, reads_apply]
  cases s.columns <;> rfl

theorem arrangeVertically_apply (n : Nat) (s : RadioMatrix) :
    arrangeVertically n s =
      (findPerLine (s.values.getD []).length s.rows s.columns >>= fun rows =>
        arrange n (s.values.getD []) rows fun colNum i => (i, colNum)) s := by
  simp only [arrangeVertically, findPerLine, bind_apply, reads_apply]
  cases s.rows <;> rfl

/-- With so many places the given number of lines is enough. -/
theorem perLine_returns {count : Nat} {given other : Option Int}
    (hgiven : ∀ g, given = some g → 0 < g) (hother : ∀ k, other = some k → 0 < k)
    (hsome : given ≠ none ∨ other ≠ none)
    (hboth : ∀ g k, given = some g → other = some k → (count : Int) ≤ g * k) :
    ∃ per : Nat, PerLine count given other per ∧ (0 < count → 0 < per) ∧
      (∀ k, other = some k → (count : Int) ≤ per * k) ∧
      ∀ s, findPerLine count given other s = (.ok (per : Int), s) := by
  cases given with
  | some given =>
    have hpos := hgiven given rfl
    lift given to Nat using hpos.le
    exact ⟨given, rfl, fun _ => by exact_mod_cast hpos, fun k => hboth _ k rfl, fun s => rfl⟩
  | none =>
    obtain ⟨lines, rfl⟩ := Option.ne_none_iff_exists'.mp (hsome.resolve_left (· rfl))
    have hpos := hother lines rfl
    lift lines to Nat using hpos.le
    have hlines : 0 < lines := by exact_mod_cast hpos
    have hleast : ∀ c : Nat, (count : Int) ≤ c * lines ↔ count ⌈/⌉ lines ≤ c := fun c => by
      rw [ceilDiv_le_iff_le_mul hlines, Nat.mul_comm lines]
      exact_mod_cast Iff.rfl
    refine ⟨count ⌈/⌉ lines, ?_, fun hcount => ?_, ?_, ceiling_returns hlines⟩
    · rintro _ ⟨⟩
      exact ⟨(hleast _).mpr le_rfl, fun c hc => (hleast c).mp hc⟩
    · by_contra hzero
      have hle := (hleast 0).mpr (by omega)
      omega
    · rintro _ ⟨⟩
      exact (hleast _).mpr le_rfl

/-- Different values are in different cells. -/
theorem cells_nodup {cellOf : Nat → Nat × Nat}
    (hcell : ∀ i j, i < values.length → j < values.length → cellOf i = cellOf j → i = j) :
    ((layout values cellOf).map fun b => (b.row, b.column)).Nodup := by
  have hcells : (layout values cellOf).map (fun b => (b.row, b.column)) =
      (List.range values.length).map cellOf := by
    apply List.ext_getElem
    · simp [layout]
    · intro i h h'
      simp [layout, buttonAt]
  rw [hcells]
  refine List.Nodup.map_on ?_ List.nodup_range
  intro i hi j hj
  exact hcell i j (List.mem_range.mp hi) (List.mem_range.mp hj)

theorem mem_layout {cellOf : Nat → Nat × Nat} {b : Button} (h : b ∈ layout values cellOf) :
    ∃ i, i < values.length ∧ (b.row, b.column) = cellOf i := by
  rw [layout, List.mem_mapIdx] at h
  obtain ⟨i, hi, rfl⟩ := h
  exact ⟨i, hi, rfl⟩

/-- The layout with `per` values on a line, where `cell` is one to one. -/
theorem laidOut_lines {t : RadioMatrix} {per : Nat} {cell : Nat → Nat → Nat × Nat}
    (hempty : t.buttons = []) (hpos : t.values.getD [] ≠ [] → 0 < per)
    (hcell : ∀ line i line' i', cell line i = cell line' i' → line = line' ∧ i = i')
    (hrows : ∀ rows, t.rows = some rows → ∀ line i, i < per →
      line * per + i < (t.values.getD []).length → ((cell line i).1 : Int) < rows)
    (hcolumns : ∀ columns, t.columns = some columns → ∀ line i, i < per →
      line * per + i < (t.values.getD []).length → ((cell line i).2 : Int) < columns) :
    LaidOut t (cellOf per cell)
      (.ok (), t.withButtons (layout (t.values.getD []) (cellOf per cell))) := by
  have hbuttons : (t.withButtons (layout (t.values.getD []) (cellOf per cell))).buttons =
      layout (t.values.getD []) (cellOf per cell) := by simp [withButtons, hempty]
  have hplace : ∀ i, i < (t.values.getD []).length →
      i % per < per ∧ i / per * per + i % per < (t.values.getD []).length := fun i hi => by
    rw [Nat.div_add_mod']
    exact ⟨Nat.mod_lt _ (hpos (List.ne_nil_of_length_pos (by omega))), hi⟩
  refine ⟨rfl, hbuttons, ?_, ?_, ?_⟩
  · rw [hbuttons]
    refine cells_nodup fun i j _ _ hij => ?_
    obtain ⟨hline, hplace⟩ := hcell _ _ _ _ hij
    rw [← Nat.div_add_mod i per, ← Nat.div_add_mod j per, hline, hplace]
  · intro rows hgiven b hb
    obtain ⟨i, hi, hcellb⟩ := mem_layout (hbuttons ▸ hb)
    rw [show b.row = (cellOf per cell i).1 from congrArg Prod.fst hcellb]
    exact hrows rows hgiven _ _ (hplace i hi).1 (hplace i hi).2
  · intro columns hgiven b hb
    obtain ⟨i, hi, hcellb⟩ := mem_layout (hbuttons ▸ hb)
    rw [show b.column = (cellOf per cell i).2 from congrArg Prod.snd hcellb]
    exact hcolumns columns hgiven _ _ (hplace i hi).1 (hplace i hi).2

/-- The line of a value, if `lines` lines hold all values. -/
theorem line_lt {count per line i : Nat} {lines : Int} (hfits : (count : Int) ≤ per * lines)
    (hvalue : line * per + i < count) : (line : Int) < lines := by
  by_contra hge
  have hle : (per : Int) * lines ≤ per * line :=
    mul_le_mul_of_nonneg_left (not_lt.mp hge) (Int.natCast_nonneg per)
  have hlt : (line : Int) * per + i < count := by exact_mod_cast hvalue
  linarith [mul_comm (per : Int) line, Int.natCast_nonneg i]

theorem arrangeHorizontally_lays {t : RadioMatrix} (hempty : t.buttons = [])
    (hrows : ∀ k, t.rows = some k → 0 < k) (hcolumns : ∀ k, t.columns = some k → 0 < k)
    (hsome : t.columns ≠ none ∨ t.rows ≠ none)
    (hboth : ∀ c r, t.columns = some c → t.rows = some r →
      ((t.values.getD []).length : Int) ≤ c * r) :
    ∃ per : Nat, PerLine (t.values.getD []).length t.columns t.rows per ∧
      ∀ n, per < n → (t.values.getD []).length < n →
        LaidOut t (fun i => (i / per, i % per)) (arrangeHorizontally n t) := by
  obtain ⟨per, hline, hpos, hfits, hper⟩ := perLine_returns hcolumns hrows hsome hboth
  have hper' : t.values.getD [] ≠ [] → 0 < per := fun h => hpos (List.length_pos_of_ne_nil h)
  refine ⟨per, hline, fun n hn hlength => ?_⟩
  have hrun : arrangeHorizontally n t =
      (.ok (), t.withButtons (layout (t.values.getD [])
        (cellOf per fun rowNum i => (rowNum, i)))) := by
    rw [arrangeHorizontally_apply, bind_ok (hper t)]
    exact arrange_returns hper' hn hlength
  rw [hrun]
  show LaidOut t (cellOf per fun rowNum i => (rowNum, i)) _
  refine laidOut_lines hempty hper' ?_ ?_ ?_
  · rintro line i line' i' ⟨⟩
    exact ⟨rfl, rfl⟩
  · intro rows hgiven line i _ hvalue
    exact line_lt (hfits rows hgiven) hvalue
  · intro columns hgiven line i hi _
    have heq : columns = per := by simpa [PerLine, hgiven] using hline
    rw [heq]
    exact_mod_cast hi

theorem arrangeVertically_lays {t : RadioMatrix} (hempty : t.buttons = [])
    (hrows : ∀ k, t.rows = some k → 0 < k) (hcolumns : ∀ k, t.columns = some k → 0 < k)
    (hsome : t.rows ≠ none ∨ t.columns ≠ none)
    (hboth : ∀ r c, t.rows = some r → t.columns = some c →
      ((t.values.getD []).length : Int) ≤ r * c) :
    ∃ per : Nat, PerLine (t.values.getD []).length t.rows t.columns per ∧
      ∀ n, per < n → (t.values.getD []).length < n →
        LaidOut t (fun i => (i % per, i / per)) (arrangeVertically n t) := by
  obtain ⟨per, hline, hpos, hfits, hper⟩ := perLine_returns hrows hcolumns hsome hboth
  have hper' : t.values.getD [] ≠ [] → 0 < per := fun h => hpos (List.length_pos_of_ne_nil h)
  refine ⟨per, hline, fun n hn hlength => ?_⟩
  have hrun : arrangeVertically n t =
      (.ok (), t.withButtons (layout (t.values.getD [])
        (cellOf per fun colNum i => (i, colNum)))) := by
    rw [arrangeVertically_apply, bind_ok (hper t)]
    exact arrange_returns hper' hn hlength
  rw [hrun]
  show LaidOut t (cellOf per fun colNum i => (i, colNum)) _
  refine laidOut_lines hempty hper' ?_ ?_ ?_
  · rintro line i line' i' ⟨⟩
    exact ⟨rfl, rfl⟩
  · intro rows hgiven line i hi _
    have heq : rows = per := by simpa [PerLine, hgiven] using hline
    rw [heq]
    exact_mod_cast hi
  · intro columns hgiven line i _ hvalue
    exact line_lt (hfits columns hgiven) hvalue

/-- **The buttons are laid out completely and without collisions**, whichever
way they are arranged: `columns` to a row or `rows` to a column. -/
theorem laid_out_completely (h : errorIfConstraintsNotMet s = (.ok (), s))
    (hrows : ∀ k, s.rows = some k → 0 < k) (hcolumns : ∀ k, s.columns = some k → 0 < k)
    (hgiven : s.rows ≠ none ∨ s.columns ≠ none) (hempty : s.buttons = []) :
    ∃ columns rows rounds : Nat,
      PerLine s.laidValues.length s.columns s.rows columns ∧
      PerLine s.laidValues.length s.rows s.columns rows ∧
      ∀ n, rounds ≤ n → fillValues n s = (.ok (), s.filled) ∧
        LaidOut s.filled (fun i => (i / columns, i % columns)) (arrangeHorizontally n s.filled) ∧
        LaidOut s.filled (fun i => (i % rows, i / rows)) (arrangeVertically n s.filled) := by
  have hadmitted := admitted_of_check h
  have hboth : ∀ c r, s.columns = some c → s.rows = some r →
      (s.laidValues.length : Int) = c * r := fun c r hc hr => by
    rw [length_laidValues hadmitted hr hc]
    exact Int.toNat_of_nonneg (mul_pos (hcolumns c hc) (hrows r hr)).le
  obtain ⟨columns, hcolumnsLine, hhorizontal⟩ := arrangeHorizontally_lays (t := s.filled)
    (by simpa using hempty) (by simpa using hrows) (by simpa using hcolumns)
    (by simpa using hgiven.symm) (fun c r hc hr =>
      (hboth c r (by simpa using hc) (by simpa using hr)).le)
  obtain ⟨rows, hrowsLine, hvertical⟩ := arrangeVertically_lays (t := s.filled)
    (by simpa using hempty) (by simpa using hrows) (by simpa using hcolumns)
    (by simpa using hgiven) (fun r c hr hc => by
      rw [mul_comm]
      exact (hboth c r (by simpa using hc) (by simpa using hr)).le)
  rw [filled_columns, filled_rows] at hcolumnsLine hrowsLine
  refine ⟨columns, rows, columns + rows + s.laidValues.length + 1, hcolumnsLine, hrowsLine,
    fun n hn => ⟨?_, ?_, ?_⟩⟩
  · exact fillValues_returns hadmitted (by omega)
  · exact hhorizontal n (by omega) (show s.laidValues.length < n by omega)
  · exact hvertical n (by omega) (show s.laidValues.length < n by omega)

/-- The matrix of `radioMTest.tcl`. -/
def testMatrix : RadioMatrix where
  rows := some 2
  values := some [["red", "1"], ["green", "2"], ["blue", "3"], ["purple", "4"],
    ["chartruse", "5"], ["black", "6"], ["white", "7"]]

/-- Seven values in two rows. -/
theorem laid_out_completely_test : ∃ columns rows rounds : Nat,
    PerLine 7 none (some 2) columns ∧ PerLine 7 (some 2) none rows ∧
      ∀ n, rounds ≤ n → fillValues n testMatrix = (.ok (), testMatrix) ∧
        LaidOut testMatrix (fun i => (i / columns, i % columns))
          (arrangeHorizontally n testMatrix) ∧
        LaidOut testMatrix (fun i => (i % rows, i / rows)) (arrangeVertically n testMatrix) :=
  laid_out_completely (s := testMatrix) rfl (by rintro _ ⟨⟩; decide) (fun _ h => by cases h)
    (.inl (by decide)) rfl

/-! ## §4 The two orientations -/

/-- The last command of the constructor. -/
def followLabel (globals : String → String) : Method Unit := do
  let labelvar ← .reads (·.labelvar)
  if labelvar ≠ "" then setValue (globals labelvar) else pure ()

theorem followLabel_returns (globals : String → String) (s : RadioMatrix) :
    (followLabel globals s).1 = .ok () ∧ (followLabel globals s).2.buttons = s.buttons := by
  have hrun : followLabel globals s =
      (if s.labelvar ≠ "" then setValue (globals s.labelvar) else pure ()) s := rfl
  rw [hrun]
  split <;> exact ⟨rfl, rfl⟩

theorem build_horizontal {globals : String → String} (h : Admitted s)
    (hfill : fillValues n s = (.ok (), s.filled)) (horient : s.orient = "horizontal") :
    build n globals s = (arrangeHorizontally n >>= fun _ => followLabel globals) s.filled := by
  rcases check_cases s with ⟨-, hcheck⟩ | ⟨hbad, -⟩
  · rw [build, bind_ok hcheck, bind_ok hfill, bind_apply, reads_apply,
      filled_orient, horient]
    rfl
  · exact absurd h hbad

theorem build_vertical {globals : String → String} (h : Admitted s)
    (hfill : fillValues n s = (.ok (), s.filled)) (horient : s.orient = "vertical") :
    build n globals s = (arrangeVertically n >>= fun _ => followLabel globals) s.filled := by
  rcases check_cases s with ⟨-, hcheck⟩ | ⟨hbad, -⟩
  · rw [build, bind_ok hcheck, bind_ok hfill, bind_apply, reads_apply,
      filled_orient, horient]
    rfl
  · exact absurd h hbad

/-- A button on the other side of the diagonal. -/
def transpose (b : Button) : Button := { b with row := b.column, column := b.row }

/-- Both constructors have returned, and their layouts are mirror images. -/
def Mirrored (first second : Except (Stop RadioError) Unit × RadioMatrix) : Prop :=
  first.1 = .ok () ∧ second.1 = .ok () ∧ second.2.buttons = first.2.buttons.map transpose

theorem PerLine.unique {count per per' : Nat} {given other : Option Int}
    (hsome : given ≠ none ∨ other ≠ none) (h : PerLine count given other per)
    (h' : PerLine count given other per') : per = per' := by
  cases given with
  | some given => exact Nat.cast_injective (Eq.trans (Eq.symm h) h')
  | none =>
    obtain ⟨lines, hlines⟩ := Option.ne_none_iff_exists'.mp (hsome.resolve_left (· rfl))
    exact (h lines hlines).unique (h' lines hlines)

theorem layout_transpose (cellOf : Nat → Nat × Nat) :
    (layout values cellOf).map transpose = layout values fun i => ((cellOf i).2, (cellOf i).1) := by
  apply List.ext_getElem
  · simp [layout]
  · intro i h h'
    simp [layout, buttonAt, transpose]

/-- With rows and columns exchanged, the other orientation is the mirror image. -/
theorem mirrored_of_exchanged (globals : String → String) {given other : Option Int}
    (hgiven : ∀ k, given = some k → 0 < k) (hother : ∀ k, other = some k → 0 < k)
    (hone : given = none ∧ other ≠ none ∨ given ≠ none ∧ other = none)
    (values : List (List String)) :
    ∃ rounds, ∀ n, rounds ≤ n →
      Mirrored
        (build n globals
          { orient := "horizontal", rows := other, columns := given, values := some values })
        (build n globals
          { orient := "vertical", rows := given, columns := other, values := some values }) := by
  have hnot : ∀ g k, given = some g → other = some k → (values.length : Int) ≤ g * k := by
    rintro g k rfl rfl
    simp at hone
  have hsome : given ≠ none ∨ other ≠ none := hone.elim (fun h => .inr h.2) fun h => .inl h.1
  have hadmitted : given = none ∨ other = none := hone.elim (fun h => .inl h.1) fun h => .inr h.2
  obtain ⟨per, hper, hhorizontal⟩ := arrangeHorizontally_lays
    (t := { orient := "horizontal", rows := other, columns := given, values := some values })
    rfl hother hgiven hsome hnot
  obtain ⟨per', hper', hvertical⟩ := arrangeVertically_lays
    (t := { orient := "vertical", rows := given, columns := other, values := some values })
    rfl hgiven hother hsome hnot
  cases hper.unique hsome hper'
  refine ⟨per + values.length + 1, fun n hn => ?_⟩
  have hlength : values.length < n := by omega
  have hfirst := hhorizontal n (by omega) hlength
  have hsecond := hvertical n (by omega) hlength
  have hfirst' := admitted_of_values (s := ⟨"horizontal", other, given, some values, "", [], none⟩)
    rfl hadmitted.symm
  have hsecond' := admitted_of_values (s := ⟨"vertical", given, other, some values, "", [], none⟩)
    rfl hadmitted
  rw [build_horizontal hfirst' (fillValues_returns hfirst' hlength) rfl,
    build_vertical hsecond' (fillValues_returns hsecond' hlength) rfl,
    filled_of_values rfl, filled_of_values rfl]
  have hrun := fun run => followLabel_returns globals run
  rw [bind_ok (Prod.ext hfirst.returns rfl), bind_ok (Prod.ext hsecond.returns rfl)]
  refine ⟨(hrun _).1, (hrun _).1, ?_⟩
  rw [(hrun _).2, (hrun _).2, hfirst.buttons, hsecond.buttons, layout_transpose]

/-- **The orientations are never mirror images** as the options stand: one of
each pair is given `-columns` only, and `-rows` is 1 by default. With an
explicit `-rows {}` they are. -/
theorem never_mirrored (globals : String → String) (values : List (List String)) {k : Int}
    (hk : 1 ≤ k) :
    (∀ n m, ¬ Mirrored
      (construct n globals [.values (some values), .rows (some k), .orient "horizontal"])
      (construct m globals [.values (some values), .columns (some k), .orient "vertical"])) ∧
    (∀ n m, ¬ Mirrored
      (construct n globals [.values (some values), .columns (some k), .orient "horizontal"])
      (construct m globals [.values (some values), .rows (some k), .orient "vertical"])) ∧
    ∃ rounds, ∀ n, rounds ≤ n →
      Mirrored
        (construct n globals [.values (some values), .rows (some k), .orient "horizontal"])
        (construct n globals
          [.values (some values), .rows none, .columns (some k), .orient "vertical"]) ∧
      Mirrored
        (construct n globals
          [.values (some values), .rows none, .columns (some k), .orient "horizontal"])
        (construct n globals [.values (some values), .rows (some k), .orient "vertical"]) := by
  have hraises : ∀ n orient, (construct n globals
      [.values (some values), .columns (some k), .orient orient]).1 ≠ .ok () := by
    intro n orient hreturns
    rcases check_cases { orient := orient, columns := some k, values := some values } with
      ⟨hadmitted, -⟩ | ⟨-, message, hcheck⟩
    · exact (hadmitted.2 (Option.some_ne_none _)).elim (Option.some_ne_none _)
        (Option.some_ne_none _)
    · have hrun : construct n globals [.values (some values), .columns (some k), .orient orient] =
          build n globals { orient := orient, columns := some k, values := some values } := rfl
      rw [hrun, build, bind_error hcheck] at hreturns
      cases hreturns
  have hpos : ∀ j, some k = some j → 0 < j := by
    rintro _ ⟨⟩
    omega
  have hnone : ∀ j, (none : Option Int) = some j → 0 < j := fun _ h => by cases h
  obtain ⟨rounds, hrows⟩ := mirrored_of_exchanged globals hnone hpos
    (.inl ⟨rfl, Option.some_ne_none _⟩) values
  obtain ⟨rounds', hcolumns⟩ := mirrored_of_exchanged globals hpos hnone
    (.inr ⟨Option.some_ne_none _, rfl⟩) values
  refine ⟨fun n m hmirrored => hraises m _ hmirrored.2.1,
    fun n m hmirrored => hraises n _ hmirrored.1, max rounds rounds', fun n hn => ?_⟩
  exact ⟨hrows n (le_of_max_le_left hn), hcolumns n (le_of_max_le_right hn)⟩

/-- One value, one row or column. -/
theorem never_mirrored_one :
    (∀ n m, ¬ Mirrored
      (construct n (fun _ => "") [.values (some [["a"]]), .rows (some 1), .orient "horizontal"])
      (construct m (fun _ => "") [.values (some [["a"]]), .columns (some 1), .orient "vertical"])) ∧
    (∀ n m, ¬ Mirrored
      (construct n (fun _ => "")
        [.values (some [["a"]]), .columns (some 1), .orient "horizontal"])
      (construct m (fun _ => "") [.values (some [["a"]]), .rows (some 1), .orient "vertical"])) ∧
    ∃ rounds, ∀ n, rounds ≤ n →
      Mirrored
        (construct n (fun _ => "") [.values (some [["a"]]), .rows (some 1), .orient "horizontal"])
        (construct n (fun _ => "")
          [.values (some [["a"]]), .rows none, .columns (some 1), .orient "vertical"]) ∧
      Mirrored
        (construct n (fun _ => "")
          [.values (some [["a"]]), .rows none, .columns (some 1), .orient "horizontal"])
        (construct n (fun _ => "") [.values (some [["a"]]), .rows (some 1), .orient "vertical"]) :=
  never_mirrored (fun _ => "") [["a"]] le_rfl

/-- A single column of one value is refused, because there is one row. -/
theorem columns_only_refused :
    ¬ ∀ (values : List (List String)) (k : Int), values ≠ [] → 1 ≤ k → ∃ n, Mirrored
      (construct n (fun _ => "") [.values (some values), .rows (some k), .orient "horizontal"])
      (construct n (fun _ => "")
        [.values (some values), .columns (some k), .orient "vertical"]) := by
  intro hall
  obtain ⟨n, -, hsecond, -⟩ := hall [["a"]] 1 (by decide) le_rfl
  have hraises : (construct n (fun _ => "")
      [.values (some [["a"]]), .columns (some 1), .orient "vertical"]).1 =
        .error (.raised (.script "If both -rows and -coumns were supplied, -values cannot be")) :=
    rfl
  rw [hraises] at hsecond
  cases hsecond

/-! ## §5 The end of the constructor -/

/-- A line has a place, or none is needed, or an error is raised. A negative
number of lines gives room for a single value only. -/
def LineEnds (count : Nat) (given other : Option Int) : Prop :=
  count = 0 ∨
    match given, other with
    | some given, _ => 0 < given
    | none, some lines => 0 ≤ lines ∨ count = 1
    | none, none => True

/-- The options with which the constructor comes to an end. -/
def Ends (s : RadioMatrix) : Prop :=
  if s.orient = "horizontal" then LineEnds s.laidValues.length s.columns s.rows
  else LineEnds s.laidValues.length s.rows s.columns

theorem fdiv_negative {count : Nat} {lines : Int} (hlines : lines < 0) (hcount : 0 < count) :
    0 < ((count : Int) + lines - 1).fdiv lines ↔ count = 1 := by
  have hdiv : ((count : Int) + lines - 1).fdiv lines = ((count : Int) - 1).fdiv lines + 1 := by
    rw [show (count : Int) + lines - 1 = (count - 1) + 1 * lines by omega,
      Int.add_mul_fdiv_right _ _ hlines.ne]
  rw [hdiv]
  constructor
  · intro hpos
    by_contra hne
    have hless : ((count : Int) - 1).fdiv lines < 0 := by
      rw [← Int.neg_fdiv_neg]
      exact Int.fdiv_neg_of_neg_of_pos (by omega) (by omega)
    omega
  · rintro rfl
    simp

/-- The number of places of a line decides, unless an error is raised before. -/
theorem findPerLine_cases (count : Nat) (given other : Option Int) (s : RadioMatrix) :
    (∃ e, findPerLine count given other s = (.error (.raised e), s) ∧
      LineEnds count given other) ∨
    ∃ per : Int, findPerLine count given other s = (.ok per, s) ∧
      (LineEnds count given other ↔ (count = 0 ∨ 0 < per)) := by
  cases given with
  | some given => exact .inr ⟨given, rfl, Iff.rfl⟩
  | none =>
    cases other with
    | none => exact .inl ⟨_, rfl, .inr trivial⟩
    | some lines =>
      rcases eq_or_ne lines 0 with rfl | hne
      · exact .inl ⟨_, rfl, .inr (.inl le_rfl)⟩
      · refine .inr ⟨((count : Int) + lines - 1).fdiv lines, ?_, ?_⟩
        · simp [findPerLine, ceiling, hne]
        · rcases Nat.eq_zero_or_pos count with hzero | hcount
          · simp [LineEnds, hzero]
          · rcases lt_or_gt_of_ne hne with hneg | hpos
            · simp [LineEnds, fdiv_negative hneg hcount, not_le.mpr hneg]
            · have hper : 0 < ((count : Int) + lines - 1).fdiv lines := by
                rw [Int.fdiv_eq_ediv_of_nonneg _ hpos.le]
                exact (Int.le_ediv_iff_mul_le hpos).mpr (by omega)
              simp [LineEnds, hper, hpos.le]

/-- Lines with places, as many as they may be: all values are laid out. -/
theorem arrange_ends {per : Int} (hper : values ≠ [] → 0 < per) (cell : Nat → Nat → Nat × Nat)
    (s : RadioMatrix) :
    ∃ rounds, ∀ n, rounds ≤ n → (arrange n values per cell s).1 = .ok () := by
  rcases eq_or_ne values [] with rfl | hvalues
  · refine ⟨1, fun n hn => ?_⟩
    obtain ⟨m, rfl⟩ := Nat.exists_eq_add_of_lt hn
    rfl
  · have hpos := hper hvalues
    lift per to Nat using hpos.le
    refine ⟨per + values.length + 1, fun n hn => ?_⟩
    rw [arrange_returns (fun _ => by exact_mod_cast hpos) (by omega) (by omega)]

/-- One arrangement, from the number of places of its lines on. -/
theorem lines_end (values : List (List String)) (given other : Option Int)
    (cell : Nat → Nat → Nat × Nat) (s : RadioMatrix) :
    (LineEnds values.length given other →
      ∃ rounds, ∀ n, rounds ≤ n → ((findPerLine values.length given other >>= fun per =>
        arrange n values per cell) s).1 ≠ .error .running) ∧
    (¬ LineEnds values.length given other →
      ∀ n, ((findPerLine values.length given other >>= fun per =>
        arrange n values per cell) s).1 = .error .running) := by
  rcases findPerLine_cases values.length given other s with
    ⟨e, hraises, hends⟩ | ⟨per, hper, hiff⟩
  · refine ⟨fun _ => ⟨0, fun n _ => ?_⟩, fun hnot => absurd hends hnot⟩
    rw [bind_error hraises]
    simp
  · refine ⟨fun hends => ?_, fun hnot n => ?_⟩
    · have hplaces : values ≠ [] → 0 < per := fun hvalues =>
        (hiff.mp hends).resolve_left (List.length_pos_of_ne_nil hvalues).ne'
      obtain ⟨rounds, hreturns⟩ := arrange_ends hplaces cell s
      refine ⟨rounds, fun n hn => ?_⟩
      rw [bind_ok hper, hreturns n hn]
      simp
    · rw [hiff, not_or, not_lt] at hnot
      have hvalues : values ≠ [] := List.ne_nil_of_length_pos (Nat.pos_of_ne_zero hnot.1)
      rw [bind_ok hper]
      exact arrange_running hnot.2 hvalues n cell s

theorem bind_followLabel (m : Method Unit) (globals : String → String) (s : RadioMatrix) :
    ((m >>= fun _ => followLabel globals) s).1 = (m s).1 := by
  cases hm : m s with
  | mk result t =>
    cases result with
    | error e => rw [bind_error hm]
    | ok u =>
      rw [bind_ok hm]
      exact (followLabel_returns globals t).1

/-- If the values can be made up, the lines decide. -/
theorem ends_iff (cell : Nat → Nat → Nat × Nat) {globals : String → String}
    {given other : Option Int} (h : Admitted s)
    (hbuild : ∀ n, fillValues n s = (.ok (), s.filled) →
      (build n globals s).1 = ((findPerLine s.laidValues.length given other >>= fun per =>
        arrange n s.laidValues per cell) s.filled).1) :
    (∃ n, (build n globals s).1 ≠ .error .running) ↔
      LineEnds s.laidValues.length given other := by
  obtain ⟨hends, hrunning⟩ := lines_end s.laidValues given other cell s.filled
  constructor
  · rintro ⟨n, hn⟩
    by_contra hnot
    apply hn
    rcases fillValues_cases h n with hfill | hfill
    · rcases check_cases s with ⟨-, hcheck⟩ | ⟨hbad, -⟩
      · rw [build, bind_ok hcheck, bind_error (Prod.ext hfill rfl)]
      · exact absurd h hbad
    · rw [hbuild n hfill]
      exact hrunning hnot n
  · intro hline
    obtain ⟨rounds, hrounds⟩ := hends hline
    refine ⟨rounds + s.laidValues.length + 1, ?_⟩
    rw [hbuild _ (fillValues_returns h (by omega))]
    exact hrounds _ (by omega)

/-- **The constructor comes to an end exactly if** `Ends`: the check admits
lines without places. -/
theorem construction_ends (h : errorIfConstraintsNotMet s = (.ok (), s))
    (horient : s.orient = "horizontal" ∨ s.orient = "vertical") (globals : String → String) :
    (∃ n, (build n globals s).1 ≠ .error .running) ↔ Ends s := by
  have hadmitted := admitted_of_check h
  unfold Ends
  rcases horient with horient | horient
  · rw [if_pos horient]
    refine ends_iff (fun rowNum i => (rowNum, i)) hadmitted fun n hfill => ?_
    rw [build_horizontal hadmitted hfill horient, bind_followLabel, arrangeHorizontally_apply,
      filled_columns, filled_rows]
    rfl
  · rw [if_neg (by rw [horient]; decide)]
    refine ends_iff (fun colNum i => (i, colNum)) hadmitted fun n hfill => ?_
    rw [build_vertical hadmitted hfill horient, bind_followLabel, arrangeVertically_apply,
      filled_columns, filled_rows]
    rfl

/-- Two values in two columns are laid out. -/
theorem construction_ends_two :
    ∃ n, (build n (fun _ => "")
      { rows := none, columns := some 2, values := some [["a"], ["b"]] }).1 ≠ .error .running := by
  have hends : Ends { rows := none, columns := some 2, values := some [["a"], ["b"]] } :=
    .inr (by decide)
  exact (construction_ends rfl (.inl rfl) (fun _ => "")).mpr hends

/-- With no columns, two values are never laid out. -/
theorem no_columns_never_ends :
    ¬ ∀ s : RadioMatrix, errorIfConstraintsNotMet s = (.ok (), s) →
      s.orient = "horizontal" ∨ s.orient = "vertical" →
        ∃ n, (build n (fun _ => "") s).1 ≠ .error .running := by
  intro hall
  obtain ⟨n, hn⟩ := hall
    { rows := none, columns := some 0, values := some [["a"], ["b"]] } rfl (.inl rfl)
  have hadmitted := admitted_of_values
    (s := ⟨"horizontal", none, some 0, some [["a"], ["b"]], "", [], none⟩) rfl (.inl rfl)
  rcases fillValues_cases hadmitted n with hfill | hfill
  · cases hfill
  · rw [build_horizontal hadmitted hfill rfl, bind_followLabel] at hn
    exact hn (arrange_running le_rfl (by decide) n _ _)

end RadioMatrix

end EpicsTcl.Widget
