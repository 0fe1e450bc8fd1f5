/-
EpicsTcl.Widget.RadioMatrix — the snit widget `radioMatrix`
(`radioMatrix.tcl`): its options, the check of their constraints, the layout
of the radio buttons, and the two variables of a widget at work.

An option with an empty value is `none`; `-rows` and `-columns` are integers
otherwise. The elements of `-values` are lists themselves. Both layouts are
the same two loops: `perLine` buttons make a line, which is a row of the
horizontal layout and a column of the vertical one.

The loops run for at most `n` rounds each.
-/
import EpicsTcl.Library.Loop

namespace EpicsTcl.Widget

open EpicsTcl.Library

inductive RadioError where
  /-- The `error` command. -/
  | script (message : String)
  /-- `expr` with an empty operand. -/
  | missingOperand
  | divideByZero
  deriving DecidableEq, Repr

/-- A radio button in the grid. -/
structure Button where
  index : Nat
  label : String
  value : String
  row : Nat
  column : Nat
  deriving DecidableEq, Repr

structure RadioMatrix where
  orient : String := "horizontal"
  rows : Option Int := some 1
  columns : Option Int := none
  values : Option (List (List String)) := none
  /-- The text variable of the label: the option `-variable`. -/
  labelvar : String := ""
  buttons : List Button := []
  radioVariable : Option String := none
  deriving DecidableEq, Repr

/-- An option and its value. -/
inductive RadioOption where
  | orient (value : String)
  | rows (value : Option Int)
  | columns (value : Option Int)
  | values (value : Option (List (List String)))
  | variable (name : String)
  deriving DecidableEq, Repr

/-- The label and the value of an element of `-values`. -/
def labelled : List String → String × String
  | label :: value :: _ => (label, value)
  | [value] => (value, value)
  | [] => ("", "")

namespace RadioMatrix

abbrev Method := Script RadioMatrix (Stop RadioError)

def error {α : Type} (e : RadioError) : Method α := .raise (.raised e)

def set (s : RadioMatrix) : RadioOption → RadioMatrix
  | .orient value => { s with orient := value }
  | .rows value => { s with rows := value }
  | .columns value => { s with columns := value }
  | .values value => { s with values := value }
  | .variable name => { s with labelvar := name }

def configurelist (args : List RadioOption) : Method Unit := .modify fun s => args.foldl set s

def errorIfConstraintsNotMet : Method Unit := do
  let values ← .reads (·.values)
  let rows ← .reads (·.rows)
  let columns ← .reads (·.columns)
  if values = none ∧ (rows = none ∨ columns = none) then
    error (.script "If -values is not supplied, but -rows and -coumns must be.")
  else if (rows ≠ none ∧ columns ≠ none) ∧ values ≠ none then
    error (.script "If both -rows and -coumns were supplied, -values cannot be")
  else pure ()

/-- `lappend options(-values) $i`. -/
def lappend (i : Nat) : Method Unit :=
  .modify fun s => { s with values := some (s.values.getD [] ++ [[toString i]]) }

/-- The part of the constructor that makes up values. -/
def fillValues (n : Nat) : Method Unit := do
  let values ← .reads (·.values)
  match values with
  | some _ => pure ()
  | none => do
    let columns ← .reads (·.columns)
    let rows ← .reads (·.rows)
    match columns, rows with
    | some columns, some rows =>
      .loop (fun i : Nat =>
        if (i : Int) < columns * rows then do
          lappend i
          pure (.inl (i + 1))
        else pure (.inr ())) n 0
    | _, _ => error .missingOperand

/-- `expr ($len + $given - 1)/$given`. -/
def ceiling (len : Nat) : Option Int → Method Int
  | none => error .missingOperand
  | some given =>
    if given = 0 then error .divideByZero else pure ((len + given - 1).fdiv given)

/-- `radiobutton` and `grid`. -/
def place (index : Nat) (item : List String) (cell : Nat × Nat) : Method Unit :=
  .modify fun s =>
    { s with
      buttons := s.buttons ++
        [⟨index, (labelled item).1, (labelled item).2, cell.1, cell.2⟩] }

/-- The inner loop: one line, from the value `index` on. -/
def fillLine (n : Nat) (values : List (List String)) (perLine : Int) (cell : Nat → Nat × Nat)
    (index : Nat) : Method Nat :=
  .loop (fun ((i, index) : Nat × Nat) =>
    if (i : Int) < perLine then
      match values[index]? with
      | none => pure (.inr index)
      | some item => do
        place index item (cell i)
        pure (.inl (i + 1, index + 1))
    else pure (.inr index)) n (0, index)

/-- The outer loop. `cell line i` is the row and the column of a button. -/
def arrange (n : Nat) (values : List (List String)) (perLine : Int)
    (cell : Nat → Nat → Nat × Nat) : Method Unit :=
  .loop (fun ((index, line) : Nat × Nat) =>
    if index < values.length then do
      let index ← fillLine n values perLine (cell line) index
      pure (.inl (index, line + 1))
    else pure (.inr ())) n (0, 0)

def arrangeHorizontally (n : Nat) : Method Unit := do
  let rows ← .reads (·.rows)
  let cols ← .reads (·.columns)
  let values ← .reads (·.values.getD [])
  let cols ← match cols with
    | some cols => pure cols
    | none => ceiling values.length rows
  arrange n values cols fun rowNum i => (rowNum, i)

def arrangeVertically (n : Nat) : Method Unit := do
  let rows ← .reads (·.rows)
  let cols ← .reads (·.columns)
  let values ← .reads (·.values.getD [])
  let rows ← match rows with
    | some rows => pure rows
    | none => ceiling values.length cols
  arrange n values rows fun colNum i => (i, colNum)

/-- `Set`. -/
def setValue (value : String) : Method Unit :=
  .modify fun s => { s with radioVariable := some value }

/-- The constructor, after the options have been processed. `globals` are the
values of the variables. -/
def build (n : Nat) (globals : String → String) : Method Unit := do
  errorIfConstraintsNotMet
  fillValues n
  let orient ← .reads (·.orient)
  if orient = "horizontal" then arrangeHorizontally n
  else if orient = "vertical" then arrangeVertically n
  else error (.script ("Invalid -orient value: " ++ orient))
  let labelvar ← .reads (·.labelvar)
  if labelvar ≠ "" then setValue (globals labelvar) else pure ()

/-- The constructor. -/
def construct (n : Nat) (globals : String → String) (args : List RadioOption) :
    Except (Stop RadioError) Unit × RadioMatrix :=
  (do
    configurelist args
    build n globals : Method Unit) {}

/-- `Get`. The variable may not exist. -/
def getValue (s : RadioMatrix) : Option String := s.radioVariable

/-- A value of `-values`. -/
def IsValue (s : RadioMatrix) (value : String) : Prop :=
  ∃ item ∈ s.values.getD [], (labelled item).2 = value

end RadioMatrix

/-! ## A widget at work -/

/-- A radio matrix, the variable that its label shows, and the buttons whose
`-command` is being run, the last one first. -/
structure Panel where
  matrix : RadioMatrix
  tracked : String
  clicked : List Button := []

inductive PanelEvent where
  /-- A script or a link writes the variable. -/
  | write (value : String)
  /-- `Set`. -/
  | set (value : String)
  /-- A click on a button: Tk sets `radioVariable` and starts `-command`. -/
  | press (button : Button)
  /-- The script of `-command` has come to its end. -/
  | release (button : Button)
  deriving DecidableEq

/-- The label is the only thing that follows the variable; a button writes
`radioVariable` only. -/
def Panel.step (s : Panel) : PanelEvent → Option Panel
  | .write value => some { s with tracked := value }
  | .set value => some { s with matrix := (RadioMatrix.setValue value s.matrix).2 }
  | .press button =>
    if button ∈ s.matrix.buttons then
      some { s with
        matrix := (RadioMatrix.setValue button.value s.matrix).2, clicked := button :: s.clicked }
    else none
  | .release button =>
    match s.clicked with
    | [] => none
    | last :: rest => if last = button then some { s with clicked := rest } else none

end EpicsTcl.Widget
