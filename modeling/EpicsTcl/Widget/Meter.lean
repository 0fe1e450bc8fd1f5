/-
EpicsTcl.Widget.Meter — the snit widget `meter` (`meter.tcl`): the scale, the
needle, the ticks and the handlers of the dynamic options.

Numbers are exact, of any ordered field `K`. How a number is written and what
its logarithm is are parameters (`Arithmetic`). A division by zero has an
infinite result (`Extended`), and a height may be infinite; zero by zero raises
an error. A value that is calculated with is a number of `K`: texts and NaN
raise errors there, and so does an infinite value, which this model only
compares. Logarithms are taken of positive numbers only.

The canvas holds the ticks and their labels under their ids; the needle is
its height. What Tk says about sizes is the `Geometry`. The loop over the
major ticks runs for at most `n` rounds; all other loops are over lists.
-/
import EpicsTcl.Library.Decimal
import EpicsTcl.Library.Extended
import EpicsTcl.Library.Loop
import EpicsTcl.Library.TclValue

namespace EpicsTcl.Widget

open EpicsTcl.Library

inductive MeterError where
  /-- The `error` command. -/
  | script (message : String)
  | notNumeric (text : String)
  | notBoolean (text : String)
  /-- Zero by zero, or the logarithm of a negative number. -/
  | domainError
  | noSuchVariable (name : String)
  deriving DecidableEq, Repr

/-- How numbers are written, also by `format %.1e`, and `log10`. -/
structure Arithmetic (K : Type) where
  text : K → String
  engineering : K → String
  log10 : K → K

/-- A number as a value. -/
def Arithmetic.value {K : Type} (A : Arithmetic K) (x : K) : TclValue K := ⟨A.text x, some x⟩

def Arithmetic.extended {K : Type} (A : Arithmetic K) : Extended K → TclValue K
  | .finite x => A.value x
  | .infinite negative => ⟨if negative then "-Inf" else "Inf", none⟩

/-- Sizes in pixels: of the canvas and of the margins. -/
structure Geometry (K : Type) where
  width : K
  height : K
  leftmargin : K
  vmargin : K

/-- What is drawn for the ticks, at height `y` from the left edge of the
meter. -/
inductive Item (K : Type) where
  | text (y : Extended K) (label : String)
  | line (right : K) (y : Extended K)
  deriving DecidableEq, Repr

structure Meter (K : Type) where
  optFrom : TclValue K
  optTo : TclValue K
  width : K
  variableName : String := ""
  majorticks : TclValue K
  minorticks : TclValue K
  log : TclValue K
  constructing : Bool := true
  /-- `winfo exists $win.c`. -/
  hasCanvas : Bool := false
  needle : Extended K
  topY : K
  bottomY : K
  valueRange : K
  meterLeft : K
  majorlength : K
  tickIds : List Nat := []
  lastValue : TclValue K
  decadeLow : TclValue K
  decadeHigh : TclValue K
  canvas : List (Nat × Item K) := []
  nextId : Nat := 1
  globals : String → Option (TclValue K)

/-- An option and its value, in `configure`. -/
inductive Configuration (K : Type) where
  | optFrom (value : TclValue K)
  | optTo (value : TclValue K)
  | log (value : TclValue K)
  | majorticks (value : TclValue K)
  | minorticks (value : TclValue K)
  | variable (name : String)

namespace Meter

variable {K : Type}

abbrev Method (K α : Type) := Script (Meter K) (Stop MeterError) α

def error {α : Type} (e : MeterError) : Method K α := .raise (.raised e)

/-! ## `expr` -/

/-- An operand of `expr`. -/
def operand (v : TclValue K) : Method K K :=
  match v.number with
  | some x => pure x
  | none => error (.notNumeric v.text)

/-- An operand of `!`, or the condition of `if`. -/
def condition (v : TclValue K) : Method K Bool :=
  match truth v.text with
  | some b => pure b
  | none => error (.notBoolean v.text)

variable [Field K] [LinearOrder K]

/-- `$x/$y`, of floating point numbers. -/
def divide (x y : K) : Method K (Extended K) :=
  match Extended.quotient x y with
  | some q => pure q
  | none => error .domainError

def logarithm (A : Arithmetic K) (v : TclValue K) : Method K K := do
  let x ← operand v
  if 0 < x then pure (A.log10 x) else error .domainError

/-- `int`. -/
def int [FloorRing K] (x : K) : Int := towardZero x

/-! ## Decades -/

/-- `format %02d`. -/
def twoDigits (i : Int) : String :=
  if (toString i).length < 2 then "0" ++ toString i else toString i

/-- `format "1.0e%02d" $exponent`, as a value. -/
def decade (exponent : Int) : TclValue K := ⟨"1.0e" ++ twoDigits exponent, some (10 ^ exponent)⟩

variable [FloorRing K]

/-- The first decade, from the logarithm of the low end. -/
def lowDecade (x : K) : Int := int (if x < 0 then x - 1 / 2 else x)

/-- The `while` loop: the exponents from `low` on, until one is not less than
`high`. -/
def decadesUpTo {K : Type} [Field K] [LinearOrder K] [FloorRing K] [IsStrictOrderedRing K]
    (high : K) (low : Int) : List Int :=
  if (low : K) < high then low :: decadesUpTo high (low + 1) else [low]
termination_by (⌈high⌉ - low).toNat
decreasing_by
  have hless : low < ⌈high⌉ := Int.lt_ceil.mpr ‹_›
  omega

variable [IsStrictOrderedRing K]

def computeDecades (A : Arithmetic K) : Method K (List (TclValue K)) := do
  let low ← .reads (·.optFrom)
  let high ← .reads (·.optTo)
  if low.lessEqual ⟨"0.0", some 0⟩ then
    error (.script "Log scale with negative or zero -from value is not supported")
  else if high.lessEqual ⟨"0.0", some 0⟩ then
    error (.script "Log scale with negative or zero -to value no")
  else do
    let lowLog ← logarithm A low
    let highDecade ← logarithm A high
    let result := (decadesUpTo highDecade (lowDecade lowLog)).map decade
    .modify fun s =>
      { s with
        decadeLow := result.head?.getD ⟨"", none⟩
        decadeHigh := result.getLast?.getD ⟨"", none⟩ }
    pure result

/-! ## The needle -/

def computeLogHeight (A : Arithmetic K) (needleCoords : TclValue K) :
    Method K (Extended K) := do
  let _ ← computeDecades A
  let decadeLow ← .reads (·.decadeLow)
  let decadeHigh ← .reads (·.decadeHigh)
  let needleCoords := if needleCoords.less decadeLow then decadeLow else needleCoords
  let needleCoords := if decadeHigh.less needleCoords then decadeHigh else needleCoords
  let highLog ← logarithm A decadeHigh
  let lowLog ← logarithm A decadeLow
  .modify fun s => { s with valueRange := highLog - lowLog }
  let needleLog ← logarithm A needleCoords
  let value := needleLog - lowLog
  let pixelRange ← .reads fun s => s.bottomY - s.topY
  let valueRange ← .reads (·.valueRange)
  let height ← divide (value * pixelRange) valueRange
  .reads fun s => .minus s.bottomY height

def computeLinearHeight (needleCoords : TclValue K) : Method K (Extended K) := do
  let high ← .reads (·.optTo)
  let low ← .reads (·.optFrom)
  if high.less needleCoords then .reads fun s => s.topY
  else if needleCoords.less low then .reads fun s => s.bottomY
  else do
    let pixelRange ← .reads fun s => s.bottomY - s.topY
    let valueRange ← .reads (·.valueRange)
    let x ← operand needleCoords
    let lowX ← operand low
    let height ← divide ((x - lowX) * pixelRange) valueRange
    .reads fun s => .minus s.bottomY height

def computeHeight (A : Arithmetic K) (needleCoords : TclValue K) : Method K (Extended K) := do
  let log ← .reads (·.log)
  if ← condition log then computeLogHeight A needleCoords
  else computeLinearHeight needleCoords

def needleTo (A : Arithmetic K) (newCoords : TclValue K) : Method K Unit := do
  .modify fun s => { s with lastValue := newCoords }
  let height ← computeHeight A newCoords
  .modify fun s => { s with needle := height }

/-- The trace of `-variable`. -/
def variableChanged (A : Arithmetic K) : Method K Unit := do
  let name ← .reads (·.variableName)
  let globals ← .reads (·.globals)
  match globals name with
  | none => error (.noSuchVariable name)
  | some value => needleTo A value

/-- `set`. With a variable, its trace moves the needle. -/
def setValue (A : Arithmetic K) (newValue : TclValue K) : Method K Unit := do
  let name ← .reads (·.variableName)
  if name ≠ "" then do
    .modify fun s =>
      { s with globals := fun other => if other = name then some newValue else s.globals other }
    variableChanged A
  else needleTo A newValue

/-! ## The ticks -/

/-- `lappend tickIds [$win.c create ...]`. -/
def createTick (item : Item K) : Method K Unit :=
  .modify fun s =>
    { s with
      canvas := s.canvas ++ [(s.nextId, item)]
      tickIds := s.tickIds ++ [s.nextId]
      nextId := s.nextId + 1 }

def getMajorRight : Method K K := do
  .modify fun s => { s with majorlength := (s.width - s.meterLeft) / 5 }
  .reads fun s => s.meterLeft + s.majorlength

def getMinorRight : Method K K := .reads fun s => s.meterLeft + s.majorlength / 2

/-- The minor ticks above a decade. -/
def drawMantissas (A : Arithmetic K) (interval : Extended K) (minorRight : K)
    (pos : Extended K) : Method K Unit :=
  .forEach [2, 3, 4, 5, 6, 7, 8, 9] fun mant : Nat =>
    createTick (.line minorRight (pos.plus (interval.times (A.log10 mant))))

/-- The loop over the decades, the first of them at height `pos`. -/
def drawDecades (A : Arithmetic K) (interval : Extended K) (majorRight minorRight : K) :
    List (TclValue K) → Extended K → Method K Unit
  | [], _ => pure ()
  | decade :: rest, pos => do
    createTick (.text pos decade.text)
    createTick (.line majorRight pos)
    drawMantissas A interval minorRight pos
    drawDecades A interval majorRight minorRight rest (pos.plus interval)

def drawLogTicks (A : Arithmetic K) : Method K Unit := do
  let decades ← computeDecades A
  let majorRight ← getMajorRight
  let minorRight ← getMinorRight
  let range ← .reads fun s => s.topY - s.bottomY
  let interval ← divide range (decades.length - 1)
  let pos ← .reads (·.bottomY)
  drawDecades A interval majorRight minorRight decades pos

/-- The minor ticks after a major one: `for {set i 1} {$i <= $minorticks}`. -/
def drawMinorTicks (A : Arithmetic K) (minorticks : K) (minor : Extended K) (minorRight m : K) :
    Method K Unit :=
  .forEach (List.range' 1 ⌊minorticks⌋₊) fun i => do
    let minorH ← computeHeight A (A.extended (.plus m (.times (i : K) minor)))
    createTick (.line minorRight minorH)

def drawLinearTicks (A : Arithmetic K) (n : Nat) : Method K Unit := do
  let first ← .reads (·.optFrom)
  let last ← .reads (·.optTo)
  let majorticks ← .reads (·.majorticks)
  let minorticks ← .reads (·.minorticks)
  let major ← operand majorticks
  let minorticks ← operand minorticks
  let minor ← divide major (minorticks + 1)
  let majorRight ← getMajorRight
  let minorRight ← getMinorRight
  .loop (fun ((m, majorIndex) : TclValue K × Nat) =>
    if m.lessEqual last then do
      let x ← operand m
      let height ← computeHeight A m
      createTick (.text height (A.engineering x))
      createTick (.line majorRight height)
      drawMinorTicks A minorticks minor minorRight x
      let firstX ← operand first
      pure (.inl (A.value (firstX + (majorIndex + 1 : Nat) * major), majorIndex + 1))
    else pure (.inr ())) n (first, 0)

def drawTicks (A : Arithmetic K) (n : Nat) : Method K Unit := do
  let log ← .reads (·.log)
  if ← condition log then drawLogTicks A else drawLinearTicks A n

/-- The ids stay in `tickIds`. -/
def eraseTicks : Method K Unit := do
  let ids ← .reads (·.tickIds)
  .forEach ids fun id => .modify fun s => { s with canvas := s.canvas.filter (·.1 != id) }

/-! ## The options -/

def configureFrom (A : Arithmetic K) (n : Nat) (value : TclValue K) : Method K Unit := do
  .modify fun s => { s with optFrom := value }
  if ← .reads (·.hasCanvas) then
    eraseTicks
    let high ← operand (← .reads (·.optTo))
    let low ← operand value
    .modify fun s => { s with valueRange := high - low }
    drawTicks A n
    needleTo A (← .reads (·.lastValue))

def configureTo (A : Arithmetic K) (n : Nat) (value : TclValue K) : Method K Unit := do
  .modify fun s => { s with optTo := value }
  if ← .reads (·.hasCanvas) then
    eraseTicks
    let high ← operand value
    let low ← operand (← .reads (·.optFrom))
    .modify fun s => { s with valueRange := high - low }
    drawTicks A n
    needleTo A (← .reads (·.lastValue))

def configureLog (A : Arithmetic K) (n : Nat) (value : TclValue K) : Method K Unit := do
  let log ← .reads (·.log)
  if value.equal log then pure ()
  else if !isBoolean value.text then
    error (.script "meter.tcl - value of -log flag must be a boolean")
  else do
    .modify fun s => { s with log := value }
    if !(← .reads (·.constructing)) then
      let _ ← computeDecades A
      eraseTicks
      drawTicks A n
      needleTo A (← .reads (·.lastValue))

/-- An option of the ticks is set and they are redrawn. -/
def configureTicks (A : Arithmetic K) (n : Nat) (set : Meter K → Meter K) : Method K Unit := do
  .modify set
  if ← .reads (·.hasCanvas) then
    eraseTicks
    drawTicks A n

def configureMajorticks (A : Arithmetic K) (n : Nat) (value : TclValue K) : Method K Unit :=
  configureTicks A n fun s => { s with majorticks := value }

def configureMinorticks (A : Arithmetic K) (n : Nat) (value : TclValue K) : Method K Unit :=
  configureTicks A n fun s => { s with minorticks := value }

/-- The trace is on the variable of this name. -/
def configureVariable (A : Arithmetic K) (name : String) : Method K Unit := do
  .modify fun s => { s with variableName := name }
  let hasCanvas ← .reads (·.hasCanvas)
  if hasCanvas ∧ name ≠ "" then variableChanged A else pure ()

/-- One option of `configure`. -/
def onconfigure (A : Arithmetic K) (n : Nat) : Configuration K → Method K Unit
  | .optFrom value => configureFrom A n value
  | .optTo value => configureTo A n value
  | .log value => configureLog A n value
  | .majorticks value => configureMajorticks A n value
  | .minorticks value => configureMinorticks A n value
  | .variable name => configureVariable A name

/-- `configure`, and `configurelist`: the options in their order. -/
def configure (A : Arithmetic K) (n : Nat) (options : List (Configuration K)) : Method K Unit :=
  .forEach options (onconfigure A n)

/-! ## The constructor -/

/-- A meter before its constructor has run. -/
def fresh (globals : String → Option (TclValue K)) : Meter K where
  optFrom := ⟨"-1.0", some (-1)⟩
  optTo := ⟨"1.0", some 1⟩
  width := 0
  majorticks := ⟨"1.0", some 1⟩
  minorticks := ⟨"4", some 4⟩
  log := ⟨"false", none⟩
  needle := .finite 0
  topY := 0
  bottomY := 0
  valueRange := 0
  meterLeft := 0
  majorlength := 0
  lastValue := ⟨"0", some 0⟩
  decadeLow := ⟨"0", some 0⟩
  decadeHigh := ⟨"1", some 1⟩
  globals := globals

/-- The constructor. -/
def build (A : Arithmetic K) (n : Nat) (geometry : Geometry K)
    (options : List (Configuration K)) : Method K Unit := do
  configure A n options
  let high ← operand (← .reads (·.optTo))
  let low ← operand (← .reads (·.optFrom))
  -- the canvas and its frame
  .modify fun s =>
    { s with
      valueRange := high - low
      hasCanvas := true
      nextId := s.nextId + 1
      width := geometry.width
      meterLeft := geometry.leftmargin
      topY := geometry.vmargin
      bottomY := geometry.height - geometry.vmargin }
  let needleHeight ← computeHeight A (A.value ((high + low) / 2))
  .modify fun s => { s with needle := needleHeight, nextId := s.nextId + 1 }
  drawTicks A n
  let name ← .reads (·.variableName)
  if name ≠ "" then variableChanged A
  .modify fun s => { s with constructing := false }

end Meter

end EpicsTcl.Widget
