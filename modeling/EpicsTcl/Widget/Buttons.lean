/-
EpicsTcl.Widget.Buttons — the on/off controls of `epicsButton.tcl`:
`onoffSingleButton`, one button that flips, `onoffButtonPair`, two of which
one is enabled, and `epicsButton`, which puts one of them in front of a
channel.

The scripts of the options are values of `γ` (`none` is the empty script). A
method that evaluates a script does so last, so it returns the script; what
the script does comes after it. The color of the window around a pair is an
argument of the methods that use it.

An `epicsButton` is made in two parts: `construct` up to its layout, and then
the commands on its channels, which belong to the process around it.
-/
import EpicsTcl.Library.TclValue

namespace EpicsTcl.Widget

open EpicsTcl.Library

/-- The variable `state`: both values are truth values. -/
inductive OnOff where
  | off
  | on
  deriving DecidableEq, Repr

/-- A button of Tk; a color it has not been given is Tk's own. -/
structure TkButton where
  text : String
  background : Option String := none
  activebackground : Option String := none
  disabled : Bool := false
  deriving DecidableEq, Repr

/-- The options of both kinds. -/
structure OnoffOptions (γ : Type) where
  onlabel : String := "On"
  offlabel : String := "Off"
  oncolor : String := "green"
  offcolor : String := "red"
  oncommand : Option γ := none
  offcommand : Option γ := none
  deriving DecidableEq, Repr

/-- What `$self name` raises when there is no such method. -/
structure NoMethod where
  name : String
  deriving DecidableEq, Repr

variable {γ : Type}

/-! ## onoffSingleButton -/

structure OnoffSingleButton (γ : Type) where
  options : OnoffOptions γ
  state : OnOff := .off
  /-- `$win.b`. -/
  b : TkButton
  deriving DecidableEq, Repr

namespace OnoffSingleButton

/-- The constructor. -/
def construct (options : OnoffOptions γ) : OnoffSingleButton γ where
  options := options
  b := {
    text := options.onlabel
    background := options.offcolor
    activebackground := options.offcolor }

/-- `onClick`. -/
def onClick (w : OnoffSingleButton γ) : Option γ :=
  match w.state with
  | .on => w.options.offcommand
  | .off => w.options.oncommand

/-- `invoke`. -/
def invoke (w : OnoffSingleButton γ) : Option γ := w.onClick

/-- `on`. -/
def on (w : OnoffSingleButton γ) : OnoffSingleButton γ :=
  { w with
    b := { w.b with
      text := w.options.offlabel
      background := w.options.oncolor
      activebackground := w.options.oncolor }
    state := .on }

/-- `off`. -/
def off (w : OnoffSingleButton γ) : OnoffSingleButton γ :=
  { w with
    b := { w.b with
      text := w.options.onlabel
      background := w.options.offcolor
      activebackground := w.options.offcolor }
    state := .off }

/-- `toggle`. -/
def toggle (w : OnoffSingleButton γ) : OnoffSingleButton γ :=
  match w.state with
  | .on => w.off
  | .off => w.on

/-- `get`. -/
def get (w : OnoffSingleButton γ) : OnOff := w.state

end OnoffSingleButton

/-! ## onoffButtonPair -/

structure OnoffButtonPair (γ : Type) where
  options : OnoffOptions γ
  state : OnOff := .off
  /-- `$win.on`. -/
  winOn : TkButton
  /-- `$win.off`. -/
  winOff : TkButton
  deriving DecidableEq, Repr

namespace OnoffButtonPair

/-- The constructor. -/
def construct (options : OnoffOptions γ) : OnoffButtonPair γ where
  options := options
  winOn := {
    text := options.onlabel
    background := options.offcolor
    activebackground := options.offcolor }
  winOff := { text := options.offlabel, disabled := true }

/-- `on`. -/
def on (color : String) (w : OnoffButtonPair γ) : OnoffButtonPair γ :=
  { w with
    state := .on
    winOn := { w.winOn with background := color, activebackground := color, disabled := true }
    winOff := { w.winOff with
      background := w.options.oncolor
      activebackground := w.options.oncolor
      disabled := false } }

/-- `off`. -/
def off (color : String) (w : OnoffButtonPair γ) : OnoffButtonPair γ :=
  { w with
    state := .off
    winOn := { w.winOn with
      background := w.options.offcolor
      activebackground := w.options.offcolor
      disabled := false }
    winOff := { w.winOff with background := color, activebackground := color, disabled := true } }

/-- `toggle`. -/
def toggle (color : String) (w : OnoffButtonPair γ) : OnoffButtonPair γ :=
  match w.state with
  | .on => w.off color
  | .off => w.on color

/-- `onOff`. -/
def onOff (w : OnoffButtonPair γ) : Option γ := w.options.offcommand

/-- `onOn`. -/
def onOn (w : OnoffButtonPair γ) : Option γ := w.options.oncommand

/-- `invoke`. There is no method `offOn`. -/
def invoke (w : OnoffButtonPair γ) : Except NoMethod (Option γ) :=
  match w.state with
  | .on => .ok w.onOff
  | .off => .error ⟨"offOn"⟩

/-- A press of the button that `which` names: Tk runs the `-command` of a
button that is not disabled. -/
def press (which : OnOff) (w : OnoffButtonPair γ) : Option γ :=
  match which with
  | .on => if w.winOn.disabled then none else w.onOn
  | .off => if w.winOff.disabled then none else w.onOff

end OnoffButtonPair

/-! ## Either of them -/

inductive OnoffButton (γ : Type) where
  | single (w : OnoffSingleButton γ)
  | pair (w : OnoffButtonPair γ)
  deriving DecidableEq, Repr

/-- What a script can call. -/
inductive ButtonMethod where
  | on
  | off
  | toggle
  | invoke
  deriving DecidableEq, Repr

namespace OnoffButton

def state : OnoffButton γ → OnOff
  | single w => w.state
  | pair w => w.state

def options : OnoffButton γ → OnoffOptions γ
  | single w => w.options
  | pair w => w.options

/-- A call of a method, with the color of the window around: the widget
after it, and the script that it evaluates. -/
def call (color : String) : ButtonMethod → OnoffButton γ →
    Except NoMethod (Option γ) × OnoffButton γ
  | .on, single w => (.ok none, single w.on)
  | .on, pair w => (.ok none, pair (w.on color))
  | .off, single w => (.ok none, single w.off)
  | .off, pair w => (.ok none, pair (w.off color))
  | .toggle, single w => (.ok none, single w.toggle)
  | .toggle, pair w => (.ok none, pair (w.toggle color))
  | .invoke, single w => (.ok w.invoke, single w)
  | .invoke, pair w => (w.invoke, pair w)

/-- A press of a button by the user; the button that flips is one, whatever
it is to do. -/
def press (which : OnOff) : OnoffButton γ → Option γ
  | single w => w.onClick
  | pair w => w.press which

/-- Which button the user can press to flip the state. -/
def flipping (w : OnoffButton γ) : OnOff :=
  match w.state with
  | .on => .off
  | .off => .on

/-- The command that goes with the other state. -/
def opposite (w : OnoffButton γ) : Option γ :=
  match w.state with
  | .on => w.options.offcommand
  | .off => w.options.oncommand

end OnoffButton

/-! ## epicsButton -/

/-- The methods of `epicsButton` that its button evaluates. -/
inductive ClickMethod where
  | onOn
  | onOff
  deriving DecidableEq, Repr

structure EpicsButtonOptions where
  channel : String := ""
  statechannel : String := ""
  onvalue : String := "1"
  offvalue : String := "0"
  onlabel : String := "On"
  offlabel : String := "Off"
  oncolor : String := "Green"
  offcolor : String := "Red"
  modality : String := "single"
  showlabel : String := "true"
  deriving DecidableEq, Repr

/-- What is packed. -/
inductive ButtonPart where
  | label
  | button
  deriving DecidableEq, Repr

structure EpicsButton where
  options : EpicsButtonOptions
  statechannel : String
  constructing : Bool := true
  button : OnoffButton ClickMethod
  packed : List ButtonPart := []
  deriving DecidableEq, Repr

/-- What `expr` makes of a text that is a number: whether it is not zero. -/
abbrev Nonzero := String → Option Bool

/-- `if {$text}`: a number, or a word for true or false. -/
def condition (nonzero : Nonzero) (text : String) : Option Bool :=
  match nonzero text with
  | some b => some b
  | none => truth text

namespace EpicsButton

/-- What the constructor gives to its button. -/
def buttonOptions (options : EpicsButtonOptions) : OnoffOptions ClickMethod where
  onlabel := options.onlabel
  offlabel := options.offlabel
  oncolor := options.oncolor
  offcolor := options.offcolor
  oncommand := some .onOn
  offcommand := some .onOff

/-- `layout`. When `-showlabel` is no truth value, what was packed has already
been forgotten. -/
def layout (nonzero : Nonzero) (w : EpicsButton) : Except String Unit × EpicsButton :=
  let w := if w.constructing then w else { w with packed := [] }
  match condition nonzero w.options.showlabel with
  | some true => (.ok (), { w with packed := w.packed ++ [.label, .button] })
  | some false => (.ok (), { w with packed := w.packed ++ [.button] })
  | none => (.error ("expected boolean value but got \"" ++ w.options.showlabel ++ "\""), w)

/-- The constructor, up to and with the layout. -/
def construct (nonzero : Nonzero) (options : EpicsButtonOptions) : Except String EpicsButton :=
  if options.channel = "" then .error "epicsButton must have a -channel option when constructed"
  else if options.modality ≠ "single" ∧ options.modality ≠ "double" then
    .error "epicsbutton -modality must be single or double"
  else
    let statechannel :=
      if options.statechannel = "" then options.channel else options.statechannel
    let button :=
      if options.modality = "single" then
        OnoffButton.single (OnoffSingleButton.construct (buttonOptions options))
      else OnoffButton.pair (OnoffButtonPair.construct (buttonOptions options))
    match layout nonzero { options, statechannel, button } with
    | (.ok _, w) => .ok w
    | (.error message, _) => .error message

/-- `onconfigure -showlabel`. -/
def configureShowlabel (nonzero : Nonzero) (value : String) (w : EpicsButton) :
    Except String Unit × EpicsButton :=
  let w := { w with options := { w.options with showlabel := value } }
  if w.constructing then (.ok (), w) else w.layout nonzero

/-- `onOn` and `onOff`: the value to set the channel to. -/
def clicked (method : ClickMethod) (w : EpicsButton) : String :=
  match method with
  | .onOn => w.options.onvalue
  | .onOff => w.options.offvalue

/-- `update`, with what `if` makes of the value of the state channel; `none`
when there is no value or it is no truth value. -/
def update (color : String) (value : Option Bool) (w : EpicsButton) : EpicsButton :=
  match value with
  | none => w
  | some true => { w with button := (w.button.call color .on).2 }
  | some false => { w with button := (w.button.call color .off).2 }

/-- `::controlwidget::$statechannel`. -/
def variableName (w : EpicsButton) : String := "::controlwidget::" ++ w.statechannel

end EpicsButton

/-! ## epicsCommandButton -/

/-- `epicsCommandButton`: the options it does not leave to the button. -/
structure EpicsCommandButton where
  channel : String
  value : String := ""
  deriving DecidableEq, Repr

/-- `sendValue`: the channel and what it is set to. -/
def EpicsCommandButton.sendValue (w : EpicsCommandButton) : String × String :=
  (w.channel, w.value)

end EpicsTcl.Widget
