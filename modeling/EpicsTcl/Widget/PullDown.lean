/-
EpicsTcl.Widget.PullDown — the snit widget `epicsPullDown`
(`epicsPullDown.tcl`): the handler of `-items`, which fills the menu, and the
text of the button.

`-items` is a text, and so is each of its elements; the handler and
`getMatchingLabel` read them as lists (`splitList`). `number` says which texts
are numbers to `expr`, whose `==` compares those by value.
-/
import EpicsTcl.Library.Script
import EpicsTcl.Library.TclList
import EpicsTcl.Library.TclValue

namespace EpicsTcl.Widget

open EpicsTcl.Library

inductive PullError where
  /-- The `error` command. -/
  | script (message : String)
  /-- A text that is not a list. -/
  | notList (text : String)
  deriving DecidableEq, Repr

/-- An entry of the menu. -/
inductive Entry where
  | separator
  | radiobutton (label value : String)
  deriving DecidableEq, Repr

/-- The tear-off entry of the menu, which nothing here deletes, is left out. -/
structure PullDown where
  channel : String := ""
  items : String := ""
  menu : List Entry := []
  /-- `-text` of the button. -/
  text : String := ""
  channelValue : String := ""
  deriving DecidableEq, Repr

/-- An option and its value. -/
inductive PullOption where
  | channel (name : String)
  | items (itemlist : String)
  deriving DecidableEq, Repr

section Lists

variable {σ : Type}

/-- The elements of a list. -/
def list (text : String) : Script σ PullError (List String) :=
  .evaluates fun _ =>
    match splitList text with
    | none => .error (.notList text)
    | some words => .ok words

def llength (text : String) : Script σ PullError Nat := do
  let words ← list text
  pure words.length

def lindex (text : String) (index : Nat) : Script σ PullError String := do
  let words ← list text
  pure (words.getD index "")

end Lists

namespace PullDown

abbrev Method := Script PullDown PullError

/-! ## The menu -/

/-- `$win.menu add`. -/
def add (entry : Entry) : Method Unit := .modify fun s => { s with menu := s.menu ++ [entry] }

/-- The body of the loop over the items. -/
def addItem (item : String) : Method Unit := do
  if item = "-" then add .separator
  else
    let length ← llength item
    if length = 1 then do
      let label ← lindex item 0
      add (.radiobutton label label)
    else if length = 2 then do
      let label ← lindex item 0
      let value ← lindex item 1
      add (.radiobutton label value)
    else .raise (.script ("-items item: " ++ item ++ " has invalid format"))

/-- `onconfigure -items`. -/
def configureItems (itemlist : String) : Method Unit := do
  .modify fun s => { s with menu := [] }
  let items ← list itemlist
  .forEach items addItem
  .modify fun s => { s with items := itemlist }

/-! ## The text -/

section Text

variable {K : Type} [LinearOrder K] (number : String → Option K)

/-- `$a == $b`. -/
def equal (a b : String) : Bool := TclValue.equal ⟨a, number a⟩ ⟨b, number b⟩

/-- The loop of `getMatchingLabel`. -/
def matchingLabel (value itemList : String) : List String → Method String
  | [] => pure value
  | item :: rest =>
    if item ≠ "-" then do
      let length ← llength itemList
      let label ← (if length = 1 then pure item else lindex item 0)
      let matchTo ← (if length = 1 then pure item else lindex item 1)
      if equal number value matchTo then pure label
      else matchingLabel value itemList rest
    else matchingLabel value itemList rest

def getMatchingLabel (value itemList : String) : Method String := do
  let items ← list itemList
  matchingLabel number value itemList items

def updateButton : Method Unit := do
  let channelValue ← .reads (·.channelValue)
  let items ← .reads (·.items)
  let label ← getMatchingLabel number channelValue items
  .modify fun s => { s with text := label }

/-- A write to the linked variable. The write trace calls `updateButton`. -/
def writeChannelValue (value : String) : Method Unit := do
  .modify fun s => { s with channelValue := value }
  updateButton number

/-! ## A widget at work -/

def configure : PullOption → Method Unit
  | .channel name => .modify fun s => { s with channel := name }
  | .items itemlist => configureItems itemlist

/-- The constructor. `value` is what the link finds in the channel. -/
def construct (value : String) (args : List PullOption) : Except PullError Unit × PullDown :=
  (do
    .forEach args configure
    let channel ← .reads (·.channel)
    if channel = "" then
      .raise (.script "controlwidget::epicsPullDown must specify a -channel when created.")
    else writeChannelValue number value : Method Unit) {}

end Text

end PullDown

inductive PullEvent where
  | configure (itemlist : String)
  /-- The channel has changed. -/
  | update (value : String)
  /-- The timer that the constructor has started. -/
  | timer
  deriving DecidableEq

namespace PullDown

variable {K : Type} [LinearOrder K] (number : String → Option K)

/-- What an event runs. -/
def handle : PullEvent → Method Unit
  | .configure itemlist => configureItems itemlist
  | .update value => writeChannelValue number value
  | .timer => updateButton number

def step (s : PullDown) (e : PullEvent) : Option PullDown := some (handle number e s).2

end PullDown

end EpicsTcl.Widget
