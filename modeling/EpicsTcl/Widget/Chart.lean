/-
EpicsTcl.Widget.Chart — the widgets `controlwidget::epicsStripChart`
(`epicsStripChart.tcl`) and `controlwidget::epicsGraph` (`epicsgraph.tcl`).

Both have an array from names to history objects, and an element of the
graph for each. They differ in their arguments, in the history type, and in
the name of the element: `Kind` is what they have in common, and
`epicsStripChart` and `epicsGraph` are its two values.

snit, BLT and Tk are not part of the repository. `Toolkit` is what they decide:
the names that `%AUTO%` makes, what `element create` makes of the graph, what
becomes of an object whose constructor and destructor have both raised, and
what a script does that is not the one intended.

Users may call any method of a history they were given, except `destroy`. A
channel with the name of a command of Tcl or of the script replaces that
command; what a widget does after that is not modelled.
-/
import EpicsTcl.Command.ChannelCommand
import EpicsTcl.History.ChannelHistory
import EpicsTcl.Server.EpicsServer

namespace EpicsTcl.Widget

open EpicsTcl.Command EpicsTcl.Library EpicsTcl.History EpicsTcl.Server

/-- What the methods of a widget can raise. -/
inductive WidgetError where
  /-- The `error` command. -/
  | script (message : String)
  | history (e : HistoryError)
  | noSuchElement (array element : String)
  /-- An operation of the graph. -/
  | graph (operation element : String)
  | invalidCommand (object : Nat)
  /-- `blt::vector destroy` of vectors that were not made. -/
  | noVector
  deriving DecidableEq, Repr

/-- A line of the graph; a vector is named by its object and its own name. -/
structure Element where
  name : String
  xdata : Nat × String
  ydata : Nat × String
  label : String
  options : List String
  deriving DecidableEq, Repr

/-- A live history object and whether its `after` is pending. -/
structure Live (H : Type) where
  history : H
  channels : List String
  timer : Bool

/-- `references` counts what all of the interpreter has on a channel, and
`broken` are the objects that are left of constructors that raised. -/
structure Chart (H : Type) where
  win : String
  timeBase : String
  table : AList fun _ : String => Nat := ∅
  histories : AList fun _ : Nat => Live H := ∅
  broken : List Nat := []
  elements : List Element := []
  references : String → Nat := fun _ => 0
  nextObject : Nat := 0

/-- What is decided outside. -/
structure Toolkit (H : Type) where
  auto : Nat → String
  auto_injective : Function.Injective auto
  /-- What `element create` makes of the elements, and whether it accepts. -/
  create : List Element → Element → Bool × List Element
  /-- The element comes last, and no two elements have one name. -/
  create_accepted : ∀ {elements e}, (create elements e).1 = true →
    (create elements e).2 = elements ++ [e] ∧ ∀ e' ∈ elements, e'.name ≠ e.name
  /-- An element that is rejected leaves the graph as it was. -/
  create_rejected : ∀ {elements e}, (create elements e).1 = false →
    (create elements e).2 = elements
  /-- snit deletes an object although its destructor has raised. -/
  reaps : Bool
  /-- The name is a command of Tcl or of the script. -/
  isCommand : String → Bool
  /-- What the script of an element does if its words are not kept. -/
  reparse : Element → Chart H → Except WidgetError Unit × Chart H

/-- A widget: `A` are the arguments of its add method, `H` its histories, and
`γ` is what `updateData` gets to see. -/
structure Kind (H γ A : Type) where
  /-- The array. -/
  array : String
  duplicate : String → String
  missing : String → String → String
  name : A → String
  channels : A → List String
  options : A → List String
  /-- The constructor of the history up to its call of `updateData`, at the
  given seconds and clicks. -/
  construct : A → String → Int → Int → Except HistoryError H
  updateData : γ → Script H HistoryError Unit
  elementName : String → String → String
  xdata : String
  ydata : String
  channels_ne : ∀ call, channels call ≠ []
  /-- Elements of one name have the name or the object in common. -/
  elementName_eq : ∀ name name' object object',
    elementName name object = elementName name' object' → name = name' ∨ object = object'

/-- A call of the add method, with what it finds outside. -/
structure AddCall (γ A : Type) where
  args : A
  seconds : Int
  clicks : Int
  seen : γ

/-! ## Words -/

/-- A character of the name of a variable. -/
def isNameChar (c : Char) : Bool := c.isAlphanum || c == '_'

/-- A character between words. -/
def isSpace (c : Char) : Bool := c.isWhitespace || c == '\x0b' || c == '\x0c'

/-- The text ends a word, or something else is put in its place: a dollar sign
does so in front of a name. -/
def substituted : List Char → Bool
  | [] => false
  | '$' :: ':' :: ':' :: _ => true
  | '$' :: c :: rest => isNameChar c || c == '(' || c == '\x7b' || substituted (c :: rest)
  | c :: rest => isSpace c || c == ';' || c == '[' || c == '\\' || substituted rest

/-- `eval` keeps the text, written without quotes, as one word. Quotes and
braces count at the beginning only. -/
def isWord (text : String) : Bool :=
  match text.toList with
  | [] => false
  | c :: rest => c != '\x22' && c != '\x7b' && !substituted (c :: rest)

/-! ## Histories and elements -/

variable [CTCLObjectProcessor] {H γ A : Type} (W : Kind H γ A) (T : Toolkit H)

abbrev Proc (H : Type) := Script (Chart H) WidgetError

namespace Chart

/-- `epicschannel` for each of the channels. -/
def acquire (channels : List String) (s : Chart H) : Chart H :=
  { s with references := fun c => s.references c + channels.count c }

/-- `delete` of each of the channels, which reaches the channel of the name
that Tcl has for the command. -/
def release (channels : List String) (s : Chart H) : Chart H :=
  { s with references := fun c => s.references c - (channels.map getName).count c }

end Chart

/-- The destructor of a history: it destroys the vectors, which must have been
made, and then gives back the channels. -/
def destructor (vectors : Bool) (channels : List String) : Proc H Unit := fun s =>
  if vectors then (.ok (), s.release channels) else (.error .noVector, s)

/-- What snit does with an object whose constructor has raised: it calls the
destructor. -/
def constructorRaised (object : Nat) (vectors : Bool) (channels : List String) (e : HistoryError) :
    Proc H Nat := fun s =>
  match destructor vectors channels s with
  | (.ok _, s) => (.error (.history e), s)
  | (.error e', s) =>
    if T.reaps then (.error (.history e), s)
    else (.error e', { s with broken := s.broken ++ [object] })

/-- `controlwidget::channelHistory %AUTO% …`, or the pair history. -/
def newHistory (call : AddCall γ A) : Proc H Nat := do
  let timeBase ← .reads (·.timeBase)
  let object ← .reads (·.nextObject)
  .modify fun s => { s with nextObject := s.nextObject + 1 }
  match W.construct call.args timeBase call.seconds call.clicks with
  | .error e => constructorRaised T object false (W.channels call.args) e
  | .ok history => do
    .modify (Chart.acquire (W.channels call.args))
    match W.updateData call.seen history with
    | (.ok _, history) => do
      .modify fun s =>
        { s with histories := s.histories.insert object ⟨history, W.channels call.args, true⟩ }
      pure object
    | (.error e, _) => constructorRaised T object true (W.channels call.args) e

/-- `$object destroy`. -/
def destroy (object : Nat) : Proc H Unit := fun s =>
  match s.histories.lookup object with
  | some live =>
    (.ok (), { s.release live.channels with histories := s.histories.erase object })
  | none => (.error (.invalidCommand object), s)

/-- `eval $win element create …`. The path of the widget and the label are not
quoted. -/
def elementCreate (e : Element) : Proc H Unit := fun s =>
  if isWord s.win && isWord e.label then
    match T.create s.elements e with
    | (true, elements) => (.ok (), { s with elements })
    | (false, elements) => (.error (.graph "create" e.name), { s with elements })
  else T.reparse e s

/-- `$win element delete`. -/
def elementDelete (name : String) : Proc H Unit := fun s =>
  if s.elements.any (·.name = name) then
    (.ok (), { s with elements := s.elements.filter (·.name ≠ name) })
  else (.error (.graph "delete" name), s)

/-! ## The methods -/

/-- The element of a call. -/
def Kind.element (call : A) (object : Nat) : Element where
  name := W.elementName (W.name call) (T.auto object)
  xdata := (object, W.xdata)
  ydata := (object, W.ydata)
  label := W.name call
  options := W.options call

/-- `addchannel`, `addseries`. -/
def add (call : AddCall γ A) : Proc H Nat := do
  let found ← .reads fun s => hasNames s.table (W.name call.args)
  if found then .raise (.script (W.duplicate (W.name call.args)))
  else do
    let object ← newHistory W T call
    .modify fun s => { s with table := s.table.insert (W.name call.args) object }
    elementCreate T (W.element T call.args object)
    pure object

/-- `removechannel`, `removeseries`. -/
def remove (name : String) : Proc H Unit := do
  let win ← .reads (·.win)
  let found ← .reads fun s => hasNames s.table name
  if found then do
    let object ← .evaluates fun s =>
      match s.table.lookup name with
      | some object => .ok object
      | none => .error (.noSuchElement W.array name)
    .modify fun s => { s with table := s.table.erase name }
    elementDelete (W.elementName name (T.auto object))
    destroy object
  else .raise (.script (W.missing name win))

/-- A method of a history. -/
def onHistory (object : Nat) (m : Script H HistoryError Unit) (s : Chart H) : Option (Chart H) :=
  (s.histories.lookup object).map fun live =>
    { s with histories := s.histories.insert object { live with history := (m live.history).2 } }

/-- The timer of a history: it is pending again unless `updateData` raises. -/
def timer (object : Nat) (seen : γ) (s : Chart H) : Option (Chart H) :=
  match s.histories.lookup object with
  | some live =>
    if live.timer then
      let timer :=
        match (W.updateData seen live.history).1 with
        | .ok _ => true
        | .error _ => false
      some { s with
        histories := s.histories.insert object
          { live with history := (W.updateData seen live.history).2, timer } }
    else none
  | none => none

inductive Action (H γ A : Type) where
  | add (call : AddCall γ A)
  | remove (name : String)
  | method (object : Nat) (m : Script H HistoryError Unit)
  | timer (object : Nat) (seen : γ)

def step (s : Chart H) : Action H γ A → Option (Chart H)
  | .add call => some (add W T call s).2
  | .remove name => some (remove W T name s).2
  | .method object m => onHistory object m s
  | .timer object seen => timer W object seen s

/-! ## The two widgets -/

/-- The arguments of `addchannel`. -/
structure AddChannel where
  name : String
  interval : String
  args : List String

/-- The arguments of `addseries`. -/
structure AddSeries where
  name : String
  x : String
  y : String
  interval : String
  args : List String

def epicsStripChart (N : TclNumbers) :
    Kind ChannelHistory (Int × Option (List String)) AddChannel where
  array := "channelLines"
  duplicate _ := "This channel is already displayed on the stipchart"
  missing name win := "Tried to remove " ++ name ++ " from a stripchart it's not on: " ++ win
  name := (·.name)
  channels call := [call.name]
  options := (·.args)
  construct call := ChannelHistory.construct N call.interval call.name
  updateData seen := ChannelHistory.updateData N seen.1 seen.2
  elementName _ object := object
  xdata := "time"
  ydata := "data"
  channels_ne _ := List.cons_ne_nil _ _
  elementName_eq _ _ _ _ := .inr

def epicsGraph (N : TclNumbers) :
    Kind ChannelPairHistory (Option (List String) × Option (List String)) AddSeries where
  array := "series"
  duplicate name := "controlwidget::epicsGraph::addseries series " ++ name ++ " already exists"
  missing name _ := "controlwidget::epicsGraph::removeseries - " ++ name ++ " is not a series"
  name := (·.name)
  channels call := [call.x, call.y]
  options := (·.args)
  construct call timebase seconds _ :=
    ChannelPairHistory.construct N call.interval call.x call.y timebase seconds
  updateData seen := ChannelPairHistory.updateData N seen.1 seen.2
  elementName name _ := name
  xdata := "x"
  ydata := "y"
  channels_ne _ := List.cons_ne_nil _ _
  elementName_eq _ _ _ _ := .inl

end EpicsTcl.Widget
