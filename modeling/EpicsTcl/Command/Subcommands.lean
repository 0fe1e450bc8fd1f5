/-
EpicsTcl.Command.Subcommands — `CTCLChannelCommand::operator()` and the
subcommands that read and set the value: `get`, `set`, `updatetime`,
`values` and `size`. (`link`, `unlink`, `listlinks` and `delete` are in
`ChannelCommand`.)

A command procedure returns a code or is left by an exception; the only one
is the text that `CChannel::size` and `CChannel::getVector` throw.

`TclObjects` is what the procedures use of `CTCLObject`: parsing a word as a
list and converting it to a number. `m` is what `ca_element_count` reports
for the channel.

`Get` and `Size` ask the channel twice, once whether it is connected and
once for the data. Each is a test (`getTest`, `sizeTest`) and what follows
it (`getUse`, `sizeUse`), so that something can happen in between.
-/
import EpicsTcl.Channel.Values
import EpicsTcl.Command.ChannelCommand

namespace EpicsTcl.Command

open EpicsTcl.Channel EpicsTcl.Library

/-- How a command procedure ends. -/
inductive Completion where
  | returned (code : TclCode)
  | thrown (text : String)
  deriving DecidableEq, Repr

/-- What `CTCLObject` makes of a word; `none` is an exception. -/
structure TclObjects where
  /-- `llength` and `lindex`. -/
  listElements : String → Option (List String)
  getInt : String → Option (BitVec 32)
  getDouble : String → Option (BitVec 64)
  /-- The message that a failed conversion to `int` leaves in the
  interpreter, if it leaves one. -/
  intMessage : String → Option String
  length_lt : ∀ {word : String} {items : List String}, listElements word = some items →
    items.length < 2 ^ 31
  nulFree : ∀ {word : String} {items : List String}, listElements word = some items →
    ∀ s ∈ items, NulFree s
  intMessage_ne : ∀ {word message : String}, intMessage word = some message → message ≠ ""

variable {ν : Type*} [DecidableEq ν] [CTCLObjectProcessor] [ChannelAccess] (resolve : String → ν)
  (P : Platform) (T : TclObjects) (this : CommandId)

namespace World

/-! ## get -/

/-- The part of `Get` after its words: the test of the connection. -/
def getConnected (c : CTCLChannelCommand) (max : Nat) (w : World ν) :
    (Completion × World ν) ⊕ Nat :=
  if c.pChannel.fConnected then .inr max
  else .inl (.returned .error,
    w.setResult (.text (c.pChannel.sName ++ " is not connected at this time")))

/-- `Get` up to its test of the connection: it has returned, or it goes on
with this count. When the count is not an integer, the text that the code
puts together is not stored. -/
def getTest (objv : List String) (w : World ν) : (Completion × World ν) ⊕ Nat :=
  match w.objects this with
  | none => .inl (.returned .error, w)
  | some c =>
    if 3 < objv.length then
      .inl (.returned .error,
        w.setResult (.text ("Too many command line parameters\n" ++ c.usage)))
    else
      match objv with
      | [_, _, count] =>
        match T.getInt count with
        | some max => w.getConnected c (sizeOfInt max.toInt)
        | none =>
          .inl (.returned .error,
            match T.intMessage count with
            | some message => w.setResult (.text message)
            | none => w)
      | _ => w.getConnected c 0

/-- The rest of `Get`. -/
def getUse (max : Nat) (w : World ν) : Completion × World ν :=
  match w.objects this with
  | none => (.returned .error, w)
  | some c =>
    match c.pChannel.getVector max with
    | .ok data => (.returned .ok, w.setResult (.list data))
    | .error text => (.thrown text, w)

/-- `Get`. -/
def get (objv : List String) (w : World ν) : Completion × World ν :=
  match w.getTest T this objv with
  | .inl result => result
  | .inr max => w.getUse this max

/-! ## set -/

/-- The part of `Set` after its words. The three loops convert every element
of the list before anything is assigned. -/
def setValue (m : Nat) (c : CTCLChannelCommand) (command subcommand value datatype : String)
    (w : World ν) : Completion × World ν :=
  let words := command ++ " " ++ subcommand ++ " " ++ value ++ " " ++ datatype
  let failed : Completion × World ν := (.returned .error, w.setResult (.text (words ++
    "\n -- data does not all convert to selecte data type \n" ++ "or is not a proper list.\n")))
  if datatype = "string" then
    match T.listElements value with
    | some items => (.returned .ok, { w with ca := c.pChannel.assignStrings P m items w.ca })
    | none => failed
  else if datatype = "int" then
    match (T.listElements value).bind (·.mapM T.getInt) with
    | some items => (.returned .ok, { w with ca := c.pChannel.assignInts P m items w.ca })
    | none => failed
  else if datatype = "real" then
    match (T.listElements value).bind (·.mapM T.getDouble) with
    | some items => (.returned .ok, { w with ca := c.pChannel.assignDoubles P m items w.ca })
    | none => failed
  else
    (.returned .error, w.setResult (.text (words ++ " -- invalid data type\n" ++ c.usage)))

/-- `Set`. -/
def set (m : Nat) (objv : List String) (w : World ν) : Completion × World ν :=
  match w.objects this with
  | none => (.returned .error, w)
  | some c =>
    match objv with
    | [command, subcommand, value] => w.setValue P T m c command subcommand value "string"
    | [command, subcommand, value, datatype] => w.setValue P T m c command subcommand value datatype
    | _ =>
      (.returned .error, w.setResult (.text (objv.getD 0 "" ++ " " ++ objv.getD 1 "" ++
        " -- insufficient parameters\n" ++ c.usage)))

/-! ## updatetime, values and size -/

/-- `Updatetime`: the time as an `int`. -/
def updatetime (w : World ν) : Completion × World ν :=
  match w.objects this with
  | none => (.returned .error, w)
  | some c =>
    (.returned .ok, w.setResult (.text (toString (wrapInt c.pChannel.lastUpdateTime))))

/-- `ValueList`. -/
def valueList (objv : List String) (w : World ν) : Completion × World ν :=
  match w.objects this with
  | none => (.returned .error, w)
  | some c =>
    if objv.length ≠ 2 then
      (.returned .error, w.setResult (.text ("Too many command line parameters\n" ++ c.usage)))
    else (.returned .ok, w.setResult (.list c.pChannel.getAllowedValues))

/-- `Size` up to its test of the connection. -/
def sizeTest (objv : List String) (w : World ν) : (Completion × World ν) ⊕ Unit :=
  match w.objects this with
  | none => .inl (.returned .error, w)
  | some c =>
    if objv.length ≠ 2 then
      .inl (.returned .error, w.setResult (.text ("Invalid parameter count\n" ++ c.usage)))
    else if c.pChannel.fConnected then .inr ()
    else .inl (.returned .error, w.setResult (.text "Channel not connected"))

/-- The rest of `Size`. -/
def sizeUse (m : Nat) (w : World ν) : Completion × World ν :=
  match w.objects this with
  | none => (.returned .error, w)
  | some c =>
    match c.pChannel.size m with
    | .ok n => (.returned .ok, w.setResult (.text (toString (intOfSize n))))
    | .error text => (.thrown text, w)

/-- `Size`. -/
def size (m : Nat) (objv : List String) (w : World ν) : Completion × World ν :=
  match w.sizeTest this objv with
  | .inl result => result
  | .inr _ => w.sizeUse this m

/-! ## operator() -/

/-- The result of a subcommand that throws nothing. -/
def returns (r : TclCode × World ν) : Completion × World ν := (.returned r.1, r.2)

/-- `operator()`. -/
def channelCommand (m : Nat) (objv : List String) (w : World ν) : Completion × World ν :=
  match w.objects this with
  | none => (.returned .error, w)
  | some c =>
    match objv with
    | command :: subcommand :: _ =>
      if subcommand = "get" then w.get T this objv
      else if subcommand = "set" then w.set P T this m objv
      else if subcommand = "delete" then returns (.ok, w.deleteChannel resolve (getName c.name))
      else if subcommand = "updatetime" then w.updatetime this
      else if subcommand = "link" then returns (w.link resolve this objv)
      else if subcommand = "unlink" then returns (w.unlink resolve this objv)
      else if subcommand = "listlinks" then returns (w.listLinks this objv)
      else if subcommand = "values" then w.valueList this objv
      else if subcommand = "size" then w.size this m objv
      else
        (.returned .error, w.setResult (.text (command ++ " " ++ subcommand ++
          " -- Bad subcommand for channel command\n" ++ c.usage)))
    | _ =>
      (.returned .error, w.setResult (.text (objv.getD 0 "" ++
        " -- incorrect number of command parameters\n" ++ c.usage)))

end World

end EpicsTcl.Command
