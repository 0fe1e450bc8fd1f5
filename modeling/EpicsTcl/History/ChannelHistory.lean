/-
EpicsTcl.History.ChannelHistory — the snit types `controlwidget::channelHistory`
(`epicsStripChart.tcl`) and `controlwidget::channelPairHistory`
(`epicsgraph.tcl`).

A method is a `Script` on the object: what it raises ends it and leaves
what it has done. What the channel's `get` returns is an argument of
`updateData`: the elements of the list, or nothing if it raises. `delays`
are the delays passed to `after`, oldest first, and `samples` counts the
calls of `updateData`, which are the samples the entries belong to.

Time is exact: the script computes it with doubles.
-/
import EpicsTcl.History.Vector
import Mathlib.Data.Rat.Floor

namespace EpicsTcl.History

open EpicsTcl.Library

/-! ## channelHistory -/

structure ChannelHistory where
  period : Int
  timebase : Int
  lastPeriod : Int
  lastTime : Int
  maxKept : Int := 0
  tZeroMs : Int
  startSeconds : Int
  time : Vector := []
  data : Vector := []
  delays : List Int := []
  samples : Nat := 0

namespace ChannelHistory

abbrev Method := Script ChannelHistory HistoryError

/-- `${selfns}::time` followed by a vector operation. -/
def onTime (m : Script Vector HistoryError Unit) : Method Unit :=
  .zoom (·.time) (fun v s => { s with time := v }) m

def onData (m : Script Vector HistoryError Unit) : Method Unit :=
  .zoom (·.data) (fun v s => { s with data := v }) m

/-- The constructor up to its call of `updateData`. -/
def construct (N : TclNumbers) (period channel timebase : String) (seconds clicks : Int) :
    Except HistoryError ChannelHistory :=
  match N.integer period with
  | none => .error (.script
      "controlWidget::channelHistory must be constructed with an integer -period")
  | some period =>
    if period ≤ 0 then .error (.script
      "controlWidget::channelHistory must be constructed with a non negative period")
    else if channel = "" then .error (.script
      "controlWidget::channelHistory must be constructed with a -channel option value")
    else
      match N.integer timebase with
      | none => .error (.script
          "controlWidget::channelHistory must be constructed with an integer -timebase")
      | some timebase => .ok
          { period, timebase, lastPeriod := period, lastTime := seconds, tZeroMs := clicks,
            startSeconds := seconds - timebase }

/-- `clearfirst` of an integer. The list of indices is only set when it has
an element. -/
def clearfirstInt (n : Int) : Method Unit :=
  if n < 0 then .raise (.script "clearfirst requires a parameter >= 0.")
  else do
    let length ← .reads fun s => s.time.length
    let n := if (length : Int) < n then length else n.toNat
    if n = 0 then .raise (.noSuchVariable "indexlist")
    else do
      onTime (Vector.delete (List.range n))
      onData (Vector.delete (List.range n))

/-- `clearfirst`. -/
def clearfirst (N : TclNumbers) (n : String) : Method Unit :=
  match N.integer n with
  | none => .raise (.script "clearfirst requires an integer parameter")
  | some n => clearfirstInt n

/-- `clear`. -/
def clear : Method Unit := do
  let num ← .reads fun s => s.time.length
  clearfirstInt num

/-- `keep`. -/
def keep (N : TclNumbers) (n : String) : Method Unit :=
  match N.integer n with
  | none => .raise (.script "keep requires an integer parameter")
  | some n =>
    if n ≤ 0 then .raise (.script "keep requires an integer > 0")
    else .modify fun s => { s with maxKept := n }

/-- `updateperiod`. -/
def updateperiod (N : TclNumbers) (n : String) : Method Unit :=
  match N.integer n with
  | none => .raise (.script "Update periods must be in integer number of ms")
  | some n =>
    if n ≤ 0 then .raise (.script "Update periods must be > 0")
    else .modify fun s => { s with period := n }

/-- The trimming in `updateData`: `int($length - 0.9*$maxKept)`. -/
def trim : Method Unit := do
  let maxKept ← .reads (·.maxKept)
  if 0 < maxKept then do
    let length ← .reads fun s => s.time.length
    if maxKept < length then clearfirstInt ((10 * length - 9 * maxKept) / 10)

/-- `updateData`, at `now` milliseconds, where `get` returns or raises. -/
def updateData (N : TclNumbers) (now : Int) (get : Option (List String)) : Method Unit := do
  let time ← .reads fun s => (s.startSeconds : Rat) + ((now : Rat) - s.tZeroMs) / 1000
  let sample ← .reads (·.samples)
  .modify fun s => { s with lastPeriod := s.period, samples := s.samples + 1 }
  match get with
  | none => pure ()
  | some value => do
    onTime (Vector.appendNumber sample time)
    onData (Vector.append N sample value)
    trim
  .modify fun s => { s with delays := s.delays ++ [s.period] }

end ChannelHistory

/-! ## channelPairHistory -/

structure ChannelPairHistory where
  period : Int
  timebase : Int
  lastPeriod : Int
  lastTime : Rat
  maxKept : Int := 0
  time : Vector := []
  x : Vector := []
  y : Vector := []
  delays : List Int := []
  samples : Nat := 0

namespace ChannelPairHistory

abbrev Method := Script ChannelPairHistory HistoryError

def onTime (m : Script Vector HistoryError Unit) : Method Unit :=
  .zoom (·.time) (fun v s => { s with time := v }) m

def onX (m : Script Vector HistoryError Unit) : Method Unit :=
  .zoom (·.x) (fun v s => { s with x := v }) m

def onY (m : Script Vector HistoryError Unit) : Method Unit :=
  .zoom (·.y) (fun v s => { s with y := v }) m

/-- The constructor up to its call of `updateData`. -/
def construct (N : TclNumbers) (period xchannel ychannel timebase : String) (seconds : Int) :
    Except HistoryError ChannelPairHistory :=
  match N.integer period with
  | none => .error (.script
      "controlwidget::channelPairHistory: Must have an integer -period at construction")
  | some period =>
    if period ≤ 0 then .error (.script
      "controlwidget::channelPairHistory: -period must be a non negative integer value")
    else
      match N.integer timebase with
      | none => .error (.script ("controlwidget::channelPairHistory -timebase should be the " ++
          "ouptut of e.g. [clock seconds]"))
      | some timebase =>
        if xchannel = "" ∨ ychannel = "" then .error (.script
          ("controlwidget::channelPairHistory must be constructed with both -xchannel and " ++
            "-ychannel specified"))
        else .ok { period, timebase, lastPeriod := period, lastTime := seconds }

/-- The first entry of each vector is deleted. -/
def deleteFirst : Method Unit := do
  onTime (Vector.delete [0])
  onX (Vector.delete [0])
  onY (Vector.delete [0])

/-- `while {$n} {…}`. -/
def deleteLoop : Nat → Method Unit
  | 0 => pure ()
  | n + 1 => do
    deleteFirst
    deleteLoop n

/-- `clearfirst` of an integer. -/
def clearfirstInt (n : Int) : Method Unit :=
  if n < 0 then .raise (.script "channelPairHistory::clearfirst requires a parameter >= 0")
  else do
    let length ← .reads fun s => s.time.length
    deleteLoop (if (length : Int) < n then length else n.toNat)

/-- `clearfirst`. -/
def clearfirst (N : TclNumbers) (n : String) : Method Unit :=
  match N.integer n with
  | none => .raise (.script "channelPairHistory::clearfirst requires an integer parameter")
  | some n => clearfirstInt n

/-- `clear`. -/
def clear : Method Unit := do
  let num ← .reads fun s => s.time.length
  clearfirstInt num

/-- `keep`. -/
def keep (N : TclNumbers) (n : String) : Method Unit :=
  match N.integer n with
  | none => .raise (.script "channelHistoryPair::keep requires an integer parameter")
  | some n =>
    if n ≤ 0 then .raise (.script "channelHistoryPair::keep requires an integer > 0")
    else .modify fun s => { s with maxKept := n }

/-- `updateperiod`. -/
def updateperiod (N : TclNumbers) (n : String) : Method Unit :=
  match N.integer n with
  | none => .raise (.script
      "channelPairHistory::updateperiod Update periods must be in integer number of ms")
  | some n =>
    if n ≤ 0 then .raise (.script "channelPairHistory::updateperiod Update periods must be > 0")
    else .modify fun s => { s with period := n }

/-- `while {[time length] > $maxKept} {…}`. Each pass takes an entry off the
time vector, so it is enough to allow as many passes as it has entries. -/
def trimLoop (maxKept : Int) : Nat → Method Unit
  | 0 => pure ()
  | passes + 1 => do
    let length ← .reads fun s => s.time.length
    if maxKept < length then do
      deleteFirst
      trimLoop maxKept passes

/-- The trimming in `updateData`. -/
def trim : Method Unit := do
  let maxKept ← .reads (·.maxKept)
  if 0 < maxKept then do
    let length ← .reads fun s => s.time.length
    trimLoop maxKept length

/-- `updateData`, where the two `get` return or raise. -/
def updateData (N : TclNumbers) (xget yget : Option (List String)) : Method Unit := do
  let time ← .reads fun s => s.lastTime + (s.lastPeriod : Rat) / 1000
  let sample ← .reads (·.samples)
  .modify fun s => { s with lastTime := time, lastPeriod := s.period, samples := s.samples + 1 }
  let time ← .reads fun s => time - s.timebase
  match xget, yget with
  | some xdata, some ydata => do
    onTime (Vector.appendNumber sample time)
    onX (Vector.append N sample xdata)
    onY (Vector.append N sample ydata)
  | _, _ => pure ()
  trim
  .modify fun s => { s with delays := s.delays ++ [s.period] }

end ChannelPairHistory

end EpicsTcl.History
