/-
EpicsTcl.Support.CSocket — the class `CSocket` (`CSocket.cpp`): a socket, its
state and its descriptor.

What the system calls and the lookups of names and services answer is part of
each call (`SocketCall`); `socket(2)` succeeds. The kernel keeps a record of
every descriptor that it has given to this object, the last one first, and of
the calls of `read(2)` and `write(2)`. A number may be given again, so a call
on a number is about the last descriptor that had it.

`OpenSocket` tests a pointer that it has never set (the one that it sets is
declared in an inner block); `Reopening.entry` says whether it happens not to
be null. Arithmetic of `int` wraps. The loop of `Write` runs for at most so
many rounds.
-/
import EpicsTcl.Channel.Values
import EpicsTcl.Library.Loop

namespace EpicsTcl.Support

open EpicsTcl.Channel EpicsTcl.Library

/-- `CSocket::State`. -/
inductive SocketState where
  | disconnected
  | bound
  | listening
  | connected
  deriving DecidableEq, Repr

/-- What is thrown, by class. -/
inductive SocketError where
  /-- `CTCPBadSocketState`. -/
  | badSocketState (state : SocketState) (allowed : List SocketState) (action : String)
  /-- `CTCPNoSuchHost`. -/
  | noSuchHost (action : String)
  /-- `CTCPNoSuchService`. -/
  | noSuchService
  /-- `CTCPConnectionFailed`. -/
  | connectionFailed (action : String)
  /-- `CTCPConnectionLost`. -/
  | connectionLost (action : String)
  /-- `CErrnoException`. -/
  | errnoException (action : String)
  deriving DecidableEq, Repr

/-! ## The kernel -/

/-- A descriptor that `socket(2)` has returned. -/
structure Descriptor where
  number : Nat
  /-- A `connect(2)` has succeeded. -/
  connected : Bool := false
  /-- A `bind(2)` has succeeded. -/
  bound : Bool := false
  closes : Nat := 0
  deriving DecidableEq, Repr

/-- How `read(2)` or `write(2)` ends: with so many bytes and one more, or with
all that are asked for if these are fewer; with 0; with -1. -/
inductive Transfer where
  | bytes (most : Nat)
  | nothing
  | error
  deriving DecidableEq, Repr

/-- The value of the call. -/
def Transfer.value (asked : Nat) : Transfer → Int
  | .bytes most => min (most + 1) asked
  | .nothing => 0
  | .error => -1

/-- An answer of `write(2)`; `epipe` is whether `errno` is `EPIPE` afterwards. -/
structure Answer where
  transfer : Transfer
  epipe : Bool
  deriving DecidableEq, Repr

/-- What `OpenSocket` finds: the pointer that it tests, and the new number. -/
structure Reopening where
  entry : Bool
  number : Nat
  deriving DecidableEq, Repr

/-- A call of `read(2)` or `write(2)`, the latter from this offset of the buffer on. -/
inductive IOCall where
  | read (asked : Nat) (value : Int)
  | write (offset asked : Nat) (value : Int)
  deriving DecidableEq, Repr

/-! ## The object -/

/-- The member variables, and the records of the kernel. -/
structure CSocket where
  /-- `m_Fd`. -/
  fd : Int := -1
  /-- `m_State`. -/
  state : SocketState := .disconnected
  descriptors : List Descriptor := []
  calls : List IOCall := []
  deriving DecidableEq, Repr

/-- Change the last descriptor of this number. -/
def onLast (number : Int) (change : Descriptor → Descriptor) : List Descriptor → List Descriptor
  | [] => []
  | d :: rest =>
    if (d.number : Int) = number then change d :: rest else d :: onLast number change rest

/-- An integer as an `int`. -/
def narrow (n : Int) : Int := Int.bmod n (2 ^ 32)

namespace CSocket

abbrev Method := Script CSocket (Stop SocketError)

def throw {α : Type} (e : SocketError) : Method α := .raise (.raised e)

def setState (state : SocketState) : Method Unit := .modify fun s => { s with state := state }

def log (call : IOCall) : Method Unit := .modify fun s => { s with calls := s.calls ++ [call] }

/-- A system call changes the descriptor `m_Fd`. -/
def onFd (change : Descriptor → Descriptor) : Method Unit :=
  .modify fun s => { s with descriptors := onLast s.fd change s.descriptors }

def close : Method Unit := onFd fun d => { d with closes := d.closes + 1 }

/-- The check of the state that the members begin with. -/
def require (allowed : SocketState) (action : String) : Method Unit := do
  let state ← .reads (·.state)
  if state ≠ allowed then throw (.badSocketState state [allowed] action) else pure ()

def openSocket (reopen : Reopening) : Method Unit := do
  if !reopen.entry then throw (.errnoException "Getting TCP protocol num from getprotoent(3)")
  else .modify fun s =>
    { s with fd := reopen.number, descriptors := { number := reopen.number } :: s.descriptors }

/-- `Connect` to an address. -/
def connect (connects : Bool) : Method Unit := do
  require .disconnected "CSocket::Connect"
  if !connects then throw (.connectionFailed "CSocket::Connect client connect(2) failed")
  else do
    onFd fun d => { d with connected := true }
    setState .connected

/-- `Connect` to a host and a service, either of which may not be found. -/
def connectTo (host service connects : Bool) : Method Unit := do
  require .disconnected "CSocket::Connect"
  if !host then throw (.noSuchHost "Null return from gethostbyname(3)")
  else if !service then throw .noSuchService
  else connect connects

def bind (service binds : Bool) : Method Unit := do
  require .disconnected "CSocket::Bind"
  if !service then throw .noSuchService
  else if !binds then throw (.errnoException "Error from bind(2) in CSocket::Bind()")
  else do
    onFd fun d => { d with bound := true }
    setState .bound

def listen (listens : Bool) : Method Unit := do
  require .bound "CSocket::Listen"
  if !listens then throw (.errnoException "CSocket::Listen listen(2) failed")
  else setState .listening

/-- The new object has the descriptor of the peer. -/
def accept (peer : Option Nat) : Method CSocket := do
  require .listening "CSocket::Accept"
  match peer with
  | none => throw (.errnoException "CSocket::Accept accept(2) failed")
  | some peerFd => pure { fd := peerFd, state := .connected }

def shutdown (shuts : Bool) (reopen : Reopening) : Method Unit := do
  require .connected "CSocket::Shutdown"
  if !shuts then throw (.errnoException "CSocket::Shutdown failed in call to shutdown(2)")
  else do
    setState .disconnected
    close
    .modify fun s => { s with fd := -1 }
    openSocket reopen

def read (nBytes : Nat) (transfer : Transfer) (reopen : Reopening) : Method Int := do
  require .connected "CSocket::Read()"
  log (.read nBytes (transfer.value nBytes))
  let nB := narrow (transfer.value nBytes)
  if nB = 0 then do
    setState .disconnected
    close
    openSocket reopen
    throw (.connectionLost "CSocket::Read: from read(2)")
  else if nB < 0 then do
    setState .disconnected
    throw (.errnoException "CSocket::Read failed read(2)")
  else pure nB

/-! ## `Write` -/

/-- The variables of the loop, and the number of calls so far. -/
structure Writing where
  p : Nat := 0
  resid : Int
  nWritten : Int := 0
  calls : Nat := 0
  deriving DecidableEq, Repr

/-- What `write(2)` returns in this round, as a `ssize_t`. -/
def Writing.value (answers : Nat → Answer) (w : Writing) : Int :=
  (answers w.calls).transfer.value (sizeOfInt w.resid)

/-- `n`. -/
def Writing.n (answers : Nat → Answer) (w : Writing) : Int := narrow (w.value answers)

/-- The variables after a successful write. -/
def Writing.next (answers : Nat → Answer) (w : Writing) : Writing where
  p := w.p + (w.n answers).toNat
  resid := narrow (w.resid - w.n answers)
  nWritten := narrow (w.nWritten + w.n answers)
  calls := w.calls + 1

/-- A round of the loop. -/
def writeRound (answers : Nat → Answer) (reopen : Reopening) (w : Writing) :
    Method (Writing ⊕ Int) := do
  if w.resid ≠ 0 then do
    log (.write w.p (sizeOfInt w.resid) (w.value answers))
    if 0 < w.n answers then pure (.inl (w.next answers))
    else if 0 < w.nWritten then pure (.inr w.nWritten)
    else if (answers w.calls).epipe then do
      setState .disconnected
      close
      openSocket reopen
      throw (.connectionLost "CSocket::Write - first write of loop")
    else do
      setState .disconnected
      throw (.errnoException "CSocket::Write failed write(2)")
  else pure (.inr w.nWritten)

/-- `Write`. The state is not looked at. -/
def write (nBytes : Nat) (answers : Nat → Answer) (reopen : Reopening) (rounds : Nat) :
    Method Int :=
  .loop (writeRound answers reopen) rounds { resid := intOfSize nBytes }

/-- The default constructor. -/
def construct (reopen : Reopening) : Except (Stop SocketError) Unit × CSocket :=
  openSocket reopen {}

/-- The last part of the destructor. The descriptor 0 is not closed. -/
def closeIfPositive : Method Unit := do
  let fd ← .reads (·.fd)
  if 0 < fd then close else pure ()

/-- The destructor. -/
def destroy (shuts : Bool) (reopen : Reopening) : Method Unit := do
  let state ← .reads (·.state)
  if state = .connected then do
    shutdown shuts reopen
    closeIfPositive
  else closeIfPositive

end CSocket

/-! ## An object at work -/

inductive SocketCall where
  | connect (connects : Bool)
  | connectTo (host service connects : Bool)
  | bind (service binds : Bool)
  | listen (listens : Bool)
  | accept (peer : Option Nat)
  | shutdown (shuts : Bool) (reopen : Reopening)
  | read (nBytes : Nat) (transfer : Transfer) (reopen : Reopening)
  | write (nBytes : Nat) (answers : Nat → Answer) (reopen : Reopening) (rounds : Nat)

namespace CSocket

/-- A call, without its value. -/
def invoke : SocketCall → Method Unit
  | .connect connects => connect connects
  | .connectTo host service connects => connectTo host service connects
  | .bind service binds => bind service binds
  | .listen listens => listen listens
  | .accept peer => do
    let _ ← accept peer
    pure ()
  | .shutdown shuts reopen => shutdown shuts reopen
  | .read nBytes transfer reopen => do
    let _ ← read nBytes transfer reopen
    pure ()
  | .write nBytes answers reopen rounds => do
    let _ ← write nBytes answers reopen rounds
    pure ()

/-- A call that comes to an end, with or without an exception. -/
def step (s : CSocket) (call : SocketCall) : Option CSocket :=
  match invoke call s with
  | (.error .running, _) => none
  | (_, t) => some t

end CSocket

end EpicsTcl.Support
