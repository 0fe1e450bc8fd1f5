/-
EpicsTcl.Command.ExceptionTheorems — `get` and `size` while the connection
comes and goes.

`Subcommand` is a process in which one `get` or `size` is running: it takes
a step at its test of the connection and one at its use of the channel, and
connection events of that channel arrive in between. The channel throws when
it is used without a connection, and neither subcommand catches that.

`Undisturbed` asks that the channel is connected when it is used (and that
the conversion of a count that is no integer leaves its message). In runs of
undisturbed steps the subcommand ends as it should, and the first other step
ends it otherwise (`ends_well`).
-/
import EpicsTcl.Command.RejectionTheorems
import EpicsTcl.Library.Runs

namespace EpicsTcl.Command

open EpicsTcl.Channel EpicsTcl.Library

/-! ## The system -/

/-- The two subcommands. -/
inductive Reader where
  | get
  | size
  deriving DecidableEq, Repr

/-- How far the subcommand is: called with its words, past its test, or at
its end. -/
inductive Phase where
  | called (objv : List String)
  | tested (max : Nat)
  | ended (e : Completion)
  deriving DecidableEq, Repr

/-- The process with a subcommand of the command object `this`. -/
structure Subcommand (ν : Type*) where
  world : World ν
  phase : Phase

/-- A connection event of the channel, or the next step of the subcommand;
`m` is what `ca_element_count` reports. -/
inductive ReaderAction where
  | connection (args : ConnectionHandlerArgs)
  | advance (m : Nat)
  deriving DecidableEq, Repr

section

variable {ν : Type*} [DecidableEq ν] [CTCLObjectProcessor] [ChannelAccess] (resolve : String → ν)
  (T : TclObjects) (this : CommandId) (reader : Reader)

/-- Tcl has called the subcommand. -/
def Subcommand.start (w : World ν) (objv : List String) : Subcommand ν :=
  { world := w.cleared, phase := .called objv }

namespace Subcommand

/-- The test of the subcommand. -/
def test (objv : List String) (w : World ν) : (Completion × World ν) ⊕ Nat :=
  match reader with
  | .get => w.getTest T this objv
  | .size => (w.sizeTest this objv).map id fun _ => 0

/-- What it does with the channel. -/
def useChannel (max m : Nat) (w : World ν) : Completion × World ν :=
  match reader with
  | .get => w.getUse this max
  | .size => w.sizeUse this m

def step (s : Subcommand ν) : ReaderAction → Option (Subcommand ν)
  | .connection args =>
    (s.world.step resolve (.connection this args)).map fun w => { s with world := w }
  | .advance m =>
    match s.phase with
    | .called objv =>
      match test T this reader objv s.world with
      | .inl (e, w) => some ⟨w, .ended e⟩
      | .inr max => some { s with phase := .tested max }
    | .tested max =>
      let (e, w) := useChannel this reader max m s.world
      some ⟨w, .ended e⟩
    | .ended _ => none

/-- The channel is connected when it is used, and a count that is not an
integer has its message. -/
def Undisturbed (s : Subcommand ν) : ReaderAction → Prop
  | .connection _ => True
  | .advance _ =>
    match s.phase with
    | .called objv => reader = .get → ∀ a b count, objv = [a, b, count] → T.getInt count = none →
        T.intMessage count ≠ none
    | .tested _ => ∀ c, s.world.objects this = some c → c.pChannel.fConnected = true
    | .ended _ => True

/-- A subcommand that has ended has returned data or an error message. -/
def EndsWell (s : Subcommand ν) : Prop :=
  match s.phase with
  | .ended (.returned .ok) =>
    match reader with
    | .get => ∃ data, s.world.interp.result = .list data
    | .size => ∃ n : Int, s.world.interp.result = .text (toString n)
  | .ended (.returned .error) => ∃ message, message ≠ "" ∧ s.world.interp.result = .text message
  | .ended (.thrown _) => False
  | _ => True

/-- The command object lives, and nothing is stored before the test. -/
structure Inv (s : Subcommand ν) : Prop where
  lives : ∃ c, s.world.objects this = some c
  empty : ∀ objv, s.phase = .called objv → s.world.interp.result = .text ""

end Subcommand

end

/-! ## Steps -/

namespace Subcommand

section

variable {ν : Type*} {tcl : CTCLObjectProcessor} {access : ChannelAccess} {T : TclObjects}
  {this : CommandId} (reader : Reader)

/-- What the test does. -/
theorem test_cases {c : CTCLChannelCommand} {w : World ν} (hobject : w.objects this = some c)
    (objv : List String) :
    (∃ r, test T this reader objv w = .inl r ∧ Refused w r) ∨
      (∃ max, test T this reader objv w = .inr max) ∨
      (reader = .get ∧ (∃ a b count, objv = [a, b, count] ∧ T.getInt count = none ∧
        T.intMessage count = none) ∧ test T this reader objv w = .inl (.returned .error, w)) := by
  cases reader with
  | get =>
    rcases getTest_cases T hobject objv with
      h | ⟨max, hgo, -⟩ | ⟨a, b, count, h, hint, hsilent, hend⟩
    · exact .inl h
    · exact .inr (.inl ⟨max, hgo⟩)
    · exact .inr (.inr ⟨rfl, ⟨a, b, count, h, hint, hsilent⟩, hend⟩)
  | size =>
    rcases sizeTest_cases hobject objv with ⟨r, hr, hrefused⟩ | ⟨hgo, -⟩
    · exact .inl ⟨r, by simp [test, hr], hrefused⟩
    · exact .inr (.inl ⟨0, by simp [test, hgo]⟩)

/-- The use of a connected channel. -/
theorem use_connected {c : CTCLChannelCommand} {w : World ν} (hobject : w.objects this = some c)
    (hconnected : c.pChannel.fConnected = true) (max m : Nat) :
    ∃ result, useChannel this reader max m w = (.returned .ok, w.setResult result) ∧
      match reader with
      | .get => ∃ data, result = .list data
      | .size => ∃ n : Int, result = .text (toString n) := by
  cases reader with
  | get =>
    refine ⟨.list c.pChannel.vectorValue, ?_, _, rfl⟩
    simp [useChannel, World.getUse, hobject, getVector_connected hconnected]
  | size =>
    refine ⟨.text (toString (intOfSize m)), ?_, _, rfl⟩
    simp [useChannel, World.sizeUse, hobject, CChannel.size, hconnected]

/-- The use of a channel that is not connected. -/
theorem use_disconnected {c : CTCLChannelCommand} {w : World ν} (hobject : w.objects this = some c)
    (hdisconnected : c.pChannel.fConnected = false) (max m : Nat) :
    useChannel this reader max m w = (.thrown "Channel not connected", w) := by
  cases reader with
  | get => simp [useChannel, World.getUse, hobject, CChannel.getVector, hdisconnected]
  | size => simp [useChannel, World.sizeUse, hobject, CChannel.size, hdisconnected]

variable {reader} [DecidableEq ν] {resolve : String → ν} {s s' : Subcommand ν}

/-- A connection event only changes the channel. -/
theorem step_connection {w w' : World ν} {args : ConnectionHandlerArgs}
    (h : w.step resolve (.connection this args) = some w') :
    w'.interp = w.interp ∧ ∃ c, w'.objects this = some c := by
  simp only [World.step] at h
  split at h
  · cases h
  · cases h
    exact ⟨rfl, _, Function.update_self ..⟩

/-- A step of the subcommand: it ends with a message, passes its test, ends
without a message, or uses the channel. -/
theorem step_advance {c : CTCLChannelCommand} (hobject : s.world.objects this = some c) {m : Nat}
    (h : step resolve T this reader s (.advance m) = some s') :
    (∃ text, text ≠ "" ∧ s' = ⟨s.world.setResult (.text text), .ended (.returned .error)⟩) ∨
    (∃ max, s' = ⟨s.world, .tested max⟩) ∨
    ((∃ a b count, s.phase = .called [a, b, count] ∧ T.getInt count = none ∧
        T.intMessage count = none) ∧ reader = .get ∧
      s' = ⟨s.world, .ended (.returned .error)⟩) ∨
    (∃ max, s.phase = .tested max ∧
      s' = ⟨(useChannel this reader max m s.world).2,
        .ended (useChannel this reader max m s.world).1⟩) := by
  simp only [step] at h
  split at h
  · next objv hphase =>
    rcases test_cases (T := T) reader hobject objv with
      ⟨r, hr, text, htext, rfl⟩ | ⟨max, hgo⟩ | ⟨hget, ⟨a, b, count, rfl, hint, hsilent⟩, hend⟩
    · rw [hr] at h
      cases h
      exact .inl ⟨text, htext, rfl⟩
    · rw [hgo] at h
      cases h
      exact .inr (.inl ⟨max, rfl⟩)
    · rw [hend] at h
      cases h
      exact .inr (.inr (.inl ⟨⟨a, b, count, hphase, hint, hsilent⟩, hget, rfl⟩))
  · next max hphase =>
    cases h
    exact .inr (.inr (.inr ⟨max, hphase, rfl⟩))
  · cases h

theorem step_inv (inv : Inv this s) {a : ReaderAction}
    (h : step resolve T this reader s a = some s') : Inv this s' := by
  obtain ⟨c, hobject⟩ := inv.lives
  cases a with
  | connection args =>
    obtain ⟨w', hw', rfl⟩ := Option.map_eq_some_iff.mp h
    obtain ⟨hinterp, hlives⟩ := step_connection hw'
    exact ⟨hlives, fun objv hphase => hinterp ▸ inv.empty objv hphase⟩
  | advance m =>
    rcases step_advance hobject h with
      ⟨text, -, rfl⟩ | ⟨max, rfl⟩ | ⟨-, -, rfl⟩ | ⟨max, -, rfl⟩
    · exact ⟨⟨c, hobject⟩, by simp⟩
    · exact ⟨⟨c, hobject⟩, by simp⟩
    · exact ⟨⟨c, hobject⟩, by simp⟩
    · refine ⟨⟨c, ?_⟩, by simp⟩
      cases hconnected : c.pChannel.fConnected with
      | true =>
        obtain ⟨result, huse, -⟩ := use_connected reader hobject hconnected max m
        rw [huse]
        exact hobject
      | false =>
        rw [use_disconnected reader hobject hconnected]
        exact hobject

/-- An undisturbed step keeps the subcommand well. -/
theorem step_endsWell (inv : Inv this s) (hwell : EndsWell reader s) {a : ReaderAction}
    (hok : Undisturbed T this reader s a) (h : step resolve T this reader s a = some s') :
    EndsWell reader s' := by
  obtain ⟨c, hobject⟩ := inv.lives
  cases a with
  | connection args =>
    obtain ⟨w', hw', rfl⟩ := Option.map_eq_some_iff.mp h
    simpa only [EndsWell, (step_connection hw').1] using hwell
  | advance m =>
    rcases step_advance hobject h with
      ⟨text, htext, rfl⟩ | ⟨max, rfl⟩ | ⟨⟨a, b, count, hphase, hint, hsilent⟩, hget, -⟩ |
        ⟨max, hphase, rfl⟩
    · exact ⟨text, htext, rfl⟩
    · trivial
    · simp only [Undisturbed, hphase] at hok
      exact absurd hsilent (hok hget a b count rfl hint)
    · simp only [Undisturbed, hphase] at hok
      obtain ⟨result, huse, hdata⟩ := use_connected reader hobject (hok c hobject) max m
      rw [huse]
      exact hdata

/-- Any other step ends it otherwise. -/
theorem step_disturbed (inv : Inv this s) {a : ReaderAction}
    (hnot : ¬ Undisturbed T this reader s a) (h : step resolve T this reader s a = some s') :
    ¬ EndsWell reader s' := by
  obtain ⟨c, hobject⟩ := inv.lives
  cases a with
  | connection args => exact absurd trivial hnot
  | advance m =>
    simp only [Undisturbed] at hnot
    split at hnot
    · next objv hphase =>
      push Not at hnot
      obtain ⟨rfl, a, b, count, rfl, hint, hsilent⟩ := hnot
      have hend : s' = ⟨s.world, .ended (.returned .error)⟩ := by
        simp [step, hphase, test, World.getTest, hobject, hint, hsilent] at h
        exact h.symm
      rw [hend]
      rintro ⟨message, hmessage, hresult⟩
      rw [inv.empty _ hphase] at hresult
      exact hmessage (TclResult.text.inj hresult).symm
    · next max hphase =>
      push Not at hnot
      obtain ⟨c', hc', hdisconnected⟩ := hnot
      have hend : s' = ⟨s.world, .ended (.thrown "Channel not connected")⟩ := by
        simp [step, hphase, use_disconnected reader hc' (by simpa using hdisconnected)] at h
        exact h.symm
      rw [hend]
      exact id
    · exact absurd trivial hnot

/-- **No exception leaves `get` and `size`** as long as the channel is still
connected when they use it; the first time it is not, one does. -/
theorem ends_well {w : World ν} {c : CTCLChannelCommand} (hobject : w.objects this = some c)
    {objv : List String} {as : List ReaderAction}
    (h : Run (step resolve T this reader) (Undisturbed T this reader) (start w objv) as s) :
    EndsWell reader s ∧
      ∀ a s', step resolve T this reader s a = some s' →
        (EndsWell reader s' ↔ Undisturbed T this reader s a) := by
  have hboth : Inv this s ∧ EndsWell reader s := by
    refine h.invariant (fun s => Inv this s ∧ EndsWell reader s) ⟨⟨⟨c, hobject⟩, ?_⟩, trivial⟩ ?_
    · exact fun _ _ => rfl
    · exact fun s a s' ⟨inv, hwell⟩ hok hstep =>
        ⟨step_inv inv hstep, step_endsWell inv hwell hok hstep⟩
  obtain ⟨inv, hwell⟩ := hboth
  refine ⟨hwell, fun a s' hstep => ⟨?_, fun hok => step_endsWell inv hwell hok hstep⟩⟩
  intro hwell'
  by_contra hnot
  exact step_disturbed inv hnot hstep hwell'

end

attribute [local instance] CTCLObjectProcessor.global ChannelAccess.numbering

/-- A channel connects and its size is asked for. -/
theorem ends_well_size :
    ∃ s : Subcommand String, EndsWell .size s ∧ s.phase = .ended (.returned .ok) := by
  have h : Run (step id plainTcl 0 .size) (Undisturbed plainTcl 0 .size)
      (start oneChannel ["a", "size"]) _ _ :=
    .snoc (a := .advance 1) (.snoc (a := .advance 1)
      (.snoc (a := .connection ⟨.connUp, dbfLong⟩) .nil (by exact trivial) rfl)
      (by simp [Undisturbed, start]) rfl) (by intro c hc; cases hc; rfl) rfl
  exact ⟨_, (ends_well rfl h).1, rfl⟩

/-- The channel goes away between the test and the use: the exception of
`getVector` leaves the subcommand. -/
theorem disconnect_throws :
    ∃ s, Run (step id plainTcl 0 .get) Always (start oneChannel ["a", "get"])
      [.connection ⟨.connUp, dbfLong⟩, .advance 1, .connection ⟨.connDown, 0⟩, .advance 1] s ∧
      ¬ EndsWell .get s := by
  have hrun : (runAll (step id plainTcl 0 .get) (start oneChannel ["a", "get"])
      [.connection ⟨.connUp, dbfLong⟩, .advance 1, .connection ⟨.connDown, 0⟩, .advance 1]).map
        (·.phase) = some (.ended (.thrown "Channel not connected")) := by
    decide
  obtain ⟨s, hs, hphase⟩ := Option.map_eq_some_iff.mp hrun
  refine ⟨s, run_iff_runAll.mpr hs, ?_⟩
  simp [EndsWell, hphase]

end Subcommand

end EpicsTcl.Command
