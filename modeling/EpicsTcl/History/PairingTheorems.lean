/-
EpicsTcl.History.PairingTheorems — the vectors of a history stay paired as
long as every sample is one number.

`Paired` says that the entries of the vectors belong to the same samples,
place by place; so the vectors have the same length. `updateData` appends
the time first and then what `get` returned, and that may be no number, or
several, or raise.

§1 `channelHistory`, §2 `channelPairHistory`: what each method does to the
   vectors, from that what it does to the pairing, and the runs.

§3 Both (`histories_paired`).
-/
import EpicsTcl.Command.RejectionTheorems
import EpicsTcl.History.ChannelHistory
import EpicsTcl.Library.Runs

namespace EpicsTcl.History

open EpicsTcl.Channel EpicsTcl.Command EpicsTcl.Library

/-! ## Samples -/

@[simp] theorem Vector.samples_append (v v' : Vector) :
    Vector.samples (v ++ v') = v.samples ++ v'.samples := List.map_append

@[simp] theorem Vector.samples_drop (n : Nat) (v : Vector) :
    Vector.samples (v.drop n) = v.samples.drop n := List.map_drop

@[simp] theorem Vector.samples_singleton (q : Rat) (k : Nat) : Vector.samples [⟨q, k⟩] = [k] := rfl

@[simp] theorem Vector.samples_leading (l : List Rat) (k : Nat) :
    Vector.samples (l.map (⟨·, k⟩)) = List.replicate l.length k := by
  simp [Vector.samples, Function.comp_def]

theorem Vector.length_samples (v : Vector) : v.samples.length = v.length := List.length_map _

/-- One entry more on both sides: only one sample matches one sample, also
when as many old entries are dropped. -/
theorem samples_match_iff {t : List Nat} {n m k : Nat} (hn : n ≤ t.length) :
    (t ++ [k]).drop n = (t ++ List.replicate m k).drop n ↔ m = 1 := by
  rw [List.drop_append_of_le_length hn, List.drop_append_of_le_length hn,
    List.append_cancel_left_eq]
  constructor
  · intro h
    have hlength := congrArg List.length h
    simpa using hlength.symm
  · rintro rfl
    rfl

/-- A method that wants a positive number and sets an option or a variable. -/
theorem within_setPositive {σ : Type*} {E : Effect σ} {n : Option Int} {e e' : HistoryError}
    {set : Int → σ → σ} (h : ∀ n s, E.rel s (set n s)) :
    Script.Within E
      (match n with
        | none => .raise e
        | some n => if n ≤ 0 then .raise e' else .modify (set n) : Script σ HistoryError Unit) := by
  split
  · exact .raise _
  · split
    · exact .raise _
    · exact .modify (h _)

/-- The operations of a history; `γ` is what `updateData` gets to see. -/
inductive HistoryAction (γ : Type*) where
  | updateData (seen : γ)
  | clear
  | clearfirst (n : String)
  | keep (n : String)
  | updateperiod (n : String)
  deriving DecidableEq, Repr

/-! ## §1 channelHistory -/

namespace ChannelHistory

/-- Entry `i` of both vectors belongs to the same sample. -/
def Paired (s : ChannelHistory) : Prop := s.time.samples = s.data.samples

theorem Paired.length_eq {s : ChannelHistory} (h : s.Paired) : s.time.length = s.data.length := by
  rw [← Vector.length_samples, h, Vector.length_samples]

variable {s : ChannelHistory}

/-- Drop the oldest entries of both vectors. -/
def dropOldest (k : Nat) (s : ChannelHistory) : ChannelHistory :=
  { s with time := s.time.drop k, data := s.data.drop k }

@[simp] theorem dropOldest_period (k : Nat) (s : ChannelHistory) :
    (s.dropOldest k).period = s.period := rfl

@[simp] theorem dropOldest_delays (k : Nat) (s : ChannelHistory) :
    (s.dropOldest k).delays = s.delays := rfl

theorem Paired.dropOldest (h : s.Paired) (k : Nat) : (s.dropOldest k).Paired := by
  unfold Paired at h ⊢
  simp [ChannelHistory.dropOldest, h]

/-- What `clearfirst` does with a count: it is limited to the length, and
without an index there is no list of indices. -/
theorem clearfirstInt_natCast (n : Nat) (s : ChannelHistory) :
    clearfirstInt n s =
      if min n s.time.length = 0 then (.error (.noSuchVariable "indexlist"), s)
      else (do
        onTime (Vector.delete (List.range (min n s.time.length)))
        onData (Vector.delete (List.range (min n s.time.length))) : Method Unit) s := by
  have hneg : ¬ (n : Int) < 0 := by omega
  have hlimit : (if (s.time.length : Int) < n then s.time.length else (n : Int).toNat) =
      min n s.time.length := by
    split <;> omega
  rw [clearfirstInt, if_neg hneg, Script.bind_apply, Script.reads_apply]
  simp only [hlimit]
  split <;> rfl

theorem clearfirstInt_of_le {k : Nat} (hpos : 0 < k) (htime : k ≤ s.time.length)
    (hdata : k ≤ s.data.length) : clearfirstInt k s = (.ok (), s.dropOldest k) := by
  rw [clearfirstInt_natCast, Nat.min_eq_left htime, if_neg hpos.ne']
  simp [Script.bind_apply, onTime, onData, Script.zoom_apply, Vector.delete_range htime,
    Vector.delete_range hdata, dropOldest]

/-- `clearfirst` drops as many entries of both vectors, also when it raises. -/
theorem clearfirstInt_snd (h : s.time.length = s.data.length) (n : Int) :
    (clearfirstInt n s).2 = s.dropOldest (min n.toNat s.time.length) := by
  have hnone : s.dropOldest 0 = s := rfl
  rcases lt_or_ge n 0 with hneg | hpos
  · have hzero : n.toNat = 0 := by omega
    simp [clearfirstInt, hneg, hzero, hnone]
  · obtain ⟨m, rfl⟩ := Int.eq_ofNat_of_zero_le hpos
    rw [Int.toNat_natCast]
    rcases Nat.eq_zero_or_pos (min m s.time.length) with hzero | hsome
    · rw [clearfirstInt_natCast, if_pos hzero, hzero, hnone]
    · have hle : min m s.time.length ≤ s.time.length := Nat.min_le_right _ _
      have hdrop := clearfirstInt_of_le hsome hle (h ▸ hle)
      rw [clearfirstInt_natCast, Nat.min_eq_left hle] at hdrop
      rw [clearfirstInt_natCast, hdrop]

/-- How many of `length` entries the trimming drops: `int($length - 0.9*$maxKept)`
if there are too many. -/
def trimCount (maxKept : Int) (length : Nat) : Nat :=
  if 0 < maxKept ∧ maxKept < length then ((10 * (length : Int) - 9 * maxKept) / 10).toNat else 0

/-- The trimming drops as many entries of both vectors. -/
theorem trim_eq (h : s.time.length ≤ s.data.length + 1) :
    trim s = (.ok (), s.dropOldest (trimCount s.maxKept s.time.length)) := by
  have hnone : s.dropOldest 0 = s := rfl
  by_cases hmax : 0 < s.maxKept ∧ s.maxKept < s.time.length
  · obtain ⟨hkeep, hlong⟩ := hmax
    obtain ⟨k, hk⟩ := Int.eq_ofNat_of_zero_le
      (show 0 ≤ (10 * (s.time.length : Int) - 9 * s.maxKept) / 10 by omega)
    have hclear := clearfirstInt_of_le (s := s) (k := k) (by omega) (by omega) (by omega)
    simp [trim, trimCount, Script.bind_apply, hkeep, hlong, hk, hclear]
  · rw [trimCount, if_neg hmax, hnone]
    rcases not_and_or.mp hmax with hkeep | hshort
    · simp [trim, Script.bind_apply, hkeep]
    · by_cases hkeep : 0 < s.maxKept
      · simp [trim, Script.bind_apply, hkeep, hshort]
      · simp [trim, Script.bind_apply, hkeep]

/-- The latest time is not dropped. -/
theorem trimCount_le (maxKept : Int) (length : Nat) : trimCount maxKept length ≤ length - 1 := by
  unfold trimCount
  split <;> omega

/-- The time of an update. -/
def stamp (now : Int) (s : ChannelHistory) : Rat :=
  (s.startSeconds : Rat) + ((now : Rat) - s.tZeroMs) / 1000

/-- An update before its data. -/
def sampled (s : ChannelHistory) : ChannelHistory :=
  { s with lastPeriod := s.period, samples := s.samples + 1 }

/-- An update with its data appended: one time and the numbers at the front of
the list. -/
def appended (N : TclNumbers) (now : Int) (value : List String) (s : ChannelHistory) :
    ChannelHistory :=
  { s.sampled with
    time := s.time ++ [Entry.mk (s.stamp now) s.samples]
    data := s.data ++ (Vector.leading N value).map fun q => Entry.mk q s.samples }

/-- The next update is scheduled. -/
def scheduled (s : ChannelHistory) : ChannelHistory := { s with delays := s.delays ++ [s.period] }

/-- An update without data. -/
theorem updateData_none (N : TclNumbers) (now : Int) (s : ChannelHistory) :
    updateData N now none s = (.ok (), s.sampled.scheduled) := rfl

/-- An update with data: if all of the list is appended, some of the oldest
entries may be dropped and the next update is scheduled. -/
theorem updateData_some (N : TclNumbers) (now : Int) (value : List String)
    (h : s.time.length = s.data.length) :
    (updateData N now (some value) s).2 =
      if (Vector.leading N value).length = value.length then
        ((s.appended N now value).dropOldest
          (trimCount s.maxKept (s.time.length + 1))).scheduled
      else s.appended N now value := by
  obtain ⟨hvector, hall⟩ := Vector.append_apply N s.samples value s.data
  cases hok : (Vector.append N s.samples value s.data).1 with
  | error e =>
    have hsome : ¬ (Vector.leading N value).length = value.length := fun hlength => by
      rw [hall.mpr hlength] at hok
      cases hok
    rw [if_neg hsome]
    simp [updateData, Script.bind_apply, onTime, onData, Script.zoom_apply, Vector.appendNumber,
      hok,
      hvector, appended, sampled, stamp]
  | ok =>
    rw [if_pos (hall.mp hok)]
    have htrim := trim_eq (s := s.appended N now value) (by simp [appended]; omega)
    have hlength : (s.appended N now value).time.length = s.time.length + 1 := by simp [appended]
    rw [hlength] at htrim
    simp only [appended, sampled, stamp] at htrim
    simp [updateData, Script.bind_apply, onTime, onData, Script.zoom_apply, Vector.appendNumber,
      hok, hvector, htrim, appended, sampled, scheduled, stamp]

/-- What an update with data appends, and that as much is dropped of both
vectors. -/
theorem updateData_drop (N : TclNumbers) (now : Int) (value : List String)
    (h : s.time.length = s.data.length) :
    ∃ k ≤ s.time.length,
      (updateData N now (some value) s).2.time = (s.appended N now value).time.drop k ∧
      (updateData N now (some value) s).2.data = (s.appended N now value).data.drop k := by
  rw [updateData_some N now value h]
  split
  · exact ⟨_, trimCount_le s.maxKept (s.time.length + 1), rfl, rfl⟩
  · exact ⟨0, Nat.zero_le _, rfl, rfl⟩

/-- An update keeps the vectors paired if and only if the list has one number
at its front, and not more. -/
theorem updateData_paired_iff (N : TclNumbers) (now : Int) (value : List String) (h : s.Paired) :
    (updateData N now (some value) s).2.Paired ↔ (Vector.leading N value).length = 1 := by
  obtain ⟨k, hk, htime, hdata⟩ := updateData_drop N now value h.length_eq
  have hsamples : s.time.samples = s.data.samples := h
  have hlength : k ≤ s.time.samples.length := by simpa [Vector.length_samples] using hk
  rw [Paired, htime, hdata]
  simpa [appended, hsamples] using samples_match_iff (hsamples ▸ hlength)

/-- An operation, whether it returns or raises. -/
def step (N : TclNumbers) (s : ChannelHistory) :
    HistoryAction (Int × Option (List String)) → Option ChannelHistory
  | .updateData (now, get) => some (updateData N now get s).2
  | .clear => some (clear s).2
  | .clearfirst n => some (clearfirst N n s).2
  | .keep n => some (keep N n s).2
  | .updateperiod n => some (updateperiod N n s).2

/-- What `get` returns, if it returns, has one number at its front. -/
def OneNumber (N : TclNumbers) (_ : ChannelHistory) :
    HistoryAction (Int × Option (List String)) → Prop
  | .updateData (_, some value) => (Vector.leading N value).length = 1
  | _ => True

/-- The other methods keep the vectors paired. -/
theorem clearfirstInt_within (n : Int) :
    Script.Within (Effect.keeps Paired) (clearfirstInt n) := by
  intro s h
  exact clearfirstInt_snd h.length_eq n ▸ h.dropOldest _

theorem clearfirst_within (N : TclNumbers) (n : String) :
    Script.Within (Effect.keeps Paired) (clearfirst N n) := by
  unfold clearfirst
  split
  · exact .raise _
  · exact clearfirstInt_within _

theorem keep_within (N : TclNumbers) (n : String) :
    Script.Within (Effect.keeps Paired) (keep N n) :=
  within_setPositive fun _ _ h => h

theorem updateperiod_within (N : TclNumbers) (n : String) :
    Script.Within (Effect.keeps Paired) (updateperiod N n) :=
  within_setPositive fun _ _ h => h

theorem step_paired_iff (N : TclNumbers) (h : s.Paired)
    {a : HistoryAction (Int × Option (List String))} {s' : ChannelHistory}
    (hstep : step N s a = some s') : s'.Paired ↔ OneNumber N s a := by
  cases a with
  | updateData seen =>
    cases hstep
    obtain ⟨now, _ | value⟩ := seen
    · rw [updateData_none]
      exact iff_of_true h trivial
    · exact updateData_paired_iff N now value h
  | clear =>
    cases hstep
    exact iff_of_true (clearfirstInt_within _ s h) trivial
  | clearfirst n =>
    cases hstep
    exact iff_of_true (clearfirst_within N n s h) trivial
  | keep n =>
    cases hstep
    exact iff_of_true (keep_within N n s h) trivial
  | updateperiod n =>
    cases hstep
    exact iff_of_true (updateperiod_within N n s h) trivial

theorem construct_paired {N : TclNumbers} {period channel timebase : String} {seconds clicks : Int}
    (h : construct N period channel timebase seconds clicks = .ok s) : s.Paired := by
  simp only [construct] at h
  repeat' split at h
  all_goals cases h
  rfl

/-- Runs of one-number updates keep the vectors paired, and the first other
update does not. -/
theorem run_paired {N : TclNumbers} {s₀ : ChannelHistory} (h₀ : s₀.Paired)
    {as : List (HistoryAction (Int × Option (List String)))}
    (h : Run (step N) (OneNumber N) s₀ as s) :
    s.Paired ∧ ∀ a s', step N s a = some s' → (s'.Paired ↔ OneNumber N s a) := by
  have hpaired : s.Paired :=
    h.invariant Paired h₀ fun _ _ _ hs hone hstep => (step_paired_iff N hs hstep).mpr hone
  exact ⟨hpaired, fun _ _ hstep => step_paired_iff N hpaired hstep⟩

end ChannelHistory

/-! ## §2 channelPairHistory -/

namespace ChannelPairHistory

/-- Entry `i` of the three vectors belongs to the same sample. -/
def Paired (s : ChannelPairHistory) : Prop :=
  s.time.samples = s.x.samples ∧ s.time.samples = s.y.samples

variable {s : ChannelPairHistory}

theorem Paired.length_eq (h : s.Paired) :
    s.time.length = s.x.length ∧ s.time.length = s.y.length := by
  simp only [← Vector.length_samples]
  exact ⟨congrArg List.length h.1, congrArg List.length h.2⟩

/-- Drop the oldest entries of the three vectors. -/
def dropOldest (k : Nat) (s : ChannelPairHistory) : ChannelPairHistory :=
  { s with time := s.time.drop k, x := s.x.drop k, y := s.y.drop k }

@[simp] theorem dropOldest_period (k : Nat) (s : ChannelPairHistory) :
    (s.dropOldest k).period = s.period := rfl

@[simp] theorem dropOldest_delays (k : Nat) (s : ChannelPairHistory) :
    (s.dropOldest k).delays = s.delays := rfl

theorem dropOldest_dropOldest (j k : Nat) (s : ChannelPairHistory) :
    (s.dropOldest j).dropOldest k = s.dropOldest (j + k) := by
  simp [dropOldest, List.drop_drop]

theorem Paired.dropOldest (h : s.Paired) (k : Nat) : (s.dropOldest k).Paired := by
  simp [Paired, ChannelPairHistory.dropOldest, ← h.1, ← h.2]

theorem deleteFirst_eq (htime : 0 < s.time.length) (hx : 0 < s.x.length) (hy : 0 < s.y.length) :
    deleteFirst s = (.ok (), s.dropOldest 1) := by
  have hdelete {v : Vector} (h : 0 < v.length) : Vector.delete [0] v = (.ok (), v.drop 1) :=
    Vector.delete_range h
  simp [deleteFirst, Script.bind_apply, onTime, onX, onY, Script.zoom_apply, hdelete htime,
    hdelete hx, hdelete hy, dropOldest]

theorem deleteLoop_eq {n : Nat} (htime : n ≤ s.time.length) (hx : n ≤ s.x.length)
    (hy : n ≤ s.y.length) : deleteLoop n s = (.ok (), s.dropOldest n) := by
  induction n generalizing s with
  | zero => rfl
  | succ n ih =>
    have hfirst := deleteFirst_eq (s := s) (by omega) (by omega) (by omega)
    have hrest := ih (s := s.dropOldest 1) (by simp [dropOldest]; omega)
      (by simp [dropOldest]; omega) (by simp [dropOldest]; omega)
    rw [deleteLoop, Script.bind_ok hfirst, hrest, dropOldest_dropOldest, Nat.add_comm]

/-- `clearfirst` drops as many entries of the three vectors. -/
theorem clearfirstInt_natCast (hx : s.time.length = s.x.length) (hy : s.time.length = s.y.length)
    (n : Nat) : clearfirstInt n s = (.ok (), s.dropOldest (min n s.time.length)) := by
  have hneg : ¬ (n : Int) < 0 := by omega
  have hlimit : (if (s.time.length : Int) < n then s.time.length else (n : Int).toNat) =
      min n s.time.length := by
    split <;> omega
  have hle : min n s.time.length ≤ s.time.length := Nat.min_le_right _ _
  rw [clearfirstInt, if_neg hneg, Script.bind_apply, Script.reads_apply]
  simp only [hlimit]
  exact deleteLoop_eq hle (hx ▸ hle) (hy ▸ hle)

theorem clearfirstInt_snd (hx : s.time.length = s.x.length) (hy : s.time.length = s.y.length)
    (n : Int) : (clearfirstInt n s).2 = s.dropOldest (min n.toNat s.time.length) := by
  rcases lt_or_ge n 0 with hneg | hpos
  · have hzero : n.toNat = 0 := by omega
    simp [clearfirstInt, hneg, hzero, dropOldest]
  · obtain ⟨m, rfl⟩ := Int.eq_ofNat_of_zero_le hpos
    rw [clearfirstInt_natCast hx hy, Int.toNat_natCast]

theorem clearfirstInt_within (n : Int) :
    Script.Within (Effect.keeps Paired) (clearfirstInt n) := by
  intro s h
  obtain ⟨hx, hy⟩ := h.length_eq
  exact clearfirstInt_snd hx hy n ▸ h.dropOldest _

/-- The trimming leaves the latest `maxKept` entries of the time vector and
drops as many of the other two. -/
theorem trimLoop_eq {m passes : Nat} (hm : 0 < m) (hpasses : s.time.length ≤ passes)
    (hx : s.time.length ≤ s.x.length + 1) (hy : s.time.length ≤ s.y.length + 1) :
    trimLoop m passes s = (.ok (), s.dropOldest (s.time.length - m)) := by
  induction passes generalizing s with
  | zero =>
    have hzero : s.time.length - m = 0 := by omega
    rw [hzero]
    rfl
  | succ passes ih =>
    by_cases hlong : m < s.time.length
    · have hfirst := deleteFirst_eq (s := s) (by omega) (by omega) (by omega)
      have hrest := ih (s := s.dropOldest 1) (by simp [dropOldest]; omega)
        (by simp [dropOldest]; omega) (by simp [dropOldest]; omega)
      have hcount : 1 + ((s.dropOldest 1).time.length - m) = s.time.length - m := by
        simp [dropOldest]
        omega
      rw [dropOldest_dropOldest, hcount] at hrest
      simp [trimLoop, Script.bind_apply, hlong, hfirst, hrest]
    · have hzero : s.time.length - m = 0 := by omega
      rw [hzero]
      simp [trimLoop, Script.bind_apply, hlong, dropOldest]

/-- How many of `length` entries the trimming drops. -/
def trimCount (maxKept : Int) (length : Nat) : Nat :=
  if 0 < maxKept then length - maxKept.toNat else 0

theorem trim_eq (hx : s.time.length ≤ s.x.length + 1) (hy : s.time.length ≤ s.y.length + 1) :
    trim s = (.ok (), s.dropOldest (trimCount s.maxKept s.time.length)) := by
  by_cases hkeep : 0 < s.maxKept
  · obtain ⟨m, hm⟩ := Int.eq_ofNat_of_zero_le hkeep.le
    have hpos : 0 < m := by omega
    have hloop := trimLoop_eq hpos le_rfl hx hy
    simpa [trim, trimCount, Script.bind_apply, hkeep, hm, hpos] using hloop
  · simp [trim, trimCount, Script.bind_apply, hkeep, dropOldest]

theorem trimCount_le (maxKept : Int) (length : Nat) : trimCount maxKept length ≤ length - 1 := by
  unfold trimCount
  split <;> omega

/-- The time of an update. -/
def stamp (s : ChannelPairHistory) : Rat := s.lastTime + (s.lastPeriod : Rat) / 1000 - s.timebase

/-- An update before its data. -/
def sampled (s : ChannelPairHistory) : ChannelPairHistory :=
  { s with
    lastTime := s.lastTime + (s.lastPeriod : Rat) / 1000
    lastPeriod := s.period
    samples := s.samples + 1 }

/-- The numbers appended to the second vector: none if the first append
raises. -/
def yNumbers (N : TclNumbers) (xdata ydata : List String) : List Rat :=
  if (Vector.leading N xdata).length = xdata.length then Vector.leading N ydata else []

/-- An update with its data appended. -/
def appended (N : TclNumbers) (xdata ydata : List String) (s : ChannelPairHistory) :
    ChannelPairHistory :=
  { s.sampled with
    time := s.time ++ [Entry.mk s.stamp s.samples]
    x := s.x ++ (Vector.leading N xdata).map fun q => Entry.mk q s.samples
    y := s.y ++ (yNumbers N xdata ydata).map fun q => Entry.mk q s.samples }

/-- The next update is scheduled. -/
def scheduled (s : ChannelPairHistory) : ChannelPairHistory :=
  { s with delays := s.delays ++ [s.period] }

/-- An update in which a `get` raises only trims. -/
theorem updateData_none (N : TclNumbers) {xget yget : Option (List String)}
    (hnone : xget = none ∨ yget = none) (hx : s.time.length = s.x.length)
    (hy : s.time.length = s.y.length) :
    updateData N xget yget s =
      (.ok (), (s.sampled.dropOldest (trimCount s.maxKept s.time.length)).scheduled) := by
  have htrim := trim_eq (s := s.sampled) (by simp [sampled]; omega) (by simp [sampled]; omega)
  simp only [sampled] at htrim
  rcases hnone with rfl | rfl
  · simp [updateData, Script.bind_apply, htrim, sampled, scheduled]
  · cases xget <;> simp [updateData, Script.bind_apply, htrim, sampled, scheduled]

/-- An update with both data: if all of the lists is appended, the vectors are
trimmed and the next update is scheduled. -/
theorem updateData_some (N : TclNumbers) (xdata ydata : List String)
    (hx : s.time.length = s.x.length) (hy : s.time.length = s.y.length) :
    (updateData N (some xdata) (some ydata) s).2 =
      if (Vector.leading N xdata).length = xdata.length ∧
          (Vector.leading N ydata).length = ydata.length then
        ((s.appended N xdata ydata).dropOldest
          (trimCount s.maxKept (s.time.length + 1))).scheduled
      else s.appended N xdata ydata := by
  obtain ⟨hxvector, hxok⟩ := Vector.append_apply N s.samples xdata s.x
  obtain ⟨hyvector, hyok⟩ := Vector.append_apply N s.samples ydata s.y
  cases hxend : (Vector.append N s.samples xdata s.x).1 with
  | error e =>
    have hsome : ¬ (Vector.leading N xdata).length = xdata.length := fun hall => by
      rw [hxok.mpr hall] at hxend
      cases hxend
    simp [hsome, updateData, Script.bind_apply, onTime, onX, Script.zoom_apply, Vector.appendNumber,
      hxend, hxvector, appended, sampled, stamp, yNumbers]
  | ok =>
    have hall := hxok.mp hxend
    cases hyend : (Vector.append N s.samples ydata s.y).1 with
    | error e =>
      have hsome : ¬ (Vector.leading N ydata).length = ydata.length := fun hall => by
        rw [hyok.mpr hall] at hyend
        cases hyend
      simp [hall, hsome, updateData, Script.bind_apply, onTime, onX, onY, Script.zoom_apply,
        Vector.appendNumber, hxend, hxvector, hyend, hyvector, appended, sampled, stamp, yNumbers]
    | ok =>
      have htrim := trim_eq (s := s.appended N xdata ydata) (by simp [appended]; omega)
        (by simp [appended]; omega)
      have hlength : (s.appended N xdata ydata).time.length = s.time.length + 1 := by
        simp [appended]
      rw [hlength] at htrim
      simp only [appended, sampled, stamp, yNumbers, hall, if_true] at htrim
      simp [hall, hyok.mp hyend, updateData, Script.bind_apply, onTime, onX, onY, Script.zoom_apply,
        Vector.appendNumber, hxend, hxvector, hyend, hyvector, htrim, appended, sampled, scheduled,
        stamp, yNumbers]

/-- What an update with both data appends, and that as much is dropped of the
three vectors. -/
theorem updateData_drop (N : TclNumbers) (xdata ydata : List String)
    (hx : s.time.length = s.x.length) (hy : s.time.length = s.y.length) :
    ∃ k ≤ s.time.length,
      (updateData N (some xdata) (some ydata) s).2.time =
        (s.appended N xdata ydata).time.drop k ∧
      (updateData N (some xdata) (some ydata) s).2.x = (s.appended N xdata ydata).x.drop k ∧
      (updateData N (some xdata) (some ydata) s).2.y = (s.appended N xdata ydata).y.drop k := by
  rw [updateData_some N xdata ydata hx hy]
  split
  · exact ⟨_, trimCount_le s.maxKept (s.time.length + 1), rfl, rfl, rfl⟩
  · exact ⟨0, Nat.zero_le _, rfl, rfl, rfl⟩

/-- An update keeps the vectors paired if and only if the first list is one
number and the second has one number at its front. -/
theorem updateData_paired_iff (N : TclNumbers) (xdata ydata : List String) (h : s.Paired) :
    (updateData N (some xdata) (some ydata) s).2.Paired ↔
      xdata.length = 1 ∧ (Vector.leading N xdata).length = 1 ∧
        (Vector.leading N ydata).length = 1 := by
  obtain ⟨hx, hy⟩ := h.length_eq
  obtain ⟨k, hk, htime, hxvector, hyvector⟩ := updateData_drop N xdata ydata hx hy
  have hlength : k ≤ s.time.samples.length := by simpa [Vector.length_samples] using hk
  rw [Paired, htime, hxvector, hyvector]
  have hboth := and_congr
    (samples_match_iff (m := (Vector.leading N xdata).length) (k := s.samples) hlength)
    (samples_match_iff (m := (yNumbers N xdata ydata).length) (k := s.samples) hlength)
  have hnumbers : (Vector.leading N xdata).length = 1 ∧ (yNumbers N xdata ydata).length = 1 ↔
      xdata.length = 1 ∧ (Vector.leading N xdata).length = 1 ∧
        (Vector.leading N ydata).length = 1 := by
    unfold yNumbers
    split
    · omega
    · simp
      omega
  rw [← hnumbers]
  simpa [appended, ← h.1, ← h.2] using hboth

/-- An operation, whether it returns or raises. -/
def step (N : TclNumbers) (s : ChannelPairHistory) :
    HistoryAction (Option (List String) × Option (List String)) → Option ChannelPairHistory
  | .updateData (xget, yget) => some (updateData N xget yget s).2
  | .clear => some (clear s).2
  | .clearfirst n => some (clearfirst N n s).2
  | .keep n => some (keep N n s).2
  | .updateperiod n => some (updateperiod N n s).2

/-- If both `get` return, the x channel's returns one number and nothing else,
and what the y channel's returns has one number at its front. -/
def OneNumber (N : TclNumbers) (_ : ChannelPairHistory) :
    HistoryAction (Option (List String) × Option (List String)) → Prop
  | .updateData (some xdata, some ydata) =>
    xdata.length = 1 ∧ (Vector.leading N xdata).length = 1 ∧ (Vector.leading N ydata).length = 1
  | _ => True

/-- The other methods keep the vectors paired. -/
theorem clearfirst_within (N : TclNumbers) (n : String) :
    Script.Within (Effect.keeps Paired) (clearfirst N n) := by
  unfold clearfirst
  split
  · exact .raise _
  · exact clearfirstInt_within _

theorem keep_within (N : TclNumbers) (n : String) :
    Script.Within (Effect.keeps Paired) (keep N n) :=
  within_setPositive fun _ _ h => h

theorem updateperiod_within (N : TclNumbers) (n : String) :
    Script.Within (Effect.keeps Paired) (updateperiod N n) :=
  within_setPositive fun _ _ h => h

theorem step_paired_iff (N : TclNumbers) (h : s.Paired)
    {a : HistoryAction (Option (List String) × Option (List String))} {s' : ChannelPairHistory}
    (hstep : step N s a = some s') : s'.Paired ↔ OneNumber N s a := by
  cases a with
  | updateData seen =>
    cases hstep
    obtain ⟨hx, hy⟩ := h.length_eq
    have hnone : ∀ xget yget, xget = none ∨ yget = none → (updateData N xget yget s).2.Paired := by
      intro xget yget hnone
      rw [updateData_none N hnone hx hy]
      exact Paired.dropOldest (s := s.sampled) h _
    obtain ⟨_ | xdata, _ | ydata⟩ := seen
    · exact iff_of_true (hnone _ _ (.inl rfl)) trivial
    · exact iff_of_true (hnone _ _ (.inl rfl)) trivial
    · exact iff_of_true (hnone _ _ (.inr rfl)) trivial
    · exact updateData_paired_iff N xdata ydata h
  | clear =>
    cases hstep
    exact iff_of_true (clearfirstInt_within _ s h) trivial
  | clearfirst n =>
    cases hstep
    exact iff_of_true (clearfirst_within N n s h) trivial
  | keep n =>
    cases hstep
    exact iff_of_true (keep_within N n s h) trivial
  | updateperiod n =>
    cases hstep
    exact iff_of_true (updateperiod_within N n s h) trivial

theorem construct_paired {N : TclNumbers} {period xchannel ychannel timebase : String}
    {seconds : Int} (h : construct N period xchannel ychannel timebase seconds = .ok s) :
    s.Paired := by
  simp only [construct] at h
  repeat' split at h
  all_goals cases h
  exact ⟨rfl, rfl⟩

/-- Runs of one-number updates keep the vectors paired, and the first other
update does not. -/
theorem run_paired {N : TclNumbers} {s₀ : ChannelPairHistory} (h₀ : s₀.Paired)
    {as : List (HistoryAction (Option (List String) × Option (List String)))}
    (h : Run (step N) (OneNumber N) s₀ as s) :
    s.Paired ∧ ∀ a s', step N s a = some s' → (s'.Paired ↔ OneNumber N s a) := by
  have hpaired : s.Paired :=
    h.invariant Paired h₀ fun _ _ _ hs hone hstep => (step_paired_iff N hs hstep).mpr hone
  exact ⟨hpaired, fun _ _ hstep => step_paired_iff N hpaired hstep⟩

end ChannelPairHistory

/-! ## §3 Both -/

/-- **The vectors of a history stay paired** in runs in which every sample is
one number, and the first other sample ends that. -/
theorem histories_paired (N : TclNumbers) :
    (∀ {period channel timebase : String} {seconds clicks : Int} {s₀ s : ChannelHistory}
        {as : List (HistoryAction (Int × Option (List String)))},
      ChannelHistory.construct N period channel timebase seconds clicks = .ok s₀ →
      Run (ChannelHistory.step N) (ChannelHistory.OneNumber N) s₀ as s →
      s.Paired ∧ ∀ a s', ChannelHistory.step N s a = some s' →
        (s'.Paired ↔ ChannelHistory.OneNumber N s a)) ∧
    ∀ {period xchannel ychannel timebase : String} {seconds : Int} {s₀ s : ChannelPairHistory}
        {as : List (HistoryAction (Option (List String) × Option (List String)))},
      ChannelPairHistory.construct N period xchannel ychannel timebase seconds = .ok s₀ →
      Run (ChannelPairHistory.step N) (ChannelPairHistory.OneNumber N) s₀ as s →
      s.Paired ∧ ∀ a s', ChannelPairHistory.step N s a = some s' →
        (s'.Paired ↔ ChannelPairHistory.OneNumber N s a) :=
  ⟨fun h₀ => ChannelHistory.run_paired (ChannelHistory.construct_paired h₀),
    fun h₀ => ChannelPairHistory.run_paired (ChannelPairHistory.construct_paired h₀)⟩

/-- Numbers without sign and fraction. -/
def plainNumbers : TclNumbers where
  number word := (digitsValue 0 word.toList).map fun n => (n : Rat)
  integer word := (digitsValue 0 word.toList).map fun n => (n : Int)

/-- Two samples, of which the latest is kept. -/
theorem histories_paired_two :
    (∃ s : ChannelHistory, s.Paired ∧ s.time.length = 1) ∧
      ∃ s : ChannelPairHistory, s.Paired ∧ s.time.length = 1 := by
  have hline : Run (ChannelHistory.step plainNumbers) (ChannelHistory.OneNumber plainNumbers)
      { period := 1000, timebase := 0, lastPeriod := 1000, lastTime := 0, tZeroMs := 0,
        startSeconds := 0 } _ _ :=
    .snoc (a := .updateData (2000, some ["6"])) (.snoc (a := .keep "1")
      (.snoc (a := .updateData (1000, some ["5"])) .nil (by exact rfl) rfl)
      (by exact trivial) rfl) (by exact rfl) rfl
  have hpair : Run (ChannelPairHistory.step plainNumbers)
      (ChannelPairHistory.OneNumber plainNumbers)
      { period := 1000, timebase := 0, lastPeriod := 1000, lastTime := 0 } _ _ :=
    .snoc (a := .updateData (some ["6"], some ["8"])) (.snoc (a := .keep "1")
      (.snoc (a := .updateData (some ["5"], some ["7"])) .nil (by exact ⟨rfl, rfl, rfl⟩) rfl)
      (by exact trivial) rfl) (by exact ⟨rfl, rfl, rfl⟩) rfl
  have hlineStart : ChannelHistory.construct plainNumbers "1000" "a" "0" 0 0 = .ok _ := rfl
  have hpairStart : ChannelPairHistory.construct plainNumbers "1000" "a" "b" "0" 0 = .ok _ := rfl
  exact ⟨⟨_, ((histories_paired plainNumbers).1 hlineStart hline).1, by decide⟩,
    _, ((histories_paired plainNumbers).2 hpairStart hpair).1, by decide⟩

section

attribute [local instance] CTCLObjectProcessor.global ChannelAccess.numbering

/-- A channel that is connected and has had no update: `get` returns the empty
list, and the time vector gets an entry without data. -/
theorem empty_sample_unpairs :
    ((oneChannel.step id (.connection 0 ⟨.connUp, dbfLong⟩)).map fun w =>
      let r := w.channelCommand id plainPlatform plainTcl 0 1 ["a", "get"]
      (r.1, r.2.interp.result)) = some (.returned .ok, .list []) ∧
    ∃ s₀ s, ChannelHistory.construct plainNumbers "1000" "a" "0" 0 0 = .ok s₀ ∧
      Run (ChannelHistory.step plainNumbers) Always s₀ [.updateData (0, some [])] s ∧
      ¬ s.Paired := by
  refine ⟨by decide, _, _, rfl, run_iff_runAll.mpr rfl, ?_⟩
  intro h
  exact absurd (ChannelHistory.Paired.length_eq h) (by decide)

end

end EpicsTcl.History
