/-
EpicsTcl.History.KeepTheorems — bounded histories keep the newest points.

A `Ledger` is a history together with all the points ever appended to it, the
number of points taken away by `clear` and `clearfirst`, and the argument of
the last `keep`. The two snit types differ in what they append and in how
they trim; `Kind` is what they have in common and `Kind.Laws` what their
methods do to the points. From the laws alone, the points held are the
newest of those appended (`Kind.Laws.newest`).

§1 is the statement, §2 the step from the laws to the runs, §3 and §4 the
laws of `channelHistory` and `channelPairHistory`, §5 both
(`keep_newest`).
-/
import EpicsTcl.History.PairingTheorems

namespace EpicsTcl.History

open EpicsTcl.Library

variable {σ γ P : Type*}

/-! ## §1 Statement -/

/-- The number in a list of exactly one number. -/
def oneNumber (N : TclNumbers) : List String → Option Rat
  | [word] => N.number word
  | _ => none

/-- A type of histories: `γ` is what `updateData` gets to see. -/
structure Kind (σ γ P : Type*) where
  step : σ → HistoryAction γ → Option σ
  vectors : σ → List Vector
  points : σ → List P
  /-- What the `get` calls that were successful returned. -/
  gets : γ → List (List String)
  /-- The point that an update appends. -/
  point : σ → γ → Option P

/-- A history and what was done to it. -/
structure Ledger (σ P : Type*) where
  history : σ
  appended : List P := []
  cleared : Nat := 0
  lastKeep : Option Nat := none

/-- The argument of a `keep` that returns. -/
def keepArgument (N : TclNumbers) (n : String) : Option Nat :=
  match N.integer n with
  | some n => if 0 < n then some n.toNat else none
  | none => none

/-- How many of `length` points a `clearfirst` takes away. -/
def clearfirstCount (N : TclNumbers) (n : String) (length : Nat) : Nat :=
  match N.integer n with
  | some n => min n.toNat length
  | none => 0

namespace Ledger

variable (N : TclNumbers) (K : Kind σ γ P)

def step (L : Ledger σ P) (a : HistoryAction γ) : Option (Ledger σ P) :=
  (K.step L.history a).map fun s =>
    match a with
    | .updateData seen =>
      { L with history := s, appended := L.appended ++ (K.point L.history seen).toList }
    | .clear => { L with history := s, cleared := L.cleared + (K.points L.history).length }
    | .clearfirst n =>
      { L with
        history := s
        cleared := L.cleared + clearfirstCount N n (K.points L.history).length }
    | .keep n => { L with history := s, lastKeep := (keepArgument N n).or L.lastKeep }
    | .updateperiod _ => { L with history := s }

/-- Every `get` that is successful returns exactly one number. -/
def GetsOne (_ : Ledger σ P) : HistoryAction γ → Prop
  | .updateData seen => ∀ value ∈ K.gets seen, (oneNumber N value).isSome
  | _ => True

instance (L : Ledger σ P) (a : HistoryAction γ) : Decidable (L.GetsOne N K a) :=
  match a with
  | .updateData _ => inferInstanceAs (Decidable (∀ _ ∈ _, _))
  | .clear | .clearfirst _ | .keep _ | .updateperiod _ => inferInstanceAs (Decidable True)

/-- The history holds the newest points. `bound k p n` says what the last
`keep` k demands of the number n after an update that found p points. -/
structure Newest (bound : Nat → Nat → Nat → Prop) (L : Ledger σ P) : Prop where
  /-- Every vector has an entry for each point. -/
  vectors : ∀ v ∈ K.vectors L.history, v.length = (K.points L.history).length
  suffix : K.points L.history <:+ L.appended
  /-- Without a `keep`, only `clear` and `clearfirst` took points away. -/
  whole : L.lastKeep = none → K.points L.history = L.appended.drop L.cleared
  bounded : ∀ k seen L', L.lastKeep = some k → L.GetsOne N K (.updateData seen) →
    (K.point L.history seen).isSome → L.step N K (.updateData seen) = some L' →
    bound k (K.points L.history).length (K.points L'.history).length

end Ledger

namespace ChannelHistory

/-- The entries of the vectors, place by place. -/
def points (s : ChannelHistory) : List (Rat × Rat) :=
  (s.time.map (·.value)).zip (s.data.map (·.value))

def kind (N : TclNumbers) : Kind ChannelHistory (Int × Option (List String)) (Rat × Rat) where
  step := step N
  vectors s := [s.time, s.data]
  points := points
  gets seen := seen.2.toList
  point s seen := seen.2.bind fun value => (oneNumber N value).map fun q => (s.stamp seen.1, q)

/-- At most `k`, and at least nine tenths of it once there are as many. -/
def KeepBound (k p n : Nat) : Prop := n ≤ k ∧ min (p + 1) ⌈(9 * k : Rat) / 10⌉₊ ≤ n

end ChannelHistory

namespace ChannelPairHistory

/-- The entries of the vectors, place by place. -/
def points (s : ChannelPairHistory) : List (Rat × Rat × Rat) :=
  (s.time.map (·.value)).zip ((s.x.map (·.value)).zip (s.y.map (·.value)))

def kind (N : TclNumbers) :
    Kind ChannelPairHistory (Option (List String) × Option (List String)) (Rat × Rat × Rat) where
  step := step N
  vectors s := [s.time, s.x, s.y]
  points := points
  gets seen := seen.1.toList ++ seen.2.toList
  point s seen :=
    seen.1.bind fun xdata => seen.2.bind fun ydata =>
      (oneNumber N xdata).bind fun q => (oneNumber N ydata).map fun q' => (s.stamp, q, q')

/-- Exactly the newest `k`. -/
def KeepBound (k p n : Nat) : Prop := n = min (p + 1) k

end ChannelPairHistory

/-! ## §2 From the methods to the runs -/

/-- What the methods of a type do to the points. `Good` is what they keep true
of the history. -/
structure Kind.Laws (N : TclNumbers) (K : Kind σ γ P) (maxKept : σ → Int) (Good : σ → Prop)
    (bound : Nat → Nat → Nat → Prop) : Prop where
  vectors : ∀ s, Good s → ∀ v ∈ K.vectors s, v.length = (K.points s).length
  updateData : ∀ s seen s', Good s → (∀ value ∈ K.gets seen, (oneNumber N value).isSome) →
    K.step s (.updateData seen) = some s' →
    Good s' ∧ maxKept s' = maxKept s ∧
      ∃ k, K.points s' = (K.points s ++ (K.point s seen).toList).drop k ∧
        (maxKept s = 0 → k = 0) ∧
        ∀ m : Nat, 0 < m → maxKept s = m → (K.point s seen).isSome →
          bound m (K.points s).length (K.points s').length
  clear : ∀ s s', Good s → K.step s .clear = some s' →
    Good s' ∧ maxKept s' = maxKept s ∧ K.points s' = (K.points s).drop (K.points s).length
  clearfirst : ∀ s n s', Good s → K.step s (.clearfirst n) = some s' →
    Good s' ∧ maxKept s' = maxKept s ∧
      K.points s' = (K.points s).drop (clearfirstCount N n (K.points s).length)
  keep : ∀ s n s', Good s → K.step s (.keep n) = some s' →
    Good s' ∧ K.points s' = K.points s ∧
      maxKept s' = ((keepArgument N n).map fun k => (k : Int)).getD (maxKept s)
  updateperiod : ∀ s n s', Good s → K.step s (.updateperiod n) = some s' →
    Good s' ∧ maxKept s' = maxKept s ∧ K.points s' = K.points s

/-- The ledger and the history agree. -/
structure Ledger.Sound (K : Kind σ γ P) (maxKept : σ → Int) (Good : σ → Prop)
    (L : Ledger σ P) : Prop where
  good : Good L.history
  lastKeep : maxKept L.history = (L.lastKeep.map fun k => (k : Int)).getD 0
  positive : ∀ k, L.lastKeep = some k → 0 < k
  suffix : K.points L.history <:+ L.appended
  whole : L.lastKeep = none →
    L.cleared ≤ L.appended.length ∧ K.points L.history = L.appended.drop L.cleared

/-- An update that appends a point and then trims. -/
theorem Kind.updateData_of_trimmed {K : Kind σ γ P} {maxKept : σ → Int} {Good : σ → Prop}
    {bound : Nat → Nat → Nat → Prop} {trim : Int → Nat → Nat} (hzero : ∀ n, trim 0 n = 0)
    (hbound : ∀ m : Nat, 0 < m → ∀ p, bound m p (p + 1 - trim m (p + 1)))
    {s s' : σ} {seen : γ} {point : P} (hpoint : K.point s seen = some point) (hgood : Good s')
    (hkept : maxKept s' = maxKept s)
    (hpoints : K.points s' =
      (K.points s ++ [point]).drop (trim (maxKept s) ((K.points s).length + 1))) :
    Good s' ∧ maxKept s' = maxKept s ∧
      ∃ k, K.points s' = (K.points s ++ (K.point s seen).toList).drop k ∧
        (maxKept s = 0 → k = 0) ∧
        ∀ m : Nat, 0 < m → maxKept s = m → (K.point s seen).isSome →
          bound m (K.points s).length (K.points s').length := by
  refine ⟨hgood, hkept, trim (maxKept s) ((K.points s).length + 1), ?_, ?_, ?_⟩
  · rw [hpoint]
    exact hpoints
  · intro hnone
    rw [hnone, hzero]
  · intro m hm hkeep _
    rw [hpoints, hkeep, List.length_drop, List.length_append]
    exact hbound m hm _

theorem keepArgument_pos {N : TclNumbers} {n : String} {k : Nat} (h : keepArgument N n = some k) :
    0 < k := by
  unfold keepArgument at h
  split at h
  · split at h
    · cases h
      omega
    · cases h
  · cases h

namespace Ledger.Sound

variable {N : TclNumbers} {K : Kind σ γ P} {maxKept : σ → Int} {Good : σ → Prop}
  {bound : Nat → Nat → Nat → Prop} {L L' : Ledger σ P} {s : σ}

/-- Taking points away at the old end. -/
theorem drop (h : L.Sound K maxKept Good) (hgood : Good s) (hkept : maxKept s = maxKept L.history)
    {n : Nat} (hn : n ≤ (K.points L.history).length)
    (hpoints : K.points s = (K.points L.history).drop n) :
    Ledger.Sound K maxKept Good { L with history := s, cleared := L.cleared + n } where
  good := hgood
  lastKeep := hkept.trans h.lastKeep
  positive := h.positive
  suffix := by
    rw [hpoints]
    exact (List.drop_suffix n _).trans h.suffix
  whole := by
    intro hnone
    obtain ⟨hle, hwhole⟩ := h.whole hnone
    rw [hwhole, List.length_drop] at hn
    refine ⟨?_, ?_⟩
    · show L.cleared + n ≤ L.appended.length
      omega
    · rw [hpoints, hwhole, List.drop_drop]

/-- A point is appended, and perhaps old ones dropped. -/
theorem append (h : L.Sound K maxKept Good) (hgood : Good s)
    (hkept : maxKept s = maxKept L.history) (new : List P) {k : Nat}
    (hpoints : K.points s = (K.points L.history ++ new).drop k)
    (hnone : maxKept L.history = 0 → k = 0) :
    Ledger.Sound K maxKept Good { L with history := s, appended := L.appended ++ new } where
  good := hgood
  lastKeep := hkept.trans h.lastKeep
  positive := h.positive
  suffix := by
    rw [hpoints]
    refine (List.drop_suffix k _).trans ?_
    obtain ⟨gone, hgone⟩ := h.suffix
    exact ⟨gone, by rw [← List.append_assoc, hgone]⟩
  whole := by
    intro hkeep
    have hkeep : L.lastKeep = none := hkeep
    obtain ⟨hle, hwhole⟩ := h.whole hkeep
    have hzero : k = 0 := hnone (by rw [h.lastKeep, hkeep]; rfl)
    constructor
    · show L.cleared ≤ (L.appended ++ new).length
      rw [List.length_append]
      omega
    · show K.points s = (L.appended ++ new).drop L.cleared
      rw [hpoints, hzero, List.drop_zero, hwhole, List.drop_append_of_le_length hle]

/-- The points stay as they are. -/
theorem same (h : L.Sound K maxKept Good) (hgood : Good s) (hkept : maxKept s = maxKept L.history)
    (hpoints : K.points s = K.points L.history) :
    Ledger.Sound K maxKept Good { L with history := s } where
  good := hgood
  lastKeep := hkept.trans h.lastKeep
  positive := h.positive
  suffix := hpoints ▸ h.suffix
  whole hnone := hpoints ▸ h.whole hnone

theorem keep (h : L.Sound K maxKept Good) (hgood : Good s) {n : String}
    (hpoints : K.points s = K.points L.history)
    (hkept : maxKept s =
      ((keepArgument N n).map fun k => (k : Int)).getD (maxKept L.history)) :
    Ledger.Sound K maxKept Good
      { L with history := s, lastKeep := (keepArgument N n).or L.lastKeep } := by
  cases harg : keepArgument N n with
  | none =>
    rw [harg] at hkept
    exact h.same hgood hkept hpoints
  | some k =>
    rw [harg] at hkept
    refine ⟨hgood, hkept, ?_, hpoints ▸ h.suffix, fun hnone => nomatch hnone⟩
    intro j hj
    cases hj
    exact keepArgument_pos harg

theorem step (laws : K.Laws N maxKept Good bound) (h : L.Sound K maxKept Good)
    {a : HistoryAction γ} (hone : L.GetsOne N K a) (hstep : L.step N K a = some L') :
    L'.Sound K maxKept Good := by
  obtain ⟨s, hs, rfl⟩ := Option.map_eq_some_iff.mp hstep
  cases a with
  | updateData seen =>
    obtain ⟨hgood, hkept, k, hpoints, hnone, -⟩ := laws.updateData _ seen s h.good hone hs
    exact h.append hgood hkept _ hpoints hnone
  | clear =>
    obtain ⟨hgood, hkept, hpoints⟩ := laws.clear _ s h.good hs
    exact h.drop hgood hkept le_rfl hpoints
  | clearfirst n =>
    obtain ⟨hgood, hkept, hpoints⟩ := laws.clearfirst _ n s h.good hs
    refine h.drop hgood hkept ?_ hpoints
    unfold clearfirstCount
    split
    · exact Nat.min_le_right _ _
    · exact Nat.zero_le _
  | keep n =>
    obtain ⟨hgood, hpoints, hkept⟩ := laws.keep _ n s h.good hs
    exact h.keep hgood hpoints hkept
  | updateperiod n =>
    obtain ⟨hgood, hkept, hpoints⟩ := laws.updateperiod _ n s h.good hs
    exact h.same hgood hkept hpoints

theorem newest (laws : K.Laws N maxKept Good bound) (h : L.Sound K maxKept Good) :
    L.Newest N K bound where
  vectors := laws.vectors _ h.good
  suffix := h.suffix
  whole hnone := (h.whole hnone).2
  bounded := by
    intro k seen L' hkeep hone hpoint hstep
    obtain ⟨s, hs, rfl⟩ := Option.map_eq_some_iff.mp hstep
    obtain ⟨-, -, -, -, -, hbound⟩ := laws.updateData _ seen s h.good hone hs
    refine hbound k (h.positive k hkeep) ?_ hpoint
    rw [h.lastKeep, hkeep]
    rfl

end Ledger.Sound

/-- **From the laws of a type to its runs**: the history holds the newest
points. -/
theorem Kind.Laws.newest {N : TclNumbers} {K : Kind σ γ P} {maxKept : σ → Int} {Good : σ → Prop}
    {bound : Nat → Nat → Nat → Prop} (laws : K.Laws N maxKept Good bound) {s₀ : σ}
    (hgood : Good s₀) (hkept : maxKept s₀ = 0) (hempty : K.points s₀ = [])
    {as : List (HistoryAction γ)} {L : Ledger σ P}
    (h : Run (Ledger.step N K) (Ledger.GetsOne N K) { history := s₀ } as L) :
    L.Newest N K bound := by
  have hinit : Ledger.Sound K maxKept Good { history := s₀ } := {
    good := hgood
    lastKeep := hkept
    positive := fun _ hk => nomatch hk
    suffix := by rw [hempty]
    whole := fun _ => ⟨le_rfl, hempty⟩ }
  have hsound : L.Sound K maxKept Good := h.invariant (Ledger.Sound K maxKept Good) hinit
    fun _ _ _ hinv hone hstep => hinv.step laws hone hstep
  exact hsound.newest laws

/-- A method that wants a positive number and sets an option or a variable. -/
theorem setPositive_snd (N : TclNumbers) (n : String) {e e' : HistoryError} {set : Int → σ → σ}
    (s : σ) :
    ((match N.integer n with
      | none => .raise e
      | some n => if n ≤ 0 then .raise e' else .modify (set n) : Script σ HistoryError Unit) s).2 =
      ((keepArgument N n).map fun k => set k s).getD s := by
  unfold keepArgument
  cases N.integer n with
  | none => rfl
  | some n =>
    rcases lt_or_ge 0 n with hpos | hneg
    · have htoNat : (n.toNat : Int) = n := by omega
      simp [not_le.mpr hpos, hpos, htoNat]
    · simp [hneg, not_lt.mpr hneg]

theorem leading_oneNumber {N : TclNumbers} {value : List String} {q : Rat}
    (h : oneNumber N value = some q) : Vector.leading N value = [q] ∧ value.length = 1 := by
  match value with
  | [word] =>
    have hword : N.number word = some q := h
    simp [Vector.leading, hword]
  | [] | _ :: _ :: _ => cases h

/-! ## §3 channelHistory -/

namespace ChannelHistory

variable {s : ChannelHistory}

/-- As many entries in both vectors. -/
def EqualLengths (s : ChannelHistory) : Prop := s.time.length = s.data.length

theorem length_points (h : s.EqualLengths) : s.points.length = s.time.length := by
  have h : s.time.length = s.data.length := h
  simp [points, h]

theorem points_dropOldest (k : Nat) (s : ChannelHistory) :
    (s.dropOldest k).points = s.points.drop k := by
  simp only [points, dropOldest, List.map_drop, List.zip, List.drop_zipWith]

theorem points_appended {N : TclNumbers} {value : List String} {q : Rat} (h : s.EqualLengths)
    (hone : oneNumber N value = some q) (now : Int) :
    (s.appended N now value).points = s.points ++ [(s.stamp now, q)] := by
  have h : s.time.length = s.data.length := h
  obtain ⟨hleading, -⟩ := leading_oneNumber hone
  simp only [points, appended, hleading, List.map_append, List.map_cons, List.map_nil]
  rw [List.zip_append (by simp [h])]
  rfl

theorem equalLengths_dropOldest (h : s.EqualLengths) (k : Nat) : (s.dropOldest k).EqualLengths := by
  have h : s.time.length = s.data.length := h
  simp [EqualLengths, dropOldest, h]

theorem clear_snd (h : s.EqualLengths) : (clear s).2 = s.dropOldest s.time.length := by
  have hsnd := clearfirstInt_snd h s.time.length
  rwa [Int.toNat_natCast, Nat.min_self] at hsnd

theorem clearfirst_snd (N : TclNumbers) (n : String) (h : s.EqualLengths) :
    (clearfirst N n s).2 = s.dropOldest (clearfirstCount N n s.time.length) := by
  unfold clearfirst clearfirstCount
  cases N.integer n with
  | none => rfl
  | some n => exact clearfirstInt_snd h n

/-- Old points go, nothing else changes. -/
theorem dropped (h : s.EqualLengths) (n : Nat) :
    (s.dropOldest n).EqualLengths ∧ (s.dropOldest n).maxKept = s.maxKept ∧
      (s.dropOldest n).points = s.points.drop n :=
  ⟨equalLengths_dropOldest h n, rfl, points_dropOldest n s⟩

/-- What the trimming leaves of `p + 1` points. -/
theorem keepBound_trim {m : Nat} (hm : 0 < m) (p : Nat) :
    KeepBound m p (p + 1 - trimCount m (p + 1)) := by
  have hceil : ∀ n : Nat, 9 * m ≤ 10 * n → ⌈(9 * m : Rat) / 10⌉₊ ≤ n := by
    intro n hn
    rw [Nat.ceil_le, div_le_iff₀ (by norm_num)]
    have hn : (9 * m : Rat) ≤ 10 * n := by exact_mod_cast hn
    linarith
  unfold trimCount
  split
  · next hlong =>
    obtain ⟨-, hlong⟩ := hlong
    refine ⟨by omega, le_trans (Nat.min_le_right _ _) (hceil _ ?_)⟩
    omega
  · next hshort =>
    refine ⟨by omega, Nat.min_le_left _ _⟩

/-- An update in which `get` returns a number. -/
theorem laws_connected (N : TclNumbers) {value : List String} {q : Rat}
    (hq : oneNumber N value = some q) (now : Int) (h : s.EqualLengths) :
    (updateData N now (some value) s).2.EqualLengths ∧
      (updateData N now (some value) s).2.maxKept = s.maxKept ∧
      (updateData N now (some value) s).2.points =
        (s.points ++ [(s.stamp now, q)]).drop (trimCount s.maxKept (s.time.length + 1)) := by
  obtain ⟨hleading, hlength⟩ := leading_oneNumber hq
  have hall : (Vector.leading N value).length = value.length := by simp [hleading, hlength]
  have happended : (s.appended N now value).EqualLengths := by
    have h : s.time.length = s.data.length := h
    simp [EqualLengths, appended, hleading, h]
  rw [updateData_some N now value h, if_pos hall]
  refine ⟨equalLengths_dropOldest happended _, rfl, ?_⟩
  rw [← points_appended h hq now, ← points_dropOldest]
  rfl

theorem laws (N : TclNumbers) : (kind N).Laws N (·.maxKept) EqualLengths KeepBound where
  vectors := by
    intro s h v hv
    show v.length = s.points.length
    rw [length_points h]
    rcases List.mem_pair.mp hv with rfl | rfl
    · rfl
    · exact h.symm
  updateData := by
    intro s seen s' h hone hstep
    obtain ⟨now, get⟩ := seen
    cases get with
    | none =>
      cases hstep
      rw [updateData_none]
      exact ⟨h, rfl, 0, by simp [kind, sampled, scheduled, points], fun _ => rfl,
        fun _ _ _ hpoint => nomatch hpoint⟩
    | some value =>
      obtain ⟨q, hq⟩ := Option.isSome_iff_exists.mp (hone value (by simp [kind]))
      cases hstep
      obtain ⟨hgood, hkept, hpoints⟩ := laws_connected N hq now h
      have hpoint : (kind N).point s (now, some value) = some (s.stamp now, q) := by
        simp [kind, hq]
      rw [← length_points h] at hpoints
      exact Kind.updateData_of_trimmed (fun _ => by simp [trimCount])
        (fun m => keepBound_trim) hpoint hgood hkept hpoints
  clear := by
    intro s s' h hstep
    cases hstep
    show (clear s).2.EqualLengths ∧ _ ∧ (clear s).2.points = s.points.drop s.points.length
    rw [clear_snd h, length_points h]
    exact dropped h _
  clearfirst := by
    intro s n s' h hstep
    cases hstep
    show (clearfirst N n s).2.EqualLengths ∧ _ ∧
      (clearfirst N n s).2.points = s.points.drop (clearfirstCount N n s.points.length)
    rw [clearfirst_snd N n h, length_points h]
    exact dropped h _
  keep := by
    intro s n s' h hstep
    cases hstep
    rw [show (keep N n s).2 = _ from setPositive_snd N n s]
    cases keepArgument N n with
    | none => exact ⟨h, rfl, rfl⟩
    | some k => exact ⟨h, rfl, rfl⟩
  updateperiod := by
    intro s n s' h hstep
    cases hstep
    rw [show (updateperiod N n s).2 = _ from setPositive_snd N n s]
    cases keepArgument N n with
    | none => exact ⟨h, rfl, rfl⟩
    | some k => exact ⟨h, rfl, rfl⟩

end ChannelHistory

/-! ## §4 channelPairHistory -/

namespace ChannelPairHistory

variable {s : ChannelPairHistory}

/-- As many entries in the three vectors. -/
def EqualLengths (s : ChannelPairHistory) : Prop :=
  s.time.length = s.x.length ∧ s.time.length = s.y.length

theorem length_points (h : s.EqualLengths) : s.points.length = s.time.length := by
  simp [points, ← h.1, ← h.2]

theorem points_dropOldest (k : Nat) (s : ChannelPairHistory) :
    (s.dropOldest k).points = s.points.drop k := by
  simp only [points, dropOldest, List.map_drop, List.zip, List.drop_zipWith]

/-- The lists of an update in which both `get` are successful. -/
theorem appended_leading {N : TclNumbers} {xdata ydata : List String} {q q' : Rat}
    (hx : oneNumber N xdata = some q) (hy : oneNumber N ydata = some q') :
    s.appended N xdata ydata = { s.sampled with
      time := s.time ++ [Entry.mk s.stamp s.samples]
      x := s.x ++ [Entry.mk q s.samples]
      y := s.y ++ [Entry.mk q' s.samples] } := by
  obtain ⟨hxleading, hxlength⟩ := leading_oneNumber hx
  obtain ⟨hyleading, -⟩ := leading_oneNumber hy
  simp [appended, yNumbers, hxleading, hxlength, hyleading]

theorem points_appended {N : TclNumbers} {xdata ydata : List String} {q q' : Rat}
    (h : s.EqualLengths) (hx : oneNumber N xdata = some q) (hy : oneNumber N ydata = some q') :
    (s.appended N xdata ydata).points = s.points ++ [(s.stamp, q, q')] := by
  have hxy : s.x.length = s.y.length := h.1.symm.trans h.2
  simp only [points, appended_leading hx hy, List.map_append, List.map_cons, List.map_nil]
  rw [List.zip_append (by simp [hxy]), List.zip_append (by simp [h.1, hxy])]
  rfl

theorem equalLengths_dropOldest (h : s.EqualLengths) (k : Nat) :
    (s.dropOldest k).EqualLengths := by
  constructor
  · simp [dropOldest, h.1]
  · simp [dropOldest, h.2]

theorem clear_snd (h : s.EqualLengths) : (clear s).2 = s.dropOldest s.time.length := by
  have hsnd := clearfirstInt_snd h.1 h.2 s.time.length
  rwa [Int.toNat_natCast, Nat.min_self] at hsnd

theorem clearfirst_snd (N : TclNumbers) (n : String) (h : s.EqualLengths) :
    (clearfirst N n s).2 = s.dropOldest (clearfirstCount N n s.time.length) := by
  unfold clearfirst clearfirstCount
  cases N.integer n with
  | none => rfl
  | some n => exact clearfirstInt_snd h.1 h.2 n

/-- Old points go, nothing else changes. -/
theorem dropped (h : s.EqualLengths) (n : Nat) :
    (s.dropOldest n).EqualLengths ∧ (s.dropOldest n).maxKept = s.maxKept ∧
      (s.dropOldest n).points = s.points.drop n :=
  ⟨equalLengths_dropOldest h n, rfl, points_dropOldest n s⟩

/-- What the trimming leaves of `p + 1` points. -/
theorem keepBound_trim {m : Nat} (hm : 0 < m) (p : Nat) :
    KeepBound m p (p + 1 - trimCount m (p + 1)) := by
  have hpos : (0 : Int) < m := by omega
  rw [KeepBound, trimCount, if_pos hpos, Int.toNat_natCast]
  omega

/-- An update in which a `get` raises: nothing but the trimming. -/
theorem laws_unconnected (N : TclNumbers) {xget yget : Option (List String)}
    (hnone : xget = none ∨ yget = none) (h : s.EqualLengths) :
    (updateData N xget yget s).2.EqualLengths ∧
      (updateData N xget yget s).2.maxKept = s.maxKept ∧
      ∃ k, (updateData N xget yget s).2.points = s.points.drop k ∧ (s.maxKept = 0 → k = 0) := by
  rw [updateData_none N hnone h.1 h.2]
  refine ⟨equalLengths_dropOldest (s := s.sampled) h _, rfl,
    trimCount s.maxKept s.time.length, ?_, fun hzero => by simp [trimCount, hzero]⟩
  exact points_dropOldest _ s.sampled

/-- An update in which both return a number. -/
theorem laws_connected (N : TclNumbers) {xdata ydata : List String} {q q' : Rat}
    (hx : oneNumber N xdata = some q) (hy : oneNumber N ydata = some q') (h : s.EqualLengths) :
    (updateData N (some xdata) (some ydata) s).2.EqualLengths ∧
      (updateData N (some xdata) (some ydata) s).2.maxKept = s.maxKept ∧
      (updateData N (some xdata) (some ydata) s).2.points =
        (s.points ++ [(s.stamp, q, q')]).drop (trimCount s.maxKept (s.time.length + 1)) := by
  obtain ⟨hxleading, hxlength⟩ := leading_oneNumber hx
  obtain ⟨hyleading, hylength⟩ := leading_oneNumber hy
  have hall : (Vector.leading N xdata).length = xdata.length ∧
      (Vector.leading N ydata).length = ydata.length := by
    simp [hxleading, hxlength, hyleading, hylength]
  have happended : (s.appended N xdata ydata).EqualLengths := by
    rw [appended_leading hx hy]
    constructor
    · simp [h.1]
    · simp [h.2]
  rw [updateData_some N xdata ydata h.1 h.2, if_pos hall]
  refine ⟨equalLengths_dropOldest happended _, rfl, ?_⟩
  rw [← points_appended h hx hy, ← points_dropOldest]
  rfl

theorem laws (N : TclNumbers) : (kind N).Laws N (·.maxKept) EqualLengths KeepBound where
  vectors := by
    intro s h v hv
    show v.length = s.points.length
    rw [length_points h]
    have hv : v = s.time ∨ v = s.x ∨ v = s.y := by simpa [kind] using hv
    rcases hv with rfl | rfl | rfl
    · rfl
    · exact h.1.symm
    · exact h.2.symm
  updateData := by
    intro s seen s' h hone hstep
    obtain ⟨xget, yget⟩ := seen
    cases hstep
    have hunconnected : xget = none ∨ yget = none →
        (kind N).point s (xget, yget) = none := by
      rintro (rfl | rfl)
      · rfl
      · cases xget <;> rfl
    by_cases hnone : xget = none ∨ yget = none
    · obtain ⟨hgood, hkept, k, hpoints, hzero⟩ := laws_unconnected N hnone h
      rw [hunconnected hnone]
      refine ⟨hgood, hkept, k, ?_, hzero, fun _ _ _ hpoint => nomatch hpoint⟩
      rw [Option.toList_none, List.append_nil]
      exact hpoints
    · rw [not_or] at hnone
      obtain ⟨xdata, rfl⟩ := Option.ne_none_iff_exists'.mp hnone.1
      obtain ⟨ydata, rfl⟩ := Option.ne_none_iff_exists'.mp hnone.2
      obtain ⟨q, hq⟩ := Option.isSome_iff_exists.mp (hone xdata (by simp [kind]))
      obtain ⟨q', hq'⟩ := Option.isSome_iff_exists.mp (hone ydata (by simp [kind]))
      obtain ⟨hgood, hkept, hpoints⟩ := laws_connected N hq hq' h
      have hpoint : (kind N).point s (some xdata, some ydata) = some (s.stamp, q, q') := by
        simp [kind, hq, hq']
      rw [← length_points h] at hpoints
      exact Kind.updateData_of_trimmed (fun _ => by simp [trimCount])
        (fun m => keepBound_trim) hpoint hgood hkept hpoints
  clear := by
    intro s s' h hstep
    cases hstep
    show (clear s).2.EqualLengths ∧ _ ∧ (clear s).2.points = s.points.drop s.points.length
    rw [clear_snd h, length_points h]
    exact dropped h _
  clearfirst := by
    intro s n s' h hstep
    cases hstep
    show (clearfirst N n s).2.EqualLengths ∧ _ ∧
      (clearfirst N n s).2.points = s.points.drop (clearfirstCount N n s.points.length)
    rw [clearfirst_snd N n h, length_points h]
    exact dropped h _
  keep := by
    intro s n s' h hstep
    cases hstep
    rw [show (keep N n s).2 = _ from setPositive_snd N n s]
    cases keepArgument N n with
    | none => exact ⟨h, rfl, rfl⟩
    | some k => exact ⟨h, rfl, rfl⟩
  updateperiod := by
    intro s n s' h hstep
    cases hstep
    rw [show (updateperiod N n s).2 = _ from setPositive_snd N n s]
    cases keepArgument N n with
    | none => exact ⟨h, rfl, rfl⟩
    | some k => exact ⟨h, rfl, rfl⟩

end ChannelPairHistory

/-! ## §5 Both -/

theorem ChannelHistory.construct_empty {N : TclNumbers} {period channel timebase : String}
    {seconds clicks : Int} {s : ChannelHistory}
    (h : construct N period channel timebase seconds clicks = .ok s) :
    s.EqualLengths ∧ s.maxKept = 0 ∧ s.points = [] := by
  simp only [construct] at h
  repeat' split at h
  all_goals cases h
  exact ⟨rfl, rfl, rfl⟩

theorem ChannelPairHistory.construct_empty {N : TclNumbers}
    {period xchannel ychannel timebase : String} {seconds : Int} {s : ChannelPairHistory}
    (h : construct N period xchannel ychannel timebase seconds = .ok s) :
    s.EqualLengths ∧ s.maxKept = 0 ∧ s.points = [] := by
  simp only [construct] at h
  repeat' split at h
  all_goals cases h
  exact ⟨⟨rfl, rfl⟩, rfl, rfl⟩

/-- **Bounded histories keep the newest points**, in every run of either type
in which each successful `get` returns one number. -/
theorem keep_newest (N : TclNumbers) :
    (∀ {period channel timebase : String} {seconds clicks : Int} {s₀ : ChannelHistory}
        {as : List (HistoryAction (Int × Option (List String)))} {L : Ledger ChannelHistory _},
      ChannelHistory.construct N period channel timebase seconds clicks = .ok s₀ →
      Run (Ledger.step N (ChannelHistory.kind N)) (Ledger.GetsOne N (ChannelHistory.kind N))
        { history := s₀ } as L →
      L.Newest N (ChannelHistory.kind N) ChannelHistory.KeepBound) ∧
    ∀ {period xchannel ychannel timebase : String} {seconds : Int} {s₀ : ChannelPairHistory}
        {as : List (HistoryAction (Option (List String) × Option (List String)))}
        {L : Ledger ChannelPairHistory _},
      ChannelPairHistory.construct N period xchannel ychannel timebase seconds = .ok s₀ →
      Run (Ledger.step N (ChannelPairHistory.kind N))
        (Ledger.GetsOne N (ChannelPairHistory.kind N)) { history := s₀ } as L →
      L.Newest N (ChannelPairHistory.kind N) ChannelPairHistory.KeepBound := by
  constructor
  · intro _ _ _ _ _ s₀ as L hconstruct hrun
    obtain ⟨hgood, hkept, hempty⟩ := ChannelHistory.construct_empty hconstruct
    exact (ChannelHistory.laws N).newest hgood hkept hempty hrun
  · intro _ _ _ _ _ s₀ as L hconstruct hrun
    obtain ⟨hgood, hkept, hempty⟩ := ChannelPairHistory.construct_empty hconstruct
    exact (ChannelPairHistory.laws N).newest hgood hkept hempty hrun

/-- Three samples, of which the latest two are kept. -/
theorem keep_newest_two :
    (∃ L : Ledger ChannelHistory _, L.history.time.length = 2 ∧
        L.Newest plainNumbers (ChannelHistory.kind plainNumbers) ChannelHistory.KeepBound) ∧
      ∃ L : Ledger ChannelPairHistory _, L.history.time.length = 2 ∧
        L.Newest plainNumbers (ChannelPairHistory.kind plainNumbers)
          ChannelPairHistory.KeepBound := by
  have hline : (runChecked (Ledger.step plainNumbers (ChannelHistory.kind plainNumbers))
      (Ledger.GetsOne plainNumbers (ChannelHistory.kind plainNumbers))
      { history :=
          { period := 1000, timebase := 0, lastPeriod := 1000, lastTime := 0, tZeroMs := 0,
            startSeconds := 0 } }
      [.updateData (0, some ["4"]), .updateData (1000, some ["5"]), .keep "2",
        .updateData (2000, some ["6"])]).map (·.history.time.length) = some 2 := by
    decide +kernel
  have hpair : (runChecked (Ledger.step plainNumbers (ChannelPairHistory.kind plainNumbers))
      (Ledger.GetsOne plainNumbers (ChannelPairHistory.kind plainNumbers))
      { history := { period := 1000, timebase := 0, lastPeriod := 1000, lastTime := 0 } }
      [.updateData (some ["1"], some ["4"]), .updateData (some ["2"], some ["5"]), .keep "2",
        .updateData (some ["3"], some ["6"])]).map (·.history.time.length) = some 2 := by
    decide +kernel
  have hlineStart : ChannelHistory.construct plainNumbers "1000" "a" "0" 0 0 = .ok _ := rfl
  have hpairStart : ChannelPairHistory.construct plainNumbers "1000" "a" "b" "0" 0 = .ok _ := rfl
  obtain ⟨L, hL, hlength⟩ := Option.map_eq_some_iff.mp hline
  obtain ⟨L', hL', hlength'⟩ := Option.map_eq_some_iff.mp hpair
  exact ⟨⟨L, hlength, (keep_newest plainNumbers).1 hlineStart (run_of_runChecked _ hL)⟩,
    L', hlength', (keep_newest plainNumbers).2 hpairStart (run_of_runChecked _ hL')⟩

end EpicsTcl.History
