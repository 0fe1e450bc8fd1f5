/-
EpicsTcl.History.ClearTheorems — `clear` and `clearfirst` of both types.

`channelPairHistory` deletes index 0 as often as asked; that always works
(§2). `channelHistory` first builds the list of all indices to delete. The
variable is only set in the loop, so without an index to delete it does not
exist, and reading it raises an error (§1). To the vectors both do the same
(`clearing`).
-/
import EpicsTcl.History.KeepTheorems

namespace EpicsTcl.History

open EpicsTcl.Library

/-! ## §1 channelHistory -/

namespace ChannelHistory

variable {s : ChannelHistory}

/-- A count that leaves nothing to delete: the list of indices is missing. -/
theorem clearfirstInt_nothing {n : Nat} (h : min n s.time.length = 0) :
    clearfirstInt n s = (.error (.noSuchVariable "indexlist"), s) := by
  rw [clearfirstInt_natCast, if_pos h]

/-- `clearfirst` drops the oldest entries and returns if and only if there is
one to drop. -/
theorem clearfirstInt_iff (h : s.EqualLengths) (n : Nat) :
    clearfirstInt n s = (.ok (), s.dropOldest (min n s.time.length)) ↔
      0 < n ∧ 0 < s.time.length := by
  constructor
  · intro hok
    rcases Nat.eq_zero_or_pos (min n s.time.length) with hzero | hpos
    · rw [clearfirstInt_nothing hzero] at hok
      cases hok
    · omega
  · rintro ⟨hn, hlength⟩
    have hpos : 0 < min n s.time.length := by omega
    have hle : min n s.time.length ≤ s.time.length := Nat.min_le_right _ _
    have hdrop := clearfirstInt_of_le hpos hle (h ▸ hle)
    rw [clearfirstInt_natCast, Nat.min_eq_left hle] at hdrop
    rw [clearfirstInt_natCast, hdrop]

/-- The same for `clear`, which empties the vectors. -/
theorem clear_iff (h : s.EqualLengths) :
    clear s = (.ok (), { s with time := [], data := [] }) ↔ 0 < s.time.length := by
  have hall : s.dropOldest s.time.length = { s with time := [], data := [] } := by
    have h : s.time.length = s.data.length := h
    simp [dropOldest, h]
  have hiff := clearfirstInt_iff h s.time.length
  rw [Nat.min_self, hall, and_self] at hiff
  exact hiff

end ChannelHistory

/-! ## §2 channelPairHistory -/

namespace ChannelPairHistory

variable {s : ChannelPairHistory}

theorem clear_eq (h : s.EqualLengths) :
    clear s = (.ok (), { s with time := [], x := [], y := [] }) := by
  have hall : s.dropOldest s.time.length = { s with time := [], x := [], y := [] } := by
    obtain ⟨hx, hy⟩ : s.time.length = s.x.length ∧ s.time.length = s.y.length := h
    simp [dropOldest, hx, hx.symm.trans hy]
  have hclear := clearfirstInt_natCast h.1 h.2 s.time.length
  rwa [Nat.min_self, hall] at hclear

end ChannelPairHistory

/-! ## §3 Both -/

/-- For every history with vectors of one length and every count:
`channelHistory` clears as asked and returns if and only if there is an entry
to clear, `channelPairHistory` always does, and to the vectors both do the
same in any case. -/
theorem clearing (N : TclNumbers) {word : String} {n : Nat}
    (hword : N.integer word = some (n : Int))
    {s : ChannelHistory} (hs : s.EqualLengths) {p : ChannelPairHistory} (hp : p.EqualLengths) :
    (ChannelHistory.clearfirst N word s = (.ok (), s.dropOldest (min n s.time.length)) ↔
      0 < n ∧ 0 < s.time.length) ∧
    (ChannelHistory.clear s = (.ok (), { s with time := [], data := [] }) ↔
      0 < s.time.length) ∧
    ChannelPairHistory.clearfirst N word p = (.ok (), p.dropOldest (min n p.time.length)) ∧
    ChannelPairHistory.clear p = (.ok (), { p with time := [], x := [], y := [] }) ∧
    (p.time = s.time → p.x = s.data →
      (ChannelHistory.clearfirst N word s).2.time =
          (ChannelPairHistory.clearfirst N word p).2.time ∧
        (ChannelHistory.clearfirst N word s).2.data =
          (ChannelPairHistory.clearfirst N word p).2.x) := by
  have hline : ChannelHistory.clearfirst N word = ChannelHistory.clearfirstInt n := by
    simp only [ChannelHistory.clearfirst, hword]
  have hpair : ChannelPairHistory.clearfirst N word = ChannelPairHistory.clearfirstInt n := by
    simp only [ChannelPairHistory.clearfirst, hword]
  have hdrop := ChannelPairHistory.clearfirstInt_natCast hp.1 hp.2 n
  rw [hline, hpair, hdrop]
  refine ⟨ChannelHistory.clearfirstInt_iff hs n, ChannelHistory.clear_iff hs, rfl,
    ChannelPairHistory.clear_eq hp, fun htime hdata => ?_⟩
  rw [ChannelHistory.clearfirstInt_snd hs, Int.toNat_natCast]
  simp [ChannelHistory.dropOldest, ChannelPairHistory.dropOldest, htime, hdata]

/-- One entry of two is cleared. -/
theorem clearing_one :
    ∃ (s : ChannelHistory) (p : ChannelPairHistory), s.time.length = 2 ∧
      ChannelHistory.clearfirst plainNumbers "1" s = (.ok (), s.dropOldest 1) ∧
      ChannelPairHistory.clearfirst plainNumbers "1" p = (.ok (), p.dropOldest 1) := by
  let v : Vector := [⟨0, 0⟩, ⟨1, 1⟩]
  let s : ChannelHistory :=
    { period := 1000, timebase := 0, lastPeriod := 1000, lastTime := 0, tZeroMs := 0,
      startSeconds := 0, time := v, data := v }
  let p : ChannelPairHistory :=
    { period := 1000, timebase := 0, lastPeriod := 1000, lastTime := 0, time := v, x := v, y := v }
  have hword : plainNumbers.integer "1" = some ((1 : Nat) : Int) := by decide
  have hall := clearing plainNumbers hword (s := s) (p := p) rfl ⟨rfl, rfl⟩
  exact ⟨s, p, rfl, hall.1.mpr ⟨by decide, by decide⟩, hall.2.2.1⟩

/-- `clear` of a new history, and `clearfirst 0` of one with an entry. -/
theorem clear_empty_raises :
    (∃ s, ChannelHistory.construct plainNumbers "1000" "a" "0" 0 0 = .ok s ∧ s.EqualLengths ∧
      ChannelHistory.clear s = (.error (.noSuchVariable "indexlist"), s)) ∧
    ∃ s : ChannelHistory, s.EqualLengths ∧ s.time.length = 1 ∧
      ChannelHistory.clearfirst plainNumbers "0" s =
        (.error (.noSuchVariable "indexlist"), s) := by
  let s : ChannelHistory :=
    { period := 1000, timebase := 0, lastPeriod := 1000, lastTime := 0, tZeroMs := 0,
      startSeconds := 0, time := [⟨0, 0⟩], data := [⟨0, 0⟩] }
  exact ⟨⟨_, rfl, rfl, rfl⟩, s, rfl, rfl, ChannelHistory.clearfirstInt_nothing (n := 0) rfl⟩

end EpicsTcl.History
