/-
EpicsTcl.Library.Balance — a log of calls by many callers, and the balance
of two kinds of calls.

A log is a list of pairs of a caller and a call. If nobody has made more
calls `y` than calls `x`, then the balance over all callers says something
about each of them and the other way round: it is zero exactly when
everybody's is. The proofs compare the multisets of callers.
-/
import Mathlib.Data.Multiset.Count

namespace EpicsTcl.Library

variable {κ α : Type*} [DecidableEq κ] [DecidableEq α]

omit [DecidableEq κ] in
/-- Who made the call `x`, once for each time. -/
def callers (x : α) (log : List (κ × α)) : Multiset κ :=
  ((log.filter (·.2 = x)).map (·.1) : List κ)

omit [DecidableEq κ] in
theorem card_callers (x : α) (log : List (κ × α)) :
    (callers x log).card = log.countP (·.2 = x) := by
  simp [callers, List.countP_eq_length_filter]

theorem count_log_cons (c c' : κ) (x x' : α) (log : List (κ × α)) :
    ((c', x') :: log).count (c, x) = log.count (c, x) + if c = c' ∧ x = x' then 1 else 0 := by
  rw [List.count_cons]
  simp only [beq_iff_eq, Prod.mk.injEq, eq_comm (a := c'), eq_comm (a := x')]

omit [DecidableEq κ] in
theorem countP_log_cons (c' : κ) (x x' : α) (log : List (κ × α)) :
    ((c', x') :: log).countP (·.2 = x) =
      log.countP (·.2 = x) + if x = x' then 1 else 0 := by
  rw [List.countP_cons]
  simp only [decide_eq_true_eq, eq_comm (a := x')]

theorem count_callers (x : α) (log : List (κ × α)) (c : κ) :
    (callers x log).count c = log.count (c, x) := by
  induction log with
  | nil => rfl
  | cons p log ih =>
    obtain ⟨c', x'⟩ := p
    simp only [callers, Multiset.coe_count] at ih ⊢
    rw [count_log_cons, ← ih]
    by_cases hx : x' = x
    · subst hx
      by_cases hc : c' = c
      · subst hc; simp
      · simp [hc, Ne.symm hc]
    · simp [hx, Ne.symm hx]

variable {log : List (κ × α)} {x y : α}

theorem callers_le (h : ∀ c, log.count (c, y) ≤ log.count (c, x)) :
    callers y log ≤ callers x log := by
  rw [Multiset.le_iff_count]
  intro c
  rw [count_callers, count_callers]
  exact h c

/-- Nobody's balance is negative, so the common one is not. -/
theorem countP_le_of_count_le (h : ∀ c, log.count (c, y) ≤ log.count (c, x)) :
    log.countP (·.2 = y) ≤ log.countP (·.2 = x) := by
  rw [← card_callers, ← card_callers]
  exact Multiset.card_le_card (callers_le h)

/-- Somebody's balance is positive, so the common one is. -/
theorem countP_lt_of_count_lt (h : ∀ c, log.count (c, y) ≤ log.count (c, x)) {c : κ}
    (hc : log.count (c, y) < log.count (c, x)) :
    log.countP (·.2 = y) < log.countP (·.2 = x) := by
  rw [← card_callers, ← card_callers]
  refine Multiset.card_lt_card (lt_of_le_of_ne (callers_le h) fun heq => ?_)
  rw [← count_callers, ← count_callers, heq] at hc
  exact Nat.lt_irrefl _ hc

/-- Everybody's balance is zero, so the common one is. -/
theorem countP_eq_of_count_eq (h : ∀ c, log.count (c, y) = log.count (c, x)) :
    log.countP (·.2 = y) = log.countP (·.2 = x) :=
  Nat.le_antisymm (countP_le_of_count_le fun c => (h c).le)
    (countP_le_of_count_le fun c => (h c).ge)

/-- The common balance is zero, so everybody's is. -/
theorem count_eq_of_countP_eq (h : ∀ c, log.count (c, y) ≤ log.count (c, x))
    (heq : log.countP (·.2 = y) = log.countP (·.2 = x)) (c : κ) :
    log.count (c, y) = log.count (c, x) := by
  by_contra hne
  exact Nat.ne_of_lt (countP_lt_of_count_lt h (lt_of_le_of_ne (h c) hne)) heq

end EpicsTcl.Library
