/-
EpicsTcl.Library.Loop — loops of scripts that may run forever.

`loop body n b` goes through at most `n` rounds of a loop whose variables
are `b`. A round ends with new values of the variables or leaves the loop
with a result; a loop that is still going on after `n` rounds stops with
`running`, which no command of the script can raise.

* `loop_returns` — an invariant and a measure: with more rounds than the
  measure allows, the loop is left;
* `loop_running` — a loop whose rounds always lead to another one is never
  left;
* `loop_cases` — what holds of a loop if it is left at all;
* `loop_stable` — once a loop has come to an end, more rounds change nothing;
* `loop_counts` — a `for` loop that counts is a `foreach` over the numbers.
-/
import EpicsTcl.Library.Script

namespace EpicsTcl.Library

universe u v w

/-- Why a command has not returned: an error, or a loop that goes on. -/
inductive Stop (ε : Type v) where
  | raised (e : ε)
  | running
  deriving DecidableEq, Repr

namespace Script

variable {σ : Type u} {ε : Type v} {β γ : Type w}

/-- `while`, for at most so many rounds. -/
def loop (body : β → Script σ (Stop ε) (β ⊕ γ)) : Nat → β → Script σ (Stop ε) γ
  | 0, _ => raise .running
  | n + 1, b => do
    match ← body b with
    | .inl b' => loop body n b'
    | .inr c => pure c

variable {body : β → Script σ (Stop ε) (β ⊕ γ)} {b b' : β} {s t : σ} {c : γ} {n : Nat}

theorem loop_again (h : body b s = (.ok (.inl b'), t)) :
    loop body (n + 1) b s = loop body n b' t := bind_ok h

theorem loop_left (h : body b s = (.ok (.inr c), t)) : loop body (n + 1) b s = (.ok c, t) :=
  bind_ok h

/-- A single round leaves its state. -/
theorem loop_one : (loop body 1 b s).2 = (body b s).2 := by
  cases hbody : body b s with
  | mk result t =>
    match result with
    | .error e => exact congrArg Prod.snd (bind_error hbody)
    | .ok (.inl b') => rw [loop_again hbody, loop, raise_apply]
    | .ok (.inr c) => rw [loop_left hbody]

/-- An invariant, and a measure that every round decreases: the loop is left. -/
theorem loop_returns (Inv : β → σ → Prop) (Post : γ → σ → Prop) (measure : β → Nat)
    (round : ∀ b s, Inv b s →
      (∃ c t, body b s = (.ok (.inr c), t) ∧ Post c t) ∨
      ∃ b' t, body b s = (.ok (.inl b'), t) ∧ Inv b' t ∧ measure b' < measure b)
    (hinv : Inv b s) (hn : measure b < n) : ∃ c t, loop body n b s = (.ok c, t) ∧ Post c t := by
  induction n generalizing b s with
  | zero => exact absurd hn (Nat.not_lt_zero _)
  | succ n ih =>
    rcases round b s hinv with ⟨c, t, hbody, hpost⟩ | ⟨b', t, hbody, hinv', hless⟩
    · exact ⟨c, t, loop_left hbody, hpost⟩
    · obtain ⟨c, u, hloop, hpost⟩ := ih hinv' (Nat.lt_of_lt_of_le hless (Nat.le_of_lt_succ hn))
      exact ⟨c, u, (loop_again hbody).trans hloop, hpost⟩

/-- Every round leads to another one: the loop is never left. -/
theorem loop_running (Inv : β → σ → Prop)
    (round : ∀ b s, Inv b s → ∃ b' t, body b s = (.ok (.inl b'), t) ∧ Inv b' t)
    (hinv : Inv b s) (n : Nat) : (loop body n b s).1 = .error .running := by
  induction n generalizing b s with
  | zero => rfl
  | succ n ih =>
    obtain ⟨b', t, hbody, hinv'⟩ := round b s hinv
    rw [loop_again hbody]
    exact ih hinv'

/-- An invariant alone: the loop is left, or it is still going on. -/
theorem loop_cases (Inv : β → σ → Prop) (Post : γ → σ → Prop)
    (round : ∀ b s, Inv b s →
      (∃ c t, body b s = (.ok (.inr c), t) ∧ Post c t) ∨
      ∃ b' t, body b s = (.ok (.inl b'), t) ∧ Inv b' t)
    (hinv : Inv b s) (n : Nat) :
    (∃ c t, loop body n b s = (.ok c, t) ∧ Post c t) ∨
      (loop body n b s).1 = .error .running := by
  induction n generalizing b s with
  | zero => exact .inr rfl
  | succ n ih =>
    rcases round b s hinv with ⟨c, t, hbody, hpost⟩ | ⟨b', t, hbody, hinv'⟩
    · exact .inl ⟨c, t, loop_left hbody, hpost⟩
    · rw [loop_again hbody]
      exact ih hinv'

theorem loop_stable {m : Nat} (h : (loop body n b s).1 ≠ .error .running) (hle : n ≤ m) :
    loop body m b s = loop body n b s := by
  induction n generalizing m b s with
  | zero => exact absurd rfl h
  | succ n ih =>
    obtain ⟨m, rfl⟩ := Nat.exists_eq_add_of_lt hle
    show loop body (n + m + 1) b s = loop body (n + 1) b s
    cases hbody : body b s with
    | mk result t =>
      match result with
      | .error e => exact (bind_error hbody).trans (bind_error hbody).symm
      | .ok (.inr c) => rw [loop_left hbody, loop_left hbody]
      | .ok (.inl b') =>
        rw [loop_again hbody] at h ⊢
        rw [loop_again hbody]
        exact ih h (Nat.le_add_right n m)

/-- A loop that counts up to `stop`. -/
theorem loop_counts {more : Nat → Prop} [DecidablePred more] {first stop : Nat}
    (hmore : ∀ i, first ≤ i → (more i ↔ i < stop)) (round : Nat → Script σ (Stop ε) Unit)
    (hn : stop - first < n) (s : σ) :
    loop (fun i => if more i then do
        round i
        pure (.inl (i + 1))
      else pure (.inr ())) n first s =
      forEach (List.range' first (stop - first)) round s := by
  induction n generalizing first s with
  | zero => exact absurd hn (Nat.not_lt_zero _)
  | succ n ih =>
    by_cases hless : first < stop
    · have hcount : stop - first = stop - (first + 1) + 1 := by omega
      have hfirst : more first := (hmore first (Nat.le_refl first)).mpr hless
      rw [hcount, List.range'_succ, forEach]
      cases hround : round first s with
      | mk result t =>
        cases result with
        | ok =>
          rw [bind_ok hround, ← ih (fun i hi => hmore i (Nat.le_of_succ_le hi)) (by omega) t]
          exact loop_again (by rw [if_pos hfirst]; exact bind_ok hround)
        | error e =>
          rw [bind_error hround, loop]
          exact bind_error (by rw [if_pos hfirst]; exact bind_error hround)
    · have hstop : ¬ more first := fun h => hless ((hmore first (Nat.le_refl first)).mp h)
      rw [Nat.sub_eq_zero_of_le (Nat.le_of_not_lt hless)]
      exact loop_left (by rw [if_neg hstop]; rfl)

/-- A loop has the effects of its rounds. -/
theorem Within.loop {E : Effect σ} (h : ∀ b, Within E (body b)) (n : Nat) (b : β) :
    Within E (Script.loop body n b) := by
  induction n generalizing b with
  | zero => exact Within.raise _
  | succ n ih =>
    refine Within.bind (h b) fun next => ?_
    cases next with
    | inl b' => exact ih b'
    | inr c => exact Within.pure c

end Script

end EpicsTcl.Library
