/-
EpicsTcl.Library.Traces — the write traces of a variable.

The commands that are attached to a variable are called when it has been
written, the newest first. One that raises an error is the last: the write
itself has happened, and the older commands are not called.

A command is a function from states to states that says whether it has
returned (`true`) or raised an error (`false`).

The rules, all for states that keep a property `P`:

* `callTraces_invariant` — what each command keeps, all keep;
* `callTraces_append` — commands that return are followed by the rest;
* `callTraces_stop` — what comes after one that fails does not matter.
-/
import Mathlib.Tactic.TypeStar

namespace EpicsTcl.Library

variable {τ σ : Type*} (call : τ → σ → σ × Bool)

/-- Call the commands. -/
def callTraces : List τ → σ → σ
  | [], s => s
  | t :: ts, s => if (call t s).2 then callTraces ts (call t s).1 else (call t s).1

variable {call} {s : σ} (P : σ → Prop)

theorem callTraces_invariant {ts : List τ} (init : P s)
    (keeps : ∀ t ∈ ts, ∀ s, P s → P (call t s).1) : P (callTraces call ts s) := by
  induction ts generalizing s with
  | nil => exact init
  | cons t ts ih =>
    have hhead : P (call t s).1 := keeps t (by simp) s init
    unfold callTraces
    split
    · exact ih hhead fun u hu => keeps u (List.mem_cons_of_mem _ hu)
    · exact hhead

theorem callTraces_append {first rest : List τ} (init : P s)
    (keeps : ∀ t ∈ first, ∀ s, P s → P (call t s).1)
    (returns : ∀ t ∈ first, ∀ s, P s → (call t s).2 = true) :
    callTraces call (first ++ rest) s = callTraces call rest (callTraces call first s) := by
  induction first generalizing s with
  | nil => rfl
  | cons t ts ih =>
    have hreturns := returns t (by simp) s init
    simp only [List.cons_append, callTraces, hreturns, if_true]
    exact ih (keeps t (by simp) s init) (fun u hu => keeps u (List.mem_cons_of_mem _ hu))
      (fun u hu => returns u (List.mem_cons_of_mem _ hu))

theorem callTraces_stop {first rest : List τ} {t : τ} (init : P s)
    (keeps : ∀ t ∈ first, ∀ s, P s → P (call t s).1)
    (fails : ∀ s, P s → (call t s).2 = false) :
    callTraces call (first ++ t :: rest) s = callTraces call (first ++ [t]) s := by
  induction first generalizing s with
  | nil => simp [callTraces, fails s init]
  | cons u us ih =>
    simp only [List.cons_append, callTraces]
    split
    · exact ih (keeps u (by simp) s init) (fun v hv => keeps v (List.mem_cons_of_mem _ hv))
    · rfl

end EpicsTcl.Library
