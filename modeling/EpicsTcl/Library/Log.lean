/-
EpicsTcl.Library.Log — predicates over a log of events, the newest first.

`Each P log` says that every entry stands in the relation `P` to the
entries before it. It is kept entry by entry (`each_cons`), and read at
any place of the log (`each_iff`).
-/
import Mathlib.Data.List.Basic

namespace EpicsTcl.Library

variable {α : Type*}

/-- Every entry `e` of the log satisfies `P earlier e`. -/
def Each (P : List α → α → Prop) : List α → Prop
  | [] => True
  | e :: earlier => P earlier e ∧ Each P earlier

variable {P Q : List α → α → Prop}

@[simp] theorem each_nil : Each P [] := trivial

@[simp] theorem each_cons {e : α} {log : List α} : Each P (e :: log) ↔ P log e ∧ Each P log :=
  Iff.rfl

theorem each_iff {log : List α} :
    Each P log ↔ ∀ later e earlier, log = later ++ e :: earlier → P earlier e := by
  induction log with
  | nil => simp
  | cons a log ih =>
    rw [each_cons, ih]
    constructor
    · rintro ⟨ha, hlog⟩ later e earlier heq
      cases later with
      | nil =>
        cases heq
        exact ha
      | cons b later =>
        cases heq
        exact hlog later e earlier rfl
    · intro h
      exact ⟨h [] a log rfl, fun later e earlier heq => h (a :: later) e earlier (by rw [heq]; rfl)⟩

/-- Entries that stand in the relation to whatever is before them. -/
theorem Each.append {new log : List α} (h : Each P log) (hnew : ∀ earlier, ∀ e ∈ new, P earlier e) :
    Each P (new ++ log) := by
  induction new with
  | nil => exact h
  | cons e new ih =>
    exact ⟨hnew _ e List.mem_cons_self,
      ih fun earlier x hx => hnew earlier x (List.mem_cons_of_mem e hx)⟩

/-- What holds of a log held of it earlier. -/
theorem Each.of_suffix {log log' : List α} (h : Each P log') (hsuffix : log <:+ log') :
    Each P log := by
  obtain ⟨new, rfl⟩ := hsuffix
  induction new with
  | nil => exact h
  | cons e new ih => exact ih h.2

theorem Each.mono {log : List α} (h : Each P log)
    (weaken : ∀ earlier e, P earlier e → Q earlier e) :
    Each Q log := by
  induction log with
  | nil => exact trivial
  | cons a log ih => exact ⟨weaken log a h.1, ih h.2⟩

/-- What excludes itself happens at most once. -/
theorem Each.countP_le_one {p : α → Bool} {log : List α}
    (h : Each (fun earlier e => p e = true → ∀ x ∈ earlier, p x = false) log) :
    log.countP p ≤ 1 := by
  induction log with
  | nil => simp
  | cons a log ih =>
    rw [List.countP_cons]
    cases ha : p a with
    | false => simpa using ih h.2
    | true =>
      have hnone : log.countP p = 0 := List.countP_eq_zero.mpr fun x hx => by simp [h.1 ha x hx]
      simp [hnone]

end EpicsTcl.Library
