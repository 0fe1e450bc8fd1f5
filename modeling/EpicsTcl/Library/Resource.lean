/-
EpicsTcl.Library.Resource — acquiring and releasing resources in pairs.

A log records, oldest first, which resources were acquired and released.
`live` is the list of resources held after the log. A log is `Disciplined`
when every acquisition is of a resource never acquired before and every
release is of a resource held at that moment; a release of something not
held, or a second release, breaks the discipline.

`Disciplined.count_acquire` is the bookkeeping identity: what was acquired
was released exactly once or is still held. It gives `released_of_live_nil`
(when nothing is held, everything acquired was released exactly once) and,
with `Disciplined.acquired_before`, `Disciplined.inPairs`: acquisitions and
releases come in pairs.
-/
import Mathlib.Data.List.Induction
import Mathlib.Data.List.Count

namespace EpicsTcl.Library

variable {ι : Type*} [DecidableEq ι]

/-- One entry of a resource log. -/
inductive Use (ι : Type*) where
  | acquire (i : ι)
  | release (i : ι)
  deriving DecidableEq, Repr

/-- What one entry does to the resources held. -/
def Use.apply (held : List ι) : Use ι → List ι
  | .acquire i => i :: held
  | .release i => held.erase i

/-- The resources held after a log, the latest first. -/
def live (log : List (Use ι)) : List ι := log.foldl Use.apply []

@[simp] theorem live_nil : live ([] : List (Use ι)) = [] := rfl

@[simp] theorem live_acquire (log : List (Use ι)) (i : ι) :
    live (log ++ [.acquire i]) = i :: live log := by
  simp [live, Use.apply]

@[simp] theorem live_release (log : List (Use ι)) (i : ι) :
    live (log ++ [.release i]) = (live log).erase i := by
  simp [live, Use.apply]

/-- Acquired only when new, released only while held. -/
inductive Disciplined : List (Use ι) → Prop where
  | nil : Disciplined []
  | acquire {log : List (Use ι)} {i : ι} :
      Disciplined log → .acquire i ∉ log → Disciplined (log ++ [.acquire i])
  | release {log : List (Use ι)} {i : ι} :
      Disciplined log → i ∈ live log → Disciplined (log ++ [.release i])

namespace Disciplined

variable {log : List (Use ι)}

/-- No resource is acquired twice. -/
theorem acquire_once (h : Disciplined log) (i : ι) : log.count (.acquire i) ≤ 1 := by
  induction h with
  | nil => simp
  | @acquire log j _ hnew ih =>
    rw [List.count_append]
    by_cases hij : j = i
    · subst hij
      rw [List.count_eq_zero_of_not_mem hnew]
      simp
    · simpa [hij] using ih
  | release _ _ ih => simpa [List.count_append] using ih

/-- **Bookkeeping identity**: an acquisition is matched by a release or by
a resource still held. -/
theorem count_acquire (h : Disciplined log) (i : ι) :
    log.count (.acquire i) = log.count (.release i) + (live log).count i := by
  induction h with
  | nil => simp
  | @acquire log j _ _ ih =>
    rw [List.count_append, List.count_append, live_acquire, ih]
    by_cases hij : j = i <;> simp [hij]
    omega
  | @release log j _ hheld ih =>
    rw [List.count_append, List.count_append, live_release, ih]
    by_cases hij : j = i
    · subst hij
      have hpos : 0 < (live log).count j := List.count_pos_iff.mpr hheld
      simp only [List.count_singleton_self, List.count_erase_self]
      simp
      omega
    · simp [hij, List.count_erase_of_ne (Ne.symm hij)]

/-- When nothing is held, everything acquired was released exactly once. -/
theorem released_of_live_nil (h : Disciplined log) (hnil : live log = []) {i : ι}
    (hi : .acquire i ∈ log) : log.count (.release i) = 1 := by
  have hpos : 0 < log.count (.acquire i) := List.count_pos_iff.mpr hi
  have hle := h.acquire_once i
  have heq := h.count_acquire i
  rw [hnil, List.count_nil] at heq
  omega

/-- What is held was acquired. -/
theorem acquired_of_live (h : Disciplined log) {i : ι} (hi : i ∈ live log) : .acquire i ∈ log := by
  have heq := h.count_acquire i
  have hpos : 0 < (live log).count i := List.count_pos_iff.mpr hi
  exact List.count_pos_iff.mp (by omega)

/-- What is released was acquired before. -/
theorem acquired_before (h : Disciplined log) {p : List (Use ι)} {i : ι}
    (hp : p ++ [.release i] <+: log) : .acquire i ∈ p := by
  induction h with
  | nil => simp at hp
  | acquire _ _ ih =>
    rcases List.prefix_concat_iff.mp hp with heq | hp
    · simp at heq
    · exact ih hp
  | release h hheld ih =>
    rcases List.prefix_concat_iff.mp hp with heq | hp
    · obtain ⟨rfl, hi⟩ := List.append_inj' heq rfl
      cases hi
      exact h.acquired_of_live hheld
    · exact ih hp

end Disciplined

/-- Acquisitions and releases come in pairs: everything acquired is released
exactly once, and nothing is released that was not acquired before. -/
structure InPairs (log : List (Use ι)) : Prop where
  once : ∀ i, .acquire i ∈ log → log.count (.release i) = 1
  known : ∀ p i, p ++ [.release i] <+: log → .acquire i ∈ p

/-- A disciplined log after which nothing is held is paired. -/
theorem Disciplined.inPairs {log : List (Use ι)} (h : Disciplined log) (hnil : live log = []) :
    InPairs log where
  once _ hi := h.released_of_live_nil hnil hi
  known _ _ hp := h.acquired_before hp

end EpicsTcl.Library
