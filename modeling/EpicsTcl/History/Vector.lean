/-
EpicsTcl.History.Vector — BLT vectors, as far as the histories use them.

`append` takes its argument as a list and appends one element after the
other; an element that is not a number raises an error, and those before it
stay appended. `delete` removes the given indices of the vector at once; an
index outside of it raises an error and nothing is removed.

An entry records, besides its value, the sample for which it was appended.
No script can see that.
-/
import EpicsTcl.Library.Script
import Mathlib.Data.Rat.Defs

namespace EpicsTcl.History

open EpicsTcl.Library

/-- What the methods of a history can raise. -/
inductive HistoryError where
  /-- The `error` command. -/
  | script (message : String)
  | noSuchVariable (name : String)
  /-- An element of the appended list is not a number. -/
  | notNumeric (element : String)
  | badIndex
  deriving DecidableEq, Repr

/-- An entry of a vector. -/
structure Entry where
  value : Rat
  sample : Nat
  deriving DecidableEq, Repr

/-- How Tcl and BLT read numbers. -/
structure TclNumbers where
  /-- A number in an element of a list. -/
  number : String → Option Rat
  /-- `string is integer -strict`, and the number. -/
  integer : String → Option Int

abbrev Vector := List Entry

namespace Vector

/-- The numbers at the front of a list. -/
def leading (N : TclNumbers) : List String → List Rat
  | [] => []
  | element :: rest =>
    match N.number element with
    | some q => q :: leading N rest
    | none => []

/-- `vector append value`. -/
def append (N : TclNumbers) (sample : Nat) : List String → Script Vector HistoryError Unit
  | [] => pure ()
  | element :: rest =>
    match N.number element with
    | some q => do
      .modify fun v => v ++ [⟨q, sample⟩]
      append N sample rest
    | none => .raise (.notNumeric element)

/-- `vector append` of a number the script has computed. -/
def appendNumber (sample : Nat) (q : Rat) : Script Vector HistoryError Unit :=
  .modify fun v => v ++ [⟨q, sample⟩]

/-- `vector delete i1 i2 …`. -/
def delete (indices : List Nat) : Script Vector HistoryError Unit := fun v =>
  if indices.all (· < v.length) then
    (.ok (), (v.zipIdx.filter fun e => !indices.elem e.2).map (·.1))
  else (.error .badIndex, v)

/-! ## What they do -/

/-- The samples of the entries. -/
def samples (v : Vector) : List Nat := v.map (·.sample)

/-- `append` stops after the numbers at the front. -/
theorem append_apply (N : TclNumbers) (sample : Nat) (value : List String) (v : Vector) :
    (append N sample value v).2 = v ++ (leading N value).map (⟨·, sample⟩) ∧
      ((append N sample value v).1 = .ok () ↔ (leading N value).length = value.length) := by
  induction value generalizing v with
  | nil => simp [append, leading]
  | cons element rest ih =>
    cases hnumber : N.number element with
    | some q =>
      obtain ⟨hvector, hok⟩ := ih (v ++ [⟨q, sample⟩])
      simp [append, leading, hnumber, Script.bind_apply, hvector, hok]
    | none => simp [append, leading, hnumber]

/-- What is left when the indices below `n` are removed; `k` is the index of
the first entry. -/
theorem filter_zipIdx (n k : Nat) (v : Vector) :
    ((v.zipIdx k).filter fun e => !(List.range n).elem e.2).map (·.1) = v.drop (n - k) := by
  induction v generalizing k with
  | nil => simp
  | cons entry v ih =>
    have hrest := ih (k + 1)
    rcases Nat.lt_or_ge k n with hlt | hge
    · have hstep : n - k = (n - (k + 1)) + 1 := by omega
      simpa [hlt, hstep] using hrest
    · have hzero : n - k = 0 := by omega
      have hzero' : n - (k + 1) = 0 := by omega
      simpa [Nat.not_lt.mpr hge, hzero, hzero'] using hrest

/-- Deleting the first indices. -/
theorem delete_range {n : Nat} {v : Vector} (h : n ≤ v.length) :
    delete (List.range n) v = (.ok (), v.drop n) := by
  have hindices : (List.range n).all (· < v.length) = true := by
    simpa using fun i hi => Nat.lt_of_lt_of_le hi h
  rw [delete, if_pos hindices, filter_zipIdx, Nat.sub_zero]

end Vector

end EpicsTcl.History
