/-
EpicsTcl.Library.TclValue — values of Tcl and how `expr` reads them.

A value is a text; if the text is a number it can be calculated with.
Comparisons are numeric when both sides are numbers and compare the texts
otherwise. Infinite numbers are compared as numbers, and no comparison with NaN
holds. `string is boolean` accepts the unique abbreviations of the words, in
any case, and also the empty text, which is no truth value.

Numbers are exact, of any ordered field.
-/
import Mathlib.Data.List.DropRight
import Mathlib.Data.List.Infix
import Mathlib.Order.WithBot

namespace EpicsTcl.Library

/-- A value: its text, and its number if it has one. -/
structure TclValue (K : Type*) where
  text : String
  number : Option K
  deriving DecidableEq, Repr

/-! ## Truth values -/

def lowercase (text : String) : List Char := text.toList.map Char.toLower

/-- `word` abbreviates `full`, with at least so many letters. -/
def abbreviates (word : List Char) (full : String) (least : Nat) : Bool :=
  least ≤ word.length && word.isPrefixOf full.toList

/-- The truth value of a text. -/
def truth (text : String) : Option Bool :=
  let word := lowercase text
  if word = ['1'] || abbreviates word "yes" 1 || abbreviates word "true" 1 ||
      abbreviates word "on" 2 then some true
  else if word = ['0'] || abbreviates word "no" 1 || abbreviates word "false" 1 ||
      abbreviates word "off" 2 then some false
  else none

/-- `string is boolean`. -/
def isBoolean (text : String) : Bool := text = "" || (truth text).isSome

example : truth "Yes" = some true ∧ truth "of" = some false ∧ truth "o" = none ∧
    isBoolean "" = true ∧ truth "" = none := by decide

/-! ## Numbers that are not finite -/

/-- A number in small letters, without white space around it and its sign. -/
def unsigned (letters : List Char) : List Char :=
  match (letters.dropWhile Char.isWhitespace).rdropWhile Char.isWhitespace with
  | '+' :: word => word
  | '-' :: word => word
  | word => word

/-- `NaN`, also with digits in parentheses. -/
def isNaN (letters : List Char) : Bool :=
  match unsigned letters with
  | 'n' :: 'a' :: 'n' :: rest => rest = [] || (rest.head? = some '(' && rest.getLast? = some ')')
  | _ => false

/-- `Inf` or `Infinity`. -/
def isInfinite (letters : List Char) : Bool :=
  unsigned letters = "inf".toList || unsigned letters = "infinity".toList

/-- A text with a truth value is a digit or abbreviates a word. -/
theorem words_of_truth {text : String} (h : (truth text).isSome = true) :
    lowercase text ∈ [['0'], ['1']] ∨
      ∃ full ∈ ["yes", "true", "on", "no", "false", "off"], lowercase text <+: full.toList := by
  by_contra hnone
  obtain ⟨hdigits, hwords⟩ := not_or.mp hnone
  obtain ⟨hzero, hone⟩ : lowercase text ≠ ['0'] ∧ lowercase text ≠ ['1'] := by
    simpa using hdigits
  have hnot (full : String) (hfull : full ∈ ["yes", "true", "on", "no", "false", "off"])
      (least : Nat) : abbreviates (lowercase text) full least = false := by
    refine Bool.eq_false_iff.mpr fun hab => hwords ⟨full, hfull, ?_⟩
    exact List.isPrefixOf_iff_prefix.mp (Bool.and_eq_true_iff.mp hab).2
  simp [truth, hzero, hone, hnot] at h

/-- A boolean is not NaN. -/
theorem isNaN_of_isBoolean {text : String} (h : isBoolean text = true) :
    isNaN (lowercase text) = false := by
  have hdigits : ∀ word ∈ [['0'], ['1']], isNaN word = false := by decide
  have hwords : ∀ full ∈ ["yes", "true", "on", "no", "false", "off"],
      ∀ word ∈ full.toList.inits, isNaN word = false := by decide
  rcases Bool.or_eq_true_iff.mp h with hempty | hsome
  · rw [of_decide_eq_true hempty]
    rfl
  · rcases words_of_truth hsome with hdigit | ⟨full, hfull, hprefix⟩
    · exact hdigits _ hdigit
    · exact hwords full hfull _ ((List.mem_inits _ _).mpr hprefix)

namespace TclValue

variable {K : Type*} [LinearOrder K]

/-! ## Comparisons -/

def isNaN (v : TclValue K) : Bool := v.number.isNone && Library.isNaN (lowercase v.text)

/-- The number that comparisons see. -/
def compared (v : TclValue K) : Option (WithBot (WithTop K)) :=
  match v.number with
  | some x => some ((x : WithTop K) : WithBot (WithTop K))
  | none =>
    if isInfinite (lowercase v.text) then
      some (if '-' ∈ v.text.toList then ⊥ else ((⊤ : WithTop K) : WithBot (WithTop K)))
    else none

/-- `$a < $b`. -/
def less (a b : TclValue K) : Bool :=
  if a.isNaN || b.isNaN then false
  else
    match a.compared, b.compared with
    | some x, some y => x < y
    | _, _ => a.text < b.text

/-- `$a <= $b`. -/
def lessEqual (a b : TclValue K) : Bool := !(a.isNaN || b.isNaN) && !b.less a

/-- `$a == $b`. -/
def equal (a b : TclValue K) : Bool :=
  if a.isNaN || b.isNaN then false
  else
    match a.compared, b.compared with
    | some x, some y => x = y
    | _, _ => a.text = b.text

variable {a b : TclValue K} {x y : K}

omit [LinearOrder K] in
theorem isNaN_number (h : a.number = some x) : a.isNaN = false := by
  simp [isNaN, h]

omit [LinearOrder K] in
theorem compared_number (h : a.number = some x) :
    a.compared = some ((x : WithTop K) : WithBot (WithTop K)) := by
  simp [compared, h]

theorem less_numbers (ha : a.number = some x) (hb : b.number = some y) :
    a.less b = decide (x < y) := by
  simp [less, isNaN_number ha, isNaN_number hb, compared_number ha, compared_number hb]

theorem lessEqual_numbers (ha : a.number = some x) (hb : b.number = some y) :
    a.lessEqual b = decide (x ≤ y) := by
  simp [lessEqual, isNaN_number ha, isNaN_number hb, less_numbers hb ha, ← not_lt]

/-- A value that is not NaN is equal to itself. -/
theorem equal_self (h : a.isNaN = false) : a.equal a = true := by
  cases hcompared : a.compared <;> simp [equal, h, hcompared]

end TclValue

example : TclValue.less (K := Nat) ⟨"nan", none⟩ ⟨"1.0", some 1⟩ = false ∧
    TclValue.less (K := Nat) ⟨"-Inf", none⟩ ⟨"1.0", some 1⟩ = true := by decide

end EpicsTcl.Library
