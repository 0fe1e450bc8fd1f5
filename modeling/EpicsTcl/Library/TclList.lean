/-
EpicsTcl.Library.TclList — lists of Tcl, as texts.

`splitList` reads a text as a list (`llength`, `lindex`, `foreach`). Elements
are separated by white space. An element in braces is taken as it is, up to
the brace that matches; in an element in quotes, and in one with neither, a
backslash sequence stands for a character. After the closing brace or quote
white space must follow.

Every round of a scanner takes a character at least, so as many rounds as
there are characters are enough.
-/
import Mathlib.Data.String.Basic

namespace EpicsTcl.Library

namespace TclList

/-- `isspace`. -/
def isSpace (c : Char) : Bool :=
  c = ' ' || c = '\t' || c = '\n' || c = '\r' || c.toNat = 11 || c.toNat = 12

/-- A digit in a base up to 16. -/
def digit (base : Nat) (c : Char) : Option Nat :=
  let value :=
    if '0' ≤ c ∧ c ≤ '9' then c.toNat - '0'.toNat
    else if 'a' ≤ c ∧ c ≤ 'f' then c.toNat - 'a'.toNat + 10
    else if 'A' ≤ c ∧ c ≤ 'F' then c.toNat - 'A'.toNat + 10
    else base
  if value < base then some value else none

/-- A number of at most so many digits, and what comes after it. -/
def digits (base : Nat) : Nat → Nat → List Char → Nat × List Char
  | 0, value, text => (value, text)
  | _ + 1, value, [] => (value, [])
  | most + 1, value, c :: text =>
    match digit base c with
    | none => (value, c :: text)
    | some d => digits base most (value * base + d) text

/-- A letter and a number in hexadecimal; the letter itself without digits. -/
def hexadecimal (letter : Char) (most : Nat) (text : List Char) : Char × List Char :=
  match text.head?.bind (digit 16) with
  | none => (letter, text)
  | some _ =>
    let (value, rest) := digits 16 most 0 text
    (Char.ofNat value, rest)

/-- A backslash sequence, from the character after the backslash on. -/
def backslash : List Char → Char × List Char
  | [] => ('\\', [])
  | c :: text =>
    match c with
    | 'a' => (Char.ofNat 7, text)
    | 'b' => (Char.ofNat 8, text)
    | 'f' => (Char.ofNat 12, text)
    | 'n' => ('\n', text)
    | 'r' => ('\r', text)
    | 't' => ('\t', text)
    | 'v' => (Char.ofNat 11, text)
    | 'x' => hexadecimal 'x' 2 text
    | 'u' => hexadecimal 'u' 4 text
    | 'U' => hexadecimal 'U' 8 text
    | '\n' => (' ', text.dropWhile fun c => c = ' ' || c = '\t')
    | c =>
      match digit 8 c with
      | none => (c, text)
      | some d =>
        let (value, rest) := digits 8 2 d text
        (Char.ofNat value, rest)

/-- White space or nothing follows an element. -/
def ended (text : List Char) : Bool := text.head?.all isSpace

/-- An element without braces or quotes. -/
def bare : Nat → List Char → List Char × List Char
  | 0, text => ([], text)
  | _ + 1, [] => ([], [])
  | n + 1, c :: text =>
    if isSpace c then ([], c :: text)
    else
      let (c, text) := if c = '\\' then backslash text else (c, text)
      let (word, rest) := bare n text
      (c :: word, rest)

/-- An element in quotes, after the first of them. -/
def quoted : Nat → List Char → Option (List Char × List Char)
  | 0, _ => none
  | _ + 1, [] => none
  | n + 1, c :: text =>
    if c = '"' then if ended text then some ([], text) else none
    else
      let (c, text) := if c = '\\' then backslash text else (c, text)
      (quoted n text).map fun (word, rest) => (c :: word, rest)

/-- An element in braces, after the first of them; `depth` more are open. -/
def braced : Nat → List Char → Option (List Char × List Char)
  | _, [] => none
  | depth, '\\' :: c :: text =>
    (braced depth text).map fun (word, rest) => ('\\' :: c :: word, rest)
  | depth, '{' :: text => (braced (depth + 1) text).map fun (word, rest) => ('{' :: word, rest)
  | 0, '}' :: text => if ended text then some ([], text) else none
  | depth + 1, '}' :: text => (braced depth text).map fun (word, rest) => ('}' :: word, rest)
  | depth, c :: text => (braced depth text).map fun (word, rest) => (c :: word, rest)

/-- One element and what comes after it. -/
def element : List Char → Option (List Char × List Char)
  | '{' :: text => braced 0 text
  | '"' :: text => quoted (text.length + 1) text
  | text => some (bare text.length text)

def elements : Nat → List Char → Option (List String)
  | 0, _ => some []
  | n + 1, text =>
    match text.dropWhile isSpace with
    | [] => some []
    | text =>
      match element text with
      | none => none
      | some (word, rest) => (elements n rest).map (String.ofList word :: ·)

end TclList

/-- A text as a list; `none` if it is not one. -/
def splitList (text : String) : Option (List String) :=
  TclList.elements (text.length + 1) text.toList

example : splitList "a {b c} \"d e\" f\\ g" = some ["a", "b c", "d e", "f g"] ∧
    splitList "\x7ba\\\x7d b\x7d c" = some ["a\\\x7d b", "c"] ∧
    splitList "\x7ba" = none ∧ splitList "{a}b" = none ∧
    splitList "\\x41b\\101" = some ["AbA"] := by
  decide

end EpicsTcl.Library
