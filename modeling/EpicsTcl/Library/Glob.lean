/-
EpicsTcl.Library.Glob — Tcl's glob matching (`Tcl_StringMatch`), the rule
behind `array names a pattern` and every optional pattern argument.

`*` matches any run of characters, `?` any one character, `[chars]` one
character of a set or of ranges `a-b` (either end may be the larger), and
`\c` the character `c` itself. The matcher walks pattern and string
together as the C routine does; each step uses up at least one pattern
character, so the fuel `pattern.length + 1` is never exhausted.

Two facts are used elsewhere: a pattern without special characters matches
itself and nothing else (`globMatch_of_globFree`), and `*` matches
everything (`globMatch_star`).
-/
import Mathlib.Data.List.Infix

namespace EpicsTcl.Library

/-- The pattern after the `]` that closes a character set. -/
def skipClass : List Char → List Char
  | [] => []
  | ']' :: rest => rest
  | _ :: rest => skipClass rest

/-- Match one character against the set that starts here (the `[` is
already consumed): the rest of the pattern if it is in the set. -/
def classMatch (ch : Char) : List Char → Option (List Char)
  | [] => none
  | ']' :: _ => none
  | [_, '-'] => none
  | lo :: '-' :: hi :: rest =>
    if (lo ≤ ch ∧ ch ≤ hi) ∨ (hi ≤ ch ∧ ch ≤ lo) then some (skipClass rest)
    else classMatch ch rest
  | c :: rest => if c = ch then some (skipClass rest) else classMatch ch rest

/-- Match a string against a pattern, both as character lists. -/
def globFuel : Nat → List Char → List Char → Bool
  | 0, _, _ => false
  | _ + 1, [], s => s.isEmpty
  | n + 1, q :: p, s =>
    if q = '*' then s.tails.any (globFuel n p)
    else
      match s with
      | [] => false
      | c :: t =>
        if q = '?' then globFuel n p t
        else if q = '[' then
          match classMatch c p with
          | none => false
          | some p' => globFuel n p' t
        else if q = '\\' then
          match p with
          | [] => false
          | q' :: p' => decide (q' = c) && globFuel n p' t
        else decide (q = c) && globFuel n p t

/-- `Tcl_StringMatch s pattern`. -/
def globMatch (pattern s : String) : Bool :=
  globFuel (pattern.toList.length + 1) pattern.toList s.toList

/-- The characters that make a pattern more than a plain text. -/
def globSpecial (c : Char) : Bool :=
  c = '*' || c = '?' || c = '[' || c = '\\'

/-- A text without special characters. -/
def globFree (p : String) : Bool :=
  p.toList.all fun c => !globSpecial c

theorem globFuel_of_plain (p : List Char) (hp : ∀ c ∈ p, globSpecial c = false) :
    ∀ (s : List Char) (n : Nat), p.length < n → globFuel n p s = decide (p = s) := by
  induction p with
  | nil =>
    intro s n hn
    obtain ⟨m, rfl⟩ : ∃ m, n = m + 1 := ⟨n - 1, by omega⟩
    cases s <;> simp [globFuel]
  | cons q p ih =>
    intro s n hn
    obtain ⟨m, rfl⟩ : ∃ m, n = m + 1 := ⟨n - 1, by omega⟩
    have hq : globSpecial q = false := hp q List.mem_cons_self
    simp only [globSpecial, Bool.or_eq_false_iff, decide_eq_false_iff_not] at hq
    obtain ⟨⟨⟨hstar, hquest⟩, hopen⟩, hback⟩ := hq
    have hrest : ∀ c ∈ p, globSpecial c = false := fun c hc => hp c (List.mem_cons_of_mem _ hc)
    have hlen : p.length < m := by simpa using hn
    cases s with
    | nil => simp [globFuel, hstar]
    | cons c t =>
      simp only [globFuel, if_neg hstar, if_neg hquest, if_neg hopen, if_neg hback]
      rw [ih hrest t m hlen]
      by_cases h : q = c <;> simp [h]

/-- A pattern without special characters matches exactly itself. -/
theorem globMatch_of_globFree {p : String} (hp : globFree p = true) (s : String) :
    globMatch p s = decide (p = s) := by
  have hplain : ∀ c ∈ p.toList, globSpecial c = false := by
    simpa [globFree, List.all_eq_true] using hp
  unfold globMatch
  rw [globFuel_of_plain _ hplain _ _ (Nat.lt_succ_self _)]
  simp [String.toList_inj]

/-- The default pattern matches every string. -/
theorem globMatch_star (s : String) : globMatch "*" s = true := by
  have hmem : ([] : List Char) ∈ s.toList.tails := (List.mem_tails _ _).mpr List.nil_suffix
  have hlist : "*".toList = ['*'] := by decide
  simp only [globMatch, hlist, List.length_cons, List.length_nil, globFuel, if_true,
    List.any_eq_true]
  exact ⟨[], hmem, rfl⟩

example : globMatch "x[a-c]?*" "xb1" = true := by decide
example : globMatch "x[a-c]?*" "xd1" = false := by decide

end EpicsTcl.Library
