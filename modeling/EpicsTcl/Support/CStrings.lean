/-
EpicsTcl.Support.CStrings — the utility class `CStrings` (`CStrings.cpp`).

`EscapeString` keeps the length of its input in an `int`, so of a string of
2^31 characters or more it reads fewer than there are (`scanned`). What it
reads it writes as one word for each character, and the words can be told
apart: a character of the set is the only one that can come second in a
word, and never comes first unless the quoting character is in the set
itself (`word_first`).
-/
import EpicsTcl.Channel.Values

namespace EpicsTcl.Support

open EpicsTcl.Channel EpicsTcl.Library

/-- A C string: its characters, without the NUL that ends it. -/
@[ext] structure CString where
  chars : List UInt8
  noNul : 0 ∉ chars
  deriving DecidableEq

namespace CString

/-- `s[i]`, up to the NUL. -/
def get (s : CString) (i : Nat) : UInt8 := s.chars.getD i 0

/-- `strchr`, as a condition: the NUL is found too. -/
def strchr (s : CString) (c : UInt8) : Bool := c ∈ s.chars ++ [0]

theorem strchr_iff {s : CString} {c : UInt8} (h : c ≠ 0) : s.strchr c = true ↔ c ∈ s.chars := by
  simp [strchr, h]

theorem get_zero_ne {s : CString} (h : s.chars ≠ []) : s.get 0 ≠ 0 := by
  obtain ⟨c, rest, hchars⟩ := List.exists_cons_of_ne_nil h
  intro hzero
  refine s.noNul ?_
  simp only [get, hchars, List.getD_cons_zero] at hzero
  simp [hchars, hzero]

end CString

namespace CStrings

/-- `EscapeString`. It throws a text. -/
def escapeString (input charset how : CString) : Except String (List UInt8) :=
  if how.get 0 = 0 then .error "CStrings::EscapeString - quoting string 0 characters"
  else
    let len := intOfSize input.chars.length
    .ok ((List.range len.toNat).foldl (fun output i =>
      let c := input.get i
      if charset.strchr c then
        let output := output ++ [how.get 0]
        let output := output ++ [c]
        if how.get 1 ≠ 0 then output ++ [how.get 1] else output
      else output ++ [c]) [])

example : escapeString ⟨[97, 34, 98], by decide⟩ ⟨[34], by decide⟩ ⟨[92], by decide⟩ =
    .ok [97, 92, 34, 98] := by decide

/-! ## Words -/

/-- What is written for a character. -/
def word (charset how : CString) (c : UInt8) : List UInt8 :=
  if charset.strchr c then how.get 0 :: c :: (if how.get 1 ≠ 0 then [how.get 1] else [])
  else [c]

/-- The characters that the loop reads. -/
def scanned (s : CString) : List UInt8 := s.chars.take (intOfSize s.chars.length).toNat

theorem mem_of_scanned {s : CString} {c : UInt8} (h : c ∈ scanned s) : c ≠ 0 := by
  rintro rfl
  exact s.noNul (List.mem_of_mem_take h)

theorem scanned_short {s : CString} (h : s.chars.length < 2 ^ 31) : scanned s = s.chars := by
  have hlen : intOfSize s.chars.length = s.chars.length :=
    Int.bmod_eq_of_le_mul_two (by omega) (by omega)
  rw [scanned, hlen, Int.toNat_natCast, List.take_length]

theorem toNat_intOfSize_le (n : Nat) : (intOfSize n).toNat ≤ n := by
  have hle (m : Nat) : Int.bmod n m ≤ n := by
    have hmod : (n : Int) % m ≤ n := by exact_mod_cast Nat.mod_le n m
    rw [Int.bmod_def]
    split <;> omega
  exact Int.toNat_le.mpr (hle (2 ^ 32))

/-- The loop writes word after word. -/
theorem foldl_words (input charset how : CString) (n : Nat) (hn : n ≤ input.chars.length) :
    (List.range n).foldl (fun output i =>
      if charset.strchr (input.get i) then
        if how.get 1 ≠ 0 then output ++ [how.get 0] ++ [input.get i] ++ [how.get 1]
        else output ++ [how.get 0] ++ [input.get i]
      else output ++ [input.get i]) [] = (input.chars.take n).flatMap (word charset how) := by
  induction n with
  | zero => rfl
  | succ n ih =>
    have hlt : n < input.chars.length := hn
    have hchar : input.get n = input.chars[n] := by simp [CString.get, hlt]
    rw [List.range_succ, List.foldl_append, ih (Nat.le_of_succ_le hn),
      List.take_succ_eq_append_getElem hlt, List.flatMap_append]
    simp only [List.foldl_cons, List.foldl_nil, hchar, List.flatMap_cons, List.flatMap_nil, word]
    split
    · split <;> simp
    · simp

theorem escapeString_ok {how : CString} (hhow : how.chars ≠ []) (input charset : CString) :
    escapeString input charset how = .ok ((scanned input).flatMap (word charset how)) := by
  rw [escapeString, if_neg (CString.get_zero_ne hhow)]
  exact congrArg _ (foldl_words input charset how _ (toNat_intOfSize_le _))

/-! ## Telling words apart -/

section First

variable {charset how : CString} {a b : UInt8} {l m : List UInt8}

theorem word_plain (h : a ∉ charset.chars) (ha : a ≠ 0) : word charset how a = [a] := by
  rw [word, if_neg]
  rwa [CString.strchr_iff ha]

theorem word_escaped (h : a ∈ charset.chars) (ha : a ≠ 0) :
    word charset how a = how.get 0 :: a :: (if how.get 1 ≠ 0 then [how.get 1] else []) := by
  rw [word, if_pos]
  rwa [CString.strchr_iff ha]

/-- What comes after the quoting character, where it stands for itself, is not
in the set. -/
theorem head_plain (hquote : how.get 0 ∉ charset.chars) (hl : ∀ c ∈ l, c ≠ 0) :
    ∀ c ∈ (l.flatMap (word charset how)).head?, c ∉ charset.chars := by
  cases l with
  | nil => simp
  | cons d l =>
    intro c hc
    by_cases hd : d ∈ charset.chars
    · rw [List.flatMap_cons, word_escaped hd (hl d List.mem_cons_self)] at hc
      cases hc
      exact hquote
    · rw [List.flatMap_cons, word_plain hd (hl d List.mem_cons_self)] at hc
      cases hc
      exact hd

/-- A plain character and an escaped one begin differently. -/
theorem plain_ne_escaped (ha : a ∉ charset.chars) (ha₀ : a ≠ 0) (hb : b ∈ charset.chars)
    (hb₀ : b ≠ 0) (hl : ∀ c ∈ l, c ≠ 0) :
    word charset how a ++ l.flatMap (word charset how) ≠
      word charset how b ++ m.flatMap (word charset how) := by
  rw [word_plain ha ha₀, word_escaped hb hb₀]
  intro heq
  obtain ⟨rfl, hrest⟩ := List.cons.inj heq
  have hhead := congrArg List.head? hrest
  exact head_plain ha hl b hhead hb

/-- **The first character can be read off**, wherever the quoting characters
come from. -/
theorem word_first (ha : a ≠ 0) (hb : b ≠ 0) (hl : ∀ c ∈ l, c ≠ 0) (hm : ∀ c ∈ m, c ≠ 0)
    (h : word charset how a ++ l.flatMap (word charset how) =
      word charset how b ++ m.flatMap (word charset how)) : a = b := by
  by_cases hmem : a ∈ charset.chars
  · by_cases hmem' : b ∈ charset.chars
    · rw [word_escaped hmem ha, word_escaped hmem' hb] at h
      exact (List.cons.inj (List.cons.inj h).2).1
    · exact absurd h.symm (plain_ne_escaped hmem' hb hmem ha hm)
  · by_cases hmem' : b ∈ charset.chars
    · exact absurd h (plain_ne_escaped hmem ha hmem' hb hl)
    · rw [word_plain hmem ha, word_plain hmem' hb] at h
      exact (List.cons.inj h).1

end First

/-! ## Whole strings -/

theorem word_ne_nil (charset how : CString) (a : UInt8) : word charset how a ≠ [] := by
  unfold word
  split <;> simp

/-- What is written determines what was read. -/
theorem escapeString_eq_iff {how : CString} (hhow : how.chars ≠ []) (charset s t : CString) :
    escapeString s charset how = escapeString t charset how ↔ scanned s = scanned t := by
  rw [escapeString_ok hhow, escapeString_ok hhow]
  constructor
  · intro h
    have hwords := Except.ok.inj h
    refine eq_of_flatMap_eq (word_ne_nil charset how) (fun a b l m hal hbm heq => ?_)
      (fun c hc => mem_of_scanned hc) (fun c hc => mem_of_scanned hc) hwords
    exact word_first (hal a List.mem_cons_self) (hbm b List.mem_cons_self)
      (fun c hc => hal c (List.mem_cons_of_mem a hc))
      (fun c hc => hbm c (List.mem_cons_of_mem b hc)) heq
  · intro h
    rw [h]

/-- **Escaping loses nothing** of two strings exactly if cutting each to what
the loop reads of it does not make them equal; it does not if they have fewer than
2^31 characters. -/
theorem escaping_injective (charset how s t : CString) (hhow : how.chars ≠ []) :
    ((escapeString s charset how = escapeString t charset how → s = t) ↔
      (scanned s = scanned t → s = t)) ∧
    (s.chars.length < 2 ^ 31 → t.chars.length < 2 ^ 31 → scanned s = scanned t → s = t) := by
  refine ⟨by rw [escapeString_eq_iff hhow], fun hs ht heq => ?_⟩
  rw [scanned_short hs, scanned_short ht] at heq
  exact CString.ext heq

/-- A quotation mark and a backslash, escaped by a backslash. -/
theorem escaping_injective_quotes :
    let charset : CString := ⟨[34, 92], by decide⟩
    let how : CString := ⟨[92], by decide⟩
    let s : CString := ⟨[92, 34], by decide⟩
    let t : CString := ⟨[34, 92], by decide⟩
    ((escapeString s charset how = escapeString t charset how → s = t) ↔
      (scanned s = scanned t → s = t)) ∧
    (s.chars.length < 2 ^ 31 → t.chars.length < 2 ^ 31 → scanned s = scanned t → s = t) :=
  escaping_injective _ _ _ _ (by decide)

/-- The same character over and over. -/
def repeated (n : Nat) (c : UInt8) (h : c ≠ 0) : CString where
  chars := List.replicate n c
  noNul := by
    intro hmem
    exact h (List.eq_of_mem_replicate hmem).symm

theorem scanned_repeated {n : Nat} {c : UInt8} {h : c ≠ 0} (hn : (intOfSize n).toNat = 0) :
    scanned (repeated n c h) = [] := by
  rw [scanned, repeated, List.length_replicate, hn, List.take_zero]

/-- Of strings of 2^31 characters nothing is read. -/
theorem escaping_loses_long :
    ¬ ∀ charset how : CString, how.chars ≠ [] → ∀ s t : CString,
      escapeString s charset how = escapeString t charset how → s = t := by
  intro hall
  have hnone : (intOfSize (2 ^ 31)).toNat = 0 := by decide
  have hscanned : scanned (repeated (2 ^ 31) 97 (by decide)) =
      scanned (repeated (2 ^ 31) 98 (by decide)) := by
    rw [scanned_repeated hnone, scanned_repeated hnone]
  have heq := hall ⟨[34], by decide⟩ ⟨[92], by decide⟩ (by decide) _ _
    ((escapeString_eq_iff (by decide) _ _ _).mpr hscanned)
  have hchars : List.replicate (2 ^ 31) (97 : UInt8) = List.replicate (2 ^ 31) 98 :=
    congrArg CString.chars heq
  exact absurd ((List.replicate_right_inj (by norm_num)).mp hchars) (by decide)

end CStrings

end EpicsTcl.Support
