/-
EpicsTcl.Library.Bytes — numbers as bytes, arrays of slots of one size, and
words of different lengths.

`littleEndian w n` are the `w` bytes of `n`, the least significant first.

An array is written slot after slot (`List.flatMap`). `drop_slots` finds
the `i`-th slot at `w * i`, and `fillSlots` is a loop that writes the slots
into memory one after the other: `fillSlots_eq` and `fillSlots_full` say
what the memory holds when it is done.

Words of different lengths can be told apart if the first of them can
(`eq_of_flatMap_eq`).
-/
import Mathlib.Data.List.Basic
import Mathlib.Tactic.Ring

namespace EpicsTcl.Library

/-- The `w` little-endian bytes of `n`. -/
def littleEndian : Nat → Nat → List UInt8
  | 0, _ => []
  | w + 1, n => UInt8.ofNat n :: littleEndian w (n / 256)

@[simp] theorem length_littleEndian (w n : Nat) : (littleEndian w n).length = w := by
  induction w generalizing n with
  | zero => rfl
  | succ w ih => simp [littleEndian, ih]

/-! ## Slots -/

section Slots

variable {α β : Type*} {slot : α → List β} {w : Nat} {l : List α}

theorem length_slots (h : ∀ a ∈ l, (slot a).length = w) :
    (l.flatMap slot).length = w * l.length := by
  induction l with
  | nil => rfl
  | cons a l ih =>
    have htail : (l.flatMap slot).length = w * l.length := ih fun b hb => h b (by simp [hb])
    simp only [List.flatMap_cons, List.length_append, h a List.mem_cons_self, htail,
      List.length_cons]
    ring

/-- The slots from the `i`-th on. -/
theorem drop_slots (h : ∀ a ∈ l, (slot a).length = w) (rest : List β) (i : Nat)
    (hi : i ≤ l.length) :
    (l.flatMap slot ++ rest).drop (w * i) = (l.drop i).flatMap slot ++ rest := by
  induction l generalizing i with
  | nil =>
    have : i = 0 := by simpa using hi
    simp [this]
  | cons a l ih =>
    cases i with
    | zero => simp
    | succ i =>
      have hsplit : w * (i + 1) = (slot a).length + w * i := by
        rw [h a List.mem_cons_self]
        ring
      rw [List.flatMap_cons, List.append_assoc, hsplit, List.drop_length_add_append]
      simpa using ih (fun b hb => h b (by simp [hb])) i (by simpa using hi)

/-- Write bytes into memory. What goes beyond its end is not seen in it. -/
def writeAt (offset : Nat) (bytes mem : List β) : List β :=
  (mem.take offset ++ bytes ++ mem.drop (offset + bytes.length)).take mem.length

@[simp] theorem length_writeAt (offset : Nat) (bytes mem : List β) :
    (writeAt offset bytes mem).length = mem.length := by
  simp only [writeAt, List.length_take, List.length_append, List.length_drop]
  omega

theorem writeAt_of_le {offset : Nat} {bytes mem : List β} (h : offset + bytes.length ≤ mem.length) :
    writeAt offset bytes mem = mem.take offset ++ bytes ++ mem.drop (offset + bytes.length) := by
  rw [writeAt, List.take_of_length_le]
  simp only [List.length_append, List.length_take, List.length_drop]
  omega

/-- Write an array from the `i`-th slot on. A slot need not be written to
its end. -/
def fillSlots (w : Nat) (slot : α → List β) : List α → Nat → List β → List β
  | [], _, mem => mem
  | a :: l, i, mem => fillSlots w slot l (i + 1) (writeAt (w * i) (slot a) mem)

@[simp] theorem length_fillSlots (w : Nat) (slot : α → List β) (l : List α) (i : Nat)
    (mem : List β) : (fillSlots w slot l i mem).length = mem.length := by
  induction l generalizing i mem with
  | nil => rfl
  | cons a l ih => rw [fillSlots, ih, length_writeAt]

/-- What is written over a block of equal bytes that is large enough: every
slot, filled up with the byte that was there. -/
theorem fillSlots_eq (hslot : ∀ a ∈ l, (slot a).length ≤ w) (pre : List β) (b : β) (i n : Nat)
    (hpre : pre.length = w * i) (hroom : w * l.length ≤ n) :
    fillSlots w slot l i (pre ++ List.replicate n b) =
      pre ++ l.flatMap (fun a => slot a ++ List.replicate (w - (slot a).length) b) ++
        List.replicate (n - w * l.length) b := by
  induction l generalizing pre i n with
  | nil => simp [fillSlots]
  | cons a l ih =>
    have ha : (slot a).length ≤ w := hslot a List.mem_cons_self
    have hlength : w * (a :: l).length = w + w * l.length := by
      rw [List.length_cons]
      ring
    rw [hlength] at hroom
    -- the new prefix ends with the slot and what is left of it
    let pad := List.replicate (w - (slot a).length) b
    have hwrite : writeAt (w * i) (slot a) (pre ++ List.replicate n b) =
        (pre ++ (slot a ++ pad)) ++ List.replicate (n - w) b := by
      have hrest : n - (slot a).length = (w - (slot a).length) + (n - w) := by omega
      have hfits : w * i + (slot a).length ≤ (pre ++ List.replicate n b).length := by
        rw [List.length_append, List.length_replicate, hpre]
        omega
      rw [writeAt_of_le hfits, ← hpre, List.take_left, List.drop_length_add_append,
        List.drop_replicate, hrest,
        List.replicate_add]
      simp [pad]
    have hpre' : (pre ++ (slot a ++ pad)).length = w * (i + 1) := by
      simp only [List.length_append, hpre, pad, List.length_replicate]
      rw [Nat.mul_add, Nat.mul_one]
      omega
    rw [fillSlots, hwrite,
      ih (fun c hc => hslot c (List.mem_cons_of_mem a hc)) _ _ _ hpre' (by omega),
      hlength, List.flatMap_cons, Nat.sub_add_eq]
    simp [pad]

/-- Slots written to their ends: nothing of the old memory is left under
them. -/
theorem fillSlots_full (hslot : ∀ a ∈ l, (slot a).length = w) (pre mem : List β) (i : Nat)
    (hpre : pre.length = w * i) (hroom : w * l.length ≤ mem.length) :
    fillSlots w slot l i (pre ++ mem) = pre ++ l.flatMap slot ++ mem.drop (w * l.length) := by
  induction l generalizing pre mem i with
  | nil => simp [fillSlots]
  | cons a l ih =>
    have ha : (slot a).length = w := hslot a List.mem_cons_self
    have hlength : w * (a :: l).length = w + w * l.length := by
      rw [List.length_cons]
      ring
    rw [hlength] at hroom
    have hfits : w * i + (slot a).length ≤ (pre ++ mem).length := by
      rw [List.length_append, hpre, ha]
      omega
    have hwrite : writeAt (w * i) (slot a) (pre ++ mem) = (pre ++ slot a) ++ mem.drop w := by
      rw [writeAt_of_le hfits, ← hpre, List.take_left, List.drop_length_add_append, ha]
    have hpre' : (pre ++ slot a).length = w * (i + 1) := by
      rw [List.length_append, hpre, ha]
      ring
    have hroom' : w * l.length ≤ (mem.drop w).length := by
      rw [List.length_drop]
      omega
    rw [fillSlots, hwrite, ih (fun c hc => hslot c (List.mem_cons_of_mem a hc)) _ _ _ hpre' hroom',
      List.drop_drop, hlength, List.flatMap_cons]
    simp

end Slots

/-! ## Words -/

/-- No word is empty, and what follows a word does not make it another one. -/
theorem eq_of_flatMap_eq {α β : Type*} {P : α → Prop} {word : α → List β}
    (hne : ∀ a, word a ≠ [])
    (hfirst : ∀ a b (l m : List α), (∀ c ∈ a :: l, P c) → (∀ c ∈ b :: m, P c) →
      word a ++ l.flatMap word = word b ++ m.flatMap word → a = b)
    {l m : List α} (hl : ∀ c ∈ l, P c) (hm : ∀ c ∈ m, P c)
    (h : l.flatMap word = m.flatMap word) : l = m := by
  induction l generalizing m with
  | nil =>
    cases m with
    | nil => rfl
    | cons b m => exact absurd (List.append_eq_nil_iff.mp h.symm).1 (hne b)
  | cons a l ih =>
    cases m with
    | nil => exact absurd (List.append_eq_nil_iff.mp h).1 (hne a)
    | cons b m =>
      obtain rfl := hfirst a b l m hl hm h
      have hrest : l.flatMap word = m.flatMap word := List.append_cancel_left h
      rw [ih (fun c hc => hl c (List.mem_cons_of_mem a hc))
        (fun c hc => hm c (List.mem_cons_of_mem a hc)) hrest]

end EpicsTcl.Library
