/-
EpicsTcl.Channel.Payload — the payloads of Channel Access events, as its
layout has them, and what reading them gives.

* `longPayload`: `dbr_long_t` elements, stored contiguously.
* `EnumHeader.payload`: one `dbr_gr_enum` with the first value, followed
  by the remaining `dbr_enum_t` values.
-/
import EpicsTcl.Channel.Converter
import EpicsTcl.Library.Bytes

namespace EpicsTcl.Channel

open EpicsTcl.Library

/-! ## Reading numbers -/

theorem readUnsigned_lt (w : Nat) (p : List UInt8) : readUnsigned w p < 256 ^ w := by
  induction w generalizing p with
  | zero => simp [readUnsigned]
  | succ w ih =>
    have hhead : (p.headD 0).toNat < 256 := (p.headD 0).toNat_lt
    have htail := ih p.tail
    rw [readUnsigned, pow_succ]
    omega

/-- The bytes of a number are read as the number. -/
theorem readUnsigned_littleEndian (w n : Nat) (rest : List UInt8) :
    readUnsigned w (littleEndian w n ++ rest) = n % 256 ^ w := by
  induction w generalizing n with
  | zero => simp [readUnsigned, Nat.mod_one]
  | succ w ih =>
    have hbyte : (UInt8.ofNat n).toNat = n % 256 := UInt8.toNat_ofNat'
    simp only [littleEndian, List.cons_append, readUnsigned, List.headD_cons, List.tail_cons, ih,
      hbyte]
    rw [pow_succ', Nat.mod_mul]

/-- A wide number is read as its low and its high part. -/
theorem readUnsigned_add (v w : Nat) (p : List UInt8) :
    readUnsigned (v + w) p = readUnsigned v p + 256 ^ v * readUnsigned w (p.drop v) := by
  induction v generalizing p with
  | zero => simp [readUnsigned]
  | succ v ih =>
    have hstep : v + 1 + w = (v + w) + 1 := by omega
    have htail : p.tail.drop v = p.drop (v + 1) := by simp [List.drop_tail]
    rw [hstep, readUnsigned, ih, htail, readUnsigned, pow_succ]
    ring

theorem readInt16_littleEndian {n : Nat} (h : n < 2 ^ 15) (rest : List UInt8) :
    readInt16 (littleEndian 2 n ++ rest) = n := by
  have hread : readUnsigned 2 (littleEndian 2 n ++ rest) = n := by
    rw [readUnsigned_littleEndian]
    omega
  have hvalue : Int.bmod (n : Int) (2 ^ 16) = n := Int.bmod_eq_of_le_mul_two (by omega) (by omega)
  exact (congrArg (fun m : Nat => Int.bmod (m : Int) (2 ^ 16)) hread).trans hvalue

/-! ## Integers -/

/-- `n` elements of type `dbr_long_t`. -/
def longPayload (a : List (BitVec 32)) : List UInt8 :=
  a.flatMap fun x => littleEndian dbrLongSize x.toNat

/-- The element at its place. -/
theorem drop_longPayload {a : List (BitVec 32)} (rest : List UInt8) {i : Nat} (hi : i ≤ a.length) :
    (longPayload a ++ rest).drop (dbrLongSize * i) = longPayload (a.drop i) ++ rest :=
  drop_slots (fun x _ => length_littleEndian dbrLongSize x.toNat) rest i hi

/-- The bytes `next` continue the 32-bit number `x` to the 64-bit number of
the same value. -/
def SignExtends (x : BitVec 32) (next : List UInt8) : Prop :=
  readUnsigned dbrLongSize next = if x.toInt < 0 then 2 ^ 32 - 1 else 0

instance (x : BitVec 32) (next : List UInt8) : Decidable (SignExtends x next) :=
  inferInstanceAs (Decidable (_ = _))

/-- The signed value of a 64-bit number is that of its low half exactly when
its high half is the sign of the low one. -/
theorem bmod_halves {low high : Nat} (hlow : low < 2 ^ 32) (hhigh : high < 2 ^ 32) :
    (Int.bmod ((low + 256 ^ 4 * high : Nat) : Int) (2 ^ 64) =
        if 2 * low < 2 ^ 32 then (low : Int) else low - 2 ^ 32) ↔
      high = if 2 * low < 2 ^ 32 then 0 else 2 ^ 32 - 1 := by
  have hmod : ((low + 256 ^ 4 * high : Nat) : Int) % ((2 ^ 64 : Nat) : Int) =
      ((low + 256 ^ 4 * high : Nat) : Int) := by
    omega
  rw [Int.bmod_def, hmod]
  split_ifs <;> omega

/-- A `long` read at a `dbr_long_t` has the element's value exactly when the
bytes after the element sign-extend it. -/
theorem readLong_eq_iff (x : BitVec 32) (next : List UInt8) :
    readLong (littleEndian dbrLongSize x.toNat ++ next) = x.toInt ↔ SignExtends x next := by
  have hx : x.toNat < 2 ^ 32 := x.isLt
  have hhigh : readUnsigned 4 next < 2 ^ 32 := readUnsigned_lt 4 next
  have hlow : x.toNat % 256 ^ 4 = x.toNat := by omega
  have hread : readUnsigned 8 (littleEndian dbrLongSize x.toNat ++ next) =
      x.toNat + 256 ^ 4 * readUnsigned 4 next := by
    rw [readUnsigned_add 4 4, dbrLongSize, readUnsigned_littleEndian, hlow,
      List.drop_left' (length_littleEndian 4 x.toNat)]
  have hvalue : x.toInt = if 2 * x.toNat < 2 ^ 32 then (x.toNat : Int) else x.toNat - 2 ^ 32 :=
    BitVec.toInt_eq_toNat_cond x
  have hsign : x.toInt < 0 ↔ ¬ 2 * x.toNat < 2 ^ 32 := by
    rw [hvalue]
    split_ifs <;> omega
  have hlong : readLong (littleEndian dbrLongSize x.toNat ++ next) =
      Int.bmod ((x.toNat + 256 ^ 4 * readUnsigned 4 next : Nat) : Int) (2 ^ 64) :=
    congrArg (fun n : Nat => Int.bmod (n : Int) (2 ^ 64)) hread
  have hext : SignExtends x next ↔
      readUnsigned 4 next = if 2 * x.toNat < 2 ^ 32 then 0 else 2 ^ 32 - 1 := by
    simp only [SignExtends, hsign, ite_not, dbrLongSize]
  rw [hlong, hext, hvalue]
  exact bmod_halves hx hhigh

/-! ## Enumerated values -/

/-- The value of a `struct dbr_gr_enum` without its last field. The labels
in use are NUL-terminated. -/
structure EnumHeader where
  status : BitVec 16
  severity : BitVec 16
  noStr : Nat
  strs : List (List UInt8)
  noStr_le : noStr ≤ strs.length
  strs_length : strs.length = 16
  str_length : ∀ s ∈ strs, s.length = enumStringSize
  terminated : ∀ s ∈ strs.take noStr, 0 ∈ s

namespace EnumHeader

/-- The bytes up to the value. -/
def bytes (h : EnumHeader) : List UInt8 :=
  littleEndian 2 h.status.toNat ++ littleEndian 2 h.severity.toNat ++ littleEndian 2 h.noStr ++
    h.strs.flatten

/-- The payload of an event with these values. -/
def payload (h : EnumHeader) (values : List (BitVec 16)) : List UInt8 :=
  h.bytes ++ values.flatMap fun v => littleEndian 2 v.toNat

/-- `strs[0]` to `strs[no_str - 1]`. -/
def labels (h : EnumHeader) : List String := (h.strs.take h.noStr).map cString

theorem length_strs (h : EnumHeader) : h.strs.flatten.length = enumStringSize * 16 := by
  have hslots : (h.strs.flatMap id).length = enumStringSize * h.strs.length :=
    length_slots h.str_length
  rw [List.flatMap_id, h.strs_length] at hslots
  exact hslots

/-! Each field at its offset. -/

theorem drop_noStr (h : EnumHeader) (values : List (BitVec 16)) (rest : List UInt8) :
    (h.payload values ++ rest).drop enumNoStrOffset =
      littleEndian 2 h.noStr ++ (h.strs.flatten ++
        (values.flatMap (fun v => littleEndian 2 v.toNat) ++ rest)) := by
  have hlength : (littleEndian 2 h.status.toNat ++ littleEndian 2 h.severity.toNat).length =
      enumNoStrOffset := by simp [enumNoStrOffset]
  simp only [payload, bytes, List.append_assoc]
  rw [← List.append_assoc, List.drop_left' hlength]

theorem drop_str (h : EnumHeader) (values : List (BitVec 16)) (rest : List UInt8) {i : Nat}
    (hi : i < h.strs.length) :
    (h.payload values ++ rest).drop (enumStrsOffset + enumStringSize * i) =
      h.strs[i] ++ ((h.strs.drop (i + 1)).flatten ++
        (values.flatMap (fun v => littleEndian 2 v.toNat) ++ rest)) := by
  have hoffset : enumStrsOffset + enumStringSize * i =
      enumNoStrOffset + (2 + enumStringSize * i) := by
    rw [enumStrsOffset, enumNoStrOffset]
    omega
  have hslots := drop_slots (l := h.strs) h.str_length
    (values.flatMap (fun v => littleEndian 2 v.toNat) ++ rest) i hi.le
  simp only [List.flatMap_id'] at hslots
  rw [hoffset, ← List.drop_drop, h.drop_noStr, ← List.drop_drop,
    List.drop_left' (length_littleEndian 2 h.noStr), hslots, List.drop_eq_getElem_cons hi,
    List.flatten_cons, List.append_assoc]

theorem drop_value (h : EnumHeader) (values : List (BitVec 16)) (rest : List UInt8) :
    (h.payload values ++ rest).drop enumValueOffset =
      values.flatMap (fun v => littleEndian 2 v.toNat) ++ rest := by
  have hoffset : enumValueOffset = enumNoStrOffset + (2 + enumStringSize * 16) := rfl
  rw [hoffset, ← List.drop_drop, h.drop_noStr, ← List.drop_drop,
    List.drop_left' (length_littleEndian 2 h.noStr), List.drop_left' h.length_strs]

end EnumHeader

/-- The text of a value: its label if it has one that is not blank, else
its decimal text. -/
def enumText (labels : List String) (value : Nat) : String :=
  match labels[value]? with
  | some label => if label ≠ "" then label else toString value
  | none => toString value

end EpicsTcl.Channel
