/-
EpicsTcl.Channel.DecodingTheorems — what the integer and the enumerated
converter make of the payload of an event.

§1 The loop of `getVector`: element `i` is converted at `elementSize * i`.

§2 Integers. `CIntegerConverter` reads a `long` of eight bytes where the
   payload has a `dbr_long_t` of four, so that the bytes of the next element
   (or those that follow the payload) become the high half of the number.
   `integers_decoded` says for which elements the text is right.

§3 Enumerated values. `CEnumConverter` lets its pointer step over whole
   `dbr_gr_enum` records, but only the first element has one.
   `labelsInForce` are the labels it uses for element `i`, and
   `enums_decoded` says when the texts are right.
-/
import EpicsTcl.Channel.Payload
import Mathlib.Data.List.TakeWhile

namespace EpicsTcl.Channel

open EpicsTcl.Library

/-! ## §1 The loop -/

/-- A converter that keeps nothing converts every element by itself. -/
theorem getVectorLoop_of_keeps_nothing {c : CConverter} (h : ∀ p, (c.convert p).2 = c) (n : Nat)
    (p : List UInt8) :
    (c.getVectorLoop n p).1 =
      (List.range n).map fun i => (c.convert (p.drop (c.elementSize * i))).1 := by
  induction n generalizing p with
  | zero => rfl
  | succ n ih =>
    have hnext : ∀ i, (p.drop c.elementSize).drop (c.elementSize * i) =
        p.drop (c.elementSize * (i + 1)) := by
      intro i
      rw [List.drop_drop, Nat.mul_add, Nat.mul_one, Nat.add_comm]
    simp [CConverter.getVectorLoop, h, ih, hnext, List.range_succ_eq_map]

/-- Two lists of texts are equal if they are at every place. -/
theorem texts_eq_iff {α : Type*} {l : List α} {f : Nat → String} {g : α → String} :
    (List.range l.length).map f = l.map g ↔ ∀ (i : Nat) (hi : i < l.length), f i = g l[i] := by
  constructor
  · intro h i hi
    have hget := congrArg (fun texts => texts[i]?) h
    simpa [hi] using hget
  · intro h
    apply List.ext_getElem
    · simp
    · intro i hi _
      simp only [List.length_map, List.length_range] at hi
      simp [h i hi]

/-! ## §2 Integers -/

/-- The event of an integer channel: its elements, and what follows them in
memory. -/
def longEvent (status : Int) (a : List (BitVec 32)) (rest : List UInt8) : EventHandlerArgs where
  status
  count := a.length
  dbr := longPayload a ++ rest

theorem convert_long (p : List UInt8) :
    ((⟨.cIntegerConverter, []⟩ : CConverter).convert p).1 = toString (readLong p) := rfl

theorem repr_nat_inj {m n : Nat} (h : m.repr = n.repr) : m = n := by
  have hdigits : Nat.toDigits 10 m = Nat.toDigits 10 n := by
    rw [← Nat.toList_repr, ← Nat.toList_repr, h]
  rw [← Nat.ofDigitChars_ten_toDigits (n := m), hdigits, Nat.ofDigitChars_ten_toDigits]

theorem repr_ne_minus (m : Nat) (s : String) : m.repr ≠ "-" ++ s := by
  intro h
  have hdigits : Nat.toDigits 10 m = '-' :: s.toList := by
    rw [← Nat.toList_repr, h, String.toList_append]
    rfl
  have hminus : '-' ∈ Nat.toDigits 10 m := hdigits ▸ List.mem_cons_self
  exact absurd (Nat.isDigit_of_mem_toDigits (by decide) (by decide) hminus) (by decide)

/-- Different numbers have different decimal texts. -/
theorem toString_int_inj {m n : Int} : toString m = toString n ↔ m = n := by
  refine ⟨fun h => ?_, congrArg _⟩
  cases m with
  | ofNat m =>
    cases n with
    | ofNat n => rw [repr_nat_inj h]
    | negSucc n => exact absurd h (repr_ne_minus m _)
  | negSucc m =>
    cases n with
    | ofNat n => exact absurd h.symm (repr_ne_minus n _)
    | negSucc n =>
      have hdigits : (m + 1).repr = (n + 1).repr := String.append_right_inj _ |>.mp h
      rw [Nat.succ_injective (repr_nat_inj hdigits)]

/-- What `CIntegerConverter` makes of element `i`. -/
theorem convert_long_eq_iff {a : List (BitVec 32)} {rest : List UInt8} {i : Nat}
    (hi : i < a.length) :
    ((⟨.cIntegerConverter, []⟩ : CConverter).convert
        ((longPayload a ++ rest).drop (dbrLongSize * i))).1 = toString a[i].toInt ↔
      SignExtends a[i] ((longPayload a ++ rest).drop (dbrLongSize * (i + 1))) := by
  have hhere : (longPayload a ++ rest).drop (dbrLongSize * i) =
      littleEndian dbrLongSize a[i].toNat ++ (longPayload (a.drop (i + 1)) ++ rest) := by
    rw [drop_longPayload rest hi.le, List.drop_eq_getElem_cons hi, longPayload, List.flatMap_cons,
      List.append_assoc]
    rfl
  have hnext : (longPayload a ++ rest).drop (dbrLongSize * (i + 1)) =
      longPayload (a.drop (i + 1)) ++ rest := drop_longPayload rest hi
  rw [hhere, hnext, convert_long, toString_int_inj, readLong_eq_iff]

theorem getVector_long_iff (status : Int) (a : List (BitVec 32)) (rest : List UInt8) :
    ((⟨.cIntegerConverter, []⟩ : CConverter).getVector (longEvent status a rest)).1 =
        a.map (fun x => toString x.toInt) ↔
      ∀ (i : Nat) (hi : i < a.length),
        SignExtends a[i] ((longPayload a ++ rest).drop (dbrLongSize * (i + 1))) := by
  have hloop := getVectorLoop_of_keeps_nothing (c := ⟨.cIntegerConverter, []⟩) (fun _ => rfl)
    a.length (longPayload a ++ rest)
  rw [CConverter.getVector, longEvent, hloop, texts_eq_iff]
  exact forall_congr' fun i => forall_congr' fun hi => convert_long_eq_iff hi

/-- An integer channel is decoded exactly when each element is followed by
four bytes that repeat its sign: those of the next element, or those after
the payload. -/
theorem integers_decoded (status : Int) (a₁ : BitVec 32) (as : List (BitVec 32))
    (rest : List UInt8) :
    (((⟨.cIntegerConverter, []⟩ : CConverter).getVector (longEvent status (a₁ :: as) rest)).1 =
          (a₁ :: as).map (fun x => toString x.toInt) ∧
        ((⟨.cIntegerConverter, []⟩ : CConverter).scalar (longEvent status (a₁ :: as) rest)).1 =
          toString a₁.toInt) ↔
      ∀ (i : Nat) (hi : i < (a₁ :: as).length),
        SignExtends (a₁ :: as)[i]
          ((longPayload (a₁ :: as) ++ rest).drop (dbrLongSize * (i + 1))) := by
  rw [getVector_long_iff, and_iff_left_iff_imp]
  intro h
  -- the scalar is the first element
  have hfirst : 0 < (a₁ :: as).length := Nat.zero_lt_succ as.length
  exact (convert_long_eq_iff hfirst).mpr (h 0 hfirst)

/-- The elements 1 and 2: the first is read together with the second. -/
theorem one_two_reads_wrong :
    ¬ (((⟨.cIntegerConverter, []⟩ : CConverter).getVector
          (longEvent ecaNormal [1, 2] [0, 0, 0, 0])).1 =
            [1, 2].map (fun x : BitVec 32 => toString x.toInt) ∧
        ((⟨.cIntegerConverter, []⟩ : CConverter).scalar
          (longEvent ecaNormal [1, 2] [0, 0, 0, 0])).1 = toString (1 : BitVec 32).toInt) := by
  decide

/-! ## §3 Enumerated values -/

/-- The event of an enumerated channel: the header with the first value, the
other values, and what follows them in memory. -/
def enumEvent (status : Int) (h : EnumHeader) (values : List (BitVec 16)) (rest : List UInt8) :
    EventHandlerArgs where
  status
  count := values.length
  dbr := h.payload values ++ rest

/-- The labels `CEnumConverter` uses for element `i` of the memory `p`: those
it has kept, or those it finds where it looks for a header. -/
def labelsInForce (kept : List String) (p : List UInt8) : Nat → List String
  | 0 => if kept.length = 0 then CConverter.enumLabels p else kept
  | i + 1 =>
    if (labelsInForce kept p i).length = 0 then
      CConverter.enumLabels (p.drop (dbrGrEnumSize * (i + 1)))
    else labelsInForce kept p i

/-- The value `CEnumConverter` reads for element `i`. -/
def enumValueRead (p : List UInt8) (i : Nat) : Nat :=
  readUInt16 (p.drop (dbrGrEnumSize * i + enumValueOffset))

theorem convert_enum (kept : List String) (p : List UInt8) :
    (⟨.cEnumConverter, kept⟩ : CConverter).convert p =
      (enumText (labelsInForce kept p 0) (enumValueRead p 0),
        ⟨.cEnumConverter, labelsInForce kept p 0⟩) := by
  simp only [CConverter.convert, CConverter.convertEnum, enumText, labelsInForce, enumValueRead,
    Nat.mul_zero, Nat.zero_add]
  generalize (if kept.length = 0 then CConverter.enumLabels p else kept) = labels
  generalize readUInt16 (p.drop enumValueOffset) = value
  cases labels[value]? with
  | none => rfl
  | some label => simp only; split <;> rfl

theorem labelsInForce_succ (kept : List String) (p : List UInt8) (i : Nat) :
    labelsInForce kept p (i + 1) =
      if (labelsInForce kept p i).length = 0 then
        CConverter.enumLabels (p.drop (dbrGrEnumSize * (i + 1)))
      else labelsInForce kept p i := rfl

/-- Going on after the first element. -/
theorem labelsInForce_drop (kept : List String) (p : List UInt8) (i : Nat) :
    labelsInForce (labelsInForce kept p 0) (p.drop dbrGrEnumSize) i =
      labelsInForce kept p (i + 1) := by
  induction i with
  | zero => simp [labelsInForce]
  | succ i ih =>
    have hoffset : dbrGrEnumSize + dbrGrEnumSize * (i + 1) = dbrGrEnumSize * (i + 1 + 1) := by ring
    rw [labelsInForce_succ _ _ i, ih, List.drop_drop, hoffset, ← labelsInForce_succ]

theorem getVectorLoop_enum (kept : List String) (n : Nat) (p : List UInt8) :
    ((⟨.cEnumConverter, kept⟩ : CConverter).getVectorLoop n p).1 =
      (List.range n).map fun i => enumText (labelsInForce kept p i) (enumValueRead p i) := by
  induction n generalizing kept p with
  | zero => rfl
  | succ n ih =>
    have hnext : ∀ i, enumValueRead (p.drop dbrGrEnumSize) i = enumValueRead p (i + 1) := by
      intro i
      have hoffset : dbrGrEnumSize + (dbrGrEnumSize * i + enumValueOffset) =
          dbrGrEnumSize * (i + 1) + enumValueOffset := by ring
      rw [enumValueRead, List.drop_drop, hoffset, enumValueRead]
    have hsize : (⟨.cEnumConverter, kept⟩ : CConverter).elementSize = dbrGrEnumSize := rfl
    simp [CConverter.getVectorLoop, convert_enum, hsize, ih, hnext, labelsInForce_drop,
      List.range_succ_eq_map]

theorem getVector_enum_iff (status : Int) (h : EnumHeader) (values : List (BitVec 16))
    (kept : List String) (rest : List UInt8) :
    ((⟨.cEnumConverter, kept⟩ : CConverter).getVector (enumEvent status h values rest)).1 =
        values.map (fun v => enumText h.labels v.toNat) ↔
      ∀ (i : Nat) (hi : i < values.length),
        enumText (labelsInForce kept (h.payload values ++ rest) i)
            (enumValueRead (h.payload values ++ rest) i) =
          enumText h.labels values[i].toNat := by
  rw [CConverter.getVector, enumEvent, getVectorLoop_enum]
  exact texts_eq_iff

/-! What the converter finds: the labels at the header, and the values 212
places from each other. -/

theorem cString_append {s : List UInt8} (h : 0 ∈ s) (next : List UInt8) :
    cString (s ++ next) = cString s := by
  rw [cString, cString, List.takeWhile_append, if_neg]
  intro hall
  have hzero : (0 : UInt8) ∈ s.takeWhile (· ≠ 0) := by
    rw [List.IsPrefix.eq_of_length (List.takeWhile_prefix _) hall]
    exact h
  simpa using List.mem_takeWhile_imp hzero

theorem enumLabels_payload (h : EnumHeader) (values : List (BitVec 16)) (rest : List UInt8) :
    CConverter.enumLabels (h.payload values ++ rest) = h.labels := by
  have hlength : h.strs.length = 16 := h.strs_length
  have hno : h.noStr ≤ h.strs.length := h.noStr_le
  have hcount : (readInt16 ((h.payload values ++ rest).drop enumNoStrOffset)).toNat = h.noStr := by
    rw [h.drop_noStr, readInt16_littleEndian (by omega), Int.toNat_natCast]
  rw [CConverter.enumLabels, hcount, EnumHeader.labels]
  apply List.ext_getElem
  · simp [hno]
  · intro i hi _
    simp only [List.length_map, List.length_range] at hi
    have hstr : i < h.strs.length := by omega
    have hzero : 0 ∈ h.strs[i] :=
      h.terminated _ (List.mem_take_iff_getElem.mpr ⟨i, by omega, rfl⟩)
    simp only [List.getElem_map, List.getElem_range, List.getElem_take, h.drop_str values rest hstr]
    exact cString_append hzero _

/-- The number `j` places after the first value: of the array, or of what
follows it in memory. -/
def enumValueAt (values : List (BitVec 16)) (rest : List UInt8) (j : Nat) : Nat :=
  readUInt16 ((values.flatMap (fun v => littleEndian 2 v.toNat) ++ rest).drop (2 * j))

/-- A `dbr_gr_enum` has the size of 212 values. -/
theorem enumValueRead_payload (h : EnumHeader) (values : List (BitVec 16)) (rest : List UInt8)
    (i : Nat) : enumValueRead (h.payload values ++ rest) i = enumValueAt values rest (212 * i) := by
  have hoffset : dbrGrEnumSize * i + enumValueOffset = enumValueOffset + 2 * (212 * i) := by
    rw [dbrGrEnumSize]
    omega
  rw [enumValueRead, hoffset, ← List.drop_drop, h.drop_value, enumValueAt]

theorem enumValueAt_of_lt {values : List (BitVec 16)} (rest : List UInt8) {j : Nat}
    (hj : j < values.length) : enumValueAt values rest j = values[j].toNat := by
  have hv : values[j].toNat < 2 ^ 16 := values[j].isLt
  have hslots := drop_slots (l := values) (fun v _ => length_littleEndian 2 v.toNat) rest j hj.le
  rw [enumValueAt, hslots, List.drop_eq_getElem_cons hj, readUInt16, List.flatMap_cons,
    List.append_assoc, readUnsigned_littleEndian]
  omega

/-- Labels that are in force stay. -/
theorem labelsInForce_stay {kept : List String} {p : List UInt8} (h : labelsInForce kept p 0 ≠ [])
    (i : Nat) : labelsInForce kept p i = labelsInForce kept p 0 := by
  induction i with
  | zero => rfl
  | succ i ih =>
    rw [labelsInForce_succ, ih, if_neg]
    simpa using h

theorem labelsInForce_payload (h : EnumHeader) (values : List (BitVec 16)) (rest : List UInt8)
    {kept : List String} (hkept : kept = [] ∨ kept = h.labels) :
    labelsInForce kept (h.payload values ++ rest) 0 = h.labels := by
  rw [labelsInForce, enumLabels_payload]
  cases hkept with
  | inl hnone => simp [hnone]
  | inr hsame => simp [hsame]

/-- A scalar is right as long as the labels are those of the header. -/
theorem enum_scalar_decoded (status : Int) (h : EnumHeader) (v : BitVec 16) {kept : List String}
    (rest : List UInt8) (hkept : kept = [] ∨ kept = h.labels) :
    ((⟨.cEnumConverter, kept⟩ : CConverter).getVector (enumEvent status h [v] rest)).1 =
      [enumText h.labels v.toNat] := by
  refine (getVector_enum_iff status h [v] kept rest).mpr fun i hi => ?_
  have hzero : i = 0 := by simpa using hi
  subst hzero
  rw [labelsInForce_payload h [v] rest hkept, enumValueRead_payload, enumValueAt_of_lt rest hi]

/-- An enumerated array is decoded exactly when, for each element, the value
found 422 bytes into the record at which the converter looks has, under the
labels it uses there, the text of the element.

Under the labels of the header, where there are any, that is the value 212
places after the first for the second element, 424 for the third, and so on. -/
theorem enums_decoded (status : Int) (h : EnumHeader) (v₁ : BitVec 16) (vs : List (BitVec 16))
    (kept : List String) (rest : List UInt8) :
    (((⟨.cEnumConverter, kept⟩ : CConverter).getVector (enumEvent status h (v₁ :: vs) rest)).1 =
        (v₁ :: vs).map (fun v => enumText h.labels v.toNat) ↔
      ∀ (i : Nat) (hi : i < (v₁ :: vs).length),
        enumText (labelsInForce kept (h.payload (v₁ :: vs) ++ rest) i)
            (enumValueRead (h.payload (v₁ :: vs) ++ rest) i) =
          enumText h.labels (v₁ :: vs)[i].toNat) ∧
    (kept = [] ∨ kept = h.labels → h.labels ≠ [] →
      (((⟨.cEnumConverter, kept⟩ : CConverter).getVector (enumEvent status h (v₁ :: vs) rest)).1 =
          (v₁ :: vs).map (fun v => enumText h.labels v.toNat) ↔
        ∀ (i : Nat) (hi : i < (v₁ :: vs).length),
          enumText h.labels (enumValueAt (v₁ :: vs) rest (212 * i)) =
            enumText h.labels (v₁ :: vs)[i].toNat)) := by
  refine ⟨getVector_enum_iff status h (v₁ :: vs) kept rest, fun hkept hlabels => ?_⟩
  have hforce := labelsInForce_payload h (v₁ :: vs) rest hkept
  have hall (i : Nat) : labelsInForce kept (h.payload (v₁ :: vs) ++ rest) i = h.labels :=
    (labelsInForce_stay (by rwa [hforce]) i).trans hforce
  rw [getVector_enum_iff]
  simp only [hall, enumValueRead_payload]

/-- A header with the labels `OFF` and `ON`. -/
def offOnHeader : EnumHeader where
  status := 0
  severity := 0
  noStr := 2
  strs := (([[79, 70, 70], [79, 78]] : List (List UInt8)) ++ List.replicate 14 []).map
    fun (s : List UInt8) => s ++ List.replicate (enumStringSize - s.length) 0
  noStr_le := by decide
  strs_length := by decide
  str_length := by decide
  terminated := by decide

/-- Off and on, where the memory 212 places after the first value happens to
hold the second. -/
theorem enums_decoded_off_on :
    ((⟨.cEnumConverter, []⟩ : CConverter).getVector
        (enumEvent ecaNormal offOnHeader [0, 1] (List.replicate 420 0 ++ [1, 0]))).1 =
      [0, 1].map (fun v : BitVec 16 => enumText offOnHeader.labels v.toNat) := by
  have hlabels : offOnHeader.labels ≠ [] := by decide
  refine ((enums_decoded ecaNormal offOnHeader 0 [1] [] _).2 (.inl rfl) hlabels).mpr ?_
  decide +kernel

/-- The values 0 and 1: where the second header should be is neither a
header nor the value. -/
theorem off_on_reads_wrong :
    ((⟨.cEnumConverter, []⟩ : CConverter).getVector
        (enumEvent ecaNormal offOnHeader [0, 1] [])).1 ≠
      [0, 1].map (fun v : BitVec 16 => enumText offOnHeader.labels v.toNat) := by
  decide +kernel

end EpicsTcl.Channel
