/-
EpicsTcl.Channel.AssignmentTheorems — what the overloads of `operator=` put.

§1 The vector overloads put the first `min(|v|, m)` elements, where `m` is
   the element count of the channel (`assignVector_connected`), if `malloc` has
   the buffer. The buffer has room for them while its size is a 32-bit number
   (`slots_le`).

§2 Strings: each has a slot of 40 bytes with a NUL at its end, and
   `CStringConverter` reads them back; the buffer has these slots and no others
   unless there are none or too many (`strings_survive`).

§3 What EPICS takes from a put: the elements of the array (`PutOnce`).

§4 Writing one value as a scalar or as a vector of one element
   (`scalar_agrees_with_vector`): the overload for an `int` puts it as a
   16-bit number.
-/
import EpicsTcl.Channel.Values
import EpicsTcl.Channel.DecodingTheorems

namespace EpicsTcl.Channel

open EpicsTcl.Library

/-! ## §1 The vector overloads -/

theorem intOfSize_of_lt {n : Nat} (h : n < 2 ^ 31) : intOfSize n = n :=
  Int.bmod_eq_of_le_mul_two (by omega) (by omega)

theorem sizeOfInt_natCast {n : Nat} (h : n < 2 ^ 31) : sizeOfInt n = n := by
  rw [sizeOfInt]
  omega

theorem itemCount_eq {length : Nat} (h : length < 2 ^ 31) (m : Nat) :
    CChannel.itemCount length m = (min length m : Nat) := by
  simp only [CChannel.itemCount, intOfSize_of_lt h, sizeOfInt_natCast h]
  split
  · next hlt => rw [intOfSize_of_lt (by omega), Nat.min_eq_right hlt.le]
  · next hle => rw [Nat.min_eq_left (Nat.le_of_not_lt hle)]

section Vector

variable {α : Type} {P : Platform} {type : Int} (elementSize : Nat)
  (clear : List UInt8 → List UInt8) (element : α → List UInt8) {rhs : List α} {c : CChannel}

/-- A connected channel is put once, with the first elements of the vector, if
there is memory for the buffer. -/
theorem assignVector_connected (hlength : rhs.length < 2 ^ 31) (hc : c.fConnected = true) (m : Nat)
    (ca : CaClient) {mem : List UInt8}
    (hmem : P.malloc (P.dbrSizeN type (min rhs.length m : Nat)) = some mem) :
    c.assignVector P type elementSize clear element m rhs ca =
      ca.arrayPut type (min rhs.length m) c.nChannel
        (fillSlots elementSize element (rhs.take (min rhs.length m)) 0 (clear mem)) := by
  have hmin : min rhs.length m < 2 ^ 31 := by omega
  rw [CChannel.assignVector, if_pos hc]
  simp only [itemCount_eq hlength, hmem, sizeOfInt_natCast hmin, Int.toNat_natCast]

/-- Without memory nothing is put. -/
theorem assignVector_unallocated (hlength : rhs.length < 2 ^ 31) (m : Nat) (ca : CaClient)
    (hmem : ¬ P.Allocates (P.dbrSizeN type (min rhs.length m : Nat))) :
    c.assignVector P type elementSize clear element m rhs ca = ca := by
  have hnone : P.malloc (P.dbrSizeN type (min rhs.length m : Nat)) = none := by
    cases hmalloc : P.malloc (P.dbrSizeN type (min rhs.length m : Nat)) with
    | none => rfl
    | some mem => exact absurd ⟨mem, hmalloc⟩ hmem
  simp only [CChannel.assignVector, itemCount_eq hlength, hnone, ite_self]

/-- A channel that is not connected is not put. -/
theorem assignVector_disconnected (hc : c.fConnected = false) (m : Nat) (ca : CaClient) :
    c.assignVector P type elementSize clear element m rhs ca = ca := by
  simp [CChannel.assignVector, hc]

end Vector

theorem unsignedOfInt_slots (size n : Nat) :
    unsignedOfInt (size * max (n : Int) 1) = size * max n 1 % 2 ^ 32 := by
  have hmax : max (n : Int) 1 = (max n 1 : Nat) := by omega
  rw [unsignedOfInt, hmax, ← Int.natCast_mul]
  omega

/-- There is room for the slots. -/
theorem slots_le {size n : Nat} (hfits : size * n < 2 ^ 32) :
    size * n ≤ size * max n 1 % 2 ^ 32 := by
  cases n with
  | zero => simp
  | succ n => rw [Nat.max_eq_left (Nat.le_add_left 1 n), Nat.mod_eq_of_lt hfits]

/-! ## §2 Strings -/

/-- The first `n` bytes of a string. -/
def cutTo (n : Nat) (s : String) : String := String.ofList (s.toList.take n)

theorem cutTo_of_length_le {n : Nat} {s : String} (h : s.length ≤ n) : cutTo n s = s := by
  have hlist : s.toList.length ≤ n := by rwa [String.length_toList]
  rw [cutTo, List.take_of_length_le hlist, String.ofList_toList]

/-- The slot of a string: what `strncpy` writes and the NUL after it. -/
def stringSlot (s : String) : List UInt8 := strncpy (dbrStringSize - 1) (stringBytes s) ++ [0]

theorem length_strncpy (n : Nat) (source : List UInt8) : (strncpy n source).length = n := by
  simp only [strncpy, List.length_append, List.length_replicate, List.length_take]
  omega

@[simp] theorem length_stringSlot (s : String) : (stringSlot s).length = dbrStringSize := by
  rw [stringSlot, List.length_append, length_strncpy]
  rfl

/-- A slot ends with a NUL. -/
theorem stringSlot_last (s : String) (rest : List UInt8) :
    (stringSlot s ++ rest)[dbrStringSize - 1]? = some 0 := by
  have hlength : (strncpy (dbrStringSize - 1) (stringBytes s)).length = dbrStringSize - 1 :=
    length_strncpy _ _
  rw [stringSlot, List.append_assoc, List.getElem?_append_right hlength.le, hlength, Nat.sub_self]
  rfl

theorem stringBytes_ne_zero {s : String} (h : NulFree s) : ∀ b ∈ stringBytes s, b ≠ 0 := by
  intro b hb hzero
  obtain ⟨c, hc, rfl⟩ := List.mem_map.mp hb
  obtain ⟨hpos, hlt⟩ := h c hc
  have hvalue : (UInt8.ofNat c.toNat).toNat = c.toNat := by
    rw [UInt8.toNat_ofNat']
    omega
  rw [hzero] at hvalue
  simp at hvalue
  omega

/-- The bytes of a string are its characters. -/
theorem map_byteChar_stringBytes {s : String} (h : NulFree s) :
    (stringBytes s).map byteChar = s.toList := by
  have hbyte : ∀ c ∈ s.toList, byteChar (UInt8.ofNat c.toNat) = c := by
    intro c hc
    have hvalue : (UInt8.ofNat c.toNat).toNat = c.toNat := by
      rw [UInt8.toNat_ofNat']
      have := (h c hc).2
      omega
    rw [byteChar, hvalue, Char.ofNat_toNat]
  rw [stringBytes, List.map_map]
  exact (List.map_congr_left hbyte).trans (List.map_id' s.toList)

/-- What `strncpy` writes of a string without NUL. -/
theorem strncpy_stringBytes {s : String} (h : NulFree s) (n : Nat) :
    strncpy n (stringBytes s) =
      (stringBytes s).take n ++ List.replicate (n - ((stringBytes s).take n).length) 0 := by
  have hall : (stringBytes s).takeWhile (· ≠ 0) = stringBytes s :=
    List.takeWhile_eq_self_iff.mpr fun b hb => by simpa using stringBytes_ne_zero h b hb
  simp only [strncpy, hall]

theorem cString_zero {text : List UInt8} (h : ∀ b ∈ text, b ≠ 0) (rest : List UInt8) :
    cString (text ++ 0 :: rest) = String.ofList (text.map byteChar) := by
  have hwhile : (text ++ 0 :: rest).takeWhile (· ≠ 0) = text := by
    rw [List.takeWhile_append_of_pos fun b hb => by simpa using h b hb]
    simp
  rw [cString, hwhile]

/-- The slot read as a C string. -/
theorem cString_stringSlot {s : String} (h : NulFree s) (rest : List UInt8) :
    cString (stringSlot s ++ rest) = cutTo (dbrStringSize - 1) s := by
  have hzeros : ∀ k, List.replicate k (0 : UInt8) ++ 0 :: rest =
      0 :: (List.replicate k 0 ++ rest) := by
    intro k
    rw [List.append_cons, ← List.replicate_succ', List.replicate_succ, List.cons_append]
  have htext : ∀ b ∈ (stringBytes s).take (dbrStringSize - 1), b ≠ 0 :=
    fun b hb => stringBytes_ne_zero h b (List.mem_of_mem_take hb)
  rw [stringSlot, strncpy_stringBytes h, List.append_assoc, List.append_assoc,
    List.singleton_append,
    hzeros, cString_zero htext, List.map_take, map_byteChar_stringBytes h, cutTo]

theorem assignStrings_connected {P : Platform} {c : CChannel} (hc : c.fConnected = true)
    {v : List String} (hlength : v.length < 2 ^ 31) (m : Nat) (ca : CaClient)
    (hP : P.Documented (min v.length m : Nat))
    (hmalloc : P.Allocates (P.dbrSizeN dbrString (min v.length m : Nat))) :
    ∃ pStorage,
      c.assignStrings P m v ca = ca.arrayPut dbrString (min v.length m) c.nChannel pStorage ∧
      pStorage.length = dbrStringSize * max (min v.length m) 1 % 2 ^ 32 ∧
      (dbrStringSize * min v.length m < 2 ^ 32 →
        ∃ tail, pStorage = (v.take (min v.length m)).flatMap stringSlot ++ tail) := by
  obtain ⟨mem, hmem⟩ := hmalloc
  have hput := assignVector_connected dbrStringSize (fun mem => List.replicate mem.length 0)
    (fun s => strncpy (dbrStringSize - 1) (stringBytes s)) hlength hc m ca hmem
  have hsize : mem.length = dbrStringSize * max (min v.length m) 1 % 2 ^ 32 := by
    rw [P.length_malloc hmem, hP.dbrSizeN_string, unsignedOfInt_slots]
  have hcount : (v.take (min v.length m)).length = min v.length m := by simp
  refine ⟨_, hput, by rw [length_fillSlots, List.length_replicate, hsize], ?_⟩
  intro hfits
  have hroom : dbrStringSize * (v.take (min v.length m)).length ≤ mem.length := by
    rw [hcount, hsize]
    exact slots_le hfits
  have hfill := fillSlots_eq (fun (s : String) (_ : s ∈ v.take (min v.length m)) =>
      (length_strncpy (dbrStringSize - 1) (stringBytes s)).le.trans (Nat.sub_le _ 1))
    [] (0 : UInt8) 0 mem.length rfl hroom
  have hpad : ∀ s : String, strncpy (dbrStringSize - 1) (stringBytes s) ++
      List.replicate (dbrStringSize - (strncpy (dbrStringSize - 1) (stringBytes s)).length) 0 =
        stringSlot s := by
    intro s
    rw [length_strncpy]
    rfl
  simp only [hpad, List.nil_append] at hfill
  exact ⟨_, hfill⟩

/-- The slot of string `i`. -/
theorem drop_stringSlots {l : List String} (tail : List UInt8) {i : Nat} (hi : i < l.length) :
    (l.flatMap stringSlot ++ tail).drop (dbrStringSize * i) =
      stringSlot l[i] ++ ((l.drop (i + 1)).flatMap stringSlot ++ tail) := by
  rw [drop_slots (fun s _ => length_stringSlot s) tail i hi.le, List.drop_eq_getElem_cons hi,
    List.flatMap_cons, List.append_assoc]

theorem getVector_stringSlots {l : List String} (hl : ∀ s ∈ l, NulFree s) (status : Int)
    (tail : List UInt8) :
    ((⟨.cStringConverter, []⟩ : CConverter).getVector
        ⟨status, l.length, l.flatMap stringSlot ++ tail⟩).1 =
      l.map (cutTo (dbrStringSize - 1)) := by
  have hloop := getVectorLoop_of_keeps_nothing (c := ⟨.cStringConverter, []⟩) (fun _ => rfl)
    l.length (l.flatMap stringSlot ++ tail)
  rw [CConverter.getVector, hloop, texts_eq_iff]
  intro i hi
  have htext : cString ((l.flatMap stringSlot ++ tail).drop (dbrStringSize * i)) =
      cutTo (dbrStringSize - 1) l[i] := by
    rw [drop_stringSlots tail hi]
    exact cString_stringSlot (hl l[i] (List.getElem_mem hi)) _
  exact htext

/-- What the buffer of a put holds: a slot of 40 bytes for each of the first
`n` strings, with a NUL at its end, which is decoded to these strings, cut to 39
bytes. -/
structure StringsSurvive (v : List String) (n : Nat) (pStorage : List UInt8) : Prop where
  slots : pStorage.length = dbrStringSize * n
  terminated : ∀ i < n, pStorage[dbrStringSize * i + (dbrStringSize - 1)]? = some 0
  decoded : ((⟨.cStringConverter, []⟩ : CConverter).getVector ⟨ecaNormal, n, pStorage⟩).1 =
    (v.take n).map (cutTo (dbrStringSize - 1))
  unchanged : (∀ s ∈ v, s.length ≤ dbrStringSize - 1) →
    ((⟨.cStringConverter, []⟩ : CConverter).getVector ⟨ecaNormal, n, pStorage⟩).1 = v.take n

/-- A buffer that begins with the slots and has their size. -/
theorem stringsSurvive_of_slots {v : List String} (hv : ∀ s ∈ v, NulFree s) {n : Nat}
    (hn : n ≤ v.length) {tail : List UInt8}
    (hsize : ((v.take n).flatMap stringSlot ++ tail).length = dbrStringSize * n) :
    StringsSurvive v n ((v.take n).flatMap stringSlot ++ tail) := by
  have hcount : (v.take n).length = n := List.length_take_of_le hn
  have hdecoded := getVector_stringSlots (l := v.take n)
    (fun s hs => hv s (List.mem_of_mem_take hs)) ecaNormal tail
  rw [hcount] at hdecoded
  refine ⟨hsize, ?_, hdecoded, ?_⟩
  · intro i hi
    have hi' : i < (v.take n).length := by rwa [hcount]
    rw [← List.getElem?_drop, drop_stringSlots tail hi']
    exact stringSlot_last _ _
  · intro hshort
    rw [hdecoded]
    have hsame : ∀ s ∈ v.take n, cutTo (dbrStringSize - 1) s = s :=
      fun s hs => cutTo_of_length_le (hshort s (List.mem_of_mem_take hs))
    exact (List.map_congr_left hsame).trans (List.map_id' _)

/-- **String arrays survive** if there are strings to put and 40 bytes for each
of them are less than 2^32 bytes; the buffer has other than their slots if not.
Without memory for the buffer there is none, and no put. -/
theorem strings_survive {P : Platform} {c : CChannel} (hc : c.fConnected = true) (ca : CaClient)
    {v : List String} (hv : ∀ s ∈ v, NulFree s) (hlength : v.length < 2 ^ 31) (m : Nat)
    (hP : P.Documented (min v.length m : Nat)) :
    (P.Allocates (P.dbrSizeN dbrString (min v.length m : Nat)) → ∃ pStorage,
      c.assignStrings P m v ca = ca.arrayPut dbrString (min v.length m) c.nChannel pStorage ∧
      (StringsSurvive v (min v.length m) pStorage ↔
        0 < min v.length m ∧ dbrStringSize * min v.length m < 2 ^ 32)) ∧
    (¬ P.Allocates (P.dbrSizeN dbrString (min v.length m : Nat)) →
      c.assignStrings P m v ca = ca) := by
  refine ⟨fun hmalloc => ?_, assignVector_unallocated _ _ _ hlength m ca⟩
  obtain ⟨pStorage, hput, hsize, hslots⟩ := assignStrings_connected hc hlength m ca hP hmalloc
  refine ⟨pStorage, hput, ?_, ?_⟩
  · intro hsurvive
    have hexact := hsize.symm.trans hsurvive.slots
    have hless := Nat.mod_lt (dbrStringSize * max (min v.length m) 1) (Nat.two_pow_pos 32)
    refine ⟨Nat.pos_of_ne_zero ?_, hexact ▸ hless⟩
    intro hnone
    rw [hnone] at hexact
    exact absurd hexact (by decide)
  · rintro ⟨hpos, hfits⟩
    obtain ⟨tail, rfl⟩ := hslots hfits
    refine stringsSurvive_of_slots hv (Nat.min_le_left _ _) ?_
    rw [hsize, Nat.max_eq_left hpos, Nat.mod_eq_of_lt hfits]

/-- A library in which memory is full of ones. -/
def plainPlatform : Platform where
  malloc n := some (List.replicate n 255)
  length_malloc := by
    intro n mem h
    cases h
    exact List.length_replicate
  dbrSizeN type count :=
    unsignedOfInt ((if type = dbrString then dbrStringSize else if type = dbrLong then dbrLongSize
      else dbrDoubleSize) * max count 1)

theorem plainPlatform_documented (count : Int) : plainPlatform.Documented count := by
  constructor <;> simp [plainPlatform, dbrLong, dbrString, dbrDouble]

theorem plainPlatform_allocates (n : Nat) : plainPlatform.Allocates n := ⟨_, rfl⟩

/-- A connected channel. -/
def connectedChannel : CChannel := { sName := "a", fConnected := true }

theorem strings_survive_two :
    ∃ pStorage,
      connectedChannel.assignStrings plainPlatform 5 ["on", "off"] {} =
        CaClient.arrayPut dbrString 2 0 pStorage {} ∧ StringsSurvive ["on", "off"] 2 pStorage := by
  obtain ⟨pStorage, hput, hsurvive⟩ := (strings_survive (P := plainPlatform) (c := connectedChannel)
    rfl {} (v := ["on", "off"]) (by decide) (by decide) 5 (plainPlatform_documented _)).1
    (plainPlatform_allocates _)
  exact ⟨pStorage, hput, hsurvive.mpr (by decide)⟩

/-- For 107374183 strings there is a buffer of 24 bytes. -/
theorem too_many_strings :
    ∃ pStorage,
      connectedChannel.assignStrings plainPlatform 107374183 (List.replicate 107374183 "x") {} =
        CaClient.arrayPut dbrString 107374183 0 pStorage {} ∧
      pStorage.length = 24 ∧
      ¬ StringsSurvive (List.replicate 107374183 "x") 107374183 pStorage := by
  generalize hv : List.replicate 107374183 "x" = v
  have hcount : v.length = 107374183 := by rw [← hv, List.length_replicate]
  obtain ⟨pStorage, hput, hsize, -⟩ := assignStrings_connected (P := plainPlatform)
    (c := connectedChannel) (v := v) rfl (by omega) 107374183 {} (plainPlatform_documented _)
    (plainPlatform_allocates _)
  rw [hcount, Nat.min_self] at hput hsize
  have hsize : pStorage.length = 24 := hsize
  refine ⟨pStorage, hput, hsize, ?_⟩
  intro hsurvive
  have hslots := hsurvive.slots
  rw [hsize] at hslots
  exact absurd hslots (by decide)

/-! ## §3 The elements of a put -/

/-- A `dbr_long_t`. -/
def readInt32 (p : List UInt8) : Int := Int.bmod (readUnsigned dbrLongSize p) (2 ^ 32)

/-- What EPICS takes from a put. -/
inductive CaValue where
  | text (s : String)
  | integer (n : Int)
  | real (bits : Nat)
  deriving DecidableEq, Repr

/-- An element of a request type: the text up to the NUL, the 16-bit or the
32-bit number, or the bits of the double. -/
def caValueAt (type : Int) (p : List UInt8) : Option CaValue :=
  if type = dbrString then some (.text (cString p))
  else if type = dbrInt then some (.integer (readInt16 p))
  else if type = dbrLong then some (.integer (readInt32 p))
  else if type = dbrDouble then some (.real (readUnsigned dbrDoubleSize p))
  else none

/-- The size of an element. -/
def caValueSize (type : Int) : Nat :=
  if type = dbrString then dbrStringSize
  else if type = dbrInt then 2
  else if type = dbrLong then dbrLongSize
  else dbrDoubleSize

/-- The elements of a put. -/
def CaCall.elements : CaCall → List CaValue
  | .put type _ value => if type = dbrString then [.text value] else []
  | .arrayPut type count _ value =>
    (List.range count).filterMap fun i => caValueAt type (value.drop (caValueSize type * i))
  | _ => []

/-- The elements of an array whose slots are read as these values. -/
theorem elements_slots {α : Type} {type : Int} {slot : α → List UInt8} {value : α → CaValue}
    {l : List α} (hslot : ∀ a ∈ l, (slot a).length = caValueSize type)
    (hvalue : ∀ a ∈ l, ∀ rest, caValueAt type (slot a ++ rest) = some (value a)) (chan : Nat)
    (tail : List UInt8) :
    (CaCall.arrayPut type l.length chan (l.flatMap slot ++ tail)).elements = l.map value := by
  induction l with
  | nil => rfl
  | cons a l ih =>
    have hrest := ih (fun b hb => hslot b (by simp [hb])) (fun b hb => hvalue b (by simp [hb]))
    have hdrop : ∀ i, (slot a ++ (l.flatMap slot ++ tail)).drop (caValueSize type * (i + 1)) =
        (l.flatMap slot ++ tail).drop (caValueSize type * i) := by
      intro i
      have hoffset : caValueSize type * (i + 1) = (slot a).length + caValueSize type * i := by
        rw [hslot a List.mem_cons_self]
        ring
      rw [hoffset, List.drop_length_add_append]
    simp only [CaCall.elements] at hrest
    simp [CaCall.elements, List.range_succ_eq_map, hvalue a List.mem_cons_self, List.filterMap_map,
      hdrop, hrest]

/-- A 32-bit number read back. -/
theorem readInt32_littleEndian (i : BitVec 32) (rest : List UInt8) :
    readInt32 (littleEndian dbrLongSize i.toNat ++ rest) = i.toInt := by
  have hi : i.toNat < 2 ^ 32 := i.isLt
  have hread : readUnsigned dbrLongSize (littleEndian dbrLongSize i.toNat ++ rest) = i.toNat := by
    rw [readUnsigned_littleEndian, dbrLongSize]
    omega
  exact (congrArg (fun n : Nat => Int.bmod (n : Int) (2 ^ 32)) hread).trans
    (BitVec.toInt_eq_toNat_bmod i).symm

theorem caValueAt_string {s : String} (h : NulFree s) (rest : List UInt8) :
    caValueAt dbrString (stringSlot s ++ rest) = some (.text (cutTo (dbrStringSize - 1) s)) := by
  rw [← cString_stringSlot h rest]
  rfl

theorem caValueAt_long (i : BitVec 32) (rest : List UInt8) :
    caValueAt dbrLong (littleEndian dbrLongSize i.toNat ++ rest) = some (.integer i.toInt) := by
  rw [← readInt32_littleEndian i rest]
  rfl

theorem caValueAt_double (d : BitVec 64) (rest : List UInt8) :
    caValueAt dbrDouble (littleEndian dbrDoubleSize d.toNat ++ rest) = some (.real d.toNat) := by
  have hread : readUnsigned dbrDoubleSize (littleEndian dbrDoubleSize d.toNat ++ rest) = d.toNat :=
    (readUnsigned_littleEndian dbrDoubleSize d.toNat rest).trans (Nat.mod_eq_of_lt d.isLt)
  exact congrArg (fun bits => some (CaValue.real bits)) hread

/-- `ca'` is `ca` with one more put, of these elements. -/
def PutOnce (ca ca' : CaClient) (type : Int) (count chan : Nat) (elements : List CaValue) : Prop :=
  ∃ pStorage, ca' = ca.arrayPut type count chan pStorage ∧
    (CaCall.arrayPut type count chan pStorage).elements = elements

theorem assignNumbers_connected {α : Type} {P : Platform} {type : Int} {w : Nat} (value : α → Nat)
    {c : CChannel} (hc : c.fConnected = true) {rhs : List α} (hlength : rhs.length < 2 ^ 31)
    (m : Nat) (ca : CaClient)
    (hsize : P.dbrSizeN type (min rhs.length m : Nat) =
      unsignedOfInt (w * max ((min rhs.length m : Nat) : Int) 1))
    (hmalloc : P.Allocates (P.dbrSizeN type (min rhs.length m : Nat)))
    (hfits : w * min rhs.length m < 2 ^ 32) :
    ∃ tail, c.assignVector P type w id (fun a => littleEndian w (value a)) m rhs ca =
      ca.arrayPut type (min rhs.length m) c.nChannel
        ((rhs.take (min rhs.length m)).flatMap (fun a => littleEndian w (value a)) ++ tail) := by
  obtain ⟨mem, hmem⟩ := hmalloc
  have hput := assignVector_connected w id (fun a => littleEndian w (value a)) hlength hc m ca hmem
  have hcount : (rhs.take (min rhs.length m)).length = min rhs.length m := by simp
  have hroom : w * (rhs.take (min rhs.length m)).length ≤ mem.length := by
    rw [hcount, P.length_malloc hmem, hsize, unsignedOfInt_slots]
    exact slots_le hfits
  have hfill := fillSlots_full (fun (a : α) (_ : a ∈ rhs.take (min rhs.length m)) =>
    length_littleEndian w (value a)) [] mem 0 rfl hroom
  rw [List.nil_append, List.nil_append] at hfill
  exact ⟨_, by rw [hput, id, hfill]⟩

section Elements

variable {P : Platform} {c : CChannel}

/-- What a channel is given for a vector of strings. -/
theorem assignStrings_puts (hc : c.fConnected = true) {v : List String}
    (hv : ∀ s ∈ v, NulFree s) (hlength : v.length < 2 ^ 31) (m : Nat) (ca : CaClient)
    (hP : P.Documented (min v.length m : Nat))
    (hmalloc : P.Allocates (P.dbrSizeN dbrString (min v.length m : Nat)))
    (hfits : dbrStringSize * min v.length m < 2 ^ 32) :
    PutOnce ca (c.assignStrings P m v ca) dbrString (min v.length m) c.nChannel
      ((v.take (min v.length m)).map fun s => .text (cutTo (dbrStringSize - 1) s)) := by
  obtain ⟨_, hput, -, hbuffer⟩ := assignStrings_connected hc hlength m ca hP hmalloc
  obtain ⟨tail, rfl⟩ := hbuffer hfits
  have hslots := elements_slots (l := v.take (min v.length m)) (fun s _ => length_stringSlot s)
    (fun s hs => caValueAt_string (hv s (List.mem_of_mem_take hs))) c.nChannel tail
  rw [List.length_take_of_le (Nat.min_le_left _ _)] at hslots
  exact ⟨_, hput, hslots⟩

/-- What a channel is given for a vector of numbers. -/
theorem assignNumbers_puts {α : Type} {type : Int} {w : Nat} {number : α → Nat}
    {value : α → CaValue} (hw : caValueSize type = w)
    (hvalue : ∀ a rest, caValueAt type (littleEndian w (number a) ++ rest) = some (value a))
    (hc : c.fConnected = true) {v : List α} (hlength : v.length < 2 ^ 31) (m : Nat) (ca : CaClient)
    (hsize : P.dbrSizeN type (min v.length m : Nat) =
      unsignedOfInt (w * max ((min v.length m : Nat) : Int) 1))
    (hmalloc : P.Allocates (P.dbrSizeN type (min v.length m : Nat)))
    (hfits : w * min v.length m < 2 ^ 32) :
    PutOnce ca (c.assignVector P type w id (fun a => littleEndian w (number a)) m v ca) type
      (min v.length m) c.nChannel ((v.take (min v.length m)).map value) := by
  obtain ⟨tail, hput⟩ := assignNumbers_connected number hc hlength m ca hsize hmalloc hfits
  have hslots := elements_slots (l := v.take (min v.length m))
    (fun a _ => (length_littleEndian w (number a)).trans hw.symm) (fun a _ => hvalue a) c.nChannel
    tail
  rw [List.length_take_of_le (Nat.min_le_left _ _)] at hslots
  exact ⟨_, hput, hslots⟩

theorem assignInts_puts (hc : c.fConnected = true) {v : List (BitVec 32)}
    (hlength : v.length < 2 ^ 31) (m : Nat) (ca : CaClient)
    (hP : P.Documented (min v.length m : Nat))
    (hmalloc : P.Allocates (P.dbrSizeN dbrLong (min v.length m : Nat)))
    (hfits : dbrLongSize * min v.length m < 2 ^ 32) :
    PutOnce ca (c.assignInts P m v ca) dbrLong (min v.length m) c.nChannel
      ((v.take (min v.length m)).map fun i => .integer i.toInt) :=
  assignNumbers_puts rfl caValueAt_long hc hlength m ca hP.dbrSizeN_long hmalloc hfits

theorem assignDoubles_puts (hc : c.fConnected = true) {v : List (BitVec 64)}
    (hlength : v.length < 2 ^ 31) (m : Nat) (ca : CaClient)
    (hP : P.Documented (min v.length m : Nat))
    (hmalloc : P.Allocates (P.dbrSizeN dbrDouble (min v.length m : Nat)))
    (hfits : dbrDoubleSize * min v.length m < 2 ^ 32) :
    PutOnce ca (c.assignDoubles P m v ca) dbrDouble (min v.length m) c.nChannel
      ((v.take (min v.length m)).map fun d => .real d.toNat) :=
  assignNumbers_puts rfl caValueAt_double hc hlength m ca hP.dbrSizeN_double hmalloc hfits

end Elements

/-! ## §4 One value -/

/-- What EPICS has received for element 1 with the latest call. -/
def received (ca : CaClient) : Option CaValue := ca.calls.getLast?.bind (·.elements.head?)

/-- A value that can be assigned to a channel. -/
inductive Datum where
  | string (s : String)
  | int (i : BitVec 32)
  | double (d : BitVec 64)

namespace Datum

/-- A string that fits into a slot. -/
def Fits : Datum → Prop
  | .string s => NulFree s ∧ s.length ≤ dbrStringSize - 1
  | _ => True

/-- The value as a 16-bit number. -/
def InShortRange : Datum → Prop
  | .int i => -2 ^ 15 ≤ i.toInt ∧ i.toInt < 2 ^ 15
  | _ => True

/-- `operator=(w)`. -/
def assignScalar (w : Datum) (c : CChannel) (ca : CaClient) : CaClient :=
  match w with
  | .string s => c.assignString s ca
  | .int i => c.assignInt i ca
  | .double d => c.assignDouble d ca

/-- `operator=` of the vector `{w}`. -/
def assignVector (P : Platform) (m : Nat) (w : Datum) (c : CChannel) (ca : CaClient) : CaClient :=
  match w with
  | .string s => c.assignStrings P m [s] ca
  | .int i => c.assignInts P m [i] ca
  | .double d => c.assignDoubles P m [d] ca

end Datum

/-- The low half of a number has its signed value only in the range of 16
bits. -/
theorem bmod_low_half {n : Nat} (hn : n < 2 ^ 32) :
    Int.bmod ((n % 2 ^ 16 : Nat) : Int) (2 ^ 16) =
        (if 2 * n < 2 ^ 32 then (n : Int) else n - 2 ^ 32) ↔
      -2 ^ 15 ≤ (if 2 * n < 2 ^ 32 then (n : Int) else n - 2 ^ 32) ∧
        (if 2 * n < 2 ^ 32 then (n : Int) else n - 2 ^ 32) < 2 ^ 15 := by
  rw [Int.bmod_def]
  split_ifs <;> omega

theorem readInt16_eq_iff (i : BitVec 32) :
    readInt16 (littleEndian 4 i.toNat) = i.toInt ↔ -2 ^ 15 ≤ i.toInt ∧ i.toInt < 2 ^ 15 := by
  have hread : readUnsigned 2 (littleEndian 4 i.toNat) = i.toNat % 2 ^ 16 := by
    simp [littleEndian, readUnsigned]
    omega
  have hshort : readInt16 (littleEndian 4 i.toNat) =
      Int.bmod ((i.toNat % 2 ^ 16 : Nat) : Int) (2 ^ 16) :=
    congrArg (fun n : Nat => Int.bmod (n : Int) (2 ^ 16)) hread
  rw [hshort, BitVec.toInt_eq_toNat_cond]
  exact bmod_low_half i.isLt

theorem received_of_puts {ca ca' : CaClient} {type : Int} {count chan : Nat}
    {elements : List CaValue} (h : PutOnce ca ca' type count chan elements) :
    received ca' = elements.head? := by
  obtain ⟨pStorage, rfl, helements⟩ := h
  simp [received, CaClient.arrayPut, helements]

/-- The request type of the vector overload. -/
def Datum.vectorType : Datum → Int
  | .string _ => dbrString
  | .int _ => dbrLong
  | .double _ => dbrDouble

/-- What a vector of the one value gives the channel. -/
def Datum.value : Datum → CaValue
  | .string s => .text s
  | .int i => .integer i.toInt
  | .double d => .real d.toNat

section OneValue

variable {P : Platform} {c : CChannel} {m : Nat} {w : Datum}

theorem received_vector (hP : P.Documented 1) (hmalloc : P.Allocates (P.dbrSizeN w.vectorType 1))
    (hc : c.fConnected = true) (hm : 0 < m) (hw : w.Fits)
    (ca : CaClient) : received (w.assignVector P m c ca) = some w.value := by
  have hone : min 1 m = 1 := Nat.min_eq_left hm
  cases w with
  | string s =>
    obtain ⟨hfree, hshort⟩ := hw
    have hputs := assignStrings_puts hc (v := [s]) (by simpa using hfree) (by simp) m ca
      (by simpa [hone] using hP) (by simpa [hone, Datum.vectorType] using hmalloc)
      (by simp [hone, dbrStringSize])
    rw [Datum.assignVector, received_of_puts hputs]
    simp [hone, Datum.value, cutTo_of_length_le hshort]
  | int i =>
    have hputs := assignInts_puts hc (v := [i]) (by simp) m ca (by simpa [hone] using hP)
      (by simpa [hone, Datum.vectorType] using hmalloc) (by simp [hone, dbrLongSize])
    rw [Datum.assignVector, received_of_puts hputs]
    simp [hone, Datum.value]
  | double d =>
    have hputs := assignDoubles_puts hc (v := [d]) (by simp) m ca (by simpa [hone] using hP)
      (by simpa [hone, Datum.vectorType] using hmalloc) (by simp [hone, dbrDoubleSize])
    rw [Datum.assignVector, received_of_puts hputs]
    simp [hone, Datum.value]

/-- What the scalar assignment gives it. -/
theorem received_scalar (hc : c.fConnected = true) (ca : CaClient) :
    received (w.assignScalar c ca) = some
      (match w with
        | .int i => .integer (readInt16 (littleEndian 4 i.toNat))
        | w => w.value) := by
  cases w with
  | string s =>
    simp [Datum.assignScalar, CChannel.assignString, hc, received, CaClient.put, CaCall.elements,
      Datum.value]
  | int i =>
    simp [Datum.assignScalar, CChannel.assignInt, hc, received, CaClient.arrayPut, CaCall.elements,
      caValueAt, dbrInt, dbrString]
  | double d =>
    have hvalue := caValueAt_double d []
    rw [List.append_nil, dbrDoubleSize] at hvalue
    simp [Datum.assignScalar, CChannel.assignDouble, hc, received, CaClient.arrayPut,
      CaCall.elements, hvalue, Datum.value]

/-- The two ways of writing a value agree except for integers that 16 bits
do not hold. -/
theorem scalar_agrees_with_vector (hP : P.Documented 1)
    (hmalloc : P.Allocates (P.dbrSizeN w.vectorType 1)) (hc : c.fConnected = true) (ca : CaClient)
    (hm : 0 < m) (hw : w.Fits) :
    received (w.assignScalar c ca) = received (w.assignVector P m c ca) ↔ w.InShortRange := by
  rw [received_scalar hc ca, received_vector hP hmalloc hc hm hw ca, Option.some.injEq]
  cases w with
  | string s => simp [Datum.InShortRange]
  | int i => simpa [Datum.value, Datum.InShortRange] using readInt16_eq_iff i
  | double d => simp [Datum.InShortRange]

end OneValue

theorem scalar_agrees_with_vector_seven :
    received ((Datum.int 7).assignScalar connectedChannel {}) =
      received ((Datum.int 7).assignVector plainPlatform 1 connectedChannel {}) :=
  (scalar_agrees_with_vector (w := .int 7) (plainPlatform_documented 1)
    (plainPlatform_allocates _) rfl {} Nat.one_pos trivial).mpr ⟨by decide, by decide⟩

/-- 32768 arrives as -32768 when it is written as a scalar. -/
theorem scalar_int_wraps :
    received ((Datum.int 32768).assignScalar connectedChannel {}) ≠
      received ((Datum.int 32768).assignVector plainPlatform 1 connectedChannel {}) := by
  decide

end EpicsTcl.Channel
