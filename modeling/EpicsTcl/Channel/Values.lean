/-
EpicsTcl.Channel.Values — what `CChannel` offers for its value: reading it
(`getVector`, `size`, `getAllowedValues`) and the overloads of `operator=`
that write it.

A member function that throws is a function to `Except String`; the code
throws texts. `elementCount` is what `ca_element_count` reports for the
channel at that moment.

`Platform` is the C library and the macro of `db_access.h` that the vector
assignments use to get a buffer. `Platform.Documented` says what `dbr_size_n`
is for a count: the bytes of the elements as a 32-bit number without sign, and
the size of one element where there is none. Whether `malloc` has the memory
is another matter (`Platform.Allocates`). `ca_flush_io` only sends what was put
and is not recorded.
-/
import EpicsTcl.Channel.Channel
import EpicsTcl.Library.Bytes

namespace EpicsTcl.Channel

open EpicsTcl.Library

/-- `DBR_INT` is the same request type as `DBR_SHORT`. -/
def dbrInt : Int := 1

/-! ## C++ numbers and strings -/

/-- A `size_t` or `unsigned long` as an `int`. -/
def intOfSize (n : Nat) : Int := Int.bmod n (2 ^ 32)

/-- An `int` as a `size_t` or `unsigned long`. -/
def sizeOfInt (n : Int) : Nat := (n % 2 ^ 64).toNat

/-- A number as an `unsigned`. -/
def unsignedOfInt (n : Int) : Nat := (n % 2 ^ 32).toNat

/-- The bytes of a C++ string. -/
def stringBytes (s : String) : List UInt8 := s.toList.map fun c => UInt8.ofNat c.toNat

/-- A C++ string without NUL characters. -/
def NulFree (s : String) : Prop := ∀ c ∈ s.toList, 0 < c.toNat ∧ c.toNat < 256

instance (s : String) : Decidable (NulFree s) :=
  List.decidableBAll (fun c : Char => 0 < c.toNat ∧ c.toNat < 256) s.toList

/-- What `strncpy` writes: the text up to its NUL, at most `n` bytes of it,
filled up with NULs. -/
def strncpy (n : Nat) (source : List UInt8) : List UInt8 :=
  let text := (source.takeWhile (· ≠ 0)).take n
  text ++ List.replicate (n - text.length) 0

/-! ## Storage -/

/-- The C library and `db_access.h`. -/
structure Platform where
  /-- The memory `malloc` hands out, with whatever it holds; `none` is NULL. -/
  malloc : Nat → Option (List UInt8)
  length_malloc : ∀ {n : Nat} {mem : List UInt8}, malloc n = some mem → mem.length = n
  /-- `dbr_size_n`: the bytes for an array of so many elements of a type. -/
  dbrSizeN : Int → Int → Nat

/-- `malloc` has so many bytes. -/
def Platform.Allocates (P : Platform) (n : Nat) : Prop := ∃ mem, P.malloc n = some mem

/-- What `dbr_size_n` gives for a count. -/
structure Platform.Documented (P : Platform) (count : Int) : Prop where
  dbrSizeN_string : P.dbrSizeN dbrString count = unsignedOfInt (dbrStringSize * max count 1)
  dbrSizeN_long : P.dbrSizeN dbrLong count = unsignedOfInt (dbrLongSize * max count 1)
  dbrSizeN_double : P.dbrSizeN dbrDouble count = unsignedOfInt (dbrDoubleSize * max count 1)

/-! ## Reading -/

namespace CConverter

/-- `allowedValues()`. -/
def allowedTexts (c : CConverter) : List String :=
  match c.cls with
  | .cStringConverter => ["string"]
  | .cIntegerConverter => ["int"]
  | .cFloatConverter => ["float"]
  | .cEnumConverter => c.allowedValues

end CConverter

namespace CChannel

/-- `getAllowedValues`. -/
def getAllowedValues (c : CChannel) : List String :=
  match c.pConverter with
  | none => []
  | some converter => converter.allowedTexts

/-- `size`. -/
def size (elementCount : Nat) (c : CChannel) : Except String Nat :=
  if c.fConnected then .ok elementCount else .error "Channel not connected"

/-- `getVector`. Both branches of the code's test choose the size of the
whole vector. -/
def getVector (max : Nat) (c : CChannel) : Except String (List String) :=
  if c.fConnected then
    let elements :=
      if max = 0 ∨ c.vectorValue.length < max then c.vectorValue.length
      else c.vectorValue.length
    -- `pop_back` for each element too many
    .ok (List.dropLast^[c.vectorValue.length - elements] c.vectorValue)
  else .error "Channel not connected"

/-! ## Writing one value -/

/-- `operator=(int)`. `ca_put` is a `ca_array_put` of one element. -/
def assignInt (value : BitVec 32) (c : CChannel) (ca : CaClient) : CaClient :=
  if c.fConnected then ca.arrayPut dbrInt 1 c.nChannel (littleEndian 4 value.toNat) else ca

/-- `operator=(double)`. -/
def assignDouble (value : BitVec 64) (c : CChannel) (ca : CaClient) : CaClient :=
  if c.fConnected then ca.arrayPut dbrDouble 1 c.nChannel (littleEndian 8 value.toNat) else ca

/-! ## Writing a vector -/

/-- The number of items: the length of the vector, at most the element
count. The code compares an `int` with an `unsigned long`. -/
def itemCount (length elementCount : Nat) : Int :=
  let count := intOfSize length
  if elementCount < sizeOfInt count then intOfSize elementCount else count

/-- The vector overloads of `operator=`: `clear` is what they do with the
storage first, `element` what they write for an element. -/
def assignVector {α : Type} (P : Platform) (type : Int) (elementSize : Nat)
    (clear : List UInt8 → List UInt8) (element : α → List UInt8) (elementCount : Nat)
    (rhs : List α) (c : CChannel) (ca : CaClient) : CaClient :=
  if c.fConnected then
    let count := itemCount rhs.length elementCount
    match P.malloc (P.dbrSizeN type count) with
    | some mem =>
      let pStorage := fillSlots elementSize element (rhs.take count.toNat) 0 (clear mem)
      ca.arrayPut type (sizeOfInt count) c.nChannel pStorage
    | none => ca
  else ca

/-- `operator=(vector<string>)`. -/
def assignStrings (P : Platform) (elementCount : Nat) (rhs : List String) (c : CChannel)
    (ca : CaClient) : CaClient :=
  c.assignVector P dbrString dbrStringSize (fun mem => List.replicate mem.length 0)
    (fun s => strncpy (dbrStringSize - 1) (stringBytes s)) elementCount rhs ca

/-- `operator=(vector<int>)`. -/
def assignInts (P : Platform) (elementCount : Nat) (rhs : List (BitVec 32)) (c : CChannel)
    (ca : CaClient) : CaClient :=
  c.assignVector P dbrLong dbrLongSize id (fun i => littleEndian dbrLongSize i.toNat)
    elementCount rhs ca

/-- `operator=(vector<double>)`. -/
def assignDoubles (P : Platform) (elementCount : Nat) (rhs : List (BitVec 64)) (c : CChannel)
    (ca : CaClient) : CaClient :=
  c.assignVector P dbrDouble dbrDoubleSize id (fun d => littleEndian dbrDoubleSize d.toNat)
    elementCount rhs ca

end CChannel

end EpicsTcl.Channel
