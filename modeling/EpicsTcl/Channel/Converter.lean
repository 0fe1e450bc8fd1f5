/-
EpicsTcl.Channel.Converter — the `CConverter` classes of `CChannel.cpp` and
`CConversionFactory`, which turn the payload of a Channel Access event into
text.

An event hands its handler a pointer `args.dbr`. It is modelled by the
list of bytes stored from that address on: the payload first, then
whatever follows it in memory, because some converters read past the
element they are given. Multi-byte values are little endian, the platform
the tree was configured for (x86_64 Linux, `sizeof(long) = 8`).

A C++ `std::string` is a string of bytes; each byte is one character of
the Lean `String`.

The numeric constants are those of Channel Access's `db_access.h` and
`caerr.h`, which are not part of this repository.
-/
import Mathlib.Data.Nat.Log
import Mathlib.Algebra.BigOperators.Group.List.Basic
import Mathlib.Data.Int.Basic

namespace EpicsTcl.Channel

/-! ## Channel Access constants -/

def dbfString : Int := 0
def dbfShort : Int := 1
def dbfFloat : Int := 2
def dbfEnum : Int := 3
def dbfChar : Int := 4
def dbfLong : Int := 5
def dbfDouble : Int := 6

def dbrString : Int := 0
def dbrLong : Int := 5
def dbrDouble : Int := 6
def dbrCtrlEnum : Int := 31

def ecaNormal : Int := 1

/-- `sizeof(dbr_string_t)`. -/
def dbrStringSize : Nat := 40
/-- `sizeof(dbr_long_t)`: 32 bits whatever the size of `long`. -/
def dbrLongSize : Nat := 4
/-- `sizeof(dbr_double_t)`. -/
def dbrDoubleSize : Nat := 8

/-! `struct dbr_gr_enum`: `status`, `severity` and `no_str` (16 bits each),
16 labels of 26 bytes, then the value (16 bits). -/

def enumNoStrOffset : Nat := 4
def enumStrsOffset : Nat := 6
def enumStringSize : Nat := 26
def enumValueOffset : Nat := 422
/-- `sizeof(struct dbr_gr_enum)`. -/
def dbrGrEnumSize : Nat := 424

/-! ## Reading memory -/

/-- The part of `event_handler_args` the handlers use. -/
structure EventHandlerArgs where
  status : Int
  count : Nat
  /-- The bytes from `args.dbr` on. -/
  dbr : List UInt8

/-- One byte of a C++ string as a character. -/
def byteChar (b : UInt8) : Char := Char.ofNat b.toNat

/-- `string((char*)p)`: the bytes up to the first NUL. -/
def cString (p : List UInt8) : String :=
  String.ofList ((p.takeWhile (· ≠ 0)).map byteChar)

/-- The unsigned little-endian value of the first `n` bytes. -/
def readUnsigned : Nat → List UInt8 → Nat
  | 0, _ => 0
  | n + 1, p => (p.headD 0).toNat + 256 * readUnsigned n p.tail

/-- `*((long*)p)`. -/
def readLong (p : List UInt8) : Int := Int.bmod (readUnsigned 8 p) (2 ^ 64)

/-- A `dbr_short_t`. -/
def readInt16 (p : List UInt8) : Int := Int.bmod (readUnsigned 2 p) (2 ^ 16)

/-- A `dbr_enum_t`. -/
def readUInt16 (p : List UInt8) : Nat := readUnsigned 2 p

/-! ## `sprintf` of a double -/

/-- `n / d` to the nearest natural number, ties to the even one. -/
def roundHalfEven (n d : Nat) : Nat :=
  let q := n / d
  let r := n % d
  if 2 * r < d then q
  else if d < 2 * r then q + 1
  else if q % 2 = 0 then q else q + 1

/-- The decimal exponent of the positive fraction `n / d`: the `x` with
`10 ^ x ≤ n / d < 10 ^ (x + 1)`. -/
def decimalExponent (n d : Nat) : Int :=
  if d ≤ n then (Nat.log 10 (n / d) : Int)
  else -(Nat.clog 10 ((d + n - 1) / n) : Int)

/-- Drop the zeros at the end. -/
def dropTrailingZeros (cs : List Char) : List Char :=
  (cs.reverse.dropWhile (· = '0')).reverse

/-- `.` and the digits after it, nothing when only zeros follow. -/
def fraction (cs : List Char) : List Char :=
  match dropTrailingZeros cs with
  | [] => []
  | ds => '.' :: ds

/-- `sprintf("%.<p>g")` of the positive fraction `n / d`. -/
def formatG (p : Nat) (n d : Nat) : List Char :=
  let x₀ := decimalExponent n d
  let shift : Int := p - 1 - x₀
  let digits₀ := if 0 ≤ shift then roundHalfEven (n * 10 ^ shift.toNat) d
    else roundHalfEven n (d * 10 ^ (-shift).toNat)
  -- rounding up to the next power of ten moves the exponent
  let (digits, x) := if digits₀ = 10 ^ p then (10 ^ (p - 1), x₀ + 1) else (digits₀, x₀)
  let ds := (toString digits).toList
  if x < -4 ∨ (p : Int) ≤ x then
    let e := (toString x.natAbs).toList
    let e := if e.length < 2 then '0' :: e else e
    ds.take 1 ++ fraction (ds.drop 1) ++ ['e', if x < 0 then '-' else '+'] ++ e
  else if x < 0 then
    '0' :: fraction (List.replicate (x.natAbs - 1) '0' ++ ds)
  else
    ds.take (x.toNat + 1) ++ fraction (ds.drop (x.toNat + 1))

/-- `sprintf("%.7g")` of the IEEE double with the given 64 bits. -/
def sprintfG7 (bits : Nat) : String :=
  let sign := if bits / 2 ^ 63 = 1 then ['-'] else []
  let expo := bits / 2 ^ 52 % 2 ^ 11
  let frac := bits % 2 ^ 52
  let body : List Char :=
    if expo = 2047 then
      if frac = 0 then ['i', 'n', 'f'] else ['n', 'a', 'n']
    else
      let mant := if expo = 0 then frac else 2 ^ 52 + frac
      let e := max expo 1
      if mant = 0 then ['0']
      else if 1075 ≤ e then formatG 7 (mant * 2 ^ (e - 1075)) 1
      else formatG 7 mant (2 ^ (1075 - e))
  String.ofList (sign ++ body)

/-! ## The converters -/

/-- The four classes derived from `CConverter`. -/
inductive ConverterClass where
  | cStringConverter
  | cIntegerConverter
  | cFloatConverter
  | cEnumConverter
  deriving DecidableEq, Repr

/-- A converter object: its class, and the labels a `CEnumConverter` has
remembered in `m_allowedValues`. -/
structure CConverter where
  cls : ConverterClass
  allowedValues : List String := []
  deriving DecidableEq, Repr

namespace CConverter

/-- `requestType()`. -/
def requestType (c : CConverter) : Int :=
  match c.cls with
  | .cStringConverter => dbrString
  | .cIntegerConverter => dbrLong
  | .cFloatConverter => dbrDouble
  | .cEnumConverter => dbrCtrlEnum

/-- The type `getVector` lets its element pointer step over. -/
def elementSize (c : CConverter) : Nat :=
  match c.cls with
  | .cStringConverter => dbrStringSize
  | .cIntegerConverter => dbrLongSize
  | .cFloatConverter => dbrDoubleSize
  | .cEnumConverter => dbrGrEnumSize

/-- The labels of a `dbr_gr_enum`: `strs[0]` to `strs[no_str - 1]`. -/
def enumLabels (element : List UInt8) : List String :=
  (List.range (readInt16 (element.drop enumNoStrOffset)).toNat).map fun i =>
    cString (element.drop (enumStrsOffset + enumStringSize * i))

/-- `CEnumConverter::convert`. The labels are taken from the first element
ever converted and kept. -/
def convertEnum (c : CConverter) (element : List UInt8) : String × CConverter :=
  let labels := if c.allowedValues.length = 0 then enumLabels element else c.allowedValues
  let c := { c with allowedValues := labels }
  let value := readUInt16 (element.drop enumValueOffset)
  match labels[value]? with
  | some label => if label ≠ "" then (label, c) else (toString value, c)
  | none => (toString value, c)

/-- `convert(element)`. -/
def convert (c : CConverter) (element : List UInt8) : String × CConverter :=
  match c.cls with
  | .cStringConverter => (cString element, c)
  | .cIntegerConverter => (toString (readLong element), c)
  | .cFloatConverter => (sprintfG7 (readUnsigned 8 element), c)
  | .cEnumConverter => c.convertEnum element

/-- `operator()`: the first element. -/
def scalar (c : CConverter) (args : EventHandlerArgs) : String × CConverter :=
  c.convert args.dbr

/-- The loop of `getVector`, `n` elements from `p` on. -/
def getVectorLoop (c : CConverter) : Nat → List UInt8 → List String × CConverter
  | 0, _ => ([], c)
  | n + 1, p =>
    let (text, c') := c.convert p
    let (texts, c'') := getVectorLoop c' n (p.drop c.elementSize)
    (text :: texts, c'')

/-- `getVector`. -/
def getVector (c : CConverter) (args : EventHandlerArgs) : List String × CConverter :=
  c.getVectorLoop args.count args.dbr

end CConverter

/-- `CConversionFactory::Converter`. -/
def CConversionFactory.converter (type : Int) : CConverter :=
  if type = dbfString then ⟨.cStringConverter, []⟩
  else if type = dbfChar ∨ type = dbfShort ∨ type = dbfLong then ⟨.cIntegerConverter, []⟩
  else if type = dbfEnum then ⟨.cEnumConverter, []⟩
  else if type = dbfFloat ∨ type = dbfDouble then ⟨.cFloatConverter, []⟩
  else ⟨.cStringConverter, []⟩

/-! ## What a conversion leaves unchanged -/

@[simp] theorem CConverter.convertEnum_cls (c : CConverter) (p : List UInt8) :
    (c.convertEnum p).2.cls = c.cls := by
  simp only [CConverter.convertEnum]
  split
  · split <;> rfl
  · rfl

@[simp] theorem CConverter.convert_cls (c : CConverter) (p : List UInt8) :
    (c.convert p).2.cls = c.cls := by
  unfold CConverter.convert
  split <;> simp

/-- Converting never turns a converter into one of another class. -/
@[simp] theorem CConverter.getVector_cls (c : CConverter) (args : EventHandlerArgs) :
    (c.getVector args).2.cls = c.cls := by
  have loop : ∀ (n : Nat) (c : CConverter) (p : List UInt8),
      (c.getVectorLoop n p).2.cls = c.cls := by
    intro n
    induction n with
    | zero => intro c p; rfl
    | succ n ih => intro c p; simp [CConverter.getVectorLoop, ih]
  exact loop _ _ _

@[simp] theorem CConverter.scalar_cls (c : CConverter) (args : EventHandlerArgs) :
    (c.scalar args).2.cls = c.cls :=
  c.convert_cls _

end EpicsTcl.Channel
