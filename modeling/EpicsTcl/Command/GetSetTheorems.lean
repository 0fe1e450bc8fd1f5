/-
EpicsTcl.Command.GetSetTheorems — the subcommands `set` and `get`.

§1 `set` on a connected channel (`set_all_or_nothing`): the three data types
   differ in what an element is converted to and in the request type
   (`DataType`). Either every element converts and there is one put, of the
   first `min(length, m)` of them, or there is none.

§2 `get` (`get_honours_count`): the count is tested, but both branches of the
   test take the whole vector.
-/
import EpicsTcl.Channel.AssignmentTheorems
import EpicsTcl.Command.Subcommands

namespace EpicsTcl.Command

open EpicsTcl.Channel EpicsTcl.Library

section

variable {ν : Type*} {P : Platform} {tcl : CTCLObjectProcessor} {access : ChannelAccess}
  (T : TclObjects) {this : CommandId} {w : World ν} {c : CTCLChannelCommand}

/-- The command ends with an error and a message, and does nothing else. -/
def Refused (w : World ν) (r : Completion × World ν) : Prop :=
  ∃ text, text ≠ "" ∧ r = (.returned .error, w.setResult (.text text))

theorem append_ne_empty (s : String) {t : String} (ht : t ≠ "") : s ++ t ≠ "" := by
  simp [ht]

theorem usage_ne_empty (c : CTCLChannelCommand) : c.usage ≠ "" := by
  unfold CTCLChannelCommand.usage
  exact append_ne_empty _ (by decide)

/-- A message that ends with some text. -/
theorem refused_append {w : World ν} (s : String) {t : String} (ht : t ≠ "") :
    Refused w (.returned .error, w.setResult (.text (s ++ t))) :=
  ⟨s ++ t, append_ne_empty s ht, rfl⟩

/-! ## §1 set -/

/-- The data types `set` knows. -/
inductive DataType where
  | string
  | int
  | real
  deriving DecidableEq, Repr

namespace DataType

/-- The word a script gives. -/
def word : DataType → String
  | .string => "string"
  | .int => "int"
  | .real => "real"

theorem word_inj {type type' : DataType} (h : type.word = type'.word) : type = type' := by
  cases type <;> cases type' <;> simp_all [word]

/-- The type of the put. -/
def dbrType : DataType → Int
  | .string => dbrString
  | .int => dbrLong
  | .real => dbrDouble

/-- What EPICS is given for an element of the list. -/
def convert : DataType → String → Option CaValue
  | .string, s => some (.text (cutTo (dbrStringSize - 1) s))
  | .int, s => (T.getInt s).map fun i => .integer i.toInt
  | .real, s => (T.getDouble s).map fun d => .real d.toNat

end DataType

/-- The list has these elements, and they convert to these values. -/
def ConvertsTo (type : DataType) (value : String) (values : List CaValue) : Prop :=
  ∃ items, T.listElements value = some items ∧
    List.Forall₂ (fun item v => type.convert T item = some v) items values

/-- The value is not a list, or one of its elements does not convert. -/
def Inconvertible (type : DataType) (value : String) : Prop :=
  T.listElements value = none ∨
    ∃ items, T.listElements value = some items ∧ ∃ item ∈ items, type.convert T item = none

/-- A conversion of every element that succeeds. -/
theorem mapM_of_forall₂ {α β γ : Type} {f : α → Option β} {g : β → γ} {items : List α}
    {values : List γ} (h : List.Forall₂ (fun a v => (f a).map g = some v) items values) :
    ∃ converted, items.mapM f = some converted ∧ converted.map g = values := by
  induction h with
  | nil => exact ⟨[], rfl, rfl⟩
  | @cons a v items values ha _ ih =>
    obtain ⟨b, hb, rfl⟩ := Option.map_eq_some_iff.mp ha
    obtain ⟨converted, hconverted, rfl⟩ := ih
    exact ⟨b :: converted, by simp [List.mapM_cons, hb, hconverted], rfl⟩

/-- One element that fails is enough, wherever it stands. -/
theorem mapM_eq_none {α β : Type} {f : α → Option β} {items : List α} {item : α}
    (hmem : item ∈ items) (hnone : f item = none) : items.mapM f = none := by
  induction items with
  | nil => cases hmem
  | cons a items ih =>
    rw [List.mapM_cons]
    cases ha : f a with
    | none => rfl
    | some b =>
      have hne : item ≠ a := by
        rintro rfl
        simp [hnone] at ha
      have htail : items.mapM f = none := ih ((List.mem_cons.mp hmem).resolve_left hne)
      simp [htail]

/-- Words of a `set` command: without a data type it is `string`. -/
def SetWords (objv : List String) (value datatype : String) : Prop :=
  ∃ command, objv = [command, "set", value, datatype] ∨
    objv = [command, "set", value] ∧ datatype = "string"

/-- What `set` does with values that convert: the assignment that goes with
their type. -/
theorem setValue_assigns (P : Platform) (hconnected : c.pChannel.fConnected = true)
    {type : DataType} {value : String} {values : List CaValue}
    (hconverts : ConvertsTo T type value values) (m : Nat) (command subcommand : String) :
    ∃ ca, w.setValue P T m c command subcommand value type.word = (.returned .ok, { w with ca }) ∧
      (¬ P.Allocates (P.dbrSizeN type.dbrType (min values.length m : Nat)) → ca = w.ca) ∧
      (P.Documented (min values.length m : Nat) →
        P.Allocates (P.dbrSizeN type.dbrType (min values.length m : Nat)) →
        caValueSize type.dbrType * min values.length m < 2 ^ 32 →
        PutOnce w.ca ca type.dbrType (min values.length m) c.pChannel.nChannel
          (values.take (min values.length m))) := by
  obtain ⟨items, hitems, hall⟩ := hconverts
  have hlength : items.length < 2 ^ 31 := T.length_lt hitems
  cases type with
  | string =>
    have hvalues : items.map (fun s => CaValue.text (cutTo (dbrStringSize - 1) s)) = values := by
      rw [← List.forall₂_eq_eq_eq, List.forall₂_map_left_iff]
      exact hall.imp fun _ _ => Option.some.inj
    subst hvalues
    rw [List.length_map, ← List.map_take]
    refine ⟨c.pChannel.assignStrings P m items w.ca, ?_, ?_, ?_⟩
    · simp [World.setValue, DataType.word, hitems]
    · exact assignVector_unallocated _ _ _ hlength m w.ca
    · exact assignStrings_puts hconnected (T.nulFree hitems) hlength m w.ca
  | int =>
    obtain ⟨ints, hints, rfl⟩ := mapM_of_forall₂ hall
    have hsame : ints.length = items.length := by simpa using hall.length_eq.symm
    rw [List.length_map, ← List.map_take]
    refine ⟨c.pChannel.assignInts P m ints w.ca, ?_, ?_, ?_⟩
    · simp [World.setValue, DataType.word, hitems, hints]
    · exact assignVector_unallocated _ _ _ (hsame ▸ hlength) m w.ca
    · exact assignInts_puts hconnected (hsame ▸ hlength) m w.ca
  | real =>
    obtain ⟨doubles, hdoubles, rfl⟩ := mapM_of_forall₂ hall
    have hsame : doubles.length = items.length := by simpa using hall.length_eq.symm
    rw [List.length_map, ← List.map_take]
    refine ⟨c.pChannel.assignDoubles P m doubles w.ca, ?_, ?_, ?_⟩
    · simp [World.setValue, DataType.word, hitems, hdoubles]
    · exact assignVector_unallocated _ _ _ (hsame ▸ hlength) m w.ca
    · exact assignDoubles_puts hconnected (hsame ▸ hlength) m w.ca

theorem setValue_of_inconvertible {type : DataType} {value : String}
    (hfails : Inconvertible T type value) (m : Nat) (command subcommand : String) :
    Refused w (w.setValue P T m c command subcommand value type.word) := by
  have hmessage := refused_append (w := w) (command ++ " " ++ subcommand ++ " " ++ value ++ " " ++
    type.word ++ "\n -- data does not all convert to selecte data type \n")
    (t := "or is not a proper list.\n") (by decide)
  rcases hfails with hlist | ⟨items, hitems, item, hmem, hnone⟩
  · cases type <;> simpa [World.setValue, DataType.word, hlist, String.append_assoc] using hmessage
  · cases type with
    | string => simp [DataType.convert] at hnone
    | int =>
      have hmap : items.mapM T.getInt = none :=
        mapM_eq_none hmem (by simpa [DataType.convert] using hnone)
      simpa [World.setValue, DataType.word, hitems, hmap, String.append_assoc] using hmessage
    | real =>
      have hmap : items.mapM T.getDouble = none :=
        mapM_eq_none hmem (by simpa [DataType.convert] using hnone)
      simpa [World.setValue, DataType.word, hitems, hmap, String.append_assoc] using hmessage

theorem setValue_of_unknown {datatype : String} (hunknown : ∀ type : DataType, type.word ≠ datatype)
    (m : Nat) (command subcommand value : String) :
    Refused w (w.setValue P T m c command subcommand value datatype) := by
  have hstring : datatype ≠ "string" := (hunknown .string).symm
  have hint : datatype ≠ "int" := (hunknown .int).symm
  have hreal : datatype ≠ "real" := (hunknown .real).symm
  rw [World.setValue, if_neg hstring, if_neg hint, if_neg hreal]
  exact refused_append _ (usage_ne_empty c)

variable [DecidableEq ν] (resolve : String → ν)

/-- `set` runs `setValue`. -/
theorem channelCommand_set (hobject : w.objects this = some c) {objv : List String}
    {value datatype : String} (hwords : SetWords objv value datatype) (m : Nat) :
    ∃ command, w.channelCommand resolve P T this m objv =
      w.setValue P T m c command "set" value datatype := by
  obtain ⟨command, rfl | ⟨rfl, rfl⟩⟩ := hwords
  · exact ⟨command, by simp [World.channelCommand, World.set, hobject]⟩
  · exact ⟨command, by simp [World.channelCommand, World.set, hobject]⟩

/-- A value that no known type converts is refused, whether the channel is
connected or not. -/
theorem channelCommand_set_refused (hobject : w.objects this = some c) {objv : List String}
    {value datatype : String} (hwords : SetWords objv value datatype) (m : Nat)
    (hfails : ∀ type : DataType, type.word = datatype → Inconvertible T type value) :
    Refused w (w.channelCommand resolve P T this m objv) := by
  obtain ⟨command, hcommand⟩ := channelCommand_set T resolve (P := P) hobject hwords m
  rw [hcommand]
  by_cases hknown : ∃ type : DataType, type.word = datatype
  · obtain ⟨type, rfl⟩ := hknown
    exact setValue_of_inconvertible T (hfails type rfl) m command "set"
  · exact setValue_of_unknown T (not_exists.mp hknown) m command "set" value

/-- **`set` is all or nothing** on a connected channel: if all elements convert
it puts them once and returns TCL_OK, and if they do not it puts nothing and
returns TCL_ERROR. Without memory for the buffer nothing is put either, and the
command still returns TCL_OK. -/
theorem set_all_or_nothing (hobject : w.objects this = some c)
    (hconnected : c.pChannel.fConnected = true) {objv : List String} {value datatype : String}
    (hwords : SetWords objv value datatype) (m : Nat) :
    (∀ (type : DataType) (values : List CaValue), type.word = datatype →
      ConvertsTo T type value values → P.Documented (min values.length m : Nat) →
      caValueSize type.dbrType * min values.length m < 2 ^ 32 →
      (P.Allocates (P.dbrSizeN type.dbrType (min values.length m : Nat)) →
        ∃ ca, PutOnce w.ca ca type.dbrType (min values.length m) c.pChannel.nChannel
            (values.take (min values.length m)) ∧
          w.channelCommand resolve P T this m objv = (.returned .ok, { w with ca })) ∧
      (¬ P.Allocates (P.dbrSizeN type.dbrType (min values.length m : Nat)) →
        w.channelCommand resolve P T this m objv = (.returned .ok, w))) ∧
    ((∀ type : DataType, type.word = datatype → Inconvertible T type value) →
      Refused w (w.channelCommand resolve P T this m objv)) := by
  constructor
  · intro type values hword hconverts hP hfits
    obtain ⟨command, hcommand⟩ := channelCommand_set T resolve (P := P) hobject hwords m
    obtain ⟨ca, hset, hnone, hput⟩ :=
      setValue_assigns (w := w) T P hconnected hconverts m command "set"
    rw [hcommand, ← hword, hset]
    exact ⟨fun hmalloc => ⟨ca, hput hP hmalloc hfits, rfl⟩, fun hmalloc => by rw [hnone hmalloc]⟩
  · exact channelCommand_set_refused T resolve hobject hwords m

end

/-- Lists of words between single blanks, and numbers of digits. -/
def splitBlanks : List Char → List Char → List String
  | word, [] => [String.ofList word.reverse]
  | word, c :: rest =>
    if c = ' ' then String.ofList word.reverse :: splitBlanks [] rest
    else splitBlanks (c :: word) rest

def digitsValue : Nat → List Char → Option Nat
  | n, [] => some n
  | n, c :: rest => if c.isDigit then digitsValue (10 * n + (c.toNat - 48)) rest else none

/-- Tcl objects for words without braces, quotes and signs. -/
def plainTcl : TclObjects where
  listElements word :=
    let items := splitBlanks [] word.toList
    if items.length < 2 ^ 31 ∧ ∀ s ∈ items, NulFree s then some items else none
  getInt word := (digitsValue 0 word.toList).map (BitVec.ofNat 32)
  getDouble _ := none
  intMessage word := some ("expected integer but got \"" ++ word ++ "\"")
  length_lt h := by
    obtain ⟨⟨hlength, -⟩, hitems⟩ := Option.ite_none_right_eq_some.mp h
    cases hitems
    exact hlength
  nulFree h := by
    obtain ⟨⟨-, hfree⟩, hitems⟩ := Option.ite_none_right_eq_some.mp h
    cases hitems
    exact hfree
  intMessage_ne h := by
    cases h
    simp

/-- A process with one command, of a channel in the given state. -/
def World.single (channel : CChannel) : World String :=
  { World.initial (fun _ => none) with
    objects := fun id =>
      if id = 0 then some { name := channel.sName, pChannel := channel } else none }

theorem single_object (channel : CChannel) :
    (World.single channel).objects 0 = some { name := channel.sName, pChannel := channel } := rfl

section

attribute [local instance] CTCLObjectProcessor.global ChannelAccess.numbering

theorem set_all_or_nothing_two :
    ∃ ca, PutOnce {} ca dbrLong 2 0 [.integer 1, .integer 2] ∧
      (World.single connectedChannel).channelCommand id plainPlatform plainTcl 0 5
          ["a", "set", "1 2", "int"] =
        (.returned .ok, { World.single connectedChannel with ca }) := by
  have hwords : SetWords ["a", "set", "1 2", "int"] "1 2" "int" := ⟨"a", .inl rfl⟩
  have hconverts : ConvertsTo plainTcl .int "1 2" [.integer 1, .integer 2] :=
    ⟨["1", "2"], by decide, .cons rfl (.cons rfl .nil)⟩
  exact ((set_all_or_nothing plainTcl id (single_object connectedChannel) rfl hwords 5).1 .int _ rfl
    hconverts (plainPlatform_documented _) (by decide)).1 (plainPlatform_allocates _)

/-- A library that has no memory. -/
def fullPlatform : Platform where
  malloc _ := none
  length_malloc h := nomatch h
  dbrSizeN := plainPlatform.dbrSizeN

theorem fullPlatform_documented (count : Int) : fullPlatform.Documented count :=
  have h := plainPlatform_documented count
  ⟨h.dbrSizeN_string, h.dbrSizeN_long, h.dbrSizeN_double⟩

/-- Without memory `set` returns TCL_OK, and nothing is put. -/
theorem unallocated_set :
    ConvertsTo plainTcl .int "1 2" [.integer 1, .integer 2] ∧ fullPlatform.Documented 2 ∧
      ∃ w', (World.single connectedChannel).channelCommand id fullPlatform plainTcl 0 5
          ["a", "set", "1 2", "int"] = (.returned .ok, w') ∧
        ¬ PutOnce (World.single connectedChannel).ca w'.ca dbrLong 2 0
          [.integer 1, .integer 2] := by
  have hwords : SetWords ["a", "set", "1 2", "int"] "1 2" "int" := ⟨"a", .inl rfl⟩
  have hconverts : ConvertsTo plainTcl .int "1 2" [.integer 1, .integer 2] :=
    ⟨["1", "2"], by decide, .cons rfl (.cons rfl .nil)⟩
  have hfull : ∀ n, ¬ fullPlatform.Allocates n := fun n ⟨mem, hmem⟩ => nomatch hmem
  obtain ⟨command, hcommand⟩ := channelCommand_set plainTcl id (P := fullPlatform)
    (single_object connectedChannel) hwords 5
  obtain ⟨ca, hset, hnone, -⟩ := setValue_assigns (w := World.single connectedChannel)
    (c := { name := "a", pChannel := connectedChannel }) plainTcl fullPlatform rfl hconverts 5
    command "set"
  refine ⟨hconverts, fullPlatform_documented 2, _, hcommand.trans hset, ?_⟩
  rw [hnone (hfull _)]
  rintro ⟨pStorage, hput, -⟩
  have hcalls := congrArg (fun ca => ca.calls.length) hput
  simp [CaClient.arrayPut] at hcalls

end

/-! ## §2 get -/

section

variable {ν : Type*} [DecidableEq ν] [CTCLObjectProcessor] [ChannelAccess] {P : Platform}
  (T : TclObjects) (resolve : String → ν) {this : CommandId} {w : World ν} {c : CTCLChannelCommand}

omit [CTCLObjectProcessor] [ChannelAccess] in
theorem getVector_connected {channel : CChannel} (h : channel.fConnected = true) (max : Nat) :
    channel.getVector max = .ok channel.vectorValue := by
  simp [CChannel.getVector, h]

omit [ChannelAccess] in
/-- `get` with a count that is an integer, or without a count. -/
theorem channelCommand_get (hobject : w.objects this = some c)
    (hconnected : c.pChannel.fConnected = true) (m : Nat) {command : String} {counts : List String}
    (hcounts : counts = [] ∨ ∃ count n, counts = [count] ∧ T.getInt count = some n) :
    w.channelCommand resolve P T this m (command :: "get" :: counts) =
      (.returned .ok, w.setResult (.list c.pChannel.vectorValue)) := by
  rcases hcounts with rfl | ⟨count, n, rfl, hn⟩
  · simp [World.channelCommand, World.get, World.getTest, World.getConnected, World.getUse, hobject,
      hconnected, getVector_connected]
  · simp [World.channelCommand, World.get, World.getTest, World.getConnected, World.getUse, hobject,
      hconnected, getVector_connected, hn]

/-- The elements a count asks for. -/
def firstElements (n : Int) (e : List String) : List String :=
  if 0 < n then e.take n.toNat else e

omit [CTCLObjectProcessor] [ChannelAccess] in
theorem firstElements_eq_iff (n : Int) (e : List String) :
    e = firstElements n e ↔ n ≤ 0 ∨ (e.length : Int) ≤ n := by
  unfold firstElements
  split
  · rw [eq_comm, List.take_eq_self_iff]
    omega
  · simp
    omega

omit [ChannelAccess] in
/-- **`get` honours its count** exactly when the count asks for everything. -/
theorem get_honours_count (hobject : w.objects this = some c)
    (hconnected : c.pChannel.fConnected = true) (m : Nat) (command : String) :
    w.channelCommand resolve P T this m [command, "get"] =
        (.returned .ok, w.setResult (.list c.pChannel.vectorValue)) ∧
      (∀ count n, T.getInt count = some n →
        (w.channelCommand resolve P T this m [command, "get", count] =
            (.returned .ok, w.setResult (.list (firstElements n.toInt c.pChannel.vectorValue))) ↔
          n.toInt ≤ 0 ∨ (c.pChannel.vectorValue.length : Int) ≤ n.toInt)) ∧
      ∀ max, (c.pChannel.getVector max =
          .ok (if max = 0 then c.pChannel.vectorValue else c.pChannel.vectorValue.take max) ↔
        max = 0 ∨ c.pChannel.vectorValue.length ≤ max) := by
  refine ⟨?_, ?_, ?_⟩
  · exact channelCommand_get T resolve hobject hconnected m (.inl rfl)
  · intro count n hn
    rw [channelCommand_get T resolve hobject hconnected m (.inr ⟨count, n, rfl, hn⟩),
      ← firstElements_eq_iff]
    simp [World.setResult]
  · intro max
    rw [getVector_connected hconnected, Except.ok.injEq]
    split
    · next hzero => simp [hzero]
    · next hpos =>
      rw [eq_comm, List.take_eq_self_iff]
      simp [hpos]

end

section

attribute [local instance] CTCLObjectProcessor.global ChannelAccess.numbering

/-- A channel whose latest update had two elements, read with a count. -/
def twoElements : CChannel := { connectedChannel with sValue := "1", vectorValue := ["1", "2"] }

theorem get_honours_count_two :
    (World.single twoElements).channelCommand id plainPlatform plainTcl 0 2 ["a", "get", "2"] =
        (.returned .ok, (World.single twoElements).setResult (.list ["1", "2"])) :=
  ((get_honours_count plainTcl id (single_object twoElements) rfl 2 "a").2.1 "2" 2 rfl).mpr
    (.inr (by decide))

/-- `get 1` of two elements returns both. -/
theorem get_one_returns_two :
    ((World.single twoElements).channelCommand id plainPlatform plainTcl 0 2
      ["a", "get", "1"]).2.interp.result ≠ .list (firstElements 1 ["1", "2"]) := by
  decide

end

end EpicsTcl.Command
