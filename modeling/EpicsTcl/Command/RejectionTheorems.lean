/-
EpicsTcl.Command.RejectionTheorems — what becomes of commands that are
rejected.

`Rejected` lists them, one constructor for each reason; `Refused` is what a
rejection should be: an error with a message, and nothing else.
`rejected_commands` says that three reasons (`Slips`) and the wrong number
of words for `epicschannel` are treated otherwise and all the others so:
`unlink` and `epicschannel` return `TCL_OK` for a wrong number of words,
`set` on a channel that is not connected puts nothing and returns `TCL_OK`,
and `get` does not store its message about a count.

Tcl calls a command procedure with an empty result (`cleared`).
-/
import EpicsTcl.Command.GetSetTheorems

namespace EpicsTcl.Command

open EpicsTcl.Channel EpicsTcl.Library

/-! ## The rejected commands -/

/-- The words of the ensemble. -/
def subcommands : List String :=
  ["get", "set", "delete", "updatetime", "link", "unlink", "listlinks", "values", "size"]

section Reasons

variable (T : TclObjects) (linked : String → Bool) (c : CTCLChannelCommand)

/-- The reasons to reject a channel command; `linked` are the variables that
another channel has linked. -/
inductive Rejected : List String → Prop where
  | noSubcommand {objv : List String} (h : objv.length < 2) : Rejected objv
  | unknownSubcommand {command subcommand : String} {args : List String}
      (h : subcommand ∉ subcommands) : Rejected (command :: subcommand :: args)
  | getWords {command : String} {args : List String} (h : 1 < args.length) :
      Rejected (command :: "get" :: args)
  | getCount {command count : String} (h : T.getInt count = none) :
      Rejected [command, "get", count]
  | getDisconnected {command : String} {args : List String} (h : c.pChannel.fConnected = false) :
      Rejected (command :: "get" :: args)
  | setWords {command : String} {args : List String} (h : args.length ≠ 1 ∧ args.length ≠ 2) :
      Rejected (command :: "set" :: args)
  | setType {command value datatype : String} (h : ∀ type : DataType, type.word ≠ datatype) :
      Rejected [command, "set", value, datatype]
  | setDatum {objv : List String} {type : DataType} {value : String}
      (hwords : SetWords objv value type.word) (h : Inconvertible T type value) : Rejected objv
  | setDisconnected {command : String} {args : List String} (h : c.pChannel.fConnected = false) :
      Rejected (command :: "set" :: args)
  | sizeDisconnected {command : String} {args : List String} (h : c.pChannel.fConnected = false) :
      Rejected (command :: "size" :: args)
  | linkWords {command : String} {args : List String} (h : args.length ≠ 1) :
      Rejected (command :: "link" :: args)
  | linkedElsewhere {command varname : String} (h : linked varname = true) :
      Rejected [command, "link", varname]
  | unlinkWords {command : String} {args : List String} (h : args.length ≠ 1) :
      Rejected (command :: "unlink" :: args)
  | notLinked {command varname : String} (h : c.find varname = none) :
      Rejected [command, "unlink", varname]
  | listlinksWords {command : String} {args : List String} (h : 1 < args.length) :
      Rejected (command :: "listlinks" :: args)
  | valuesWords {command : String} {args : List String} (h : args ≠ []) :
      Rejected (command :: "values" :: args)
  | sizeWords {command : String} {args : List String} (h : args ≠ []) :
      Rejected (command :: "size" :: args)

/-- The reasons for which the command does something else: the count of a
`get` whose conversion leaves no message, an acceptable `set` on a channel
that is not connected, and the words of `unlink`. -/
inductive Slips : List String → Prop where
  | getCount {command count : String} (h : T.getInt count = none)
      (hsilent : T.intMessage count = none) : Slips [command, "get", count]
  | setDisconnected {objv : List String} {type : DataType} {value : String} {values : List CaValue}
      (hwords : SetWords objv value type.word) (h : ConvertsTo T type value values)
      (hdisconnected : c.pChannel.fConnected = false) : Slips objv
  | unlinkWords {command : String} {args : List String} (h : args.length ≠ 1) :
      Slips (command :: "unlink" :: args)

end Reasons

/-- The exceptions are among three subcommands. -/
theorem Slips.word {T : TclObjects} {c : CTCLChannelCommand} {objv : List String}
    (h : Slips T c objv) :
    objv[1]? = some "get" ∨ objv[1]? = some "set" ∨ objv[1]? = some "unlink" := by
  cases h with
  | getCount => exact .inl rfl
  | setDisconnected hwords =>
    obtain ⟨command, rfl | ⟨rfl, -⟩⟩ := hwords
    · exact .inr (.inl rfl)
    · exact .inr (.inl rfl)
  | unlinkWords => exact .inr (.inr rfl)

/-- The result is empty when a command procedure is called. -/
def World.cleared {ν : Type*} (w : World ν) : World ν := w.setResult (.text "")

/-! ## Set on a channel that is not connected -/

section Set

variable {ν : Type*} {P : Platform} {tcl : CTCLObjectProcessor} {access : ChannelAccess}
  (T : TclObjects) {w : World ν} {c : CTCLChannelCommand}

/-- A value converts or it does not. -/
theorem convertsTo_or_inconvertible (type : DataType) (value : String) :
    (∃ values, ConvertsTo T type value values) ∨ Inconvertible T type value := by
  cases hitems : T.listElements value with
  | none => exact .inr (.inl hitems)
  | some items =>
    by_cases hnone : ∃ item ∈ items, type.convert T item = none
    · exact .inr (.inr ⟨items, hitems, hnone⟩)
    · have hall : ∃ values,
          List.Forall₂ (fun item v => type.convert T item = some v) items values := by
        clear hitems
        induction items with
        | nil => exact ⟨[], .nil⟩
        | cons item items ih =>
          obtain ⟨values, hvalues⟩ := ih fun ⟨i, hi, h⟩ => hnone ⟨i, by simp [hi], h⟩
          obtain ⟨v, hv⟩ := Option.ne_none_iff_exists'.mp fun h => hnone ⟨item, by simp, h⟩
          exact ⟨v :: values, .cons hv hvalues⟩
      obtain ⟨values, hvalues⟩ := hall
      exact .inl ⟨values, items, hitems, hvalues⟩

/-- Nothing is put and the command succeeds. -/
theorem setValue_disconnected (hdisconnected : c.pChannel.fConnected = false) {type : DataType}
    {value : String} {values : List CaValue} (hconverts : ConvertsTo T type value values) (m : Nat)
    (command subcommand : String) :
    w.setValue P T m c command subcommand value type.word = (.returned .ok, w) := by
  obtain ⟨items, hitems, hall⟩ := hconverts
  cases type with
  | string =>
    simp [World.setValue, DataType.word, hitems, CChannel.assignStrings,
      assignVector_disconnected _ _ _ hdisconnected]
  | int =>
    obtain ⟨ints, hints, -⟩ := mapM_of_forall₂ hall
    simp [World.setValue, DataType.word, hitems, hints, CChannel.assignInts,
      assignVector_disconnected _ _ _ hdisconnected]
  | real =>
    obtain ⟨doubles, hdoubles, -⟩ := mapM_of_forall₂ hall
    simp [World.setValue, DataType.word, hitems, hdoubles, CChannel.assignDoubles,
      assignVector_disconnected _ _ _ hdisconnected]

end Set

/-! ## The test of get -/

section Get

variable {ν : Type*} [CTCLObjectProcessor] [ChannelAccess] (T : TclObjects) {this : CommandId}
  {w : World ν} {c : CTCLChannelCommand}

omit [CTCLObjectProcessor] [ChannelAccess] in
theorem getConnected_cases (c : CTCLChannelCommand) (max : Nat) (w : World ν) :
    (∃ r, w.getConnected c max = .inl r ∧ Refused w r) ∨
      w.getConnected c max = .inr max ∧ c.pChannel.fConnected = true := by
  cases hconnected : c.pChannel.fConnected with
  | true => exact .inr ⟨by simp [World.getConnected, hconnected], rfl⟩
  | false =>
    refine .inl ⟨_, by rw [World.getConnected, hconnected]; rfl, ?_⟩
    exact refused_append c.pChannel.sName (by decide)

omit [ChannelAccess] in
/-- What `Get` does up to its test: it fails with a message, or goes on with
a connected channel and one of its counts, or fails without a message. -/
theorem getTest_cases (hobject : w.objects this = some c) (objv : List String) :
    (∃ r, w.getTest T this objv = .inl r ∧ Refused w r) ∨
      (∃ max, w.getTest T this objv = .inr max ∧ c.pChannel.fConnected = true ∧
        objv.length ≤ 3 ∧ ∀ a b count, objv = [a, b, count] → T.getInt count ≠ none) ∨
      ∃ a b count, objv = [a, b, count] ∧ T.getInt count = none ∧ T.intMessage count = none ∧
        w.getTest T this objv = .inl (.returned .error, w) := by
  by_cases hlong : 3 < objv.length
  · refine .inl ⟨_, by rw [World.getTest, hobject]; simp [hlong]; rfl, ?_⟩
    exact refused_append _ (usage_ne_empty c)
  · have hshort : objv.length ≤ 3 := by omega
    by_cases hcount : ∃ a b count, objv = [a, b, count]
    · obtain ⟨a, b, count, rfl⟩ := hcount
      cases hint : T.getInt count with
      | some n =>
        have htest : w.getTest T this [a, b, count] = w.getConnected c (sizeOfInt n.toInt) := by
          simp [World.getTest, hobject, hint]
        rw [htest]
        rcases getConnected_cases c (sizeOfInt n.toInt) w with hrefused | ⟨hgo, hconnected⟩
        · exact .inl hrefused
        · exact .inr (.inl ⟨_, hgo, hconnected, hshort, by simp [hint]⟩)
      | none =>
        cases hmessage : T.intMessage count with
        | some message =>
          refine .inl ⟨_, by simp [World.getTest, hobject, hint, hmessage]; rfl, ?_⟩
          exact ⟨message, T.intMessage_ne hmessage, rfl⟩
        | none =>
          refine .inr (.inr ⟨a, b, count, rfl, hint, hmessage, ?_⟩)
          simp [World.getTest, hobject, hint, hmessage]
    · have htest : w.getTest T this objv = w.getConnected c 0 := by
        rw [World.getTest, hobject]
        simp only [hlong, ↓reduceIte]
        split
        · next a b count => exact absurd ⟨a, b, count, rfl⟩ hcount
        · rfl
      rw [htest]
      rcases getConnected_cases c 0 w with hrefused | ⟨hgo, hconnected⟩
      · exact .inl hrefused
      · have hnone (a b count : String) (h : objv = [a, b, count]) : T.getInt count ≠ none :=
          absurd ⟨a, b, count, h⟩ hcount
        exact .inr (.inl ⟨0, hgo, hconnected, hshort, hnone⟩)

omit [ChannelAccess] in
/-- What `Size` does up to its test. -/
theorem sizeTest_cases (hobject : w.objects this = some c) (objv : List String) :
    (∃ r, w.sizeTest this objv = .inl r ∧ Refused w r) ∨
      w.sizeTest this objv = .inr () ∧ c.pChannel.fConnected = true ∧ objv.length = 2 := by
  by_cases hwords : objv.length = 2
  · cases hconnected : c.pChannel.fConnected with
    | true => exact .inr ⟨by simp [World.sizeTest, hobject, hwords, hconnected], rfl, hwords⟩
    | false =>
      refine .inl ⟨_, by simp [World.sizeTest, hobject, hwords, hconnected]; rfl, ?_⟩
      exact ⟨"Channel not connected", by decide, rfl⟩
  · refine .inl ⟨_, by rw [World.sizeTest, hobject]; simp [hwords]; rfl, ?_⟩
    exact refused_append _ (usage_ne_empty c)

end Get

/-! ## The subcommands -/

section Commands

variable {ν : Type*} [DecidableEq ν] [CTCLObjectProcessor] [ChannelAccess] (resolve : String → ν)
  {P : Platform} (T : TclObjects) {this : CommandId} {w : World ν} {c : CTCLChannelCommand}

omit [ChannelAccess] in
theorem get_refused (hobject : w.objects this = some c) (m : Nat) {command : String}
    {args : List String}
    (hrejected : 1 < args.length ∨ (∃ count, args = [count] ∧ T.getInt count = none) ∨
      c.pChannel.fConnected = false)
    (hnot : ¬ Slips T c (command :: "get" :: args)) :
    Refused w (w.channelCommand resolve P T this m (command :: "get" :: args)) := by
  have hget : w.channelCommand resolve P T this m (command :: "get" :: args) =
      w.get T this (command :: "get" :: args) := by
    simp [World.channelCommand, hobject]
  rw [hget, World.get]
  rcases getTest_cases T hobject (command :: "get" :: args) with
    ⟨r, hr, hrefused⟩ | ⟨max, -, hconnected, hlength, hcount⟩ | ⟨a, b, count, h, hint, hsilent, -⟩
  · rw [hr]
    exact hrefused
  · -- the test is not passed by a rejected command
    exfalso
    rcases hrejected with hlong | ⟨count, rfl, hint⟩ | hdisconnected
    · simp at hlength
      omega
    · exact hcount command "get" count rfl hint
    · simp [hconnected] at hdisconnected
  · obtain ⟨rfl, rfl, rfl⟩ : command = a ∧ "get" = b ∧ args = [count] := by simpa using h
    exact absurd (Slips.getCount hint hsilent) hnot

omit [ChannelAccess] in
theorem set_refused (hobject : w.objects this = some c) (m : Nat) {command : String}
    {args : List String}
    (hnot : ∀ (type : DataType) (value : String) (values : List CaValue),
      SetWords (command :: "set" :: args) value type.word → ¬ ConvertsTo T type value values) :
    Refused w (w.channelCommand resolve P T this m (command :: "set" :: args)) := by
  by_cases hwords : ∃ value datatype, SetWords (command :: "set" :: args) value datatype
  · obtain ⟨value, datatype, hwords⟩ := hwords
    refine channelCommand_set_refused T resolve hobject hwords m fun type hword => ?_
    subst hword
    rcases convertsTo_or_inconvertible T type value with ⟨values, hconverts⟩ | hfails
    · exact absurd hconverts (hnot type value values hwords)
    · exact hfails
  · have hset : w.channelCommand resolve P T this m (command :: "set" :: args) =
        (.returned .error, w.setResult (.text (command ++ " " ++ "set" ++
          " -- insufficient parameters\n" ++ c.usage))) := by
      rcases args with _ | ⟨value, _ | ⟨datatype, _ | ⟨word, rest⟩⟩⟩
      · simp [World.channelCommand, World.set, hobject]
      · exact absurd ⟨value, "string", command, .inr ⟨rfl, rfl⟩⟩ hwords
      · exact absurd ⟨value, datatype, command, .inl rfl⟩ hwords
      · simp [World.channelCommand, World.set, hobject]
    rw [hset]
    exact refused_append _ (usage_ne_empty c)

omit [ChannelAccess] in
theorem link_refused (hobject : w.objects this = some c) (m : Nat) {command : String}
    {args : List String}
    (hrejected : args.length ≠ 1 ∨ ∃ varname, args = [varname] ∧ w.isLinked this varname = true) :
    Refused w (w.channelCommand resolve P T this m (command :: "link" :: args)) := by
  have hlink : w.channelCommand resolve P T this m (command :: "link" :: args) =
      World.returns (w.link resolve this (command :: "link" :: args)) := by
    simp [World.channelCommand, hobject]
  rw [hlink]
  rcases hrejected with hwords | ⟨varname, rfl, hlinked⟩
  · refine ⟨getName c.name ++ " - insufficient parameters\n" ++ c.usage,
      append_ne_empty _ (usage_ne_empty c), ?_⟩
    rcases args with _ | ⟨varname, _ | ⟨word, rest⟩⟩
    · simp [World.link, World.returns, hobject]
    · simp at hwords
    · simp [World.link, World.returns, hobject]
  · refine ⟨varname ++ " is already linked to a different channel",
      append_ne_empty _ (by decide), ?_⟩
    simp [World.link, World.returns, hobject, hlinked]

omit [ChannelAccess] in
theorem size_refused (hobject : w.objects this = some c) (m : Nat) {command : String}
    {args : List String} (hrejected : args ≠ [] ∨ c.pChannel.fConnected = false) :
    Refused w (w.channelCommand resolve P T this m (command :: "size" :: args)) := by
  have hsize : w.channelCommand resolve P T this m (command :: "size" :: args) =
      w.size this m (command :: "size" :: args) := by
    simp [World.channelCommand, hobject]
  rw [hsize, World.size]
  rcases sizeTest_cases hobject (command :: "size" :: args) with
    ⟨r, hr, hrefused⟩ | ⟨-, hconnected, hlength⟩
  · rw [hr]
    exact hrefused
  · exfalso
    rcases hrejected with hwords | hdisconnected
    · exact hwords (by simpa using hlength)
    · simp [hconnected] at hdisconnected

omit [ChannelAccess] in
/-- A rejected command that is none of the exceptions is refused. -/
theorem refused_of_rejected (hobject : w.objects this = some c) (m : Nat) {objv : List String}
    (hrejected : Rejected T (w.isLinked this) c objv) (hnot : ¬ Slips T c objv) :
    Refused w (w.channelCommand resolve P T this m objv) := by
  cases hrejected with
  | noSubcommand h =>
    refine ⟨objv.getD 0 "" ++ " -- incorrect number of command parameters\n" ++ c.usage,
      append_ne_empty _ (usage_ne_empty c), ?_⟩
    rcases objv with _ | ⟨command, _ | ⟨word, rest⟩⟩
    · simp [World.channelCommand, hobject]
    · simp [World.channelCommand, hobject]
    · simp only [List.length_cons] at h
      omega
  | @unknownSubcommand command subcommand args h =>
    simp only [subcommands, List.mem_cons, List.not_mem_nil, or_false, not_or] at h
    refine ⟨command ++ " " ++ subcommand ++ " -- Bad subcommand for channel command\n" ++ c.usage,
      append_ne_empty _ (usage_ne_empty c), ?_⟩
    simp [World.channelCommand, hobject, h]
  | getWords h => exact get_refused resolve T hobject m (.inl h) hnot
  | getCount h => exact get_refused resolve T hobject m (.inr (.inl ⟨_, rfl, h⟩)) hnot
  | getDisconnected h => exact get_refused resolve T hobject m (.inr (.inr h)) hnot
  | setWords h =>
    refine set_refused resolve T hobject m fun type value values hwords => ?_
    obtain ⟨_, hwords | ⟨hwords, -⟩⟩ := hwords
    all_goals
      cases hwords
      simp at h
  | setType h =>
    refine set_refused resolve T hobject m fun type value values hwords => ?_
    obtain ⟨_, hwords | ⟨hwords, -⟩⟩ := hwords
    · exact absurd (by cases hwords; rfl) (h type)
    · simp at hwords
  | @setDatum _ type value hwords h =>
    refine channelCommand_set_refused T resolve hobject hwords m fun type' hword => ?_
    rwa [DataType.word_inj hword]
  | setDisconnected h =>
    refine set_refused resolve T hobject m fun type value values hwords hconverts => ?_
    exact hnot (.setDisconnected hwords hconverts h)
  | sizeDisconnected h => exact size_refused resolve T hobject m (.inr h)
  | linkWords h => exact link_refused resolve T hobject m (.inl h)
  | linkedElsewhere h => exact link_refused resolve T hobject m (.inr ⟨_, rfl, h⟩)
  | unlinkWords h => exact absurd (.unlinkWords h) hnot
  | @notLinked command varname h =>
    refine ⟨"The variable " ++ varname ++ " is not linked to " ++ getName c.name ++ "\n" ++ c.usage,
      append_ne_empty _ (usage_ne_empty c), ?_⟩
    simp [World.channelCommand, World.unlink, World.returns, hobject, h]
  | @listlinksWords command args h =>
    refine ⟨"Too many parametesr to linklist subcommand\n" ++ c.usage,
      append_ne_empty _ (usage_ne_empty c), ?_⟩
    rcases args with _ | ⟨pattern, _ | ⟨word, rest⟩⟩
    · simp at h
    · simp at h
    · simp [World.channelCommand, World.listLinks, World.returns, hobject]
  | valuesWords h =>
    refine ⟨"Too many command line parameters\n" ++ c.usage,
      append_ne_empty _ (usage_ne_empty c), ?_⟩
    simp [World.channelCommand, World.valueList, hobject, h]
  | sizeWords h => exact size_refused resolve T hobject m (.inl h)

omit [DecidableEq ν] [CTCLObjectProcessor] [ChannelAccess] in
theorem not_refused_of_ok {r : Completion × World ν} (h : r.1 = .returned .ok) : ¬ Refused w r := by
  rintro ⟨text, -, rfl⟩
  cases h

omit [ChannelAccess] in
/-- The exceptions are not refused. -/
theorem not_refused_of_slips (hobject : w.objects this = some c) (m : Nat) {objv : List String}
    (hempty : w.interp.result = .text "") (hslips : Slips T c objv) :
    ¬ Refused w (w.channelCommand resolve P T this m objv) := by
  cases hslips with
  | @getCount command count h hsilent =>
    -- the result is still the empty one
    rintro ⟨text, htext, hend⟩
    have hget : w.channelCommand resolve P T this m [command, "get", count] =
        (.returned .error, w) := by
      simp [World.channelCommand, World.get, World.getTest, hobject, h, hsilent]
    rw [hget] at hend
    have hresult : w.interp.result = .text text :=
      congrArg (fun r : Completion × World ν => r.2.interp.result) hend
    rw [hempty] at hresult
    exact htext (TclResult.text.inj hresult).symm
  | @setDisconnected _ type value values hwords hconverts hdisconnected =>
    obtain ⟨command, hcommand⟩ := channelCommand_set T resolve (P := P) hobject hwords m
    rw [hcommand, setValue_disconnected T hdisconnected hconverts]
    exact not_refused_of_ok rfl
  | @unlinkWords command args h =>
    apply not_refused_of_ok
    rcases args with _ | ⟨varname, _ | ⟨word, rest⟩⟩
    · simp [World.channelCommand, World.unlink, World.returns, hobject]
    · simp at h
    · simp [World.channelCommand, World.unlink, World.returns, hobject]

/-! ## All commands -/

/-- A call of a command procedure with its words. -/
inductive Call where
  | epicschannel (objv : List String)
  | channel (this : CommandId) (objv : List String)

/-- Tcl calls a command procedure. -/
def World.call (P : Platform) (m : Nat) (w : World ν) : Call → Completion × World ν
  | .epicschannel objv => World.returns (w.cleared.epicsCommand objv)
  | .channel this objv => w.cleared.channelCommand resolve P T this m objv

/-- The call is to be rejected. -/
def RejectedCall (w : World ν) : Call → Prop
  | .epicschannel objv => objv.length ≠ 2
  | .channel this objv => ∃ c, w.objects this = some c ∧ Rejected T (w.isLinked this) c objv

/-- The call is one of the exceptions. -/
def SlipCall (w : World ν) : Call → Prop
  | .epicschannel _ => True
  | .channel this objv => ∃ c, w.objects this = some c ∧ Slips T c objv

/-- **Rejected commands say so and change nothing**, with the exceptions
named in `SlipCall` and no others. -/
theorem rejected_commands (m : Nat) {call : Call} (hrejected : RejectedCall T w call) :
    Refused w.cleared (w.call resolve T P m call) ↔ ¬ SlipCall T w call := by
  cases call with
  | epicschannel objv =>
    have hok : (w.call resolve T P m (.epicschannel objv)).1 = .returned .ok := by
      rcases objv with _ | ⟨command, _ | ⟨name, _ | ⟨word, rest⟩⟩⟩
      · rfl
      · rfl
      · exact absurd rfl hrejected
      · rfl
    simp [SlipCall, not_refused_of_ok hok]
  | channel this objv =>
    obtain ⟨c, hobject, hreason⟩ := hrejected
    have hobject' : w.cleared.objects this = some c := hobject
    constructor
    · rintro hrefused ⟨c', hc', hslips⟩
      obtain rfl : c = c' := Option.some.inj (hobject.symm.trans hc')
      exact not_refused_of_slips resolve T hobject' m rfl hslips hrefused
    · intro hnot
      exact refused_of_rejected resolve T hobject' m hreason fun hslips => hnot ⟨c, hobject, hslips⟩

end Commands

attribute [local instance] CTCLObjectProcessor.global ChannelAccess.numbering

/-- The process after `epicschannel a`. -/
def oneChannel : World String :=
  ((World.initial fun _ => none).epicsCommand ["epicschannel", "a"]).2

/-- `listlinks` with too many words. -/
theorem rejected_commands_listlinks :
    Refused oneChannel.cleared
      (oneChannel.call id plainTcl plainPlatform 1 (.channel 0 ["a", "listlinks", "x", "y"])) := by
  have hrejected : RejectedCall plainTcl oneChannel (.channel 0 ["a", "listlinks", "x", "y"]) :=
    ⟨_, rfl, .listlinksWords (by decide)⟩
  have hslip : ¬ SlipCall plainTcl oneChannel (.channel 0 ["a", "listlinks", "x", "y"]) := by
    rintro ⟨c, -, hslips⟩
    exact absurd hslips.word (by decide)
  exact (rejected_commands id plainTcl 1 hrejected).mpr hslip

/-- `set` on a channel that is not connected returns `TCL_OK`, and so does
`unlink` without a variable. -/
theorem rejected_not_refused :
    (RejectedCall plainTcl oneChannel (.channel 0 ["a", "set", "5"]) ∧
      ¬ Refused oneChannel.cleared
        (oneChannel.call id plainTcl plainPlatform 1 (.channel 0 ["a", "set", "5"]))) ∧
    RejectedCall plainTcl oneChannel (.channel 0 ["a", "unlink"]) ∧
      ¬ Refused oneChannel.cleared
        (oneChannel.call id plainTcl plainPlatform 1 (.channel 0 ["a", "unlink"])) :=
  ⟨⟨⟨_, rfl, .setDisconnected rfl⟩, not_refused_of_ok (by decide)⟩,
    ⟨_, rfl, .unlinkWords (by decide)⟩, not_refused_of_ok (by decide)⟩

end EpicsTcl.Command
