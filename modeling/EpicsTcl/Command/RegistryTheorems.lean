/-
EpicsTcl.Command.RegistryTheorems — clients that share the registry.

`Clients` runs the process for any number of clients that create and delete
channels. It keeps the log of all calls, newest first, and for each client
and name the objects that the client's `epicschannel` calls found or
created since it last held none. A client deletes a name at most as often
as it has created it (`MayDelete`), and the names are plain (`MayUse`): in
the code `delete` of any other name is one of the name that Tcl has for the
command (`qualified_name_never_deleted`).

`RegistryInv` ties the registry to the log: a name is registered exactly
when its creations outnumber its deletions, its count is the difference,
and the objects that a holder found are the one registered now. A name is
unregistered only when the difference is zero, and then nobody holds it.
-/
import EpicsTcl.Command.StepEffects
import EpicsTcl.Library.Balance

namespace EpicsTcl.Command

open EpicsTcl.Channel EpicsTcl.Library

/-! ## Clients -/

/-- What a client can do to the registry. -/
inductive RegistryCommand where
  | epicschannel (name : String)
  | delete (name : String)
  deriving DecidableEq, Repr

/-- The process, the calls made so far, and the objects found. -/
structure Clients (κ ν : Type*) where
  world : World ν
  log : List (κ × RegistryCommand) := []
  found : κ → String → List CommandId := fun _ _ => []

section

variable {κ ν : Type*} [DecidableEq κ] [DecidableEq ν] [CTCLObjectProcessor] [ChannelAccess]
  {resolve : String → ν}

namespace Clients

/-- How often a client has created a name. -/
def created (client : κ) (name : String) (s : Clients κ ν) : Nat :=
  s.log.count (client, .epicschannel name)

/-- How often a client has deleted a name. -/
def deleted (client : κ) (name : String) (s : Clients κ ν) : Nat :=
  s.log.count (client, .delete name)

omit [DecidableEq κ] in
/-- How often a name was created by anyone. -/
def creations (name : String) (s : Clients κ ν) : Nat :=
  s.log.countP (·.2 = .epicschannel name)

omit [DecidableEq κ] in
/-- How often a name was deleted by anyone. -/
def deletions (name : String) (s : Clients κ ν) : Nat :=
  s.log.countP (·.2 = .delete name)

variable (resolve) in
/-- A client's command: the object registered after `epicschannel` is the
one it found or created; a client that has deleted a name as often as it
created it holds no object of that name any more. -/
def step (s : Clients κ ν) : κ × RegistryCommand → Option (Clients κ ν)
  | (client, .epicschannel name) =>
    let world := (s.world.run resolve (.epicschannel name)).2
    some {
      world
      log := (client, .epicschannel name) :: s.log
      found := fun c n =>
        if c = client ∧ n = name then (world.commandOf name).toList ++ s.found c n
        else s.found c n }
  | (client, .delete name) =>
    some {
      world := (s.world.run resolve (.delete name)).2
      log := (client, .delete name) :: s.log
      found := fun c n =>
        if c = client ∧ n = name ∧ s.deleted client name + 1 = s.created client name then []
        else s.found c n }

/-- A client deletes a name at most as often as it has created it. -/
def MayDelete (s : Clients κ ν) : κ × RegistryCommand → Prop
  | (client, .delete name) => s.deleted client name < s.created client name
  | _ => True

instance (s : Clients κ ν) (a : κ × RegistryCommand) : Decidable (s.MayDelete a) := by
  obtain ⟨client, cmd⟩ := a
  cases cmd <;> unfold MayDelete <;> infer_instance

/-- What a client can do: it deletes no more than it has created, and it
creates plain names. -/
def MayUse (s : Clients κ ν) (a : κ × RegistryCommand) : Prop :=
  s.MayDelete a ∧ ∀ name, a.2 = .epicschannel name → Plain name

instance (s : Clients κ ν) (a : κ × RegistryCommand) : Decidable (s.MayUse a) :=
  match a with
  | (_, .epicschannel name) => decidable_of_iff (Plain name) (by simp [MayUse, MayDelete])
  | (client, .delete name) =>
    decidable_of_iff (s.MayDelete (client, .delete name)) (by simp [MayUse])

end Clients

/-! ## The invariant -/

/-- What ties the registry to the log. -/
structure RegistryInv (s : Clients κ ν) : Prop where
  balance : ∀ c n, s.deleted c n ≤ s.created c n
  unregistered : ∀ n, s.world.haveChannel n = none → s.creations n = s.deletions n
  registered : ∀ n info, s.world.haveChannel n = some info →
    info.refcount = (s.creations n : Int) - s.deletions n ∧ s.deletions n < s.creations n
  found : ∀ c n, ∀ id ∈ s.found c n, s.world.commandOf n = some id
  holding : ∀ c n, s.found c n ≠ [] ↔ s.deleted c n < s.created c n

namespace Clients

/-! ## Counts after one more call -/

section Counts

variable {s s' : Clients κ ν} {client : κ} {cmd : RegistryCommand}

omit [DecidableEq ν] [CTCLObjectProcessor] [ChannelAccess] in
theorem created_cons (h : s'.log = (client, cmd) :: s.log) (c : κ) (n : String) :
    s'.created c n = s.created c n + if c = client ∧ .epicschannel n = cmd then 1 else 0 := by
  rw [created, h, count_log_cons, created]

omit [DecidableEq ν] [CTCLObjectProcessor] [ChannelAccess] in
theorem deleted_cons (h : s'.log = (client, cmd) :: s.log) (c : κ) (n : String) :
    s'.deleted c n = s.deleted c n + if c = client ∧ .delete n = cmd then 1 else 0 := by
  rw [deleted, h, count_log_cons, deleted]

omit [DecidableEq κ] [DecidableEq ν] [CTCLObjectProcessor] [ChannelAccess] in
theorem creations_cons (h : s'.log = (client, cmd) :: s.log) (n : String) :
    s'.creations n = s.creations n + if .epicschannel n = cmd then 1 else 0 := by
  rw [creations, h, countP_log_cons, creations]

omit [DecidableEq κ] [DecidableEq ν] [CTCLObjectProcessor] [ChannelAccess] in
theorem deletions_cons (h : s'.log = (client, cmd) :: s.log) (n : String) :
    s'.deletions n = s.deletions n + if .delete n = cmd then 1 else 0 := by
  rw [deletions, h, countP_log_cons, deletions]

omit [DecidableEq κ] [DecidableEq ν] [CTCLObjectProcessor] [ChannelAccess] in
/-- All counts together stay below the number of calls. -/
theorem counts_le_length (s : Clients κ ν) (n : String) :
    s.creations n + s.deletions n ≤ s.log.length := by
  unfold creations deletions
  induction s.log with
  | nil => exact Nat.le_refl _
  | cons a log ih =>
    obtain ⟨c, cmd⟩ := a
    rw [countP_log_cons, countP_log_cons, List.length_cons]
    cases cmd with
    | epicschannel name => simp only [reduceCtorEq, if_false]; split <;> omega
    | delete name => simp only [reduceCtorEq, if_false]; split <;> omega

end Counts

end Clients

/-! ## Steps -/

section Steps

variable {s s' : Clients κ ν} {client : κ} {name : String}

omit [DecidableEq κ] [DecidableEq ν] [CTCLObjectProcessor] [ChannelAccess] in
theorem commandOf_of_some {w : World ν} {n : String} {info : RefCountedChannel}
    (h : w.haveChannel n = some info) : w.commandOf n = some info.pChannel := by
  simp [World.commandOf, h]

/-- The part of the invariant that is about one name. -/
structure NameInv (s : Clients κ ν) (n : String) : Prop where
  balance : ∀ c, s.deleted c n ≤ s.created c n
  unregistered : s.world.haveChannel n = none → s.creations n = s.deletions n
  registered : ∀ info, s.world.haveChannel n = some info →
    info.refcount = (s.creations n : Int) - s.deletions n ∧ s.deletions n < s.creations n
  found : ∀ c, ∀ id ∈ s.found c n, s.world.commandOf n = some id
  holding : ∀ c, s.found c n ≠ [] ↔ s.deleted c n < s.created c n

omit [DecidableEq ν] [CTCLObjectProcessor] [ChannelAccess] in
theorem registryInv_iff : RegistryInv s ↔ ∀ n, NameInv s n := by
  constructor
  · intro h n
    exact ⟨fun c => h.balance c n, h.unregistered n, h.registered n, fun c => h.found c n,
      fun c => h.holding c n⟩
  · intro h
    exact ⟨fun c n => (h n).balance c, fun n => (h n).unregistered, fun n => (h n).registered,
      fun c n => (h n).found c, fun c n => (h n).holding c⟩

/-- A command leaves the other names alone. -/
theorem nameInv_other {cmd : RegistryCommand} {n : String} (hnames : s.world.PlainNames)
    (h : NameInv s n) (hne : .epicschannel n ≠ cmd ∧ .delete n ≠ cmd)
    (hstep : s.step resolve (client, cmd) = some s') : NameInv s' n := by
  have hlog : s'.log = (client, cmd) :: s.log := by
    cases cmd <;> cases hstep <;> rfl
  have hcreated (c : κ) : s'.created c n = s.created c n := by
    simp [Clients.created_cons hlog, hne.1]
  have hdeleted (c : κ) : s'.deleted c n = s.deleted c n := by
    simp [Clients.deleted_cons hlog, hne.2]
  have hcreations : s'.creations n = s.creations n := by
    simp [Clients.creations_cons hlog, hne.1]
  have hdeletions : s'.deletions n = s.deletions n := by
    simp [Clients.deletions_cons hlog, hne.2]
  obtain ⟨hhave, hfound⟩ : s'.world.haveChannel n = s.world.haveChannel n ∧
      ∀ c, s'.found c n = s.found c n := by
    cases cmd with
    | epicschannel name =>
      have hname : n ≠ name := fun heq => hne.1 (congrArg _ heq)
      cases hstep
      exact ⟨by rw [s.world.run_epicschannel_haveChannel, if_neg hname], fun c => by simp [hname]⟩
    | delete name =>
      have hname : n ≠ name := fun heq => hne.2 (congrArg _ heq)
      cases hstep
      exact ⟨by rw [World.run_delete_haveChannel resolve hnames, if_neg hname],
        fun c => by simp [hname]⟩
  constructor
  case balance => simpa only [hcreated, hdeleted] using h.balance
  case unregistered => simpa only [hhave, hcreations, hdeletions] using h.unregistered
  case registered => simpa only [hhave, hcreations, hdeletions] using h.registered
  case found => simpa only [World.commandOf, hhave, hfound] using h.found
  case holding => simpa only [hfound, hcreated, hdeleted] using h.holding

/-- `epicschannel` counts one creation of its name, and its client finds the
object registered now. -/
theorem nameInv_create (h : NameInv s name)
    (hstep : s.step resolve (client, .epicschannel name) = some s')
    (hbound : s'.log.length < 2 ^ 31) : NameInv s' name := by
  obtain ⟨hworld, hlog, hfound⟩ : s'.world = (s.world.run resolve (.epicschannel name)).2 ∧
      s'.log = (client, .epicschannel name) :: s.log ∧
      ∀ c, s'.found c name = if c = client then
        (s'.world.commandOf name).toList ++ s.found c name else s.found c name := by
    cases hstep
    exact ⟨rfl, rfl, fun c => by simp⟩
  have hcreated (c : κ) := Clients.created_cons hlog c name
  have hdeleted (c : κ) := Clients.deleted_cons hlog c name
  have hcreations := Clients.creations_cons hlog name
  have hdeletions := Clients.deletions_cons hlog name
  simp only [and_true, reduceCtorEq, and_false, if_true, if_false,
    Nat.add_zero] at hcreated hdeleted hcreations hdeletions
  have hhave := s.world.run_epicschannel_haveChannel resolve name name
  rw [← hworld, if_pos rfl] at hhave
  rw [hlog, List.length_cons] at hbound
  have hle := s.counts_le_length name
  constructor
  case balance =>
    intro c
    rw [hcreated, hdeleted]
    exact Nat.le_add_right_of_le (h.balance c)
  case unregistered =>
    intro hn
    simp [hhave] at hn
  case registered =>
    intro info hn
    rw [hhave, Option.some.injEq] at hn
    rw [hcreations, hdeletions]
    cases hold : s.world.haveChannel name with
    | some old =>
      obtain ⟨hcount, hlt⟩ := h.registered old hold
      have hwrap : wrapInt (old.refcount + 1) = old.refcount + 1 :=
        wrapInt_of_lt (by omega) (by omega)
      simp only [hold, hwrap] at hn
      rw [← hn]
      simp only
      omega
    | none =>
      have hcount := h.unregistered hold
      simp only [hold] at hn
      rw [← hn]
      simp only
      omega
  case found =>
    intro c id hid
    have hold : ∀ id ∈ s.found c name, s'.world.commandOf name = some id := by
      intro id hid
      obtain ⟨info, hinfo, rfl⟩ := Option.map_eq_some_iff.mp (h.found c id hid)
      have hinfo : s.world.haveChannel name = some info := hinfo
      simp [World.commandOf, hhave, hinfo]
    rw [hfound] at hid
    split at hid
    · rw [List.mem_append, Option.mem_toList] at hid
      rcases hid with hnow | hearlier
      · exact hnow
      · exact hold id hearlier
    · exact hold id hid
  case holding =>
    intro c
    rw [hcreated, hdeleted, hfound]
    split
    · have hle := h.balance c
      have hsome : s'.world.commandOf name ≠ none := by simp [World.commandOf, hhave]
      obtain ⟨id, hid⟩ := Option.ne_none_iff_exists'.mp hsome
      simp [hid]
      omega
    · exact h.holding c

omit [DecidableEq ν] [CTCLObjectProcessor] [ChannelAccess] in
/-- When everything created was deleted, every client has deleted what it
created. -/
theorem nobody_holds {n : String} (hbalance : ∀ c, s.deleted c n ≤ s.created c n)
    (htotal : s.deletions n = s.creations n) (c : κ) : s.deleted c n = s.created c n :=
  count_eq_of_countP_eq hbalance htotal c

/-- `delete` counts one deletion of its name, which is registered because the
client's own balance is positive. -/
theorem nameInv_delete (hnames : s.world.PlainNames) (h : NameInv s name)
    (hok : s.MayDelete (client, .delete name))
    (hstep : s.step resolve (client, .delete name) = some s')
    (hbound : s'.log.length < 2 ^ 31) : NameInv s' name := by
  obtain ⟨hworld, hlog, hfound⟩ : s'.world = (s.world.run resolve (.delete name)).2 ∧
      s'.log = (client, .delete name) :: s.log ∧
      ∀ c, s'.found c name = if c = client ∧
        s.deleted client name + 1 = s.created client name then [] else s.found c name := by
    cases hstep
    exact ⟨rfl, rfl, fun c => by simp⟩
  have hcreated (c : κ) := Clients.created_cons hlog c name
  have hdeleted (c : κ) := Clients.deleted_cons hlog c name
  have hcreations := Clients.creations_cons hlog name
  have hdeletions := Clients.deletions_cons hlog name
  simp only [and_true, reduceCtorEq, and_false, if_true, if_false,
    Nat.add_zero] at hcreated hdeleted hcreations hdeletions
  rw [hlog, List.length_cons] at hbound
  have hmay : s.deleted client name < s.created client name := hok
  have hlt : s.deletions name < s.creations name := countP_lt_of_count_lt h.balance hok
  have hle := s.counts_le_length name
  obtain ⟨info, hinfo⟩ : ∃ info, s.world.haveChannel name = some info := by
    cases hname : s.world.haveChannel name with
    | none =>
      have := h.unregistered hname
      omega
    | some info => exact ⟨info, rfl⟩
  obtain ⟨hcount, -⟩ := h.registered info hinfo
  have hwrap : wrapInt (info.refcount - 1) = info.refcount - 1 :=
    wrapInt_of_lt (by omega) (by omega)
  have hhave := World.run_delete_haveChannel resolve hnames name name
  rw [← hworld, if_pos rfl, hinfo, Option.bind_some, hwrap] at hhave
  have hbalance : ∀ c, s'.deleted c name ≤ s'.created c name := by
    intro c
    rw [hcreated, hdeleted]
    split
    · next heq => exact heq ▸ hok
    · exact h.balance c
  constructor
  case balance => exact hbalance
  case unregistered =>
    intro hn
    rw [hhave] at hn
    split at hn
    · omega
    · cases hn
  case registered =>
    intro info' hn
    rw [hhave] at hn
    split at hn
    · cases hn
    · obtain rfl := Option.some.inj hn
      simp only
      omega
  case found =>
    intro c id hid
    have hid' : id ∈ s.found c name := by
      rw [hfound] at hid
      split at hid
      · cases hid
      · exact hid
    have hcommand := h.found c id hid'
    rw [commandOf_of_some hinfo] at hcommand
    rw [World.commandOf, hhave]
    split
    · -- the common balance is used up, so everybody's is, and nobody holds an object
      have hspent := nobody_holds hbalance (by omega) c
      have hheld : s.deleted c name < s.created c name :=
        (h.holding c).mp (List.ne_nil_of_mem hid')
      rw [hcreated, hdeleted] at hspent
      by_cases hc : c = client
      · subst hc
        rw [hfound, if_pos ⟨rfl, by simpa using hspent⟩] at hid
        cases hid
      · rw [if_neg hc] at hspent
        omega
    · exact hcommand
  case holding =>
    intro c
    have hold := h.holding c
    rw [hcreated, hdeleted, hfound]
    by_cases hc : c = client
    · subst hc
      simp only [true_and, if_true]
      by_cases hlast : s.deleted c name + 1 = s.created c name
      · simp [hlast]
      · rw [if_neg hlast, hold]
        omega
    · rw [if_neg hc, if_neg fun heq => hc heq.1]
      exact hold

theorem registryInv_create (hnames : s.world.PlainNames) (h : RegistryInv s)
    (hstep : s.step resolve (client, .epicschannel name) = some s')
    (hbound : s'.log.length < 2 ^ 31) : RegistryInv s' := by
  rw [registryInv_iff] at h ⊢
  intro n
  by_cases heq : n = name
  · subst heq
    exact nameInv_create (h n) hstep hbound
  · exact nameInv_other hnames (h n) (by simp [heq]) hstep

theorem registryInv_delete (hnames : s.world.PlainNames) (h : RegistryInv s)
    (hok : s.MayDelete (client, .delete name))
    (hstep : s.step resolve (client, .delete name) = some s')
    (hbound : s'.log.length < 2 ^ 31) : RegistryInv s' := by
  rw [registryInv_iff] at h ⊢
  intro n
  by_cases heq : n = name
  · subst heq
    exact nameInv_delete hnames (h n) hok hstep hbound
  · exact nameInv_other hnames (h n) (by simp [heq]) hstep

end Steps

/-! ## What clients can rely on -/

/-- What clients can rely on in a state. -/
structure RegistryFacts (resolve : String → ν) (s : Clients κ ν) : Prop where
  registered : ∀ n, (s.world.haveChannel n).isSome ↔ s.deletions n < s.creations n
  refcount : ∀ n info, s.world.haveChannel n = some info →
    info.refcount = (s.creations n : Int) - s.deletions n ∧ 1 ≤ info.refcount
  held : ∀ c n, s.deleted c n < s.created c n → ∃ info, s.world.haveChannel n = some info ∧
    (∃ object, s.world.objects info.pChannel = some object) ∧
    s.found c n ≠ [] ∧ ∀ id ∈ s.found c n, id = info.pChannel
  balanced : (∀ c n, s.deleted c n = s.created c n) → s.world.channelInfo = ∅
  unregistered : ∀ n, s.world.haveChannel n = none → s.world.deleteChannel resolve n = s.world

omit [CTCLObjectProcessor] [ChannelAccess] in
theorem registryFacts {s : Clients κ ν} (inv : WorldInv resolve s.world) (h : RegistryInv s) :
    RegistryFacts resolve s where
  registered := by
    intro n
    cases hn : s.world.haveChannel n with
    | none => simp [h.unregistered n hn]
    | some info => simpa using (h.registered n info hn).2
  refcount := by
    intro n info hn
    obtain ⟨hcount, hlt⟩ := h.registered n info hn
    omega
  held := by
    intro c n hlt
    have hne := (h.holding c n).mpr hlt
    obtain ⟨id, hid⟩ := List.exists_mem_of_ne_nil _ hne
    obtain ⟨info, hinfo, rfl⟩ := Option.map_eq_some_iff.mp (h.found c n id hid)
    obtain ⟨object, hobject, -⟩ := inv.lookup hinfo
    refine ⟨info, hinfo, ⟨object, hobject⟩, hne, fun id' hid' => ?_⟩
    have := h.found c n id' hid'
    rw [commandOf_of_some hinfo] at this
    exact (Option.some.inj this).symm
  balanced := by
    intro heq
    have hnone : ∀ n, s.world.channelInfo.lookup n = none := by
      intro n
      cases hn : s.world.channelInfo.lookup n with
      | none => rfl
      | some info =>
        have hlt := (h.registered n info hn).2
        have htotal : s.deletions n = s.creations n := countP_eq_of_count_eq fun c => heq c n
        omega
    refine AList.ext (List.eq_nil_iff_forall_not_mem.mpr ?_)
    rintro ⟨n, info⟩ hmem
    have := AList.mem_lookup_iff.mpr hmem
    rw [hnone] at this
    cases this
  unregistered := fun n hn => World.deleteChannel_unregistered hn

/-- **Clients cannot pull a channel from under each other**, over all
interleavings of fewer than 2^31 commands on plain names. -/
theorem registry_shared {vars : ν → Option String} {as : List (κ × RegistryCommand)}
    {s : Clients κ ν}
    (hrun : Run (Clients.step resolve) Clients.MayUse { world := World.initial vars } as s)
    (hbound : s.log.length < 2 ^ 31) : RegistryFacts resolve s := by
  have hinv : WorldInv resolve s.world ∧ s.world.PlainNames ∧
      (s.log.length < 2 ^ 31 → RegistryInv s) := by
    refine hrun.invariant (fun s => WorldInv resolve s.world ∧ s.world.PlainNames ∧
        (s.log.length < 2 ^ 31 → RegistryInv s))
      ⟨WorldInv.initial vars, fun n hn => ?_, fun _ => ⟨?_, ?_, ?_, ?_, ?_⟩⟩ ?_
    · cases hn
    · intro c n; exact Nat.le_refl _
    · intro n _; rfl
    · intro n info hn; cases hn
    · intro c n id hid; cases hid
    · intro c n
      simp [Clients.deleted, Clients.created]
    · rintro s ⟨client, cmd⟩ s' ⟨inv, hnames, hreg⟩ ⟨hok, hplain⟩ hstep
      cases cmd with
      | epicschannel name =>
        have hlog : s'.log.length = s.log.length + 1 := by cases hstep; rfl
        have hname : TclCommand.PlainCreation (.epicschannel name) := hplain name rfl
        refine ⟨by cases hstep; exact inv.run _,
          by cases hstep; exact inv.plainNames_run hnames hname, fun hlt => ?_⟩
        exact registryInv_create hnames (hreg (by omega)) hstep hlt
      | delete name =>
        have hlog : s'.log.length = s.log.length + 1 := by cases hstep; rfl
        have hname : TclCommand.PlainCreation (.delete name) := trivial
        refine ⟨by cases hstep; exact inv.run _,
          by cases hstep; exact inv.plainNames_run hnames hname, fun hlt => ?_⟩
        exact registryInv_delete hnames (hreg (by omega)) hok hstep hlt
  exact registryFacts hinv.1 (hinv.2.2 hbound)

end

/-! ## Two runs -/

section

attribute [local instance] CTCLObjectProcessor.global ChannelAccess.numbering

/-- Two clients share a channel; the name is deleted, and created again for
a new object. -/
theorem registry_shared_two :
    ∃ s : Clients Nat String, RegistryFacts id s ∧ s.found 1 "a" = [1] ∧ s.created 0 "a" = 1 := by
  have hrun : Run (Clients.step id) Clients.MayUse { world := World.initial fun _ => none }
      [((0 : Nat), .epicschannel "a"), (1, .epicschannel "a"), (0, .delete "a"),
        (1, .delete "a"), (1, .epicschannel "a")] _ := run_of_runChecked _ rfl
  exact ⟨_, registry_shared hrun (by decide), by decide, by decide⟩

end

section

attribute [local instance] CTCLObjectProcessor.nested ChannelAccess.numbering

/-- One client creates and deletes `A::B`, another one holds `B`: `A::B` stays
registered, and `B` is gone. -/
theorem qualified_name_never_deleted :
    ∃ s : Clients Nat String,
      Run (Clients.step id) Clients.MayDelete { world := World.initial fun _ => none }
        [((0 : Nat), .epicschannel "A::B"), (1, .epicschannel "B"), (0, .delete "A::B")] s ∧
      s.log.length < 2 ^ 31 ∧ s.deleted 0 "A::B" = s.created 0 "A::B" ∧
      (s.world.haveChannel "A::B").isSome ∧ s.deleted 1 "B" < s.created 1 "B" ∧
      s.world.haveChannel "B" = none ∧ ¬ RegistryFacts id s := by
  refine ⟨_, run_of_runChecked _ rfl, by decide, by decide, by decide, by decide, by decide,
    fun h => ?_⟩
  obtain ⟨info, hinfo, -⟩ := h.held 1 "B" (by decide)
  revert hinfo
  decide +revert

end

end EpicsTcl.Command
