/-
EpicsTcl.Command.LinkTheorems — the link table counts links.

`Audit` runs the process next to a ledger: for every channel name and
variable name, the successful `link`s less the successful `unlink`s since
`epicschannel` last made a command for that channel name. `LedgerInv` says
that the table holds what the ledger says, as long as fewer than 2^31
commands were run, so that no reference count wraps around.

`link_table` collects what a user of the package sees: the shape of the
lists, their counts, the notification slot, the result of `listlinks`, and
that the last `delete` of a channel makes its variables free.
-/
import EpicsTcl.Command.LinkTable
import EpicsTcl.Command.StepEffects

namespace EpicsTcl.Command

open EpicsTcl.Channel EpicsTcl.Library

/-! ## The set that `listlinks` builds -/

theorem mem_setInsert {s : List String} {x y : String} :
    y ∈ setInsert s x ↔ y ∈ s ∨ y = x := by
  unfold setInsert
  split
  · next h =>
    constructor
    · exact .inl
    · rintro (hy | rfl)
      · exact hy
      · exact h
  · rw [List.mem_orderedInsert]
    exact or_comm

theorem setInsert_sorted {s : List String} (h : s.Pairwise (· < ·)) (x : String) :
    (setInsert s x).Pairwise (· < ·) := by
  unfold setInsert
  split
  · exact h
  · next hx =>
    have hle : (s.orderedInsert (· ≤ ·) x).Pairwise (· ≤ ·) :=
      List.Pairwise.orderedInsert x s (h.imp le_of_lt)
    have hne : (s.orderedInsert (· ≤ ·) x).Pairwise (· ≠ ·) :=
      ((List.perm_orderedInsert _ x s).nodup_iff).mpr
        (List.nodup_cons.mpr ⟨hx, h.imp ne_of_lt⟩)
    exact (hle.and hne).imp fun ⟨h₁, h₂⟩ => lt_of_le_of_ne h₁ h₂

/-- Inserting all elements of a list: sorted, and with the same elements. -/
theorem foldl_setInsert (l : List String) {s : List String} (h : s.Pairwise (· < ·)) :
    (l.foldl setInsert s).Pairwise (· < ·) ∧ ∀ y, y ∈ l.foldl setInsert s ↔ y ∈ s ∨ y ∈ l := by
  induction l generalizing s with
  | nil => exact ⟨h, by simp⟩
  | cons x l ih =>
    obtain ⟨hsorted, hmem⟩ := ih (setInsert_sorted h x)
    refine ⟨hsorted, fun y => ?_⟩
    rw [List.foldl_cons, hmem, mem_setInsert, List.mem_cons, or_assoc]

/-- What `listlinks` without a pattern lists. -/
theorem matchingLinks_star (c : CTCLChannelCommand) :
    (World.matchingLinks "*" c).Pairwise (· < ·) ∧
      ∀ u, u ∈ World.matchingLinks "*" c ↔ ∃ i ∈ c.linkedVariables, i.varname = u := by
  obtain ⟨hsorted, hmem⟩ := foldl_setInsert
    ((c.linkedVariables.map (·.varname)).filter (globMatch "*")) List.Pairwise.nil
  refine ⟨hsorted, fun u => ?_⟩
  rw [World.matchingLinks, hmem]
  simp [globMatch_star]

/-! ## The ledger -/

section

variable {ν : Type*} [DecidableEq ν] [CTCLObjectProcessor] [ChannelAccess] {resolve : String → ν}

/-- Add to one entry of a ledger. -/
def credit (name varname : String) (k : Int) (ledger : String → String → Int) :
    String → String → Int :=
  fun n u => if n = name ∧ u = varname then ledger n u + k else ledger n u

/-- The process, the ledger, the `epicschannel`s of each name less the
`delete`s that found it registered, and the number of commands run,
`listlinks` aside. -/
structure Audit (ν : Type*) where
  world : World ν
  ledger : String → String → Int := fun _ _ => 0
  references : String → Int := fun _ => 0
  commands : Nat := 0

namespace Audit

variable (resolve) in
/-- The ledger after an action. -/
def ledgerAfter (s : Audit ν) : Action → String → String → Int
  | .command (.epicschannel name) =>
    if s.world.haveChannel name = none then Function.update s.ledger name fun _ => 0
    else s.ledger
  | .command (.link name varname) =>
    if (s.world.run resolve (.link name varname)).1 = .ok then credit name varname 1 s.ledger
    else s.ledger
  | .command (.unlink name varname) =>
    if (s.world.run resolve (.unlink name varname)).1 = .ok then
      credit name varname (-1) s.ledger
    else s.ledger
  | _ => s.ledger

/-- The references after an action. -/
def referencesAfter (s : Audit ν) : Action → String → Int
  | .command (.epicschannel name) => Function.update s.references name (s.references name + 1)
  | .command (.delete name) =>
    if (s.world.haveChannel name).isSome then
      Function.update s.references name (s.references name - 1)
    else s.references
  | _ => s.references

/-- The commands run after an action. -/
def commandsAfter (s : Audit ν) : Action → Nat
  | .command (.listlinks _) => s.commands
  | .command _ => s.commands + 1
  | _ => s.commands

variable (resolve) in
def step (s : Audit ν) (a : Action) : Option (Audit ν) :=
  (s.world.step resolve a).map fun world =>
    { world
      ledger := s.ledgerAfter resolve a
      references := s.referencesAfter a
      commands := s.commandsAfter a }

end Audit

/-- The table holds what the ledger says; every count is at least 1 and at
most the number of commands. -/
structure LedgerInv (s : Audit ν) : Prop where
  ledger : ∀ n u, (s.world.haveChannel n).isSome →
    s.ledger n u = ((s.world.linkCount n u).getD 0 : Nat)
  count : ∀ n u k, s.world.linkCount n u = some k → 1 ≤ k ∧ k ≤ s.commands

/-- A name is registered as long as there are references to it, and its count
is their number. -/
structure ReferenceInv (s : Audit ν) : Prop where
  refcount : ∀ n, (s.world.haveChannel n).map (·.refcount) =
    if s.references n = 0 then none else some (s.references n)
  range : ∀ n, 0 ≤ s.references n ∧ s.references n ≤ s.commands

omit [DecidableEq ν] [CTCLObjectProcessor] [ChannelAccess] in
theorem commands_le_commandsAfter (s : Audit ν) (a : Action) : s.commands ≤ s.commandsAfter a := by
  unfold Audit.commandsAfter
  split <;> omega

omit [DecidableEq ν] [CTCLObjectProcessor] [ChannelAccess] in
theorem linkCount_registered {w : World ν} {n u : String} (h : (w.linkCount n u).isSome) :
    (w.haveChannel n).isSome := by
  cases hn : w.haveChannel n with
  | none => simp [World.linkCount, World.objectOf, World.commandOf, hn] at h
  | some _ => rfl

omit [DecidableEq ν] [CTCLObjectProcessor] [ChannelAccess] in
/-- What leaves registered names, table and ledger alone keeps the
invariant. -/
theorem LedgerInv.congr {s s' : Audit ν} (h : LedgerInv s)
    (hreg : ∀ n, (s'.world.haveChannel n).isSome → (s.world.haveChannel n).isSome)
    (htable : ∀ n u, s'.world.linkCount n u = s.world.linkCount n u)
    (hledger : s'.ledger = s.ledger) (hcommands : s.commands ≤ s'.commands) : LedgerInv s' where
  ledger := by
    intro n u hn
    rw [hledger, htable]
    exact h.ledger n u (hreg n hn)
  count := by
    intro n u k hk
    rw [htable] at hk
    have := h.count n u k hk
    omega

omit [CTCLObjectProcessor] [ChannelAccess] in
theorem countLinked_eq {o : Option Nat} (h : o.getD 0 + 1 < 2 ^ 32) :
    countLinked o = o.getD 0 + 1 := by
  cases o with
  | none => rfl
  | some k => exact Nat.mod_eq_of_lt h

omit [CTCLObjectProcessor] [ChannelAccess] in
theorem countUnlinked_eq {k : Nat} (h : 1 ≤ k) :
    countUnlinked k = if k = 1 then none else some (k - 1) := by
  unfold countUnlinked
  by_cases hk : k = 1
  · simp [hk]
  · rw [if_neg hk, if_neg (by omega : k ≠ 0)]
    exact if_neg (by omega)

omit [DecidableEq ν] [CTCLObjectProcessor] [ChannelAccess] in
theorem LedgerInv.le {s : Audit ν} (h : LedgerInv s) (n u : String) :
    (s.world.linkCount n u).getD 0 ≤ s.commands := by
  cases hk : s.world.linkCount n u with
  | none => exact Nat.zero_le _
  | some k => exact (h.count n u k hk).2

theorem ledgerInv_link {s s' : Audit ν} (inv : WorldInv resolve s.world) (h : LedgerInv s)
    {name varname : String} (hstep : s.step resolve (.command (.link name varname)) = some s')
    (hbound : s'.commands < 2 ^ 31) : LedgerInv s' := by
  cases hstep
  have hquiet := inv.run_quiet (.link name varname) (by simp) (by simp)
  have hcommands : s.commands + 1 < 2 ^ 31 := hbound
  rcases inv.run_link_cases name varname with ⟨herr, -, hsame⟩ | ⟨hok, -, -, hcount⟩
  · refine h.congr (fun n hn => ?_) hsame ?_ (Nat.le_succ _)
    · rw [← hquiet.haveChannel n]
      exact hn
    · simp [Audit.ledgerAfter, herr]
  · have hle := h.le name varname
    have hlinked := countLinked_eq (o := s.world.linkCount name varname) (by omega)
    have hledger : s.ledgerAfter resolve (.command (.link name varname)) =
        credit name varname 1 s.ledger := by
      simp [Audit.ledgerAfter, hok]
    constructor
    case ledger =>
      intro n u hn
      have hold := h.ledger n u (by rw [← hquiet.haveChannel n]; exact hn)
      show s.ledgerAfter resolve (.command (.link name varname)) n u =
        (((s.world.run resolve (.link name varname)).2.linkCount n u).getD 0 : Nat)
      rw [hledger, hcount, credit]
      by_cases heq : n = name ∧ u = varname
      · obtain ⟨rfl, rfl⟩ := heq
        simp [hold, hlinked]
      · rw [if_neg heq, if_neg heq, hold]
    case count =>
      intro n u k hk
      rw [hcount] at hk
      show 1 ≤ k ∧ k ≤ s.commands + 1
      by_cases heq : n = name ∧ u = varname
      · rw [if_pos heq] at hk
        obtain rfl := Option.some.inj hk
        omega
      · rw [if_neg heq] at hk
        have := h.count n u k hk
        omega

theorem ledgerInv_unlink {s s' : Audit ν} (inv : WorldInv resolve s.world) (h : LedgerInv s)
    {name varname : String} (hstep : s.step resolve (.command (.unlink name varname)) = some s') :
    LedgerInv s' := by
  cases hstep
  have hquiet := inv.run_quiet (.unlink name varname) (by simp) (by simp)
  rcases inv.run_unlink_cases name varname with ⟨herr, -, hsame⟩ | ⟨hok, k, hk, hcount⟩
  · refine h.congr (fun n hn => ?_) hsame ?_ (Nat.le_succ _)
    · rw [← hquiet.haveChannel n]
      exact hn
    · simp [Audit.ledgerAfter, herr]
  · have hpos := h.count name varname k hk
    have hunlinked := countUnlinked_eq hpos.1
    have hledger : s.ledgerAfter resolve (.command (.unlink name varname)) =
        credit name varname (-1) s.ledger := by
      simp [Audit.ledgerAfter, hok]
    constructor
    case ledger =>
      intro n u hn
      have hold := h.ledger n u (by rw [← hquiet.haveChannel n]; exact hn)
      show s.ledgerAfter resolve (.command (.unlink name varname)) n u =
        (((s.world.run resolve (.unlink name varname)).2.linkCount n u).getD 0 : Nat)
      rw [hledger, hcount, credit]
      by_cases heq : n = name ∧ u = varname
      · obtain ⟨rfl, rfl⟩ := heq
        rw [if_pos ⟨rfl, rfl⟩, if_pos ⟨rfl, rfl⟩, hold, hk, hunlinked]
        split
        · next hone => simp [hone]
        · simp only [Option.getD_some]
          omega
      · rw [if_neg heq, if_neg heq, hold]
    case count =>
      intro n u k' hk'
      rw [hcount] at hk'
      show 1 ≤ k' ∧ k' ≤ s.commands + 1
      by_cases heq : n = name ∧ u = varname
      · rw [if_pos heq, hunlinked] at hk'
        split at hk'
        · cases hk'
        · obtain rfl := Option.some.inj hk'
          omega
      · rw [if_neg heq] at hk'
        have := h.count n u k' hk'
        omega

theorem ledgerInv_delete {s s' : Audit ν} (inv : WorldInv resolve s.world)
    (hnames : s.world.PlainNames) (h : LedgerInv s) {name : String}
    (hstep : s.step resolve (.command (.delete name)) = some s') : LedgerInv s' := by
  cases hstep
  have hrun := World.run_delete resolve hnames name
  have hreg : ∀ n, ((s.world.run resolve (.delete name)).2.haveChannel n).isSome →
      (s.world.haveChannel n).isSome := by
    intro n hn
    rw [hrun] at hn
    obtain ⟨hkept, -, -⟩ := inv.deleteChannel_registry name
    obtain ⟨info, hinfo⟩ := Option.isSome_iff_exists.mp hn
    have hold := hkept n info.pChannel (by simp [World.commandOf, hinfo])
    obtain ⟨info', hinfo', -⟩ := Option.map_eq_some_iff.mp hold
    rw [hinfo']
    rfl
  have hcases := inv.deleteChannel_linkCount name
  rw [← hrun] at hcases
  rcases hcases with ⟨-, hsame⟩ | ⟨-, hgone, hcount⟩
  · exact h.congr hreg hsame rfl (Nat.le_succ _)
  · constructor
    case ledger =>
      intro n u hn
      have hne : n ≠ name := by
        rintro rfl
        rw [show _ = none from hgone] at hn
        cases hn
      show s.ledger n u = (((s.world.run resolve (.delete name)).2.linkCount n u).getD 0 : Nat)
      rw [hcount, if_neg hne]
      exact h.ledger n u (hreg n hn)
    case count =>
      intro n u k hk
      rw [hcount] at hk
      show 1 ≤ k ∧ k ≤ s.commands + 1
      by_cases hn : n = name
      · simp [hn] at hk
      · rw [if_neg hn] at hk
        have := h.count n u k hk
        omega

theorem ledgerInv_epicschannel {s s' : Audit ν} (inv : WorldInv resolve s.world)
    (h : LedgerInv s) {name : String}
    (hstep : s.step resolve (.command (.epicschannel name)) = some s') : LedgerInv s' := by
  cases hstep
  have htable := inv.run_epicschannel_linkCount name
  cases hname : s.world.haveChannel name with
  | some info =>
    refine h.congr (fun n hn => ?_) htable ?_ (Nat.le_succ _)
    · rw [World.run_epicschannel_registered hname] at hn
      by_cases heq : n = name
      · simp [heq, hname]
      · rw [World.haveChannel_insert, if_neg heq] at hn
        exact hn
    · simp [Audit.ledgerAfter, hname]
  | none =>
    constructor
    case ledger =>
      intro n u hn
      show s.ledgerAfter resolve (.command (.epicschannel name)) n u =
        (((s.world.run resolve (.epicschannel name)).2.linkCount n u).getD 0 : Nat)
      rw [htable]
      by_cases heq : n = name
      · subst heq
        have hnone : s.world.linkCount n u = none := by
          by_contra hne
          have := linkCount_registered (Option.isSome_iff_ne_none.mpr hne)
          rw [hname] at this
          cases this
        simp [Audit.ledgerAfter, hname, hnone]
      · have hold : (s.world.haveChannel n).isSome := by
          rw [World.run_epicschannel_new hname] at hn
          have hinsert := World.haveChannel_insert s.world n name ⟨1, s.world.nextObject⟩
          rw [if_neg heq] at hinsert
          rw [← hinsert]
          exact hn
        simp [Audit.ledgerAfter, hname, heq, h.ledger n u hold]
    case count =>
      intro n u k hk
      rw [htable] at hk
      show 1 ≤ k ∧ k ≤ s.commands + 1
      have := h.count n u k hk
      omega

/-- **One step keeps table and ledger together.** -/
theorem ledgerInv_step {s s' : Audit ν} {a : Action} (inv : WorldInv resolve s.world)
    (hnames : s.world.PlainNames) (h : LedgerInv s) (hstep : s.step resolve a = some s')
    (hbound : s'.commands < 2 ^ 31) :
    LedgerInv s' := by
  by_cases hlink : ∃ name varname, a = .command (.link name varname)
  · obtain ⟨name, varname, rfl⟩ := hlink
    exact ledgerInv_link inv h hstep hbound
  by_cases hunlink : ∃ name varname, a = .command (.unlink name varname)
  · obtain ⟨name, varname, rfl⟩ := hunlink
    exact ledgerInv_unlink inv h hstep
  by_cases hdelete : ∃ name, a = .command (.delete name)
  · obtain ⟨name, rfl⟩ := hdelete
    exact ledgerInv_delete inv hnames h hstep
  by_cases hnew : ∃ name, a = .command (.epicschannel name)
  · obtain ⟨name, rfl⟩ := hnew
    exact ledgerInv_epicschannel inv h hstep
  · obtain ⟨world, hworld, rfl⟩ := Option.map_eq_some_iff.mp hstep
    obtain ⟨hinfo, -, -⟩ := inv.step_other (fun n heq => hnew ⟨n, heq⟩)
      (fun n heq => hdelete ⟨n, heq⟩) hworld
    refine h.congr (fun n hn => ?_) ?_ ?_ (commands_le_commandsAfter s a)
    · rwa [World.haveChannel, hinfo] at hn
    · exact inv.step_linkCount hworld (fun n u heq => hlink ⟨n, u, heq⟩)
        (fun n u heq => hunlink ⟨n, u, heq⟩) fun n heq => hdelete ⟨n, heq⟩
    · show s.ledgerAfter resolve a = s.ledger
      unfold Audit.ledgerAfter
      split
      · exact absurd ⟨_, rfl⟩ hnew
      · exact absurd ⟨_, _, rfl⟩ hlink
      · exact absurd ⟨_, _, rfl⟩ hunlink
      · rfl

omit [DecidableEq ν] [CTCLObjectProcessor] [ChannelAccess] in
/-- Only the references to one name change. -/
theorem ReferenceInv.change {s s' : Audit ν} (h : ReferenceInv s) (name : String)
    (hle : s.commands ≤ s'.commands)
    (hothers : ∀ n, n ≠ name → s'.references n = s.references n ∧
      s'.world.haveChannel n = s.world.haveChannel n)
    (hrefcount : (s'.world.haveChannel name).map (·.refcount) =
      if s'.references name = 0 then none else some (s'.references name))
    (hrange : 0 ≤ s'.references name ∧ s'.references name ≤ s'.commands) : ReferenceInv s' := by
  constructor
  case refcount =>
    intro n
    by_cases hn : n = name
    · rw [hn]
      exact hrefcount
    · rw [(hothers n hn).1, (hothers n hn).2]
      exact h.refcount n
  case range =>
    intro n
    by_cases hn : n = name
    · rw [hn]
      exact hrange
    · rw [(hothers n hn).1]
      have := h.range n
      omega

omit [DecidableEq ν] [CTCLObjectProcessor] [ChannelAccess] in
theorem ReferenceInv.unregistered {s : Audit ν} (h : ReferenceInv s) {name : String}
    (hname : s.world.haveChannel name = none) : s.references name = 0 := by
  have hold := h.refcount name
  by_contra hne
  simp [hname, hne] at hold

omit [DecidableEq ν] [CTCLObjectProcessor] [ChannelAccess] in
theorem ReferenceInv.registered {s : Audit ν} (h : ReferenceInv s) {name : String}
    {info : RefCountedChannel} (hname : s.world.haveChannel name = some info) :
    info.refcount = s.references name ∧ s.references name ≠ 0 := by
  have hold := h.refcount name
  have hne : s.references name ≠ 0 := fun hzero => by simp [hname, hzero] at hold
  exact ⟨by simpa [hname, hne] using hold, hne⟩

/-- One more reference. -/
theorem referenceInv_epicschannel {s s' : Audit ν} (h : ReferenceInv s) {name : String}
    (hstep : s.step resolve (.command (.epicschannel name)) = some s')
    (hbound : s'.commands < 2 ^ 31) : ReferenceInv s' := by
  cases hstep
  have hrange := h.range name
  have hcommands : s.commands + 1 < 2 ^ 31 := hbound
  have hmore : s.referencesAfter (.command (.epicschannel name)) name =
      s.references name + 1 := Function.update_self ..
  refine h.change name (Nat.le_succ _) ?_ ?_ ?_
  · intro n hn
    exact ⟨Function.update_of_ne hn _ _,
      (World.run_epicschannel_haveChannel resolve s.world name n).trans (if_neg hn)⟩
  · have hne : s.references name + 1 ≠ 0 := by omega
    show ((s.world.run resolve (.epicschannel name)).2.haveChannel name).map (·.refcount) =
      if s.referencesAfter (.command (.epicschannel name)) name = 0 then none
      else some (s.referencesAfter (.command (.epicschannel name)) name)
    rw [World.run_epicschannel_haveChannel, if_pos rfl, hmore, if_neg hne, Option.map_some]
    cases hname : s.world.haveChannel name with
    | none => simp [h.unregistered hname]
    | some info =>
      have hwrap : wrapInt (s.references name + 1) = s.references name + 1 :=
        wrapInt_of_lt (by omega) (by omega)
      simp [(h.registered hname).1, hwrap]
  · show 0 ≤ s.referencesAfter (.command (.epicschannel name)) name ∧
      s.referencesAfter (.command (.epicschannel name)) name ≤ ((s.commands + 1 : Nat) : Int)
    rw [hmore]
    omega

/-- One reference less. -/
theorem referenceInv_delete {s s' : Audit ν} (hnames : s.world.PlainNames) (h : ReferenceInv s)
    {name : String} (hstep : s.step resolve (.command (.delete name)) = some s')
    (hbound : s'.commands < 2 ^ 31) : ReferenceInv s' := by
  cases hstep
  have hcommands : s.commands + 1 < 2 ^ 31 := hbound
  have hhave := fun n => World.run_delete_haveChannel resolve hnames name n
  cases hname : s.world.haveChannel name with
  | none =>
    have hafter : s.referencesAfter (.command (.delete name)) = s.references := by
      simp [Audit.referencesAfter, hname]
    have hzero : s.referencesAfter (.command (.delete name)) name = 0 :=
      (congrFun hafter name).trans (h.unregistered hname)
    refine h.change name (Nat.le_succ _) (fun n hn => ?_) ?_ ?_
    · exact ⟨congrFun hafter n, (hhave n).trans (if_neg hn)⟩
    · show ((s.world.run resolve (.delete name)).2.haveChannel name).map (·.refcount) =
        if s.referencesAfter (.command (.delete name)) name = 0 then none
        else some (s.referencesAfter (.command (.delete name)) name)
      rw [hhave, if_pos rfl, hname, if_pos hzero]
      rfl
    · show 0 ≤ s.referencesAfter (.command (.delete name)) name ∧
        s.referencesAfter (.command (.delete name)) name ≤ ((s.commands + 1 : Nat) : Int)
      rw [hzero]
      omega
  | some info =>
    have hrange := h.range name
    obtain ⟨hcount, hne⟩ := h.registered hname
    have hwrap : wrapInt (info.refcount - 1) = info.refcount - 1 :=
      wrapInt_of_lt (by omega) (by omega)
    have hafter : s.referencesAfter (.command (.delete name)) =
        Function.update s.references name (s.references name - 1) := by
      simp [Audit.referencesAfter, hname]
    have hless : s.referencesAfter (.command (.delete name)) name = s.references name - 1 := by
      rw [hafter, Function.update_self]
    refine h.change name (Nat.le_succ _) (fun n hn => ?_) ?_ ?_
    · exact ⟨(congrFun hafter n).trans (Function.update_of_ne hn _ _),
        (hhave n).trans (if_neg hn)⟩
    · show ((s.world.run resolve (.delete name)).2.haveChannel name).map (·.refcount) =
        if s.referencesAfter (.command (.delete name)) name = 0 then none
        else some (s.referencesAfter (.command (.delete name)) name)
      rw [hhave, if_pos rfl, hname, Option.bind_some, hwrap, hcount, hless]
      by_cases hlast : s.references name - 1 = 0
      · simp [hlast]
      · simp [hlast]
    · show 0 ≤ s.referencesAfter (.command (.delete name)) name ∧
        s.referencesAfter (.command (.delete name)) name ≤ ((s.commands + 1 : Nat) : Int)
      rw [hless]
      omega

/-- **One step keeps the counts of the references.** -/
theorem referenceInv_step {s s' : Audit ν} {a : Action} (inv : WorldInv resolve s.world)
    (hnames : s.world.PlainNames) (h : ReferenceInv s) (hstep : s.step resolve a = some s')
    (hbound : s'.commands < 2 ^ 31) : ReferenceInv s' := by
  by_cases hdelete : ∃ name, a = .command (.delete name)
  · obtain ⟨name, rfl⟩ := hdelete
    exact referenceInv_delete hnames h hstep hbound
  by_cases hnew : ∃ name, a = .command (.epicschannel name)
  · obtain ⟨name, rfl⟩ := hnew
    exact referenceInv_epicschannel h hstep hbound
  · obtain ⟨world, hworld, rfl⟩ := Option.map_eq_some_iff.mp hstep
    obtain ⟨hinfo, -, -⟩ := inv.step_other (fun n heq => hnew ⟨n, heq⟩)
      (fun n heq => hdelete ⟨n, heq⟩) hworld
    have hsame : s.referencesAfter a = s.references := by
      unfold Audit.referencesAfter
      split
      · exact absurd ⟨_, rfl⟩ hnew
      · exact absurd ⟨_, rfl⟩ hdelete
      · rfl
    have hle := commands_le_commandsAfter s a
    constructor
    case refcount =>
      intro n
      show (world.haveChannel n).map (·.refcount) = if s.referencesAfter a n = 0 then none
        else some (s.referencesAfter a n)
      rw [World.haveChannel, hinfo, hsame]
      exact h.refcount n
    case range =>
      intro n
      have := h.range n
      show 0 ≤ s.referencesAfter a n ∧ s.referencesAfter a n ≤ (s.commandsAfter a : Int)
      rw [hsame]
      omega

/-! ## What a run guarantees -/

/-- The list of one registered channel, and what `listlinks` says of it. -/
structure ChannelFacts (resolve : String → ν) (s : Audit ν) (name : String) (id : CommandId)
    (c : CTCLChannelCommand) : Prop where
  nodup : (c.linkedVariables.map (·.varname)).Nodup
  count : ∀ i ∈ c.linkedVariables,
    (i.pLinkedVar.referenceCount : Int) = s.ledger name i.varname ∧
      1 ≤ i.pLinkedVar.referenceCount
  slot : c.pChannel.pHandler = if c.linkedVariables = [] then none else some id
  listlinks : ∃ l, s.world.run resolve (.listlinks name) =
      (.ok, s.world.setResult (.list l)) ∧ l.Pairwise (· < ·) ∧
    ∀ u, u ∈ l ↔ 0 < s.ledger name u

/-- The link table of a state. A `delete` of a name with one reference left is
the last one. -/
structure LinkFacts (resolve : String → ν) (s : Audit ν) : Prop where
  channel : ∀ name info, s.world.haveChannel name = some info →
    ∃ c, s.world.objects info.pChannel = some c ∧ ChannelFacts resolve s name info.pChannel c
  exclusive : ∀ name info c name' info' c', s.world.haveChannel name = some info →
    s.world.objects info.pChannel = some c → s.world.haveChannel name' = some info' →
    s.world.objects info'.pChannel = some c' →
    ∀ i ∈ c.linkedVariables, ∀ i' ∈ c'.linkedVariables, i.varname = i'.varname → name = name'
  freed : ∀ name, s.references name = 1 →
    (s.world.run resolve (.delete name)).2.haveChannel name = none ∧
      ∀ name' u, (s.world.linkCount name u).isSome →
        ((s.world.run resolve (.delete name)).2.haveChannel name').isSome →
        ((s.world.run resolve (.delete name)).2.run resolve (.link name' u)).1 = .ok

theorem channelFacts {s : Audit ν} (inv : WorldInv resolve s.world) (h : LedgerInv s)
    {name : String} {info : RefCountedChannel} {c : CTCLChannelCommand}
    (hname : s.world.haveChannel name = some info)
    (hc : s.world.objects info.pChannel = some c) :
    ChannelFacts resolve s name info.pChannel c := by
  have hobject := World.objectOf_registered hname hc
  have hledger := fun u => h.ledger name u (by rw [hname]; rfl)
  constructor
  case nodup => exact inv.nodup _ _ hc
  case count =>
    intro i hi
    have hfind : (c.find i.varname).isSome := CTCLChannelCommand.find_isSome_iff.mpr ⟨i, hi, rfl⟩
    obtain ⟨j, hj⟩ := Option.isSome_iff_exists.mp hfind
    obtain ⟨hjmem, hjname⟩ := CTCLChannelCommand.find_some hj
    obtain rfl : j = i := List.inj_on_of_nodup_map (inv.nodup _ _ hc) hjmem hi hjname
    have hcount : s.world.linkCount name j.varname = some j.pLinkedVar.referenceCount := by
      rw [World.linkCount_of_object hobject, hj]
      rfl
    exact ⟨by rw [hledger, hcount]; rfl, (h.count _ _ _ hcount).1⟩
  case slot => exact inv.slot _ _ hc
  case listlinks =>
    obtain ⟨hsorted, hmem⟩ := matchingLinks_star c
    refine ⟨_, World.run_listlinks hname hc, hsorted, fun u => ?_⟩
    rw [hmem, hledger, ← CTCLChannelCommand.find_isSome_iff]
    have htable := World.linkCount_of_object hobject u
    cases hfind : c.find u with
    | none => simp [htable, hfind]
    | some i =>
      have hcount : s.world.linkCount name u = some i.pLinkedVar.referenceCount := by
        rw [htable, hfind]
        rfl
      have hpos := (h.count _ _ _ hcount).1
      rw [hcount]
      simp only [Option.isSome_some, Option.getD_some, true_iff]
      omega

/-- After the last `delete` of a channel its variables can be linked. -/
theorem link_after_delete {w : World ν} (inv : WorldInv resolve w) (hnames : w.PlainNames)
    {name name' u : String} (hu : (w.linkCount name u).isSome)
    (hgone : (w.run resolve (.delete name)).2.haveChannel name = none)
    (hname' : ((w.run resolve (.delete name)).2.haveChannel name').isSome) :
    ((w.run resolve (.delete name)).2.run resolve (.link name' u)).1 = .ok := by
  have hcases := inv.deleteChannel_linkCount name
  rw [← World.run_delete resolve hnames] at hcases
  rcases (inv.run (.delete name)).run_link_cases name' u with ⟨-, hblocked, -⟩ | ⟨hok, -⟩
  · obtain ⟨n, -, hn⟩ := hblocked hname'
    rcases hcases with ⟨-, hsame⟩ | ⟨-, -, hcount⟩
    · rw [hsame] at hn
      obtain rfl := inv.linkCount_unique hn hu
      have := linkCount_registered (w := (w.run resolve (.delete n)).2) (by rw [hsame]; exact hn)
      rw [hgone] at this
      cases this
    · rw [hcount] at hn
      by_cases heq : n = name
      · simp [heq] at hn
      · rw [if_neg heq] at hn
        exact absurd (inv.linkCount_unique hn hu) heq
  · exact hok

/-- **The link table**, after any run with fewer than 2^31 commands that
creates channels under plain names. -/
theorem link_table {vars : ν → Option String} {as : List Action} {s : Audit ν}
    (hrun : Run (Audit.step resolve) (fun _ => Action.PlainCreation) { world := World.initial vars }
      as s)
    (hbound : s.commands < 2 ^ 31) : LinkFacts resolve s := by
  have hinv : WorldInv resolve s.world ∧ s.world.PlainNames ∧
      (s.commands < 2 ^ 31 → LedgerInv s ∧ ReferenceInv s) := by
    refine hrun.invariant (fun s => WorldInv resolve s.world ∧ s.world.PlainNames ∧
        (s.commands < 2 ^ 31 → LedgerInv s ∧ ReferenceInv s))
      ⟨WorldInv.initial vars, ?_, fun _ => ⟨⟨?_, ?_⟩, ?_, ?_⟩⟩ ?_
    · intro n hn
      cases hn
    · intro n u hn
      cases hn
    · intro n u k hk
      cases hk
    · intro n
      rfl
    · intro n
      exact ⟨Int.le_refl 0, Int.le_refl 0⟩
    · rintro s a s' ⟨inv, hnames, hcounts⟩ hplain hstep
      obtain ⟨world, hworld, rfl⟩ := Option.map_eq_some_iff.mp hstep
      refine ⟨inv.step hworld, inv.plainNames_step hnames hplain hworld, fun hlt => ?_⟩
      obtain ⟨hledger, hreferences⟩ := hcounts ((commands_le_commandsAfter s a).trans_lt hlt)
      exact ⟨ledgerInv_step inv hnames hledger hstep hlt,
        referenceInv_step inv hnames hreferences hstep hlt⟩
  obtain ⟨inv, hnames, hcounts⟩ := hinv
  obtain ⟨hledger, hreferences⟩ := hcounts hbound
  constructor
  case channel =>
    intro name info hname
    obtain ⟨c, hc, -⟩ := inv.lookup hname
    exact ⟨c, hc, channelFacts inv hledger hname hc⟩
  case exclusive =>
    intro name info c name' info' c' hname hc hname' hc' i hi i' hi' heq
    obtain ⟨d, hd, hdname⟩ := inv.lookup hname
    obtain ⟨d', hd', hdname'⟩ := inv.lookup hname'
    rw [inv.disjoint _ _ _ _ hc hc' i hi i' hi' heq] at hd
    rw [← hdname, ← hdname', Option.some.inj (hd.symm.trans hd')]
  case freed =>
    intro name hone
    have hgone : (s.world.run resolve (.delete name)).2.haveChannel name = none := by
      have hcount := hreferences.refcount name
      rw [hone, if_neg (by decide)] at hcount
      obtain ⟨info, hinfo, hrefcount⟩ := Option.map_eq_some_iff.mp hcount
      rw [World.run_delete_haveChannel resolve hnames, if_pos rfl, hinfo, Option.bind_some,
        hrefcount]
      exact if_pos rfl
    exact ⟨hgone, fun name' u hu => link_after_delete inv hnames hu hgone⟩

end

/-! ## Two runs -/

section

attribute [local instance] CTCLObjectProcessor.global ChannelAccess.numbering

/-- Two channels and one variable, linked twice and unlinked once; the
second channel cannot have it. -/
theorem link_table_two :
    ∃ s : Audit String, LinkFacts id s ∧ s.ledger "a" "x" = 1 ∧ s.ledger "b" "x" = 0 := by
  have hrun : Run (Audit.step id) (fun _ => Action.PlainCreation)
      { world := World.initial fun _ => none }
      [.command (.epicschannel "a"), .command (.epicschannel "b"), .command (.link "a" "x"),
        .command (.link "a" "x"), .command (.link "b" "x"), .command (.unlink "a" "x")] _ :=
    run_of_runChecked _ rfl
  exact ⟨_, link_table hrun (by decide), by decide, by decide⟩

end

section

attribute [local instance] CTCLObjectProcessor.nested ChannelAccess.numbering

/-- The last `delete` of `A::B` is one of `B`: the channel stays registered,
and the variable linked to it is not free. -/
theorem qualified_name_stays_registered :
    ∃ s : Audit String, Run (Audit.step id) Always { world := World.initial fun _ => none }
        [.command (.epicschannel "A::B"), .command (.epicschannel "c"),
          .command (.link "A::B" "x")] s ∧
      s.commands < 2 ^ 31 ∧ s.references "A::B" = 1 ∧
      ((s.world.run id (.delete "A::B")).2.haveChannel "A::B").isSome ∧
      ((s.world.run id (.delete "A::B")).2.run id (.link "c" "x")).1 = .error ∧
      ¬ LinkFacts id s := by
  refine ⟨_, run_iff_runAll.mpr rfl, by decide, by decide, by decide, by decide, fun h => ?_⟩
  have hgone := (h.freed "A::B" (by decide)).1
  revert hgone
  decide

end

end EpicsTcl.Command
