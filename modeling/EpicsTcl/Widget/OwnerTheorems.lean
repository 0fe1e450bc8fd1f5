/-
EpicsTcl.Widget.OwnerTheorems — objects with destructors give back exactly
what they took.

The holdings of an object are sound, and so are those of clients that
balance their commands (`clientHoldings_sound`), hence any sum of them. The
constructor of each object is a path that takes its holdings, and its
destructor is one walked back (`destructor_path`): a label unlinks its
variables before it deletes their channels, so that the last `delete` finds
no link left. `OwnersInv` is the invariant: the counters of the process are
what everybody holds, and the counters of the process without the objects
are what the clients hold.

The counters are machine integers. `gives_back` is about the runs in which
they do not overflow; `lost_after_overflow` is a run in which one does, and
a history lives on without its channel.
-/
import EpicsTcl.Widget.ChannelOwners
import EpicsTcl.Library.Runs
import Mathlib.Algebra.Order.BigOperators.Group.List
import Mathlib.Algebra.Order.Group.Int
import Mathlib.Tactic.Abel

namespace EpicsTcl.Widget

open EpicsTcl.Channel EpicsTcl.Command EpicsTcl.Library

/-! ## Constructors and destructors -/

namespace ChannelOwner

section Taking

variable {h : Holdings} {a b u v : String}

/-- Two references. -/
def pairTaken (h : Holdings) (a b : String) : Holdings :=
  h + TclCommand.effect (.epicschannel a) + TclCommand.effect (.epicschannel b)

/-- Two references, and a link to each of the channels. -/
def labelTaken (h : Holdings) (a b u v : String) : Holdings :=
  pairTaken h a b + TclCommand.effect (.link a u) + TclCommand.effect (.link b v)

theorem pairTaken_sound (hs : h.Sound) : (pairTaken h a b).Sound :=
  (hs.epicschannel a).epicschannel b

theorem pair_path (hs : h.Sound) (hr : (pairTaken h a b).InRange) :
    HoldingsPath h [.epicschannel a, .epicschannel b] (pairTaken h a b) := by
  refine .cons ⟨hs.epicschannel a, Holdings.InRange.of_takes hr trivial⟩ ?_
  exact .cons ⟨pairTaken_sound hs, hr⟩ .nil

theorem pairTaken_references (hs : h.Sound) (n : String) (hn : n = a ∨ n = b) :
    0 < (pairTaken h a b).references n := by
  have hold := hs.references n
  simp only [pairTaken, Holdings.references_add, TclCommand.references_epicschannel]
  rcases hn with rfl | rfl
  · rw [if_pos rfl]
    split <;> omega
  · rw [if_pos rfl]
    split <;> omega

theorem firstLink_sound (hs : h.Sound) :
    (pairTaken h a b + TclCommand.effect (.link a u)).Sound :=
  (pairTaken_sound hs).link (pairTaken_references hs a (.inl rfl)) u

theorem labelTaken_sound (hs : h.Sound) : (labelTaken h a b u v).Sound := by
  refine (firstLink_sound hs).link ?_ v
  rw [Holdings.references_add, TclCommand.references_link, add_zero]
  exact pairTaken_references hs b (.inr rfl)

theorem label_path (hs : h.Sound) (hr : (labelTaken h a b u v).InRange) :
    HoldingsPath h [.epicschannel a, .epicschannel b, .link a u, .link b v]
      (labelTaken h a b u v) := by
  have hlink := Holdings.InRange.of_takes hr trivial
  have hpair := hlink.of_takes trivial
  refine .cons ⟨hs.epicschannel a, Holdings.InRange.of_takes hpair trivial⟩ ?_
  refine .cons ⟨pairTaken_sound hs, hpair⟩ ?_
  refine .cons ⟨firstLink_sound hs, hlink⟩ ?_
  exact .cons ⟨labelTaken_sound hs, hr⟩ .nil

end Taking

variable {h : Holdings} {o : ChannelOwner}

theorem holdings_label (h : Holdings) (channel : String) :
    h + (epicsLabelWithUnits channel).holdings =
      labelTaken h channel (egu channel) (linkedVariable channel)
        (linkedVariable (egu channel)) := by
  simp [holdings, constructor, labelTaken, pairTaken, add_assoc]

theorem holdings_history (h : Holdings) (channel : String) :
    h + (channelHistory channel).holdings = h + TclCommand.effect (.epicschannel channel) := by
  simp [holdings, constructor]

theorem holdings_pair (h : Holdings) (xchannel ychannel : String) :
    h + (channelPairHistory xchannel ychannel).holdings = pairTaken h xchannel ychannel := by
  simp [holdings, constructor, pairTaken, add_assoc]

theorem add_holdings_sound (hs : h.Sound) (o : ChannelOwner) : (h + o.holdings).Sound := by
  cases o with
  | epicsLabelWithUnits channel =>
    rw [holdings_label]
    exact labelTaken_sound hs
  | channelHistory channel =>
    rw [holdings_history]
    exact hs.epicschannel channel
  | channelPairHistory xchannel ychannel =>
    rw [holdings_pair]
    exact pairTaken_sound hs

theorem holdings_sound (o : ChannelOwner) : o.holdings.Sound := by
  have hsound := add_holdings_sound .zero o
  rwa [zero_add] at hsound

/-- The constructor takes the holdings of the object. -/
theorem constructor_path (hs : h.Sound) (hr : (h + o.holdings).InRange) :
    HoldingsPath h o.constructor (h + o.holdings) := by
  cases o with
  | epicsLabelWithUnits channel =>
    rw [holdings_label] at hr ⊢
    exact label_path hs hr
  | channelHistory channel =>
    rw [holdings_history] at hr ⊢
    exact .cons ⟨hs.epicschannel channel, hr⟩ .nil
  | channelPairHistory xchannel ychannel =>
    rw [holdings_pair] at hr ⊢
    exact pair_path hs hr

/-- **The destructor gives the holdings back**, in an order in which they
could have been taken backwards. -/
theorem destructor_path (hs : h.Sound) (hr : (h + o.holdings).InRange)
    (hnamed : "" ∉ o.channels) : HoldingsPath (h + o.holdings) o.destructor h := by
  have hbase : h.Admissible :=
    ⟨hs, hr.of_add o.holdings_sound.references o.holdings_sound.links⟩
  cases o with
  | epicsLabelWithUnits channel =>
    have hchannel : channel ≠ "" := fun heq => hnamed (by simp [channels, heq])
    have hswap : h + (epicsLabelWithUnits channel).holdings =
        labelTaken h (egu channel) channel (linkedVariable (egu channel))
          (linkedVariable channel) := by
      rw [holdings_label]
      simp only [labelTaken, pairTaken]
      abel
    rw [hswap] at hr ⊢
    rw [destructor, if_neg hchannel]
    exact (label_path hs hr).undo TclCommand.effect_undo hbase
  | channelHistory channel =>
    rw [holdings_history] at hr ⊢
    have htaken : HoldingsPath h [.epicschannel channel]
        (h + TclCommand.effect (.epicschannel channel)) :=
      .cons ⟨hs.epicschannel channel, hr⟩ .nil
    exact htaken.undo TclCommand.effect_undo hbase
  | channelPairHistory xchannel ychannel =>
    have hswap : h + (channelPairHistory xchannel ychannel).holdings =
        pairTaken h ychannel xchannel := by
      rw [holdings_pair, pairTaken, pairTaken]
      abel
    rw [hswap] at hr ⊢
    exact (pair_path hs hr).undo TclCommand.effect_undo hbase

theorem destructor_gives {c : TclCommand} (hc : c ∈ o.destructor) : c.Gives := by
  cases o with
  | epicsLabelWithUnits channel =>
    rw [destructor] at hc
    split at hc
    · cases hc
    · simp only [List.mem_cons, List.not_mem_nil, or_false] at hc
      rcases hc with rfl | rfl | rfl | rfl <;> trivial
  | channelHistory channel =>
    obtain rfl := List.mem_singleton.mp hc
    trivial
  | channelPairHistory xchannel ychannel =>
    simp only [destructor, List.mem_cons, List.not_mem_nil, or_false] at hc
    rcases hc with rfl | rfl <;> trivial

theorem constructor_takes {c : TclCommand} (hc : c ∈ o.constructor) : c.Takes := by
  cases o with
  | epicsLabelWithUnits channel =>
    simp only [constructor, List.mem_cons, List.not_mem_nil, or_false] at hc
    rcases hc with rfl | rfl | rfl | rfl <;> trivial
  | channelHistory channel =>
    obtain rfl := List.mem_singleton.mp hc
    trivial
  | channelPairHistory xchannel ychannel =>
    simp only [constructor, List.mem_cons, List.not_mem_nil, or_false] at hc
    rcases hc with rfl | rfl <;> trivial

/-- The object holds the channels of its constructor. -/
theorem references_pos {n : String} (hn : .epicschannel n ∈ o.constructor) :
    0 < o.holdings.references n := by
  rw [holdings, Holdings.references_sum, List.map_map]
  have hone : (TclCommand.effect (.epicschannel n)).references n = 1 := if_pos rfl
  have hle := List.single_le_sum (l := o.constructor.map fun c => c.effect.references n) ?_ 1
    (List.mem_map.mpr ⟨_, hn, hone⟩)
  · exact hle
  · intro x hx
    obtain ⟨c, hc, rfl⟩ := List.mem_map.mp hx
    exact (constructor_takes hc).references n

/-- The object holds the links of its constructor. -/
theorem links_pos {n u : String} (hn : .link n u ∈ o.constructor) : 0 < o.holdings.links n u := by
  rw [holdings, Holdings.links_sum, List.map_map]
  have hone : (TclCommand.effect (.link n u)).links n u = 1 := if_pos ⟨rfl, rfl⟩
  have hle := List.single_le_sum (l := o.constructor.map fun c => c.effect.links n u) ?_ 1
    (List.mem_map.mpr ⟨_, hn, hone⟩)
  · exact hle
  · intro x hx
    obtain ⟨c, hc, rfl⟩ := List.mem_map.mp hx
    exact (constructor_takes hc).links n u

end ChannelOwner

/-! ## The other clients -/

namespace Owners

section Clients

variable {κ : Type} [DecidableEq κ] {log : List (κ × TclCommand)}

omit [DecidableEq κ] in
theorem clientHoldings_cons (k : κ) (c : TclCommand) (log : List (κ × TclCommand)) :
    clientHoldings ((k, c) :: log) = clientHoldings log + c.effect := by
  rw [clientHoldings, List.map_cons, List.sum_cons, add_comm]
  rfl

omit [DecidableEq κ] in
theorem clientHoldings_references (log : List (κ × TclCommand)) (n : String) :
    (clientHoldings log).references n =
      (log.countP (·.2 = .epicschannel n) : Int) - log.countP (·.2 = .delete n) := by
  induction log with
  | nil => rfl
  | cons e log ih =>
    obtain ⟨k, c⟩ := e
    rw [clientHoldings_cons, Holdings.references_add, ih, countP_log_cons, countP_log_cons]
    cases c <;> simp <;> split <;> omega

omit [DecidableEq κ] in
theorem clientHoldings_links (log : List (κ × TclCommand)) (n u : String) :
    (clientHoldings log).links n u =
      (log.countP (·.2 = .link n u) : Int) - log.countP (·.2 = .unlink n u) := by
  induction log with
  | nil => rfl
  | cons e log ih =>
    obtain ⟨k, c⟩ := e
    rw [clientHoldings_cons, Holdings.links_add, ih, countP_log_cons, countP_log_cons]
    cases c <;> simp <;> split <;> omega

/-- No client has given back more than it took, and who holds no reference
to a channel has no link to it. -/
structure Fair (log : List (κ × TclCommand)) : Prop where
  deleted : ∀ k n, log.count (k, .delete n) ≤ log.count (k, .epicschannel n)
  unlinked : ∀ k n u, log.count (k, .unlink n u) ≤ log.count (k, .link n u)
  released : ∀ k n, log.count (k, .delete n) = log.count (k, .epicschannel n) →
    ∀ u, log.count (k, .unlink n u) = log.count (k, .link n u)

theorem clientHoldings_sound (hf : Fair log) : (clientHoldings log).Sound where
  references := by
    intro n
    have hle := countP_le_of_count_le fun k => hf.deleted k n
    rw [clientHoldings_references]
    omega
  links := by
    intro n u
    have hle := countP_le_of_count_le fun k => hf.unlinked k n u
    rw [clientHoldings_links]
    omega
  held := by
    intro n hzero u
    rw [clientHoldings_references] at hzero
    have hall : ∀ k, log.count (k, .delete n) = log.count (k, .epicschannel n) :=
      count_eq_of_countP_eq (fun k => hf.deleted k n) (by omega)
    have hlinks := countP_eq_of_count_eq fun k => hf.released k n (hall k) u
    rw [clientHoldings_links]
    omega

section Cons

variable {ν : Type} {s : Owners κ ν} {k : κ} {c : TclCommand}

theorem deleted_cons (hf : Fair s.log) (hmay : s.MayRun k c) (k' : κ) (n : String) :
    ((k, c) :: s.log).count (k', .delete n) ≤ ((k, c) :: s.log).count (k', .epicschannel n) := by
  have hold := hf.deleted k' n
  rw [count_log_cons, count_log_cons]
  cases c with
  | delete name =>
    simp only [reduceCtorEq, and_false, if_false, TclCommand.delete.injEq]
    by_cases heq : k' = k ∧ n = name
    · obtain ⟨rfl, rfl⟩ := heq
      have hlt : s.times k' (.delete n) < s.times k' (.epicschannel n) := hmay.1
      rw [if_pos ⟨rfl, rfl⟩]
      exact hlt
    · rwa [if_neg heq]
  | _ => simp only [reduceCtorEq, and_false, if_false]; omega

theorem unlinked_cons (hf : Fair s.log) (hmay : s.MayRun k c) (k' : κ) (n u : String) :
    ((k, c) :: s.log).count (k', .unlink n u) ≤ ((k, c) :: s.log).count (k', .link n u) := by
  have hold := hf.unlinked k' n u
  rw [count_log_cons, count_log_cons]
  cases c with
  | unlink name varname =>
    simp only [reduceCtorEq, and_false, if_false, TclCommand.unlink.injEq]
    by_cases heq : k' = k ∧ n = name ∧ u = varname
    · obtain ⟨rfl, rfl, rfl⟩ := heq
      have hlt : s.times k' (.unlink n u) < s.times k' (.link n u) := hmay
      rw [if_pos ⟨rfl, rfl, rfl⟩]
      exact hlt
    · rwa [if_neg heq]
  | _ => simp only [reduceCtorEq, and_false, if_false]; omega

theorem released_cons (hf : Fair s.log) (hmay : s.MayRun k c) (k' : κ) (n : String)
    (heq : ((k, c) :: s.log).count (k', .delete n) =
      ((k, c) :: s.log).count (k', .epicschannel n)) (u : String) :
    ((k, c) :: s.log).count (k', .unlink n u) = ((k, c) :: s.log).count (k', .link n u) := by
  rw [count_log_cons, count_log_cons] at heq ⊢
  have hold := hf.released k' n
  have hdeleted := hf.deleted k' n
  cases c with
  | epicschannel name =>
    simp only [reduceCtorEq, and_false, if_false, TclCommand.epicschannel.injEq] at heq ⊢
    exact hold (by split at heq <;> omega) u
  | delete name =>
    simp only [reduceCtorEq, and_false, if_false, TclCommand.delete.injEq] at heq ⊢
    by_cases hsame : k' = k ∧ n = name
    · obtain ⟨rfl, rfl⟩ := hsame
      rw [if_pos ⟨rfl, rfl⟩] at heq
      exact hmay.2 heq u
    · rw [if_neg hsame] at heq
      exact hold heq u
  | link name varname =>
    simp only [reduceCtorEq, and_false, if_false, TclCommand.link.injEq] at heq ⊢
    -- Who links holds the channel, and `k'` does not.
    have hother : ¬ (k' = k ∧ n = name ∧ u = varname) := by
      rintro ⟨rfl, rfl, rfl⟩
      have hlt : s.times k' (.delete n) < s.times k' (.epicschannel n) := hmay
      exact Nat.ne_of_lt hlt heq
    rw [if_neg hother]
    exact hold heq u
  | unlink name varname =>
    simp only [reduceCtorEq, and_false, if_false, TclCommand.unlink.injEq] at heq ⊢
    have hother : ¬ (k' = k ∧ n = name ∧ u = varname) := by
      rintro ⟨rfl, rfl, rfl⟩
      have hlt : s.times k' (.unlink n u) < s.times k' (.link n u) := hmay
      exact Nat.ne_of_lt hlt (hold heq u)
    rw [if_neg hother]
    exact hold heq u
  | listlinks name =>
    simp only [reduceCtorEq, and_false, if_false] at heq ⊢
    exact hold heq u

/-- **A balanced command keeps the log fair.** -/
theorem fair_cons (hf : Fair s.log) (hmay : s.MayRun k c) : Fair ((k, c) :: s.log) where
  deleted := deleted_cons hf hmay
  unlinked := unlinked_cons hf hmay
  released := released_cons hf hmay

end Cons

end Clients

/-! ## Scripts -/

section Scripts

variable {ν : Type} [DecidableEq ν] [CTCLObjectProcessor] [ChannelAccess] {resolve : String → ν}
  {h h' : Holdings} {w w' : World ν}
variable {cmds : List TclCommand}

theorem tclCommand_apply {c : TclCommand} {code : TclCode}
    (hcode : (w.run resolve c).1 = code) :
    tclCommand resolve c w =
      (if code = .ok then .ok () else .error (), (w.run resolve c).2) := by
  unfold tclCommand
  cases hrun : w.run resolve c with
  | mk code' world =>
    rw [hrun] at hcode
    obtain rfl : code' = code := hcode
    cases code' <;> rfl

/-- A script that does not fail follows its path. -/
theorem counted_of_path (hpath : HoldingsPath h cmds h') (hc : Counted resolve h w)
    (hplain : ∀ c ∈ cmds, c.PlainCreation)
    (hrun : Script.forEach cmds (tclCommand resolve) w = (.ok ⟨⟩, w')) :
    Counted resolve h' w' := by
  refine hpath.forEach_ok hc ?_ hrun
  intro h c hmem t t' hc ⟨hs, hr⟩ hcommand
  rcases hc.run (hplain c hmem) hs hr with ⟨hok, hc'⟩ | ⟨herr, -⟩
  · rw [tclCommand_apply hok] at hcommand
    cases hcommand
    exact hc'
  · rw [tclCommand_apply herr] at hcommand
    cases hcommand

/-- A script that only gives back does not fail. -/
theorem gives_of_path (hpath : HoldingsPath h cmds h') (hc : Counted resolve h w)
    (hgives : ∀ c ∈ cmds, c.Gives) :
    ∃ w', Script.forEach cmds (tclCommand resolve) w = (.ok ⟨⟩, w') ∧ Counted resolve h' w' := by
  refine hpath.forEach_runs hc TclCommand.Gives ?_ hgives
  intro h c t hc ⟨hs, hr⟩ hc'
  obtain ⟨hok, hcounted⟩ := hc.run_gives hc' hs hr
  exact ⟨_, tclCommand_apply hok, hcounted⟩

end Scripts

/-! ## The invariant -/

section Invariant

variable {κ ν : Type} [DecidableEq κ] [DecidableEq ν] [CTCLObjectProcessor] [ChannelAccess]
  {resolve : String → ν}
variable {vars : ν → Option String} {s s' : Owners κ ν}

/-- What ties the counters to what everybody holds. -/
structure OwnersInv (resolve : String → ν) (vars : ν → Option String) (s : Owners κ ν) : Prop where
  named : ∀ o ∈ s.living, "" ∉ o.channels
  fair : Fair s.log
  inRange : s.holdings.InRange
  counted : Counted resolve s.holdings s.world
  alone : Counted resolve (clientHoldings s.log) (alone resolve vars s.log)

omit [DecidableEq κ] [DecidableEq ν] [CTCLObjectProcessor] [ChannelAccess] in
theorem livingHoldings_sound (living : List ChannelOwner) :
    (living.map ChannelOwner.holdings).sum.Sound := by
  apply Holdings.Sound.sum
  intro h hh
  obtain ⟨o, -, rfl⟩ := List.mem_map.mp hh
  exact o.holdings_sound

theorem ownersInv_initial (vars : ν → Option String) :
    OwnersInv resolve vars ({ world := World.initial vars } : Owners κ ν) where
  named := nofun
  fair := ⟨fun _ _ => Nat.le_refl 0, fun _ _ _ => Nat.le_refl 0, fun _ _ _ _ => rfl⟩
  inRange := by
    constructor <;> simp [holdings, clientHoldings]
  counted := .initial vars
  alone := .initial vars

theorem ownersInv_construct (hinv : OwnersInv resolve vars s) {o : ChannelOwner}
    (hr : (s.holdings + o.holdings).InRange) (hplain : ∀ c ∈ o.constructor, c.PlainCreation)
    (hstep : s.step resolve (.construct o) = some s') : OwnersInv resolve vars s' := by
  have hpath := ChannelOwner.constructor_path hinv.counted.sound hr
  rw [step] at hstep
  split at hstep
  · cases hstep
  next hnamed =>
  split at hstep
  · next world hrun =>
    cases hstep
    have hsum : ({ s with world, living := o :: s.living } : Owners κ ν).holdings =
        s.holdings + o.holdings := by
      simp only [holdings, List.map_cons, List.sum_cons]
      abel
    constructor
    case named =>
      rintro o' ho'
      rcases List.mem_cons.mp ho' with rfl | ho'
      · exact hnamed
      · exact hinv.named o' ho'
    case fair => exact hinv.fair
    case inRange => exact hsum ▸ hr
    case counted => exact hsum ▸ counted_of_path hpath hinv.counted hplain hrun
    case alone => exact hinv.alone
  · cases hstep

theorem ownersInv_destroy (hinv : OwnersInv resolve vars s) {o : ChannelOwner}
    (hstep : s.step resolve (.destroy o) = some s') : OwnersInv resolve vars s' := by
  rw [step] at hstep
  split at hstep
  · next hliving =>
    let rest : Owners κ ν := { s with living := s.living.erase o }
    have hsum : s.holdings = rest.holdings + o.holdings := by
      simp only [holdings, rest, ← List.sum_map_erase ChannelOwner.holdings hliving]
      abel
    have hsound : rest.holdings.Sound :=
      (livingHoldings_sound _).add (clientHoldings_sound hinv.fair)
    have hr := hinv.inRange
    have hcounted := hinv.counted
    rw [hsum] at hr hcounted
    have hpath := ChannelOwner.destructor_path hsound hr (hinv.named o hliving)
    obtain ⟨world, hrun, hend⟩ :=
      gives_of_path hpath hcounted fun c => ChannelOwner.destructor_gives
    rw [hrun] at hstep
    cases hstep
    constructor
    case named => exact fun o' ho' => hinv.named o' (List.mem_of_mem_erase ho')
    case fair => exact hinv.fair
    case inRange => exact hr.of_add o.holdings_sound.references o.holdings_sound.links
    case counted => exact hend
    case alone => exact hinv.alone
  · cases hstep

/-- What leaves the objects and the log alone. -/
theorem OwnersInv.congr (hinv : OwnersInv resolve vars s) {world : World ν}
    (hc : Counted resolve s.holdings world) : OwnersInv resolve vars { s with world } where
  named := hinv.named
  fair := hinv.fair
  inRange := hinv.inRange
  counted := hc
  alone := hinv.alone

theorem ownersInv_environment (hinv : OwnersInv resolve vars s) {a : Command.Action}
    (hstep : s.step resolve (.environment a) = some s') : OwnersInv resolve vars s' := by
  have hno : ∀ cmd, a ≠ .command cmd := by
    rintro cmd rfl
    cases hstep
  have hworld : (s.world.step resolve a).map (fun world => { s with world }) = some s' := by
    cases a with
    | command cmd => exact absurd rfl (hno cmd)
    | _ => exact hstep
  obtain ⟨world, htaken, rfl⟩ := Option.map_eq_some_iff.mp hworld
  exact hinv.congr (hinv.counted.environment hno htaken)

theorem ownersInv_client (hinv : OwnersInv resolve vars s) {k : κ} {c : TclCommand}
    (hmay : s.MayRun k c) (hr : (s.holdings + c.effect).InRange) (hplain : c.PlainCreation)
    (hstep : s.step resolve (.client k c) = some s') : OwnersInv resolve vars s' := by
  have hfair := fair_cons hinv.fair hmay
  have hclients := clientHoldings_sound hfair
  have hliving := livingHoldings_sound s.living
  have hsum : s.holdings + c.effect =
      clientHoldings ((k, c) :: s.log) + (s.living.map ChannelOwner.holdings).sum := by
    rw [clientHoldings_cons, holdings]
    abel
  have hsound : (s.holdings + c.effect).Sound := hsum ▸ hclients.add hliving
  rw [step] at hstep
  split at hstep
  · next world hrun =>
    cases hstep
    have hok : (s.world.run resolve c).1 = .ok := by rw [hrun]
    have hfree : ∀ n u, c = .link n u → ∀ m, m ≠ n → (clientHoldings s.log).links m u = 0 := by
      rintro n u rfl m hm
      have hreferenced := hinv.counted.referenced_of_link hsound
      have htotal := (hinv.counted.link_ok_iff hreferenced).mp hok m hm
      have hpart := (clientHoldings_sound hinv.fair).links m u
      have hrest := hliving.links m u
      rw [holdings, Holdings.links_add] at htotal
      omega
    have hafter : ({ s with world, log := (k, c) :: s.log } : Owners κ ν).holdings =
        s.holdings + c.effect := by
      rw [hsum, holdings, add_comm]
    have hworld : world = (s.world.run resolve c).2 := by rw [hrun]
    constructor
    case named => exact hinv.named
    case fair => exact hfair
    case inRange => exact hafter ▸ hr
    case counted =>
      rw [hafter, hworld]
      rcases hinv.counted.run hplain hsound hr with ⟨-, hcounted⟩ | ⟨herr, -⟩
      · exact hcounted
      · rw [hok] at herr
        cases herr
    case alone =>
      rw [clientHoldings_cons] at hclients hsum ⊢
      rw [hsum] at hr
      exact hinv.alone.run_free hplain hclients (hr.of_add hliving.references hliving.links) hfree
  · next world hrun =>
    cases hstep
    have hworld : world = (s.world.run resolve c).2 := by rw [hrun]
    apply hinv.congr
    rw [hworld]
    rcases hinv.counted.run hplain hsound hr with ⟨hok, -⟩ | ⟨-, hcounted⟩
    · rw [hrun] at hok
      cases hok
    · exact hcounted

/-- **One step keeps the invariant.** -/
theorem ownersInv_step (hinv : OwnersInv resolve vars s) {e : OwnersEvent κ}
    (hbalanced : s.Balanced e) (hr : s.InRange e) (hplain : e.PlainCreation)
    (hstep : s.step resolve e = some s') : OwnersInv resolve vars s' := by
  cases e with
  | construct o => exact ownersInv_construct hinv hr hplain hstep
  | destroy o => exact ownersInv_destroy hinv hstep
  | client k c => exact ownersInv_client hinv hbalanced hr hplain hstep
  | environment a => exact ownersInv_environment hinv hstep

omit [DecidableEq ν] [CTCLObjectProcessor] [ChannelAccess] in
/-- What one object holds, everybody holds. -/
theorem holdings_of_living (hfair : Fair s.log) {o : ChannelOwner} (ho : o ∈ s.living) :
    ∃ rest : Holdings, rest.Sound ∧ s.holdings = o.holdings + rest := by
  refine ⟨((s.living.erase o).map ChannelOwner.holdings).sum + clientHoldings s.log, ?_, ?_⟩
  · exact (livingHoldings_sound _).add (clientHoldings_sound hfair)
  · rw [holdings, ← List.sum_map_erase ChannelOwner.holdings ho, add_assoc]

omit [DecidableEq κ] [DecidableEq ν] [CTCLObjectProcessor] [ChannelAccess] in
theorem holdings_of_none (hnone : s.living = []) : s.holdings = clientHoldings s.log := by
  rw [holdings, hnone, List.map_nil, List.sum_nil, zero_add]

/-- What the invariant says of the counters. -/
theorem givesBack_of_inv (hinv : OwnersInv resolve vars s) : GivesBack resolve vars s := by
  constructor
  case registered =>
    intro o ho n hn
    obtain ⟨rest, hrest, heq⟩ := holdings_of_living hinv.fair ho
    have hpos := ChannelOwner.references_pos hn
    have hother := hrest.references n
    rw [hinv.counted.registered_iff, heq, Holdings.references_add]
    omega
  case linked =>
    intro o ho n u hn
    obtain ⟨rest, hrest, heq⟩ := holdings_of_living hinv.fair ho
    have hpos := ChannelOwner.links_pos hn
    have hother := hrest.links n u
    rw [hinv.counted.linked_iff, heq, Holdings.links_add]
    omega
  case refcount =>
    intro hnone n
    rw [hinv.counted.refcount, hinv.alone.refcount, holdings_of_none hnone]
  case linkCount =>
    intro hnone n u
    apply Option.map_injective Int.ofNat_injective
    rw [hinv.counted.linkCount, hinv.alone.linkCount, holdings_of_none hnone]

/-- **The objects give back exactly what they took**, after any run in which
the other clients balance their commands, no counter overflows and the
channels have plain names. -/
theorem gives_back {es : List (OwnersEvent κ)}
    (hrun : Run (step resolve) (fun s e => s.Balanced e ∧ s.InRange e ∧ e.PlainCreation)
      { world := World.initial vars } es s) : GivesBack resolve vars s := by
  refine givesBack_of_inv ?_
  refine hrun.invariant (OwnersInv resolve vars) (ownersInv_initial vars) ?_
  rintro s e s' hinv ⟨hbalanced, hr, hplain⟩ hstep
  exact ownersInv_step hinv hbalanced hr hplain hstep

end Invariant

/-! ## Runs with few objects and commands -/

section Few

/-- Nothing is held more than `k` times. -/
structure AtMost (k : Nat) (h : Holdings) : Prop where
  references : ∀ n, h.references n ≤ k
  links : ∀ n u, h.links n u ≤ k

variable {h h' : Holdings} {k k' : Nat}

theorem AtMost.add (hk : AtMost k h) (hk' : AtMost k' h') : AtMost (k + k') (h + h') where
  references := by
    intro n
    have hn := hk.references n
    have hn' := hk'.references n
    rw [Holdings.references_add]
    omega
  links := by
    intro n u
    have hu := hk.links n u
    have hu' := hk'.links n u
    rw [Holdings.links_add]
    omega

theorem AtMost.sum {l : List Holdings} (hk : ∀ h ∈ l, AtMost k h) :
    AtMost (k * l.length) l.sum := by
  induction l with
  | nil => exact ⟨fun _ => Int.le_refl 0, fun _ _ => Int.le_refl 0⟩
  | cons h l ih =>
    rw [List.sum_cons, List.length_cons, Nat.mul_succ, Nat.add_comm]
    exact (hk h List.mem_cons_self).add (ih fun h' hh' => hk h' (List.mem_cons_of_mem h hh'))

theorem atMost_effect (c : TclCommand) : AtMost 1 c.effect := by
  constructor
  · intro n
    cases c <;> simp <;> split <;> decide
  · intro n u
    cases c <;> simp <;> split <;> decide

theorem atMost_holdings (o : ChannelOwner) : AtMost 4 o.holdings := by
  have hsum : AtMost (1 * (o.constructor.map TclCommand.effect).length) o.holdings := by
    apply AtMost.sum
    intro h hh
    obtain ⟨c, -, rfl⟩ := List.mem_map.mp hh
    exact atMost_effect c
  have hlength : o.constructor.length ≤ 4 := by cases o <;> simp [ChannelOwner.constructor]
  rw [List.length_map] at hsum
  constructor
  · intro n
    have hn := hsum.references n
    omega
  · intro n u
    have hu := hsum.links n u
    omega

variable {κ ν : Type} {s : Owners κ ν}

/-- Few objects and commands do not hold much. -/
theorem inRange_of_few (e : OwnersEvent κ)
    (hfew : 4 * s.living.length + s.log.length + 4 < 2 ^ 31) : s.InRange e := by
  have hliving : AtMost (4 * s.living.length) (s.living.map ChannelOwner.holdings).sum := by
    have hsum := AtMost.sum (l := s.living.map ChannelOwner.holdings) (k := 4) ?_
    · rwa [List.length_map] at hsum
    · intro h hh
      obtain ⟨o, -, rfl⟩ := List.mem_map.mp hh
      exact atMost_holdings o
  have hlog : AtMost (1 * s.log.length) (clientHoldings s.log) := by
    have hsum := AtMost.sum (l := s.log.map fun e => e.2.effect) (k := 1) ?_
    · rwa [List.length_map] at hsum
    · intro h hh
      obtain ⟨e, -, rfl⟩ := List.mem_map.mp hh
      exact atMost_effect e.2
  have hinRange : ∀ {k : Nat} {h : Holdings}, k ≤ 4 → AtMost k h → (s.holdings + h).InRange := by
    intro k h hk hh
    have hall := (hliving.add hlog).add hh
    constructor
    · intro n
      have hn := hall.references n
      show (s.holdings + h).references n < 2 ^ 31
      rw [holdings]
      omega
    · intro n u
      have hu := hall.links n u
      show (s.holdings + h).links n u < 2 ^ 32
      rw [holdings]
      omega
  cases e with
  | construct o => exact hinRange (Nat.le_refl 4) (atMost_holdings o)
  | client k c => exact hinRange (by decide) (atMost_effect c)
  | destroy o => trivial
  | environment a => trivial

end Few

section

attribute [local instance] CTCLObjectProcessor.global ChannelAccess.numbering

/-- A step of a short run in which the clients delete and unlink nothing. -/
def short (s : Owners Nat String) (e : OwnersEvent Nat) : Bool :=
  (decide (4 * s.living.length + s.log.length + 4 < 2 ^ 31) && decide e.PlainCreation) &&
    match e with
    | .client _ (.epicschannel _) => true
    | .client k (.link n _) => decide (s.times k (.delete n) < s.times k (.epicschannel n))
    | .client _ _ => false
    | _ => true

/-- A label, a pair with one channel as both of its channels, and a client
that goes on with the channel and a link of its own. -/
theorem gives_back_label_pair :
    ∃ s : Owners Nat String, GivesBack id (fun _ => none) s ∧ s.living = [] ∧
      (s.world.haveChannel "a").map (·.refcount) = some 1 ∧ s.world.linkCount "a" "x" = some 1 ∧
      s.world.linkCount "a" "::controlwidget::a" = none := by
  have hend : (runChecked (step id) (fun s e => short s e = true)
      { world := World.initial fun _ => none }
      [.construct (.epicsLabelWithUnits "a"), .client 0 (.epicschannel "a"),
        .construct (.channelPairHistory "a" "a"), .client 0 (.link "a" "x"),
        .destroy (.epicsLabelWithUnits "a"), .destroy (.channelPairHistory "a" "a")]).map
      (fun s => (s.living, (s.world.haveChannel "a").map (·.refcount), s.world.linkCount "a" "x",
        s.world.linkCount "a" "::controlwidget::a")) = some ([], some 1, some 1, none) := by
    decide +kernel
  obtain ⟨s, hs, hfacts⟩ := Option.map_eq_some_iff.mp hend
  simp only [Prod.mk.injEq] at hfacts
  refine ⟨s, gives_back ((run_of_runChecked _ hs).mono ?_), hfacts⟩
  intro t e hshort
  obtain ⟨hsmall, hmay⟩ := (Bool.and_eq_true _ _).mp hshort
  obtain ⟨hfew, hplain⟩ := (Bool.and_eq_true _ _).mp hsmall
  refine ⟨?_, inRange_of_few e (of_decide_eq_true hfew), of_decide_eq_true hplain⟩
  cases e with
  | client k c =>
    cases c with
    | epicschannel n => trivial
    | link n u =>
      have hheld : t.times k (.delete n) < t.times k (.epicschannel n) := of_decide_eq_true hmay
      exact hheld
    | _ => cases hmay
  | _ => trivial

end

/-! ## A counter that overflows -/

section Overflow

variable {κ ν : Type} [DecidableEq κ] [DecidableEq ν] [CTCLObjectProcessor] [ChannelAccess]
  {resolve : String → ν}

omit [DecidableEq κ] in
theorem step_client_ok {s : Owners κ ν} {k : κ} {c : TclCommand}
    (hok : (s.world.run resolve c).1 = .ok) :
    s.step resolve (.client k c) =
      some { s with world := (s.world.run resolve c).2, log := (k, c) :: s.log } := by
  cases hrun : s.world.run resolve c with
  | mk code world =>
    rw [hrun] at hok
    obtain rfl : code = .ok := hok
    rw [step, hrun]

variable (resolve) in
/-- A client that creates one channel again and again: `s_refcount` counts
modulo 2^32. -/
theorem creations_run (k : κ) (name : String) (times : Nat) {s : Owners κ ν}
    {info : RefCountedChannel} (hinfo : s.world.haveChannel name = some info) :
    ∃ t : Owners κ ν,
      Run (step resolve) Balanced s (List.replicate times (.client k (.epicschannel name))) t ∧
        t.living = s.living ∧ t.log = List.replicate times (k, .epicschannel name) ++ s.log ∧
        ∃ info', t.world.haveChannel name = some info' ∧
          info'.refcount % 2 ^ 32 = (info.refcount + times) % 2 ^ 32 := by
  induction times with
  | zero =>
    refine ⟨s, .nil, rfl, rfl, info, hinfo, ?_⟩
    rw [Int.natCast_zero, Int.add_zero]
  | succ times ih =>
    obtain ⟨t, hrun, hliving, hlog, info', hinfo', hcount⟩ := ih
    rw [List.replicate_succ']
    refine ⟨_, hrun.snoc trivial (step_client_ok rfl), hliving, ?_, ?_⟩
    · rw [hlog, List.replicate_succ, List.cons_append]
    · refine ⟨{ info' with refcount := wrapInt (info'.refcount + 1) }, ?_, ?_⟩
      · show (t.world.run resolve (.epicschannel name)).2.haveChannel name = _
        rw [World.run_epicschannel_haveChannel, if_pos rfl, hinfo']
      · show Int.bmod (info'.refcount + 1) (2 ^ 32) % (2 ^ 32 : Nat) = _
        rw [Int.bmod_emod]
        omega

end Overflow

section

attribute [local instance] CTCLObjectProcessor.global ChannelAccess.numbering

/-- A history lives. A client creates its channel 2^32 times and deletes it
once: the counter is back at 1 before the `delete`, which destroys the
channel. -/
theorem lost_after_overflow :
    ¬ ∀ (es : List (OwnersEvent Nat)) (s : Owners Nat String),
      Run (step id) Balanced { world := World.initial fun _ => none } es s →
        GivesBack id (fun _ => none) s := by
  intro hgives
  obtain ⟨s, hconstruct, hliving, hlog, hinfo⟩ :
      ∃ s : Owners Nat String,
        step id { world := World.initial fun _ => none } (.construct (.channelHistory "a")) =
          some s ∧
        s.living = [.channelHistory "a"] ∧ s.log = [] ∧
        s.world.haveChannel "a" = some ⟨1, 0⟩ :=
    ⟨_, rfl, rfl, rfl, rfl⟩
  generalize hk : (2 ^ 32 : Nat) = k
  obtain ⟨t, hrun, hliving', hlog', info', hinfo', hcount⟩ :=
    creations_run id 0 "a" k hinfo
  rw [hlog, List.append_nil] at hlog'
  have hlast : wrapInt (info'.refcount - 1) = 0 := by
    have hcount : info'.refcount % 2 ^ 32 = (1 + k) % 2 ^ 32 := hcount
    have hzero : (info'.refcount - 1) % ((2 ^ 32 : Nat) : Int) = 0 := by omega
    rw [wrapInt, ← Int.emod_bmod, hzero]
    rfl
  have hmay : t.Balanced (.client 0 (.delete "a")) := by
    have hdeleted : t.times 0 (.delete "a") = 0 := by
      simp [times, hlog', List.count_replicate]
    have hcreated : t.times 0 (.epicschannel "a") = k := by simp [times, hlog']
    constructor
    · omega
    · intro heq
      omega
  have hok : (t.world.run id (.delete "a")).1 = .ok := by
    rw [World.run, World.onChannel_registered hinfo']
  have hbalanced : ({ world := World.initial fun _ => none } : Owners Nat String).Balanced
      (.construct (.channelHistory "a")) := trivial
  have hhistory := Run.nil.snoc hbalanced hconstruct
  have hback := hgives _ _ (hhistory.trans (hrun.snoc hmay (step_client_ok hok)))
  have hregistered := hback.registered (.channelHistory "a") ?_ "a" (List.mem_singleton_self _)
  · have hdelete : (t.world.run id (.delete "a")).2 = t.world.deleteChannel id "a" := by
      rw [World.run, World.onChannel_registered hinfo']
      rfl
    have hgone : (t.world.run id (.delete "a")).2.haveChannel "a" = none := by
      rw [hdelete, World.deleteChannel, hinfo']
      simp [hlast, World.haveChannel, World.destroyCommand_channelInfo]
    have hsome : ((t.world.run id (.delete "a")).2.haveChannel "a").isSome = true := hregistered
    rw [hgone] at hsome
    cases hsome
  · show _ ∈ t.living
    rw [hliving', hliving]
    exact List.mem_singleton_self _

end

end Owners

end EpicsTcl.Widget
