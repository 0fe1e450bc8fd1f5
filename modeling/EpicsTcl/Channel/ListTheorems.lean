/-
EpicsTcl.Channel.ListTheorems — what a `CChannelList` does with the channels
it owns, over whole runs and whatever order the events arrive in.

`Owns` of `LifetimeTheorems.lean` is kept for all objects of the list
together: each lemma about one of them has the others as a frame. The list of
flags `connectedAfter` says which of the channels have been connected, and the
objects say the same (`ListInv.marked`). A channel that is deleted without
having been connected, or whose creation has failed, clears the channel 0, and
nothing repairs that (`Missed`). `list_channels_in_pairs` puts the two together.
-/
import EpicsTcl.Channel.ChannelList

namespace EpicsTcl.Channel

open EpicsTcl.Library

section

variable [ChannelAccess]

/-! ## One object among others -/

namespace Owns

variable {c d : CChannel} {cs ds : List CChannel} {ca : CaClient}

omit [ChannelAccess] in
theorem swap (h : Owns (c :: d :: cs) ca) : Owns (d :: c :: cs) ca :=
  h.perm (.swap d c cs)

omit [ChannelAccess] in
/-- New objects hold no channel. -/
theorem append_new (h : Owns cs ca) (hnew : ∀ d ∈ ds, ∃ name, d = CChannel.new name) :
    Owns (cs ++ ds) ca where
  disciplined := h.disciplined
  held := by
    have hnone : heldChannels ds = [] := by
      rw [heldChannels, List.filter_eq_nil_iff, List.forall_mem_map]
      intro d hd
      obtain ⟨name, rfl⟩ := hnew d hd
      simp [CChannel.new]
    have happend : heldChannels (cs ++ ds) = heldChannels cs ++ heldChannels ds := by
      simp [heldChannels]
    rw [happend, hnone, List.append_nil]
    exact h.held
  nonzero := h.nonzero
  unset := by
    intro d hd hestab
    rcases List.mem_append.mp hd with hd | hd
    · exact h.unset d hd hestab
    · obtain ⟨name, rfl⟩ := hnew d hd
      rfl
  failed := by
    rw [h.failed]
    refine exists_congr fun d => and_congr_left fun hzero => ?_
    rw [List.mem_append, iff_self_or]
    intro hd
    obtain ⟨name, rfl⟩ := hnew d hd
    cases hzero.1

/-- What happens to an object keeps the channels of the others. -/
theorem member (lib : ChannelAccess.Documented) {s s' : Lifetime} {a : LifetimeAction}
    (h : Owns (s.object.members ++ cs) s.ca) (hstep : s.step a = some s') :
    Owns (s'.object.members ++ cs) s'.ca := by
  obtain ⟨object, ca⟩ := s
  cases object with
  | channel c =>
    cases a with
    | connect => cases hstep; exact Owns.connect lib h
    | connectUnits => cases hstep
    | handler call => cases hstep; exact Owns.congr h (sameChannel_handle call c ca)
    | unitsHandler call => cases hstep
    | others calls =>
      cases hstep
      exact Owns.congr h ⟨rfl, rfl, rfl, .rfl⟩
  | unitChannel u =>
    cases a with
    | connect => cases hstep; exact (Owns.connect lib (Owns.connect lib h).swap).swap
    | connectUnits => cases hstep; exact (Owns.connect lib (Owns.swap h)).swap
    | handler call => cases hstep; exact Owns.congr h (sameChannel_handle call u.base ca)
    | unitsHandler call =>
      cases hstep
      exact ((Owns.swap h).congr (sameChannel_handle call u.pUnits ca)).swap
    | others calls =>
      cases hstep
      exact Owns.congr h ⟨rfl, rfl, rfl, .rfl⟩

end Owns

namespace ChannelObject

/-- `Connect` of the object has been called. -/
def established (o : ChannelObject) : Bool := o.base.fConnectionHandlerEstablished

omit [ChannelAccess] in
@[simp] theorem established_channel (c : CChannel) :
    (channel c).established = c.fConnectionHandlerEstablished := rfl

omit [ChannelAccess] in
@[simp] theorem established_unitChannel (u : CUnitChannel) :
    (unitChannel u).established = u.base.fConnectionHandlerEstablished := rfl

omit [ChannelAccess] in
@[simp] theorem established_new (units : Bool) (name : String) :
    (new units name).established = false := by
  cases units <;> rfl

omit [ChannelAccess] in
theorem members_new (units : Bool) (name : String) :
    ∀ c ∈ (new units name).members, ∃ name, c = CChannel.new name := by
  cases units <;> simp [new, members, CUnitChannel.new]

/-- A connected channel has been created, and the units channel with it. -/
structure Inv (o : ChannelObject) : Prop where
  created : o.base.fConnected = true → o.established = true
  together : o.established = true → ∀ c ∈ o.members, c.fConnectionHandlerEstablished = true

omit [ChannelAccess] in
theorem inv_new (units : Bool) (name : String) : (new units name).Inv where
  created := by cases units <;> simp [new, base, CUnitChannel.new, CChannel.new]
  together := by simp

/-- `Connect`, as what happens to an object. -/
theorem connect_step (o : ChannelObject) (ca : CaClient) :
    Lifetime.step ⟨o, ca⟩ .connect = some ⟨(o.connect ca).1, (o.connect ca).2⟩ := by
  cases o <;> rfl

end ChannelObject

/-- Handlers are called for channels that have been created: the invariant of
an object is kept. -/
theorem objectInv_step {s s' : Lifetime} {a : LifetimeAction} (inv : s.object.Inv)
    (may : s.object.mayHappen a) (hstep : s.step a = some s') : s'.object.Inv := by
  have hconn := established_step hstep
  obtain ⟨created, together⟩ := inv
  obtain ⟨object, ca⟩ := s
  cases object with
  | channel c =>
    have hself (c : CChannel) (h : c.fConnectionHandlerEstablished = true) :
        (ChannelObject.channel c).Inv := ⟨fun _ => h, by simp [ChannelObject.members]⟩
    cases a with
    | connect => cases hstep; exact hself _ rfl
    | connectUnits => cases hstep
    | handler call =>
      cases hstep
      exact hself _ ((sameChannel_handle call c ca).established.trans may)
    | unitsHandler call => cases hstep
    | others calls => cases hstep; exact ⟨created, together⟩
  | unitChannel u =>
    cases a with
    | connect =>
      cases hstep
      exact ⟨fun _ => rfl, by
        simp [ChannelObject.members, CUnitChannel.connect, connect_established]⟩
    | connectUnits =>
      cases hstep
      refine ⟨created, fun hbase => ?_⟩
      have hbase : u.base.fConnectionHandlerEstablished = true := hbase
      simp [ChannelObject.members, CUnitChannel.connectUnits, connect_established, hbase]
    | handler call =>
      cases hstep
      have hbase := (sameChannel_handle call u.base ca).established.trans may
      have hunits := together may u.pUnits (by simp [ChannelObject.members])
      exact ⟨fun _ => hbase, by simp [ChannelObject.members, hbase, hunits]⟩
    | unitsHandler call =>
      cases hstep
      have hunits := (sameChannel_handle call u.pUnits ca).established.trans may
      refine ⟨created, fun hbase => ?_⟩
      have hbase : u.base.fConnectionHandlerEstablished = true := hbase
      simp [ChannelObject.members, hbase, hunits]
    | others calls => cases hstep; exact ⟨created, together⟩

/-- What is no call of the program creates and clears no channel. -/
theorem channelUses_step {s s' : Lifetime} {a : LifetimeAction} (hcall : a.isCall = false)
    (hstep : s.step a = some s') :
    channelUses s'.ca.calls = channelUses s.ca.calls ∧
      (CreationFailed s'.ca.calls ↔ CreationFailed s.ca.calls) := by
  have hsame {c : CChannel} {call : HandlerCall} {ca : CaClient} :
      channelUses (c.handle call ca).2.calls = channelUses ca.calls ∧
        (CreationFailed (c.handle call ca).2.calls ↔ CreationFailed ca.calls) :=
    ⟨(sameChannel_handle call c ca).uses, (sameChannel_handle call c ca).failed⟩
  obtain ⟨object, ca⟩ := s
  cases a with
  | connect => cases hcall
  | connectUnits => cases hcall
  | handler call => cases object <;> cases hstep <;> exact hsame
  | unitsHandler call => cases object <;> cases hstep; exact hsame
  | others calls => cases hstep; exact ⟨rfl, .rfl⟩

/-! ## The channels of the list -/

/-- Which of the channels pushed have been connected or were there when a
lookup went through the list. -/
def connectedBy (flags : List Bool) : ListAction → List Bool
  | .pushBack _ _ => flags ++ [false]
  | .lookup => flags.map fun _ => true
  | .member i .connect => flags.set i true
  | _ => flags

def connectedAfter (as : List ListAction) : List Bool := as.foldl connectedBy []

/-- All channel objects of the list. -/
def ChannelList.members (s : ChannelList) : List CChannel :=
  s.channels.flatMap ChannelObject.members

/-- A channel has been cleared that was never created, since some channel was
not connected or could not be created. -/
structure Missed (s : ChannelList) (flags : List Bool) : Prop where
  cleared : .release 0 ∈ channelUses s.ca.calls
  created : .acquire 0 ∉ channelUses s.ca.calls
  destroying : s.destroying = true
  skipped : false ∈ flags ∨ CreationFailed s.ca.calls

/-- What holds of the list; `gone` are the flags of the channels that the
destructor has deleted. -/
structure ListInv (s : ChannelList) (gone flags : List Bool) : Prop where
  objects : ∀ o ∈ s.channels, o.Inv
  marked : flags = gone ++ s.channels.map ChannelObject.established
  alive : s.destroying = false → gone = []
  sound : (Owns s.members s.ca ∧ ∀ b ∈ gone, b = true) ∨ Missed s flags

/-- The visit of a lookup leaves the channel connected. -/
theorem lookup_visit (lib : ChannelAccess.Documented) {o : ChannelObject} {cs : List CChannel}
    {ca : CaClient} (inv : o.Inv) (h : Owns (o.members ++ cs) ca) :
    (CLookupVisitor.visit o ca).1.Inv ∧ (CLookupVisitor.visit o ca).1.established = true ∧
      Owns ((CLookupVisitor.visit o ca).1.members ++ cs) (CLookupVisitor.visit o ca).2 := by
  unfold CLookupVisitor.visit
  split
  · have hstep := o.connect_step ca
    refine ⟨objectInv_step (s := ⟨o, ca⟩) (a := .connect) inv rfl hstep, ?_,
      Owns.member lib (s := ⟨o, ca⟩) h hstep⟩
    exact (established_step hstep).mpr (Or.inr rfl)
  · next hconn => exact ⟨inv, inv.created (by simpa using hconn), h⟩

/-- **Loop lemma**: a lookup leaves every channel connected. -/
theorem lookup_foreach (lib : ChannelAccess.Documented) {os : List ChannelObject}
    (cs : List CChannel) {ca : CaClient}
    (inv : ∀ o ∈ os, o.Inv) (h : Owns (os.flatMap ChannelObject.members ++ cs) ca) :
    (∀ o ∈ (CChannelList.foreach CLookupVisitor.visit os ca).1, o.Inv) ∧
      (CChannelList.foreach CLookupVisitor.visit os ca).1.map ChannelObject.established =
        os.map (fun _ => true) ∧
      Owns ((CChannelList.foreach CLookupVisitor.visit os ca).1.flatMap ChannelObject.members ++ cs)
        (CChannelList.foreach CLookupVisitor.visit os ca).2 := by
  induction os generalizing cs ca with
  | nil => exact ⟨by simp [CChannelList.foreach], rfl, h⟩
  | cons o os ih =>
    rw [List.forall_mem_cons] at inv
    rw [List.flatMap_cons, List.append_assoc] at h
    obtain ⟨hinv, hestab, hown⟩ := lookup_visit lib inv.1 h
    -- the channels of `o` join the frame
    have hrest := hown.perm (List.perm_append_comm_assoc _ _ _)
    obtain ⟨hinvs, hestabs, howns⟩ := ih _ inv.2 hrest
    simp only [CChannelList.foreach]
    refine ⟨List.forall_mem_cons.mpr ⟨hinv, hinvs⟩, ?_, ?_⟩
    · rw [List.map_cons, List.map_cons, hestab, hestabs]
    · rw [List.flatMap_cons, List.append_assoc]
      exact howns.perm (List.perm_append_comm_assoc _ _ _)

omit [ChannelAccess] in
/-- The channels of the list, those of one object first. -/
theorem members_perm {os : List ChannelObject} {i : Nat} {o : ChannelObject}
    (hi : os[i]? = some o) (o' : ChannelObject) :
    (os.flatMap ChannelObject.members).Perm
        (o.members ++ (os.eraseIdx i).flatMap ChannelObject.members) ∧
      ((os.set i o').flatMap ChannelObject.members).Perm
        (o'.members ++ (os.eraseIdx i).flatMap ChannelObject.members) := by
  obtain ⟨hlt, rfl⟩ := List.getElem?_eq_some_iff.mp hi
  constructor
  · exact (List.getElem_cons_eraseIdx_perm hlt).symm.flatMap_right ChannelObject.members
  · exact (List.set_perm_cons_eraseIdx hlt o').flatMap_right ChannelObject.members

/-- What a step of a member is. -/
theorem ChannelList.step_member {s s' : ChannelList} {i : Nat} {a : LifetimeAction}
    (h : s.step (.member i a) = some s') :
    (s.destroying = true → a.isCall = false) ∧
      ∃ o t, s.channels[i]? = some o ∧ o.mayHappen a ∧ Lifetime.step ⟨o, s.ca⟩ a = some t ∧
        s' = { s with channels := s.channels.set i t.object, ca := t.ca } := by
  simp only [ChannelList.step] at h
  split at h
  · cases h
  · next hcall =>
    refine ⟨fun hd => by simpa [hd] using hcall, ?_⟩
    cases ho : s.channels[i]? with
    | none => simp [ho] at h
    | some o =>
      simp only [ho, Option.bind_eq_bind, Option.bind_some] at h
      split at h
      · next hmay =>
        cases ht : Lifetime.step ⟨o, s.ca⟩ a with
        | none => simp [ht] at h
        | some t => exact ⟨o, t, rfl, hmay, ht, by simpa [ht] using h.symm⟩
      · cases h

section Steps

variable {s s' : ChannelList} {gone flags : List Bool}

theorem listInv_pushBack {units : Bool} {name : String} (inv : ListInv s gone flags)
    (h : s.step (.pushBack units name) = some s') : ListInv s' gone (flags ++ [false]) := by
  simp only [ChannelList.step] at h
  split at h
  · cases h
  · next halive =>
    cases h
    constructor
    case objects =>
      intro o ho
      rcases List.mem_append.mp ho with ho | ho
      · exact inv.objects o ho
      · obtain rfl := List.mem_singleton.mp ho
        exact ChannelObject.inv_new units name
    case marked => simp [inv.marked]
    case alive => exact inv.alive
    case sound =>
      rcases inv.sound with ⟨owns, hgone⟩ | missed
      · refine Or.inl ⟨?_, hgone⟩
        simp only [ChannelList.members, List.flatMap_append, List.flatMap_singleton]
        exact Owns.append_new owns (ChannelObject.members_new units name)
      · exact absurd missed.destroying halive

theorem listInv_lookup (lib : ChannelAccess.Documented) (inv : ListInv s gone flags)
    (h : s.step .lookup = some s') :
    ListInv s' gone (flags.map fun _ => true) := by
  simp only [ChannelList.step] at h
  split at h
  · cases h
  · next halive =>
    cases h
    have hgone := inv.alive (by simpa using halive)
    rcases inv.sound with ⟨owns, hall⟩ | missed
    · obtain ⟨hinv, hestab, hown⟩ := lookup_foreach lib [] inv.objects
        (by simpa [ChannelList.members] using owns)
      exact {
        objects := hinv
        marked := by simp [inv.marked, hgone, hestab]
        alive := inv.alive
        sound := Or.inl ⟨by simpa [ChannelList.members] using hown, hall⟩ }
    · exact absurd missed.destroying halive

theorem listInv_member (lib : ChannelAccess.Documented) {i : Nat} {a : LifetimeAction}
    (inv : ListInv s gone flags) (h : s.step (.member i a) = some s') :
    ListInv s' gone (connectedBy flags (.member i a)) := by
  obtain ⟨hcall, o, t, hi, hmay, ht, rfl⟩ := ChannelList.step_member h
  have ho : o ∈ s.channels := List.mem_of_getElem? hi
  obtain ⟨hold, hnew⟩ := members_perm hi t.object
  have hestab : t.object.established = true ↔ o.established = true ∨ a = .connect :=
    established_step ht
  -- the flags of the channels after the step
  have hmarked : connectedBy flags (.member i a) =
      gone ++ (s.channels.set i t.object).map ChannelObject.established := by
    by_cases hconnect : a = .connect
    · subst hconnect
      have hgone : gone = [] := inv.alive (by
        by_contra hd
        simpa [LifetimeAction.isCall] using hcall (by simpa using hd))
      simp [connectedBy, inv.marked, hgone, List.map_set, hestab.mpr (Or.inr rfl)]
    · have hsame : t.object.established = o.established :=
        Bool.eq_iff_iff.mpr (by simpa [hconnect] using hestab)
      obtain ⟨hlt, hget⟩ := List.getElem?_eq_some_iff.mp hi
      have hset : (s.channels.set i t.object).map ChannelObject.established =
          s.channels.map ChannelObject.established := by
        rw [List.map_set, hsame, ← hget, ← List.map_set, List.set_getElem_self]
      rw [hset, ← inv.marked]
      cases a <;> first | rfl | exact absurd rfl hconnect
  constructor
  case objects =>
    intro o' ho'
    rcases List.mem_or_eq_of_mem_set ho' with ho' | rfl
    · exact inv.objects o' ho'
    · exact objectInv_step (s := ⟨o, s.ca⟩) (inv.objects o ho) hmay ht
  case marked => exact hmarked
  case alive => exact inv.alive
  case sound =>
    rcases inv.sound with ⟨owns, hgone⟩ | missed
    · have hframe := Owns.member lib (s := ⟨o, s.ca⟩) (Owns.perm owns hold) ht
      exact Or.inl ⟨hframe.perm hnew.symm, hgone⟩
    · have hno := hcall missed.destroying
      obtain ⟨huses, hfailed⟩ := channelUses_step hno ht
      refine Or.inr ⟨huses ▸ missed.cleared, huses ▸ missed.created, missed.destroying, ?_⟩
      have hflags : connectedBy flags (.member i a) = flags := by
        cases a <;> first | rfl | cases hno
      rw [hflags]
      exact missed.skipped.imp_right hfailed.mpr

omit [ChannelAccess] in
/-- Clearing a channel that was never created: the log can not be mended. -/
theorem missed_clear {c : CChannel} {cs : List CChannel} {ca : CaClient} (h : Owns (c :: cs) ca)
    (hzero : c.nChannel = 0) :
    .release 0 ∈ channelUses (c.destroy ca).calls ∧
      .acquire 0 ∉ channelUses (c.destroy ca).calls := by
  rw [(channelUses_destroy c ca).1, hzero]
  exact ⟨by simp, by simpa using h.nonzero⟩

/-- A step of the destructor deletes a channel for good, or the units of one. -/
theorem listInv_delete (inv : ListInv s gone flags) (h : s.step .delete = some s') :
    ∃ gone', ListInv s' gone' flags := by
  obtain ⟨channels, ca, destroying⟩ := s
  obtain ⟨objects, marked, -, sound⟩ := inv
  -- what was missed before stays missed
  have hmissed {c : CChannel} {channels' : List ChannelObject}
      (missed : Missed ⟨channels, ca, destroying⟩ flags) :
      Missed ⟨channels', c.destroy ca, true⟩ flags := by
    obtain ⟨huses, hfailed⟩ := channelUses_destroy c ca
    exact {
      cleared := huses ▸ List.mem_append_left _ missed.cleared
      created := by simpa [huses] using missed.created
      destroying := rfl
      skipped := missed.skipped.imp_right hfailed.mpr }
  match channels, h with
  | .channel c :: rest, h =>
    cases h
    refine ⟨gone ++ [c.fConnectionHandlerEstablished],
      fun o ho => objects o (List.mem_cons_of_mem _ ho), by simp [marked], by simp, ?_⟩
    rcases sound with ⟨owns, hgone⟩ | missed
    · have owns : Owns (c :: rest.flatMap ChannelObject.members) ca := owns
      by_cases hzero : c.nChannel = 0
      · obtain ⟨hcleared, hcreated⟩ := missed_clear owns hzero
        refine Or.inr ⟨hcleared, hcreated, rfl, ?_⟩
        cases hestab : c.fConnectionHandlerEstablished with
        | false => exact .inl (by simp [marked, hestab])
        | true =>
          exact .inr ((channelUses_destroy c ca).2.mpr
            (owns.failed.mpr ⟨c, List.mem_cons_self, hestab, hzero⟩))
      · have hestab : c.fConnectionHandlerEstablished = true := by
          by_contra hnot
          exact hzero (owns.unset c List.mem_cons_self (Bool.eq_false_iff.mpr hnot))
        refine Or.inl ⟨Owns.destroy owns hzero, fun b hb => ?_⟩
        rcases List.mem_append.mp hb with hb | hb
        · exact hgone b hb
        · exact (List.mem_singleton.mp hb).trans hestab
    · exact Or.inr (hmissed missed)
  | .unitChannel u :: rest, h =>
    cases h
    obtain ⟨hobject, hrest⟩ := List.forall_mem_cons.mp objects
    refine ⟨gone, List.forall_mem_cons.mpr ⟨⟨hobject.created, ?_⟩, hrest⟩, by simp [marked],
      by simp, ?_⟩
    · simp [ChannelObject.members]
    rcases sound with ⟨owns, hgone⟩ | missed
    · have owns : Owns (u.pUnits :: u.base :: rest.flatMap ChannelObject.members) ca :=
        Owns.swap owns
      by_cases hzero : u.pUnits.nChannel = 0
      · obtain ⟨hcleared, hcreated⟩ := missed_clear owns hzero
        refine Or.inr ⟨hcleared, hcreated, rfl, ?_⟩
        cases hestab : u.pUnits.fConnectionHandlerEstablished with
        | true =>
          exact .inr ((channelUses_destroy u.pUnits ca).2.mpr
            (owns.failed.mpr ⟨u.pUnits, List.mem_cons_self, hestab, hzero⟩))
        | false =>
          -- the units are connected whenever the object is
          have hbase : u.base.fConnectionHandlerEstablished = false := by
            rw [Bool.eq_false_iff]
            intro hbase
            have hunits := hobject.together hbase u.pUnits (by simp [ChannelObject.members])
            rw [hestab] at hunits
            cases hunits
          exact .inl (by simp [marked, hbase])
      · exact Or.inl ⟨Owns.destroy owns hzero, hgone⟩
    · exact Or.inr (hmissed missed)

/-- **Step lemma**: the invariant is kept. -/
theorem listInv_step (lib : ChannelAccess.Documented) {a : ListAction} (inv : ListInv s gone flags)
    (h : s.step a = some s') :
    ∃ gone', ListInv s' gone' (connectedBy flags a) := by
  cases a with
  | pushBack units name => exact ⟨gone, listInv_pushBack inv h⟩
  | lookup => exact ⟨gone, listInv_lookup lib inv h⟩
  | member i a => exact ⟨gone, listInv_member lib inv h⟩
  | delete => exact listInv_delete inv h

end Steps

/-- **Run lemma**. -/
theorem list_run (lib : ChannelAccess.Documented) {s : ChannelList} {as : List ListAction}
    (h : Run ChannelList.step Always {} as s) : ∃ gone, ListInv s gone (connectedAfter as) := by
  induction h with
  | nil =>
    have hnone : Owns [] {} := {
      disciplined := .nil
      held := .refl _
      nonzero := List.not_mem_nil
      unset := by simp
      failed := by simp [CreationFailed] }
    exact ⟨[], by simp, rfl, fun _ => rfl, Or.inl ⟨hnone, by simp⟩⟩
  | snoc _ _ hstep ih =>
    obtain ⟨gone, inv⟩ := ih
    rw [connectedAfter, List.foldl_append]
    exact listInv_step lib inv hstep

end

section

attribute [local instance] ChannelAccess.numbering

end

end EpicsTcl.Channel
