/-
EpicsTcl.Channel.ListDataTheorems — what a `CBuildChannelData` collects from a
`CChannelList`.

The `content` of a channel is the part of it that its handlers work on;
whatever else differs, a handler makes the same of equal contents
(`content_handle`). So each channel of a list has the contents of a channel
that is alone and gets the same calls (`Isolated`), and `collected` reads the
items off.
-/
import EpicsTcl.Channel.ListTheorems
import Mathlib.Data.Set.List

namespace EpicsTcl.Channel

open EpicsTcl.Library

/-! ## Contents -/

/-- What the handlers of a channel work on. -/
structure Content where
  sName : String
  fConnected : Bool
  sValue : String
  vectorValue : List String
  lastUpdateTime : Int
  pConverter : Option CConverter

def CChannel.content (c : CChannel) : Content where
  sName := c.sName
  fConnected := c.fConnected
  sValue := c.sValue
  vectorValue := c.vectorValue
  lastUpdateTime := c.lastUpdateTime
  pConverter := c.pConverter

section

variable [ChannelAccess]

theorem content_connect (c : CChannel) (ca : CaClient) :
    (c.connect ca).1.content = c.content := by
  simp only [CChannel.connect]
  split <;> rfl

/-- A handler makes the same of channels with the same data. -/
theorem content_handle {c d : CChannel} (h : c.content = d.content) (call : HandlerCall)
    (ca ca' : CaClient) : (c.handle call ca).1.content = (d.handle call ca').1.content := by
  obtain ⟨hname, hconn, hvalue, hvector, htime, hconv⟩ := Content.mk.injEq .. ▸ h
  cases call with
  | stateHandler args =>
    simp only [CChannel.handle, CChannel.stateHandler]
    cases args.op with
    | connUp =>
      simp only
      split <;> split <;> simp [CChannel.content, *]
    | connDown => simp [CChannel.content, *]
    | other => exact h
  | updateHandler args now =>
    simp only [CChannel.handle, CChannel.updateHandler, CChannel.update]
    split
    · rw [← hconv]
      cases c.pConverter with
      | none => exact h
      | some converter => simp [CChannel.content, hname, hconn]
    · exact h

def ChannelObject.contents (o : ChannelObject) : List Content := o.members.map CChannel.content

omit [ChannelAccess] in
@[simp] theorem contents_channel (c : CChannel) :
    (ChannelObject.channel c).contents = [c.content] := rfl

omit [ChannelAccess] in
@[simp] theorem contents_unitChannel (u : CUnitChannel) :
    (ChannelObject.unitChannel u).contents = [u.base.content, u.pUnits.content] := rfl

/-- The channels pushed, and whether they have units. -/
def pushed (as : List ListAction) : List (Bool × String) :=
  as.filterMap fun
    | .pushBack units name => some (units, name)
    | _ => none

/-- The handler calls for the channel at a position, or for its units. -/
def callsTo (units : Bool) (i : Nat) (as : List ListAction) : List HandlerCall :=
  as.filterMap fun
    | .member j (.handler call) => if j = i ∧ units = false then some call else none
    | .member j (.unitsHandler call) => if j = i ∧ units = true then some call else none
    | _ => none

/-- A channel that is the only one in its program. -/
def alone (name : String) (calls : List HandlerCall) : CChannel :=
  ((CChannel.new name).handleAll calls {}).1

/-- The data of an object that is the only one in its program. -/
def contentsAlone (p : Bool × String) (calls : Bool → List HandlerCall) : List Content :=
  (alone p.2 (calls false)).content ::
    if p.1 then [(alone (p.2 ++ ".EGU") (calls true)).content] else []

theorem content_alone_snoc {c : CChannel} {name : String} {calls : List HandlerCall}
    (h : c.content = (alone name calls).content) (call : HandlerCall) (ca : CaClient) :
    (c.handle call ca).1.content = (alone name (calls ++ [call])).content := by
  rw [alone, CChannel.handleAll, List.foldl_append]
  exact content_handle h call ca _

/-- What calls no handler leaves the contents alone. -/
theorem contents_unheard {s s' : Lifetime} {a : LifetimeAction}
    (ha : a = .connect ∨ a = .connectUnits ∨ ∃ calls, a = .others calls)
    (hstep : s.step a = some s') : s'.object.contents = s.object.contents := by
  obtain ⟨object, ca⟩ := s
  rcases ha with rfl | rfl | ⟨m, n, rfl⟩ <;> cases object <;> cases hstep <;>
    simp [CUnitChannel.connect, CUnitChannel.connectUnits, content_connect]

/-- The contents of the object are those of an object on its own. -/
theorem contents_step {s s' : Lifetime} {a : LifetimeAction} {i : Nat} {p : Bool × String}
    {as : List ListAction} (h : s.object.contents = contentsAlone p (callsTo · i as))
    (hstep : s.step a = some s') :
    s'.object.contents = contentsAlone p (callsTo · i (as ++ [.member i a])) := by
  have hunheard (ha : a = .connect ∨ a = .connectUnits ∨ ∃ calls, a = .others calls) :
      s'.object.contents = contentsAlone p (callsTo · i (as ++ [.member i a])) := by
    have hcalls (units : Bool) :
        callsTo units i (as ++ [.member i a]) = callsTo units i as := by
      rcases ha with rfl | rfl | ⟨_, _, rfl⟩ <;> simp [callsTo]
    simp only [contents_unheard ha hstep, h, hcalls]
  obtain ⟨object, ca⟩ := s
  obtain ⟨units, name⟩ := p
  cases a with
  | connect => exact hunheard (.inl rfl)
  | connectUnits => exact hunheard (.inr (.inl rfl))
  | others calls => exact hunheard (.inr (.inr ⟨calls, rfl⟩))
  | handler call =>
    have hbase : callsTo false i (as ++ [.member i (.handler call)]) =
        callsTo false i as ++ [call] := by simp [callsTo]
    have hunits : callsTo true i (as ++ [.member i (.handler call)]) = callsTo true i as := by
      simp [callsTo]
    cases object with
    | channel c =>
      cases hstep
      obtain ⟨hc, hnil⟩ := List.cons.inj h
      simp only [contents_channel, contentsAlone, hbase, hunits, ← hnil, content_alone_snoc hc,
        List.map_nil]
    | unitChannel u =>
      cases hstep
      obtain ⟨hc, hrest⟩ := List.cons.inj h
      simp only [contents_unitChannel, contentsAlone, hbase, hunits, ← hrest,
        content_alone_snoc hc, List.map_cons, List.map_nil]
  | unitsHandler call =>
    have hbase : callsTo false i (as ++ [.member i (.unitsHandler call)]) =
        callsTo false i as := by simp [callsTo]
    have hunits : callsTo true i (as ++ [.member i (.unitsHandler call)]) =
        callsTo true i as ++ [call] := by simp [callsTo]
    cases object with
    | channel c => cases hstep
    | unitChannel u =>
      cases hstep
      cases units with
      | false => simp [contentsAlone] at h
      | true =>
        obtain ⟨hc, hd⟩ : u.base.content = (alone name (callsTo false i as)).content ∧
            u.pUnits.content = (alone (name ++ ".EGU") (callsTo true i as)).content := by
          simpa [contentsAlone] using h
        simp [contentsAlone, hbase, hunits, hc, content_alone_snoc hd]

/-! ## Runs -/

/-- What holds of the list before it is destroyed: each channel has the data
of a channel on its own. -/
structure Isolated (s : ChannelList) (as : List ListAction) : Prop where
  length : s.channels.length = (pushed as).length
  calls : ∀ i units, (pushed as).length ≤ i → callsTo units i as = []
  contents : ∀ i o p, s.channels[i]? = some o → (pushed as)[i]? = some p →
    o.contents = contentsAlone p (callsTo · i as)

/-- A lookup leaves the data alone. -/
theorem contents_lookup (os : List ChannelObject) (ca : CaClient) :
    (CChannelList.foreach CLookupVisitor.visit os ca).1.map ChannelObject.contents =
      os.map ChannelObject.contents := by
  have hvisit (o : ChannelObject) (ca : CaClient) :
      (CLookupVisitor.visit o ca).1.contents = o.contents := by
    unfold CLookupVisitor.visit
    split
    · cases o <;> simp [ChannelObject.connect, CUnitChannel.connect, content_connect]
    · rfl
  induction os generalizing ca with
  | nil => rfl
  | cons o os ih => simp [CChannelList.foreach, hvisit, ih]

/-- A new channel has not been called. -/
theorem isolated_pushBack {s s' : ChannelList} {as : List ListAction} {units : Bool}
    {name : String} (inv : Isolated s as) (h : s.step (.pushBack units name) = some s') :
    Isolated s' (as ++ [.pushBack units name]) := by
  obtain ⟨hlength, hcalls, hcontents⟩ := inv
  have hpushed : pushed (as ++ [.pushBack units name]) = pushed as ++ [(units, name)] := by
    simp [pushed]
  have hsame (w : Bool) (i : Nat) :
      callsTo w i (as ++ [.pushBack units name]) = callsTo w i as := by simp [callsTo]
  simp only [ChannelList.step] at h
  split at h
  · cases h
  · cases h
    refine ⟨by simp [hpushed, hlength], fun i w hi => ?_, fun i o p ho hp => ?_⟩
    · rw [hsame]
      exact hcalls i w (by simp [hpushed] at hi; omega)
    · simp only [hsame]
      rw [hpushed] at hp
      rcases Nat.lt_trichotomy i (pushed as).length with hi | rfl | hi
      · rw [List.getElem?_append_left (hlength ▸ hi)] at ho
        rw [List.getElem?_append_left hi] at hp
        exact hcontents i o p ho hp
      · rw [← hlength, List.getElem?_concat_length] at ho
        rw [List.getElem?_concat_length] at hp
        cases ho
        cases hp
        simp only [hcalls _ _ le_rfl]
        cases units <;> rfl
      · rw [List.getElem?_eq_none (by simp; omega)] at hp
        cases hp

theorem isolated_lookup {s s' : ChannelList} {as : List ListAction} (inv : Isolated s as)
    (h : s.step .lookup = some s') : Isolated s' (as ++ [.lookup]) := by
  obtain ⟨hlength, hcalls, hcontents⟩ := inv
  have hpushed : pushed (as ++ [.lookup]) = pushed as := by simp [pushed]
  have hsame (w : Bool) (i : Nat) : callsTo w i (as ++ [.lookup]) = callsTo w i as := by
    simp [callsTo]
  simp only [ChannelList.step] at h
  split at h
  · cases h
  · cases h
    have hmap := contents_lookup s.channels s.ca
    refine ⟨?_, fun i w hi => ?_, fun i o p ho hp => ?_⟩
    · simpa [hpushed, hlength] using congrArg List.length hmap
    · rw [hsame]
      exact hcalls i w (hpushed ▸ hi)
    · have hi : s.channels[i]?.map ChannelObject.contents = some o.contents := by
        rw [← List.getElem?_map, ← hmap, List.getElem?_map, ho]
        rfl
      obtain ⟨o', ho', heq⟩ := Option.map_eq_some_iff.mp hi
      simp only [hsame, ← heq]
      exact hcontents i o' p ho' (hpushed ▸ hp)

/-- The other channels do not hear of it. -/
theorem isolated_member {s s' : ChannelList} {as : List ListAction} {j : Nat}
    {a : LifetimeAction} (inv : Isolated s as) (h : s.step (.member j a) = some s') :
    Isolated s' (as ++ [.member j a]) := by
  obtain ⟨hlength, hcalls, hcontents⟩ := inv
  obtain ⟨-, o', t, hj, -, ht, rfl⟩ := ChannelList.step_member h
  have hpushed : pushed (as ++ [.member j a]) = pushed as := by simp [pushed]
  have hlt : j < s.channels.length := (List.getElem?_eq_some_iff.mp hj).1
  have hsame (w : Bool) {i : Nat} (hij : j ≠ i) :
      callsTo w i (as ++ [.member j a]) = callsTo w i as := by
    cases a <;> simp [callsTo, hij]
  refine ⟨by simp [hpushed, hlength], fun i w hi => ?_, fun i o p ho hp => ?_⟩
  · rw [hpushed] at hi
    rw [hsame w (by omega)]
    exact hcalls i w hi
  · rw [hpushed] at hp
    by_cases hij : j = i
    · subst hij
      rw [List.getElem?_set_self hlt] at ho
      cases ho
      exact contents_step (s := ⟨o', s.ca⟩) (hcontents j o' p hj hp) ht
    · rw [List.getElem?_set_ne hij] at ho
      simp only [hsame _ hij]
      exact hcontents i o p ho hp

/-- **Step lemma**: a channel hears of nothing but its own calls. -/
theorem isolated_step {s s' : ChannelList} {as : List ListAction} {a : ListAction}
    (inv : Isolated s as) (h : s.step a = some s') (halive : s'.destroying = false) :
    Isolated s' (as ++ [a]) := by
  cases a with
  | pushBack units name => exact isolated_pushBack inv h
  | lookup => exact isolated_lookup inv h
  | member j a => exact isolated_member inv h
  | delete =>
    simp only [ChannelList.step] at h
    split at h <;> cases h <;> cases halive

/-- The destructor has the last word. -/
theorem alive_of_step {s s' : ChannelList} {a : ListAction} (h : s.step a = some s')
    (halive : s'.destroying = false) : s.destroying = false := by
  cases a with
  | pushBack units name =>
    simp only [ChannelList.step] at h
    split at h <;> cases h
    exact halive
  | lookup =>
    simp only [ChannelList.step] at h
    split at h <;> cases h
    exact halive
  | member i a =>
    obtain ⟨-, _, _, -, -, -, rfl⟩ := ChannelList.step_member h
    exact halive
  | delete =>
    simp only [ChannelList.step] at h
    split at h <;> cases h <;> cases halive

/-- **Run lemma**. -/
theorem isolated_run {s : ChannelList} {as : List ListAction}
    (h : Run ChannelList.step Always {} as s) (halive : s.destroying = false) :
    Isolated s as := by
  induction h with
  | nil => exact ⟨rfl, fun _ _ _ => rfl, fun _ _ _ ho => by cases ho⟩
  | snoc _ _ hstep ih => exact isolated_step (ih (alive_of_step hstep halive)) hstep halive

/-! ## The items -/

/-- The item of a channel that is the only one in its program. -/
def itemAlone (name : String) (calls : Bool → List HandlerCall) : String × ChannelData :=
  CBuildChannelData.item {
    base := alone name (calls false)
    pUnits := alone (name ++ ".EGU") (calls true) }

theorem item_eq {u : CUnitChannel} {name : String} {calls : Bool → List HandlerCall}
    (h : (ChannelObject.unitChannel u).contents = contentsAlone (true, name) calls) :
    CBuildChannelData.item u = itemAlone name calls := by
  simp only [contents_unitChannel, contentsAlone, if_true, List.cons.injEq, and_true] at h
  obtain ⟨hbase, hunits⟩ := h
  simp only [CChannel.content, Content.mk.injEq] at hbase hunits
  simp only [itemAlone, CBuildChannelData.item, CChannel.getValue, CUnitChannel.getUnits, hbase,
    hunits]

omit [ChannelAccess] in
/-- **Loop lemma**: the visitor collects the items in the order of the list. -/
theorem foreach_build (us : List CUnitChannel) (data : List (String × ChannelData)) :
    CChannelList.foreach CBuildChannelData.visit (us.map .unitChannel) (some data) =
      (us.map .unitChannel, some (data ++ us.map CBuildChannelData.item)) := by
  induction us generalizing data with
  | nil => simp [CChannelList.foreach]
  | cons u us ih => simp [CChannelList.foreach, CBuildChannelData.visit, ih]

/-- **Data of a list**: where all channels have units, a `CBuildChannelData`
that visits the list collects one item for each channel in the order in which
they were pushed, and each has the value, the units and the time that the
handler calls for this channel alone would have left; nothing that happened to
the others shows. -/
theorem collected {s : ChannelList} {as : List ListAction}
    (h : Run ChannelList.step Always {} as s) (halive : s.destroying = false)
    (hunits : ∀ p ∈ pushed as, p.1 = true) :
    CChannelList.foreach CBuildChannelData.visit s.channels (some []) =
      (s.channels, some ((pushed as).mapIdx fun i p => itemAlone p.2 (callsTo · i as))) := by
  obtain ⟨hlength, -, hcontents⟩ := isolated_run h halive
  -- an object whose contents are those of a channel with units is one
  have hall : ∀ o ∈ s.channels, o ∈ Set.range ChannelObject.unitChannel := by
    intro o ho
    obtain ⟨i, hi, rfl⟩ := List.getElem_of_mem ho
    have hp := List.getElem?_eq_getElem (hlength ▸ hi)
    have heq := hcontents i _ _ (List.getElem?_eq_getElem hi) hp
    cases hobject : s.channels[i] with
    | unitChannel u => exact ⟨u, rfl⟩
    | channel c =>
      have htrue := hunits _ (List.mem_of_getElem? hp)
      simp [hobject, contentsAlone, htrue] at heq
  obtain ⟨us, hus⟩ : s.channels ∈ Set.range (List.map ChannelObject.unitChannel) := by
    rw [Set.range_list_map]
    exact hall
  rw [← hus, foreach_build, List.nil_append]
  refine Prod.ext rfl (congrArg some (List.ext_getElem? fun i => ?_))
  have hsize : us.length = (pushed as).length := by rw [← hlength, ← hus, List.length_map]
  rw [List.getElem?_map, List.getElem?_mapIdx]
  by_cases hi : i < us.length
  · have hp := List.getElem?_eq_getElem (hsize ▸ hi)
    have ho : s.channels[i]? = some (.unitChannel us[i]) := by simp [← hus, hi]
    have heq := hcontents i _ _ ho hp
    have htrue : (pushed as)[i].1 = true := hunits _ (List.mem_of_getElem? hp)
    rw [List.getElem?_eq_getElem hi, hp, Option.map_some, Option.map_some]
    exact congrArg some (item_eq (by rw [heq, ← htrue]))
  · rw [List.getElem?_eq_none (by omega), List.getElem?_eq_none (by omega)]
    rfl

end

section

attribute [local instance] ChannelAccess.numbering

/-- Two channels, of which the first has got a value and the second nothing. -/
theorem collected_two :
    ∃ s : ChannelList, (CChannelList.foreach CBuildChannelData.visit s.channels (some [])).2 =
      some [("x", ⟨"5", "", 9⟩), ("y", ⟨"", "", 0⟩)] := by
  have h : Run ChannelList.step Always {}
      [.pushBack true "x", .pushBack true "y", .lookup,
        .member 0 (.handler (.stateHandler ⟨.connUp, dbfString⟩)),
        .member 0 (.handler (.updateHandler
          { status := ecaNormal, count := 1, dbr := [53, 0] } 9))] _ :=
    run_iff_runAll.mpr rfl
  exact ⟨_, (congrArg Prod.snd (collected h rfl (by decide))).trans (by rfl)⟩

end

end EpicsTcl.Channel
