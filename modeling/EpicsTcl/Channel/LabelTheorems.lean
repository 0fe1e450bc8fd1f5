/-
EpicsTcl.Channel.LabelTheorems — which labels a channel of an enumerated
type reports, over any traffic.

`CEnumConverter` takes its labels from an event only while it has none, and
is thrown away when the connection goes down. `headersSinceUp` is what that
makes of the traffic: the headers of the updates since the channel last came
up. `firstLabels` are the first labels among them.

`pConverter_run` says that the converter of the channel is, after every run,
the one with those labels; `enum_labels_in_force` says what is reported.
-/
import EpicsTcl.Channel.ConnectionTheorems
import EpicsTcl.Channel.DecodingTheorems
import EpicsTcl.Channel.Values

namespace EpicsTcl.Channel

open EpicsTcl.Library

/-! ## Traffic -/

/-- What can happen to a channel of an enumerated type. -/
inductive EnumAction where
  | connect
  | connection (op : ConnectionOp)
  | update (status : Int) (h : EnumHeader) (v : BitVec 16) (rest : List UInt8) (now : Int)

/-- The same as an event of any channel. -/
def EnumAction.toChannelAction : EnumAction → ChannelAction
  | .connect => .connect
  | .connection op => .connection ⟨op, dbfEnum⟩
  | .update status h v rest now => .update (enumEvent status h [v] rest) now

/-- What an action does to the headers seen since the channel came up, `none`
while it is down. -/
def EnumAction.next (hs : Option (List EnumHeader)) : EnumAction → Option (List EnumHeader)
  | .connect => hs
  | .connection .connUp => some (hs.getD [])
  | .connection .connDown => none
  | .connection .other => hs
  | .update status h _ _ _ => if status = ecaNormal then hs.map (· ++ [h]) else hs

/-- The headers of the updates since the channel last came up. -/
def headersSinceUp (as : List EnumAction) : Option (List EnumHeader) :=
  as.foldl EnumAction.next none

/-- The labels of the first header that has any. -/
def firstLabels : List EnumHeader → List String
  | [] => []
  | h :: hs => if h.labels = [] then firstLabels hs else h.labels

theorem firstLabels_concat (hs : List EnumHeader) (h : EnumHeader) :
    firstLabels (hs ++ [h]) = if firstLabels hs = [] then h.labels else firstLabels hs := by
  induction hs with
  | nil => simp [firstLabels]
  | cons g hs ih => by_cases hg : g.labels = [] <;> simp [firstLabels, hg, ih]

/-- The same header again changes nothing. -/
theorem firstLabels_twice (hs : List EnumHeader) (h : EnumHeader) :
    firstLabels (hs ++ [h] ++ [h]) = firstLabels (hs ++ [h]) := by
  rw [firstLabels_concat (hs ++ [h]), firstLabels_concat]
  split_ifs <;> rfl

/-! ## The converter over a run -/

/-- The converter of a channel that has seen these headers. -/
def converterOf (hs : Option (List EnumHeader)) : Option CConverter :=
  hs.map fun hs => ⟨.cEnumConverter, firstLabels hs⟩

/-- The labels in force for an update, and so for its value and its vector. -/
theorem labelsInForce_firstLabels (hs : List EnumHeader) (h : EnumHeader) (v : BitVec 16)
    (rest : List UInt8) :
    labelsInForce (firstLabels hs) (h.payload [v] ++ rest) 0 = firstLabels (hs ++ [h]) := by
  rw [labelsInForce, enumLabels_payload, firstLabels_concat]
  simp only [List.length_eq_zero_iff]

theorem enumValueRead_first (h : EnumHeader) (v : BitVec 16) (rest : List UInt8) :
    enumValueRead (h.payload [v] ++ rest) 0 = v.toNat := by
  rw [enumValueRead_payload, enumValueAt_of_lt rest (by simp)]
  rfl

/-- One conversion of a scalar update. -/
theorem convert_firstLabels (hs : List EnumHeader) (h : EnumHeader) (v : BitVec 16)
    (rest : List UInt8) :
    (⟨.cEnumConverter, firstLabels hs⟩ : CConverter).convert (h.payload [v] ++ rest) =
      (enumText (firstLabels (hs ++ [h])) v.toNat,
        ⟨.cEnumConverter, firstLabels (hs ++ [h])⟩) := by
  rw [convert_enum, labelsInForce_firstLabels, enumValueRead_first]

/-- What `Update` makes of a scalar of a connected channel: the value, the
vector and the labels all come from the first header that has labels. -/
theorem update_enum {c : CChannel} {hs : List EnumHeader}
    (hconv : c.pConverter = converterOf (some hs)) (h : EnumHeader) (v : BitVec 16)
    (rest : List UInt8) (now : Int) :
    (c.updateHandler (enumEvent ecaNormal h [v] rest) now).1 =
      { c with
        lastUpdateTime := now
        sValue := enumText (firstLabels (hs ++ [h])) v.toNat
        vectorValue := [enumText (firstLabels (hs ++ [h])) v.toNat]
        pConverter := converterOf (some (hs ++ [h])) } := by
  have hfirst := convert_firstLabels hs h v rest
  have hagain := convert_firstLabels (hs ++ [h]) h v rest
  rw [firstLabels_twice] at hagain
  simp only [converterOf, Option.map_some] at hconv ⊢
  simp [CChannel.updateHandler, CChannel.update, hconv, CConverter.scalar, CConverter.getVector,
    CConverter.getVectorLoop, enumEvent, hfirst, hagain]

/-- **Step lemma**: the converter follows the headers. -/
theorem pConverter_step [ChannelAccess] {s s' : Endpoint} {hs : Option (List EnumHeader)}
    {a : EnumAction} (hconv : s.channel.pConverter = converterOf hs)
    (hstep : s.step a.toChannelAction = some s') :
    s'.channel.pConverter = converterOf (a.next hs) := by
  cases a with
  | connect =>
    simp only [EnumAction.toChannelAction, Endpoint.step, Option.some.injEq] at hstep
    subst hstep
    simp only [CChannel.connect, EnumAction.next]
    split <;> exact hconv
  | connection op =>
    simp only [EnumAction.toChannelAction, Endpoint.step, Option.some.injEq] at hstep
    subst hstep
    cases op with
    | connDown => rfl
    | other => exact hconv
    | connUp =>
      have hconverter : s.channel.pConverter.getD (CConversionFactory.converter dbfEnum) =
          ⟨.cEnumConverter, firstLabels (hs.getD [])⟩ := by
        rw [hconv]
        cases hs <;> rfl
      simp only [CChannel.stateHandler, hconverter, EnumAction.next]
      split <;> rfl
  | update status h v rest now =>
    simp only [EnumAction.toChannelAction, Endpoint.step, Option.some.injEq] at hstep
    subst hstep
    by_cases hstatus : status = ecaNormal
    · subst hstatus
      cases hs with
      | none =>
        have hnone : s.channel.pConverter = none := hconv
        simp [CChannel.updateHandler, CChannel.update, enumEvent, hnone, EnumAction.next,
          converterOf]
      | some hs => simp [update_enum hconv, EnumAction.next]
    · simp [CChannel.updateHandler, enumEvent, EnumAction.next, hstatus, hconv]

/-- **Run lemma**: after any traffic the converter is the one the headers
since the last UP call for. -/
theorem pConverter_run [ChannelAccess] {name : String} {as : List EnumAction} {s : Endpoint}
    (h : Run Endpoint.step Always (Endpoint.start name) (as.map (·.toChannelAction)) s) :
    s.channel.pConverter = converterOf (headersSinceUp as) := by
  induction as using List.reverseRecOn generalizing s with
  | nil =>
    rw [run_iff_runAll] at h
    cases h
    rfl
  | append_singleton as a ih =>
    rw [run_iff_runAll, List.map_append, List.map_singleton, runAll_snoc,
      Option.bind_eq_some_iff] at h
    obtain ⟨t, ht, hstep⟩ := h
    rw [headersSinceUp, List.foldl_append]
    exact pConverter_step (ih (run_iff_runAll.mpr ht)) hstep

/-! ## What is reported -/

/-- The channel reports the value `v` and the list of labels as these labels
have it. -/
structure Reports (c : CChannel) (labels : List String) (v : BitVec 16) : Prop where
  value : c.getValue = enumText labels v.toNat
  vector : c.vectorValue = [enumText labels v.toNat]
  values : c.getAllowedValues = labels

instance (c : CChannel) (labels : List String) (v : BitVec 16) : Decidable (Reports c labels v) :=
  decidable_of_iff
    (c.getValue = enumText labels v.toNat ∧ c.vectorValue = [enumText labels v.toNat] ∧
      c.getAllowedValues = labels)
    ⟨fun h => ⟨h.1, h.2.1, h.2.2⟩, fun h => ⟨h.value, h.vector, h.values⟩⟩

/-- **Labels in force**: while the channel is up, an update is reported under
the first labels seen since it came up, its own if there were none; while it is
down an update changes nothing. At every moment `values` is the list of those
first labels. -/
theorem enum_labels_in_force [ChannelAccess] {name : String} {as : List EnumAction} {s : Endpoint}
    (run : Run Endpoint.step Always (Endpoint.start name) (as.map (·.toChannelAction)) s) :
    s.channel.getAllowedValues = ((headersSinceUp as).map firstLabels).getD [] ∧
      (∀ hs, headersSinceUp as = some hs → ∀ h v rest now,
        Reports (s.channel.updateHandler (enumEvent ecaNormal h [v] rest) now).1
          (firstLabels (hs ++ [h])) v) ∧
      (headersSinceUp as = none → ∀ h v rest now,
        (s.channel.updateHandler (enumEvent ecaNormal h [v] rest) now).1 = s.channel) := by
  have hconv := pConverter_run run
  refine ⟨?_, ?_, ?_⟩
  · rw [CChannel.getAllowedValues, hconv]
    cases headersSinceUp as <;> rfl
  · intro hs hup h v rest now
    rw [hup] at hconv
    rw [update_enum hconv]
    exact { value := rfl, vector := rfl, values := rfl }
  · intro hdown h v rest now
    rw [hdown] at hconv
    have hnone : s.channel.pConverter = none := hconv
    simp [CChannel.updateHandler, CChannel.update, enumEvent, hnone]

/-- A header with the labels `ON` and `OFF`. -/
def onOffHeader : EnumHeader :=
  { offOnHeader with
    strs := (([[79, 78], [79, 70, 70]] : List (List UInt8)) ++ List.replicate 14 []).map
      fun (s : List UInt8) => s ++ List.replicate (enumStringSize - s.length) 0
    noStr_le := by decide
    strs_length := by decide
    str_length := by decide
    terminated := by decide }

section

attribute [local instance] ChannelAccess.numbering

/-- The labels change while the channel is up, and again after it went down
and came back: the first change goes unnoticed, the second does not. -/
theorem enum_labels_in_force_off_on :
    ∃ s s' : Endpoint,
      Reports (s.channel.updateHandler (enumEvent ecaNormal onOffHeader [1] []) 6).1
        offOnHeader.labels 1 ∧
      Reports (s'.channel.updateHandler (enumEvent ecaNormal onOffHeader [1] []) 9).1
        onOffHeader.labels 1 := by
  have before : Run Endpoint.step Always (Endpoint.start "x")
      ([EnumAction.connection .connUp, .update ecaNormal offOnHeader 0 [] 5].map
        (·.toChannelAction)) _ := run_iff_runAll.mpr rfl
  have after : Run Endpoint.step Always (Endpoint.start "x")
      ([EnumAction.connection .connUp, .update ecaNormal offOnHeader 0 [] 5,
        .connection .connDown, .connection .connUp].map (·.toChannelAction)) _ :=
    run_iff_runAll.mpr rfl
  exact ⟨_, _, (enum_labels_in_force before).2.1 _ rfl onOffHeader 1 [] 6,
    (enum_labels_in_force after).2.1 _ rfl onOffHeader 1 [] 9⟩

/-- The labels of the second update of a connection are not the ones
reported. -/
theorem second_labels_unseen :
    ∃ s, Run Endpoint.step Always (Endpoint.start "x")
        ([EnumAction.connection .connUp, .update ecaNormal offOnHeader 0 [] 5,
          .update ecaNormal onOffHeader 1 [] 6].map (·.toChannelAction)) s ∧
      s.channel.getValue ≠ enumText onOffHeader.labels 1 ∧
      s.channel.getAllowedValues ≠ onOffHeader.labels := by
  have run : Run Endpoint.step Always (Endpoint.start "x")
      ([EnumAction.connection .connUp, .update ecaNormal offOnHeader 0 [] 5,
        .update ecaNormal onOffHeader 1 [] 6].map (·.toChannelAction)) _ :=
    run_iff_runAll.mpr rfl
  refine ⟨_, run, ?_, ?_⟩
  · decide +kernel
  · decide +kernel

end

end EpicsTcl.Channel
