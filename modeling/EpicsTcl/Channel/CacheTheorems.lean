/-
EpicsTcl.Channel.CacheTheorems — the two caches of a `CChannel`.

An update fills `m_sValue` through `operator()` of the converter and
`m_VectorValue` through its `getVector`. The second call finds the
converter as the first has left it, which matters for enumerated values:
`convert_again` says that the labels kept by the first call do not change
what becomes of the same element. Hence an update with at least one element
leaves the two in agreement (`step_of_converts`), nothing else touches them
(`step_of_not_converts`), and a run keeps the agreement (`caches_agree`).
-/
import EpicsTcl.Channel.ConnectionTheorems
import EpicsTcl.Channel.DecodingTheorems
import EpicsTcl.Channel.Values

namespace EpicsTcl.Channel

open EpicsTcl.Library

/-! ## One update -/

/-- An element converted twice has the same text. -/
theorem convert_again (c : CConverter) (p : List UInt8) :
    ((c.convert p).2.convert p).1 = (c.convert p).1 := by
  obtain ⟨cls, kept⟩ := c
  cases cls with
  | cStringConverter => rfl
  | cIntegerConverter => rfl
  | cFloatConverter => rfl
  | cEnumConverter =>
    have hlabels : labelsInForce (labelsInForce kept p 0) p 0 = labelsInForce kept p 0 := by
      -- they are kept now, or the element has none
      simp only [labelsInForce]
      split_ifs <;> rfl
    rw [convert_enum, convert_enum, hlabels]

/-- The first text of the vector is the scalar text. -/
theorem getVector_head (c : CConverter) {args : EventHandlerArgs} (h : 0 < args.count) :
    ((c.scalar args).2.getVector args).1.head? = some (c.scalar args).1 := by
  obtain ⟨n, hn⟩ : ∃ n, args.count = n + 1 := ⟨args.count - 1, by omega⟩
  rw [CConverter.getVector, hn]
  exact congrArg some (convert_again c args.dbr)

namespace CChannel

/-- Without a converter an update leaves both values. -/
theorem updateHandler_of_none {c : CChannel} (h : c.pConverter = none) (args : EventHandlerArgs)
    (now : Int) : (c.updateHandler args now).1 = c := by
  unfold updateHandler update
  split
  · rw [h]
  · rfl

/-- A failed update leaves the channel. -/
theorem updateHandler_of_status {args : EventHandlerArgs} (h : args.status ≠ ecaNormal) (now : Int)
    (c : CChannel) : (c.updateHandler args now).1 = c := by
  rw [updateHandler, if_neg h]

theorem updateHandler_agrees {c : CChannel} (h : c.pConverter.isSome = true)
    {args : EventHandlerArgs} (hstatus : args.status = ecaNormal) (hcount : 0 < args.count)
    (now : Int) :
    (c.updateHandler args now).1.vectorValue.head? = some (c.updateHandler args now).1.sValue := by
  obtain ⟨converter, hconverter⟩ := Option.isSome_iff_exists.mp h
  rw [updateHandler, if_pos hstatus, update, hconverter]
  exact getVector_head converter hcount

theorem stateHandler_caches [ChannelAccess] (args : ConnectionHandlerArgs) (c : CChannel)
    (ca : CaClient) :
    (c.stateHandler args ca).1.sValue = c.sValue ∧
      (c.stateHandler args ca).1.vectorValue = c.vectorValue := by
  unfold stateHandler
  cases args.op with
  | connUp => simp only; split <;> exact ⟨rfl, rfl⟩
  | connDown => exact ⟨rfl, rfl⟩
  | other => exact ⟨rfl, rfl⟩

theorem connect_caches [ChannelAccess] (c : CChannel) (ca : CaClient) :
    (c.connect ca).1.sValue = c.sValue ∧ (c.connect ca).1.vectorValue = c.vectorValue := by
  unfold connect
  simp only
  split <;> exact ⟨rfl, rfl⟩

end CChannel

/-! ## Runs -/

section

variable [ChannelAccess]

/-- Every update carries an element. -/
def Carries (_ : Endpoint) : ChannelAction → Prop
  | .update args _ => args.status = ecaNormal → 0 < args.count
  | _ => True

/-- The action is an update that is converted. -/
def Converts (s : Endpoint) : ChannelAction → Prop
  | .update args _ => args.status = ecaNormal ∧ s.channel.pConverter.isSome = true
  | _ => False

theorem step_of_not_converts {s s' : Endpoint} {a : ChannelAction} (h : s.step a = some s')
    (hnot : ¬ Converts s a) :
    s'.channel.sValue = s.channel.sValue ∧ s'.channel.vectorValue = s.channel.vectorValue := by
  cases a with
  | connect =>
    cases h
    exact s.channel.connect_caches s.ca
  | connection args =>
    cases h
    exact s.channel.stateHandler_caches args s.ca
  | update args now =>
    cases h
    have hsame : (s.channel.updateHandler args now).1 = s.channel := by
      cases hconverter : s.channel.pConverter with
      | none => exact CChannel.updateHandler_of_none hconverter args now
      | some converter =>
        apply CChannel.updateHandler_of_status
        intro hstatus
        exact hnot ⟨hstatus, by simp [hconverter]⟩
    simp [hsame]

theorem step_of_converts {s s' : Endpoint} {a : ChannelAction} (h : s.step a = some s')
    (hcarries : Carries s a) (hconverts : Converts s a) :
    s'.channel.vectorValue.head? = some s'.channel.sValue := by
  cases a with
  | connect => exact hconverts.elim
  | connection args => exact hconverts.elim
  | update args now =>
    cases h
    exact CChannel.updateHandler_agrees hconverts.2 hconverts.1 (hcarries hconverts.1) now

/-- What holds of the two values after the actions `as`. -/
structure CacheFacts (name : String) (as : List ChannelAction) (s : Endpoint) : Prop where
  /-- No update has been converted and both are empty, or the scalar value
  is the first of the vector. -/
  agree : (Run Endpoint.step (fun s a => ¬ Converts s a) (Endpoint.start name) as s ∧
      s.channel.getValue = "" ∧ s.channel.vectorValue = []) ∨
    s.channel.vectorValue.head? = some s.channel.getValue
  /-- Reading a scalar channel gives the text its variables are given. -/
  scalar : ∀ max, s.channel.fConnected = true → s.channel.vectorValue.length = 1 →
    s.channel.getVector max = .ok [s.channel.getValue]
  /-- An update without a converter leaves both. -/
  unconverted : s.channel.pConverter = none → ∀ args now,
    (s.channel.updateHandler args now).1.getValue = s.channel.getValue ∧
      (s.channel.updateHandler args now).1.vectorValue = s.channel.vectorValue

/-- **The two caches agree** in every state that connection events and
updates lead to. -/
theorem caches_agree {name : String} {as : List ChannelAction} {s : Endpoint}
    (h : Run Endpoint.step Carries (Endpoint.start name) as s) : CacheFacts name as s := by
  have hagree : (Run Endpoint.step (fun s a => ¬ Converts s a) (Endpoint.start name) as s ∧
      s.channel.sValue = "" ∧ s.channel.vectorValue = []) ∨
      s.channel.vectorValue.head? = some s.channel.sValue := by
    induction h with
    | nil => exact .inl ⟨.nil, rfl, rfl⟩
    | @snoc as a s s' _ hcarries hstep ih =>
      by_cases hconverts : Converts s a
      · exact .inr (step_of_converts hstep hcarries hconverts)
      · obtain ⟨hvalue, hvector⟩ := step_of_not_converts hstep hconverts
        rw [hvalue, hvector]
        exact ih.imp_left fun ⟨hrun, hempty⟩ => ⟨.snoc hrun hconverts hstep, hempty⟩
  constructor
  case agree => exact hagree
  case scalar =>
    intro max hconnected hlength
    obtain ⟨text, htext⟩ := List.length_eq_one_iff.mp hlength
    have hsame : text = s.channel.sValue := by
      rcases hagree with ⟨-, -, hempty⟩ | hhead
      · simp [hempty] at htext
      · simpa [htext] using hhead
    simp [CChannel.getVector, hconnected, htext, hsame, CChannel.getValue]
  case unconverted =>
    intro hnone args now
    rw [CChannel.updateHandler_of_none hnone]
    exact ⟨rfl, rfl⟩

end

section

attribute [local instance] ChannelAccess.numbering

/-- An enumerated channel connects, is updated and goes away. -/
theorem caches_agree_enum :
    ∃ as s, CacheFacts "x" as s ∧ s.channel.sValue = "2" := by
  have h : Run Endpoint.step Carries (Endpoint.start "x") _ _ :=
    .snoc (a := .connection ⟨.connDown, 0⟩)
      (.snoc (a := .update ⟨ecaNormal, 1, List.replicate 422 0 ++ [2, 0]⟩ 5)
        (.snoc (a := .connection ⟨.connUp, dbfEnum⟩) .nil (by exact trivial) rfl)
        (by exact fun _ => Nat.one_pos) rfl) (by exact trivial) rfl
  exact ⟨_, _, caches_agree h, rfl⟩

end

end EpicsTcl.Channel
