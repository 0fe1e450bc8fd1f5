/-
EpicsTcl.Widget.PullDownTheorems — the menu and the text of a pull-down.

`MenuItem` is what an element of `-items` stands for, and `labelOf` the text that
the items give to a value. The handler reads every element as a `MenuItem`
(`configureItems_of_read`). `getMatchingLabel` does not: it asks for the length
of the whole list instead of that of the element, so the only element of a
list is taken as a text, and in a longer list an element without a value is
compared with the empty text (`getMatchingLabel_iff`).

On a whole run two more things count: the handler empties the menu before it
has read the list, and it leaves the text as it is (`shows_iff`).
-/
import EpicsTcl.Library.Runs
import EpicsTcl.Widget.PullDown

namespace EpicsTcl.Widget

open EpicsTcl.Library EpicsTcl.Library.Script

/-! ## Items -/

inductive MenuItem where
  | separator
  | single (label : String)
  | pair (label value : String)
  deriving DecidableEq, Repr

namespace MenuItem

def ofText (text : String) : Option MenuItem :=
  if text = "-" then some .separator
  else
    match splitList text with
    | some [label] => some (.single label)
    | some [label, value] => some (.pair label value)
    | _ => none

/-- The entry of the menu. -/
def entry : MenuItem → Entry
  | .separator => .separator
  | .single label => .radiobutton label label
  | .pair label value => .radiobutton label value

def label : MenuItem → String
  | .separator => "-"
  | .single label => label
  | .pair label _ => label

def isSingle : MenuItem → Bool
  | .single _ => true
  | _ => false

end MenuItem

/-- The items in front of the first text that is none. -/
def firstItems : List String → List MenuItem
  | [] => []
  | text :: rest =>
    match MenuItem.ofText text with
    | none => []
    | some item => item :: firstItems rest

/-- The items of `-items`, if all of its elements are items. -/
def readItems (itemlist : String) : Option (List MenuItem) :=
  (splitList itemlist).bind fun texts => texts.mapM MenuItem.ofText

/-- The items of a list up to the first element that is none. -/
def legible (itemlist : String) : List MenuItem := firstItems ((splitList itemlist).getD [])

theorem readItems_eq_some {itemlist : String} {items : List MenuItem}
    (h : readItems itemlist = some items) :
    ∃ texts, splitList itemlist = some texts ∧ texts.mapM MenuItem.ofText = some items := by
  cases hlist : splitList itemlist with
  | none => simp [readItems, hlist] at h
  | some texts => exact ⟨texts, rfl, by simpa [readItems, hlist] using h⟩

theorem mapM_cons_eq_some {text : String} {rest : List String} {items : List MenuItem}
    (h : (text :: rest).mapM MenuItem.ofText = some items) :
    ∃ item others, MenuItem.ofText text = some item ∧ rest.mapM MenuItem.ofText = some others ∧
      items = item :: others := by
  simp only [List.mapM_cons, Option.bind_eq_bind, Option.bind_eq_some_iff] at h
  obtain ⟨item, hitem, others, hothers, heq⟩ := h
  exact ⟨item, others, hitem, hothers, (Option.some.inj heq).symm⟩

/-- The forms of an item. -/
theorem ofText_cases {text : String} {item : MenuItem} (h : MenuItem.ofText text = some item) :
    (text = "-" ∧ item = .separator) ∨
      (text ≠ "-" ∧ ∃ label, splitList text = some [label] ∧ item = .single label) ∨
      (text ≠ "-" ∧ ∃ label value, splitList text = some [label, value] ∧
        item = .pair label value) := by
  unfold MenuItem.ofText at h
  split at h
  · next htext => exact .inl ⟨htext, (Option.some.inj h).symm⟩
  · next htext =>
    split at h
    · next label hlist => exact .inr (.inl ⟨htext, label, hlist, (Option.some.inj h).symm⟩)
    · next label value hlist =>
      exact .inr (.inr ⟨htext, label, value, hlist, (Option.some.inj h).symm⟩)
    · cases h

namespace PullDown

variable {s t : PullDown}

section Lists

variable {σ : Type} {text : String} {words : List String}

theorem list_of_split (h : splitList text = some words) (s : σ) :
    list text s = (.ok words, s) := by
  simp [list, h]

theorem llength_of_split (h : splitList text = some words) (s : σ) :
    llength text s = (.ok words.length, s) := bind_ok (list_of_split h s)

theorem lindex_of_split (h : splitList text = some words) (i : Nat) (s : σ) :
    lindex text i s = (.ok (words.getD i ""), s) := bind_ok (list_of_split h s)

end Lists

/-! ## The menu -/

theorem addItem_of_item {text : String} {item : MenuItem} (h : MenuItem.ofText text = some item)
    (s : PullDown) : addItem text s = (.ok (), { s with menu := s.menu ++ [item.entry] }) := by
  rcases ofText_cases h with ⟨rfl, rfl⟩ | ⟨htext, label, hlist, rfl⟩ |
    ⟨htext, label, value, hlist, rfl⟩
  · rfl
  · rw [addItem, if_neg htext, bind_ok (llength_of_split hlist s)]
    exact bind_ok (lindex_of_split hlist 0 s)
  · rw [addItem, if_neg htext, bind_ok (llength_of_split hlist s)]
    exact (bind_ok (lindex_of_split hlist 0 s)).trans (bind_ok (lindex_of_split hlist 1 s))

theorem addItem_of_none {text : String} (h : MenuItem.ofText text = none) (s : PullDown) :
    ∃ e, addItem text s = (.error e, s) := by
  unfold MenuItem.ofText at h
  split at h
  · cases h
  · next htext =>
    rw [addItem, if_neg htext]
    cases hlist : splitList text with
    | none => exact ⟨.notList text, by simp [bind_apply, llength, list, hlist]⟩
    | some words =>
      have hone : words.length ≠ 1 := by
        intro hone
        obtain ⟨label, rfl⟩ := List.length_eq_one_iff.mp hone
        simp [hlist] at h
      have htwo : words.length ≠ 2 := by
        intro htwo
        obtain ⟨label, value, rfl⟩ := List.length_eq_two.mp htwo
        simp [hlist] at h
      refine ⟨.script ("-items item: " ++ text ++ " has invalid format"), ?_⟩
      rw [bind_ok (llength_of_split hlist s), if_neg hone, if_neg htwo, raise_apply]

theorem forEach_addItem_of_items {texts : List String} {items : List MenuItem}
    (h : texts.mapM MenuItem.ofText = some items) (s : PullDown) :
    forEach texts addItem s = (.ok (), { s with menu := s.menu ++ items.map MenuItem.entry }) := by
  induction texts generalizing items s with
  | nil =>
    cases h
    simp [forEach]
  | cons text rest ih =>
    obtain ⟨item, others, hitem, hothers, rfl⟩ := mapM_cons_eq_some h
    have hloop : forEach (text :: rest) addItem s = forEach rest addItem _ :=
      bind_ok (addItem_of_item hitem s)
    rw [hloop, ih hothers]
    simp

/-- The loop gets as far as the texts are items. -/
theorem forEach_addItem_of_none {texts : List String} (h : texts.mapM MenuItem.ofText = none)
    (s : PullDown) :
    ∃ e, forEach texts addItem s =
      (.error e, { s with menu := s.menu ++ (firstItems texts).map MenuItem.entry }) := by
  induction texts generalizing s with
  | nil => cases h
  | cons text rest ih =>
    cases hitem : MenuItem.ofText text with
    | none =>
      obtain ⟨e, he⟩ := addItem_of_none hitem s
      refine ⟨e, ?_⟩
      rw [show forEach (text :: rest) addItem s = (.error e, s) from bind_error he]
      simp [firstItems, hitem]
    | some item =>
      have hrest : rest.mapM MenuItem.ofText = none := by
        cases hrest : rest.mapM MenuItem.ofText with
        | none => rfl
        | some others => simp [hitem, hrest] at h
      have hloop : forEach (text :: rest) addItem s = forEach rest addItem _ :=
        bind_ok (addItem_of_item hitem s)
      obtain ⟨e, he⟩ := ih hrest { s with menu := s.menu ++ [item.entry] }
      refine ⟨e, ?_⟩
      rw [hloop, he]
      simp [firstItems, hitem]

/-- A list of items is shown, and becomes the option. -/
theorem configureItems_of_read {itemlist : String} {items : List MenuItem}
    (h : readItems itemlist = some items) (s : PullDown) :
    configureItems itemlist s =
      (.ok (), { s with menu := items.map MenuItem.entry, items := itemlist }) := by
  obtain ⟨texts, hlist, hitems⟩ := readItems_eq_some h
  have hloop := forEach_addItem_of_items hitems { s with menu := [] }
  rw [configureItems, bind_ok (modify_apply _ s), bind_ok (list_of_split hlist _), bind_ok hloop]
  rfl

/-- Anything else is shown as far as it can be read, and the option stays. -/
theorem configureItems_of_not_read {itemlist : String} (h : readItems itemlist = none)
    (s : PullDown) :
    ∃ e, configureItems itemlist s =
      (.error e, { s with menu := (legible itemlist).map MenuItem.entry }) := by
  rw [configureItems, bind_ok (modify_apply _ s)]
  cases hlist : splitList itemlist with
  | none =>
    refine ⟨.notList itemlist, ?_⟩
    simp [bind_apply, list, hlist, legible, firstItems]
  | some texts =>
    have hitems : texts.mapM MenuItem.ofText = none := by simpa [readItems, hlist] using h
    obtain ⟨e, hloop⟩ := forEach_addItem_of_none hitems { s with menu := [] }
    refine ⟨e, ?_⟩
    rw [bind_ok (list_of_split hlist _), bind_error hloop]
    simp [legible, hlist]

/-! ## The text -/

section Text

variable {K : Type} [LinearOrder K] (number : String → Option K)

/-- The item has the value `v`. -/
def hasValue (v : String) : MenuItem → Bool
  | .separator => false
  | .single label => equal number v label
  | .pair _ value => equal number v value

/-- The text of the button for the value `v`. -/
def labelOf (items : List MenuItem) (v : String) : String :=
  ((items.find? (hasValue number v)).map MenuItem.label).getD v

/-- The test of `getMatchingLabel` in a list that is not of length one. -/
def taken (v : String) : MenuItem → Bool
  | .separator => false
  | .single _ => equal number v ""
  | .pair _ value => equal number v value

/-- Where `getMatchingLabel` gives the text of the button. -/
def Agrees (itemlist : String) (items : List MenuItem) (v : String) : Prop :=
  match splitList itemlist with
  | some [text] =>
    ∀ item ∈ items, item ≠ .separator →
      if equal number v text then labelOf number items v = text
      else hasValue number v item → item.label = v
  | _ =>
    if equal number v "" then
      ∀ item, items.find? (fun i => i.isSingle || hasValue number v i) = some item →
        hasValue number v item = false → item.label = labelOf number items v
    else
      ∀ item, items.find? (hasValue number v) = some item → item.isSingle →
        item.label = labelOf number (items.filter fun i => !i.isSingle) v

variable {number} {itemlist : String} {items : List MenuItem} {v : String}

/-- Two searches, one of which looks for more, find the same only if what the
other passes over is worth what that one finds. -/
theorem find_getD_eq_iff {α β : Type*} {p q : α → Bool} (hpq : ∀ a, p a → q a) (f : α → β)
    (d : β) (l : List α) :
    ((l.find? q).map f).getD d = ((l.find? p).map f).getD d ↔
      ∀ a, l.find? q = some a → p a = false → f a = ((l.find? p).map f).getD d := by
  cases hq : l.find? q with
  | none =>
    have hp : l.find? p = none := by
      rw [List.find?_eq_none] at hq ⊢
      exact fun a ha hpa => hq a ha (hpq a hpa)
    simp [hp]
  | some a =>
    cases hpa : p a with
    | false => simp [hpa]
    | true =>
      have hp : l.find? p = some a := by
        rw [List.find?_eq_some_iff_append] at hq ⊢
        obtain ⟨-, before, after, hl, hbefore⟩ := hq
        refine ⟨hpa, before, after, hl, fun b hb => ?_⟩
        have hqb := hbefore b hb
        cases hpb : p b with
        | false => rfl
        | true => simp [hpq b hpb] at hqb
      simp [hp, hpa]

/-- One round of the loop, in a list that is not of length one. -/
theorem matchingLabel_cons {words parts rest : List String} {text : String}
    (hlist : splitList itemlist = some words) (hlength : words.length ≠ 1) (htext : text ≠ "-")
    (hparts : splitList text = some parts) (s : PullDown) :
    matchingLabel number v itemlist (text :: rest) s =
      if equal number v (parts.getD 1 "") then (.ok (parts.getD 0 ""), s)
      else matchingLabel number v itemlist rest s := by
  rw [matchingLabel, if_pos htext, bind_ok (llength_of_split hlist s), if_neg hlength,
    bind_ok (lindex_of_split hparts 0 s), if_neg hlength, bind_ok (lindex_of_split hparts 1 s)]
  split <;> rfl

/-- A list that is not of length one. -/
theorem matchingLabel_of_items {words texts : List String} (hlist : splitList itemlist = some words)
    (hlength : words.length ≠ 1) (hitems : texts.mapM MenuItem.ofText = some items) (s : PullDown) :
    matchingLabel number v itemlist texts s =
      (.ok (((items.find? (taken number v)).map MenuItem.label).getD v), s) := by
  induction texts generalizing items with
  | nil =>
    cases hitems
    rfl
  | cons text rest ih =>
    obtain ⟨item, others, hitem, hothers, rfl⟩ := mapM_cons_eq_some hitems
    rcases ofText_cases hitem with ⟨rfl, rfl⟩ | ⟨htext, label, hwords, rfl⟩ |
      ⟨htext, label, value, hwords, rfl⟩
    · rw [matchingLabel, if_neg (by simp), ih hothers]
      rfl
    · rw [matchingLabel_cons hlist hlength htext hwords, List.find?_cons, ih hothers]
      cases hv : equal number v "" <;> simp [taken, hv, MenuItem.label]
    · rw [matchingLabel_cons hlist hlength htext hwords, List.find?_cons, ih hothers]
      cases hv : equal number v value <;> simp [taken, hv, MenuItem.label]

/-- A list of length one. -/
theorem matchingLabel_alone {text : String} {item : MenuItem}
    (hlist : splitList itemlist = some [text]) (hitem : MenuItem.ofText text = some item)
    (s : PullDown) :
    matchingLabel number v itemlist [text] s =
      (.ok (if item ≠ .separator ∧ equal number v text then text else v), s) := by
  rcases ofText_cases hitem with ⟨rfl, rfl⟩ | ⟨htext, label, -, rfl⟩ |
    ⟨htext, label, value, -, rfl⟩
  · rfl
  all_goals
    rw [matchingLabel, if_pos htext, bind_ok (llength_of_split hlist s), 
      if_pos List.length_singleton, bind_ok (pure_apply text s), if_pos List.length_singleton,
      bind_ok (pure_apply text s)]
    cases hv : equal number v text <;> simp [matchingLabel]

theorem labelOf_alone (item : MenuItem) :
    labelOf number [item] v = if hasValue number v item then item.label else v := by
  cases hv : hasValue number v item <;> simp [labelOf, hv]

/-- The text of a list of length one is taken for its item. -/
theorem alone_iff (text : String) (item : MenuItem) :
    (if item ≠ .separator ∧ equal number v text then text else v) = labelOf number [item] v ↔
      ∀ i ∈ [item], i ≠ .separator →
        if equal number v text then labelOf number [item] v = text
        else hasValue number v i → i.label = v := by
  simp only [List.mem_singleton, forall_eq]
  by_cases hitem : item = .separator
  · subst hitem
    simp [labelOf, hasValue]
  · cases htext : equal number v text with
    | true => simp [hitem, eq_comm]
    | false =>
      simp only [labelOf_alone]
      cases hasValue number v item <;> simp [hitem, eq_comm]

/-- The test of `getMatchingLabel` passes over some items that have the value,
or takes some that do not. -/
theorem find_taken_iff :
    ((items.find? (taken number v)).map MenuItem.label).getD v = labelOf number items v ↔
      if equal number v "" then
        ∀ item, items.find? (fun i => i.isSingle || hasValue number v i) = some item →
          hasValue number v item = false → item.label = labelOf number items v
      else
        ∀ item, items.find? (hasValue number v) = some item → item.isSingle →
          item.label = labelOf number (items.filter fun i => !i.isSingle) v := by
  cases hempty : equal number v "" with
  | true =>
    have htaken : taken number v = fun i => i.isSingle || hasValue number v i := by
      funext i
      cases i <;> simp [taken, MenuItem.isSingle, hasValue, hempty]
    rw [if_pos rfl, htaken]
    exact find_getD_eq_iff (fun i hi => by simp [hi]) MenuItem.label v items
  | false =>
    have htaken : taken number v = fun i => !i.isSingle && hasValue number v i := by
      funext i
      cases i <;> simp [taken, MenuItem.isSingle, hasValue, hempty]
    have hpairs : ((items.find? (taken number v)).map MenuItem.label).getD v =
        labelOf number (items.filter fun i => !i.isSingle) v := by
      simp [labelOf, List.find?_filter, htaken, Bool.decide_and]
    have hsingle (i : MenuItem) (hi : hasValue number v i) :
        taken number v i = false ↔ i.isSingle = true := by
      simp [htaken, hi]
    have hiff := find_getD_eq_iff (p := taken number v) (q := hasValue number v)
      (fun i hi => by simp_all) MenuItem.label v items
    rw [hpairs] at hiff ⊢
    rw [if_neg (by simp), eq_comm, labelOf, hiff]
    constructor
    · intro hall item hfind hitem
      exact hall item hfind ((hsingle item (List.find?_some hfind)).mpr hitem)
    · intro hall item hfind hitem
      exact hall item hfind ((hsingle item (List.find?_some hfind)).mp hitem)

/-- **The label of a value**: what `getMatchingLabel` returns for a list of items. -/
theorem getMatchingLabel_iff (h : readItems itemlist = some items) (s : PullDown) :
    (getMatchingLabel number v itemlist s).1 = .ok (labelOf number items v) ↔
      Agrees number itemlist items v := by
  obtain ⟨texts, hlist, hitems⟩ := readItems_eq_some h
  rw [getMatchingLabel, bind_ok (list_of_split hlist s), Agrees, hlist]
  match texts, hitems with
  | [text], hitems =>
    obtain ⟨item, others, hitem, hothers, rfl⟩ := mapM_cons_eq_some hitems
    cases hothers
    rw [matchingLabel_alone hlist hitem, Except.ok.injEq]
    exact alone_iff text item
  | [], hitems =>
    rw [matchingLabel_of_items hlist (by simp) hitems, Except.ok.injEq]
    exact find_taken_iff
  | text :: text' :: rest, hitems =>
    rw [matchingLabel_of_items hlist (by simp) hitems, Except.ok.injEq]
    exact find_taken_iff

/-- No text is a number. -/
def words (_ : String) : Option Int := none

/-- An item with a label of its own. -/
theorem getMatchingLabel_iff_pair :
    (getMatchingLabel words "six" "{{Foil 6} six} out" {}).1 =
      .ok (labelOf words [.pair "Foil 6" "six", .single "out"] "six") := by
  have hread : readItems "{{Foil 6} six} out" = some [.pair "Foil 6" "six", .single "out"] := by
    decide
  have hagrees :
      Agrees words "{{Foil 6} six} out" [.pair "Foil 6" "six", .single "out"] "six" := by
    have hsplit : splitList "{{Foil 6} six} out" = some ["{Foil 6} six", "out"] := by
      decide +kernel
    have hequal : equal words "six" "" = false := by decide
    simp only [Agrees, hsplit, hequal, Bool.false_eq_true, if_false]
    intro item hfind hsingle
    cases hfind
    cases hsingle
  exact (getMatchingLabel_iff hread {}).mpr hagrees

/-- The channel has no value yet, and the first label is shown. -/
theorem label_of_empty_value :
    ¬ ∀ (K : Type) (_ : LinearOrder K) (number : String → Option K) (itemlist : String)
      (items : List MenuItem) (v : String) (s : PullDown), readItems itemlist = some items →
        (getMatchingLabel number v itemlist s).1 = .ok (labelOf number items v) := by
  intro hall
  have hlabel := hall Int inferInstance words "in out" [.single "in", .single "out"] "" {}
    (by decide)
  exact absurd hlabel (by decide)

/-! ## Runs -/

/-- Menu and text are those of the option. -/
def Shows (number : String → Option K) (s : PullDown) : Prop :=
  ∃ items, readItems s.items = some items ∧ s.menu = items.map MenuItem.entry ∧
    s.text = labelOf number items s.channelValue

/-- After the event menu and text are those of the option, and an event that
raises has left the menu and the option. -/
def Right (number : String → Option K) (s : PullDown) (e : PullEvent) : Prop :=
  ∀ t, step number s e = some t →
    Shows number t ∧
      ((∃ error, (handle number e s).1 = .error error) → t.menu = s.menu ∧ t.items = s.items)

/-- New items give the text that is shown already. A list that is rejected begins with the
items that are shown, and the text was right. A new value is one to which
`getMatchingLabel` gives the right text. -/
def Obeys (number : String → Option K) (s : PullDown) : PullEvent → Prop
  | .configure itemlist =>
    match readItems itemlist with
    | some items => s.text = labelOf number items s.channelValue
    | none =>
      (legible itemlist).map MenuItem.entry = s.menu ∧
        s.text = labelOf number (legible s.items) s.channelValue
  | .update value => Agrees number s.items (legible s.items) value
  | .timer => Agrees number s.items (legible s.items) s.channelValue

/-- The option is a list of items, and they are shown. -/
def Filled (s : PullDown) : Prop :=
  ∃ items, readItems s.items = some items ∧ s.menu = items.map MenuItem.entry

theorem legible_of_read (h : readItems itemlist = some items) : legible itemlist = items := by
  obtain ⟨texts, hlist, hitems⟩ := readItems_eq_some h
  rw [legible, hlist, Option.getD_some]
  clear hlist h
  induction texts generalizing items with
  | nil =>
    cases hitems
    rfl
  | cons text rest ih =>
    obtain ⟨item, others, hitem, hothers, rfl⟩ := mapM_cons_eq_some hitems
    simp [firstItems, hitem, ih hothers]

variable (number) in
/-- The label is a text; nothing is raised. -/
theorem getMatchingLabel_returns (h : readItems itemlist = some items) (v : String)
    (s : PullDown) : ∃ label, getMatchingLabel number v itemlist s = (.ok label, s) := by
  obtain ⟨texts, hlist, hitems⟩ := readItems_eq_some h
  rw [getMatchingLabel, bind_ok (list_of_split hlist s)]
  match texts, hitems with
  | [text], hitems =>
    obtain ⟨item, others, hitem, -, -⟩ := mapM_cons_eq_some hitems
    exact ⟨_, matchingLabel_alone hlist hitem s⟩
  | [], hitems => exact ⟨_, matchingLabel_of_items hlist (by simp) hitems s⟩
  | text :: text' :: rest, hitems => exact ⟨_, matchingLabel_of_items hlist (by simp) hitems s⟩

variable (number) in
/-- `updateButton` changes the text, and gets it right if `getMatchingLabel` does. -/
theorem updateButton_of_read (h : readItems s.items = some items) :
    ∃ label, updateButton number s = (.ok (), { s with text := label }) ∧
      (label = labelOf number items s.channelValue ↔
        Agrees number s.items items s.channelValue) := by
  obtain ⟨label, hlabel⟩ := getMatchingLabel_returns number h s.channelValue s
  refine ⟨label, ?_, ?_⟩
  · rw [updateButton, bind_ok (reads_apply _ s), bind_ok (reads_apply _ s), bind_ok hlabel]
    rfl
  · rw [← getMatchingLabel_iff h s, hlabel, Except.ok.injEq]

theorem shows_iff_of_read (h : readItems s.items = some items) :
    Shows number s ↔
      s.menu = items.map MenuItem.entry ∧ s.text = labelOf number items s.channelValue := by
  simp [Shows, h]

theorem right_iff_of_ok {e : PullEvent} (h : handle number e s = (.ok (), t)) :
    Right number s e ↔ Shows number t := by
  simp [Right, step, h]

variable (number) in
/-- The text is written when the value is known. -/
theorem shows_update_iff (h : readItems s.items = some items)
    (hmenu : s.menu = items.map MenuItem.entry) :
    ∃ t, updateButton number s = (.ok (), t) ∧
      (Shows number t ↔ Agrees number s.items (legible s.items) s.channelValue) := by
  obtain ⟨label, hupdate, hlabel⟩ := updateButton_of_read number h
  refine ⟨_, hupdate, ?_⟩
  have hread : readItems ({ s with text := label } : PullDown).items = some items := h
  rw [shows_iff_of_read hread, legible_of_read h, ← hlabel]
  exact and_iff_right hmenu

/-- **One event**: the widget is right afterwards exactly if the event obeys. -/
theorem right_iff (h : Filled s) (e : PullEvent) : Right number s e ↔ Obeys number s e := by
  obtain ⟨items, hread, hmenu⟩ := h
  cases e with
  | configure itemlist =>
    cases hnew : readItems itemlist with
    | some new =>
      have hhandle := configureItems_of_read hnew s
      rw [right_iff_of_ok (e := .configure itemlist) hhandle, shows_iff_of_read hnew]
      simp [Obeys, hnew]
    | none =>
      obtain ⟨error, hhandle⟩ := configureItems_of_not_read hnew s
      have hread' : readItems ({ s with menu := (legible itemlist).map MenuItem.entry } :
        PullDown).items = some items := hread
      simp only [Right, step, handle, hhandle, Option.some.injEq, forall_eq', Obeys, hnew,
        shows_iff_of_read hread', legible_of_read hread, ← hmenu]
      simp only [Except.error.injEq, exists_eq', forall_const, and_true]
      exact ⟨fun hright => hright.1, fun hobeys => ⟨hobeys, hobeys.1⟩⟩
  | update value =>
    have hread' : readItems ({ s with channelValue := value } : PullDown).items = some items :=
      hread
    obtain ⟨t, hupdate, hshows⟩ := shows_update_iff number hread' hmenu
    have hhandle : handle number (.update value) s = (.ok (), t) :=
      (bind_ok (modify_apply _ s)).trans hupdate
    rw [right_iff_of_ok hhandle, hshows]
    rfl
  | timer =>
    obtain ⟨t, hupdate, hshows⟩ := shows_update_iff number hread hmenu
    rw [right_iff_of_ok (e := .timer) hupdate, hshows]
    rfl

/-- Every call of the handler that returns leaves the menu filled. -/
theorem filled_of_configure {option : PullOption} (h : Filled s)
    (hconfigure : configure option s = (.ok (), t)) : Filled t := by
  cases option with
  | channel name =>
    cases hconfigure
    exact h
  | items itemlist =>
    cases hread : readItems itemlist with
    | some items =>
      rw [configure, configureItems_of_read hread s] at hconfigure
      cases hconfigure
      exact ⟨items, hread, rfl⟩
    | none =>
      obtain ⟨error, herror⟩ := configureItems_of_not_read hread s
      rw [configure, herror] at hconfigure
      cases hconfigure

/-- The constructor fills the menu. -/
theorem filled_of_construct {value : String} {args : List PullOption}
    (h : construct number value args = (.ok (), s)) : Filled s := by
  obtain ⟨⟨⟩, t, hargs, h⟩ := of_bind_ok h
  have ht : Filled t := by
    refine forEach_ok_invariant Filled ⟨[], by decide, rfl⟩ ?_ hargs
    exact fun option _ u u' hu hconfigure => filled_of_configure hu hconfigure
  obtain ⟨items, hread, hmenu⟩ := ht
  replace h := (bind_ok (reads_apply _ _)).symm.trans h
  split at h
  · cases h
  · have hread' : readItems ({ t with channelValue := value } : PullDown).items = some items :=
      hread
    obtain ⟨label, hupdate, -⟩ := updateButton_of_read number hread'
    have hwrite := (bind_ok (modify_apply _ t)).symm.trans h
    rw [hupdate] at hwrite
    cases hwrite
    exact ⟨items, hread, hmenu⟩

/-- **A pull-down at work**: the widget is right after every event of a run exactly if
every event obeys. -/
theorem right_run_iff {value : String} {args : List PullOption} {as : List PullEvent}
    {s₀ : PullDown} (hbuild : construct number value args = (.ok (), s₀)) :
    Run (step number) (Right number) s₀ as s ↔ Run (step number) (Obeys number) s₀ as s := by
  refine Run.congr_of_invariant Filled (filled_of_construct hbuild) ?_ ?_
  · intro s e t _ hright hstep
    obtain ⟨items, hread, hmenu, -⟩ := (hright t hstep).1
    exact ⟨items, hread, hmenu⟩
  · exact fun s e t hs _ => right_iff hs e

/-- A widget with two items. -/
def foil : PullDown where
  channel := "foil"
  items := "{In inserted} {Out removed}"
  menu := [.radiobutton "In" "inserted", .radiobutton "Out" "removed"]
  text := "Out"
  channelValue := "removed"

theorem foil_constructed : construct words "removed"
    [.channel "foil", .items "{In inserted} {Out removed}"] = (.ok (), foil) := by
  decide +kernel

theorem foil_obeys : Obeys words foil (.update "inserted") := by
  have hsplit : splitList foil.items = some ["In inserted", "Out removed"] := by decide +kernel
  have hlegible : legible foil.items = [.pair "In" "inserted", .pair "Out" "removed"] := by
    decide +kernel
  have hequal : equal words "inserted" "" = false := by decide
  simp only [Obeys, Agrees, hsplit, hlegible, hequal, Bool.false_eq_true, if_false]
  intro item hfind hsingle
  cases hfind
  cases hsingle

/-- The widget after the item `In`. -/
def foilIn : PullDown := { foil with text := "In", channelValue := "inserted" }

theorem foil_moves : step words foil (.update "inserted") = some foilIn := by
  decide +kernel

/-- The channel changes, and the button shows the other item. -/
theorem right_run_iff_update :
    Run (step words) (Right words) foil [.update "inserted"] foilIn := by
  rw [right_run_iff foil_constructed, ← List.nil_append [PullEvent.update "inserted"]]
  refine Run.snoc (s := foil) ?_ ?_ ?_
  · exact Run.nil
  · exact foil_obeys
  · exact foil_moves

/-- A list is rejected, and the menu shows its first item only. -/
theorem rejected_list_shown :
    ¬ ∀ (K : Type) (_ : LinearOrder K) (number : String → Option K) (value : String)
      (args : List PullOption) (as : List PullEvent) (s₀ s : PullDown),
        construct number value args = (.ok (), s₀) → Run (step number) Always s₀ as s →
          Run (step number) (Right number) s₀ as s := by
  intro hall
  have hrun : Run (step words) Always foil [.configure "{In inserted} {a b c}"]
      (configureItems "{In inserted} {a b c}" foil).2 :=
    run_iff_runAll.mpr rfl
  have hright := hall Int inferInstance words _ _ _ _ _ foil_constructed hrun
  obtain ⟨t, u, ht, hu, hright⟩ := hrun.iff_each.mp hright [] _ [] rfl
  obtain rfl := ht.of_nil
  have hread : readItems "{In inserted} {a b c}" = none := by decide +kernel
  obtain ⟨error, hhandle⟩ := configureItems_of_not_read hread foil
  have hmenu := ((hright u hu).2 ⟨error, by rw [handle, hhandle]⟩).1
  obtain rfl := Option.some.inj hu
  rw [handle, hhandle] at hmenu
  change (legible "{In inserted} {a b c}").map MenuItem.entry = foil.menu at hmenu
  exact absurd hmenu (by decide +kernel)

end Text

end PullDown

end EpicsTcl.Widget
