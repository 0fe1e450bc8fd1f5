/-
EpicsTcl.Widget.ChartTheorems — adding a trace to a chart is all or nothing,
except when something of the call stays behind.

`element create` is the last step of `addchannel`, and the one most likely to
fail. When it does, the history with its timer and its channels is there and
the name is in the table, but nothing is displayed. A constructor that raises
leaves less: `spoils` says of a call and the state before it what will happen.

§1 is the statement, §2 what the add method does, §3 what the remove method
does, §4 the runs (`adding_a_trace`).
-/
import EpicsTcl.Widget.Chart
import EpicsTcl.History.KeepTheorems

namespace EpicsTcl.Widget

open EpicsTcl.Command EpicsTcl.Library EpicsTcl.Library.Script EpicsTcl.History EpicsTcl.Server

section

variable [CTCLObjectProcessor] {H γ A : Type} {W : Kind H γ A} {T : Toolkit H} {s t : Chart H}
  {call : AddCall γ A}

/-! ## §1 Statement -/

/-- Table, histories with their timers, elements and reference counts. -/
structure Chart.Same (s t : Chart H) : Prop where
  table : t.table = s.table
  histories : t.histories = s.histories
  broken : t.broken = s.broken
  elements : t.elements = s.elements
  references : t.references = s.references

/-- How far the constructor of a history gets. -/
inductive Construction (H : Type) where
  /-- It raises before it has made anything. -/
  | refused (e : HistoryError)
  /-- Its call of `updateData` raises. -/
  | raised (e : HistoryError)
  | made (history : H)

/-- The constructor of the history of a call. -/
def Kind.create (W : Kind H γ A) (call : AddCall γ A) (timeBase : String) : Construction H :=
  match W.construct call.args timeBase call.seconds call.clicks with
  | .error e => .refused e
  | .ok history =>
    match W.updateData call.seen history with
    | (.ok _, history) => .made history
    | (.error e, _) => .raised e

/-- The history of the call can be constructed. -/
def Kind.creates (W : Kind H γ A) (call : AddCall γ A) (timeBase : String) : Bool :=
  match W.create call timeBase with
  | .made _ => true
  | _ => false

/-- The graph gets the element of the call and accepts it. -/
def accepts (W : Kind H γ A) (T : Toolkit H) (call : AddCall γ A) (s : Chart H) : Bool :=
  isWord s.win && isWord (W.name call.args) &&
    (T.create s.elements (W.element T call.args s.nextObject)).1

/-- Something of the call stays behind. Its name is free, and there is no
history and snit keeps what there is of it, or `updateData` raises and the
channels are not given back under the names they were taken, or there is a
history and the graph rejects the element. -/
def spoils (W : Kind H γ A) (T : Toolkit H) (call : AddCall γ A) (s : Chart H) : Bool :=
  !hasNames s.table (W.name call.args) &&
    match W.create call s.timeBase with
    | .refused _ => !T.reaps
    | .raised _ => (W.channels call.args).any fun c => T.isCommand c || getName c != c
    | .made _ => (W.channels call.args).any T.isCommand || !accepts W T call s

/-- The names of the call mean the same to everyone: `eval` keeps them as
words, Tcl has the channels under the names they are given, and no command is
replaced. -/
structure Ordinary (W : Kind H γ A) (T : Toolkit H) (call : AddCall γ A) (s : Chart H) :
    Prop where
  win : isWord s.win = true
  name : isWord (W.name call.args) = true
  plain : ∀ c ∈ W.channels call.args, getName c = c
  command : ∀ c ∈ W.channels call.args, T.isCommand c = false

/-- There is a line for the name. -/
def Displayed (s : Chart H) (name : String) : Prop := ∃ e ∈ s.elements, e.label = name

/-- Adding is all or nothing, and removing is possible for what is displayed. -/
structure AllOrNothing (W : Kind H γ A) (T : Toolkit H) (s : Chart H) : Prop where
  /-- A call that raises changes nothing, unless it spoils. -/
  unchanged : ∀ call, spoils W T call s = false → ∀ e t, add W T call s = (.error e, t) → s.Same t
  /-- With ordinary names a call that spoils raises and changes something. -/
  changed : ∀ call, Ordinary W T call s → spoils W T call s = true →
    ∃ e t, add W T call s = (.error e, t) ∧ ¬ s.Same t
  /-- A call with a free name and correct options succeeds. -/
  succeeds : ∀ call, Ordinary W T call s →
    ((∃ object, (add W T call s).1 = .ok object) ↔
      hasNames s.table (W.name call.args) = false ∧ W.creates call s.timeBase = true ∧
        accepts W T call s = true)
  removes : ∀ name, (remove W T name s).1 = .ok () ↔ Displayed s name
  /-- What has been added can be removed, exactly if the name matches itself. -/
  removable : ∀ call object t, spoils W T call s = false → add W T call s = (.ok object, t) →
    ((remove W T (W.name call.args) t).1 = .ok () ↔
      globMatch (W.name call.args) (W.name call.args) = true)
  /-- The table, the graph and the live histories are about the same names. -/
  table : ∀ name, name ∈ s.table ↔ Displayed s name
  histories : ∀ object, object ∈ s.histories ↔ ∃ name, s.table.lookup name = some object

/-- No call spoils, and the names of new traces match themselves. -/
def Accepted (W : Kind H γ A) (T : Toolkit H) (s : Chart H) : Action H γ A → Prop
  | .add call => spoils W T call s = false ∧ globMatch (W.name call.args) (W.name call.args) = true
  | _ => True

instance (s : Chart H) (a : Action H γ A) : Decidable (Accepted W T s a) :=
  match a with
  | .add _ => inferInstanceAs (Decidable (_ ∧ _))
  | .remove _ | .method _ _ | .timer _ _ => inferInstanceAs (Decidable True)

/-! ## §2 Adding -/

/-- What a call leaves that has not been turned away by its first two steps. -/
def entered (W : Kind H γ A) (call : AddCall γ A) (history : H) (s : Chart H) : Chart H :=
  { s.acquire (W.channels call.args) with
    nextObject := s.nextObject + 1
    histories := s.histories.insert s.nextObject ⟨history, W.channels call.args, true⟩
    table := s.table.insert (W.name call.args) s.nextObject }

/-- What a call leaves whose `updateData` has raised. -/
def returned (W : Kind H γ A) (call : AddCall γ A) (s : Chart H) : Chart H :=
  { (s.acquire (W.channels call.args)).release (W.channels call.args) with
    nextObject := s.nextObject + 1 }

/-- **The add method**: the ways it can go. -/
inductive Added (W : Kind H γ A) (T : Toolkit H) (call : AddCall γ A) (s : Chart H) :
    Except WidgetError Nat × Chart H → Prop where
  | duplicate : hasNames s.table (W.name call.args) = true →
      Added W T call s (.error (.script (W.duplicate (W.name call.args))), s)
  | refused (e : HistoryError) : hasNames s.table (W.name call.args) = false →
      W.create call s.timeBase = .refused e → T.reaps = true →
      Added W T call s (.error (.history e), { s with nextObject := s.nextObject + 1 })
  | kept (e : HistoryError) : hasNames s.table (W.name call.args) = false →
      W.create call s.timeBase = .refused e → T.reaps = false →
      Added W T call s (.error .noVector,
        { s with nextObject := s.nextObject + 1, broken := s.broken ++ [s.nextObject] })
  | raised (e : HistoryError) : hasNames s.table (W.name call.args) = false →
      W.create call s.timeBase = .raised e →
      Added W T call s (.error (.history e), returned W call s)
  | reparsed (history : H) (result : Except WidgetError Nat × Chart H) :
      hasNames s.table (W.name call.args) = false → W.create call s.timeBase = .made history →
      (isWord s.win && isWord (W.name call.args)) = false → Added W T call s result
  | rejected (history : H) : hasNames s.table (W.name call.args) = false →
      W.create call s.timeBase = .made history → accepts W T call s = false →
      Added W T call s (.error (.graph "create" (W.element T call.args s.nextObject).name),
        entered W call history s)
  | added (history : H) : hasNames s.table (W.name call.args) = false →
      W.create call s.timeBase = .made history → accepts W T call s = true →
      Added W T call s (.ok s.nextObject,
        { entered W call history s with
          elements := s.elements ++ [W.element T call.args s.nextObject] })

/-- The constructor of the history as a part of the widget's state. -/
theorem newHistory_apply (W : Kind H γ A) (T : Toolkit H) (call : AddCall γ A) (s : Chart H) :
    newHistory W T call s =
      match W.create call s.timeBase with
      | .refused e =>
        constructorRaised T s.nextObject false (W.channels call.args) e
          { s with nextObject := s.nextObject + 1 }
      | .raised e => (.error (.history e), returned W call s)
      | .made history => (.ok s.nextObject,
          { s.acquire (W.channels call.args) with
            nextObject := s.nextObject + 1
            histories := s.histories.insert s.nextObject
              ⟨history, W.channels call.args, true⟩ }) := by
  simp only [newHistory, bind_apply, reads_apply, modify_apply, Kind.create]
  cases W.construct call.args s.timeBase call.seconds call.clicks with
  | error e => rfl
  | ok history =>
    simp only [bind_apply, modify_apply]
    cases hupdate : W.updateData call.seen history with
    | mk result history' =>
      cases result with
      | ok _ => rfl
      | error e => rfl

/-- A construction that is refused: the destructor finds no vectors. -/
theorem constructorRaised_refused (T : Toolkit H) (object : Nat) (channels : List String)
    (e : HistoryError) (s : Chart H) :
    constructorRaised T object false channels e s =
      if T.reaps then (.error (.history e), s)
      else (.error .noVector, { s with broken := s.broken ++ [object] }) := rfl

omit [CTCLObjectProcessor] in
/-- An element of words goes to the graph as it is. -/
theorem elementCreate_of_words {e : Element} (hwords : (isWord s.win && isWord e.label) = true) :
    elementCreate T e s =
      if (T.create s.elements e).1 then (.ok (), { s with elements := s.elements ++ [e] })
      else (.error (.graph "create" e.name), s) := by
  unfold elementCreate
  rw [if_pos hwords]
  rcases hmade : T.create s.elements e with ⟨ok, elements⟩
  cases ok with
  | false =>
    obtain rfl : elements = s.elements := by
      simpa [hmade] using T.create_rejected (congrArg Prod.fst hmade)
    rfl
  | true =>
    obtain rfl : elements = s.elements ++ [e] := by
      simpa [hmade] using (T.create_accepted (congrArg Prod.fst hmade)).1
    rfl

theorem add_added (W : Kind H γ A) (T : Toolkit H) (call : AddCall γ A) (s : Chart H) :
    Added W T call s (add W T call s) := by
  unfold add
  simp only [bind_apply, reads_apply]
  cases hfound : hasNames s.table (W.name call.args) with
  | true => exact .duplicate hfound
  | false =>
    simp only [Bool.false_eq_true, if_false, bind_apply, newHistory_apply]
    cases hcreate : W.create call s.timeBase with
    | refused e =>
      simp only [constructorRaised_refused]
      cases hreaps : T.reaps with
      | true => exact .refused e hfound hcreate hreaps
      | false => exact .kept e hfound hcreate hreaps
    | raised e => exact .raised e hfound hcreate
    | made history =>
      show Added W T call s ((elementCreate T (W.element T call.args s.nextObject) >>=
        fun _ => pure s.nextObject) (entered W call history s))
      cases hwords : isWord s.win && isWord (W.name call.args) with
      | false => exact .reparsed history _ hfound hcreate hwords
      | true =>
        have haccepts : accepts W T call s = (T.create (entered W call history s).elements
            (W.element T call.args s.nextObject)).1 := by
          simp [accepts, hwords, entered, Chart.acquire]
        rw [bind_apply, elementCreate_of_words (s := entered W call history s)
          (e := W.element T call.args s.nextObject) hwords]
        cases hcreated : accepts W T call s with
        | false =>
          rw [if_neg (Bool.eq_false_iff.mp (haccepts.symm.trans hcreated))]
          exact .rejected history hfound hcreate hcreated
        | true =>
          rw [if_pos (haccepts.symm.trans hcreated)]
          exact .added history hfound hcreate hcreated

omit [CTCLObjectProcessor] in
theorem Chart.Same.refl (s : Chart H) : s.Same s := ⟨rfl, rfl, rfl, rfl, rfl⟩

/-- Channels of plain names are given back as they were taken. -/
theorem same_returned (call : AddCall γ A) (s : Chart H)
    (hplain : ∀ c ∈ W.channels call.args, getName c = c) : s.Same (returned W call s) where
  table := rfl
  histories := rfl
  broken := rfl
  elements := rfl
  references := by
    have hmap : (W.channels call.args).map getName = W.channels call.args := by
      rw [List.map_congr_left hplain, List.map_id']
    funext c
    simp [returned, Chart.release, Chart.acquire, hmap]

omit [CTCLObjectProcessor] in
/-- A rejected call has taken references. -/
theorem not_same_entered (W : Kind H γ A) (call : AddCall γ A) (history : H) (s : Chart H) :
    ¬ s.Same (entered W call history s) := by
  intro hsame
  obtain ⟨c, hc⟩ := List.exists_mem_of_ne_nil _ (W.channels_ne call.args)
  have hcount : 0 < (W.channels call.args).count c := List.count_pos_iff.mpr hc
  have hreferences := congrFun hsame.references c
  simp only [entered, Chart.acquire] at hreferences
  omega

theorem unchanged_of_not_spoils (hspoils : spoils W T call s = false) (e : WidgetError)
    (h : add W T call s = (.error e, t)) : s.Same t := by
  have hadded := add_added W T call s
  rw [h] at hadded
  cases hadded with
  | duplicate hfound => exact .refl s
  | refused e hfound hcreate hreaps => exact ⟨rfl, rfl, rfl, rfl, rfl⟩
  | kept e hfound hcreate hreaps => simp [spoils, hfound, hcreate, hreaps] at hspoils
  | raised e hfound hcreate =>
    refine same_returned call s fun c hc => ?_
    simp only [spoils, hfound, hcreate, Bool.not_false, Bool.true_and, List.any_eq_false,
      Bool.or_eq_true, not_or, bne_iff_ne, not_not] at hspoils
    exact (hspoils c hc).2
  | reparsed history _ hfound hcreate hword =>
    simp [spoils, accepts, hfound, hcreate, hword] at hspoils
  | rejected history hfound hcreate haccepts =>
    simp [spoils, hfound, hcreate, haccepts] at hspoils

theorem changed_of_spoils (ordinary : Ordinary W T call s) (hspoils : spoils W T call s = true) :
    ∃ e t, add W T call s = (.error e, t) ∧ ¬ s.Same t := by
  have hadded := add_added W T call s
  generalize add W T call s = result at hadded
  cases hadded with
  | duplicate hfound => simp [spoils, hfound] at hspoils
  | refused e hfound hcreate hreaps => simp [spoils, hcreate, hreaps] at hspoils
  | kept e hfound hcreate hreaps => exact ⟨_, _, rfl, fun hsame => by simpa using hsame.broken⟩
  | raised e hfound hcreate =>
    simp only [spoils, hcreate, Bool.and_eq_true, List.any_eq_true, Bool.or_eq_true,
      bne_iff_ne] at hspoils
    obtain ⟨-, c, hc, hcommand | hname⟩ := hspoils
    · rw [ordinary.command c hc] at hcommand
      cases hcommand
    · exact absurd (ordinary.plain c hc) hname
  | reparsed history _ hfound hcreate hword =>
    simp [ordinary.win, ordinary.name] at hword
  | rejected history hfound hcreate haccepts =>
    exact ⟨_, _, rfl, not_same_entered W call history s⟩
  | added history hfound hcreate haccepts =>
    simp only [spoils, hcreate, haccepts, Bool.not_true, Bool.or_false, Bool.and_eq_true,
      List.any_eq_true] at hspoils
    obtain ⟨-, c, hc, hcommand⟩ := hspoils
    rw [ordinary.command c hc] at hcommand
    cases hcommand

theorem succeeds_iff (ordinary : Ordinary W T call s) :
    (∃ object, (add W T call s).1 = .ok object) ↔
      hasNames s.table (W.name call.args) = false ∧ W.creates call s.timeBase = true ∧
        accepts W T call s = true := by
  have hadded := add_added W T call s
  generalize add W T call s = result at hadded
  cases hadded with
  | duplicate hfound => simp [hfound]
  | refused e hfound hcreate => simp [Kind.creates, hcreate]
  | kept e hfound hcreate => simp [Kind.creates, hcreate]
  | raised e hfound hcreate => simp [Kind.creates, hcreate]
  | reparsed history _ hfound hcreate hword => simp [ordinary.win, ordinary.name] at hword
  | rejected history hfound hcreate haccepts => simp [haccepts]
  | added history hfound hcreate haccepts => simp [hfound, Kind.creates, hcreate, haccepts]

/-! ## §3 Removing -/

/-- What a call leaves that has found everything. -/
def removed (W : Kind H γ A) (T : Toolkit H) (name : String) (object : Nat) (live : Live H)
    (s : Chart H) : Chart H :=
  { s.release live.channels with
    table := s.table.erase name
    elements := s.elements.filter (·.name ≠ W.elementName name (T.auto object))
    histories := s.histories.erase object }

/-- A name without an entry: nothing is removed. -/
theorem remove_missing {name : String} (h : s.table.lookup name = none) :
    ∃ e, remove W T name s = (.error e, s) := by
  cases hfound : hasNames s.table name with
  | true =>
    refine ⟨.noSuchElement W.array name, ?_⟩
    simp [remove, bind_apply, hfound, h]
  | false =>
    refine ⟨.script (W.missing name s.win), ?_⟩
    simp [remove, bind_apply, hfound]

/-- A name that is not found by its own pattern. -/
theorem remove_unmatched {name : String} (h : hasNames s.table name = false) :
    ∃ e, remove W T name s = (.error e, s) :=
  ⟨.script (W.missing name s.win), by simp [remove, bind_apply, h]⟩

theorem remove_present {name : String} {object : Nat} {live : Live H}
    (hfound : hasNames s.table name = true) (hobject : s.table.lookup name = some object)
    (hdrawn : ∃ e ∈ s.elements, e.name = W.elementName name (T.auto object))
    (hlive : s.histories.lookup object = some live) :
    remove W T name s = (.ok (), removed W T name object live s) := by
  have hany : s.elements.any (·.name = W.elementName name (T.auto object)) = true := by
    simpa using hdrawn
  unfold remove
  simp only [bind_apply, reads_apply, hfound, if_true, evaluates_apply, hobject, modify_apply,
    elementDelete, hany, destroy, hlive]
  rfl

/-! ## §4 Runs -/

omit [CTCLObjectProcessor] in
/-- Changing an entry adds no key. -/
theorem mem_insert_of_lookup {κ β : Type} [DecidableEq κ] {a : AList fun _ : κ => β} {key : κ}
    {x : β} (h : a.lookup key = some x) (y : β) (k : κ) : k ∈ a.insert key y ↔ k ∈ a := by
  rw [AList.mem_insert, or_iff_right_iff_imp]
  rintro rfl
  exact AList.lookup_isSome.mp (by rw [h]; rfl)

/-- Table, graph and histories agree. -/
structure Sound (W : Kind H γ A) (T : Toolkit H) (s : Chart H) : Prop where
  fresh : ∀ object ∈ s.histories, object < s.nextObject
  owned : ∀ object, object ∈ s.histories ↔ ∃ name, s.table.lookup name = some object
  once : ∀ name name' object, s.table.lookup name = some object →
    s.table.lookup name' = some object → name = name'
  drawn : ∀ name object, s.table.lookup name = some object →
    ∃ e ∈ s.elements, e.name = W.elementName name (T.auto object) ∧ e.label = name
  shown : ∀ e ∈ s.elements, ∃ object, s.table.lookup e.label = some object ∧
    e.name = W.elementName e.label (T.auto object)
  self : ∀ name ∈ s.table, globMatch name name = true

namespace Sound

omit [CTCLObjectProcessor] in
theorem mem_table {name : String} {object : Nat} (h : s.table.lookup name = some object) :
    name ∈ s.table := AList.lookup_isSome.mp (by rw [h]; rfl)

omit [CTCLObjectProcessor] in
/-- Changes that none of this is about. -/
theorem congr (h : Sound W T s) (htable : t.table = s.table) (helements : t.elements = s.elements)
    (hhistories : ∀ object, object ∈ t.histories ↔ object ∈ s.histories)
    (hnext : s.nextObject ≤ t.nextObject) : Sound W T t where
  fresh object ho := Nat.lt_of_lt_of_le (h.fresh object ((hhistories object).mp ho)) hnext
  owned object := by rw [hhistories, h.owned, htable]
  once := htable ▸ h.once
  drawn := by
    rw [htable, helements]
    exact h.drawn
  shown := by
    rw [htable, helements]
    exact h.shown
  self := htable ▸ h.self

omit [CTCLObjectProcessor] in
theorem added (h : Sound W T s) (history : H)
    (hself : globMatch (W.name call.args) (W.name call.args) = true)
    (hfound : hasNames s.table (W.name call.args) = false) :
    Sound W T { entered W call history s with
      elements := s.elements ++ [W.element T call.args s.nextObject] } := by
  have hnew : W.name call.args ∉ s.table := fun hmem => by
    rw [hasNames_of_self hself hmem] at hfound
    cases hfound
  have hold : ∀ name object, s.table.lookup name = some object →
      name ≠ W.name call.args ∧ object < s.nextObject := by
    intro name object hobject
    refine ⟨fun heq => hnew (heq ▸ mem_table hobject), h.fresh object ?_⟩
    exact (h.owned object).mpr ⟨name, hobject⟩
  -- the table afterwards
  have hlookup : ∀ name object,
      (s.table.insert (W.name call.args) s.nextObject).lookup name = some object ↔
        (name = W.name call.args ∧ object = s.nextObject) ∨ s.table.lookup name = some object := by
    intro name object
    by_cases heq : name = W.name call.args
    · subst heq
      have hnone : s.table.lookup (W.name call.args) = none := AList.lookup_eq_none.mpr hnew
      simp [hnone, eq_comm]
    · simp [AList.lookup_insert_ne heq, heq]
  constructor
  case fresh =>
    intro object ho
    rcases (AList.mem_insert _).mp ho with rfl | ho
    · exact Nat.lt_succ_self _
    · exact Nat.lt_succ_of_lt (h.fresh object ho)
  case owned =>
    intro object
    show object ∈ s.histories.insert s.nextObject _ ↔ ∃ name,
      (s.table.insert (W.name call.args) s.nextObject).lookup name = some object
    simp only [AList.mem_insert, hlookup, h.owned]
    constructor
    · rintro (rfl | ⟨name, hname⟩)
      · exact ⟨_, .inl ⟨rfl, rfl⟩⟩
      · exact ⟨name, .inr hname⟩
    · rintro ⟨name, ⟨-, rfl⟩ | hname⟩
      · exact .inl rfl
      · exact .inr ⟨name, hname⟩
  case once =>
    intro name name' object hname hname'
    rcases (hlookup _ _).mp hname with ⟨rfl, rfl⟩ | hname <;>
      rcases (hlookup _ _).mp hname' with ⟨rfl, heq⟩ | hname'
    · rfl
    · exact absurd (hold _ _ hname').2 (Nat.lt_irrefl _)
    · exact absurd (hold _ _ hname).2 (heq ▸ Nat.lt_irrefl _)
    · exact h.once name name' object hname hname'
  case drawn =>
    intro name object hname
    rcases (hlookup _ _).mp hname with ⟨rfl, rfl⟩ | hname
    · exact ⟨W.element T call.args s.nextObject, by simp, rfl, rfl⟩
    · obtain ⟨e, he, hboth⟩ := h.drawn name object hname
      exact ⟨e, List.mem_append_left _ he, hboth⟩
  case shown =>
    intro e he
    rcases List.mem_append.mp he with he | he
    · obtain ⟨object, hobject, hname⟩ := h.shown e he
      exact ⟨object, (hlookup _ _).mpr (.inr hobject), hname⟩
    · rw [List.mem_singleton.mp he]
      exact ⟨s.nextObject, (hlookup _ _).mpr (.inl ⟨rfl, rfl⟩), rfl⟩
  case self =>
    intro name hname
    rcases (AList.mem_insert _).mp hname with rfl | hname
    · exact hself
    · exact h.self name hname

theorem remove_eq (h : Sound W T s) {name : String} {object : Nat}
    (hobject : s.table.lookup name = some object) :
    ∃ live, s.histories.lookup object = some live ∧
      remove W T name s = (.ok (), Widget.removed W T name object live s) := by
  have hmem := mem_table hobject
  obtain ⟨live, hlive⟩ := Option.isSome_iff_exists.mp
    (AList.lookup_isSome.mpr ((h.owned object).mpr ⟨name, hobject⟩))
  obtain ⟨e, he, hname, -⟩ := h.drawn name object hobject
  exact ⟨live, hlive,
    remove_present (hasNames_of_self (h.self name hmem) hmem) hobject ⟨e, he, hname⟩ hlive⟩

theorem removed (h : Sound W T s) {name : String} {object : Nat} {live : Live H}
    (hobject : s.table.lookup name = some object) :
    Sound W T (Widget.removed W T name object live s) := by
  -- the table afterwards
  have hlookup : ∀ name' object', (s.table.erase name).lookup name' = some object' ↔
      name' ≠ name ∧ s.table.lookup name' = some object' := by
    intro name' object'
    by_cases heq : name' = name
    · subst heq
      simp [AList.lookup_erase]
    · simp [AList.lookup_erase_ne heq, heq]
  -- elements of other names are not deleted
  have hkept : ∀ name' object', name' ≠ name → s.table.lookup name' = some object' →
      W.elementName name' (T.auto object') ≠ W.elementName name (T.auto object) := by
    intro name' object' hne hobject' heq
    rcases W.elementName_eq _ _ _ _ heq with hname | hauto
    · exact hne hname
    · obtain rfl := T.auto_injective hauto
      exact hne (h.once _ _ _ hobject' hobject)
  constructor
  case fresh => exact fun object' ho => h.fresh object' (AList.mem_erase.mp ho).2
  case owned =>
    intro object'
    show object' ∈ s.histories.erase object ↔ ∃ name', (s.table.erase name).lookup name' = _
    simp only [AList.mem_erase, hlookup, h.owned]
    constructor
    · rintro ⟨hne, name', hname'⟩
      refine ⟨name', fun heq => hne ?_, hname'⟩
      rw [heq, hobject] at hname'
      exact (Option.some.inj hname').symm
    · rintro ⟨name', hne, hname'⟩
      refine ⟨fun heq => hne ?_, name', hname'⟩
      exact h.once name' name object (heq ▸ hname') hobject
  case once =>
    intro name' name'' object' hname' hname''
    exact h.once _ _ _ ((hlookup _ _).mp hname').2 ((hlookup _ _).mp hname'').2
  case drawn =>
    intro name' object' hname'
    obtain ⟨hne, hname'⟩ := (hlookup _ _).mp hname'
    obtain ⟨e, he, hename, helabel⟩ := h.drawn name' object' hname'
    refine ⟨e, List.mem_filter.mpr ⟨he, ?_⟩, hename, helabel⟩
    simpa [hename] using hkept name' object' hne hname'
  case shown =>
    intro e he
    obtain ⟨he, hdelete⟩ := List.mem_filter.mp he
    obtain ⟨object', hobject', hename⟩ := h.shown e he
    refine ⟨object', (hlookup _ _).mpr ⟨fun heq => ?_, hobject'⟩, hename⟩
    rw [heq, hobject] at hobject'
    obtain rfl := Option.some.inj hobject'
    simp [hename, heq] at hdelete
  case self => exact fun name' hname' => h.self name' (AList.mem_erase.mp hname').2

omit [CTCLObjectProcessor] in
theorem table_iff (h : Sound W T s) (name : String) : name ∈ s.table ↔ Displayed s name := by
  constructor
  · intro hname
    obtain ⟨object, hobject⟩ := Option.isSome_iff_exists.mp (AList.lookup_isSome.mpr hname)
    obtain ⟨e, he, -, hlabel⟩ := h.drawn name object hobject
    exact ⟨e, he, hlabel⟩
  · rintro ⟨e, he, rfl⟩
    obtain ⟨object, hobject, -⟩ := h.shown e he
    exact mem_table hobject

theorem removes_iff (h : Sound W T s) (name : String) :
    (remove W T name s).1 = .ok () ↔ Displayed s name := by
  rw [← h.table_iff]
  cases hobject : s.table.lookup name with
  | none =>
    obtain ⟨e, hrun⟩ := remove_missing (W := W) (T := T) hobject
    refine iff_of_false ?_ (AList.lookup_eq_none.mp hobject)
    rw [hrun]
    exact fun h => nomatch h
  | some object =>
    obtain ⟨live, -, hrun⟩ := h.remove_eq hobject
    refine iff_of_true ?_ (mem_table hobject)
    rw [hrun]

theorem step {a : Action H γ A} (h : Sound W T s) (hok : Accepted W T s a)
    (hstep : Widget.step W T s a = some t) : Sound W T t := by
  cases a with
  | add call =>
    obtain ⟨hspoils, hself⟩ := hok
    cases hstep
    have hadded := add_added W T call s
    generalize add W T call s = result at hadded ⊢
    cases hadded with
    | duplicate hfound => exact h
    | refused e hfound hcreate hreaps =>
      exact h.congr rfl rfl (fun _ => Iff.rfl) (Nat.le_succ _)
    | kept e hfound hcreate hreaps => exact h.congr rfl rfl (fun _ => Iff.rfl) (Nat.le_succ _)
    | raised e hfound hcreate => exact h.congr rfl rfl (fun _ => Iff.rfl) (Nat.le_succ _)
    | reparsed history _ hfound hcreate hwords =>
      simp [spoils, accepts, hfound, hcreate, hwords] at hspoils
    | rejected history hfound hcreate haccepts =>
      simp [spoils, hfound, hcreate, haccepts] at hspoils
    | added history hfound => exact h.added history hself hfound
  | remove name =>
    cases hstep
    cases hobject : s.table.lookup name with
    | none =>
      obtain ⟨e, hrun⟩ := remove_missing (W := W) (T := T) hobject
      rw [hrun]
      exact h
    | some object =>
      obtain ⟨live, -, hrun⟩ := h.remove_eq hobject
      rw [hrun]
      exact h.removed hobject
  | method object m =>
    obtain ⟨live, hlive, rfl⟩ := Option.map_eq_some_iff.mp hstep
    exact h.congr rfl rfl (mem_insert_of_lookup hlive _) le_rfl
  | timer object seen =>
    simp only [Widget.step, timer] at hstep
    split at hstep
    · next live hlive =>
      split at hstep
      · cases hstep
        exact h.congr rfl rfl (mem_insert_of_lookup hlive _) le_rfl
      · cases hstep
    · cases hstep

end Sound

/-- A trace that has been added can be removed, if its name matches itself. -/
theorem Sound.removable_iff (h : Sound W T s) {object : Nat}
    (hspoils : spoils W T call s = false) (hadd : add W T call s = (.ok object, t)) :
    (remove W T (W.name call.args) t).1 = .ok () ↔
      globMatch (W.name call.args) (W.name call.args) = true := by
  have hadded := add_added W T call s
  rw [hadd] at hadded
  cases hadded with
  | reparsed history _ hfound hcreate hwords =>
    simp [spoils, accepts, hfound, hcreate, hwords] at hspoils
  | added history hfound hcreate haccepts =>
    cases hself : globMatch (W.name call.args) (W.name call.args) with
    | true =>
      have hsound := h.added history hself hfound
      refine iff_of_true ?_ rfl
      have hobject : (s.table.insert (W.name call.args) s.nextObject).lookup (W.name call.args) =
          some s.nextObject := AList.lookup_insert s.table
      obtain ⟨live, -, hrun⟩ := hsound.remove_eq hobject
      rw [hrun]
    | false =>
      have hnone : hasNames (s.table.insert (W.name call.args) s.nextObject)
          (W.name call.args) = false := by
        rw [hasNames, List.any_eq_false] at hfound ⊢
        intro name hname
        rcases (AList.mem_insert s.table).mp hname with rfl | hname
        · simp [hself]
        · exact hfound name hname
      obtain ⟨e, hrun⟩ := remove_unmatched (W := W) (T := T)
        (s := { entered W call history s with
          elements := s.elements ++ [W.element T call.args s.nextObject] }) hnone
      refine iff_of_false ?_ Bool.false_ne_true
      rw [hrun]
      exact fun h => nomatch h

omit [CTCLObjectProcessor] in
/-- A widget without traces. -/
theorem sound_empty (W : Kind H γ A) (T : Toolkit H) (win timeBase : String)
    (references : String → Nat) :
    Sound W T { win, timeBase, references } where
  fresh _ h := nomatch h
  owned object := by
    constructor
    · exact fun h => nomatch h
    · rintro ⟨name, hname⟩
      cases hname
  once _ _ _ h := nomatch h
  drawn _ _ h := nomatch h
  shown _ h := nomatch h
  self _ h := nomatch h

theorem run_allOrNothing {win timeBase : String} {references : String → Nat}
    {as : List (Action H γ A)}
    (h : Run (step W T) (Accepted W T) { win, timeBase, references } as s) :
    AllOrNothing W T s := by
  have hsound : Sound W T s := h.invariant (Sound W T) (sound_empty W T win timeBase references)
    fun _ _ _ hinv hok hstep => hinv.step hok hstep
  exact {
    unchanged := fun _ hspoils e _ h => unchanged_of_not_spoils hspoils e h
    changed := fun _ ordinary hspoils => changed_of_spoils ordinary hspoils
    succeeds := fun _ ordinary => succeeds_iff ordinary
    removes := hsound.removes_iff
    removable := fun _ _ _ hspoils hadd => hsound.removable_iff hspoils hadd
    table := hsound.table_iff
    histories := hsound.owned }

/-- **Adding a trace** to either widget: in every run without a call that
spoils and with names that match themselves, it is all or nothing, and what is
displayed can be removed. -/
theorem adding_a_trace (N : TclNumbers) (T : Toolkit ChannelHistory)
    (T' : Toolkit ChannelPairHistory) :
    (∀ {win timeBase : String} {references : String → Nat}
        {as : List (Action ChannelHistory _ AddChannel)} {s : Chart ChannelHistory},
      Run (step (epicsStripChart N) T) (Accepted (epicsStripChart N) T)
        { win, timeBase, references } as s →
      AllOrNothing (epicsStripChart N) T s) ∧
    ∀ {win timeBase : String} {references : String → Nat}
        {as : List (Action ChannelPairHistory _ AddSeries)} {s : Chart ChannelPairHistory},
      Run (step (epicsGraph N) T') (Accepted (epicsGraph N) T')
        { win, timeBase, references } as s →
      AllOrNothing (epicsGraph N) T' s :=
  ⟨run_allOrNothing, run_allOrNothing⟩

end

/-- Objects are numbered in unary, options come in pairs, and snit deletes
whatever object it is to delete. -/
def plainToolkit {H : Type} : Toolkit H where
  auto n := String.ofList ('h' :: List.replicate n '1')
  auto_injective := by
    intro n m h
    simpa using congrArg List.length (String.ofList_inj.mp h)
  create elements e :=
    if elements.all (·.name ≠ e.name) && e.options.length % 2 == 0 then (true, elements ++ [e])
    else (false, elements)
  create_accepted := by
    intro elements e h
    split at h
    · next hok =>
      simp only [Bool.and_eq_true, List.all_eq_true, decide_eq_true_eq] at hok
      exact ⟨by rw [if_pos (by simpa using hok)], hok.1⟩
    · cases h
  create_rejected := by
    intro elements e h
    split at h
    · cases h
    · next hnot => rw [if_neg hnot]
  reaps := true
  isCommand := fun _ => false
  reparse e s := (.error (.graph "create" e.name), s)

section

attribute [local instance] CTCLObjectProcessor.global

/-- An empty strip chart. -/
def emptyChart : Chart ChannelHistory := { win := ".s", timeBase := "0" }

/-- A call of `addchannel` for a channel that is not connected. -/
def addChannel (name : String) (args : List String) :
    AddCall (Int × Option (List String)) AddChannel where
  args := { name, interval := "1000", args }
  seconds := 0
  clicks := 0
  seen := (0, none)

/-- Two traces are added and one of them is removed. -/
theorem adding_a_trace_two :
    ∃ s : Chart ChannelHistory, s.table.keys = ["b"] ∧
      AllOrNothing (epicsStripChart plainNumbers) plainToolkit s := by
  have hrun : (runChecked (step (epicsStripChart plainNumbers) plainToolkit)
      (Accepted (epicsStripChart plainNumbers) plainToolkit) emptyChart
      [.add (addChannel "a" []), .add (addChannel "b" ["-color", "red"]), .remove "a"]).map
      (·.table.keys) = some ["b"] := by decide +kernel
  obtain ⟨s, hs, hkeys⟩ := Option.map_eq_some_iff.mp hrun
  exact ⟨s, hkeys,
    (adding_a_trace plainNumbers plainToolkit plainToolkit).1 (run_of_runChecked _ hs)⟩

/-- The error of a method. -/
def methodError {H α : Type} (result : Except WidgetError α × Chart H) : Option WidgetError :=
  match result.1 with
  | .error e => some e
  | .ok _ => none

/-- An option without a value: there is no line, but the name is taken, it
cannot be removed, and a history with a timer and a reference to the channel
goes on. -/
theorem rejected_options_stay :
    ∃ t, add (epicsStripChart plainNumbers) plainToolkit (addChannel "a" ["-bogus"]) emptyChart =
        (.error (.graph "create" "h"), t) ∧ ¬ emptyChart.Same t ∧
      t.elements = [] ∧ t.table.keys = ["a"] ∧ t.references "a" = 1 ∧
      (t.histories.lookup 0).map (·.timer) = some true ∧
      methodError (add (epicsStripChart plainNumbers) plainToolkit (addChannel "a" []) t) =
        some (.script "This channel is already displayed on the stipchart") ∧
      methodError (remove (epicsStripChart plainNumbers) plainToolkit "a" t) =
        some (.graph "delete" "h") := by
  refine ⟨_, rfl, fun hsame => ?_, rfl, by decide +kernel, by decide +kernel, by decide +kernel,
    by decide +kernel, by decide +kernel⟩
  have hkeys := congrArg AList.keys hsame.table
  revert hkeys
  decide +kernel

end

end EpicsTcl.Widget
