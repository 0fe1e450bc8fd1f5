/-
EpicsTcl.Widget.LedTheorems — a lamp shows the variable that it tracks, unless
a lamp that came later to the variable has been destroyed.

The trace of a destroyed lamp stays, raises an error at every write, and keeps
the older traces from being called (`Blocked`). `LedInv` carries the result: a
lamp that tracks a variable is going to ask for it, or it is blocked, or it
shows the variable, as far as its text is a truth value. A blocked lamp stays
as it is, whatever is written, until its `-variable` is configured again.
-/
import EpicsTcl.Library.Simulation
import EpicsTcl.Widget.Leds

namespace EpicsTcl.Widget

open EpicsTcl.Library

variable {ν : Type} {global : String → ν}

/-! ## Order in a list of traces -/

/-- `u` is called before `t`. -/
def Before {τ : Type*} (u t : τ) (ts : List τ) : Prop :=
  ∃ first rest, ts = first ++ t :: rest ∧ u ∈ first

section Before

variable {τ : Type*} {t u v : τ} {ts : List τ}

theorem Before.cons (h : Before u t ts) (v : τ) : Before u t (v :: ts) := by
  obtain ⟨first, rest, rfl, hu⟩ := h
  exact ⟨v :: first, rest, rfl, List.mem_cons_of_mem _ hu⟩

theorem Before.erase [DecidableEq τ] (h : Before u t ts) (ht : t ≠ v) (hu : u ≠ v) :
    Before u t (ts.erase v) := by
  obtain ⟨first, rest, rfl, hmem⟩ := h
  by_cases hv : v ∈ first
  · exact ⟨first.erase v, rest, List.erase_append_left _ hv, (List.mem_erase_of_ne hu).mpr hmem⟩
  · refine ⟨first, rest.erase v, ?_, hmem⟩
    rw [List.erase_append_right _ hv, List.erase_cons_tail (by simpa using ht)]

/-- What is attached once stands at one place. -/
theorem Before.split [DecidableEq τ] (h : Before u t ts) (hcount : ts.count t ≤ 1) :
    ∃ first rest, ts = first ++ u :: rest ∧ t ∉ first ++ [u] := by
  obtain ⟨first, rest, rfl, hu⟩ := h
  obtain ⟨newer, between, rfl⟩ := List.append_of_mem hu
  refine ⟨newer, between ++ t :: rest, by simp, ?_⟩
  intro hmem
  have hpos := List.count_pos_iff.mpr hmem
  simp only [List.count_append, List.count_cons, List.count_nil, beq_self_eq_true, if_true]
    at hpos hcount
  omega

end Before

namespace LedProcess

/-- A trace of a destroyed lamp is called before this lamp's. -/
def Blocked (global : String → ν) (s : LedProcess ν) (k : Nat) (l : Led) : Prop :=
  ∃ j, s.lamps.living j = none ∧
    Before (.led j) (.led k) (s.traces (global l.options.variableName))

/-- The names of the variables that this widget still asks for. -/
def asked (s : LedProcess ν) (name : String) : List String :=
  (s.after.filter fun p => p.1 = name).map (·.2)

/-- The lamp shows its variable, if that has a truth value. -/
def Shows (global : String → ν) (s : LedProcess ν) (l : Led) : Prop :=
  ∀ value b, s.vars (global l.options.variableName) = some value → truth value = some b →
    l.lit = b

/-- Variables are written by global names, and not unset while a lamp tracks
them; no other command on them fails; a lamp that tracks goes on tracking. -/
def Fair (global : String → ν) (s : LedProcess ν) : LedAction ν → Prop
  | .configureVariable _ variableName => variableName ≠ ""
  | .switch name _ fails => ∀ k o, s.lamps.find name = some (k, o) →
    ∀ id, .other id ∈ s.traces (global o.state.options.variableName) → fails id = false
  | .write x name _ fails => global name = x ∧ ∀ id, .other id ∈ s.traces x → fails id = false
  | .unset x => ∀ k o, s.lamps.living k = some o → o.state.options.variableName ≠ "" →
    global o.state.options.variableName ≠ x
  | _ => True

end LedProcess

open LedProcess

/-- The drawn color is the one of the drawn state. -/
def Led.Colored (l : Led) : Prop := l.recolored = false → l.fill = l.options.color l.lit

/-- The invariant, but for what is shown. -/
structure LedBase (global : String → ν) (s : LedProcess ν) : Prop where
  made : ∀ {k x}, .led k ∈ s.traces x → ∃ o, s.lamps.made k = some o
  count : ∀ k x, (s.traces x).count (.led k) ≤ 1
  attached : ∀ {k o}, s.lamps.living k = some o → ∀ x, .led k ∈ s.traces x ↔
    o.state.options.variableName ≠ "" ∧ x = global o.state.options.variableName
  asks : ∀ {k o}, s.lamps.living k = some o → o.state.options.variableName ≠ "" →
    ∀ n, (s.asked o.name).getLast? = some n → n = o.state.options.variableName
  colored : s.lamps.All Led.Colored

/-- What a lamp that tracks a variable shows. -/
def LedShown (global : String → ν) (s : LedProcess ν) : Prop :=
  ∀ k o, s.lamps.living k = some o → o.state.options.variableName ≠ "" →
    s.asked o.name ≠ [] ∨ s.Blocked global k o.state ∨ s.Shows global o.state

/-- The invariant. -/
structure LedInv (global : String → ν) (s : LedProcess ν) : Prop extends LedBase global s where
  shown : LedShown global s

/-! ## A lamp is drawn -/

/-- Some lamps have been drawn, and nothing else. -/
structure Redrawn (s t : LedProcess ν) : Prop where
  vars : t.vars = s.vars
  traces : t.traces = s.traces
  after : t.after = s.after
  made : ∀ k, t.lamps.made k = s.lamps.made k ∨ ∃ o b, s.lamps.living k = some o ∧
    t.lamps.made k = some { o with state := o.state.setstate b }

section Redrawn

variable {s t u : LedProcess ν} {k : Nat} {o : Object Led}

theorem Redrawn.refl (s : LedProcess ν) : Redrawn s s :=
  ⟨rfl, rfl, rfl, fun _ => .inl rfl⟩

theorem Redrawn.trans (h : Redrawn s t) (h' : Redrawn t u) : Redrawn s u := by
  refine ⟨h'.vars.trans h.vars, h'.traces.trans h.traces, h'.after.trans h.after, ?_⟩
  intro k
  rcases h'.made k with hk' | ⟨o', b', ho', hk'⟩
  · rw [hk']
    exact h.made k
  · rcases h.made k with hk | ⟨o, b, ho, hk⟩
    · refine .inr ⟨o', b', ?_, hk'⟩
      rw [Objects.living_iff, hk] at ho'
      exact Objects.living_iff.mpr ho'
    · refine .inr ⟨o, b', ho, ?_⟩
      rw [Objects.living_iff, hk] at ho'
      rw [hk', ← Option.some.inj ho'.1]
      rfl

/-- A lamp after a draw is the one before, but for what it shows. -/
theorem Redrawn.living_back (h : Redrawn s t) (ho : t.lamps.living k = some o) :
    ∃ o₀, s.lamps.living k = some o₀ ∧ o.name = o₀.name ∧
      o.state.options = o₀.state.options := by
  obtain ⟨hmade, halive⟩ := Objects.living_iff.mp ho
  rcases h.made k with hk | ⟨o₀, b, ho₀, hk⟩
  · rw [hk] at hmade
    exact ⟨o, Objects.living_iff.mpr ⟨hmade, halive⟩, rfl, rfl⟩
  · rw [hk] at hmade
    rw [← Option.some.inj hmade]
    exact ⟨o₀, ho₀, rfl, rfl⟩

theorem Redrawn.living_some (h : Redrawn s t) (ho : s.lamps.living k = some o) :
    ∃ o', t.lamps.living k = some o' := by
  obtain ⟨hmade, halive⟩ := Objects.living_iff.mp ho
  rcases h.made k with hk | ⟨o₀, b, ho₀, hk⟩
  · exact ⟨o, Objects.living_iff.mpr ⟨by rw [hk]; exact hmade, halive⟩⟩
  · exact ⟨_, Objects.living_iff.mpr ⟨hk, (Objects.living_iff.mp ho₀).2⟩⟩

theorem Redrawn.living_none (h : Redrawn s t) :
    t.lamps.living k = none ↔ s.lamps.living k = none := by
  refine ⟨?_, ?_⟩
  · intro hnone
    cases ho : s.lamps.living k with
    | none => rfl
    | some o =>
      obtain ⟨o', ho'⟩ := h.living_some ho
      rw [hnone] at ho'
      cases ho'
  · intro hnone
    cases ho : t.lamps.living k with
    | none => rfl
    | some o =>
      obtain ⟨o₀, ho₀, -⟩ := h.living_back ho
      rw [hnone] at ho₀
      cases ho₀

theorem redrawn_put (ho : s.lamps.living k = some o) (b : Bool) :
    Redrawn s (s.put k (o.state.setstate b)) := by
  refine ⟨rfl, rfl, rfl, ?_⟩
  intro j
  by_cases hj : j = k
  · rw [hj]
    exact .inr ⟨o, b, ho, Objects.made_put_self (Objects.living_iff.mp ho).1⟩
  · exact .inl (Objects.made_put_of_ne hj)

theorem Redrawn.asked (h : Redrawn s t) (name : String) : t.asked name = s.asked name := by
  unfold LedProcess.asked
  rw [h.after]

theorem Redrawn.blocked (h : Redrawn s t) {l l' : Led} (hoptions : l.options = l'.options) :
    t.Blocked global k l ↔ s.Blocked global k l' := by
  unfold LedProcess.Blocked
  rw [h.traces, hoptions]
  exact exists_congr fun j => and_congr_left fun _ => h.living_none

theorem LedBase.redrawn (inv : LedBase global s) (h : Redrawn s t) : LedBase global t where
  made := by
    intro k x hx
    rw [h.traces] at hx
    obtain ⟨o, ho⟩ := inv.made hx
    rcases h.made k with hsame | ⟨o, b, -, hk⟩
    · exact ⟨o, by rw [hsame]; exact ho⟩
    · exact ⟨_, hk⟩
  count := by
    rw [h.traces]
    exact inv.count
  attached := by
    intro k o ho x
    obtain ⟨o₀, ho₀, -, hoptions⟩ := h.living_back ho
    rw [h.traces, hoptions]
    exact inv.attached ho₀ x
  asks := by
    intro k o ho htracks n hn
    obtain ⟨o₀, ho₀, hname, hoptions⟩ := h.living_back ho
    rw [hoptions] at htracks ⊢
    rw [h.asked, hname] at hn
    exact inv.asks ho₀ htracks n hn
  colored := by
    intro k o ho
    rcases h.made k with hsame | ⟨o₀, b, -, hk⟩
    · rw [hsame] at ho
      exact inv.colored k o ho
    · rw [hk] at ho
      rw [← Option.some.inj ho]
      exact fun _ => rfl

end Redrawn

/-! ## A variable is written -/

section Calls

variable {s t : LedProcess ν} {k : Nat} {o : Object Led} {l : Led} {name : String}
  {fails : Nat → Bool}

theorem varTrace_redrawn (global : String → ν) (ho : s.lamps.living k = some o) (name : String) :
    Redrawn s (s.varTrace global k o.state name).1 := by
  unfold varTrace
  split
  · exact .refl s
  · split
    · exact redrawn_put ho _
    · exact .refl s

theorem varTrace_other (global : String → ν) {j : Nat} (hj : j ≠ k) (name : String) :
    (s.varTrace global k l name).1.lamps.made j = s.lamps.made j := by
  unfold varTrace
  split
  · rfl
  · split
    · exact Objects.made_put_of_ne hj
    · rfl

/-- What the lamp shows when it has read its variable. -/
theorem varTrace_lit (ho : s.lamps.made k = some o) {value : String} {b : Bool}
    (hvalue : s.vars (global name) = some value) (hb : truth value = some b) :
    (s.varTrace global k l name).1.lamps.made k = some { o with state := l.setstate b } := by
  simp only [varTrace, hvalue, hb]
  exact Objects.made_put_self ho

theorem callTrace_living (global : String → ν) (ho : s.lamps.living k = some o) (name : String)
    (fails : Nat → Bool) :
    callTrace global name fails (.led k) s = s.varTrace global k o.state name := by
  simp only [callTrace, ho]

theorem callTrace_dead (global : String → ν) (hnone : s.lamps.living k = none) (name : String)
    (fails : Nat → Bool) : callTrace global name fails (.led k) s = (s, false) := by
  simp only [callTrace, hnone]

theorem callTrace_redrawn (u : WriteTrace) : Redrawn s (callTrace global name fails u s).1 := by
  cases u with
  | led j =>
    cases ho : s.lamps.living j with
    | none =>
      rw [callTrace_dead global ho]
      exact .refl s
    | some o =>
      rw [callTrace_living global ho]
      exact varTrace_redrawn global ho name
  | other id => exact .refl s

theorem callTrace_other {u : WriteTrace} (hu : u ≠ .led k) :
    (callTrace global name fails u s).1.lamps.made k = s.lamps.made k := by
  cases u with
  | led j =>
    cases ho : s.lamps.living j with
    | none => rw [callTrace_dead global ho]
    | some o =>
      rw [callTrace_living global ho]
      refine varTrace_other global ?_ name
      intro h
      exact hu (by rw [h])
  | other id => rfl

theorem callTraces_redrawn (ts : List WriteTrace) :
    Redrawn s (callTraces (callTrace global name fails) ts s) :=
  callTraces_invariant (Redrawn s) (.refl s) fun u _ _ h => h.trans (callTrace_redrawn u)

theorem callTraces_other {ts : List WriteTrace} (hk : .led k ∉ ts) :
    (callTraces (callTrace global name fails) ts s).lamps.made k = s.lamps.made k := by
  refine callTraces_invariant (fun t : LedProcess ν => t.lamps.made k = s.lamps.made k) rfl ?_
  intro u hu t ht
  rw [callTrace_other (fun h => hk (by rw [← h]; exact hu)), ht]

/-- The trace of a living lamp returns when the variable has a value. -/
theorem callTrace_returns {u : WriteTrace} {value : String}
    (hvalue : s.vars (global name) = some value)
    (hled : ∀ j, u = .led j → s.lamps.living j ≠ none)
    (hother : ∀ id, u = .other id → fails id = false) (h : Redrawn s t) :
    (callTrace global name fails u t).2 = true := by
  cases u with
  | led j =>
    cases ho : t.lamps.living j with
    | none => exact absurd (h.living_none.mp ho) (hled j rfl)
    | some o =>
      rw [callTrace_living global ho]
      simp only [varTrace, h.vars, hvalue]
      cases truth value <;> rfl
  | other id => simp only [callTrace, hother id rfl, Bool.not_false]

end Calls

section Write

variable [DecidableEq ν] {s t : LedProcess ν} {k : Nat} {o : Object Led} {name : String}
  {fails : Nat → Bool}

/-- The state in which the traces of a write begin. -/
def assigned (x : ν) (value : String) (s : LedProcess ν) : LedProcess ν :=
  { s with vars := Function.update s.vars x (some value) }

theorem write_redrawn (global : String → ν) (x : ν) (name value : String) (fails : Nat → Bool)
    (s : LedProcess ν) :
    Redrawn (assigned x value s) (s.write global x name value fails) :=
  callTraces_redrawn _

/-- A write that reaches a lamp is shown. -/
theorem write_reaches (inv : LedBase global s) {x : ν} {value : String} {b : Bool}
    (ho : s.lamps.living k = some o) (hx : .led k ∈ s.traces x) (hname : global name = x)
    (hfails : ∀ id, .other id ∈ s.traces x → fails id = false)
    (hblocked : ¬ ∃ j, s.lamps.living j = none ∧ Before (.led j) (.led k) (s.traces x))
    (hb : truth value = some b) :
    ∃ o₁ : Object Led, (s.write global x name value fails).lamps.made k =
      some { o₁ with state := o₁.state.setstate b } := by
  obtain ⟨first, rest, hsplit⟩ := List.append_of_mem hx
  let s₀ := assigned x value s
  have hvalue : s₀.vars (global name) = some value := by
    rw [hname]
    exact Function.update_self _ _ _
  have hreturns : ∀ u ∈ first, ∀ t, Redrawn s₀ t → (callTrace global name fails u t).2 = true := by
    intro u hu t ht
    refine callTrace_returns hvalue ?_ ?_ ht
    · intro j hj hnone
      exact hblocked ⟨j, hnone, first, rest, hsplit, by rw [← hj]; exact hu⟩
    · intro id hid
      refine hfails id ?_
      rw [hsplit, ← hid]
      exact List.mem_append_left _ hu
  have hkeeps : ∀ u ∈ first, ∀ t, Redrawn s₀ t → Redrawn s₀ (callTrace global name fails u t).1 :=
    fun u _ t ht => ht.trans (callTrace_redrawn u)
  have hrest : .led k ∉ rest := by
    intro hmem
    have hcount := inv.count k x
    have hpos := List.count_pos_iff.mpr hmem
    rw [hsplit] at hcount
    simp only [List.count_append, List.count_cons, beq_self_eq_true, if_true] at hcount
    omega
  have hwrite : s.write global x name value fails =
      callTraces (callTrace global name fails) (s.traces x) s₀ := rfl
  rw [hwrite, hsplit, callTraces_append (Redrawn s₀) (.refl s₀) hkeeps hreturns]
  have hfirst : Redrawn s₀ (callTraces (callTrace global name fails) first s₀) :=
    callTraces_redrawn _
  generalize callTraces (callTrace global name fails) first s₀ = s₁ at hfirst
  obtain ⟨o₁, ho₁⟩ := hfirst.living_some ho
  have hcall := varTrace_lit (l := o₁.state) (Objects.living_iff.mp ho₁).1
    (show s₁.vars (global name) = some value by rw [hfirst.vars, hvalue]) hb
  refine ⟨o₁, ?_⟩
  unfold callTraces
  rw [callTrace_living global ho₁]
  split
  · rw [callTraces_other hrest, hcall]
  · exact hcall

/-- A write to another variable, or one that a destroyed lamp stops, leaves a
lamp as it is. -/
theorem write_unreached (inv : LedBase global s) {x : ν} (value : String)
    (hout : .led k ∉ s.traces x ∨
      ∃ j, s.lamps.living j = none ∧ Before (.led j) (.led k) (s.traces x)) :
    (s.write global x name value fails).lamps.made k = s.lamps.made k := by
  show (callTraces (callTrace global name fails) (s.traces x) (assigned x value s)).lamps.made k =
    (assigned x value s).lamps.made k
  rcases hout with hout | ⟨j, hnone, hbefore⟩
  · exact callTraces_other hout
  · obtain ⟨first, rest, hsplit, hk⟩ := hbefore.split (inv.count k x)
    have hfails : ∀ t, Redrawn (assigned x value s) t →
        (callTrace global name fails (.led j) t).2 = false := by
      intro t ht
      rw [callTrace_dead global (ht.living_none.mpr hnone)]
    rw [hsplit, callTraces_stop (Redrawn (assigned x value s)) (.refl _)
      (fun u _ t ht => ht.trans (callTrace_redrawn u)) hfails]
    exact callTraces_other hk

theorem ledInv_write (inv : LedInv global s) {x : ν} (hname : global name = x) (value : String)
    (hfails : ∀ id, .other id ∈ s.traces x → fails id = false) :
    LedInv global (s.write global x name value fails) := by
  have hbase : LedBase global (assigned x value s) :=
    ⟨inv.made, inv.count, inv.attached, inv.asks, inv.colored⟩
  have h := write_redrawn global x name value fails s
  refine ⟨hbase.redrawn h, ?_⟩
  generalize ht : s.write global x name value fails = t at h
  intro k o ho htracks
  obtain ⟨o₀, ho₀, honame, hoptions⟩ := h.living_back ho
  have ho₀ : s.lamps.living k = some o₀ := ho₀
  have hmade := (Objects.living_iff.mp ho).1
  rw [hoptions] at htracks
  have hblocked : t.Blocked global k o.state ↔ s.Blocked global k o₀.state := h.blocked hoptions
  have hasked : t.asked o.name = s.asked o₀.name := by
    rw [h.asked, honame]
    rfl
  rw [hasked, hblocked]
  by_cases hin : .led k ∈ s.traces x
  · have hx := ((inv.attached ho₀ x).mp hin).2
    by_cases hb : s.Blocked global k o₀.state
    · exact .inr (.inl hb)
    · refine .inr (.inr ?_)
      intro value' b hvalue' htruth
      rw [h.vars, hoptions, ← hx] at hvalue'
      have hvalue : (assigned x value s).vars x = some value := Function.update_self _ _ _
      rw [hvalue] at hvalue'
      cases hvalue'
      unfold LedProcess.Blocked at hb
      rw [← hx] at hb
      obtain ⟨o₁, ho₁⟩ := write_reaches inv.toLedBase ho₀ hin hname hfails hb htruth
      rw [ht, hmade] at ho₁
      rw [Option.some.inj ho₁]
      rfl
  · have hsame : (s.write global x name value fails).lamps.made k = s.lamps.made k :=
      write_unreached inv.toLedBase value (.inl hin)
    rw [ht, hmade, (Objects.living_iff.mp ho₀).1] at hsame
    cases hsame
    have hne : global o.state.options.variableName ≠ x := by
      intro hx
      exact hin ((inv.attached ho₀ x).mpr ⟨htracks, hx.symm⟩)
    refine (inv.shown k o ho₀ htracks).imp id (Or.imp id ?_)
    intro hshows value' b hvalue' htruth
    refine hshows value' b ?_ htruth
    rw [h.vars] at hvalue'
    simp only [assigned, Function.update_of_ne hne] at hvalue'
    exact hvalue'

end Write

/-! ## Traces come and go -/

section Traces

variable [DecidableEq ν] {s : LedProcess ν}

omit [DecidableEq ν] in
/-- The commands of other scripts. -/
theorem LedInv.retraced (inv : LedInv global s) {traces : ν → List WriteTrace}
    (hcount : ∀ k x, (traces x).count (.led k) = (s.traces x).count (.led k))
    (hbefore : ∀ j k x, Before (.led j) (.led k) (s.traces x) →
      Before (.led j) (.led k) (traces x)) :
    LedInv global { s with traces } := by
  have hmem : ∀ {k x}, .led k ∈ traces x ↔ .led k ∈ s.traces x := by
    intro k x
    rw [← List.count_pos_iff, hcount, List.count_pos_iff]
  exact {
    made := fun hx => inv.made (hmem.mp hx)
    count := by
      intro k x
      exact (hcount k x).trans_le (inv.count k x)
    attached := by
      intro k o ho x
      exact hmem.trans (inv.attached ho x)
    asks := inv.asks
    colored := inv.colored
    shown := by
      intro k o ho htracks
      refine (inv.shown k o ho htracks).imp id (Or.imp ?_ id)
      intro ⟨j, hnone, h⟩
      exact ⟨j, hnone, hbefore j k _ h⟩ }

theorem before_addTrace {x y : ν} {id j k : Nat} (h : Before (.led j) (.led k) (s.traces y)) :
    Before (.led j) (.led k) ((s.addTrace x (.other id)).traces y) := by
  unfold LedProcess.addTrace
  by_cases hy : y = x
  · simp only [hy, Function.update_self]
    rw [hy] at h
    exact h.cons _
  · simp only [Function.update_of_ne hy]
    exact h

theorem before_removeTrace {x y : ν} {id j k : Nat} (h : Before (.led j) (.led k) (s.traces y)) :
    Before (.led j) (.led k) ((s.removeTrace x (.other id)).traces y) := by
  unfold LedProcess.removeTrace
  by_cases hy : y = x
  · simp only [hy, Function.update_self]
    rw [hy] at h
    exact h.erase (by simp) (by simp)
  · simp only [Function.update_of_ne hy]
    exact h

theorem ledInv_addTrace (inv : LedInv global s) (x : ν) (id : Nat) :
    LedInv global (s.addTrace x (.other id)) := by
  refine inv.retraced ?_ fun j k y => before_addTrace
  intro k y
  by_cases hy : y = x
  · rw [hy, Function.update_self, List.count_cons_of_ne (by simp)]
  · rw [Function.update_of_ne hy]

theorem ledInv_removeTrace (inv : LedInv global s) (x : ν) (id : Nat) :
    LedInv global (s.removeTrace x (.other id)) := by
  refine inv.retraced ?_ fun j k y => before_removeTrace
  intro k y
  by_cases hy : y = x
  · rw [hy, Function.update_self, List.count_erase_of_ne (by simp)]
  · rw [Function.update_of_ne hy]

theorem ledInv_unset (inv : LedInv global s) {x : ν}
    (hunused : ∀ k o, s.lamps.living k = some o → o.state.options.variableName ≠ "" →
      global o.state.options.variableName ≠ x) :
    LedInv global { s with
      vars := Function.update s.vars x none
      traces := Function.update s.traces x [] } where
  made := by
    intro k y hy
    by_cases hyx : y = x
    · simp only [hyx, Function.update_self] at hy
      cases hy
    · simp only [Function.update_of_ne hyx] at hy
      exact inv.made hy
  count := by
    intro k y
    by_cases hyx : y = x
    · simp [hyx]
    · simp only [Function.update_of_ne hyx]
      exact inv.count k y
  attached := by
    intro k o ho y
    by_cases hyx : y = x
    · simp only [hyx, Function.update_self]
      refine ⟨(fun h => by cases h), ?_⟩
      intro ⟨htracks, hx⟩
      exact absurd hx.symm (hunused k o ho htracks)
    · simp only [Function.update_of_ne hyx]
      exact inv.attached ho y
  asks := inv.asks
  colored := inv.colored
  shown := by
    intro k o ho htracks
    have hne := hunused k o ho htracks
    have hshown := inv.shown k o ho htracks
    unfold LedProcess.Blocked LedProcess.Shows at hshown ⊢
    simp only [Function.update_of_ne hne]
    exact hshown

/-- The lamp's trace taken off the variable that it has tracked. -/
theorem untracked_spec (inv : LedBase global s) {k : Nat} {o : Object Led}
    (ho : s.lamps.living k = some o) :
    ∃ traces, (if o.state.options.variableName ≠ "" then
        s.removeTrace (global o.state.options.variableName) (.led k) else s) = { s with traces } ∧
      (∀ x, (traces x).count (.led k) = 0) ∧
      (∀ j ≠ k, ∀ x, (traces x).count (.led j) = (s.traces x).count (.led j)) ∧
      ∀ i ≠ k, ∀ j ≠ k, ∀ x, Before (.led i) (.led j) (s.traces x) →
        Before (.led i) (.led j) (traces x) := by
  have hout : ∀ x, ¬ (o.state.options.variableName ≠ "" ∧
      x = global o.state.options.variableName) → (s.traces x).count (.led k) = 0 := by
    intro x hx
    exact List.count_eq_zero.mpr fun hmem => hx ((inv.attached ho x).mp hmem)
  by_cases htracks : o.state.options.variableName ≠ ""
  · rw [if_pos htracks]
    refine ⟨_, rfl, ?_, ?_, ?_⟩
    · intro x
      by_cases hx : x = global o.state.options.variableName
      · rw [hx, Function.update_self, List.count_erase_self]
        have := inv.count k (global o.state.options.variableName)
        omega
      · rw [Function.update_of_ne hx]
        exact hout x fun h => hx h.2
    · intro j hj x
      by_cases hx : x = global o.state.options.variableName
      · rw [hx, Function.update_self, List.count_erase_of_ne (by simpa using hj)]
      · rw [Function.update_of_ne hx]
    · intro i hi j hj x h
      by_cases hx : x = global o.state.options.variableName
      · rw [hx] at h
        rw [hx, Function.update_self]
        exact h.erase (by simpa using hj) (by simpa using hi)
      · rw [Function.update_of_ne hx]
        exact h
  · rw [if_neg htracks]
    exact ⟨s.traces, rfl, fun x => hout x fun h => htracks h.1, fun _ _ _ => rfl,
      fun _ _ _ _ _ h => h⟩

theorem configureVariable_spec (inv : LedBase global s) {k : Nat} {o : Object Led}
    (ho : s.lamps.living k = some o) (n : String) :
    ∃ traces, s.configureVariable global k o n =
        { s.put k { o.state with options := { o.state.options with variableName := n } } with
          traces, after := s.after ++ [(o.name, n)] } ∧
      (∀ x, (traces x).count (.led k) = if x = global n then 1 else 0) ∧
      (∀ j ≠ k, ∀ x, (traces x).count (.led j) = (s.traces x).count (.led j)) ∧
      ∀ i ≠ k, ∀ j ≠ k, ∀ x, Before (.led i) (.led j) (s.traces x) →
        Before (.led i) (.led j) (traces x) := by
  obtain ⟨traces, heq, hnone, hcount, hbefore⟩ := untracked_spec inv ho
  refine ⟨Function.update traces (global n) (.led k :: traces (global n)), ?_, ?_, ?_, ?_⟩
  · unfold LedProcess.configureVariable
    simp only [heq]
    rfl
  · intro x
    by_cases hx : x = global n
    · rw [if_pos hx, hx, Function.update_self, List.count_cons_self, hnone]
    · rw [if_neg hx, Function.update_of_ne hx, hnone]
  · intro j hj x
    by_cases hx : x = global n
    · rw [hx, Function.update_self, List.count_cons_of_ne (by simpa using Ne.symm hj), hcount j hj]
    · rw [Function.update_of_ne hx, hcount j hj]
  · intro i hi j hj x h
    by_cases hx : x = global n
    · rw [hx, Function.update_self, ← hx]
      exact (hbefore i hi j hj x h).cons _
    · rw [Function.update_of_ne hx]
      exact hbefore i hi j hj x h

end Traces

/-! ## Lamps come, change and go -/

section Lamps

variable [DecidableEq ν] {s t : LedProcess ν} {k : Nat} {o : Object Led}

omit [DecidableEq ν] in
theorem ledInv_configureColor (inv : LedInv global s) (ho : s.lamps.living k = some o)
    (options : LedOptions) :
    LedInv global (s.put k { o.state with
      options := { options with variableName := o.state.options.variableName }
      recolored := true }) := by
  -- a living lamp has the same name, variable and state as before
  have hold : ∀ {j m}, (s.put k { o.state with
      options := { options with variableName := o.state.options.variableName }
      recolored := true }).lamps.living j = some m → ∃ m₀, s.lamps.living j = some m₀ ∧
      m.name = m₀.name ∧ m.state.options.variableName = m₀.state.options.variableName ∧
      m.state.lit = m₀.state.lit := by
    intro j m hm
    rcases Objects.living_put ho hm with ⟨hj, hm⟩ | ⟨-, hm⟩
    · rw [hj, hm]
      exact ⟨o, ho, rfl, rfl, rfl⟩
    · exact ⟨m, hm, rfl, rfl, rfl⟩
  exact {
    made := by
      intro j x hx
      obtain ⟨m, hm⟩ := inv.made hx
      by_cases hj : j = k
      · rw [hj] at hm ⊢
        exact ⟨_, Objects.made_put_self hm⟩
      · exact ⟨m, (Objects.made_put_of_ne hj).trans hm⟩
    count := inv.count
    attached := by
      intro j m hm x
      obtain ⟨m₀, hm₀, -, hvar, -⟩ := hold hm
      rw [hvar]
      exact inv.attached hm₀ x
    asks := by
      intro j m hm htracks n hn
      obtain ⟨m₀, hm₀, hname, hvar, -⟩ := hold hm
      rw [hvar] at htracks ⊢
      rw [hname] at hn
      exact inv.asks hm₀ htracks n hn
    colored := inv.colored.put fun h => by cases h
    shown := by
      intro j m hm htracks
      obtain ⟨m₀, hm₀, hname, hvar, hlit⟩ := hold hm
      rw [hvar] at htracks
      refine (inv.shown j m₀ hm₀ htracks).imp ?_ (Or.imp ?_ ?_)
      · rw [hname]
        exact id
      · intro ⟨i, hnone, h⟩
        refine ⟨i, Objects.put_dead hnone, ?_⟩
        rw [hvar]
        exact h
      · intro hshows value b hvalue htruth
        rw [hlit]
        rw [hvar] at hvalue
        exact hshows value b hvalue htruth }

omit [DecidableEq ν] in
theorem ledInv_destroy (inv : LedInv global s) :
    LedInv global { s with lamps := s.lamps.destroy k } where
  made := by
    intro j x hx
    obtain ⟨m, hm⟩ := inv.made hx
    by_cases hj : j = k
    · rw [hj] at hm ⊢
      exact ⟨_, Objects.made_destroy_self hm⟩
    · exact ⟨m, (Objects.made_destroy_of_ne hj).trans hm⟩
  count := inv.count
  attached := by
    intro j m hm x
    exact inv.attached (Objects.living_destroy hm).2 x
  asks := by
    intro j m hm htracks n hn
    exact inv.asks (Objects.living_destroy hm).2 htracks n hn
  colored := inv.colored.destroy
  shown := by
    intro j m hm htracks
    refine (inv.shown j m (Objects.living_destroy hm).2 htracks).imp id (Or.imp ?_ id)
    intro ⟨i, hnone, h⟩
    exact ⟨i, Objects.destroy_dead hnone, h⟩

omit [DecidableEq ν] in
theorem asked_append {p : String × String} (h : t.after = s.after ++ [p]) (name : String) :
    t.asked name = s.asked name ++ if p.1 = name then [p.2] else [] := by
  unfold LedProcess.asked
  rw [h]
  by_cases hp : p.1 = name <;> simp [hp]

theorem ledInv_configureVariable (inv : LedInv global s) (ho : s.lamps.living k = some o)
    {n : String} (hn : n ≠ "") : LedInv global (s.configureVariable global k o n) := by
  obtain ⟨traces, heq, hself, hcount, hbefore⟩ := configureVariable_spec inv.toLedBase ho n
  rw [heq]
  generalize hu : ({ s.put k { o.state with
    options := { o.state.options with variableName := n } } with
      traces, after := s.after ++ [(o.name, n)] } : LedProcess ν) = u
  have htraces : u.traces = traces := by rw [← hu]
  have hvars : u.vars = s.vars := by rw [← hu]; rfl
  have hlamps : u.lamps = s.lamps.put k { o.state with
      options := { o.state.options with variableName := n } } := by
    rw [← hu]
    rfl
  have hasked : ∀ name, u.asked name = s.asked name ++ if o.name = name then [n] else [] :=
    asked_append (p := (o.name, n)) (by rw [← hu])
  have hliving : ∀ {j m}, u.lamps.living j = some m →
      j = k ∧ m = { o with state := { o.state with
        options := { o.state.options with variableName := n } } } ∨
      j ≠ k ∧ s.lamps.living j = some m := by
    rw [hlamps]
    exact Objects.living_put ho
  have hother : ∀ {j m}, j ≠ k → s.lamps.living j = some m → u.asked m.name = s.asked m.name := by
    intro j m hj hm
    rw [hasked, if_neg, List.append_nil]
    intro hname
    exact hj (Objects.eq_of_name hm ho hname.symm)
  exact {
    made := by
      intro j x hx
      rw [htraces] at hx
      rw [hlamps]
      by_cases hj : j = k
      · rw [hj]
        exact ⟨_, Objects.made_put_self (Objects.living_iff.mp ho).1⟩
      · have hpos := List.count_pos_iff.mpr hx
        rw [hcount j hj] at hpos
        obtain ⟨m, hm⟩ := inv.made (List.count_pos_iff.mp hpos)
        exact ⟨m, (Objects.made_put_of_ne hj).trans hm⟩
    count := by
      intro j x
      rw [htraces]
      by_cases hj : j = k
      · rw [hj, hself x]
        split <;> simp
      · rw [hcount j hj x]
        exact inv.count j x
    attached := by
      intro j m hm x
      rw [htraces, ← List.count_pos_iff]
      rcases hliving hm with ⟨hj, hm⟩ | ⟨hj, hm⟩
      · rw [hm, hj, hself]
        by_cases hx : x = global n <;> simp [hx, hn]
      · rw [hcount j hj, List.count_pos_iff]
        exact inv.attached hm x
    asks := by
      intro j m hm htracks n' hn'
      rcases hliving hm with ⟨-, hm⟩ | ⟨hj, hm⟩
      · rw [hm] at hn' ⊢
        rw [hasked, if_pos rfl, List.getLast?_append] at hn'
        exact (Option.some.inj hn').symm
      · rw [hother hj hm] at hn'
        exact inv.asks hm htracks n' hn'
    colored := by
      rw [hlamps]
      refine inv.colored.put ?_
      exact inv.colored.living ho
    shown := by
      intro j m hm htracks
      rcases hliving hm with ⟨-, hm⟩ | ⟨hj, hm⟩
      · left
        rw [hm, hasked, if_pos rfl]
        simp
      · rw [hother hj hm]
        refine (inv.shown j m hm htracks).imp id (Or.imp ?_ ?_)
        · intro ⟨i, hnone, h⟩
          have hi : i ≠ k := by
            intro hi
            rw [hi, ho] at hnone
            cases hnone
          refine ⟨i, by rw [hlamps]; exact Objects.put_dead hnone, ?_⟩
          rw [htraces]
          exact hbefore i hi j hj _ h
        · unfold LedProcess.Shows
          rw [hvars]
          exact id }

omit [DecidableEq ν] in
/-- A trace that is in a list is not the one of a lamp that comes later. -/
theorem LedBase.blocked_made (inv : LedBase global s) {name : String}
    (hfree : s.lamps.names name = none) {l m : Led} (h : s.Blocked global k m) :
    LedProcess.Blocked global { s with lamps := s.lamps.create name l hfree } k m := by
  obtain ⟨j, hnone, hbefore⟩ := h
  obtain ⟨first, rest, hsplit, hmem⟩ := id hbefore
  obtain ⟨o, ho⟩ := inv.made (x := global m.options.variableName)
    (by rw [hsplit]; exact List.mem_append_left _ hmem)
  exact ⟨j, Objects.create_dead hfree ho hnone, hbefore⟩

omit [DecidableEq ν] in
/-- A lamp that is made tracks nothing yet. -/
theorem ledInv_made (inv : LedInv global s) {name : String} (hfree : s.lamps.names name = none)
    {l : Led} (huntracked : l.options.variableName = "") (hcolored : l.Colored) :
    LedInv global { s with lamps := s.lamps.create name l hfree } where
  made := by
    intro j x hx
    obtain ⟨m, hm⟩ := inv.made hx
    exact ⟨m, Objects.made_create_old hfree hm⟩
  count := inv.count
  attached := by
    intro j m hm x
    rcases Objects.living_create hfree hm with ⟨hj, hm⟩ | ⟨-, hm⟩
    · rw [hm, hj]
      refine ⟨?_, fun h => absurd huntracked h.1⟩
      intro hx
      obtain ⟨m', hm'⟩ := inv.made hx
      exact absurd rfl (Objects.ne_serial hm')
    · exact inv.attached hm x
  asks := by
    intro j m hm htracks
    rcases Objects.living_create hfree hm with ⟨-, hm⟩ | ⟨-, hm⟩
    · rw [hm] at htracks
      exact absurd huntracked htracks
    · exact inv.asks hm htracks
  colored := inv.colored.create hfree hcolored
  shown := by
    intro j m hm htracks
    rcases Objects.living_create hfree hm with ⟨-, hm⟩ | ⟨-, hm⟩
    · rw [hm] at htracks
      exact absurd huntracked htracks
    · refine (inv.shown j m hm htracks).imp id (Or.imp ?_ id)
      exact fun hblocked => inv.toLedBase.blocked_made hfree hblocked

theorem ledInv_create (inv : LedInv global s) {name : String} (hfree : s.lamps.names name = none)
    (options : LedOptions) : LedInv global (s.create global name options hfree) := by
  unfold LedProcess.create
  have hmade := ledInv_made inv hfree (l := .new options) rfl (fun _ => rfl)
  split
  · next htracks =>
    exact ledInv_configureVariable hmade (Objects.living_create_self hfree) htracks
  · exact hmade

theorem ledInv_switch (inv : LedInv global s) (hcolons : ∀ n, global ("::" ++ n) = global n)
    (ho : s.lamps.living k = some o) (value : Bool) {fails : Nat → Bool}
    (hfails : ∀ id, .other id ∈ s.traces (global o.state.options.variableName) →
      fails id = false) : LedInv global (s.switch global k o.state value fails) := by
  unfold LedProcess.switch
  split
  · exact ledInv_write inv (hcolons _) _ hfails
  · next huntracked =>
    have huntracked : o.state.options.variableName = "" := by simpa using huntracked
    refine ⟨inv.toLedBase.redrawn (redrawn_put ho value), ?_⟩
    intro j m hm htracks
    rcases Objects.living_put ho hm with ⟨-, hm⟩ | ⟨-, hm⟩
    · rw [hm] at htracks
      exact absurd huntracked htracks
    · refine (inv.shown j m hm htracks).imp id (Or.imp ?_ id)
      intro ⟨i, hnone, hbefore⟩
      exact ⟨i, Objects.put_dead hnone, hbefore⟩

omit [DecidableEq ν] in
theorem asked_cons {name variableName : String} {after : List (String × String)}
    (hafter : s.after = (name, variableName) :: after) (n : String) :
    s.asked n = (if name = n then [variableName] else []) ++
      ({ s with after } : LedProcess ν).asked n := by
  unfold LedProcess.asked
  rw [hafter]
  by_cases hn : name = n <;> simp [hn]

omit [DecidableEq ν] in
theorem LedBase.asked (inv : LedBase global s) {name variableName : String}
    {after : List (String × String)} (hafter : s.after = (name, variableName) :: after) :
    LedBase global { s with after } := by
  refine ⟨inv.made, inv.count, inv.attached, ?_, inv.colored⟩
  intro k o ho htracks n hn
  refine inv.asks ho htracks n ?_
  rw [asked_cons hafter, List.getLast?_append, hn]
  rfl

omit [DecidableEq ν] in
/-- A question of another widget is answered. -/
theorem LedInv.shown_other (inv : LedInv global s) {name variableName : String}
    {after : List (String × String)} (hafter : s.after = (name, variableName) :: after)
    (ho : s.lamps.living k = some o) (htracks : o.state.options.variableName ≠ "")
    (hname : o.name ≠ name) :
    ({ s with after } : LedProcess ν).asked o.name ≠ [] ∨ s.Blocked global k o.state ∨
      s.Shows global o.state := by
  refine (inv.shown k o ho htracks).imp ?_ id
  intro h
  rw [asked_cons hafter, if_neg (Ne.symm hname)] at h
  exact h

omit [DecidableEq ν] in
/-- The oldest question is answered. -/
theorem ledInv_after (inv : LedInv global s) {name variableName : String}
    {after : List (String × String)} (hafter : s.after = (name, variableName) :: after)
    (ho : s.lamps.living k = some o) (hname : o.name = name) :
    LedInv global
      (({ s with after } : LedProcess ν).varTrace global k o.state variableName).1 := by
  generalize ht : (({ s with after } : LedProcess ν).varTrace global k o.state variableName).1 = t
  have h : Redrawn { s with after } t := by
    rw [← ht]
    exact varTrace_redrawn (s := { s with after }) global ho variableName
  have hread : ∀ value b, s.vars (global variableName) = some value → truth value = some b →
      t.lamps.made k = some { o with state := o.state.setstate b } := by
    intro value b hvalue htruth
    rw [← ht]
    exact varTrace_lit (s := { s with after }) (Objects.living_iff.mp ho).1 hvalue htruth
  have hother : ∀ j ≠ k, t.lamps.made j = s.lamps.made j := by
    intro j hj
    rw [← ht]
    exact varTrace_other (s := { s with after }) global hj variableName
  refine ⟨(inv.toLedBase.asked hafter).redrawn h, ?_⟩
  intro j m hm htracks
  obtain ⟨m₀, hm₀, hmname, hoptions⟩ := h.living_back hm
  have hm₀ : s.lamps.living j = some m₀ := hm₀
  have hmade := (Objects.living_iff.mp hm).1
  have hblocked : t.Blocked global j m.state ↔ s.Blocked global j m₀.state := h.blocked hoptions
  rw [hoptions] at htracks
  rw [h.asked, hmname, hblocked]
  by_cases hj : j = k
  · rw [hj, ho] at hm₀
    cases hm₀
    by_cases hrest : ({ s with after } : LedProcess ν).asked o.name = []
    · refine .inr (.inr ?_)
      intro value b hvalue htruth
      have hvariable : variableName = o.state.options.variableName := by
        refine inv.asks ho htracks variableName ?_
        rw [asked_cons hafter, if_pos hname.symm, hrest]
        rfl
      rw [h.vars, hoptions, ← hvariable] at hvalue
      have hlit := hread value b hvalue htruth
      rw [← hj, hmade] at hlit
      rw [Option.some.inj hlit]
      rfl
    · exact .inl hrest
  · have hsame := hother j hj
    rw [hmade, (Objects.living_iff.mp hm₀).1] at hsame
    cases hsame
    have hne : m.name ≠ name := by
      intro h
      exact hj (Objects.eq_of_name hm₀ ho (h.trans hname.symm))
    refine (inv.shown_other hafter hm₀ htracks hne).imp id (Or.imp id ?_)
    intro hshows value b hvalue htruth
    rw [h.vars] at hvalue
    exact hshows value b hvalue htruth

omit [DecidableEq ν] in
/-- The widget that has asked is gone. -/
theorem ledInv_after_gone (inv : LedInv global s) {name variableName : String}
    {after : List (String × String)} (hafter : s.after = (name, variableName) :: after)
    (hnone : s.lamps.find name = none) : LedInv global { s with after } := by
  refine ⟨inv.toLedBase.asked hafter, ?_⟩
  intro k o ho htracks
  refine inv.shown_other hafter ho htracks ?_
  intro hname
  rw [Objects.find_iff.mpr ⟨ho, hname⟩] at hnone
  cases hnone

end Lamps

/-! ## Runs -/

section Runs

variable [DecidableEq ν] {s t : LedProcess ν} {k : Nat} {o : Object Led}

omit [DecidableEq ν] in
theorem ledInv_initial (global : String → ν) (vars : ν → Option String) :
    LedInv global { vars } where
  made := by
    intro k x h
    cases h
  count := fun _ _ => Nat.zero_le _
  attached := by
    intro k o h
    cases h
  asks := by
    intro k o h
    cases h
  colored := Objects.all_empty
  shown := by
    intro k o h
    cases h

theorem ledInv_step (inv : LedInv global s) (hcolons : ∀ n, global ("::" ++ n) = global n)
    {a : LedAction ν} (hfair : s.Fair global a) (h : s.step global a = some t) :
    LedInv global t := by
  cases a with
  | create name options =>
    simp only [LedProcess.step] at h
    split at h
    · cases h
    · next hfree =>
      cases h
      exact ledInv_create inv hfree options
  | destroy name =>
    obtain ⟨⟨k, o⟩, hfind, heq⟩ := Option.map_eq_some_iff.mp h
    rw [← heq]
    exact ledInv_destroy inv
  | configureVariable name variableName =>
    obtain ⟨⟨k, o⟩, hfind, heq⟩ := Option.map_eq_some_iff.mp h
    rw [← heq]
    exact ledInv_configureVariable inv (Objects.find_iff.mp hfind).1 hfair
  | configureColor name options =>
    obtain ⟨⟨k, o⟩, hfind, heq⟩ := Option.map_eq_some_iff.mp h
    rw [← heq]
    exact ledInv_configureColor inv (Objects.find_iff.mp hfind).1 options
  | switch name value fails =>
    obtain ⟨⟨k, o⟩, hfind, heq⟩ := Option.map_eq_some_iff.mp h
    rw [← heq]
    exact ledInv_switch inv hcolons (Objects.find_iff.mp hfind).1 value (hfair k o hfind)
  | write x name value fails =>
    cases h
    exact ledInv_write inv hfair.1 value hfair.2
  | unset x =>
    cases h
    exact ledInv_unset inv hfair
  | addTrace x id =>
    cases h
    exact ledInv_addTrace inv x id
  | removeTrace x id =>
    cases h
    exact ledInv_removeTrace inv x id
  | after =>
    simp only [LedProcess.step] at h
    split at h
    · cases h
    · next name variableName after hafter =>
      split at h
      · next k o hfind =>
        cases h
        obtain ⟨ho, hname⟩ := Objects.find_iff.mp hfind
        exact ledInv_after inv hafter ho hname
      · next hfind =>
        cases h
        exact ledInv_after_gone inv hafter hfind

/-- A lamp that no write reaches, and that asks for nothing. -/
structure Stuck (global : String → ν) (s : LedProcess ν) (k : Nat) (o : Object Led) : Prop where
  living : s.lamps.living k = some o
  tracks : o.state.options.variableName ≠ ""
  asked : s.asked o.name = []
  blocked : s.Blocked global k o.state

/-- Nobody configures or destroys this widget. -/
def LeavesAlone (name : String) : LedAction ν → Prop
  | .destroy other | .configureVariable other _ | .configureColor other _ => other ≠ name
  | _ => True

omit [DecidableEq ν] in
theorem Stuck.redrawn (h : Stuck global s k o) (hredrawn : Redrawn s t)
    (hsame : t.lamps.made k = s.lamps.made k) : Stuck global t k o := by
  refine ⟨?_, h.tracks, ?_, (hredrawn.blocked rfl).mpr h.blocked⟩
  · have hliving := h.living
    unfold Objects.living at hliving ⊢
    rw [hsame]
    exact hliving
  · rw [hredrawn.asked]
    exact h.asked

omit [DecidableEq ν] in
/-- Another lamp changes. -/
theorem Stuck.put (h : Stuck global s k o) {j : Nat} (hj : j ≠ k) (l : Led) :
    Stuck global (s.put j l) k o := by
  obtain ⟨i, hnone, hbefore⟩ := h.blocked
  exact ⟨(Objects.living_put_of_ne (Ne.symm hj)).trans h.living, h.tracks, h.asked,
    i, Objects.put_dead hnone, hbefore⟩

/-- A write does not reach it. -/
theorem Stuck.write (h : Stuck global s k o) (inv : LedInv global s) (x : ν)
    (name value : String) (fails : Nat → Bool) :
    Stuck global (s.write global x name value fails) k o := by
  have hassigned : Stuck global (assigned x value s) k o :=
    ⟨h.living, h.tracks, h.asked, h.blocked⟩
  refine hassigned.redrawn (write_redrawn global x name value fails s) ?_
  refine write_unreached inv.toLedBase value ?_
  by_cases hx : .led k ∈ s.traces x
  · rw [((inv.attached h.living x).mp hx).2]
    exact .inr h.blocked
  · exact .inl hx

theorem Stuck.configureVariable (h : Stuck global s k o) (inv : LedBase global s) {j : Nat}
    {m : Object Led} (hm : s.lamps.living j = some m) (hname : m.name ≠ o.name) (n : String) :
    Stuck global (s.configureVariable global j m n) k o := by
  have hj : j ≠ k := Objects.ne_of_name hm h.living hname
  obtain ⟨traces, heq, -, -, hbefore⟩ := configureVariable_spec inv hm n
  rw [heq]
  obtain ⟨i, hnone, hi⟩ := h.blocked
  refine ⟨(Objects.living_put_of_ne (Ne.symm hj)).trans h.living, h.tracks, ?_,
    i, Objects.put_dead hnone, ?_⟩
  · rw [asked_append (s := s) (p := (m.name, n)) rfl, if_neg hname, h.asked]
    rfl
  · refine hbefore i ?_ k (Ne.symm hj) _ hi
    intro hij
    rw [hij, hm] at hnone
    cases hnone

theorem Stuck.create (h : Stuck global s k o) (inv : LedInv global s) {name : String}
    (hfree : s.lamps.names name = none) (options : LedOptions) :
    Stuck global (s.create global name options hfree) k o := by
  unfold LedProcess.create
  have hmade := ledInv_made inv hfree (l := .new options) rfl (fun _ => rfl)
  have hstuck : Stuck global { s with lamps := s.lamps.create name (.new options) hfree } k o :=
    ⟨Objects.living_create_old hfree h.living, h.tracks, h.asked,
      inv.toLedBase.blocked_made hfree h.blocked⟩
  split
  · exact hstuck.configureVariable hmade.toLedBase (Objects.living_create_self hfree)
      (Ne.symm (Objects.ne_of_free h.living hfree)) _
  · exact hstuck

/-- A lamp that is switched and tracks a variable writes it. -/
theorem Stuck.switch (h : Stuck global s k o) (inv : LedInv global s) {j : Nat} {m : Object Led}
    (hm : s.lamps.living j = some m) (value : Bool) (fails : Nat → Bool) :
    Stuck global (s.switch global j m.state value fails) k o := by
  unfold LedProcess.switch
  split
  · exact h.write inv _ _ _ _
  · next huntracked =>
    refine h.put ?_ _
    intro hj
    rw [hj, h.living] at hm
    cases hm
    exact huntracked h.tracks

/-- What a lamp that has nothing left to ask for is asked is for another. -/
theorem Stuck.after (h : Stuck global s k o) (hstep : s.step global .after = some t) :
    Stuck global t k o := by
  simp only [LedProcess.step] at hstep
  split at hstep
  · cases hstep
  · next name variableName after hafter =>
    have hasked := h.asked
    rw [asked_cons hafter] at hasked
    obtain ⟨hfirst, hrest⟩ := List.append_eq_nil_iff.mp hasked
    have hname : name ≠ o.name := by
      intro hname
      rw [if_pos hname] at hfirst
      cases hfirst
    have hstuck : Stuck global { s with after } k o := ⟨h.living, h.tracks, hrest, h.blocked⟩
    split at hstep
    · next j m hfind =>
      cases hstep
      obtain ⟨hm, hmname⟩ := Objects.find_iff.mp hfind
      have hj := Objects.ne_of_name hm h.living (hmname ▸ hname)
      exact hstuck.redrawn (varTrace_redrawn (s := { s with after }) global hm variableName)
        (varTrace_other global (Ne.symm hj) variableName)
    · cases hstep
      exact hstuck

theorem stuck_step (inv : LedInv global s) (h : Stuck global s k o) {a : LedAction ν}
    (hfair : s.Fair global a) (halone : LeavesAlone o.name a) (hstep : s.step global a = some t) :
    Stuck global t k o := by
  -- the command of another path name is another lamp
  have hother : ∀ {name j m}, s.lamps.find name = some (j, m) → name ≠ o.name →
      s.lamps.living j = some m ∧ m.name ≠ o.name ∧ j ≠ k := by
    intro name j m hfind hname
    obtain ⟨hm, hmname⟩ := Objects.find_iff.mp hfind
    rw [← hmname] at hname
    exact ⟨hm, hname, Objects.ne_of_name hm h.living hname⟩
  cases a with
  | create name options =>
    simp only [LedProcess.step] at hstep
    split at hstep
    · cases hstep
    · next hfree =>
      cases hstep
      exact h.create inv hfree options
  | destroy name =>
    obtain ⟨⟨j, m⟩, hfind, heq⟩ := Option.map_eq_some_iff.mp hstep
    obtain ⟨-, -, hj⟩ := hother hfind halone
    rw [← heq]
    obtain ⟨i, hnone, hbefore⟩ := h.blocked
    exact ⟨(Objects.living_destroy_of_ne (Ne.symm hj)).trans h.living, h.tracks, h.asked,
      i, Objects.destroy_dead hnone, hbefore⟩
  | configureVariable name variableName =>
    obtain ⟨⟨j, m⟩, hfind, heq⟩ := Option.map_eq_some_iff.mp hstep
    obtain ⟨hm, hname, -⟩ := hother hfind halone
    rw [← heq]
    exact h.configureVariable inv.toLedBase hm hname variableName
  | configureColor name options =>
    obtain ⟨⟨j, m⟩, hfind, heq⟩ := Option.map_eq_some_iff.mp hstep
    obtain ⟨-, -, hj⟩ := hother hfind halone
    rw [← heq]
    exact h.put hj _
  | switch name value fails =>
    obtain ⟨⟨j, m⟩, hfind, heq⟩ := Option.map_eq_some_iff.mp hstep
    rw [← heq]
    exact h.switch inv (Objects.find_iff.mp hfind).1 value fails
  | write x name value fails =>
    cases hstep
    exact h.write inv x name value fails
  | unset x =>
    cases hstep
    obtain ⟨i, hnone, hbefore⟩ := h.blocked
    refine ⟨h.living, h.tracks, h.asked, i, hnone, ?_⟩
    simp only [Function.update_of_ne (hfair k o h.living h.tracks)]
    exact hbefore
  | addTrace x id =>
    cases hstep
    obtain ⟨i, hnone, hbefore⟩ := h.blocked
    exact ⟨h.living, h.tracks, h.asked, i, hnone, before_addTrace hbefore⟩
  | removeTrace x id =>
    cases hstep
    obtain ⟨i, hnone, hbefore⟩ := h.blocked
    exact ⟨h.living, h.tracks, h.asked, i, hnone, before_removeTrace hbefore⟩
  | after => exact h.after hstep

/-- After any fair run, a lamp that has nothing left to ask for shows the
variable that it tracks, as far as this has a truth value, unless a lamp that
was attached to the variable after it has been destroyed. Then it stays as it
is, in every fair run in which nobody configures or destroys it. -/
theorem leds_follow (hcolons : ∀ n, global ("::" ++ n) = global n) (vars : ν → Option String)
    {as : List (LedAction ν)}
    (h : Run (LedProcess.step global) (LedProcess.Fair global) { vars } as s)
    (ho : s.lamps.living k = some o) (htracks : o.state.options.variableName ≠ "")
    (hasked : s.asked o.name = []) :
    (¬ s.Blocked global k o.state → ∀ value b,
      s.vars (global o.state.options.variableName) = some value → truth value = some b →
        o.state.lit = b ∧ (o.state.recolored = false → o.state.fill = o.state.options.color b)) ∧
    (s.Blocked global k o.state → ∀ bs t, Run (LedProcess.step global)
      (fun u a => u.Fair global a ∧ LeavesAlone o.name a) s bs t →
        t.lamps.living k = some o ∧ t.Blocked global k o.state) := by
  have inv : LedInv global s := h.invariant (LedInv global) (ledInv_initial global vars)
    fun _ _ _ inv hfair hstep => ledInv_step inv hcolons hfair hstep
  refine ⟨?_, ?_⟩
  · intro hblocked value b hvalue htruth
    rcases inv.shown k o ho htracks with h | h | hshows
    · exact absurd hasked h
    · exact absurd h hblocked
    · have hlit := hshows value b hvalue htruth
      refine ⟨hlit, ?_⟩
      intro hcolor
      rw [← hlit]
      exact inv.colored.living ho hcolor
  · intro hblocked bs t hrun
    have hboth := hrun.invariant (fun u => LedInv global u ∧ Stuck global u k o)
      ⟨inv, ho, htracks, hasked, hblocked⟩ fun u a u' hu hok hstep =>
        ⟨ledInv_step hu.1 hcolons hok.1 hstep, stuck_step hu.1 hu.2 hok.1 hok.2 hstep⟩
    exact ⟨hboth.2.living, hboth.2.blocked⟩

/-- Tcl's global names: any number of colons may stand before them. -/
def exampleGlobal (name : String) : List Char := name.toList.dropWhile (· = ':')

theorem exampleGlobal_colons (n : String) : exampleGlobal ("::" ++ n) = exampleGlobal n := by
  simp [exampleGlobal]

/-- Two lamps track one channel, the newer one is destroyed, and the channel
is written. -/
def newerDestroyed : List (LedAction (List Char)) :=
  [.create "a" {}, .configureVariable "a" "::controlwidget::c", .create "b" {},
    .configureVariable "b" "::controlwidget::c", .after, .after,
    .write (exampleGlobal "controlwidget::c") "::controlwidget::c" "1" (fun _ => false),
    .destroy "b",
    .write (exampleGlobal "controlwidget::c") "::controlwidget::c" "0" (fun _ => false)]

theorem newerDestroyed_run : ∃ s o,
    Run (LedProcess.step exampleGlobal) (LedProcess.Fair exampleGlobal)
      { vars := fun _ => some "" } newerDestroyed s ∧
    s.lamps.living 0 = some o ∧ o.state.options.variableName ≠ "" ∧ s.asked o.name = [] ∧
    (o.name = "a" ∧ o.state.fill = "green" ∧
      s.vars (exampleGlobal "controlwidget::c") = some "0") ∧
    s.Blocked exampleGlobal 0 o.state := by
  refine ⟨_, _, .of_runAll rfl ?_, rfl, ?_, rfl, ⟨rfl, rfl, ?_⟩, 1, rfl, ?_⟩
  · simp [newerDestroyed, LedProcess.Fair, exampleGlobal]
  · decide
  · rfl
  · exact ⟨[.led 1], [], rfl, by simp⟩

/-- The older lamp is green for ever, as long as nobody configures it. -/
theorem older_led_stops : ∃ s : LedProcess (List Char),
    s.vars (exampleGlobal "controlwidget::c") = some "0" ∧
    ∀ bs t, Run (LedProcess.step exampleGlobal)
      (fun u a => u.Fair exampleGlobal a ∧ LeavesAlone "a" a) s bs t →
        (t.lamps.living 0).map (·.state.fill) = some "green" := by
  obtain ⟨s, o, hrun, ho, htracks, hasked, ⟨hname, hfill, hvalue⟩, hblocked⟩ := newerDestroyed_run
  refine ⟨s, hvalue, ?_⟩
  intro bs t hrest
  rw [← hname] at hrest
  have hfollows := leds_follow exampleGlobal_colons _ hrun ho htracks hasked
  rw [(hfollows.2 hblocked bs t hrest).1, Option.map_some, hfill]

end Runs

end EpicsTcl.Widget
