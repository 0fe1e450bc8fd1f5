/-
EpicsTcl.Widget.LoaderTheorems — a loader puts one value into its widget, and
asks until it has one.

`LoaderInv` says where the calls of an instance are: one of `epicsTypeNGo` or
`epicsEnumeratedControl` has exactly one until it has its value; an
`epicsSpinbox` has at least one, and may have those of a spinbox that had its
path name before, which find nothing left to do. A loader, once called, does
one of three things (`LoadEffect`), and there is a lemma for each.
-/
import EpicsTcl.Library.Runs
import EpicsTcl.Widget.Loaders

namespace EpicsTcl.Widget

open EpicsTcl.Library

/-- The value that a loader has got. -/
def Loader.LoadsOnce (l : Loader) : Prop :=
  l.loads = [] ∨ ∃ value, value ≠ "" ∧ l.loads = [value]

/-- What holds of a loader by itself. -/
structure Loader.Good (l : Loader) : Prop where
  once : l.LoadsOnce
  read : l.kind = .epicsSpinbox → (l.read = true ↔ l.loads ≠ [])

/-- A call that fails is one that a destroyed widget has left behind. -/
def LeftBehind (os : Objects Loader) (t : Target) : Prop :=
  ∃ k o, os.made k = some o ∧ o.alive = false ∧ o.state.kind ≠ .epicsTypeNGo ∧
    (t = .self k ∨ o.state.kind = .epicsSpinbox ∧ t = .path o.name)

namespace LoaderProcess

variable {s : LoaderProcess} {k id : Nat} {o : Object Loader} {t : Target}

/-- A call that is going to ask for this instance. -/
def Awaits (s : LoaderProcess) (k : Nat) (o : Object Loader) (id : Nat) : Prop :=
  s.after id = some (.self k) ∨
    o.state.kind = .epicsSpinbox ∧ s.after id = some (.path o.name)

theorem reached_iff : s.reached t = some (k, o) ↔ s.widgets.living k = some o ∧
    (t = .self k ∨ o.state.kind = .epicsSpinbox ∧ t = .path o.name) := by
  cases t with
  | self j =>
    simp only [reached, Option.map_eq_some_iff, Prod.mk.injEq]
    refine ⟨?_, ?_⟩
    · intro ⟨o', ho, hj, ho'⟩
      rw [← hj, ← ho']
      exact ⟨ho, .inl rfl⟩
    · intro ⟨ho, h⟩
      rcases h with h | ⟨-, h⟩
      · cases h
        exact ⟨o, ho, rfl, rfl⟩
      · cases h
  | path name =>
    simp only [reached, Option.filter_eq_some_iff, Objects.find_iff, decide_eq_true_eq]
    refine ⟨?_, ?_⟩
    · intro ⟨⟨ho, hname⟩, hkind⟩
      exact ⟨ho, .inr ⟨hkind, by rw [hname]⟩⟩
    · intro ⟨ho, h⟩
      rcases h with h | ⟨hkind, h⟩
      · cases h
      · cases h
        exact ⟨⟨ho, rfl⟩, hkind⟩

theorem cancel_after {i : Nat} {u : Target} :
    (s.cancel id).after i = some u ↔ i ≠ id ∧ s.after i = some u := by
  unfold cancel
  by_cases hi : i = id <;> simp [hi]

theorem schedule_after {i : Nat} {u : Target} (hfree : s.after s.nextId = none) :
    (s.schedule t).after i = some u ↔ i = s.nextId ∧ u = t ∨ s.after i = some u := by
  unfold schedule
  by_cases hi : i = s.nextId
  · simp [hi, hfree, eq_comm]
  · simp [hi]

end LoaderProcess

open LoaderProcess

/-- The invariant. -/
structure LoaderInv (s : LoaderProcess) : Prop where
  good : Objects.All Loader.Good s.widgets
  behind : ∀ {t}, t ∈ s.errors → LeftBehind s.widgets t
  bound : ∀ {id t}, s.after id = some t → id < s.nextId
  single : ∀ {k id id'}, s.after id = some (.self k) → s.after id' = some (.self k) → id = id'
  target : ∀ {id k}, s.after id = some (.self k) → ∃ o, s.widgets.made k = some o ∧
    (o.state.kind ≠ .epicsSpinbox → o.state.loads = []) ∧
    (o.state.kind = .epicsTypeNGo → o.alive = true ∧ o.state.timerId = some id)
  byPath : ∀ {id name}, s.after id = some (.path name) →
    ∃ k o, s.widgets.made k = some o ∧ o.state.kind = .epicsSpinbox ∧ o.name = name
  timer : ∀ {k o id}, s.widgets.living k = some o → o.state.timerId = some id →
    o.state.kind = .epicsTypeNGo ∧ s.after id = some (.self k)
  asking : ∀ {k o}, s.widgets.living k = some o → o.state.asks = true → o.state.loads = [] →
    ∃ id, s.Awaits k o id

theorem loaderInv_initial : LoaderInv {} where
  good := Objects.all_empty
  behind := by intro t h; cases h
  bound := by intro id t h; cases h
  single := by intro k id id' h; cases h
  target := by intro id k h; cases h
  byPath := by intro id name h; cases h
  timer := by intro k o id h; cases h
  asking := by intro k o h; cases h

/-! ## What a loader does -/

/-- The call that a loader leaves when it has got nothing. -/
def again (k : Nat) (o : Object Loader) : Target :=
  match o.state.kind with
  | .epicsSpinbox => .path o.name
  | _ => .self k

/-- What becomes of `timerId` if the next call has this identifier. -/
def Loader.nextTimer (id : Option Nat) (l : Loader) : Option Nat :=
  if l.kind = .epicsTypeNGo then id else l.timerId

/-- What a loader does. -/
inductive LoadEffect (s : LoaderProcess) (k : Nat) (o : Object Loader) :
    Option String → LoaderProcess → Prop where
  | waits {shown : String} {reading : Option String}
      (hshown : shown = o.state.shown ∨
        o.state.kind = .epicsSpinbox ∧ reading = some "" ∧ shown = "")
      (hreading : ∀ value ≠ "", reading ≠ some value)
      (hread : o.state.kind = .epicsSpinbox → o.state.read = false) :
      LoadEffect s k o reading ((s.put k { o.state with
        shown, timerId := o.state.nextTimer (some s.nextId) }).schedule (again k o))
  | loads {value : String} (hvalue : value ≠ "") (read : Bool)
      (hread : o.state.kind = .epicsSpinbox → o.state.read = false ∧ read = true) :
      LoadEffect s k o (some value)
        (s.put k { o.state.load value with timerId := o.state.nextTimer none, read })
  | rests {reading : Option String} (hkind : o.state.kind = .epicsSpinbox)
      (hread : o.state.read = true) : LoadEffect s k o reading s

/-- A reading is a value, or it is not. -/
theorem reading_cases (reading : Option String) :
    (reading = none ∨ reading = some "") ∨ ∃ value, value ≠ "" ∧ reading = some value := by
  cases reading with
  | none => exact .inl (.inl rfl)
  | some value =>
    by_cases h : value = ""
    · exact .inl (.inr (congrArg some h))
    · exact .inr ⟨value, h, rfl⟩

theorem not_some_of_empty {reading : Option String} (h : reading = none ∨ reading = some "") :
    ∀ value ≠ "", reading ≠ some value := by
  intro value hvalue heq
  rcases h with h | h
  · rw [h] at heq
    cases heq
  · rw [h] at heq
    exact hvalue (Option.some.inj heq).symm

section Effect

variable {s : LoaderProcess} {k : Nat} {o : Object Loader} {reading : Option String}

/-- A loader that has got nothing leaves its widget as it is, but for `timerId`. -/
theorem effect_again (ho : s.widgets.made k = some o) (hkind : o.state.kind ≠ .epicsTypeNGo)
    (hreading : ∀ value ≠ "", reading ≠ some value)
    (hread : o.state.kind = .epicsSpinbox → o.state.read = false) :
    LoadEffect s k o reading (s.schedule (again k o)) := by
  have hsame : { o.state with
      shown := o.state.shown, timerId := o.state.nextTimer (some s.nextId) } = o.state := by
    rw [Loader.nextTimer, if_neg hkind]
  have hput : s.put k o.state = s := by
    unfold put
    rw [Objects.put_eq_self ho]
  have heffect := LoadEffect.waits (s := s) (k := k) (.inl rfl) hreading hread
  rwa [hsame, hput] at heffect

theorem load_effect (ho : s.widgets.made k = some o) (reading : Option String) :
    LoadEffect s k o reading (s.load k o reading) := by
  unfold load
  cases hkind : o.state.kind with
  | epicsTypeNGo =>
    rcases reading_cases reading with h | ⟨value, hvalue, rfl⟩
    · have heffect := LoadEffect.waits (s := s) (k := k) (o := o) (.inl rfl) (not_some_of_empty h)
        (by simp [hkind])
      rcases h with rfl | rfl <;>
        simpa [loadEntry, again, Loader.nextTimer, hkind] using heffect
    · have heffect := LoadEffect.loads (s := s) (k := k) (o := o) hvalue o.state.read
        (by simp [hkind])
      simpa [loadEntry, hvalue, Loader.nextTimer, Loader.load, hkind] using heffect
  | epicsEnumeratedControl =>
    rcases reading_cases reading with h | ⟨value, hvalue, rfl⟩
    · have heffect := effect_again ho (by simp [hkind]) (not_some_of_empty h) (by simp [hkind])
      rcases h with rfl | rfl <;> simpa [updateRadio, again, hkind] using heffect
    · have heffect := LoadEffect.loads (s := s) (k := k) (o := o) hvalue o.state.read
        (by simp [hkind])
      simpa [updateRadio, hvalue, Loader.nextTimer, Loader.load, hkind] using heffect
  | epicsSpinbox =>
    by_cases hread : o.state.read = true
    · have heffect : LoadEffect s k o reading s := .rests hkind hread
      simpa [getValue, hread] using heffect
    · have hread : o.state.read = false := by simpa using hread
      rcases reading_cases reading with h | ⟨value, hvalue, rfl⟩
      · rcases h with rfl | rfl
        · have heffect := effect_again ho (by simp [hkind]) (not_some_of_empty (.inl rfl))
            (fun _ => hread)
          simpa [getValue, hread, again, hkind] using heffect
        · have heffect := LoadEffect.waits (s := s) (k := k) (o := o) (.inr ⟨hkind, rfl, rfl⟩)
            (not_some_of_empty (.inr rfl)) (fun _ => hread)
          simpa [getValue, hread, again, Loader.nextTimer, hkind] using heffect
      · have heffect := LoadEffect.loads (s := s) (k := k) (o := o) hvalue true
          (fun _ => ⟨hread, rfl⟩)
        simpa [getValue, hread, hvalue, Loader.nextTimer, Loader.load, hkind] using heffect

end Effect

/-! ## Calls that are left behind -/

section LeftBehind

variable {os : Objects Loader} {t : Target} {k : Nat} {o : Object Loader}

/-- What is left behind stays so when a living widget changes. -/
theorem LeftBehind.put (h : LeftBehind os t) (ho : os.living k = some o) (l : Loader) :
    LeftBehind (os.put k l) t := by
  obtain ⟨j, m, hm, hdead, hrest⟩ := h
  obtain ⟨hmade, halive⟩ := Objects.living_iff.mp ho
  refine ⟨j, m, ?_, hdead, hrest⟩
  rw [Objects.made_put_of_ne, hm]
  intro hj
  rw [hj, hmade] at hm
  cases hm
  rw [halive] at hdead
  cases hdead

theorem LeftBehind.create (h : LeftBehind os t) {name : String} (hfree : os.names name = none)
    (l : Loader) : LeftBehind (os.create name l hfree) t := by
  obtain ⟨j, m, hm, hrest⟩ := h
  exact ⟨j, m, Objects.made_create_old hfree hm, hrest⟩

theorem LeftBehind.destroy (h : LeftBehind os t) (ho : os.living k = some o) :
    LeftBehind (os.destroy k) t := by
  obtain ⟨j, m, hm, hdead, hrest⟩ := h
  obtain ⟨hmade, halive⟩ := Objects.living_iff.mp ho
  refine ⟨j, m, ?_, hdead, hrest⟩
  rw [Objects.made_destroy_of_ne, hm]
  intro hj
  rw [hj, hmade] at hm
  cases hm
  rw [halive] at hdead
  cases hdead

end LeftBehind

/-! ## Calls that wait -/

section Waiting

variable {s : LoaderProcess} {k id : Nat} {o : Object Loader} {t : Target}

theorem LoaderInv.free (inv : LoaderInv s) : s.after s.nextId = none := by
  cases h : s.after s.nextId with
  | none => rfl
  | some u => exact absurd (inv.bound h) (Nat.lt_irrefl _)

/-- A call that waits for a widget reaches it. -/
theorem LoaderProcess.Awaits.reached (hawaits : s.Awaits k o id)
    (ho : s.widgets.living k = some o) :
    ∃ t, s.after id = some t ∧ s.reached t = some (k, o) := by
  rcases hawaits with h | ⟨hkind, h⟩
  · exact ⟨_, h, reached_iff.mpr ⟨ho, .inl rfl⟩⟩
  · exact ⟨_, h, reached_iff.mpr ⟨ho, .inr ⟨hkind, rfl⟩⟩⟩

/-- A call for another widget goes on waiting. -/
theorem LoaderProcess.Awaits.ne (hcall : s.after id = some t) (hreached : s.reached t = some (k, o))
    {i j : Nat} {m : Object Loader} (hawaits : s.Awaits j m i)
    (hm : s.widgets.living j = some m) (hj : j ≠ k) : i ≠ id := by
  intro hi
  obtain ⟨u, hu, hr⟩ := hawaits.reached hm
  rw [hi, hcall] at hu
  cases hu
  rw [hreached] at hr
  cases hr
  exact hj rfl

/-- Only a spinbox can have two calls. -/
theorem LoaderInv.second_call (inv : LoaderInv s) (hcall : s.after id = some t)
    (hreached : s.reached t = some (k, o)) {i : Nat} (hi : i ≠ id)
    (hsecond : s.after i = some (.self k)) : o.state.kind = .epicsSpinbox := by
  rcases (reached_iff.mp hreached).2 with ht | ⟨hkind, -⟩
  · rw [ht] at hcall
    exact absurd (inv.single hsecond hcall) hi
  · exact hkind

theorem again_self {j : Nat} (h : again k o = .self j) :
    j = k ∧ o.state.kind ≠ .epicsSpinbox := by
  unfold again at h
  cases hkind : o.state.kind <;> simp_all

theorem again_path {name : String} (h : again k o = .path name) :
    name = o.name ∧ o.state.kind = .epicsSpinbox := by
  unfold again at h
  cases hkind : o.state.kind <;> simp_all

/-- A widget whose loader has been called, and still has to ask. -/
theorem LoaderInv.unloaded (inv : LoaderInv s) (hcall : s.after id = some t)
    (hreached : s.reached t = some (k, o))
    (hread : o.state.kind = .epicsSpinbox → o.state.read = false) : o.state.loads = [] := by
  obtain ⟨ho, hshape⟩ := reached_iff.mp hreached
  by_cases hkind : o.state.kind = .epicsSpinbox
  · by_contra hloads
    have hloaded := ((inv.good.living ho).read hkind).mpr hloads
    rw [hread hkind] at hloaded
    cases hloaded
  · rcases hshape with ht | ⟨h, -⟩
    · rw [ht] at hcall
      obtain ⟨m, hm, hloads, -⟩ := inv.target hcall
      rw [(Objects.living_iff.mp ho).1] at hm
      cases hm
      exact hloads hkind
    · exact absurd h hkind

/-- The calls of the others, and of a spinbox the other calls, stay good when
a widget has changed. -/
theorem LoaderInv.old_target (inv : LoaderInv s) (hcall : s.after id = some t)
    (hreached : s.reached t = some (k, o)) {l : Loader} (hkind : l.kind = o.state.kind)
    {i j : Nat} (hi : i ≠ id) (hold : s.after i = some (.self j)) :
    ∃ m, (s.put k l).widgets.made j = some m ∧
      (m.state.kind ≠ .epicsSpinbox → m.state.loads = []) ∧
      (m.state.kind = .epicsTypeNGo → m.alive = true ∧ m.state.timerId = some i) := by
  by_cases hj : j = k
  · have hspinbox : l.kind = .epicsSpinbox := by
      rw [hkind]
      exact inv.second_call hcall hreached hi (by rw [← hj]; exact hold)
    rw [hj]
    have hmade := (Objects.living_iff.mp (reached_iff.mp hreached).1).1
    refine ⟨_, Objects.made_put_self hmade, ?_, ?_⟩
    · intro h
      exact absurd hspinbox h
    · intro h
      rw [show l.kind = .epicsTypeNGo from h] at hspinbox
      cases hspinbox
  · obtain ⟨m, hm, hrest⟩ := inv.target hold
    exact ⟨m, (Objects.made_put_of_ne hj).trans hm, hrest⟩

theorem LoaderInv.old_path (inv : LoaderInv s) (ho : s.widgets.living k = some o) {l : Loader}
    (hkind : l.kind = o.state.kind) {i : Nat} {name : String}
    (hold : s.after i = some (.path name)) :
    ∃ j m, (s.put k l).widgets.made j = some m ∧ m.state.kind = .epicsSpinbox ∧ m.name = name := by
  obtain ⟨j, m, hm, hspinbox, hname⟩ := inv.byPath hold
  by_cases hj : j = k
  · rw [hj] at hm
    refine ⟨k, _, Objects.made_put_self hm, ?_, hname⟩
    rw [(Objects.living_iff.mp ho).1] at hm
    rw [← Option.some.inj hm] at hspinbox
    exact hkind.trans hspinbox
  · exact ⟨j, m, (Objects.made_put_of_ne hj).trans hm, hspinbox, hname⟩

end Waiting

/-! ## One call -/

section Fire

variable {s : LoaderProcess} {k id : Nat} {o : Object Loader} {t : Target}

theorem Loader.nextTimer_eq {l : Loader} {i : Nat} {next : Option Nat}
    (h : l.nextTimer next = some i) :
    l.kind = .epicsTypeNGo ∧ next = some i ∨ l.kind ≠ .epicsTypeNGo ∧ l.timerId = some i := by
  unfold Loader.nextTimer at h
  by_cases hkind : l.kind = .epicsTypeNGo
  · rw [if_pos hkind] at h
    exact .inl ⟨hkind, h⟩
  · rw [if_neg hkind] at h
    exact .inr ⟨hkind, h⟩

theorem loaderInv_waits (inv : LoaderInv s) (hcall : s.after id = some t)
    (hreached : s.reached t = some (k, o)) (shown : String)
    (hread : o.state.kind = .epicsSpinbox → o.state.read = false) :
    LoaderInv (((s.cancel id).put k { o.state with
      shown, timerId := o.state.nextTimer (some s.nextId) }).schedule (again k o)) := by
  have ho := (reached_iff.mp hreached).1
  obtain ⟨hmade, halive⟩ := Objects.living_iff.mp ho
  have hloads := inv.unloaded hcall hreached hread
  let l : Loader := { o.state with shown, timerId := o.state.nextTimer (some s.nextId) }
  have hcases : ∀ {i : Nat} {u : Target},
      (((s.cancel id).put k l).schedule (again k o)).after i = some u ↔
        i = s.nextId ∧ u = again k o ∨ i ≠ id ∧ s.after i = some u := by
    intro i u
    refine (schedule_after ?_).trans (or_congr Iff.rfl cancel_after)
    cases h : ((s.cancel id).put k l).after ((s.cancel id).put k l).nextId with
    | none => rfl
    | some v =>
      have h : s.after s.nextId = some v := (cancel_after.mp h).2
      rw [inv.free] at h
      cases h
  exact {
    good := inv.good.put ⟨.inl hloads, (inv.good.living ho).read⟩
    behind := by
      intro u hu
      exact (inv.behind hu).put ho _
    bound := by
      intro i u hu
      rcases hcases.mp hu with ⟨hi, -⟩ | ⟨-, h⟩
      · rw [hi]
        exact Nat.lt_succ_self _
      · exact Nat.lt_succ_of_lt (inv.bound h)
    single := by
      intro j i i' h h'
      rcases hcases.mp h with ⟨hi, hu⟩ | ⟨hi, hold⟩
      · obtain ⟨hj, hkind⟩ := again_self hu.symm
        rcases hcases.mp h' with ⟨hi', -⟩ | ⟨hi', hold'⟩
        · rw [hi, hi']
        · exact absurd (inv.second_call hcall hreached hi' (by rw [← hj]; exact hold')) hkind
      · rcases hcases.mp h' with ⟨-, hu⟩ | ⟨-, hold'⟩
        · obtain ⟨hj, hkind⟩ := again_self hu.symm
          exact absurd (inv.second_call hcall hreached hi (by rw [← hj]; exact hold)) hkind
        · exact inv.single hold hold'
    target := by
      intro i j hu
      rcases hcases.mp hu with ⟨hi, hu⟩ | ⟨hi, hold⟩
      · obtain ⟨hj, -⟩ := again_self hu.symm
        rw [hj]
        refine ⟨_, Objects.made_put_self hmade, fun _ => hloads, ?_⟩
        intro hkind
        refine ⟨halive, ?_⟩
        show l.timerId = some i
        simp only [l, Loader.nextTimer, hi]
        exact if_pos hkind
      · exact inv.old_target hcall hreached (l := l) rfl hi hold
    byPath := by
      intro i name hu
      rcases hcases.mp hu with ⟨-, hu⟩ | ⟨-, hold⟩
      · obtain ⟨hname, hkind⟩ := again_path hu.symm
        exact ⟨k, _, Objects.made_put_self hmade, hkind, hname.symm⟩
      · exact inv.old_path ho (l := l) rfl hold
    timer := by
      intro j m i hm htimer
      rcases Objects.living_put ho hm with ⟨hj, hm⟩ | ⟨hj, hm⟩
      · rw [hm] at htimer ⊢
        rcases Loader.nextTimer_eq htimer with ⟨hkind, hi⟩ | ⟨hkind, hi⟩
        · refine ⟨hkind, hcases.mpr (.inl ⟨(Option.some.inj hi).symm, ?_⟩)⟩
          rw [hj, again, hkind]
        · exact absurd (inv.timer ho hi).1 hkind
      · obtain ⟨hkind, hold⟩ := inv.timer hm htimer
        have hi := Awaits.ne hcall hreached (.inl hold) hm hj
        exact ⟨hkind, hcases.mpr (.inr ⟨hi, hold⟩)⟩
    asking := by
      intro j m hm hasks hnone
      rcases Objects.living_put ho hm with ⟨hj, hm⟩ | ⟨hj, hm⟩
      · refine ⟨s.nextId, ?_⟩
        rw [hm, hj]
        by_cases hkind : o.state.kind = .epicsSpinbox
        · exact .inr ⟨hkind, hcases.mpr (.inl ⟨rfl, by rw [again, hkind]⟩)⟩
        · refine .inl (hcases.mpr (.inl ⟨rfl, ?_⟩))
          unfold again
          cases h : o.state.kind <;> simp_all
      · obtain ⟨i, hawaits⟩ := inv.asking hm hasks hnone
        have hi := Awaits.ne hcall hreached hawaits hm hj
        refine ⟨i, ?_⟩
        rcases hawaits with h | ⟨hkind, h⟩
        · exact .inl (hcases.mpr (.inr ⟨hi, h⟩))
        · exact .inr ⟨hkind, hcases.mpr (.inr ⟨hi, h⟩)⟩ }

theorem loaderInv_loads (inv : LoaderInv s) (hcall : s.after id = some t)
    (hreached : s.reached t = some (k, o)) {value : String} (hvalue : value ≠ "") (read : Bool)
    (hread : o.state.kind = .epicsSpinbox → o.state.read = false ∧ read = true) :
    LoaderInv ((s.cancel id).put k
      { o.state.load value with timerId := o.state.nextTimer none, read }) := by
  have ho := (reached_iff.mp hreached).1
  have hloads := inv.unloaded hcall hreached fun hkind => (hread hkind).1
  let l : Loader := { o.state.load value with timerId := o.state.nextTimer none, read }
  have hloaded : l.loads = [value] := by
    simp only [l, Loader.load, hloads, List.nil_append]
  exact {
    good := by
      refine inv.good.put ⟨.inr ⟨value, hvalue, hloaded⟩, ?_⟩
      intro hkind
      rw [hloaded, show l.read = read from rfl, (hread hkind).2]
      simp
    behind := by
      intro u hu
      exact (inv.behind hu).put ho _
    bound := by
      intro i u hu
      exact inv.bound (cancel_after.mp hu).2
    single := by
      intro j i i' h h'
      exact inv.single (cancel_after.mp h).2 (cancel_after.mp h').2
    target := by
      intro i j hu
      obtain ⟨hi, hold⟩ := cancel_after.mp hu
      exact inv.old_target hcall hreached (l := l) rfl hi hold
    byPath := by
      intro i name hu
      exact inv.old_path ho (l := l) rfl (cancel_after.mp hu).2
    timer := by
      intro j m i hm htimer
      rcases Objects.living_put ho hm with ⟨hj, hm⟩ | ⟨hj, hm⟩
      · rw [hm] at htimer
        rcases Loader.nextTimer_eq htimer with ⟨-, hi⟩ | ⟨hkind, hi⟩
        · cases hi
        · exact absurd (inv.timer ho hi).1 hkind
      · obtain ⟨hkind, hold⟩ := inv.timer hm htimer
        have hi := Awaits.ne hcall hreached (.inl hold) hm hj
        exact ⟨hkind, cancel_after.mpr ⟨hi, hold⟩⟩
    asking := by
      intro j m hm hasks hnone
      rcases Objects.living_put ho hm with ⟨-, hm⟩ | ⟨hj, hm⟩
      · rw [hm, hloaded] at hnone
        cases hnone
      · obtain ⟨i, hawaits⟩ := inv.asking hm hasks hnone
        have hi := Awaits.ne hcall hreached hawaits hm hj
        refine ⟨i, ?_⟩
        rcases hawaits with h | ⟨hkind, h⟩
        · exact .inl (cancel_after.mpr ⟨hi, h⟩)
        · exact .inr ⟨hkind, cancel_after.mpr ⟨hi, h⟩⟩ }

/-- A call that has nothing to do any more is over. -/
theorem loaderInv_cancel (inv : LoaderInv s)
    (hidle : ∀ {j m}, s.widgets.living j = some m → m.state.asks = true → m.state.loads = [] →
      ¬ s.Awaits j m id)
    (htimer : ∀ {j m}, s.widgets.living j = some m → m.state.timerId ≠ some id) :
    LoaderInv (s.cancel id) where
  good := inv.good
  behind := inv.behind
  bound := by
    intro i u hu
    exact inv.bound (cancel_after.mp hu).2
  single := by
    intro j i i' h h'
    exact inv.single (cancel_after.mp h).2 (cancel_after.mp h').2
  target := by
    intro i j hu
    exact inv.target (cancel_after.mp hu).2
  byPath := by
    intro i name hu
    exact inv.byPath (cancel_after.mp hu).2
  timer := by
    intro j m i hm hmtimer
    obtain ⟨hkind, hold⟩ := inv.timer hm hmtimer
    refine ⟨hkind, cancel_after.mpr ⟨?_, hold⟩⟩
    intro hi
    exact htimer hm (by rw [hmtimer, hi])
  asking := by
    intro j m hm hasks hnone
    obtain ⟨i, hawaits⟩ := inv.asking hm hasks hnone
    have hi : i ≠ id := by
      intro hi
      rw [hi] at hawaits
      exact hidle hm hasks hnone hawaits
    refine ⟨i, ?_⟩
    rcases hawaits with h | ⟨hkind, h⟩
    · exact .inl (cancel_after.mpr ⟨hi, h⟩)
    · exact .inr ⟨hkind, cancel_after.mpr ⟨hi, h⟩⟩

theorem loaderInv_reached (inv : LoaderInv s) (hcall : s.after id = some t)
    (hreached : s.reached t = some (k, o)) (reading : Option String) :
    LoaderInv ((s.cancel id).load k o reading) := by
  have ho := (reached_iff.mp hreached).1
  have heffect := load_effect (s := s.cancel id) (Objects.living_iff.mp ho).1 reading
  generalize (s.cancel id).load k o reading = s' at heffect
  cases heffect with
  | waits _ hreading hread => exact loaderInv_waits inv hcall hreached _ hread
  | loads hvalue read hread => exact loaderInv_loads inv hcall hreached hvalue read hread
  | rests hkind hread =>
    refine loaderInv_cancel inv ?_ ?_
    · intro j m hm _ hnone hawaits
      by_cases hj : j = k
      · rw [hj, ho] at hm
        cases hm
        exact ((inv.good.living ho).read hkind).mp hread hnone
      · exact Awaits.ne hcall hreached hawaits hm hj rfl
    · intro j m hm htimer
      obtain ⟨htypeNGo, hold⟩ := inv.timer hm htimer
      by_cases hj : j = k
      · rw [hj, ho] at hm
        cases hm
        rw [hkind] at htypeNGo
        cases htypeNGo
      · exact Awaits.ne hcall hreached (.inl hold) hm hj rfl

/-- A call that reaches nothing has been left behind. -/
theorem LoaderInv.leftBehind (inv : LoaderInv s) (hcall : s.after id = some t)
    (hreached : s.reached t = none) : LeftBehind s.widgets t := by
  have hdead : ∀ {j : Nat} {m : Object Loader}, s.widgets.made j = some m → s.Awaits j m id →
      m.alive = false := by
    intro j m hm hawaits
    by_contra halive
    obtain ⟨u, hu, hr⟩ := hawaits.reached (Objects.living_iff.mpr ⟨hm, by simpa using halive⟩)
    rw [hcall] at hu
    cases hu
    rw [hreached] at hr
    cases hr
  cases t with
  | self j =>
    obtain ⟨m, hm, -, htypeNGo⟩ := inv.target hcall
    have hm' := hdead hm (.inl hcall)
    refine ⟨j, m, hm, hm', ?_, .inl rfl⟩
    intro hkind
    rw [(htypeNGo hkind).1] at hm'
    cases hm'
  | path name =>
    obtain ⟨j, m, hm, hkind, hname⟩ := inv.byPath hcall
    have hm' := hdead hm (.inr ⟨hkind, by rw [hname]; exact hcall⟩)
    refine ⟨j, m, hm, hm', ?_, .inr ⟨hkind, by rw [hname]⟩⟩
    rw [hkind]
    exact LoaderKind.noConfusion

theorem loaderInv_failed (inv : LoaderInv s) (hcall : s.after id = some t)
    (hreached : s.reached t = none) :
    LoaderInv { s.cancel id with errors := s.errors ++ [t] } := by
  have hnone : ∀ {j : Nat} {m : Object Loader}, s.widgets.living j = some m →
      ¬ s.Awaits j m id := by
    intro j m hm hawaits
    obtain ⟨u, hu, hr⟩ := hawaits.reached hm
    rw [hcall] at hu
    cases hu
    rw [hreached] at hr
    cases hr
  have hcancel : LoaderInv (s.cancel id) := loaderInv_cancel inv
    (fun hm _ _ => hnone hm) (fun hm htimer => hnone hm (.inl (inv.timer hm htimer).2))
  refine ⟨hcancel.good, ?_, hcancel.bound, hcancel.single, hcancel.target, hcancel.byPath,
    hcancel.timer, hcancel.asking⟩
  intro u hu
  rcases List.mem_append.mp hu with hu | hu
  · exact inv.behind hu
  · rw [List.mem_singleton.mp hu]
    exact inv.leftBehind hcall hreached

end Fire

/-! ## Widgets that come, change and go -/

section Widgets

variable {s : LoaderProcess} {k : Nat} {o : Object Loader}

theorem loaderInv_edit (inv : LoaderInv s) (ho : s.widgets.living k = some o) (text : String) :
    LoaderInv (s.put k { o.state with shown := text }) := by
  obtain ⟨hmade, halive⟩ := Objects.living_iff.mp ho
  let l : Loader := { o.state with shown := text }
  have hgood := inv.good.living ho
  exact {
    good := inv.good.put ⟨hgood.once, hgood.read⟩
    behind := by
      intro u hu
      exact (inv.behind hu).put ho _
    bound := inv.bound
    single := inv.single
    target := by
      intro i j hu
      obtain ⟨m, hm, hrest⟩ := inv.target hu
      by_cases hj : j = k
      · rw [hj, hmade] at hm
        cases hm
        rw [hj]
        exact ⟨_, Objects.made_put_self hmade, hrest⟩
      · exact ⟨m, (Objects.made_put_of_ne hj).trans hm, hrest⟩
    byPath := by
      intro i name hu
      exact inv.old_path ho (l := l) rfl hu
    timer := by
      intro j m i hm htimer
      rcases Objects.living_put ho hm with ⟨hj, hm⟩ | ⟨-, hm⟩
      · rw [hm] at htimer ⊢
        rw [hj]
        exact inv.timer (o := o) ho htimer
      · exact inv.timer hm htimer
    asking := by
      intro j m hm hasks hnone
      rcases Objects.living_put ho hm with ⟨hj, hm⟩ | ⟨-, hm⟩
      · rw [hm] at hasks hnone ⊢
        rw [hj]
        exact inv.asking (o := o) ho hasks hnone
      · exact inv.asking hm hasks hnone }

/-- Nothing waits for a widget that has yet to be made. -/
theorem LoaderInv.unmade_call (inv : LoaderInv s) {i : Nat} :
    s.after i ≠ some (.self s.widgets.serial) := by
  intro h
  obtain ⟨m, hm, -⟩ := inv.target h
  exact Objects.ne_serial hm rfl

section Create

variable {name : String} (hfree : s.widgets.names name = none) {l : Loader}

theorem LoaderInv.old_target_create (inv : LoaderInv s) {i j : Nat}
    (hold : s.after i = some (.self j)) :
    ∃ m, (s.widgets.create name l hfree).made j = some m ∧
      (m.state.kind ≠ .epicsSpinbox → m.state.loads = []) ∧
      (m.state.kind = .epicsTypeNGo → m.alive = true ∧ m.state.timerId = some i) := by
  obtain ⟨m, hm, hrest⟩ := inv.target hold
  exact ⟨m, Objects.made_create_old hfree hm, hrest⟩

theorem LoaderInv.old_path_create (inv : LoaderInv s) {i : Nat} {path : String}
    (hold : s.after i = some (.path path)) :
    ∃ j m, (s.widgets.create name l hfree).made j = some m ∧
      m.state.kind = .epicsSpinbox ∧ m.name = path := by
  obtain ⟨j, m, hm, hrest⟩ := inv.byPath hold
  exact ⟨j, m, Objects.made_create_old hfree hm, hrest⟩

end Create

theorem loaderInv_create (inv : LoaderInv s) (kind : LoaderKind) (name channel shown : String)
    (hfree : s.widgets.names name = none) :
    LoaderInv (s.create kind name channel shown hfree) := by
  have hgood : ∀ timerId, Loader.Good { kind, channel, timerId, shown } := by
    intro timerId
    exact ⟨.inl rfl, by simp⟩
  let timerId := if kind = .epicsTypeNGo then some s.nextId else none
  let l : Loader := { kind, channel, shown }
  let s₁ : LoaderProcess := { s with widgets := s.widgets.create name { l with timerId } hfree }
  show LoaderInv (if l.asks = true then s₁.schedule (.self s.widgets.serial)
    else { s with widgets := s.widgets.create name l hfree })
  split
  · have hcases : ∀ {i : Nat} {u : Target},
        (s₁.schedule (.self s.widgets.serial)).after i = some u ↔
        i = s.nextId ∧ u = .self s.widgets.serial ∨ s.after i = some u :=
      schedule_after (s := s₁) inv.free
    exact {
      good := inv.good.create hfree (hgood _)
      behind := fun hu => (inv.behind hu).create hfree _
      bound := by
        intro i u hu
        rcases hcases.mp hu with ⟨hi, -⟩ | h
        · rw [hi]
          exact Nat.lt_succ_self _
        · exact Nat.lt_succ_of_lt (inv.bound h)
      single := by
        intro j i i' h h'
        rcases hcases.mp h with ⟨hi, hu⟩ | hold
        · cases hu
          rcases hcases.mp h' with ⟨hi', -⟩ | hold'
          · rw [hi, hi']
          · exact absurd hold' inv.unmade_call
        · rcases hcases.mp h' with ⟨-, hu⟩ | hold'
          · cases hu
            exact absurd hold inv.unmade_call
          · exact inv.single hold hold'
      target := by
        intro i j hu
        rcases hcases.mp hu with ⟨hi, hu⟩ | hold
        · cases hu
          refine ⟨_, Objects.made_create_self hfree, fun _ => rfl, ?_⟩
          intro hkind
          exact ⟨rfl, by rw [hi]; exact if_pos hkind⟩
        · exact inv.old_target_create hfree hold
      byPath := by
        intro i path hu
        rcases hcases.mp hu with ⟨-, hu⟩ | hold
        · cases hu
        · exact inv.old_path_create hfree hold
      timer := by
        intro j m i hm htimer
        rcases Objects.living_create hfree hm with ⟨hj, hm⟩ | ⟨-, hm⟩
        · rw [hm] at htimer ⊢
          have htimer : timerId = some i := htimer
          by_cases hkind : kind = .epicsTypeNGo
          · rw [show timerId = some s.nextId from if_pos hkind] at htimer
            exact ⟨hkind, hcases.mpr (.inl ⟨(Option.some.inj htimer).symm, by rw [hj]⟩)⟩
          · rw [show timerId = none from if_neg hkind] at htimer
            cases htimer
        · obtain ⟨hkind, hold⟩ := inv.timer hm htimer
          exact ⟨hkind, hcases.mpr (.inr hold)⟩
      asking := by
        intro j m hm hmasks hnone
        rcases Objects.living_create hfree hm with ⟨hj, -⟩ | ⟨-, hm⟩
        · exact ⟨s.nextId, .inl (hcases.mpr (.inl ⟨rfl, by rw [hj]⟩))⟩
        · obtain ⟨i, h | ⟨hkind, h⟩⟩ := inv.asking hm hmasks hnone
          · exact ⟨i, .inl (hcases.mpr (.inr h))⟩
          · exact ⟨i, .inr ⟨hkind, hcases.mpr (.inr h)⟩⟩ }
  · next hasks =>
    refine ⟨inv.good.create hfree (hgood _), fun hu => (inv.behind hu).create hfree _, inv.bound,
      inv.single, fun hold => inv.old_target_create hfree hold,
      fun hold => inv.old_path_create hfree hold, ?_, ?_⟩
    · intro j m i hm htimer
      rcases Objects.living_create hfree hm with ⟨-, hm⟩ | ⟨-, hm⟩
      · rw [hm] at htimer
        cases htimer
      · exact inv.timer hm htimer
    · intro j m hm hmasks hnone
      rcases Objects.living_create hfree hm with ⟨-, hm⟩ | ⟨-, hm⟩
      · rw [hm] at hmasks
        exact absurd hmasks hasks
      · exact inv.asking hm hmasks hnone

theorem destroy_eq (s : LoaderProcess) (k : Nat) (l : Loader) : ∃ after,
    s.destroy k l = { s with widgets := s.widgets.destroy k, after } ∧
    ∀ i u, after i = some u ↔ l.timerId ≠ some i ∧ s.after i = some u := by
  unfold LoaderProcess.destroy
  cases htimer : l.timerId with
  | none => exact ⟨s.after, rfl, by simp⟩
  | some id =>
    refine ⟨Function.update s.after id none, rfl, ?_⟩
    intro i u
    by_cases hi : i = id
    · simp [hi]
    · simp [hi, Ne.symm hi]

theorem loaderInv_destroy (inv : LoaderInv s) (ho : s.widgets.living k = some o) :
    LoaderInv (s.destroy k o.state) := by
  obtain ⟨hmade, -⟩ := Objects.living_iff.mp ho
  obtain ⟨after, heq, hafter⟩ := destroy_eq s k o.state
  rw [heq]
  -- no other widget has its call taken back
  have hkept : ∀ {j i : Nat} {m : Object Loader}, j ≠ k → s.widgets.living j = some m →
      s.Awaits j m i → o.state.timerId ≠ some i := by
    intro j i m hj hm hawaits htimer
    exact Awaits.ne (inv.timer ho htimer).2 (reached_iff.mpr ⟨ho, .inl rfl⟩) hawaits hm hj rfl
  exact {
    good := inv.good.destroy
    behind := fun hu => (inv.behind hu).destroy ho
    bound := by
      intro i u hu
      exact inv.bound ((hafter i u).mp hu).2
    single := by
      intro j i i' h h'
      exact inv.single ((hafter _ _).mp h).2 ((hafter _ _).mp h').2
    target := by
      intro i j hu
      obtain ⟨htimer, hold⟩ := (hafter _ _).mp hu
      obtain ⟨m, hm, hloads, htypeNGo⟩ := inv.target hold
      by_cases hj : j = k
      · rw [hj, hmade] at hm
        cases hm
        rw [hj]
        refine ⟨_, Objects.made_destroy_self hmade, hloads, ?_⟩
        intro hkind
        exact absurd (htypeNGo hkind).2 htimer
      · exact ⟨m, (Objects.made_destroy_of_ne hj).trans hm, hloads, htypeNGo⟩
    byPath := by
      intro i name hu
      obtain ⟨j, m, hm, hrest⟩ := inv.byPath ((hafter _ _).mp hu).2
      by_cases hj : j = k
      · rw [hj] at hm
        exact ⟨k, _, Objects.made_destroy_self hm, hrest⟩
      · exact ⟨j, m, (Objects.made_destroy_of_ne hj).trans hm, hrest⟩
    timer := by
      intro j m i hm htimer
      obtain ⟨hj, hm⟩ := Objects.living_destroy hm
      obtain ⟨hkind, hold⟩ := inv.timer hm htimer
      exact ⟨hkind, (hafter _ _).mpr ⟨hkept hj hm (.inl hold), hold⟩⟩
    asking := by
      intro j m hm hasks hnone
      obtain ⟨hj, hm⟩ := Objects.living_destroy hm
      obtain ⟨i, hawaits⟩ := inv.asking hm hasks hnone
      have hi := hkept hj hm hawaits
      refine ⟨i, ?_⟩
      rcases hawaits with h | ⟨hkind, h⟩
      · exact .inl ((hafter _ _).mpr ⟨hi, h⟩)
      · exact .inr ⟨hkind, (hafter _ _).mpr ⟨hi, h⟩⟩ }

end Widgets

/-! ## Runs -/

section Runs

variable {s s' : LoaderProcess} {k : Nat} {o : Object Loader}

theorem loaderInv_step (inv : LoaderInv s) {a : LoaderAction} (h : s.step a = some s') :
    LoaderInv s' := by
  cases a with
  | create kind name channel shown =>
    simp only [LoaderProcess.step] at h
    split at h
    · cases h
    · next hfree =>
      cases h
      exact loaderInv_create inv kind name channel shown hfree
  | destroy name =>
    obtain ⟨⟨k, o⟩, hfind, heq⟩ := Option.map_eq_some_iff.mp h
    rw [← heq]
    exact loaderInv_destroy inv (Objects.find_iff.mp hfind).1
  | edit name text =>
    obtain ⟨⟨k, o⟩, hfind, heq⟩ := Option.map_eq_some_iff.mp h
    rw [← heq]
    exact loaderInv_edit inv (Objects.find_iff.mp hfind).1 text
  | fire id reading =>
    obtain ⟨t, hcall, heq⟩ := Option.map_eq_some_iff.mp h
    rw [← heq]
    cases hreached : s.reached t with
    | none => exact loaderInv_failed inv hcall hreached
    | some p => exact loaderInv_reached inv hcall hreached reading

theorem loaderInv_run {as : List LoaderAction} (h : Run LoaderProcess.step Always {} as s) :
    LoaderInv s :=
  h.invariant LoaderInv loaderInv_initial fun _ _ _ inv _ hstep => loaderInv_step inv hstep

/-- The first value that a call finds is the one that it puts into the widget. -/
theorem fire_loads (inv : LoaderInv s) (ho : s.widgets.living k = some o)
    (hnone : o.state.loads = []) {id : Nat} (hawaits : s.Awaits k o id) {value : String}
    (hvalue : value ≠ "") :
    ∃ s' o', s.step (.fire id (some value)) = some s' ∧ s'.widgets.made k = some o' ∧
      o'.state.shown = value ∧ o'.state.loads = [value] := by
  obtain ⟨t, hcall, hreached⟩ := hawaits.reached ho
  have hmade := (Objects.living_iff.mp ho).1
  have hstep : s.step (.fire id (some value)) = some ((s.cancel id).load k o (some value)) := by
    simp only [LoaderProcess.step, hcall, Option.map_some, hreached]
  have heffect := load_effect (s := s.cancel id) hmade (some value)
  generalize (s.cancel id).load k o (some value) = s' at hstep heffect
  cases heffect with
  | waits _ hreading hread => exact absurd rfl (hreading value hvalue)
  | loads _ read hread =>
    exact ⟨_, _, hstep, Objects.made_put_self hmade, rfl, by
      simp only [Loader.load, hnone, List.nil_append]⟩
  | rests hkind hread => exact absurd hnone (((inv.good.living ho).read hkind).mp hread)

/-- A widget, and what it shows after a call to a loader. -/
def ShownAfter (l l' : Loader) (reading : Option String) : Prop :=
  l'.shown = l.shown ∧ l'.loads = l.loads ∨
    reading = some l'.shown ∧ l.loads = [] ∧
      (l'.loads = [l'.shown] ∨ l.kind = .epicsSpinbox ∧ l'.shown = "" ∧ l'.loads = [])

theorem fire_shown (inv : LoaderInv s) (hmade : s.widgets.made k = some o) {id : Nat}
    {reading : Option String} (h : s.step (.fire id reading) = some s') :
    ∃ o', s'.widgets.made k = some o' ∧ ShownAfter o.state o'.state reading := by
  have hsame : ShownAfter o.state o.state reading := .inl ⟨rfl, rfl⟩
  obtain ⟨t, hcall, heq⟩ := Option.map_eq_some_iff.mp h
  rw [← heq]
  cases hreached : s.reached t with
  | none => exact ⟨o, hmade, hsame⟩
  | some p =>
    obtain ⟨j, m⟩ := p
    have hm := (Objects.living_iff.mp (reached_iff.mp hreached).1).1
    have heffect := load_effect (s := s.cancel id) hm reading
    have hunloaded := fun hread => inv.unloaded hcall hreached hread
    show ∃ o', ((s.cancel id).load j m reading).widgets.made k = some o' ∧
      ShownAfter o.state o'.state reading
    generalize (s.cancel id).load j m reading = s'' at heffect
    by_cases hk : k = j
    · subst hk
      rw [hmade] at hm
      cases hm
      cases heffect with
      | waits hshown hreading hread =>
        refine ⟨_, Objects.made_put_self hmade, ?_⟩
        rcases hshown with rfl | ⟨hkind, hempty, rfl⟩
        · exact .inl ⟨rfl, rfl⟩
        · exact .inr ⟨hempty, hunloaded hread, .inr ⟨hkind, rfl, hunloaded hread⟩⟩
      | loads hvalue read hread =>
        have hnone := hunloaded fun hkind => (hread hkind).1
        refine ⟨_, Objects.made_put_self hmade, .inr ⟨rfl, hnone, .inl ?_⟩⟩
        simp only [Loader.load, hnone, List.nil_append]
      | rests => exact ⟨o, hmade, hsame⟩
    · cases heffect with
      | waits => exact ⟨o, (Objects.made_put_of_ne hk).trans hmade, hsame⟩
      | loads => exact ⟨o, (Objects.made_put_of_ne hk).trans hmade, hsame⟩
      | rests => exact ⟨o, hmade, hsame⟩

/-- A loader puts one value that is not empty into its widget: the first that
it gets, for which it goes on asking as long as the widget lives, and but for
a spinbox with no more than one call at a time. Nothing else that the loaders
do changes what a widget shows, except that a spinbox without a value shows
the empty one that its channel may have. Only a destroyed
`epicsEnumeratedControl` or `epicsSpinbox` causes a background error. -/
theorem loaders_load_once {as : List LoaderAction} (h : Run LoaderProcess.step Always {} as s) :
    (∀ k o, s.widgets.made k = some o →
      o.state.LoadsOnce ∧
      (o.alive = true → o.state.asks = true → o.state.loads = [] → ∃ id, s.Awaits k o id ∧
        ∀ value ≠ "", ∃ s' o', s.step (.fire id (some value)) = some s' ∧
          s'.widgets.made k = some o' ∧ o'.state.shown = value ∧ o'.state.loads = [value]) ∧
      (o.state.kind ≠ .epicsSpinbox → ∀ id, s.after id = some (.self k) →
        o.state.loads = [] ∧ ∀ id', s.after id' = some (.self k) → id' = id) ∧
      ∀ id reading s', s.step (.fire id reading) = some s' →
        ∃ o', s'.widgets.made k = some o' ∧ ShownAfter o.state o'.state reading) ∧
    ∀ t ∈ s.errors, LeftBehind s.widgets t := by
  have inv := loaderInv_run h
  refine ⟨?_, fun t ht => inv.behind ht⟩
  intro k o hmade
  refine ⟨(inv.good k o hmade).once, ?_, ?_, fun id reading s' hstep => fire_shown inv hmade hstep⟩
  · intro halive hasks hnone
    have ho := Objects.living_iff.mpr ⟨hmade, halive⟩
    obtain ⟨id, hawaits⟩ := inv.asking ho hasks hnone
    exact ⟨id, hawaits, fun value hvalue => fire_loads inv ho hnone hawaits hvalue⟩
  · intro hkind id hcall
    obtain ⟨m, hm, hloads, -⟩ := inv.target hcall
    rw [hmade] at hm
    cases hm
    exact ⟨hloads hkind, fun id' hcall' => inv.single hcall' hcall⟩

/-- A spinbox is destroyed while it asks, and another is made in its place,
which its call reaches; then the other's own call finds nothing to do. The
call that a matrix of radio buttons leaves behind fails. -/
def spinboxAgain : List LoaderAction :=
  [.create .epicsSpinbox ".s" "GAIN" "", .fire 0 none, .destroy ".s",
    .create .epicsSpinbox ".s" "GAIN" "", .fire 1 (some "5"), .fire 2 (some "6"),
    .create .epicsEnumeratedControl ".e" "MODE" "0", .destroy ".e", .fire 3 none]

theorem spinboxAgain_run : ∃ s, Run LoaderProcess.step Always {} spinboxAgain s ∧
    (s.widgets.made 1).map (fun o => (o.state.shown, o.state.loads)) = some ("5", ["5"]) ∧
    s.errors = [.self 2] :=
  ⟨_, run_iff_runAll.mpr rfl, rfl, rfl⟩

/-- Whatever the calls that come to the new spinbox find. -/
theorem spinbox_loads_once : ∃ s : LoaderProcess, s.errors = [.self 2] ∧
    (∀ id reading s', s.step (.fire id reading) = some s' →
      (s'.widgets.made 1).map (·.state.shown) = some "5") ∧ LeftBehind s.widgets (.self 2) := by
  obtain ⟨s, hrun, hloaded, herrors⟩ := spinboxAgain_run
  obtain ⟨o, hmade, ho⟩ := Option.map_eq_some_iff.mp hloaded
  obtain ⟨hfive, hloads⟩ := Prod.mk.inj ho
  have honce := loaders_load_once hrun
  refine ⟨s, herrors, ?_, honce.2 _ (by simp [herrors])⟩
  intro id reading s' hstep
  obtain ⟨o', ho', hshown⟩ := (honce.1 1 o hmade).2.2.2 id reading s' hstep
  rcases hshown with ⟨hshown, -⟩ | ⟨-, hnone, -⟩
  · rw [ho', Option.map_some, hshown, hfive]
  · rw [hloads] at hnone
    cases hnone

end Runs

end EpicsTcl.Widget
