/-
EpicsTcl.Library.Objects — objects that are made, found by a name, changed and
destroyed.

Each object gets a number that no other one had before; its record stays when
it is destroyed, and its name becomes free. That the names lead to the living
objects, and that numbers are not used before their time, are fields of
`Objects`: `create` asks for a proof that the name is free, and `put` and
`destroy` do nothing where there is nothing.

`living_put`, `living_create` and `living_destroy` say which objects live
after an operation, `…_dead` that no object comes back to life. `All` is what
holds of the states of all objects.
-/
import Mathlib.Data.Option.Basic
import Mathlib.Logic.Function.Basic

namespace EpicsTcl.Library

structure Object (ρ : Type*) where
  name : String
  alive : Bool := true
  state : ρ
  deriving DecidableEq, Repr

structure Objects (ρ : Type*) where
  made : Nat → Option (Object ρ)
  /-- The living objects by their names. -/
  names : String → Option Nat
  serial : Nat
  unmade : ∀ k, serial ≤ k → made k = none
  named : ∀ name k, names name = some k → ∃ o, made k = some o ∧ o.alive = true ∧ o.name = name
  name : ∀ k o, made k = some o → o.alive = true → names o.name = some k

namespace Objects

variable {ρ : Type*}

def empty : Objects ρ where
  made _ := none
  names _ := none
  serial := 0
  unmade _ _ := rfl
  named _ _ h := by cases h
  name _ _ h := by cases h

instance : Inhabited (Objects ρ) := ⟨empty⟩

/-- The object with this number, if it exists. -/
def living (os : Objects ρ) (k : Nat) : Option (Object ρ) := (os.made k).filter (·.alive)

/-- The object with this name. -/
def find (os : Objects ρ) (name : String) : Option (Nat × Object ρ) :=
  (os.names name).bind fun k => (os.living k).map fun o => (k, o)

section Lookup

variable {os : Objects ρ} {j k : Nat} {o o' : Object ρ} {name : String}

theorem living_iff : os.living k = some o ↔ os.made k = some o ∧ o.alive = true := by
  unfold living
  rw [Option.filter_eq_some_iff]

theorem lt_serial (h : os.made k = some o) : k < os.serial := by
  by_contra hk
  rw [os.unmade k (Nat.le_of_not_lt hk)] at h
  cases h

theorem ne_serial (h : os.made k = some o) : k ≠ os.serial := Nat.ne_of_lt (lt_serial h)

theorem names_of_living (h : os.living k = some o) : os.names o.name = some k :=
  os.name k o (living_iff.mp h).1 (living_iff.mp h).2

theorem living_of_names (h : os.names name = some k) :
    ∃ o, os.living k = some o ∧ o.name = name := by
  obtain ⟨o, hmade, halive, hname⟩ := os.named name k h
  exact ⟨o, living_iff.mpr ⟨hmade, halive⟩, hname⟩

theorem find_iff : os.find name = some (k, o) ↔ os.living k = some o ∧ o.name = name := by
  unfold find
  rw [Option.bind_eq_some_iff]
  refine ⟨?_, ?_⟩
  · intro ⟨j, hj, ho⟩
    obtain ⟨o', ho', heq⟩ := Option.map_eq_some_iff.mp ho
    cases heq
    obtain ⟨o'', ho'', hname⟩ := living_of_names hj
    rw [ho'] at ho''
    cases ho''
    exact ⟨ho', hname⟩
  · intro ⟨ho, hname⟩
    refine ⟨k, ?_, by rw [ho]; rfl⟩
    rw [← hname]
    exact names_of_living ho

/-- Two living objects have two names. -/
theorem eq_of_name (h : os.living j = some o) (h' : os.living k = some o')
    (hname : o.name = o'.name) : j = k := by
  have hj := names_of_living h
  rw [hname, names_of_living h'] at hj
  exact (Option.some.inj hj).symm

theorem ne_of_name (h : os.living j = some o) (h' : os.living k = some o')
    (hname : o.name ≠ o'.name) : j ≠ k := by
  intro hjk
  rw [hjk, h'] at h
  cases h
  exact hname rfl

end Lookup

/-! ## Operations -/

/-- An object gets a new state. -/
def put (k : Nat) (state : ρ) (os : Objects ρ) : Objects ρ where
  made := Function.update os.made k ((os.made k).map fun o => { o with state })
  names := os.names
  serial := os.serial
  unmade j hj := by
    by_cases hjk : j = k
    · rw [hjk, Function.update_self, ← hjk, os.unmade j hj]
      rfl
    · rw [Function.update_of_ne hjk, os.unmade j hj]
  named name j hj := by
    obtain ⟨o, hmade, halive, hname⟩ := os.named name j hj
    by_cases hjk : j = k
    · rw [hjk] at hmade
      rw [hjk, Function.update_self, hmade]
      exact ⟨_, rfl, halive, hname⟩
    · rw [Function.update_of_ne hjk]
      exact ⟨o, hmade, halive, hname⟩
  name j o hmade halive := by
    by_cases hjk : j = k
    · rw [hjk, Function.update_self] at hmade
      obtain ⟨o', ho', heq⟩ := Option.map_eq_some_iff.mp hmade
      rw [← heq] at halive ⊢
      rw [hjk]
      exact os.name k o' ho' halive
    · rw [Function.update_of_ne hjk] at hmade
      exact os.name j o hmade halive

/-- A new object. -/
def create (name : String) (state : ρ) (os : Objects ρ) (hfree : os.names name = none) :
    Objects ρ where
  made := Function.update os.made os.serial (some { name, state })
  names := Function.update os.names name (some os.serial)
  serial := os.serial + 1
  unmade j hj := by
    rw [Function.update_of_ne (by omega), os.unmade j (by omega)]
  named other j hj := by
    by_cases hother : other = name
    · rw [hother, Function.update_self] at hj
      cases hj
      rw [Function.update_self]
      exact ⟨_, rfl, rfl, hother.symm⟩
    · rw [Function.update_of_ne hother] at hj
      obtain ⟨o, hmade, halive, hname⟩ := os.named other j hj
      rw [Function.update_of_ne (ne_serial hmade)]
      exact ⟨o, hmade, halive, hname⟩
  name j o hmade halive := by
    by_cases hj : j = os.serial
    · rw [hj, Function.update_self] at hmade
      cases hmade
      rw [hj, Function.update_self]
    · rw [Function.update_of_ne hj] at hmade
      have hname := os.name j o hmade halive
      have hne : o.name ≠ name := by
        intro h
        rw [h, hfree] at hname
        cases hname
      rw [Function.update_of_ne hne, hname]

/-- An object is destroyed. -/
def destroy (k : Nat) (os : Objects ρ) : Objects ρ where
  made := Function.update os.made k ((os.made k).map fun o => { o with alive := false })
  names name := if os.names name = some k then none else os.names name
  serial := os.serial
  unmade j hj := by
    by_cases hjk : j = k
    · rw [hjk, Function.update_self, ← hjk, os.unmade j hj]
      rfl
    · rw [Function.update_of_ne hjk, os.unmade j hj]
  named name j hj := by
    split at hj
    · cases hj
    · next hne =>
      have hjk : j ≠ k := by
        intro hjk
        rw [hjk] at hj
        exact hne hj
      rw [Function.update_of_ne hjk]
      exact os.named name j hj
  name j o hmade halive := by
    by_cases hjk : j = k
    · rw [hjk, Function.update_self] at hmade
      obtain ⟨o', -, heq⟩ := Option.map_eq_some_iff.mp hmade
      rw [← heq] at halive
      cases halive
    · rw [Function.update_of_ne hjk] at hmade
      have hname := os.name j o hmade halive
      rw [if_neg (by rw [hname]; simpa using hjk), hname]

section Operations

variable {os : Objects ρ} {j k : Nat} {o o' : Object ρ} {name : String} {state : ρ}

theorem made_put_self (h : os.made k = some o) :
    (os.put k state).made k = some { o with state } := by
  simp only [put, Function.update_self, h, Option.map_some]

theorem made_put_of_ne (hj : j ≠ k) : (os.put k state).made j = os.made j :=
  Function.update_of_ne hj _ _

theorem put_eq_self (h : os.made k = some o) : os.put k o.state = os := by
  have hmade : Function.update os.made k
      ((os.made k).map fun o' => { o' with state := o.state }) = os.made := by
    rw [h, Option.map_some, Function.update_eq_self_iff]
    exact h.symm
  obtain ⟨made, names, serial, hunmade, hnamed, hname⟩ := os
  simp only [put]
  congr

theorem living_put_self (h : os.living k = some o) :
    (os.put k state).living k = some { o with state } :=
  living_iff.mpr ⟨made_put_self (living_iff.mp h).1, (living_iff.mp h).2⟩

theorem living_put_of_ne (hj : j ≠ k) : (os.put k state).living j = os.living j := by
  unfold living
  rw [made_put_of_ne hj]

/-- What lives after a change has lived before. -/
theorem living_put (ho : os.living k = some o) (h : (os.put k state).living j = some o') :
    j = k ∧ o' = { o with state } ∨ j ≠ k ∧ os.living j = some o' := by
  by_cases hj : j = k
  · rw [hj, living_put_self ho] at h
    exact .inl ⟨hj, (Option.some.inj h).symm⟩
  · rw [living_put_of_ne hj] at h
    exact .inr ⟨hj, h⟩

theorem put_dead (h : os.living j = none) : (os.put k state).living j = none := by
  by_cases hj : j = k
  · unfold living at h ⊢
    rw [hj] at h ⊢
    simp only [put, Function.update_self]
    cases hmade : os.made k with
    | none => rfl
    | some o =>
      rw [hmade] at h
      simpa using h
  · rw [living_put_of_ne hj, h]

theorem made_create_self (hfree : os.names name = none) :
    (os.create name state hfree).made os.serial = some { name, state } :=
  Function.update_self _ _ _

theorem made_create_old (hfree : os.names name = none) (h : os.made j = some o) :
    (os.create name state hfree).made j = some o := by
  unfold create
  simp only [Function.update_of_ne (ne_serial h), h]

theorem living_create_self (hfree : os.names name = none) :
    (os.create name state hfree).living os.serial = some { name, state } :=
  living_iff.mpr ⟨made_create_self hfree, rfl⟩

theorem living_create_old (hfree : os.names name = none) (h : os.living j = some o) :
    (os.create name state hfree).living j = some o :=
  living_iff.mpr ⟨made_create_old hfree (living_iff.mp h).1, (living_iff.mp h).2⟩

theorem living_create (hfree : os.names name = none)
    (h : (os.create name state hfree).living j = some o) :
    j = os.serial ∧ o = { name, state } ∨ j ≠ os.serial ∧ os.living j = some o := by
  obtain ⟨hmade, halive⟩ := living_iff.mp h
  by_cases hj : j = os.serial
  · rw [hj, made_create_self] at hmade
    exact .inl ⟨hj, (Option.some.inj hmade).symm⟩
  · simp only [create, Function.update_of_ne hj] at hmade
    exact .inr ⟨hj, living_iff.mpr ⟨hmade, halive⟩⟩

theorem create_dead (hfree : os.names name = none) (hmade : os.made j = some o)
    (h : os.living j = none) : (os.create name state hfree).living j = none := by
  unfold living at h ⊢
  rw [made_create_old hfree hmade, ← hmade]
  exact h

/-- The new object has the name for itself. -/
theorem ne_of_free (h : os.living j = some o) (hfree : os.names name = none) : o.name ≠ name := by
  intro hname
  have hj := names_of_living h
  rw [hname, hfree] at hj
  cases hj

theorem made_destroy_self (h : os.made k = some o) :
    (os.destroy k).made k = some { o with alive := false } := by
  simp only [destroy, Function.update_self, h, Option.map_some]

theorem made_destroy_of_ne (hj : j ≠ k) : (os.destroy k).made j = os.made j :=
  Function.update_of_ne hj _ _

theorem living_destroy_self : (os.destroy k).living k = none := by
  cases h : (os.destroy k).living k with
  | none => rfl
  | some o =>
    obtain ⟨hmade, halive⟩ := living_iff.mp h
    simp only [destroy, Function.update_self] at hmade
    obtain ⟨o', -, heq⟩ := Option.map_eq_some_iff.mp hmade
    rw [← heq] at halive
    cases halive

theorem living_destroy_of_ne (hj : j ≠ k) : (os.destroy k).living j = os.living j := by
  unfold living
  rw [made_destroy_of_ne hj]

theorem living_destroy (h : (os.destroy k).living j = some o) : j ≠ k ∧ os.living j = some o := by
  have hj : j ≠ k := by
    intro hj
    rw [hj, living_destroy_self] at h
    cases h
  exact ⟨hj, by rwa [living_destroy_of_ne hj] at h⟩

theorem destroy_dead (h : os.living j = none) : (os.destroy k).living j = none := by
  by_cases hj : j = k
  · rw [hj, living_destroy_self]
  · rw [living_destroy_of_ne hj, h]

end Operations

/-! ## What holds of every object -/

/-- The states of all objects, also of those that are destroyed. -/
def All (P : ρ → Prop) (os : Objects ρ) : Prop := ∀ k o, os.made k = some o → P o.state

section All

variable {P : ρ → Prop} {os : Objects ρ} {k : Nat}

theorem All.living (h : All P os) {o : Object ρ} (ho : os.living k = some o) : P o.state :=
  h k o (living_iff.mp ho).1

theorem all_empty : All P empty := by
  intro k o h
  cases h

theorem All.put (h : All P os) {state : ρ} (hstate : P state) : All P (os.put k state) := by
  intro j o hmade
  by_cases hj : j = k
  · rw [hj] at hmade
    simp only [Objects.put, Function.update_self] at hmade
    obtain ⟨o', -, heq⟩ := Option.map_eq_some_iff.mp hmade
    rw [← heq]
    exact hstate
  · rw [made_put_of_ne hj] at hmade
    exact h j o hmade

theorem All.create (h : All P os) {name : String} (hfree : os.names name = none) {state : ρ}
    (hstate : P state) : All P (os.create name state hfree) := by
  intro j o hmade
  by_cases hj : j = os.serial
  · rw [hj, made_create_self] at hmade
    cases hmade
    exact hstate
  · simp only [Objects.create, Function.update_of_ne hj] at hmade
    exact h j o hmade

theorem All.destroy (h : All P os) : All P (os.destroy k) := by
  intro j o hmade
  by_cases hj : j = k
  · rw [hj] at hmade
    simp only [Objects.destroy, Function.update_self] at hmade
    obtain ⟨o', ho', heq⟩ := Option.map_eq_some_iff.mp hmade
    rw [← heq]
    exact h k o' ho'
  · rw [made_destroy_of_ne hj] at hmade
    exact h j o hmade

end All

end Objects

end EpicsTcl.Library
