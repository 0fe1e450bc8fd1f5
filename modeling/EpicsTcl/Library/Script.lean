/-
EpicsTcl.Library.Script — scripts: commands that read and change a state
and may raise an error, as Tcl procedures do.

A script that raises keeps the changes it has made so far; `attempt` turns
an error into a value without undoing anything, which is Tcl's `catch`.
`forEach` stops at the first body that raises.

Two kinds of rules:

* `Within E m` — whatever `m` does to the state is an allowed `E`-effect,
  whether it returns or raises. An effect is a reflexive and transitive
  relation, so it is enough to look at the primitive changes.
  `Effect.keeps P` is the effect "`P` stays true", `Effect.same f` the effect
  "`f` stays as it was".
* `forEach_of_go` — what a loop does while its bodies do not raise, with an
  invariant over the elements that are still to come; `forEach_ok_rest`,
  `forEach_ok_invariant` and `forEach_ok_each` — what holds when a loop
  returns; `forEach_error` — what a loop raises, a body has raised.
-/
import Mathlib.Data.List.Basic

namespace EpicsTcl.Library

universe u v w

/-- A command that leaves a state and either a value or an error. -/
def Script (σ : Type u) (ε : Type v) (α : Type w) := σ → Except ε α × σ

namespace Script

variable {σ : Type u} {ε : Type v} {α β : Type w}

instance : Monad (Script σ ε) where
  pure a := fun s => (.ok a, s)
  bind m f := fun s =>
    match m s with
    | (.ok a, s') => f a s'
    | (.error e, s') => (.error e, s')

/-- Stop here with an error. -/
def raise (e : ε) : Script σ ε α := fun s => (.error e, s)

/-- A value computed from the state. -/
def reads (f : σ → α) : Script σ ε α := fun s => (.ok (f s), s)

/-- A value computed from the state, if that does not fail. -/
def evaluates (f : σ → Except ε α) : Script σ ε α := fun s => (f s, s)

/-- Change the state. -/
def modify (f : σ → σ) : Script σ ε PUnit := fun s => (.ok ⟨⟩, f s)

/-- `catch`: an error becomes a value, the changes stay. -/
def attempt (m : Script σ ε α) : Script σ ε (Except ε α) := fun s => (.ok (m s).1, (m s).2)

/-- A command on a part of the state. -/
def zoom {τ : Type*} (get : σ → τ) (put : τ → σ → σ) (m : Script τ ε α) : Script σ ε α :=
  fun s => ((m (get s)).1, put (m (get s)).2 s)

/-- `foreach`. -/
def forEach {γ : Type*} : List γ → (γ → Script σ ε PUnit) → Script σ ε PUnit
  | [], _ => pure ⟨⟩
  | a :: rest, body => do
    body a
    forEach rest body

@[simp] theorem reads_apply (f : σ → α) (s : σ) : (reads f : Script σ ε α) s = (.ok (f s), s) :=
  rfl

@[simp] theorem evaluates_apply (f : σ → Except ε α) (s : σ) : evaluates f s = (f s, s) := rfl

@[simp] theorem modify_apply (f : σ → σ) (s : σ) :
    (modify f : Script σ ε PUnit) s = (.ok ⟨⟩, f s) := rfl

@[simp] theorem attempt_apply (m : Script σ ε α) (s : σ) :
    attempt m s = (.ok (m s).1, (m s).2) := rfl

@[simp] theorem raise_apply (e : ε) (s : σ) : (raise e : Script σ ε α) s = (.error e, s) := rfl

@[simp] theorem pure_apply (a : α) (s : σ) : (pure a : Script σ ε α) s = (.ok a, s) := rfl

theorem zoom_apply {τ : Type*} (get : σ → τ) (put : τ → σ → σ) (m : Script τ ε α) (s : σ) :
    zoom get put m s = ((m (get s)).1, put (m (get s)).2 s) := rfl

theorem bind_apply (m : Script σ ε α) (f : α → Script σ ε β) (s : σ) :
    (m >>= f) s =
      match m s with
      | (.ok a, s') => f a s'
      | (.error e, s') => (.error e, s') := rfl

theorem bind_ok {m : Script σ ε α} {f : α → Script σ ε β} {s s' : σ} {a : α}
    (h : m s = (.ok a, s')) : (m >>= f) s = f a s' := by
  rw [bind_apply, h]

theorem bind_error {m : Script σ ε α} {f : α → Script σ ε β} {s s' : σ} {e : ε}
    (h : m s = (.error e, s')) : (m >>= f) s = (.error e, s') := by
  rw [bind_apply, h]

theorem bind_assoc {γ : Type w} (m : Script σ ε α) (f : α → Script σ ε β) (g : β → Script σ ε γ) :
    (m >>= f) >>= g = m >>= fun a => f a >>= g := by
  funext s
  simp only [bind_apply]
  cases m s with
  | mk result t => cases result <;> rfl

/-- A sequence that returns: its first part did. -/
theorem of_bind_ok {m : Script σ ε α} {f : α → Script σ ε β} {s s' : σ} {b : β}
    (h : (m >>= f) s = (.ok b, s')) : ∃ a t, m s = (.ok a, t) ∧ f a t = (.ok b, s') := by
  rw [bind_apply] at h
  split at h
  · next a t hm => exact ⟨a, t, hm, h⟩
  · cases h

/-- A sequence that raises: one of its parts did. -/
theorem of_bind_error {m : Script σ ε α} {f : α → Script σ ε β} {s s' : σ} {e : ε}
    (h : (m >>= f) s = (.error e, s')) :
    m s = (.error e, s') ∨ ∃ a t, m s = (.ok a, t) ∧ f a t = (.error e, s') := by
  rw [bind_apply] at h
  split at h
  · next a t hm => exact .inr ⟨a, t, hm, h⟩
  · next e' t hm =>
    cases h
    exact .inl hm

/-! ## Effects -/

end Script

/-- What a command may do to the state. -/
structure Effect (σ : Type u) where
  rel : σ → σ → Prop
  refl : ∀ s, rel s s
  trans : ∀ {s t r}, rel s t → rel t r → rel s r

/-- The effect that keeps `P` true. -/
def Effect.keeps {σ : Type u} (P : σ → Prop) : Effect σ where
  rel s t := P s → P t
  refl _ := id
  trans h h' := h' ∘ h

/-- The effect that leaves `f` as it was. -/
def Effect.same {σ : Type u} {τ : Type*} (f : σ → τ) : Effect σ where
  rel s t := f t = f s
  refl _ := rfl
  trans h h' := h'.trans h

namespace Script

variable {σ : Type u} {ε : Type v} {α β : Type w}

/-- Every run of `m` has the effect `E`, also a run that raises. -/
def Within (E : Effect σ) (m : Script σ ε α) : Prop :=
  ∀ s, E.rel s (m s).2

namespace Within

variable {E : Effect σ}

theorem pure (a : α) : Within E (Pure.pure a : Script σ ε α) := fun s => E.refl s

theorem raise (e : ε) : Within E (Script.raise e : Script σ ε α) := fun s => E.refl s

theorem reads (f : σ → α) : Within E (Script.reads f : Script σ ε α) := fun s => E.refl s

theorem evaluates (f : σ → Except ε α) : Within E (Script.evaluates f) := fun s => E.refl s

theorem modify {f : σ → σ} (h : ∀ s, E.rel s (f s)) :
    Within E (Script.modify f : Script σ ε PUnit) := h

theorem bind {m : Script σ ε α} {f : α → Script σ ε β} (hm : Within E m)
    (hf : ∀ a, Within E (f a)) : Within E (m >>= f) := by
  intro s
  have hs := hm s
  rw [bind_apply]
  split
  · next a s' h =>
    rw [h] at hs
    exact E.trans hs (hf a s')
  · next e s' h =>
    rw [h] at hs
    exact hs

/-- The effect on a run that is known. -/
theorem of_eq {m : Script σ ε α} {s t : σ} {result : Except ε α} (hm : Within E m)
    (h : m s = (result, t)) : E.rel s t := by
  have hrel := hm s
  rwa [h] at hrel

/-- A weaker effect. -/
theorem mono {E' : Effect σ} {m : Script σ ε α} (hm : Within E m)
    (h : ∀ {s t}, E.rel s t → E'.rel s t) : Within E' m := fun s => h (hm s)

theorem attempt {m : Script σ ε α} (hm : Within E m) : Within E (Script.attempt m) := hm

theorem zoom {τ : Type*} {get : σ → τ} {put : τ → σ → σ} (m : Script τ ε α)
    (h : ∀ v s, E.rel s (put v s)) : Within E (Script.zoom get put m) := fun s => h _ s

theorem forEach {γ : Type*} {l : List γ} {body : γ → Script σ ε PUnit}
    (h : ∀ a ∈ l, Within E (body a)) : Within E (Script.forEach l body) := by
  induction l with
  | nil => exact fun s => E.refl s
  | cons a rest ih =>
    apply bind
    · exact h a List.mem_cons_self
    · exact fun _ => ih fun b hb => h b (List.mem_cons_of_mem a hb)

end Within

/-! ## Loops -/

section Loops

variable {γ : Type*} {body : γ → Script σ ε PUnit}

theorem forEach_append {pre rest : List γ} {s s' : σ} (h : forEach pre body s = (.ok ⟨⟩, s')) :
    forEach (pre ++ rest) body s = forEach rest body s' := by
  induction pre generalizing s with
  | nil =>
    cases h
    rfl
  | cons a pre ih =>
    obtain ⟨⟨⟩, t, ha, hpre⟩ := of_bind_ok h
    rw [← ih hpre]
    exact bind_ok ha

/-- The first elements of a loop are gone through if their bodies do not
raise. `Inv rest s` says what holds with `rest` still to come. -/
theorem forEach_of_go {Inv : List γ → σ → Prop} (stops : γ → Prop)
    (go : ∀ a rest s, Inv (a :: rest) s → ¬ stops a →
      ∃ s', body a s = (.ok ⟨⟩, s') ∧ Inv rest s')
    (pre rest : List γ) (s : σ) (hinv : Inv (pre ++ rest) s) (hgo : ∀ a ∈ pre, ¬ stops a) :
    ∃ s', forEach pre body s = (.ok ⟨⟩, s') ∧ Inv rest s' := by
  induction pre generalizing s with
  | nil => exact ⟨s, rfl, hinv⟩
  | cons a pre ih =>
    obtain ⟨t, hbody, ht⟩ := go a (pre ++ rest) s hinv (hgo a List.mem_cons_self)
    obtain ⟨s', hloop, hs'⟩ := ih t ht fun b hb => hgo b (List.mem_cons_of_mem a hb)
    refine ⟨s', ?_, hs'⟩
    rw [← hloop]
    exact bind_ok hbody

/-- A loop that returns. `Inv rest s` says what holds with `rest` still to
come. -/
theorem forEach_ok_rest (Inv : List γ → σ → Prop) {l : List γ} {s s' : σ} (hinv : Inv l s)
    (go : ∀ a rest t t', Inv (a :: rest) t → body a t = (.ok ⟨⟩, t') → Inv rest t')
    (h : forEach l body s = (.ok ⟨⟩, s')) : Inv [] s' := by
  induction l generalizing s with
  | nil =>
    cases h
    exact hinv
  | cons a rest ih =>
    obtain ⟨⟨⟩, t, ha, hrest⟩ := of_bind_ok h
    exact ih (go a rest s t hinv ha) hrest

/-- A loop that returns: what every body that returns keeps, holds at its end. -/
theorem forEach_ok_invariant (Inv : σ → Prop) {l : List γ} {s s' : σ} (hinv : Inv s)
    (keep : ∀ a ∈ l, ∀ t t', Inv t → body a t = (.ok ⟨⟩, t') → Inv t')
    (h : forEach l body s = (.ok ⟨⟩, s')) : Inv s' := by
  have hrest : Inv s' ∧ ∀ a ∈ ([] : List γ), a ∈ l := by
    refine forEach_ok_rest (fun rest t => Inv t ∧ ∀ a ∈ rest, a ∈ l) ⟨hinv, fun _ => id⟩ ?_ h
    rintro a rest t t' ⟨ht, hmem⟩ hbody
    refine ⟨keep a (hmem a List.mem_cons_self) t t' ht hbody, fun b hb => ?_⟩
    exact hmem b (List.mem_cons_of_mem a hb)
  exact hrest.1

/-- A loop that returns has returned from every body, and what a body
established and later bodies keep holds at its end. -/
theorem forEach_ok_each {Q : γ → σ → Prop} {l : List γ} {s s' : σ}
    (h : forEach l body s = (.ok ⟨⟩, s'))
    (establish : ∀ a ∈ l, ∀ t t', body a t = (.ok ⟨⟩, t') → Q a t')
    (keep : ∀ a b t, b ∈ l → Q a t → Q a (body b t).2) :
    ∀ a ∈ l, Q a s' := by
  induction l generalizing s with
  | nil => intro a ha; cases ha
  | cons b rest ih =>
    obtain ⟨⟨⟩, t, hb, hrest⟩ := of_bind_ok h
    have hkeep : ∀ a c t, c ∈ rest → Q a t → Q a (body c t).2 :=
      fun a c t hc => keep a c t (List.mem_cons_of_mem b hc)
    intro a ha
    rcases List.mem_cons.mp ha with rfl | ha
    · have hQ : Q a t := establish a List.mem_cons_self s t hb
      have hwithin : Within (Effect.keeps (Q a)) (forEach rest body) :=
        Within.forEach fun c hc u => hkeep a c u hc
      exact hwithin.of_eq hrest hQ
    · exact ih hrest (fun a ha => establish a (List.mem_cons_of_mem b ha)) hkeep a ha

/-- What a loop raises, a body has raised. `Inv rest s` says what holds with
`rest` still to come. -/
theorem forEach_error {Inv : List γ → σ → Prop} {P : ε → Prop}
    (go : ∀ a rest s s', Inv (a :: rest) s → body a s = (.ok ⟨⟩, s') → Inv rest s')
    (fail : ∀ a rest s s' e, Inv (a :: rest) s → body a s = (.error e, s') → P e)
    {l : List γ} {s s' : σ} {e : ε} (hinv : Inv l s) (h : forEach l body s = (.error e, s')) :
    P e := by
  induction l generalizing s with
  | nil => cases h
  | cons a rest ih =>
    cases hbody : body a s with
    | mk result t =>
      cases result with
      | ok u =>
        have hrest : forEach (a :: rest) body s = forEach rest body t := bind_ok hbody
        exact ih (go a rest s t hinv hbody) (hrest ▸ h)
      | error e' =>
        have hloop : forEach (a :: rest) body s = (.error e', t) := bind_error hbody
        rw [hloop] at h
        cases h
        exact fail a rest s _ e hinv hbody

end Loops

end Script

end EpicsTcl.Library
