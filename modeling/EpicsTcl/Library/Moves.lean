/-
EpicsTcl.Library.Moves — sequences of moves, each of which adds its effect to
an account.

Accounts are the elements of an additive group. `Path effect Ok g l g'` says
that the moves `l` lead from `g` to `g'`, and that every account after a move
is one that `Ok` allows. `Path.undo` walks a path back: the opposite moves in
the opposite order are a path too.

A script that makes the moves of a path keeps its state in step with the
account (`Path.forEach_ok`), and returns if no move of it can fail
(`Path.forEach_runs`).
-/
import EpicsTcl.Library.Script
import Mathlib.Algebra.Group.Basic

namespace EpicsTcl.Library

universe u v

variable {G α : Type*} [AddGroup G]

inductive Path (effect : α → G) (Ok : G → Prop) : G → List α → G → Prop where
  | nil {g : G} : Path effect Ok g [] g
  | cons {g g' : G} {a : α} {l : List α} :
      Ok (g + effect a) → Path effect Ok (g + effect a) l g' → Path effect Ok g (a :: l) g'

namespace Path

variable {effect : α → G} {Ok : G → Prop} {g g' : G} {l : List α}

theorem snoc (hpath : Path effect Ok g l g') {a : α} (hok : Ok (g' + effect a)) :
    Path effect Ok g (l ++ [a]) (g' + effect a) := by
  induction hpath with
  | nil => exact .cons hok .nil
  | cons hok₁ _ ih => exact .cons hok₁ (ih hok)

/-- **A path can be walked back.** -/
theorem undo {opposite : α → α} (hopposite : ∀ a, effect (opposite a) = -effect a)
    (hpath : Path effect Ok g l g') (hok : Ok g) :
    Path effect Ok g' (l.map opposite).reverse g := by
  induction hpath with
  | nil => exact .nil
  | @cons g g' a l hok₁ _ ih =>
    have hback : g + effect a + effect (opposite a) = g := by
      rw [hopposite, add_neg_cancel_right]
    have hlast := (ih hok₁).snoc (a := opposite a)
    rw [hback] at hlast
    simpa using hlast hok

/-! ## Scripts -/

section Scripts

variable {σ : Type u} {ε : Type v} {body : α → Script σ ε PUnit} {R : G → σ → Prop} {s s' : σ}

/-- The state is in step with an account from which `rest` leads to `g'`. -/
def Ahead (effect : α → G) (Ok : G → Prop) (R : G → σ → Prop) (g' : G) (rest : List α) (s : σ) :
    Prop :=
  ∃ g, R g s ∧ Path effect Ok g rest g'

theorem Ahead.done (h : Ahead effect Ok R g' [] s) : R g' s := by
  obtain ⟨g, hs, hpath⟩ := h
  cases hpath
  exact hs

/-- A script that returns has followed its path. -/
theorem forEach_ok (hpath : Path effect Ok g l g') (hs : R g s)
    (follow : ∀ g, ∀ a ∈ l, ∀ s s', R g s → Ok (g + effect a) → body a s = (.ok ⟨⟩, s') →
      R (g + effect a) s')
    (h : Script.forEach l body s = (.ok ⟨⟩, s')) : R g' s' := by
  refine (Script.forEach_ok_rest (fun rest t => Ahead effect Ok R g' rest t ∧ ∀ a ∈ rest, a ∈ l)
    ⟨⟨g, hs, hpath⟩, fun _ => id⟩ ?_ h).1.done
  rintro a rest t t' ⟨⟨g, ht, hpath⟩, hmem⟩ hbody
  cases hpath with
  | cons hok hrest =>
    have hend := follow g a (hmem a (List.mem_cons_self ..)) t t' ht hok hbody
    exact ⟨⟨_, hend, hrest⟩, fun b hb => hmem b (List.mem_cons_of_mem _ hb)⟩

/-- A script of moves that cannot fail returns. -/
theorem forEach_runs (hpath : Path effect Ok g l g') (hs : R g s) (safe : α → Prop)
    (follow : ∀ g a s, R g s → Ok (g + effect a) → safe a →
      ∃ s', body a s = (.ok ⟨⟩, s') ∧ R (g + effect a) s')
    (hsafe : ∀ a ∈ l, safe a) : ∃ s', Script.forEach l body s = (.ok ⟨⟩, s') ∧ R g' s' := by
  have hgo : ∀ a rest t, Ahead effect Ok R g' (a :: rest) t → ¬ ¬ safe a →
      ∃ t', body a t = (.ok ⟨⟩, t') ∧ Ahead effect Ok R g' rest t' := by
    rintro a rest t ⟨g, ht, hpath⟩ ha
    cases hpath with
    | cons hok hrest =>
      obtain ⟨t', hbody, ht'⟩ := follow g a t ht hok (not_not.mp ha)
      exact ⟨t', hbody, _, ht', hrest⟩
  have hstart : Ahead effect Ok R g' (l ++ []) s := by
    rw [List.append_nil]
    exact ⟨g, hs, hpath⟩
  obtain ⟨s', hrun, hend⟩ := Script.forEach_of_go _ hgo l [] s hstart
    fun a ha => not_not_intro (hsafe a ha)
  exact ⟨s', hrun, hend.done⟩

end Scripts

end Path

end EpicsTcl.Library
