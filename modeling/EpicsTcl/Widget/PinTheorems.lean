/-
EpicsTcl.Widget.PinTheorems — a widget without a destructor pins its channels.

The widgets that give nothing back are one more client of the channels, a
client that never deletes and never unlinks: what happens to `Widgets` can
happen to `Owners` with that client among the others (`asOwners_follows`). So
the counters are what the living objects, the clients and the constructors of
all those widgets have taken, whether the widgets still exist or not.

The order of the commands matters for it: no constructor links to a channel
that it has not created (`constructor_ordered`).
-/
import EpicsTcl.Library.Simulation
import EpicsTcl.Widget.ChannelWidgets
import EpicsTcl.Widget.OwnerTheorems
import Mathlib.Data.List.Count

namespace EpicsTcl.Widget

open EpicsTcl.Channel EpicsTcl.Command EpicsTcl.Library

/-! ## Constructors -/

/-- Commands that take something, with a reference to every channel that is
linked; `held` has been run before. -/
def Ordered (held : List TclCommand) : List TclCommand → Prop
  | [] => True
  | .epicschannel n :: rest => Ordered (.epicschannel n :: held) rest
  | .link n u :: rest => .epicschannel n ∈ held ∧ Ordered (.link n u :: held) rest
  | _ => False

theorem Ordered.mono {held held' cmds : List TclCommand} (h : Ordered held cmds)
    (hsub : ∀ c ∈ held, c ∈ held') : Ordered held' cmds := by
  induction cmds generalizing held held' with
  | nil => trivial
  | cons c rest ih =>
    have hcons : ∀ d ∈ c :: held, d ∈ c :: held' := fun d hd =>
      (List.mem_cons.mp hd).elim (fun heq => heq ▸ List.mem_cons_self)
        fun hd => List.mem_cons_of_mem c (hsub d hd)
    cases c with
    | epicschannel n => exact ih h hcons
    | link n u => exact ⟨hsub _ h.1, ih h.2 hcons⟩
    | _ => exact h.elim

theorem Ordered.take {held cmds : List TclCommand} (h : Ordered held cmds) (k : Nat) :
    Ordered held (cmds.take k) := by
  induction cmds generalizing held k with
  | nil => simpa using h
  | cons c rest ih =>
    cases k with
    | zero => trivial
    | succ k =>
      cases c with
      | epicschannel n => exact ih h k
      | link n u => exact ⟨h.1, ih h.2 k⟩
      | _ => exact h.elim

theorem Ordered.takes {held cmds : List TclCommand} (h : Ordered held cmds) :
    ∀ c ∈ cmds, c.Takes := by
  induction cmds generalizing held with
  | nil => simp
  | cons c rest ih =>
    intro d hd
    cases c with
    | epicschannel n =>
      rcases List.mem_cons.mp hd with heq | hrest
      · rw [heq]; trivial
      · exact ih h d hrest
    | link n u =>
      rcases List.mem_cons.mp hd with heq | hrest
      · rw [heq]; trivial
      · exact ih h.2 d hrest
    | _ => exact h.elim

theorem constructor_ordered (w : ChannelWidget) : Ordered [] w.constructor := by
  cases w with
  | epicsButton channel statechannel =>
    simp only [ChannelWidget.constructor]
    split <;> split <;> simp_all [Ordered]
  | epicsTypeNGo channel =>
    simp only [ChannelWidget.constructor, ChannelWidget.preloaded, ChannelWidget.linked]
    split <;> simp [Ordered]
  | epicsEnumeratedControl channel =>
    simp only [ChannelWidget.constructor, ChannelWidget.preloaded, ChannelWidget.linked]
    split <;> simp [Ordered]
  | _ => simp [ChannelWidget.constructor, ChannelWidget.linked, Ordered]

/-! ## What the constructors have taken -/

/-- What commands that take something have taken together. -/
def takenHoldings (cmds : List TclCommand) : Holdings := (cmds.map TclCommand.effect).sum

theorem takenHoldings_cons (c : TclCommand) (cmds : List TclCommand) :
    takenHoldings (c :: cmds) = c.effect + takenHoldings cmds := by
  simp [takenHoldings]

theorem takenHoldings_nonneg {cmds : List TclCommand} (h : ∀ c ∈ cmds, c.Takes) :
    (∀ n, 0 ≤ (takenHoldings cmds).references n) ∧ ∀ n u, 0 ≤ (takenHoldings cmds).links n u := by
  induction cmds with
  | nil => exact ⟨fun _ => Int.le_refl 0, fun _ _ => Int.le_refl 0⟩
  | cons c cmds ih =>
    obtain ⟨hreferences, hlinks⟩ := ih fun d hd => h d (List.mem_cons_of_mem c hd)
    have hc := h c List.mem_cons_self
    rw [takenHoldings_cons]
    exact ⟨fun n => Int.add_nonneg (hc.references n) (hreferences n),
      fun n u => Int.add_nonneg (hc.links n u) (hlinks n u)⟩

/-- References are counted as they were taken. -/
theorem takenHoldings_references {cmds : List TclCommand} (h : ∀ c ∈ cmds, c.Takes) (n : String) :
    (takenHoldings cmds).references n = cmds.count (.epicschannel n) := by
  induction cmds with
  | nil => rfl
  | cons c cmds ih =>
    rw [takenHoldings_cons, Holdings.references_add, ih fun d hd => h d (List.mem_cons_of_mem c hd),
      List.count_cons]
    have hc := h c List.mem_cons_self
    cases c with
    | epicschannel m =>
      by_cases hm : n = m
      · subst hm
        simp
        omega
      · have hm' : ¬ m = n := fun h => hm h.symm
        simp [hm, hm']
    | link m u => simp
    | _ => exact hc.elim

theorem takenHoldings_links {cmds : List TclCommand} (h : ∀ c ∈ cmds, c.Takes) (n u : String) :
    (takenHoldings cmds).links n u = cmds.count (.link n u) := by
  induction cmds with
  | nil => rfl
  | cons c cmds ih =>
    rw [takenHoldings_cons, Holdings.links_add, ih fun d hd => h d (List.mem_cons_of_mem c hd),
      List.count_cons]
    have hc := h c List.mem_cons_self
    cases c with
    | epicschannel m => simp
    | link m v =>
      by_cases hm : n = m ∧ u = v
      · obtain ⟨rfl, rfl⟩ := hm
        simp
        omega
      · have hm' : ¬ (m = n ∧ v = u) := fun h => hm ⟨h.1.symm, h.2.symm⟩
        simp [hm, hm']
    | _ => exact hc.elim

/-- Who runs a command: a client, or the constructor of a widget. -/
inductive Taker (κ : Type) where
  | client (k : κ)
  | widget
  deriving DecidableEq

namespace Widgets

section Takers

variable {κ ν : Type} [DecidableEq κ] [DecidableEq ν] [CTCLObjectProcessor] [ChannelAccess]
  {resolve : String → ν} {s s' : Widgets κ ν} {t t' : Owners (Taker κ) ν}

/-! ## One more client -/

/-- The commands in the log of `Owners`: those of the clients, and those of
the widgets. -/
def commands (s : Widgets κ ν) : List (Taker κ × TclCommand) :=
  s.taken.map (.widget, ·) ++ s.log.map fun e => (.client e.1, e.2)

/-- The same process, seen as `Owners`. -/
structure AsOwners (s : Widgets κ ν) (t : Owners (Taker κ) ν) : Prop where
  world : t.world = s.world
  living : t.living.Perm s.owners
  log : t.log.Perm s.commands
  takes : ∀ c ∈ s.taken, c.Takes

omit [DecidableEq κ] [CTCLObjectProcessor] [ChannelAccess] in
theorem clientHoldings_perm {l l' : List (Taker κ × TclCommand)} (h : l.Perm l') :
    Owners.clientHoldings l = Owners.clientHoldings l' :=
  (h.map _).sum_eq

omit [DecidableEq κ] [DecidableEq ν] [CTCLObjectProcessor] [ChannelAccess] in
theorem clientHoldings_commands (s : Widgets κ ν) :
    Owners.clientHoldings s.commands = takenHoldings s.taken + Owners.clientHoldings s.log := by
  simp [Owners.clientHoldings, commands, takenHoldings, Function.comp_def]

omit [DecidableEq κ] [DecidableEq ν] [CTCLObjectProcessor] [ChannelAccess] in
theorem AsOwners.holdings (h : AsOwners s t) : t.holdings = s.holdings := by
  have hliving : (t.living.map ChannelOwner.holdings).sum =
      (s.owners.map ChannelOwner.holdings).sum :=
    (h.living.map _).sum_eq
  rw [Owners.holdings, hliving, clientHoldings_perm h.log, clientHoldings_commands,
    Widgets.holdings, held, takenHoldings]
  abel

omit [DecidableEq ν] [CTCLObjectProcessor] [ChannelAccess] in
/-- What a client has run, it has run. -/
theorem AsOwners.times_client (h : AsOwners s t) (k : κ) (c : TclCommand) :
    t.times (.client k) c = s.times k c := by
  refine (h.log.count_eq _).trans ?_
  rw [commands, List.count_append]
  have htaken : (Taker.client k, c) ∉ s.taken.map (Taker.widget, ·) := by simp
  have hinjective : Function.Injective fun e : κ × TclCommand => (Taker.client e.1, e.2) := by
    intro e e' heq
    simpa [Prod.ext_iff] using heq
  rw [List.count_eq_zero.mpr htaken, Nat.zero_add]
  exact List.count_map_of_injective s.log _ hinjective (k, c)

omit [DecidableEq ν] [CTCLObjectProcessor] [ChannelAccess] in
theorem AsOwners.times_widget (h : AsOwners s t) (c : TclCommand) :
    t.times .widget c = s.taken.count c := by
  refine (h.log.count_eq _).trans ?_
  rw [commands, List.count_append]
  have hlog : (Taker.widget, c) ∉ s.log.map fun e => (Taker.client e.1, e.2) := by simp
  have hinjective : Function.Injective fun d : TclCommand => ((Taker.widget : Taker κ), d) := by
    intro d d' heq
    simpa using heq
  rw [List.count_eq_zero.mpr hlog, Nat.add_zero]
  exact List.count_map_of_injective s.taken _ hinjective c

/-- A step among the objects. -/
abbrev OwnersOk (t : Owners (Taker κ) ν) (e : OwnersEvent (Taker κ)) : Prop :=
  t.Balanced e ∧ t.InRange e ∧ e.PlainCreation

omit [DecidableEq κ] in
theorem step_client_error (k : Taker κ) {t : Owners (Taker κ) ν} {c : TclCommand}
    (herr : (t.world.run resolve c).1 = .error) :
    t.step resolve (.client k c) = some { t with world := (t.world.run resolve c).2 } := by
  cases hrun : t.world.run resolve c with
  | mk code world =>
    rw [hrun] at herr
    obtain rfl : code = .error := herr
    rw [Owners.step, hrun]

omit [DecidableEq ν] [CTCLObjectProcessor] [ChannelAccess] in
theorem AsOwners.mayRun (h : AsOwners s t) {c : TclCommand} {cmds : List TclCommand}
    (hordered : Ordered s.taken (c :: cmds)) : t.MayRun .widget c := by
  cases c with
  | epicschannel n => trivial
  | link n u =>
    show t.times .widget (.delete n) < t.times .widget (.epicschannel n)
    have hdeleted : s.taken.count (.delete n) = 0 := by
      rw [List.count_eq_zero]
      intro hmem
      exact (h.takes _ hmem).elim
    rw [h.times_widget, h.times_widget, hdeleted]
    exact List.count_pos_iff.mpr hordered.1
  | _ => exact hordered.elim

omit [DecidableEq ν] [CTCLObjectProcessor] [ChannelAccess] in
theorem AsOwners.mayRun_client (h : AsOwners s t) {k : κ} {c : TclCommand}
    (hbalanced : s.Balanced (.client k c)) : t.MayRun (.client k) c := by
  cases c with
  | delete n =>
    simp only [Owners.MayRun, h.times_client]
    exact hbalanced
  | link n u =>
    simp only [Owners.MayRun, h.times_client]
    exact hbalanced
  | unlink n u =>
    simp only [Owners.MayRun, h.times_client]
    exact hbalanced
  | _ => trivial

omit [DecidableEq κ] in
/-- A command of a constructor is refused, or the rest of it runs. -/
theorem forEach_take_cons (resolve : String → ν) (c : TclCommand) (cmds : List TclCommand)
    (s : Widgets κ ν) :
    (∃ world, s.world.run resolve c = (.error, world) ∧
        Script.forEach (c :: cmds) (take resolve) s = (.error (), { s with world })) ∨
      ∃ world, s.world.run resolve c = (.ok, world) ∧
        Script.forEach (c :: cmds) (take resolve) s =
          Script.forEach cmds (take resolve) { s with world, taken := c :: s.taken } := by
  cases hrun : s.world.run resolve c with
  | mk code world =>
  cases code with
  | error => exact .inl ⟨world, rfl, Script.bind_error (by simp only [take, hrun])⟩
  | ok => exact .inr ⟨world, rfl, Script.bind_ok (by simp only [take, hrun]; rfl)⟩

/-- A constructor runs its commands as a client. -/
theorem follow_takes (cmds : List TclCommand) (h : AsOwners s t) (hordered : Ordered s.taken cmds)
    (hplain : ∀ c ∈ cmds, c.PlainCreation) (hr : (t.holdings + takenHoldings cmds).InRange) :
    ∃ es t', Run (Owners.step resolve) OwnersOk t es t' ∧
      AsOwners (Script.forEach cmds (take resolve) s).2 t' ∧
      (Script.forEach cmds (take resolve) s).2.living = s.living := by
  induction cmds generalizing s t with
  | nil => exact ⟨[], t, .nil, h, rfl⟩
  | cons c cmds ih =>
    have htakes := hordered.takes
    obtain ⟨hreferences, hlinks⟩ := takenHoldings_nonneg fun d hd =>
      htakes d (List.mem_cons_of_mem c hd)
    rw [takenHoldings_cons, ← add_assoc] at hr
    have hok : OwnersOk t (.client .widget c) :=
      ⟨h.mayRun hordered, hr.of_add hreferences hlinks, hplain c List.mem_cons_self⟩
    rcases forEach_take_cons resolve c cmds s with ⟨world, hrun, hloop⟩ | ⟨world, hrun, hloop⟩
    · have hstep := step_client_error .widget
        (by rw [h.world, hrun] : (t.world.run resolve c).1 = .error)
      rw [hloop]
      refine ⟨_, _, .single hok hstep, ⟨?_, h.living, h.log, h.takes⟩, rfl⟩
      rw [h.world, hrun]
    · let s₁ : Widgets κ ν := { s with world, taken := c :: s.taken }
      have hstep := Owners.step_client_ok (k := Taker.widget)
        (by rw [h.world, hrun] : (t.world.run resolve c).1 = .ok)
      have hnext : AsOwners s₁ { t with
          world := (t.world.run resolve c).2, log := (.widget, c) :: t.log } := by
        refine ⟨by rw [h.world, hrun], h.living, h.log.cons _, ?_⟩
        intro d hd
        rcases List.mem_cons.mp hd with heq | hd
        · rw [heq]
          exact htakes c List.mem_cons_self
        · exact h.takes d hd
      have hordered₁ : Ordered s₁.taken cmds := by
        cases c with
        | epicschannel n => exact hordered
        | link n u => exact hordered.2
        | _ => exact hordered.elim
      have hsum : s₁.holdings = s.holdings + c.effect := by
        simp only [Widgets.holdings, held, s₁, owners, List.map_cons, List.sum_cons]
        abel
      obtain ⟨es, t', hes, ht', hliving⟩ := ih hnext hordered₁
        (fun d hd => hplain d (List.mem_cons_of_mem c hd))
        (by rwa [hnext.holdings, hsum, ← h.holdings])
      rw [hloop]
      exact ⟨_, t', (Run.single hok hstep).trans hes, ht', hliving⟩

omit [DecidableEq κ] [DecidableEq ν] [CTCLObjectProcessor] [ChannelAccess] in
theorem component_spec {w : ChannelWidget} {o : ChannelOwner} (h : w.component = some o) :
    w.channels = o.channels ∧ w.holdings = o.holdings ∧ w.commands = o.constructor := by
  refine ⟨?_, by rw [ChannelWidget.holdings, h], by rw [ChannelWidget.commands, h]⟩
  cases w with
  | owner o' => cases h; rfl
  | epicsMeter channel => cases h; rfl
  | epicsSpinbox channel => cases h; rfl
  | _ => cases h

omit [DecidableEq κ] [DecidableEq ν] [CTCLObjectProcessor] [ChannelAccess] in
theorem commands_of_none {w : ChannelWidget} (h : w.component = none) :
    w.commands = w.constructor := by
  rw [ChannelWidget.commands, h]

omit [DecidableEq κ] [DecidableEq ν] [CTCLObjectProcessor] [ChannelAccess] in
theorem holdings_of_none {w : ChannelWidget} (h : w.component = none) :
    w.holdings = takenHoldings w.constructor := by
  rw [ChannelWidget.holdings, h]
  rfl

/-- The constructor of a widget that gives nothing back, as far as it comes. -/
theorem follow_constructor (resolve : String → ν) (h : AsOwners s t) {w : ChannelWidget}
    (hw : w.component = none) (hplain : ∀ c ∈ w.constructor, c.PlainCreation)
    (hr : (s.holdings + w.holdings).InRange) (reached : Nat) :
    ∃ es t', Run (Owners.step resolve) OwnersOk t es t' ∧
      AsOwners (Script.forEach (w.constructor.take reached) (take resolve) s).2 t' ∧
      (Script.forEach (w.constructor.take reached) (take resolve) s).2.living = s.living := by
  have hordered := constructor_ordered w
  have hrest : ∀ c ∈ w.constructor.drop reached, c.Takes := fun c hc =>
    hordered.takes c (List.mem_of_mem_drop hc)
  obtain ⟨hreferences, hlinks⟩ := takenHoldings_nonneg hrest
  have hsplit : takenHoldings w.constructor = takenHoldings (w.constructor.take reached) +
      takenHoldings (w.constructor.drop reached) := by
    rw [takenHoldings, takenHoldings, takenHoldings, ← List.sum_append, ← List.map_append,
      List.take_append_drop]
  refine follow_takes _ h ((hordered.take reached).mono (by simp))
    (fun c hc => hplain c (List.mem_of_mem_take hc)) ?_
  rw [holdings_of_none hw, hsplit, ← add_assoc] at hr
  rw [h.holdings]
  exact hr.of_add hreferences hlinks

omit [DecidableEq κ] in
theorem step_environment {a : Command.Action} (hstep : s.step resolve (.environment a) = some s') :
    ∃ world, s.world.step resolve a = some world ∧ s' = { s with world } := by
  have hworld : (s.world.step resolve a).map (fun world => { s with world }) = some s' := by
    cases a with
    | command c => cases hstep
    | _ => exact hstep
  obtain ⟨world, htaken, heq⟩ := Option.map_eq_some_iff.mp hworld
  exact ⟨world, htaken, heq.symm⟩

/-- A construction takes what the object takes, or the widget by itself. -/
theorem asOwners_construct {w : ChannelWidget} (h : AsOwners s t) (hr : s.InRange (.construct w))
    (hplain : ∀ c ∈ w.commands, c.PlainCreation)
    (hstep : s.step resolve (.construct w) = some s') :
    ∃ es t', Run (Owners.step resolve) OwnersOk t es t' ∧ AsOwners s' t' := by
  rw [step] at hstep
  split at hstep
  · cases hstep
  next hnamed =>
  split at hstep
  · next o ho =>
    obtain ⟨hchannels, hholdings, hcommands⟩ := component_spec ho
    split at hstep
    · next world hrun =>
      cases hstep
      refine ⟨[.construct o], { t with world, living := o :: t.living }, .single ?_ ?_, ?_⟩
      · rw [hcommands] at hplain
        refine ⟨trivial, ?_, hplain⟩
        show (t.holdings + o.holdings).InRange
        rw [h.holdings, ← hholdings]
        exact hr
      · rw [Owners.step, if_neg (hchannels ▸ hnamed), h.world, hrun]
      · refine ⟨rfl, ?_, h.log, h.takes⟩
        simpa [owners, ho] using h.living.cons o
    · cases hstep
  · next hnone =>
    rw [commands_of_none hnone] at hplain
    have hfollow := follow_constructor resolve h hnone hplain hr w.constructor.length
    rw [List.take_length] at hfollow
    obtain ⟨es, t', hes, ht', hliving⟩ := hfollow
    split at hstep
    · next s₁ hrun =>
      cases hstep
      rw [hrun] at ht' hliving
      refine ⟨es, t', hes, ht'.world, ?_, ht'.log, ht'.takes⟩
      simpa [owners, hnone] using ht'.living
    · next s₁ hrun =>
      cases hstep
      rw [hrun] at ht'
      exact ⟨es, t', hes, ht'⟩

/-- A construction that fails has taken the first part of it. -/
theorem asOwners_fail {w : ChannelWidget} {reached : Nat} (h : AsOwners s t)
    (hr : s.InRange (.fail w reached)) (hplain : ∀ c ∈ w.commands, c.PlainCreation)
    (hstep : s.step resolve (.fail w reached) = some s') :
    ∃ es t', Run (Owners.step resolve) OwnersOk t es t' ∧ AsOwners s' t' := by
  rw [step] at hstep
  split at hstep
  · cases hstep
  next hcan =>
  cases hstep
  have hnone : w.component = none := by
    rw [not_or] at hcan
    simpa using hcan.2
  rw [commands_of_none hnone] at hplain
  obtain ⟨es, t', hes, ht', -⟩ := follow_constructor resolve h hnone hplain hr reached
  exact ⟨es, t', hes, ht'⟩

theorem asOwners_destroy {w : ChannelWidget} (h : AsOwners s t)
    (hstep : s.step resolve (.destroy w) = some s') :
    ∃ es t', Run (Owners.step resolve) OwnersOk t es t' ∧ AsOwners s' t' := by
  rw [step] at hstep
  split at hstep
  · next hliving =>
    have hperm := (List.perm_cons_erase hliving).filterMap ChannelWidget.component
    split at hstep
    · next o ho =>
      rw [List.filterMap_cons_some ho] at hperm
      have hmem : o ∈ t.living := (h.living.trans hperm).mem_iff.mpr List.mem_cons_self
      cases hstep
      refine ⟨[.destroy o], _,
        .single ⟨trivial, trivial, trivial⟩ (by rw [Owners.step, if_pos hmem]), ?_⟩
      refine ⟨by rw [h.world], ?_, h.log, h.takes⟩
      exact (List.perm_cons o).mp
        ((List.perm_cons_erase hmem).symm.trans (h.living.trans hperm))
    · next hnone =>
      rw [List.filterMap_cons_none hnone] at hperm
      cases hstep
      exact ⟨[], t, .nil, h.world, h.living.trans hperm, h.log, h.takes⟩
  · cases hstep

theorem asOwners_client {k : κ} {c : TclCommand} (h : AsOwners s t)
    (hbalanced : s.Balanced (.client k c)) (hr : s.InRange (.client k c)) (hplain : c.PlainCreation)
    (hstep : s.step resolve (.client k c) = some s') :
    ∃ es t', Run (Owners.step resolve) OwnersOk t es t' ∧ AsOwners s' t' := by
  have hok : OwnersOk t (.client (.client k) c) := by
    refine ⟨h.mayRun_client hbalanced, ?_, hplain⟩
    show (t.holdings + c.effect).InRange
    rw [h.holdings]
    exact hr
  rw [step] at hstep
  cases hrun : s.world.run resolve c with
  | mk code world =>
  rw [hrun] at hstep
  cases code with
  | ok =>
    cases hstep
    have htaken := Owners.step_client_ok (k := Taker.client k)
      (by rw [h.world, hrun] : (t.world.run resolve c).1 = .ok)
    refine ⟨_, _, .single hok htaken, by rw [h.world, hrun], h.living, ?_, h.takes⟩
    exact (h.log.cons _).trans List.perm_middle.symm
  | error =>
    cases hstep
    have htaken := step_client_error (.client k)
      (by rw [h.world, hrun] : (t.world.run resolve c).1 = .error)
    exact ⟨_, _, .single hok htaken, by rw [h.world, hrun], h.living, h.log, h.takes⟩

theorem asOwners_environment {a : Command.Action} (h : AsOwners s t)
    (hstep : s.step resolve (.environment a) = some s') :
    ∃ es t', Run (Owners.step resolve) OwnersOk t es t' ∧ AsOwners s' t' := by
  have howners : t.step resolve (.environment a) =
      (t.world.step resolve a).map fun world => { t with world } := by
    cases a with
    | command c => cases hstep
    | _ => rfl
  obtain ⟨world, htaken, rfl⟩ := step_environment hstep
  refine ⟨[.environment a], { t with world }, .single ⟨trivial, trivial, trivial⟩ ?_, rfl, h.living,
    h.log, h.takes⟩
  rw [howners, h.world, htaken]
  rfl

/-- The other clients balance their commands, no counter overflows, and the
channels have plain names. -/
abbrev WidgetsOk (s : Widgets κ ν) (e : WidgetsEvent κ) : Prop :=
  s.Balanced e ∧ s.InRange e ∧ e.PlainCreation

/-- **Widgets are owners and one more client.** -/
theorem asOwners_follows : Follows (step resolve) WidgetsOk
    (Owners.step resolve) OwnersOk (AsOwners (κ := κ) (ν := ν)) := by
  intro s e s' t h hok hstep
  obtain ⟨hbalanced, hr, hplain⟩ := hok
  cases e with
  | construct w => exact asOwners_construct h hr hplain hstep
  | fail w reached => exact asOwners_fail h hr hplain hstep
  | destroy w => exact asOwners_destroy h hstep
  | client k c => exact asOwners_client h hbalanced hr hplain hstep
  | environment a => exact asOwners_environment h hstep

/-! ## Pinned for ever -/

omit [DecidableEq κ] in
/-- A constructor adds what it runs to what has been taken. -/
theorem forEach_take (resolve : String → ν) (cmds : List TclCommand) (s : Widgets κ ν) :
    (∀ c ∈ s.taken, c ∈ (Script.forEach cmds (take resolve) s).2.taken) ∧
      (Script.forEach cmds (take resolve) s).2.living = s.living ∧
      ((Script.forEach cmds (take resolve) s).1 = .ok ⟨⟩ →
        ∀ c ∈ cmds, c ∈ (Script.forEach cmds (take resolve) s).2.taken) := by
  induction cmds generalizing s with
  | nil => exact ⟨fun c hc => hc, rfl, by simp⟩
  | cons c cmds ih =>
    rcases forEach_take_cons resolve c cmds s with ⟨world, -, hloop⟩ | ⟨world, -, hloop⟩
    · rw [hloop]
      exact ⟨fun d hd => hd, rfl, by simp⟩
    · obtain ⟨hkept, hliving, hall⟩ := ih { s with world, taken := c :: s.taken }
      rw [hloop]
      refine ⟨fun d hd => hkept d (List.mem_cons_of_mem c hd), hliving, ?_⟩
      intro hok d hd
      rcases List.mem_cons.mp hd with heq | hd
      · rw [heq]
        exact hkept c List.mem_cons_self
      · exact hall hok d hd

/-- The constructor of this widget has taken all it takes, if nothing of it
will be given back. -/
def AllTaken (s : Widgets κ ν) (w : ChannelWidget) : Prop :=
  w.component = none → ∀ c ∈ w.constructor, c ∈ s.taken

omit [DecidableEq κ] in
/-- What is taken stays taken, and a new widget has taken what its constructor
says. -/
theorem step_kept {e : WidgetsEvent κ} (hstep : s.step resolve e = some s') :
    (∀ c ∈ s.taken, c ∈ s'.taken) ∧ ∀ w ∈ s'.living, w ∈ s.living ∨ s'.AllTaken w := by
  cases e with
  | construct w =>
    rw [step] at hstep
    split at hstep
    · cases hstep
    split at hstep
    · next o ho =>
      split at hstep <;> cases hstep
      refine ⟨fun c hc => hc, ?_⟩
      intro w' hw'
      rcases List.mem_cons.mp hw' with heq | hw'
      · refine .inr fun hnone => ?_
        rw [heq, ho] at hnone
        cases hnone
      · exact .inl hw'
    · obtain ⟨hkept, hliving, hall⟩ := forEach_take resolve w.constructor s
      split at hstep
      · next s₁ hrun =>
        cases hstep
        rw [hrun] at hkept hliving hall
        refine ⟨hkept, ?_⟩
        intro w' hw'
        rcases List.mem_cons.mp hw' with heq | hw'
        · rw [heq]
          exact .inr fun _ => hall rfl
        · exact .inl (hliving ▸ hw')
      · next s₁ hrun =>
        cases hstep
        rw [hrun] at hkept hliving
        exact ⟨hkept, fun w' hw' => .inl (hliving ▸ hw')⟩
  | fail w reached =>
    rw [step] at hstep
    split at hstep <;> cases hstep
    obtain ⟨hkept, hliving, -⟩ := forEach_take resolve (w.constructor.take reached) s
    exact ⟨hkept, fun w' hw' => .inl (hliving ▸ hw')⟩
  | destroy w =>
    rw [step] at hstep
    split at hstep
    · split at hstep <;> cases hstep <;>
        exact ⟨fun c hc => hc, fun w' hw' => .inl (List.mem_of_mem_erase hw')⟩
    · cases hstep
  | client k c =>
    rw [step] at hstep
    split at hstep <;> cases hstep <;> exact ⟨fun c hc => hc, fun w' hw' => .inl hw'⟩
  | environment a =>
    obtain ⟨world, -, rfl⟩ := step_environment hstep
    exact ⟨fun c hc => hc, fun w' hw' => .inl hw'⟩

omit [DecidableEq ν] [CTCLObjectProcessor] [ChannelAccess] in
/-- The clients among the takers are as fair as they are. -/
theorem AsOwners.fair (h : AsOwners s t) (hf : Owners.Fair t.log) : Owners.Fair s.log where
  deleted := by
    intro k n
    have hle : t.times (.client k) (.delete n) ≤ t.times (.client k) (.epicschannel n) :=
      hf.deleted (.client k) n
    rwa [h.times_client, h.times_client] at hle
  unlinked := by
    intro k n u
    have hle : t.times (.client k) (.unlink n u) ≤ t.times (.client k) (.link n u) :=
      hf.unlinked (.client k) n u
    rwa [h.times_client, h.times_client] at hle
  released := by
    intro k n heq u
    have hall : t.times (.client k) (.delete n) = t.times (.client k) (.epicschannel n) →
        t.times (.client k) (.unlink n u) = t.times (.client k) (.link n u) := fun h =>
      hf.released (.client k) n h u
    simp only [h.times_client] at hall
    exact hall heq

theorem counted_of_run {vars : ν → Option String} {es : List (WidgetsEvent κ)}
    (hrun : Run (step resolve) WidgetsOk { world := World.initial vars } es s) :
    s.held.Sound ∧ Counted resolve (s.held + takenHoldings s.taken) s.world ∧
      ∀ c ∈ s.taken, c.Takes := by
  have hstart : AsOwners { world := World.initial vars }
      ({ world := World.initial vars } : Owners (Taker κ) ν) :=
    ⟨rfl, .refl _, .refl _, by simp⟩
  obtain ⟨es', t, hes', h⟩ := hrun.followed asOwners_follows hstart
  have hinv : Owners.OwnersInv resolve vars t := by
    refine hes'.invariant (Owners.OwnersInv resolve vars) (Owners.ownersInv_initial vars) ?_
    intro t e t' hinv hok hstep
    exact Owners.ownersInv_step hinv hok.1 hok.2.1 hok.2.2 hstep
  refine ⟨?_, ?_, h.takes⟩
  · have hclients := Owners.clientHoldings_sound (h.fair hinv.fair)
    exact (Owners.livingHoldings_sound s.owners).add hclients
  · have hcounted := hinv.counted
    rwa [h.holdings, h.world] at hcounted

/-- **A widget without a destructor pins its channels.** After any run in
which the other clients balance their commands, no counter overflows and all
channels have plain names, the counters are what the living objects with a
destructor and the clients hold, and everything that the constructors of the
other widgets have taken, those that have been destroyed or have failed half-way
among them. So all channels of a widget that has ever been constructed stay
registered and linked. -/
theorem widgets_pin_channels {vars : ν → Option String} {es fs : List (WidgetsEvent κ)}
    {later : Widgets κ ν} (hrun : Run (step resolve) WidgetsOk { world := World.initial vars } es s)
    (hlater : Run (step resolve) WidgetsOk s fs later) :
    (∀ n, (later.world.haveChannel n).map (·.refcount) =
      counter (later.held.references n + later.taken.count (.epicschannel n))) ∧
    (∀ n u, (later.world.linkCount n u).map Int.ofNat =
      counter (later.held.links n u + later.taken.count (.link n u))) ∧
    ∀ w ∈ s.living, w.component = none →
      (∀ n, .epicschannel n ∈ w.constructor → (later.world.haveChannel n).isSome) ∧
      ∀ n u, .link n u ∈ w.constructor → (later.world.linkCount n u).isSome := by
  have hall : ∀ w ∈ s.living, s.AllTaken w := by
    refine hrun.invariant (fun s => ∀ w ∈ s.living, s.AllTaken w) (by simp) ?_
    intro s e s' h _ hstep w hw
    obtain ⟨hkept, hnew⟩ := step_kept hstep
    rcases hnew w hw with hold | hnew
    · exact fun hnone c hc => hkept c (h w hold hnone c hc)
    · exact hnew
  have hkept : ∀ c ∈ s.taken, c ∈ later.taken := by
    refine hlater.invariant (fun t => ∀ c ∈ s.taken, c ∈ t.taken) (fun _ hc => hc) ?_
    intro t e t' h _ hstep c hc
    exact (step_kept hstep).1 c (h c hc)
  obtain ⟨hsound, hcounted, htakes⟩ := counted_of_run (hrun.trans hlater)
  have hreferences := takenHoldings_references htakes
  have hlinks := takenHoldings_links htakes
  refine ⟨fun n => ?_, fun n u => ?_, fun w hw hnone => ⟨fun n hn => ?_, fun n u hn => ?_⟩⟩
  · rw [hcounted.refcount, Holdings.references_add, hreferences]
  · rw [hcounted.linkCount, Holdings.links_add, hlinks]
  · have hpos := List.count_pos_iff.mpr (hkept _ (hall w hw hnone _ hn))
    have hheld := hsound.references n
    rw [hcounted.registered_iff, Holdings.references_add, hreferences]
    omega
  · have hpos := List.count_pos_iff.mpr (hkept _ (hall w hw hnone _ hn))
    have hheld := hsound.links n u
    rw [hcounted.linked_iff, Holdings.links_add, hlinks]
    omega

/-! ## A label and a meter -/

omit [DecidableEq κ] [DecidableEq ν] [CTCLObjectProcessor] [ChannelAccess] in
theorem atMost_taken (cmds : List TclCommand) :
    Owners.AtMost cmds.length (takenHoldings cmds) := by
  have hsum := Owners.AtMost.sum (k := 1) (l := cmds.map TclCommand.effect) ?_
  · rwa [List.length_map, Nat.one_mul] at hsum
  · intro h hh
    obtain ⟨c, -, rfl⟩ := List.mem_map.mp hh
    exact Owners.atMost_effect c

omit [CTCLObjectProcessor] [ChannelAccess] in
theorem constructor_length (w : ChannelWidget) : w.constructor.length ≤ 8 := by
  cases w with
  | epicsButton channel statechannel =>
    simp only [ChannelWidget.constructor]
    split <;> split <;> simp
  | epicsTypeNGo channel =>
    simp only [ChannelWidget.constructor, ChannelWidget.preloaded, ChannelWidget.linked]
    split <;> simp
  | epicsEnumeratedControl channel =>
    simp only [ChannelWidget.constructor, ChannelWidget.preloaded, ChannelWidget.linked]
    split <;> simp
  | _ => simp [ChannelWidget.constructor, ChannelWidget.linked]

omit [DecidableEq κ] [DecidableEq ν] [CTCLObjectProcessor] [ChannelAccess] in
/-- Without other clients, few widgets do not hold much. -/
theorem inRange_of_few (w : ChannelWidget) (hlog : s.log = [])
    (hfew : 4 * s.owners.length + s.taken.length + 8 < 2 ^ 31) :
    (s.holdings + w.holdings).InRange := by
  have howners : Owners.AtMost (4 * s.owners.length) (s.owners.map ChannelOwner.holdings).sum := by
    have hsum := Owners.AtMost.sum (k := 4) (l := s.owners.map ChannelOwner.holdings) ?_
    · rwa [List.length_map] at hsum
    · intro h hh
      obtain ⟨o, -, rfl⟩ := List.mem_map.mp hh
      exact Owners.atMost_holdings o
  have hw : Owners.AtMost 8 w.holdings := by
    cases hcomponent : w.component with
    | some o =>
      rw [(component_spec hcomponent).2.1]
      have ho := Owners.atMost_holdings o
      exact ⟨fun n => (ho.references n).trans (by decide),
        fun n u => (ho.links n u).trans (by decide)⟩
    | none =>
      rw [holdings_of_none hcomponent]
      have hc := atMost_taken w.constructor
      have hlength : (w.constructor.length : Int) ≤ (8 : Nat) :=
        Int.ofNat_le.mpr (constructor_length w)
      exact ⟨fun n => (hc.references n).trans hlength, fun n u => (hc.links n u).trans hlength⟩
  have hholdings : s.holdings =
      (s.owners.map ChannelOwner.holdings).sum + takenHoldings s.taken := by
    rw [Widgets.holdings, held, hlog]
    show _ + 0 + _ = _
    rw [add_zero, takenHoldings]
  have hall := (howners.add (atMost_taken s.taken)).add hw
  rw [hholdings]
  refine ⟨fun n => ?_, fun n u => ?_⟩
  · have hn := hall.references n
    omega
  · have hu := hall.links n u
    omega

end Takers

section

attribute [local instance] CTCLObjectProcessor.global ChannelAccess.numbering

/-- A step of a short run without other clients. -/
def short (s : Widgets Nat String) (e : WidgetsEvent Nat) : Bool :=
  decide (s.log = []) && decide (4 * s.owners.length + s.taken.length + 8 < 2 ^ 31) &&
    decide e.PlainCreation &&
    match e with
    | .client _ _ => false
    | _ => true

theorem widgetsOk_of_short {s : Widgets Nat String} {e : WidgetsEvent Nat}
    (h : short s e = true) : WidgetsOk s e := by
  simp only [short, Bool.and_eq_true, decide_eq_true_eq] at h
  obtain ⟨⟨⟨hlog, hfew⟩, hplain⟩, hclient⟩ := h
  cases e with
  | construct w => exact ⟨trivial, inRange_of_few w hlog hfew, hplain⟩
  | fail w reached => exact ⟨trivial, inRange_of_few w hlog hfew, hplain⟩
  | client k c => cases hclient
  | destroy w => exact ⟨trivial, trivial, trivial⟩
  | environment a => exact ⟨trivial, trivial, trivial⟩

/-- A label and a meter of one channel come and go: the link of the label
stays. -/
theorem label_pins_channel :
    ∃ s : Widgets Nat String, s.living = [] ∧
      (s.world.haveChannel "a").map (·.refcount) = some 1 ∧
      (s.world.linkCount "a" "::controlwidget::a").isSome := by
  have hend : (runChecked (step id) (fun s e => short s e = true)
      { world := World.initial fun _ => none } [.construct (.epicsLabel "a")]).bind (fun s =>
        (runChecked (step id) (fun s e => short s e = true) s
          [.construct (.epicsMeter "a"), .destroy (.epicsLabel "a"),
            .destroy (.epicsMeter "a")]).map
          fun t => (s.living, t.living, t.log, t.taken.count (.epicschannel "a"))) =
      some ([.epicsLabel "a"], [], ([] : List (Nat × TclCommand)), 1) := by
    decide +kernel
  obtain ⟨s, hs, hend⟩ := Option.bind_eq_some_iff.mp hend
  obtain ⟨t, ht, hfacts⟩ := Option.map_eq_some_iff.mp hend
  simp only [Prod.mk.injEq] at hfacts
  obtain ⟨hliving, hgone, hlog, htaken⟩ := hfacts
  have hpinned := widgets_pin_channels ((run_of_runChecked _ hs).mono fun _ _ => widgetsOk_of_short)
    ((run_of_runChecked _ ht).mono fun _ _ => widgetsOk_of_short)
  have hheld : t.held = 0 := by
    rw [held, owners, hgone, hlog]
    rfl
  refine ⟨t, hgone, ?_, ?_⟩
  · rw [hpinned.1, hheld, htaken]
    rfl
  · exact (hpinned.2.2 (.epicsLabel "a") (by simp [hliving]) rfl).2 "a" _ (by decide)

end

end Widgets

end EpicsTcl.Widget
