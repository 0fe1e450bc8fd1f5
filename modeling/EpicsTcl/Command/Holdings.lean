/-
EpicsTcl.Command.Holdings — what the users of the package hold together,
and what the counters say.

A user takes a reference to a channel with `epicschannel` and gives it back
with `delete`; it takes and gives back links of a variable with `link` and
`unlink`. `Holdings` is a table of both, and each command adds its `effect`
to it. Holdings are `Sound` if nothing in them is negative and there are
links only where there is a reference. Sound holdings can be added up
(`Sound.add`): if a sum has no reference, no part of it has one.

`Counted h w` says that the counters of the process `w` are the holdings
`h`. `Counted.run` is the rule for commands: a command that succeeds and
leaves the sum sound and in the range of the counters keeps the two
together, and a command that fails changes neither. So nobody can lose a
channel that is in the sum, whoever gives back what.
-/
import EpicsTcl.Command.LinkTheorems
import EpicsTcl.Command.RegistryTheorems
import EpicsTcl.Library.Moves
import Mathlib.Algebra.Group.Pi.Basic
import Mathlib.Algebra.Group.Prod
import Mathlib.Algebra.Order.Ring.Int

namespace EpicsTcl.Command

open EpicsTcl.Channel EpicsTcl.Library

/-! ## Holdings -/

/-- References to channels, and links of variables to channels. -/
abbrev Holdings := (String → Int) × (String → String → Int)

namespace Holdings

/-- The references to a channel. -/
def references (h : Holdings) (name : String) : Int := h.1 name

/-- The links of a variable to a channel. -/
def links (h : Holdings) (name varname : String) : Int := h.2 name varname

@[simp] theorem references_zero (n : String) : references 0 n = 0 := rfl

@[simp] theorem links_zero (n u : String) : links 0 n u = 0 := rfl

@[simp] theorem references_add (h h' : Holdings) (n : String) :
    (h + h').references n = h.references n + h'.references n := rfl

@[simp] theorem links_add (h h' : Holdings) (n u : String) :
    (h + h').links n u = h.links n u + h'.links n u := rfl

/-- Nothing is owed, and who links to a channel has a reference to it. -/
structure Sound (h : Holdings) : Prop where
  references : ∀ n, 0 ≤ h.references n
  links : ∀ n u, 0 ≤ h.links n u
  held : ∀ n, h.references n = 0 → ∀ u, h.links n u = 0

/-- The counters can hold the numbers: `s_refcount` is an `int`, and
`m_referenceCount` an `unsigned int`. -/
structure InRange (h : Holdings) : Prop where
  references : ∀ n, h.references n < 2 ^ 31
  links : ∀ n u, h.links n u < 2 ^ 32

variable {h h' : Holdings}

theorem Sound.zero : Sound 0 where
  references := fun _ => Int.le_refl 0
  links := fun _ _ => Int.le_refl 0
  held := fun _ _ _ => rfl

/-- Where a sum has no reference, neither part has one. -/
theorem Sound.add (hs : h.Sound) (hs' : h'.Sound) : (h + h').Sound where
  references := fun n => Int.add_nonneg (hs.references n) (hs'.references n)
  links := fun n u => Int.add_nonneg (hs.links n u) (hs'.links n u)
  held := by
    intro n hzero u
    have hn := hs.references n
    have hn' := hs'.references n
    rw [references_add] at hzero
    rw [links_add, hs.held n (by omega) u, hs'.held n (by omega) u, Int.add_zero]

theorem Sound.sum {l : List Holdings} (hs : ∀ h ∈ l, h.Sound) : l.sum.Sound := by
  induction l with
  | nil => exact .zero
  | cons h l ih =>
    rw [List.sum_cons]
    exact (hs h List.mem_cons_self).add (ih fun h' hh' => hs h' (List.mem_cons_of_mem h hh'))

theorem references_sum (l : List Holdings) (n : String) :
    l.sum.references n = (l.map (·.references n)).sum := by
  induction l with
  | nil => rfl
  | cons h l ih => rw [List.sum_cons, references_add, ih, List.map_cons, List.sum_cons]

theorem links_sum (l : List Holdings) (n u : String) :
    l.sum.links n u = (l.map (·.links n u)).sum := by
  induction l with
  | nil => rfl
  | cons h l ih => rw [List.sum_cons, links_add, ih, List.map_cons, List.sum_cons]

/-- A part is in range if the sum with something that is not owed is. -/
theorem InRange.of_add (hr : (h + h').InRange) (hreferences : ∀ n, 0 ≤ h'.references n)
    (hlinks : ∀ n u, 0 ≤ h'.links n u) : h.InRange where
  references := by
    intro n
    have hn := hr.references n
    have hn' := hreferences n
    rw [references_add] at hn
    omega
  links := by
    intro n u
    have hu := hr.links n u
    have hu' := hlinks n u
    rw [links_add] at hu
    omega

end Holdings

open Holdings

namespace TclCommand

/-- What a successful command adds to the holdings of its caller. -/
def effect : TclCommand → Holdings
  | .epicschannel name => (fun n => if n = name then 1 else 0, 0)
  | .delete name => (fun n => if n = name then -1 else 0, 0)
  | .link name varname => (0, fun n u => if n = name ∧ u = varname then 1 else 0)
  | .unlink name varname => (0, fun n u => if n = name ∧ u = varname then -1 else 0)
  | .listlinks _ => 0

@[simp] theorem references_epicschannel (name n : String) :
    (effect (.epicschannel name)).references n = if n = name then 1 else 0 := rfl

@[simp] theorem references_delete (name n : String) :
    (effect (.delete name)).references n = if n = name then -1 else 0 := rfl

@[simp] theorem references_link (name varname n : String) :
    (effect (.link name varname)).references n = 0 := rfl

@[simp] theorem references_unlink (name varname n : String) :
    (effect (.unlink name varname)).references n = 0 := rfl

@[simp] theorem links_epicschannel (name n u : String) :
    (effect (.epicschannel name)).links n u = 0 := rfl

@[simp] theorem links_delete (name n u : String) :
    (effect (.delete name)).links n u = 0 := rfl

@[simp] theorem links_link (name varname n u : String) :
    (effect (.link name varname)).links n u = if n = name ∧ u = varname then 1 else 0 := rfl

@[simp] theorem links_unlink (name varname n u : String) :
    (effect (.unlink name varname)).links n u = if n = name ∧ u = varname then -1 else 0 := rfl

@[simp] theorem effect_listlinks (name : String) : effect (.listlinks name) = 0 := rfl

/-- The command that takes an effect back. -/
def undo : TclCommand → TclCommand
  | .epicschannel name => .delete name
  | .delete name => .epicschannel name
  | .link name varname => .unlink name varname
  | .unlink name varname => .link name varname
  | .listlinks name => .listlinks name

theorem effect_undo (c : TclCommand) : c.undo.effect = -c.effect := by
  refine Prod.ext (funext fun n => ?_) (funext fun n => funext fun u => ?_)
  · show c.undo.effect.references n = -c.effect.references n
    cases c <;> simp [undo] <;> split <;> rfl
  · show c.undo.effect.links n u = -c.effect.links n u
    cases c <;> simp [undo] <;> split <;> rfl

/-- The commands that take something. -/
def Takes : TclCommand → Prop
  | .epicschannel _ | .link _ _ => True
  | _ => False

/-- The commands that give something back. -/
def Gives : TclCommand → Prop
  | .delete _ | .unlink _ _ => True
  | _ => False

theorem Takes.references {c : TclCommand} (h : c.Takes) (n : String) :
    0 ≤ c.effect.references n := by
  cases c with
  | epicschannel name =>
    rw [references_epicschannel]
    split <;> decide
  | link name varname => exact Int.le_refl 0
  | _ => exact h.elim

theorem Takes.links {c : TclCommand} (h : c.Takes) (n u : String) : 0 ≤ c.effect.links n u := by
  cases c with
  | epicschannel name => exact Int.le_refl 0
  | link name varname =>
    rw [links_link]
    split <;> decide
  | _ => exact h.elim

end TclCommand

theorem Holdings.Sound.epicschannel {h : Holdings} (hs : h.Sound) (name : String) :
    (h + TclCommand.effect (.epicschannel name)).Sound where
  references := by
    intro n
    have hn := hs.references n
    rw [references_add, TclCommand.references_epicschannel]
    split <;> omega
  links := by
    intro n u
    simpa using hs.links n u
  held := by
    intro n hzero u
    have hn := hs.references n
    rw [references_add, TclCommand.references_epicschannel] at hzero
    rw [links_add, TclCommand.links_epicschannel, hs.held n (by split at hzero <;> omega) u]
    rfl

theorem Holdings.Sound.link {h : Holdings} (hs : h.Sound) {name : String}
    (hname : 0 < h.references name) (varname : String) :
    (h + TclCommand.effect (.link name varname)).Sound where
  references := by
    intro n
    simpa using hs.references n
  links := by
    intro n u
    have hu := hs.links n u
    rw [links_add, TclCommand.links_link]
    split <;> omega
  held := by
    intro n hzero u
    rw [references_add, TclCommand.references_link, Int.add_zero] at hzero
    have hne : n ≠ name := by
      rintro rfl
      omega
    simpa [hne] using hs.held n hzero u

theorem Holdings.InRange.of_takes {h : Holdings} {c : TclCommand} (hr : (h + c.effect).InRange)
    (hc : c.Takes) : h.InRange :=
  hr.of_add hc.references hc.links

/-- Holdings that the counters can show. -/
def Holdings.Admissible (h : Holdings) : Prop := h.Sound ∧ h.InRange

/-- From the holdings `h` the commands lead to `h'`. -/
abbrev HoldingsPath : Holdings → List TclCommand → Holdings → Prop :=
  Path TclCommand.effect Holdings.Admissible

/-! ## The counters of the process -/

/-- A counter that exists only while it is not zero. -/
def counter (k : Int) : Option Int := if k = 0 then none else some k

variable {ν : Type*} [CTCLObjectProcessor] [ChannelAccess] {resolve : String → ν}

/-- The counters of the process are the holdings, and all names are plain. -/
structure Counted [CTCLObjectProcessor] (resolve : String → ν) (h : Holdings) (w : World ν) :
    Prop where
  inv : WorldInv resolve w
  names : w.PlainNames
  sound : h.Sound
  refcount : ∀ n, (w.haveChannel n).map (·.refcount) = counter (h.references n)
  linkCount : ∀ n u, (w.linkCount n u).map Int.ofNat = counter (h.links n u)

namespace Counted

variable {h h' : Holdings} {w w' : World ν}

omit [ChannelAccess] in
theorem initial (vars : ν → Option String) : Counted resolve 0 (World.initial vars) where
  inv := WorldInv.initial vars
  names := fun n hn => by cases hn
  sound := .zero
  refcount := fun _ => rfl
  linkCount := fun _ _ => rfl

omit [CTCLObjectProcessor] [ChannelAccess] in
theorem of_some {o : Option α} {f : α → Int} {k : Int} {a : α} (h : o.map f = counter k)
    (ha : o = some a) : f a = k ∧ k ≠ 0 := by
  subst ha
  unfold counter at h
  split at h
  · cases h
  · next hk => exact ⟨Option.some.inj h, hk⟩

omit [CTCLObjectProcessor] [ChannelAccess] in
theorem of_none {o : Option α} {f : α → Int} {k : Int} (h : o.map f = counter k)
    (hnone : o = none) : k = 0 := by
  subst hnone
  unfold counter at h
  split at h
  · assumption
  · cases h

omit [CTCLObjectProcessor] [ChannelAccess] in
theorem isSome_iff {o : Option α} {f : α → Int} {k : Int} (h : o.map f = counter k) :
    o.isSome ↔ k ≠ 0 := by
  cases ho : o with
  | none => simp [of_none h ho]
  | some a => simp [(of_some h ho).2]

omit [ChannelAccess] in
theorem registered_iff (hc : Counted resolve h w) {n : String} :
    (w.haveChannel n).isSome ↔ h.references n ≠ 0 :=
  isSome_iff (hc.refcount n)

omit [ChannelAccess] in
theorem linked_iff (hc : Counted resolve h w) {n u : String} :
    (w.linkCount n u).isSome ↔ h.links n u ≠ 0 :=
  isSome_iff (hc.linkCount n u)

omit [ChannelAccess] in
/-- What leaves the counters alone. -/
theorem congr (hc : Counted resolve h w) (inv : WorldInv resolve w')
    (hreg : ∀ n, w'.haveChannel n = w.haveChannel n)
    (htable : ∀ n u, w'.linkCount n u = w.linkCount n u) : Counted resolve h w' where
  inv := inv
  names := fun n hn => hc.names n (by rwa [hreg] at hn)
  sound := hc.sound
  refcount := fun n => by rw [hreg]; exact hc.refcount n
  linkCount := fun n u => by rw [htable]; exact hc.linkCount n u

/-! ## One command -/

variable [DecidableEq ν]

theorem epicschannel (hc : Counted resolve h w) {name : String} (hplain : Plain name)
    (hs : (h + TclCommand.effect (.epicschannel name)).Sound)
    (hr : (h + TclCommand.effect (.epicschannel name)).InRange) :
    Counted resolve (h + TclCommand.effect (.epicschannel name))
      (w.run resolve (.epicschannel name)).2 where
  inv := hc.inv.run _
  names := hc.inv.plainNames_run hc.names hplain
  sound := hs
  refcount := by
    intro n
    rw [World.run_epicschannel_haveChannel, references_add, TclCommand.references_epicschannel]
    by_cases hn : n = name
    · subst hn
      have hpos := hs.references n
      have hlt := hr.references n
      rw [references_add, TclCommand.references_epicschannel, if_pos rfl] at hpos hlt
      rw [if_pos rfl, if_pos rfl, Option.map_some]
      cases hname : w.haveChannel n with
      | none => rw [of_none (hc.refcount n) hname]; rfl
      | some info =>
        obtain ⟨heq, hne⟩ := of_some (hc.refcount n) hname
        have hold := hc.sound.references n
        show some (wrapInt (info.refcount + 1)) = counter (h.references n + 1)
        rw [heq, wrapInt_of_lt hpos hlt, counter, if_neg (by omega)]
    · rw [if_neg hn, if_neg hn, Int.add_zero]
      exact hc.refcount n
  linkCount := by
    intro n u
    rw [hc.inv.run_epicschannel_linkCount, links_add, TclCommand.links_epicschannel, Int.add_zero]
    exact hc.linkCount n u

theorem delete (hc : Counted resolve h w) {name : String}
    (hs : (h + TclCommand.effect (.delete name)).Sound)
    (hr : (h + TclCommand.effect (.delete name)).InRange) :
    Counted resolve (h + TclCommand.effect (.delete name)) (w.run resolve (.delete name)).2 := by
  have hpos := hs.references name
  have hlt := hr.references name
  rw [references_add, TclCommand.references_delete, if_pos rfl] at hpos hlt
  have hwrap : wrapInt (h.references name - 1) = h.references name - 1 := wrapInt_of_lt hpos hlt
  obtain ⟨info, hinfo⟩ := Option.isSome_iff_exists.mp
    (hc.registered_iff.mpr (by omega : h.references name ≠ 0))
  obtain ⟨heq, -⟩ := of_some (hc.refcount name) hinfo
  constructor
  case inv => exact hc.inv.run _
  case names => exact hc.inv.plainNames_run hc.names trivial
  case sound => exact hs
  case refcount =>
    intro n
    rw [World.run_delete_haveChannel resolve hc.names, references_add,
      TclCommand.references_delete]
    by_cases hn : n = name
    · subst hn
      rw [if_pos rfl, if_pos rfl, hinfo, Option.bind_some, heq, hwrap]
      by_cases hlast : h.references n - 1 = 0
      · rw [if_pos hlast]
        exact (if_pos hlast).symm
      · rw [if_neg hlast]
        exact (if_neg hlast).symm
    · rw [if_neg hn, if_neg hn, Int.add_zero]
      exact hc.refcount n
  case linkCount =>
    intro n u
    rw [links_add, TclCommand.links_delete, Int.add_zero]
    have hcases := hc.inv.deleteChannel_linkCount name
    rw [← World.run_delete resolve hc.names] at hcases
    rcases hcases with ⟨-, hsame⟩ | ⟨⟨info', hinfo', hlast⟩, -, hcount⟩
    · rw [hsame]
      exact hc.linkCount n u
    · rw [hinfo] at hinfo'
      obtain rfl := Option.some.inj hinfo'
      rw [heq, hwrap] at hlast
      -- The last reference: the row that is dropped is empty already.
      rw [hcount]
      by_cases hn : n = name
      · subst hn
        have hempty := hs.held n
        simp only [references_add, TclCommand.references_delete, if_pos, links_add,
          TclCommand.links_delete, Int.add_zero] at hempty
        rw [if_pos rfl, hempty hlast u]
        rfl
      · rw [if_neg hn]
        exact hc.linkCount n u

/-- Linking, unlinking and listing keep the reference counts. -/
theorem refcount_of_quiet (hc : Counted resolve h w) {cmd : TclCommand}
    (hnew : ∀ name, cmd ≠ .epicschannel name) (hdelete : ∀ name, cmd ≠ .delete name) (n : String) :
    ((w.run resolve cmd).2.haveChannel n).map (·.refcount) = counter (h.references n) := by
  rw [(hc.inv.run_quiet cmd hnew hdelete).haveChannel]
  exact hc.refcount n

theorem link_error (hc : Counted resolve h w) {name varname : String}
    (herr : (w.run resolve (.link name varname)).1 = .error) :
    Counted resolve h (w.run resolve (.link name varname)).2 := by
  rcases hc.inv.run_link_cases name varname with ⟨-, -, hsame⟩ | ⟨hok, -⟩
  · refine hc.congr (hc.inv.run _) (fun n => ?_) hsame
    exact (hc.inv.run_quiet (.link name varname) (by simp) (by simp)).haveChannel n
  · rw [herr] at hok
    cases hok

theorem link (hc : Counted resolve h w) {name varname : String}
    (hs : (h + TclCommand.effect (.link name varname)).Sound)
    (hr : (h + TclCommand.effect (.link name varname)).InRange)
    (hok : (w.run resolve (.link name varname)).1 = .ok) :
    Counted resolve (h + TclCommand.effect (.link name varname))
      (w.run resolve (.link name varname)).2 := by
  rcases hc.inv.run_link_cases name varname with ⟨herr, -⟩ | ⟨-, -, -, hcount⟩
  · rw [hok] at herr
    cases herr
  constructor
  case inv => exact hc.inv.run _
  case names => exact hc.inv.plainNames_run hc.names trivial
  case sound => exact hs
  case refcount =>
    intro n
    rw [references_add, TclCommand.references_link, Int.add_zero]
    exact hc.refcount_of_quiet (by simp) (by simp) n
  case linkCount =>
    intro n u
    rw [hcount, links_add, TclCommand.links_link]
    by_cases heq : n = name ∧ u = varname
    · obtain ⟨rfl, rfl⟩ := heq
      have hold := hc.sound.links n u
      have hlt := hr.links n u
      have hentry : ((w.linkCount n u).getD 0 : Int) = h.links n u := by
        cases hk : w.linkCount n u with
        | none => exact (of_none (hc.linkCount n u) hk).symm
        | some k => exact (of_some (hc.linkCount n u) hk).1
      rw [links_add, TclCommand.links_link, if_pos ⟨rfl, rfl⟩] at hlt
      rw [if_pos ⟨rfl, rfl⟩, if_pos ⟨rfl, rfl⟩, countLinked_eq (by omega), Option.map_some,
        counter, if_neg (by omega), ← hentry]
      rfl
    · rw [if_neg heq, if_neg heq, Int.add_zero]
      exact hc.linkCount n u

/-- A link is possible unless the variable is linked elsewhere. -/
theorem link_ok_iff (hc : Counted resolve h w) {name varname : String}
    (hname : h.references name ≠ 0) :
    (w.run resolve (.link name varname)).1 = .ok ↔ ∀ n, n ≠ name → h.links n varname = 0 := by
  rcases hc.inv.run_link_cases name varname with ⟨herr, hblocked, -⟩ | ⟨hok, -, hfree, -⟩
  · obtain ⟨n, hn, hsome⟩ := hblocked (hc.registered_iff.mpr hname)
    constructor
    · intro hok
      rw [herr] at hok
      cases hok
    · intro hfree
      exact absurd (hfree n hn) (hc.linked_iff.mp hsome)
  · refine ⟨fun _ n hn => ?_, fun _ => hok⟩
    exact of_none (hc.linkCount n varname) (hfree n hn)

theorem unlink (hc : Counted resolve h w) {name varname : String}
    (hs : (h + TclCommand.effect (.unlink name varname)).Sound) :
    (w.run resolve (.unlink name varname)).1 = .ok ∧
      Counted resolve (h + TclCommand.effect (.unlink name varname))
        (w.run resolve (.unlink name varname)).2 := by
  have hpos := hs.links name varname
  rw [links_add, TclCommand.links_unlink, if_pos ⟨rfl, rfl⟩] at hpos
  rcases hc.inv.run_unlink_cases name varname with ⟨-, hnone, -⟩ | ⟨hok, k, hk, hcount⟩
  · have hzero := of_none (hc.linkCount name varname) hnone
    omega
  refine ⟨hok, ?_⟩
  constructor
  case inv => exact hc.inv.run _
  case names => exact hc.inv.plainNames_run hc.names trivial
  case sound => exact hs
  case refcount =>
    intro n
    rw [references_add, TclCommand.references_unlink, Int.add_zero]
    exact hc.refcount_of_quiet (by simp) (by simp) n
  case linkCount =>
    intro n u
    rw [hcount, links_add, TclCommand.links_unlink]
    by_cases heq : n = name ∧ u = varname
    · obtain ⟨rfl, rfl⟩ := heq
      obtain ⟨hlinks, -⟩ := of_some (hc.linkCount n u) hk
      have hlinks : (k : Int) = h.links n u := hlinks
      rw [if_pos ⟨rfl, rfl⟩, if_pos ⟨rfl, rfl⟩, countUnlinked_eq (by omega), ← hlinks, counter]
      by_cases hone : k = 1
      · subst hone
        rfl
      · rw [if_neg hone, if_neg (by omega), Option.map_some]
        exact congrArg some (by simp only [Int.ofNat_eq_natCast]; omega)
    · rw [if_neg heq, if_neg heq, Int.add_zero]
      exact hc.linkCount n u

theorem listlinks (hc : Counted resolve h w) (name : String) :
    Counted resolve h (w.run resolve (.listlinks name)).2 := by
  refine hc.congr (hc.inv.run _) (fun n => ?_) fun n u => ?_
  · exact (hc.inv.run_quiet (.listlinks name) (by simp) (by simp)).haveChannel n
  · have hstep : w.step resolve (.command (.listlinks name)) =
        some (w.run resolve (.listlinks name)).2 := rfl
    exact hc.inv.step_linkCount hstep (by simp) (by simp) (by simp) n u

theorem delete_ok (hc : Counted resolve h w) {name : String}
    (hs : (h + TclCommand.effect (.delete name)).Sound) :
    (w.run resolve (.delete name)).1 = .ok := by
  have hpos := hs.references name
  rw [references_add, TclCommand.references_delete, if_pos rfl] at hpos
  obtain ⟨info, hinfo⟩ := Option.isSome_iff_exists.mp
    (hc.registered_iff.mpr (by omega : h.references name ≠ 0))
  rw [World.run, World.onChannel_registered hinfo]

/-- **Commands keep the counters right.** -/
theorem run (hc : Counted resolve h w) {cmd : TclCommand} (hplain : cmd.PlainCreation)
    (hs : (h + cmd.effect).Sound) (hr : (h + cmd.effect).InRange) :
    ((w.run resolve cmd).1 = .ok ∧ Counted resolve (h + cmd.effect) (w.run resolve cmd).2) ∨
      ((w.run resolve cmd).1 = .error ∧ Counted resolve h (w.run resolve cmd).2) := by
  cases cmd with
  | epicschannel name => exact .inl ⟨rfl, hc.epicschannel hplain hs hr⟩
  | delete name => exact .inl ⟨hc.delete_ok hs, hc.delete hs hr⟩
  | unlink name varname => exact .inl (hc.unlink hs)
  | link name varname =>
    cases hcode : (w.run resolve (.link name varname)).1 with
    | ok => exact .inl ⟨rfl, hc.link hs hr hcode⟩
    | error => exact .inr ⟨rfl, hc.link_error hcode⟩
  | listlinks name =>
    rw [TclCommand.effect_listlinks, add_zero]
    cases (w.run resolve (.listlinks name)).1 with
    | ok => exact .inl ⟨rfl, hc.listlinks name⟩
    | error => exact .inr ⟨rfl, hc.listlinks name⟩

/-- A command that gives something back succeeds. -/
theorem run_gives (hc : Counted resolve h w) {cmd : TclCommand}
    (hgives : cmd.Gives) (hs : (h + cmd.effect).Sound) (hr : (h + cmd.effect).InRange) :
    (w.run resolve cmd).1 = .ok ∧ Counted resolve (h + cmd.effect) (w.run resolve cmd).2 := by
  cases cmd with
  | delete name => exact ⟨hc.delete_ok hs, hc.delete hs hr⟩
  | unlink name varname => exact hc.unlink hs
  | _ => exact hgives.elim

omit [DecidableEq ν] [ChannelAccess] in
/-- Who takes a link needs a reference. -/
theorem referenced_of_link (hc : Counted resolve h w) {n u : String}
    (hs : (h + TclCommand.effect (.link n u)).Sound) : h.references n ≠ 0 := by
  intro hzero
  have hlinks := hs.held n (by rw [references_add, TclCommand.references_link, hzero]; rfl) u
  have hold := hc.sound.links n u
  rw [links_add, TclCommand.links_link, if_pos ⟨rfl, rfl⟩] at hlinks
  omega

/-- A command has its effect unless it links a variable that is linked
elsewhere. -/
theorem run_free (hc : Counted resolve h w) {cmd : TclCommand} (hplain : cmd.PlainCreation)
    (hs : (h + cmd.effect).Sound) (hr : (h + cmd.effect).InRange)
    (hfree : ∀ n u, cmd = .link n u → ∀ m, m ≠ n → h.links m u = 0) :
    Counted resolve (h + cmd.effect) (w.run resolve cmd).2 := by
  cases cmd with
  | epicschannel name => exact hc.epicschannel hplain hs hr
  | delete name => exact hc.delete hs hr
  | unlink name varname => exact (hc.unlink hs).2
  | link name varname =>
    exact hc.link hs hr ((hc.link_ok_iff (hc.referenced_of_link hs)).mpr (hfree _ _ rfl))
  | listlinks name =>
    rw [TclCommand.effect_listlinks, add_zero]
    exact hc.listlinks name

/-- What happens outside the commands leaves the counters alone. -/
theorem environment (hc : Counted resolve h w) {a : Action} (hno : ∀ cmd, a ≠ .command cmd)
    (hstep : w.step resolve a = some w') : Counted resolve h w' := by
  obtain ⟨hinfo, -, -⟩ := hc.inv.step_other (fun _ => hno _) (fun _ => hno _) hstep
  refine hc.congr (hc.inv.step hstep) (fun n => by rw [World.haveChannel, hinfo]; rfl) ?_
  exact hc.inv.step_linkCount hstep (fun _ _ => hno _) (fun _ _ => hno _) fun _ => hno _

end Counted

end EpicsTcl.Command
