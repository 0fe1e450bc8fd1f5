/-
EpicsTcl.Widget.BindDown — `bindDown` (`bindDown.tcl`), which puts a bind tag
on every widget below another one.

A window is its path name and the windows that `winfo children` lists; path
names are unique (`Unique`). The bind tags are a function of the path name.

`lappend` changes its variable and returns the changed list, so the two of
them put the tag on twice: `bindDown_apply` says what `bindDown` does to every
tag list, `binds_once_iff` that once would be right and is right only where
there is nothing to do.
-/
import Mathlib.Data.List.Basic
import Mathlib.Logic.Function.Basic

namespace EpicsTcl.Widget

inductive Window where
  | node (path : String) (children : List Window)

/-- The bind tags of the windows. -/
abbrev BindTags := String → List String

namespace Window

def path : Window → String
  | .node path _ => path

def children : Window → List Window
  | .node _ children => children

mutual

/-- The windows below a window, at any depth. -/
def descendants : Window → List String
  | .node _ children => subtrees children

def subtrees : List Window → List String
  | [] => []
  | widget :: rest => widget.path :: descendants widget ++ subtrees rest

end

/-- No path name is used twice. -/
def Unique (top : Window) : Prop := (top.path :: top.descendants).Nodup

mutual

/-- `bindDown`. -/
def bindDown (tag : String) : Window → BindTags → BindTags
  | .node _ children, tags => bindEach tag children tags

/-- The loop over the children. -/
def bindEach (tag : String) : List Window → BindTags → BindTags
  | [], tags => tags
  | widget :: rest, tags =>
    let wtags := tags widget.path
    -- `lappend wtags $tag`
    let wtags := wtags ++ [tag]
    -- `bindtags $widget [lappend wtags $tag]`
    let wtags := wtags ++ [tag]
    let tags := Function.update tags widget.path wtags
    bindEach tag rest (bindDown tag widget tags)

end

mutual

/-- Two more tags for each time that a path name is met. -/
theorem bindDown_apply (tag : String) (top : Window) (tags : BindTags) (w : String) :
    bindDown tag top tags w = tags w ++ List.replicate (2 * top.descendants.count w) tag := by
  cases top with
  | node path children => exact bindEach_apply tag children tags w

theorem bindEach_apply (tag : String) (l : List Window) (tags : BindTags) (w : String) :
    bindEach tag l tags w = tags w ++ List.replicate (2 * (subtrees l).count w) tag := by
  cases l with
  | nil => simp [bindEach, subtrees]
  | cons widget rest =>
    rw [bindEach, bindEach_apply tag rest, bindDown_apply tag widget, subtrees, List.cons_append,
      List.count_cons, List.count_append]
    by_cases hw : w = widget.path
    · have htwo : tags w ++ [tag] ++ [tag] = tags w ++ List.replicate 2 tag := by simp
      rw [hw, Function.update_self, ← hw, htwo, if_pos (by simp [hw])]
      simp only [List.append_assoc, List.replicate_append_replicate]
      congr 2
      omega
    · rw [Function.update_of_ne hw, if_neg (by simpa using Ne.symm hw)]
      simp only [List.append_assoc, List.replicate_append_replicate]
      congr 2
      omega

end

/-- A descendant gets the tag twice, any other window keeps its tags. -/
theorem bindDown_twice {top : Window} (h : top.Unique) (tag : String) (tags : BindTags)
    (w : String) :
    bindDown tag top tags w = if w ∈ top.descendants then tags w ++ [tag, tag] else tags w := by
  have hunique := (List.nodup_cons.mp h).2
  rw [bindDown_apply, hunique.count]
  split
  · rfl
  · simp

theorem descendants_eq_nil {top : Window} : top.descendants = [] ↔ top.children = [] := by
  cases top with
  | node path children => cases children <;> simp [descendants, subtrees, Window.children]

/-- **The tag is put on once everywhere below the top**, and nowhere else, exactly
if there is no window below it. -/
theorem binds_once_iff {top : Window} (h : top.Unique) (tag : String) (tags : BindTags) :
    ((∀ w ∈ top.descendants, bindDown tag top tags w = tags w ++ [tag]) ∧
      ∀ w, w ∉ top.descendants → bindDown tag top tags w = tags w) ↔ top.children = [] := by
  rw [← descendants_eq_nil]
  constructor
  · rintro ⟨hbelow, -⟩
    refine List.eq_nil_iff_forall_not_mem.mpr fun w hw => ?_
    have htwice := bindDown_twice h tag tags w
    rw [if_pos hw, hbelow w hw] at htwice
    exact absurd (List.append_cancel_left htwice) (by simp)
  · intro hnone
    refine ⟨fun w hw => ?_, fun w hw => ?_⟩
    · rw [hnone] at hw
      cases hw
    · rw [bindDown_twice h, if_neg hw]

/-- A frame with a button in it. -/
def framed : Window := .node ".f" [.node ".f.b" []]

theorem framed_unique : framed.Unique := by
  unfold Unique
  decide

theorem binds_once_framed :
    ¬ ((∀ w ∈ framed.descendants, bindDown "new" framed (fun _ => ["all"]) w = ["all"] ++ ["new"]) ∧
      ∀ w, w ∉ framed.descendants → bindDown "new" framed (fun _ => ["all"]) w = ["all"]) := by
  intro honce
  cases (binds_once_iff framed_unique "new" fun _ => ["all"]).mp honce

/-- The button gets the tag twice. -/
theorem binds_twice :
    ¬ ∀ (top : Window) (tag : String) (tags : BindTags), top.Unique → (∀ w, tag ∉ tags w) →
      (∀ w ∈ top.descendants, bindDown tag top tags w = tags w ++ [tag]) ∧
        ∀ w, w ∉ top.descendants → bindDown tag top tags w = tags w := by
  intro hall
  have hbelow := (hall framed "new" (fun _ => ["all"]) framed_unique
    (fun _ => by decide)).1 ".f.b" (by decide)
  exact absurd hbelow (by decide)

end Window

end EpicsTcl.Widget
