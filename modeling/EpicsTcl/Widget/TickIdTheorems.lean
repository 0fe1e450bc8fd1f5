/-
EpicsTcl.Widget.TickIdTheorems — `tickIds` and the ticks on the canvas.

Drawing appends the ids of what it creates to `tickIds`, and ids are never used
twice. `eraseTicks` deletes the items of `tickIds`, but nothing takes their ids
out of it: `set tickIds` in `drawLogTicks` has no value and only reads the
variable. So the list is exact as long as it was empty before each redraw
(`tick_ids_exact`), which is to say that nothing was drawn before.

§1 is the statement, §2 what drawing and erasing do to the list, §3 runs.
-/
import EpicsTcl.Widget.NeedleTheorems

namespace EpicsTcl.Widget.Meter

open EpicsTcl.Library EpicsTcl.Library.Script

variable {K : Type}

/-! ## §1 Statement -/

/-- `tickIds` has the id of every tick on the canvas, once, and no other. -/
def Exact (s : Meter K) : Prop :=
  s.tickIds.Nodup ∧ ∀ id, id ∈ s.tickIds ↔ id ∈ s.canvas.map Prod.fst

/-- The operation erases the ticks and draws them again. -/
def RedrawsTicks [LinearOrder K] (s : Meter K) (a : Nat × Operation K) : Prop :=
  match a.2 with
  | .configure (.log v) => v.equal s.log = false
  | .configure (.variable _) | .set _ => False
  | .configure _ => True

/-- Ticks are drawn only if there are none. -/
def Untouched [LinearOrder K] (s : Meter K) (a : Nat × Operation K) : Prop :=
  RedrawsTicks s a → s.tickIds = []

/-! ## §2 The list -/

section List

variable {s t u : Meter K}

/-- What the list is about. -/
def books (s : Meter K) : List (Nat × Item K) × List Nat × Nat := (s.canvas, s.tickIds, s.nextId)

theorem books_addTicks (h : books s = books t) (items : List (Item K)) :
    books (s.addTicks items) = books (t.addTicks items) := by
  simp only [books, Prod.mk.injEq] at h
  obtain ⟨hcanvas, hids, hnext⟩ := h
  simp [books, addTicks, hcanvas, hids, hnext]

/-- Ticks are added. -/
def ticked : Effect (Meter K) where
  rel s t := ∃ items, books t = books (s.addTicks items)
  refl s := ⟨[], by rw [addTicks_nil]⟩
  trans := by
    rintro s t r ⟨items, ht⟩ ⟨items', hr⟩
    exact ⟨items ++ items', by rw [hr, books_addTicks ht, addTicks_append]⟩

theorem ticked_of_books (h : books t = books s) : ticked.rel s t :=
  ⟨[], by rw [h, addTicks_nil]⟩

theorem drawing_ticked : Drawing (ticked : Effect (Meter K)) where
  decades _ _ _ := ticked_of_books rfl
  last _ _ := ticked_of_books rfl
  needle _ _ := ticked_of_books rfl
  globals _ _ := ticked_of_books rfl
  length _ _ := ticked_of_books rfl
  create item := fun _ => ⟨[item], rfl⟩

theorem silent_books : Silent (Effect.same books : Effect (Meter K)) :=
  ⟨fun _ _ _ => rfl, fun _ _ => rfl, fun _ _ => rfl, fun _ _ => rfl⟩

/-- Deleting ids one by one. -/
theorem foldl_delete (ids : List Nat) (canvas : List (Nat × Item K)) :
    ids.foldl (fun canvas id => canvas.filter (·.1 != id)) canvas =
      canvas.filter fun entry => entry.1 ∉ ids := by
  induction ids generalizing canvas with
  | nil => simp
  | cons id ids ih =>
    rw [List.foldl_cons, ih, List.filter_filter]
    refine List.filter_congr fun entry _ => ?_
    by_cases hid : entry.1 = id <;> simp [hid]

/-- The list is exact, and the ids in it have been used. -/
structure Booked (s : Meter K) : Prop where
  exact : Exact s
  used : ∀ id ∈ s.tickIds, id < s.nextId

/-- An exact list erases everything. -/
theorem Booked.erased (h : Booked s) : s.erased.canvas = [] := by
  show s.tickIds.foldl _ s.canvas = []
  rw [foldl_delete, List.filter_eq_nil_iff]
  intro entry hentry
  have hmem := (h.exact.2 entry.1).mpr (List.mem_map_of_mem hentry)
  simp [hmem]

theorem ids_numbered (id : Nat) (items : List (Item K)) :
    (numbered id items).map Prod.fst = List.range' id items.length := by
  rw [numbered, List.map_map, ← List.zipIdx_map_snd id items]
  rfl

/-- After the ticks have been erased and drawn again, the old ids are still
in the list. -/
theorem Booked.redrawn (h : Booked s) {items : List (Item K)}
    (hu : books u = books (s.erased.addTicks items)) :
    (Exact u ↔ s.tickIds = []) ∧ ∀ id ∈ u.tickIds, id < u.nextId := by
  simp only [books, addTicks, h.erased, List.nil_append, Prod.mk.injEq] at hu
  obtain ⟨hcanvas, hids, hnext⟩ := hu
  replace hids : u.tickIds = s.tickIds ++ List.range' s.nextId items.length := hids
  replace hnext : u.nextId = s.nextId + items.length := hnext
  replace hcanvas : u.canvas.map Prod.fst = List.range' s.nextId items.length := by
    rw [hcanvas]
    exact ids_numbered _ _
  constructor
  · rw [Exact, hids, hcanvas]
    constructor
    · rintro ⟨-, hexact⟩
      refine List.eq_nil_iff_forall_not_mem.mpr fun id hid => ?_
      have hnew := (hexact id).mp (List.mem_append_left _ hid)
      have hold := h.used id hid
      rw [List.mem_range'_1] at hnew
      omega
    · intro hempty
      rw [hempty, List.nil_append]
      exact ⟨List.nodup_range', fun id => Iff.rfl⟩
  · intro id hid
    rw [hids, List.mem_append, List.mem_range'_1] at hid
    rw [hnext]
    rcases hid with hold | hnew
    · exact Nat.lt_add_right _ (h.used id hold)
    · exact hnew.2

/-- Ids may be used for other items. -/
theorem Booked.same (h : Booked s) (hcanvas : u.canvas = s.canvas) (hids : u.tickIds = s.tickIds)
    (hnext : s.nextId ≤ u.nextId) : Booked u := by
  refine ⟨?_, ?_⟩
  · rw [Exact, hids, hcanvas]
    exact h.exact
  · rw [hids]
    exact fun id hid => (h.used id hid).trans_le hnext

theorem Booked.ticked (h : Booked s) (hticked : Meter.ticked.rel s u) : Booked u := by
  obtain ⟨items, hu⟩ := hticked
  simp only [books, addTicks, Prod.mk.injEq] at hu
  obtain ⟨hcanvas, hids, hnext⟩ := hu
  have hold (id : Nat) : id ∈ s.tickIds → id < s.nextId := h.used id
  refine ⟨⟨?_, fun id => ?_⟩, fun id hid => ?_⟩
  · rw [hids, List.nodup_append]
    refine ⟨h.exact.1, List.nodup_range', fun id hid id' hid' => ?_⟩
    have hless := hold id hid
    rw [List.mem_range'_1] at hid'
    omega
  · rw [hids, hcanvas, List.map_append, ids_numbered, List.mem_append, List.mem_append,
      h.exact.2 id]
  · rw [hids, List.mem_append, List.mem_range'_1] at hid
    rw [hnext]
    rcases hid with hid | hid
    · exact Nat.lt_add_right _ (hold id hid)
    · exact hid.2

end List

/-! ## §3 Runs -/

section Runs

variable [Field K] [LinearOrder K] [FloorRing K] [IsStrictOrderedRing K] {A : Arithmetic K}
  {s s₀ u : Meter K} {n : Nat}

theorem ticked_computeHeight (A : Arithmetic K) (v : TclValue K) :
    Within ticked (computeHeight A v) :=
  drawing_ticked.computeHeight A (fun _ _ => ticked_of_books rfl) v

theorem ticked_redraw (A : Arithmetic K) (n : Nat) : Within ticked (redraw A n) := by
  refine Within.bind (drawing_ticked.drawTicks (ticked_computeHeight A) n) fun _ => ?_
  exact Within.bind (Within.reads _) fun _ => drawing_ticked.needleTo (ticked_computeHeight A) _

theorem books_computeHeight (A : Arithmetic K) (v : TclValue K) :
    Within (Effect.same books) (computeHeight A v) :=
  silent_books.computeHeight A (fun _ _ => rfl) v

/-- A constructed meter and its list. -/
structure Kept (s : Meter K) : Prop where
  canvas : s.hasCanvas = true
  ready : s.constructing = false
  booked : Booked s

omit [LinearOrder K] [FloorRing K] [IsStrictOrderedRing K] in
/-- What a handler draws after it has erased the ticks. -/
theorem redrawn_of_within {m : Method K Unit} {w : Meter K} (hquiet : Within quiet m)
    (hticked : Within ticked m) (hcanvas : w.hasCanvas = true) (hready : w.constructing = false)
    (hbooks : books w = books s.erased) (h : m w = (.ok (), u)) :
    u.hasCanvas = true ∧ u.constructing = false ∧
      ∃ items, books u = books (s.erased.addTicks items) := by
  obtain ⟨items, hitems⟩ := hticked.of_eq h
  obtain ⟨hcanvas', hready'⟩ := stage_of_settings (hquiet.of_eq h).1
  exact ⟨hcanvas'.trans hcanvas, hready'.trans hready, items,
    hitems.trans (books_addTicks hbooks items)⟩

/-- A handler that redraws. -/
theorem redraws_of_onconfigure (hs : Kept s) {option : Configuration K}
    (hredraws : RedrawsTicks s (n, .configure option))
    (h : onconfigure A n option s = (.ok (), u)) :
    u.hasCanvas = true ∧ u.constructing = false ∧
      ∃ items, books u = books (s.erased.addTicks items) := by
  cases option with
  | optFrom v =>
    by_cases htext : s.optTo.number = none ∨ v.number = none
    · obtain ⟨e, hraises⟩ := configureFrom_text A n hs.canvas htext
      rw [onconfigure, hraises] at h
      cases h
    · obtain ⟨hto, hv⟩ := not_or.mp htext
      obtain ⟨t, hto⟩ := Option.ne_none_iff_exists'.mp hto
      obtain ⟨f, hv⟩ := Option.ne_none_iff_exists'.mp hv
      rw [onconfigure, configureFrom_numbers A n hs.canvas hto hv] at h
      exact redrawn_of_within (w := { s.erased with optFrom := v, valueRange := t - f })
        (quiet_redraw A n) (ticked_redraw A n) hs.canvas hs.ready rfl h
  | optTo v =>
    by_cases htext : s.optFrom.number = none ∨ v.number = none
    · obtain ⟨e, hraises⟩ := configureTo_text A n hs.canvas htext
      rw [onconfigure, hraises] at h
      cases h
    · obtain ⟨hfrom, hv⟩ := not_or.mp htext
      obtain ⟨f, hfrom⟩ := Option.ne_none_iff_exists'.mp hfrom
      obtain ⟨t, hv⟩ := Option.ne_none_iff_exists'.mp hv
      rw [onconfigure, configureTo_numbers A n hs.canvas hfrom hv] at h
      exact redrawn_of_within (w := { s.erased with optTo := v, valueRange := t - f })
        (quiet_redraw A n) (ticked_redraw A n) hs.canvas hs.ready rfl h
  | log v =>
    cases hboolean : isBoolean v.text with
    | false =>
      rw [onconfigure, configureLog_rejected A n hredraws hboolean] at h
      cases h
    | true =>
      by_cases hrange : ∃ f t, s.optFrom.number = some f ∧ s.optTo.number = some t ∧ 0 < f ∧ 0 < t
      · obtain ⟨f, t, hfrom, hto, hf, ht⟩ := hrange
        rw [onconfigure, configureLog_accepted A n hredraws hboolean hs.ready hfrom hto hf ht] at h
        exact redrawn_of_within (w := withDecades A f t { s.erased with log := v })
          (quiet_redraw A n) (ticked_redraw A n) hs.canvas hs.ready rfl h
      · obtain ⟨e, hraises⟩ := configureLog_raises (A := A) n hredraws hboolean hs.ready
          fun f t hfrom hto hf ht => hrange ⟨f, t, hfrom, hto, hf, ht⟩
        rw [onconfigure, hraises] at h
        cases h
  | majorticks v =>
    rw [onconfigure, configureMajorticks, configureTicks_apply A n hs.canvas] at h
    exact redrawn_of_within (w := { s.erased with majorticks := v }) (quiet_drawTicks A n)
      (drawing_ticked.drawTicks (ticked_computeHeight A) n) hs.canvas hs.ready rfl h
  | minorticks v =>
    rw [onconfigure, configureMinorticks, configureTicks_apply A n hs.canvas] at h
    exact redrawn_of_within (w := { s.erased with minorticks := v }) (quiet_drawTicks A n)
      (drawing_ticked.drawTicks (ticked_computeHeight A) n) hs.canvas hs.ready rfl h
  | _ => exact hredraws.elim

/-- An operation that does not redraw. -/
theorem same_of_operate (hs : Kept s) {operation : Operation K}
    (hredraws : ¬ RedrawsTicks s (n, operation)) (h : operate A n operation s = (.ok (), u)) :
    u.hasCanvas = true ∧ u.constructing = false ∧ books u = books s := by
  have hsame {m : Method K Unit} (hquiet : Within quiet m) (hbooks : Within (Effect.same books) m)
      (hm : m s = (.ok (), u)) :
      u.hasCanvas = true ∧ u.constructing = false ∧ books u = books s := by
    obtain ⟨hcanvas, hready⟩ := stage_of_settings (hquiet.of_eq hm).1
    exact ⟨hcanvas.trans hs.canvas, hready.trans hs.ready, hbooks.of_eq hm⟩
  cases operation with
  | set v =>
    exact hsame (quiet_setValue A v) (silent_books.setValue (books_computeHeight A) v) h
  | configure option =>
    cases option with
    | log v =>
      have hequal : v.equal s.log = true := by simpa [RedrawsTicks] using hredraws
      rw [operate, onconfigure, configureLog_same A n hequal] at h
      cases h
      exact ⟨hs.canvas, hs.ready, rfl⟩
    | optFrom v => exact absurd trivial hredraws
    | optTo v => exact absurd trivial hredraws
    | majorticks v => exact absurd trivial hredraws
    | minorticks v => exact absurd trivial hredraws
    | _ =>
      refine hsame ?_ ?_ h
      · refine Within.bind (Within.modify fun _ => ⟨rfl, fun _ => rfl⟩) fun _ => ?_
        refine Within.bind (Within.reads _) fun _ => ?_
        split
        · exact quiet_variableChanged A
        · exact Within.pure _
      · refine Within.bind (Within.modify fun _ => rfl) fun _ => ?_
        refine Within.bind (Within.reads _) fun _ => ?_
        split
        · exact silent_books.variableChanged (books_computeHeight A)
        · exact Within.pure _

/-- **One step**: the list stays exact exactly if it was empty or nothing is redrawn. -/
theorem kept_of_step {a : Nat × Operation K} (hs : Kept s) (h : step A s a = some u) :
    u.hasCanvas = true ∧ u.constructing = false ∧ (Exact u ↔ Untouched s a) ∧
      (Exact u → Booked u) := by
  have hreturns := operate_of_step h
  by_cases hredraws : RedrawsTicks s a
  · obtain ⟨n, operation⟩ := a
    cases operation with
    | set v => exact hredraws.elim
    | configure option =>
      obtain ⟨hcanvas, hready, items, hitems⟩ := redraws_of_onconfigure hs hredraws hreturns
      obtain ⟨hexact, hused⟩ := hs.booked.redrawn hitems
      refine ⟨hcanvas, hready, hexact.trans ?_, fun hu => ⟨hu, hused⟩⟩
      exact ⟨fun hempty _ => hempty, fun huntouched => huntouched hredraws⟩
  · obtain ⟨hcanvas, hready, hbooks⟩ := same_of_operate hs hredraws hreturns
    have hu := hs.booked.ticked (ticked_of_books hbooks)
    exact ⟨hcanvas, hready, iff_of_true hu.exact fun hno => absurd hno hredraws, fun _ => hu⟩

/-- The constructor draws the first ticks. -/
theorem kept_of_build {geometry : Geometry K} {options : List (Configuration K)}
    {globals : String → Option (TclValue K)}
    (h : build A n geometry options (fresh globals) = (.ok (), s₀)) : Kept s₀ := by
  have hgood := good_of_build h
  refine ⟨hgood.canvas, hgood.ready, ?_⟩
  obtain ⟨⟨⟩, s, hoptions, h⟩ := of_bind_ok h
  obtain ⟨-, -, hcanvas, hids⟩ :=
    (configure_fresh A n options).of_eq hoptions ⟨rfl, rfl, rfl, rfl⟩
  have hbooked : Booked s := by
    refine ⟨⟨by simp [hids], by simp [hids, hcanvas]⟩, ?_⟩
    simp [hids]
  have hticked {α : Type} {m : Method K α} (hm : Within ticked m) :
      Within (Effect.keeps Booked) m :=
    hm.mono fun hrel hs => hs.ticked hrel
  refine Within.of_eq (E := Effect.keeps Booked) ?_ h hbooked
  refine Within.bind (Within.reads _) fun _ => Within.bind (within_operand _) fun _ => ?_
  refine Within.bind (Within.reads _) fun _ => Within.bind (within_operand _) fun _ => ?_
  -- the frame and the needle have ids too
  refine Within.bind (Within.modify fun s hs => hs.same rfl rfl (Nat.le_succ _)) fun _ => ?_
  refine Within.bind (hticked (ticked_computeHeight A _)) fun _ => ?_
  refine Within.bind (Within.modify fun s hs => hs.same rfl rfl (Nat.le_succ _)) fun _ => ?_
  refine Within.bind (hticked (drawing_ticked.drawTicks (ticked_computeHeight A) n)) fun _ => ?_
  refine Within.bind (Within.reads _) fun name => ?_
  have hend : Within (Effect.keeps Booked)
      (.modify fun s => { s with constructing := false } : Method K Unit) :=
    Within.modify fun s hs => hs.same rfl rfl le_rfl
  split
  · exact Within.bind (hticked (drawing_ticked.variableChanged (ticked_computeHeight A)))
      fun _ => hend
  · exact hend

/-- **The list of the ticks** over a run of a constructed meter: it is exact in every
state reached, and after the next step exactly if that step leaves the ticks alone or
there are none. -/
theorem tick_ids_exact {geometry : Geometry K} {options : List (Configuration K)}
    {globals : String → Option (TclValue K)} {as : List (Nat × Operation K)}
    (hbuild : build A n geometry options (fresh globals) = (.ok (), s₀))
    (hrun : Run (step A) Untouched s₀ as s) :
    Exact s ∧ ∀ a t, step A s a = some t → (Exact t ↔ Untouched s a) := by
  have hkept : Kept s := by
    refine hrun.invariant Kept (kept_of_build hbuild) fun s a t hs huntouched hstep => ?_
    obtain ⟨hcanvas, hready, hexact, hbooked⟩ := kept_of_step hs hstep
    exact ⟨hcanvas, hready, hbooked (hexact.mpr huntouched)⟩
  exact ⟨hkept.booked.exact, fun a t hstep => (kept_of_step hkept hstep).2.2.1⟩

end Runs

/-- A meter whose ends are the wrong way round has no ticks. -/
def turned : Except (Stop MeterError) Unit × Meter ℚ :=
  build plain 9 ⟨100, 110, 10, 5⟩ [.optFrom ⟨"2", some 2⟩] (fresh fun _ => none)

/-- The first ticks. -/
theorem tick_ids_exact_turned :
    ∃ s, Run (step plain) Untouched turned.2 [(9, .configure (.optTo ⟨"3", some 3⟩))] s ∧
      Exact s ∧ ∀ a t, step plain s a = some t → (Exact t ↔ Untouched s a) := by
  have hbuild : turned = (.ok (), turned.2) := Prod.ext (by decide +kernel) rfl
  have hempty : turned.2.tickIds = [] := by decide +kernel
  have hstep : (step plain turned.2 (9, .configure (.optTo ⟨"3", some 3⟩))).isSome = true := by
    decide +kernel
  obtain ⟨s, hs⟩ := Option.isSome_iff_exists.mp hstep
  have hrun : Run (step plain) Untouched turned.2 [(9, .configure (.optTo ⟨"3", some 3⟩))] s :=
    .snoc .nil (fun _ => hempty) hs
  exact ⟨s, hrun, tick_ids_exact hbuild hrun⟩

/-- The ticks of the default meter are drawn again. -/
theorem old_tick_ids_stay :
    ¬ ∀ (n : Nat) (geometry : Geometry ℚ) (options : List (Configuration ℚ)) (s₀ s : Meter ℚ)
      (as : List (Nat × Operation ℚ)),
        build plain n geometry options (fresh fun _ => none) = (.ok (), s₀) →
          Run (step plain) Always s₀ as s → Exact s := by
  intro hall
  have hbuild : small = (.ok (), small.2) := Prod.ext (by decide +kernel) rfl
  have hstep : (step plain small.2 (9, .configure (.majorticks ⟨"1", some 1⟩))).isSome = true := by
    decide +kernel
  obtain ⟨s, hs⟩ := Option.isSome_iff_exists.mp hstep
  have hexact := hall _ _ _ _ s _ hbuild (.snoc .nil trivial hs)
  have huntouched := (kept_of_step (kept_of_build hbuild) hs).2.2.1.mp hexact
  have hids : small.2.tickIds ≠ [] := by decide +kernel
  exact hids (huntouched trivial)

end EpicsTcl.Widget.Meter
