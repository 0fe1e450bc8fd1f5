/-
EpicsTcl.Support.WriteTheorems — which bytes `Write` gives to the kernel.

The loop keeps the number of bytes that remain in an `int`, and what
`write(2)` returns as well. Below 2^31 bytes neither is ever changed by that:
the calls go through the buffer from its beginning without a gap (`Sent`).
From 2^31 on the first conversion already loses the length
(`write_faithful_iff`).

§1 is the statement, §2 one round, §3 buffers below 2^31, §4 the others.
-/
import EpicsTcl.Channel.AssignmentTheorems
import EpicsTcl.Support.CSocket

namespace EpicsTcl.Support

open EpicsTcl.Channel EpicsTcl.Library EpicsTcl.Library.Script

/-! ## §1 Statement -/

/-- The bytes that the kernel takes from the buffer. -/
def IOCall.taken (buffer : List UInt8) : IOCall → List UInt8
  | .read _ _ => []
  | .write offset _ value => (buffer.drop offset).take value.toNat

/-- No byte is asked for beyond the end of the buffer. -/
def IOCall.Inside (size : Nat) : IOCall → Prop
  | .read _ _ => True
  | .write offset asked _ => offset + asked ≤ size

/-- The call has returned 0 or an error. -/
def IOCall.Fails : IOCall → Prop
  | .read _ value => value ≤ 0
  | .write _ _ value => value ≤ 0

/-- The exception is about the state. -/
def SocketError.ofState : SocketError → Bool
  | .badSocketState _ _ _ => true
  | _ => false

namespace CSocket

/-- What these calls have written so far, and what `Write` says of it if it
has returned. -/
structure Faithful (buffer : List UInt8) (calls : List IOCall)
    (result : Except (Stop SocketError) Int) : Prop where
  taken : calls.flatMap (IOCall.taken buffer) <+: buffer
  inside : ∀ call ∈ calls, call.Inside buffer.length
  returned : ∀ n, result = .ok n →
    n = (calls.flatMap (IOCall.taken buffer)).length ∧
      (n = buffer.length ∨ ∃ i call, 1 ≤ i ∧ calls[i]? = some call ∧ call.Fails)

/-- `Write` comes to an end, and is faithful after any number of rounds. -/
def WritesWell (buffer : List UInt8) (answers : Nat → Answer) (reopen : Reopening)
    (s : CSocket) : Prop :=
  (∃ rounds, (write buffer.length answers reopen rounds s).1 ≠ .error .running) ∧
    ∀ rounds, ∃ calls,
      (write buffer.length answers reopen rounds s).2.calls = s.calls ++ calls ∧
        Faithful buffer calls (write buffer.length answers reopen rounds s).1

/-! ## §2 One round -/

section Round

variable {answers : Nat → Answer} {reopen : Reopening} {w : Writing} {s : CSocket}

/-- The call of `write(2)` in a round. -/
def Writing.call (answers : Nat → Answer) (w : Writing) : IOCall :=
  .write w.p (sizeOfInt w.resid) (w.value answers)

/-- The call has been made. -/
def logged (s : CSocket) (call : IOCall) : CSocket := { s with calls := s.calls ++ [call] }

theorem writeRound_done (h : w.resid = 0) :
    writeRound answers reopen w s = (.ok (.inr w.nWritten), s) := by
  rw [writeRound, if_neg (not_not_intro h)]
  rfl

theorem writeRound_called (h : w.resid ≠ 0) :
    writeRound answers reopen w s =
      (if 0 < w.n answers then pure (.inl (w.next answers))
      else if 0 < w.nWritten then pure (.inr w.nWritten)
      else if (answers w.calls).epipe then do
        setState .disconnected
        close
        openSocket reopen
        throw (.connectionLost "CSocket::Write - first write of loop")
      else do
        setState .disconnected
        throw (.errnoException "CSocket::Write failed write(2)") : Method (Writing ⊕ Int))
        (s.logged (w.call answers)) := by
  rw [writeRound, if_pos h]
  rfl

theorem writeRound_again (h : w.resid ≠ 0) (hn : 0 < w.n answers) :
    writeRound answers reopen w s = (.ok (.inl (w.next answers)), s.logged (w.call answers)) := by
  rw [writeRound_called h, if_pos hn]
  rfl

theorem writeRound_stops (h : w.resid ≠ 0) (hn : ¬ 0 < w.n answers) (hwritten : 0 < w.nWritten) :
    writeRound answers reopen w s = (.ok (.inr w.nWritten), s.logged (w.call answers)) := by
  rw [writeRound_called h, if_neg hn, if_pos hwritten]
  rfl

/-- The descriptor has been closed, and the object is in no connection. -/
def dropped (s : CSocket) : CSocket :=
  { s with
    state := .disconnected
    descriptors := onLast s.fd (fun d => { d with closes := d.closes + 1 }) s.descriptors }

/-- The object has a new descriptor. -/
def reopened (s : CSocket) (number : Nat) : CSocket :=
  { s with fd := number, descriptors := { number := number } :: s.descriptors }

theorem openSocket_entry (h : reopen.entry = true) (s : CSocket) :
    openSocket reopen s = (.ok (), s.reopened reopen.number) := by
  rw [openSocket, if_neg (by simp [h])]
  rfl

theorem openSocket_null (h : reopen.entry = false) (s : CSocket) : openSocket reopen s =
    (.error (.raised (.errnoException "Getting TCP protocol num from getprotoent(3)")), s) := by
  rw [openSocket, if_pos (by simp [h])]
  rfl

variable (reopen) in
/-- A lost connection: with a new descriptor, if `OpenSocket` gets that far. -/
theorem lost_apply (α : Type) (action : String) (s : CSocket) :
    ∃ e, e.ofState = false ∧ (do
      setState .disconnected
      close
      openSocket reopen
      throw (.connectionLost action) : Method α) s =
        (.error (.raised e),
          if reopen.entry then s.dropped.reopened reopen.number else s.dropped) := by
  cases hentry : reopen.entry with
  | true =>
    exact ⟨_, rfl, (bind_ok rfl).trans ((bind_ok rfl).trans (bind_ok (openSocket_entry hentry _)))⟩
  | false =>
    exact ⟨_, rfl,
      (bind_ok rfl).trans ((bind_ok rfl).trans (bind_error (openSocket_null hentry _)))⟩

variable (reopen s) in
/-- A failure of the first call raises. -/
theorem writeRound_raises (h : w.resid ≠ 0) (hn : ¬ 0 < w.n answers)
    (hwritten : ¬ 0 < w.nWritten) :
    ∃ e, e.ofState = false ∧ writeRound answers reopen w s = (.error (.raised e),
      if (answers w.calls).epipe then
        if reopen.entry then (s.logged (w.call answers)).dropped.reopened reopen.number
        else (s.logged (w.call answers)).dropped
      else { s.logged (w.call answers) with state := .disconnected }) := by
  rw [writeRound_called h, if_neg hn, if_neg hwritten]
  split
  · exact lost_apply reopen _ _ _
  · exact ⟨_, rfl, rfl⟩

/-- Whatever it answers, the call has been made. -/
theorem writeRound_calls (h : w.resid ≠ 0) :
    (writeRound answers reopen w s).2.calls = s.calls ++ [w.call answers] := by
  by_cases hn : 0 < w.n answers
  · rw [writeRound_again h hn]
    rfl
  · by_cases hwritten : 0 < w.nWritten
    · rw [writeRound_stops h hn hwritten]
      rfl
    · obtain ⟨e, -, hraises⟩ := writeRound_raises reopen s h hn hwritten
      rw [hraises]
      split
      · split <;> rfl
      · rfl

end Round

/-! ## §3 Short buffers -/

section Short

variable {buffer : List UInt8} {answers : Nat → Answer} {reopen : Reopening} {w : Writing}
  {calls : List IOCall}

/-- The calls so far have written the buffer up to `p`. -/
structure Sent (buffer : List UInt8) (calls : List IOCall) (w : Writing) : Prop where
  within : w.p ≤ buffer.length
  resid : w.resid = (buffer.length - w.p : Nat)
  nWritten : w.nWritten = w.p
  taken : calls.flatMap (IOCall.taken buffer) = buffer.take w.p
  inside : ∀ call ∈ calls, call.Inside buffer.length

theorem Sent.length (h : Sent buffer calls w) :
    (calls.flatMap (IOCall.taken buffer)).length = w.p := by
  rw [h.taken, List.length_take, Nat.min_eq_left h.within]

theorem narrow_of_small {n : Int} (hlow : -2 ^ 31 ≤ n) (hhigh : n < 2 ^ 31) : narrow n = n :=
  Int.bmod_eq_of_le_mul_two (by omega) (by omega)

variable (answers) in
/-- What is asked for is what remains, and `n` is what `write(2)` returns. -/
theorem Sent.value (h : Sent buffer calls w) (hshort : buffer.length < 2 ^ 31) :
    sizeOfInt w.resid = buffer.length - w.p ∧ w.n answers = w.value answers ∧
      w.value answers ≤ (buffer.length - w.p : Nat) := by
  have hasked : sizeOfInt w.resid = buffer.length - w.p := by
    rw [h.resid, sizeOfInt_natCast (by omega)]
  have hvalue : -1 ≤ w.value answers ∧ w.value answers ≤ (buffer.length - w.p : Nat) := by
    rw [Writing.value, hasked]
    unfold Transfer.value
    split <;> omega
  exact ⟨hasked, narrow_of_small (by omega) (by omega), hvalue.2⟩

theorem Sent.inside_call (h : Sent buffer calls w) (hshort : buffer.length < 2 ^ 31) :
    (w.call answers).Inside buffer.length := by
  have hasked := (h.value answers hshort).1
  have hwithin := h.within
  show w.p + sizeOfInt w.resid ≤ buffer.length
  omega

theorem Sent.inside_snoc (h : Sent buffer calls w) (hshort : buffer.length < 2 ^ 31) :
    ∀ call ∈ calls ++ [w.call answers], call.Inside buffer.length := by
  intro call hcall
  rcases List.mem_append.mp hcall with hcall | hcall
  · exact h.inside call hcall
  · rw [List.mem_singleton.mp hcall]
    exact h.inside_call hshort

/-- **One successful call.** -/
theorem Sent.next (h : Sent buffer calls w) (hshort : buffer.length < 2 ^ 31)
    (hn : 0 < w.n answers) : Sent buffer (calls ++ [w.call answers]) (w.next answers) := by
  obtain ⟨-, hvalue, hle⟩ := h.value answers hshort
  have hwithin := h.within
  have hp : (w.next answers).p = w.p + (w.n answers).toNat := rfl
  refine ⟨by omega, ?_, ?_, ?_, h.inside_snoc hshort⟩
  · show narrow (w.resid - w.n answers) = _
    rw [h.resid, hp, narrow_of_small] <;> omega
  · show narrow (w.nWritten + w.n answers) = _
    rw [h.nWritten, hp, narrow_of_small] <;> omega
  · rw [List.flatMap_append, h.taken, hp, List.take_add, hvalue]
    simp [Writing.call, IOCall.taken]

/-- A failed call takes nothing. -/
theorem Sent.failed (h : Sent buffer calls w) (hshort : buffer.length < 2 ^ 31)
    (hn : ¬ 0 < w.n answers) :
    Sent buffer (calls ++ [w.call answers]) w ∧ (w.call answers).Fails := by
  have hvalue := (h.value answers hshort).2.1
  rw [hvalue, not_lt] at hn
  refine ⟨⟨h.within, h.resid, h.nWritten, ?_, h.inside_snoc hshort⟩, hn⟩
  rw [List.flatMap_append, h.taken]
  simp [Writing.call, IOCall.taken, Int.toNat_of_nonpos hn]

/-- What is true of the calls when the loop stops, in any way. -/
theorem Sent.faithful (h : Sent buffer calls w)
    {result : Except (Stop SocketError) Int}
    (hreturned : ∀ n, result = .ok n → n = w.p ∧ (w.p = buffer.length ∨
      ∃ i call, 1 ≤ i ∧ calls[i]? = some call ∧ call.Fails)) : Faithful buffer calls result := by
  refine ⟨?_, h.inside, fun n hn => ?_⟩
  · rw [h.taken]
    exact List.take_prefix _ _
  · obtain ⟨rfl, hend⟩ := hreturned n hn
    exact ⟨by rw [h.length], hend.imp_left fun hp => by rw [hp]⟩

/-- The buffer is written when nothing remains. -/
theorem Sent.full (h : Sent buffer calls w) (hresid : w.resid = 0) : w.p = buffer.length := by
  have hwithin := h.within
  have hzero := h.resid.symm.trans hresid
  omega

/-- The loop is left after a failed call that is not the first. -/
theorem Sent.stopped (h : Sent buffer calls w) (hshort : buffer.length < 2 ^ 31)
    (hn : ¬ 0 < w.n answers) (hwritten : 0 < w.nWritten) :
    Faithful buffer (calls ++ [w.call answers]) (.ok w.nWritten) := by
  obtain ⟨hfailed, hfails⟩ := h.failed hshort hn
  have hearlier : 1 ≤ calls.length := by
    refine List.length_pos_iff.mpr ?_
    rintro rfl
    have hnothing := h.length
    have hp := h.nWritten
    simp only [List.flatMap_nil, List.length_nil] at hnothing
    omega
  refine hfailed.faithful fun n hreturned => ?_
  cases hreturned
  exact ⟨h.nWritten, .inr ⟨calls.length, w.call answers, hearlier, by simp, hfails⟩⟩

variable (answers reopen) in
/-- **The loop**, from any round on: it ends, and is faithful wherever it is. -/
theorem Sent.loop (hshort : buffer.length < 2 ^ 31) (h : Sent buffer calls w) (rounds : Nat)
    (s : CSocket) :
    (w.resid.toNat < rounds →
      (Script.loop (writeRound answers reopen) rounds w s).1 ≠ .error .running) ∧
    ∃ more, (Script.loop (writeRound answers reopen) rounds w s).2.calls = s.calls ++ more ∧
      Faithful buffer (calls ++ more) (Script.loop (writeRound answers reopen) rounds w s).1 := by
  induction rounds generalizing w calls s with
  | zero =>
    refine ⟨fun hless => absurd hless (Nat.not_lt_zero _), [], by simp [Script.loop], ?_⟩
    rw [List.append_nil]
    exact h.faithful fun n hn => by cases hn
  | succ rounds ih =>
    by_cases hresid : w.resid = 0
    · rw [loop_left (writeRound_done hresid)]
      refine ⟨fun _ => by simp, [], by simp, ?_⟩
      rw [List.append_nil]
      refine h.faithful fun n hn => ?_
      cases hn
      exact ⟨h.nWritten, .inl (h.full hresid)⟩
    by_cases hn : 0 < w.n answers
    · -- the rest is written in the rounds that follow
      obtain ⟨-, hvalue, hle⟩ := h.value answers hshort
      have hnext := h.next hshort hn
      obtain ⟨hends, more, hcalls, hfaithful⟩ := ih hnext (s.logged (w.call answers))
      rw [loop_again (writeRound_again hresid hn)]
      refine ⟨fun hless => hends ?_, w.call answers :: more, ?_, ?_⟩
      · have hp : (w.next answers).p = w.p + (w.n answers).toNat := rfl
        have hremains := hnext.resid
        have hbefore := h.resid
        omega
      · rw [hcalls, logged, List.append_assoc, List.singleton_append]
      · rwa [List.append_assoc, List.singleton_append] at hfaithful
    by_cases hwritten : 0 < w.nWritten
    · rw [loop_left (writeRound_stops hresid hn hwritten)]
      exact ⟨fun _ => by simp, [w.call answers], rfl, h.stopped hshort hn hwritten⟩
    · obtain ⟨e, -, hraises⟩ := writeRound_raises reopen s hresid hn hwritten
      have hloop : Script.loop (writeRound answers reopen) (rounds + 1) w s = _ :=
        bind_error hraises
      rw [hloop]
      refine ⟨fun _ => by simp, [w.call answers], ?_,
        (h.failed hshort hn).1.faithful fun n hreturned => by cases hreturned⟩
      split
      · split <;> rfl
      · rfl

theorem sent_start (hshort : buffer.length < 2 ^ 31) :
    Sent buffer [] { resid := intOfSize buffer.length } where
  within := Nat.zero_le _
  resid := by rw [intOfSize_of_lt hshort, Nat.sub_zero]
  nWritten := rfl
  taken := rfl
  inside := by simp

end Short

/-! ## §4 Long buffers -/

section Long

variable {buffer : List UInt8} {reopen : Reopening} {s : CSocket}

variable (buffer) in
/-- A length of which the `int` is zero: nothing is written. -/
theorem not_well_zero (hlong : 2 ^ 31 ≤ buffer.length) (hzero : intOfSize buffer.length = 0)
    (answers : Nat → Answer) : ¬ WritesWell buffer answers reopen s := by
  rintro ⟨-, hfaithful⟩
  obtain ⟨calls, hcalls, -, -, hreturned⟩ := hfaithful 1
  rw [write, hzero, loop_left (writeRound_done rfl)] at hcalls hreturned
  obtain rfl := List.self_eq_append_right.mp hcalls
  obtain ⟨-, hall | ⟨i, call, -, hcall, -⟩⟩ := hreturned 0 rfl
  · omega
  · simp at hcall

variable {r : Int}

/-- All that is asked for is written at once. -/
def generous (buffer : List UInt8) : Nat → Answer := fun _ => ⟨.bytes buffer.length, false⟩

/-- A positive `int`: only so many bytes are written. -/
theorem not_well_positive (hlong : 2 ^ 31 ≤ buffer.length) (hr : intOfSize buffer.length = r)
    (hpos : 0 < r) (hsmall : r < 2 ^ 31) : ¬ WritesWell buffer (generous buffer) reopen s := by
  rintro ⟨-, hfaithful⟩
  obtain ⟨calls, hcalls, -, -, hreturned⟩ := hfaithful 2
  have hasked : sizeOfInt r = r.toNat := by
    rw [sizeOfInt]
    omega
  have hvalue : Writing.value (generous buffer) { resid := r } = r := by
    show min ((buffer.length : Int) + 1) (sizeOfInt r) = r
    rw [hasked]
    omega
  have hn : Writing.n (generous buffer) { resid := r } = r := by
    rw [Writing.n, hvalue, narrow_of_small (by omega) hsmall]
  have hnext : (Writing.next (generous buffer) { resid := r }).resid = 0 := by
    show narrow (r - Writing.n (generous buffer) { resid := r }) = 0
    rw [hn, sub_self]
    rfl
  have hreturns : (Writing.next (generous buffer) { resid := r }).nWritten = r := by
    show narrow (0 + Writing.n (generous buffer) { resid := r }) = r
    rw [hn, zero_add, narrow_of_small (by omega) hsmall]
  rw [write, hr, loop_again (writeRound_again (w := { resid := r }) hpos.ne' (by rwa [hn])),
    loop_left (writeRound_done hnext), hreturns] at hcalls hreturned
  obtain rfl : [Writing.call (generous buffer) { resid := r }] = calls :=
    List.append_cancel_left hcalls
  obtain ⟨-, hall | ⟨i, call, hi, hcall, -⟩⟩ := hreturned r rfl
  · omega
  · obtain ⟨j, rfl⟩ := Nat.exists_eq_add_of_le' hi
    simp at hcall

/-- A negative `int` that is a larger number of bytes than the buffer has. -/
theorem not_well_negative (hr : intOfSize buffer.length = r) (hneg : r < 0)
    (hbeyond : buffer.length < sizeOfInt r) (answers : Nat → Answer) :
    ¬ WritesWell buffer answers reopen s := by
  rintro ⟨-, hfaithful⟩
  obtain ⟨calls, hcalls, -, hinside, -⟩ := hfaithful 1
  rw [write, hr, loop_one, writeRound_calls (w := { resid := r }) hneg.ne] at hcalls
  obtain rfl : [Writing.call answers { resid := r }] = calls := List.append_cancel_left hcalls
  have hcall : 0 + sizeOfInt r ≤ buffer.length := hinside _ (List.mem_singleton_self _)
  omega

/-- More bytes at once than an `int` can count, and then an error. -/
def wide : Nat → Answer
  | 0 => ⟨.bytes (2 ^ 32), false⟩
  | _ + 1 => ⟨.error, false⟩

/-- A negative `int` that is the length of the buffer: of 2^32 + 1 bytes one is counted. -/
theorem not_well_huge (hr : intOfSize buffer.length = r) (hneg : r < 0) (hlow : -2 ^ 31 ≤ r)
    (hasked : sizeOfInt r = buffer.length) : ¬ WritesWell buffer wide reopen s := by
  rintro ⟨-, hfaithful⟩
  obtain ⟨calls, hcalls, -, -, hreturned⟩ := hfaithful 2
  have hlength : 2 ^ 32 + 1 ≤ buffer.length := by
    rw [← hasked, sizeOfInt]
    omega
  have hvalue : Writing.value wide { resid := r } = 2 ^ 32 + 1 := by
    show min (((2 ^ 32 : Nat) : Int) + 1) (sizeOfInt r) = 2 ^ 32 + 1
    rw [hasked]
    omega
  have hn : Writing.n wide { resid := r } = 1 := by
    rw [Writing.n, hvalue]
    decide
  have hresid : (Writing.next wide { resid := r }).resid ≠ 0 := by
    show narrow (r - Writing.n wide { resid := r }) ≠ 0
    rw [hn, narrow, Int.bmod_def]
    split <;> omega
  have hcounted : (Writing.next wide { resid := r }).nWritten = 1 := by
    show narrow (0 + Writing.n wide { resid := r }) = 1
    rw [hn]
    decide
  have hfails : ¬ 0 < (Writing.next wide { resid := r }).n wide := by
    show ¬ 0 < narrow (-1)
    decide
  have hpos : 0 < Writing.n wide { resid := r } := hn ▸ Int.one_pos
  have hpos' : 0 < (Writing.next wide { resid := r }).nWritten := hcounted ▸ Int.one_pos
  rw [write, hr, loop_again (writeRound_again (w := { resid := r }) hneg.ne hpos),
    loop_left (writeRound_stops hresid hfails hpos'), hcounted] at hcalls hreturned
  obtain rfl : [Writing.call wide { resid := r }, (Writing.next wide { resid := r }).call wide] =
      calls := by
    simpa [logged] using hcalls
  have hfirst : ((Writing.call wide { resid := r }).taken buffer).length = 2 ^ 32 + 1 := by
    show ((buffer.drop 0).take (Writing.value wide { resid := r }).toNat).length = 2 ^ 32 + 1
    rw [hvalue, List.drop_zero, List.length_take]
    omega
  have htotal := (hreturned 1 rfl).1
  simp only [List.flatMap_cons, List.length_append, hfirst] at htotal
  omega

/-- **Which buffers `Write` writes well** whatever `write(2)` answers: those of fewer than
2^31 bytes. -/
theorem write_faithful_iff (buffer : List UInt8) (hsize : buffer.length < 2 ^ 64)
    (reopen : Reopening) (s : CSocket) :
    (∀ answers, WritesWell buffer answers reopen s) ↔ buffer.length < 2 ^ 31 := by
  constructor
  · intro hall
    by_contra hlong
    rw [not_lt] at hlong
    obtain ⟨r, hr⟩ : ∃ r, intOfSize buffer.length = r := ⟨_, rfl⟩
    have hlow : -2 ^ 31 ≤ r := hr ▸ Int.le_bmod (x := buffer.length) (m := 2 ^ 32) (by decide)
    have hhigh : r < 2 ^ 31 := hr ▸ Int.bmod_lt (x := buffer.length) (m := 2 ^ 32) (by decide)
    have hmod : r % 2 ^ 32 = (buffer.length : Int) % 2 ^ 32 := hr ▸ Int.bmod_emod
    rcases lt_trichotomy r 0 with hneg | rfl | hpos
    · by_cases hasked : sizeOfInt r = buffer.length
      · exact not_well_huge hr hneg hlow hasked (hall wide)
      · refine not_well_negative hr hneg ?_ (generous buffer) (hall _)
        rw [sizeOfInt] at hasked ⊢
        omega
    · exact not_well_zero buffer hlong hr (generous buffer) (hall _)
    · exact not_well_positive hlong hr hpos hhigh (hall _)
  · intro hshort answers
    have hloop := (sent_start hshort).loop answers reopen hshort
    refine ⟨⟨_, (hloop _ s).1 (Nat.lt_succ_self _)⟩, fun rounds => ?_⟩
    obtain ⟨-, calls, hcalls, hfaithful⟩ := hloop rounds s
    exact ⟨calls, hcalls, hfaithful⟩

/-- Three bytes are written whatever `write(2)` answers. -/
theorem write_faithful_iff_three : [1, 2, 3].length < 2 ^ 31 ∧
    ∀ answers, WritesWell [1, 2, 3] answers ⟨true, 4⟩ { fd := 3, state := .connected } :=
  ⟨by decide, (write_faithful_iff [1, 2, 3] (by decide) ⟨true, 4⟩
    { fd := 3, state := .connected }).mpr (by decide)⟩

/-- Of 2^32 bytes none is written. -/
theorem write_loses_length :
    ¬ ∀ (buffer : List UInt8) (answers : Nat → Answer) (reopen : Reopening) (s : CSocket),
      buffer.length < 2 ^ 64 → WritesWell buffer answers reopen s := by
  intro hall
  have hlength : (List.replicate (2 ^ 32) (0 : UInt8)).length = 2 ^ 32 := List.length_replicate
  have hzero : intOfSize (2 ^ 32) = 0 := by decide
  refine not_well_zero (List.replicate (2 ^ 32) 0) ?_ ?_ (fun _ => ⟨.bytes 0, false⟩)
    (hall _ _ ⟨true, 4⟩ { fd := 3, state := .connected } ?_)
  · rw [hlength]
    decide
  · rw [hlength, hzero]
  · rw [hlength]
    decide

end Long

end CSocket

end EpicsTcl.Support
