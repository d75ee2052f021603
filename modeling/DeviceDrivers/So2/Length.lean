import DeviceDrivers.So2.Reads

/-!
# The length of the message, three times

The length of the message is kept in `msg_len`, found again by `strlen`, and returned by `so2_write`. The
three agree only after a write of at most `MSG_MAX - 1` bytes without a NUL: `so2_cdev_init` sets a message
but no length, `strlen` stops at the first NUL of the payload, and `so2_write` returns the size it was
asked for where it stores less (`length_accounting_iff`).
-/

namespace DeviceDrivers.So2

open CString

/-- The size and the payload of a write whose copy succeeds. -/
def So2Event.written : So2Event → Option (Nat × List UInt8)
  | .write _ size (.done w) => some (size, w)
  | _ => none

/-- The writes of a run, in their order. -/
def writes (es : List So2Event) : List (Nat × List UInt8) := es.filterMap So2Event.written

def lastWrite (es : List So2Event) : Option (Nat × List UInt8) := (writes es).getLast?

/-- A write returns the number of bytes it stored, which is the length it set. -/
def ReturnsStored (s : Sys) (e : So2Event) : Prop :=
  e.isWrite = true → ∀ t o, so2.step s e = some (t, o) → o.ret = t.dev.msgLen

/-- Reading the device from its start to the end delivers `msg_len` bytes. -/
def LengthRead (data : So2DeviceData) : Prop := ReadingToEnd data 0 (·.length = data.msgLen)

/-! ### What a run leaves in the device -/

/-- The message and the length after a run with the given last write. -/
def Leaves (data : So2DeviceData) : Option (Nat × List UInt8) → Prop
  | none => data.string = MESSAGE ∧ data.msgLen = 0
  | some (size, w) => data.string = content 0 (w.take (writeLength size)) ∧
      data.msgLen = writeLength size ∧ writeLength size ≤ w.length

theorem writes_concat (es : List So2Event) (e : So2Event) :
    writes (es ++ [e]) = writes es ++ e.written.toList := by
  unfold writes
  rw [List.filterMap_append]
  cases h : e.written with
  | none => simp [h]
  | some p => simp [h]

theorem lastWrite_of_none {es : List So2Event} {e : So2Event} (h : e.written = none) :
    lastWrite (es ++ [e]) = lastWrite es := by
  unfold lastWrite
  rw [writes_concat, h, Option.toList_none, List.append_nil]

theorem lastWrite_of_some {es : List So2Event} {e : So2Event} {p : Nat × List UInt8}
    (h : e.written = some p) : lastWrite (es ++ [e]) = some p := by
  unfold lastWrite
  rw [writes_concat, h, Option.toList_some, List.getLast?_concat]

theorem run_leaves {es : List So2Event} {s : Sys} {os : List So2Output}
    (hrun : so2.run es = some (s, os)) (hok : ∀ e ∈ es, e.copiesSucceed = true) :
    Leaves s.dev (lastWrite es) := by
  induction es using List.reverseRecOn generalizing s os with
  | nil =>
    obtain ⟨rfl, -⟩ := Prod.mk.inj (Option.some.inj hrun)
    exact ⟨by decide +kernel, rfl⟩
  | append_singleton es e ih =>
    obtain ⟨t, os', o, hes, hstep, -⟩ := so2.run_concat_eq_some.mp hrun
    rw [List.forall_mem_append, List.forall_mem_singleton] at hok
    have ht := ih hes hok.1
    obtain ⟨f, rfl, -, -, rfl, -⟩ | ⟨f, rfl, -, -, rfl, -⟩ | ⟨f, rfl, -, rfl, -⟩ |
      ⟨f, size, limit, file, rfl, -, rfl, -⟩ | ⟨f, size, copy, file, rfl, hfits, -, rfl, -⟩ :=
        so2Step_cases hstep
    · rw [lastWrite_of_none rfl]
      exact ht
    · rw [lastWrite_of_none rfl]
      exact ht
    · rw [lastWrite_of_none rfl]
      exact ht
    · rw [lastWrite_of_none rfl]
      exact ht
    · cases copy with
      | fault left => simp [So2Event.copiesSucceed] at hok
      | done w =>
        have hw : writeLength size ≤ w.length := by simpa [UserCopy.fits] using hfits
        rw [lastWrite_of_some rfl]
        refine ⟨so2Write_string t.dev size file.pos hw, ?_, hw⟩
        rw [so2Write_done]

/-! ### Where the lengths agree -/

theorem lengthRead_iff (data : So2DeviceData) : LengthRead data ↔ data.string.length = data.msgLen :=
  readingToEnd_iff data 0 _

theorem lengthRead_iff_of_leaves {data : So2DeviceData} {last : Option (Nat × List UInt8)}
    (h : Leaves data last) :
    LengthRead data ↔ ∃ size w, last = some (size, w) ∧ 0 ∉ w.take (writeLength size) := by
  rw [lengthRead_iff]
  cases last with
  | none =>
    obtain ⟨hstring, hlen⟩ := h
    rw [hstring, hlen]
    exact iff_of_false (by decide) (by simp)
  | some p =>
    obtain ⟨size, w⟩ := p
    obtain ⟨hstring, hlen, hw⟩ := h
    have htake : (w.take (writeLength size)).length = writeLength size := by
      rw [List.length_take, min_eq_left hw]
    have hnul : data.string.length = data.msgLen ↔ 0 ∉ w.take (writeLength size) := by
      rw [← length_content_eq, hstring, hlen, htake]
    rw [hnul]
    constructor
    · intro h0
      exact ⟨size, w, rfl, h0⟩
    · rintro ⟨size', w', heq, h0⟩
      obtain ⟨rfl, rfl⟩ := Prod.mk.inj (Option.some.inj heq)
      exact h0

theorem so2_write_step {s t : Sys} {f size : Nat} {w : List UInt8} {o : So2Output}
    (hstep : so2.step s (.write f size (.done w)) = some (t, o)) :
    o.ret = ssizeT size ∧ t.dev.msgLen = writeLength size := by
  simp only [so2, so2Step] at hstep
  split_ifs at hstep
  obtain ⟨file, -, heq⟩ := Option.map_eq_some_iff.mp hstep
  obtain ⟨rfl, rfl⟩ := Prod.mk.inj heq
  simp only [so2Write_done, and_self]

theorem returnsStored_iff {s t : Sys} {e : So2Event} {o : So2Output} (he : e.copiesSucceed = true)
    (hsize : ∀ p ∈ e.written.toList, p.1 < 2 ^ 64) (hstep : so2.step s e = some (t, o)) :
    ReturnsStored s e ↔ ∀ p ∈ e.written.toList, p.1 ≤ MSG_MAX - 1 := by
  have hmax : MSG_MAX = 128 := rfl
  cases e with
  | tryOpen f => simp [ReturnsStored, So2Event.isWrite, So2Event.written]
  | release f => simp [ReturnsStored, So2Event.isWrite, So2Event.written]
  | read f size limit => simp [ReturnsStored, So2Event.isWrite, So2Event.written]
  | write f size copy =>
    cases copy with
    | fault left => simp [So2Event.copiesSucceed] at he
    | done w =>
      have hlt : size < 2 ^ 64 := hsize (size, w) (by simp [So2Event.written])
      have hle : (∀ p ∈ (So2Event.write f size (.done w)).written.toList, p.1 ≤ MSG_MAX - 1) ↔
          size = writeLength size := by
        rw [So2Event.written, Option.toList_some, List.forall_mem_singleton]
        unfold writeLength
        omega
      obtain ⟨hret, hlen⟩ := so2_write_step hstep
      rw [hle, ← ssizeT_eq_iff hlt (by unfold writeLength; omega), ← hret, ← hlen]
      constructor
      · intro h
        exact h rfl t o hstep
      · rintro h - t' o' hstep'
        obtain ⟨rfl, rfl⟩ := Prod.mk.inj (Option.some.inj (hstep.symm.trans hstep'))
        exact h

theorem everyStep_returnsStored_iff {es : List So2Event} {s : Sys} {os : List So2Output}
    (hrun : so2.run es = some (s, os)) (hok : ∀ e ∈ es, e.copiesSucceed = true)
    (hsizes : ∀ p ∈ writes es, p.1 < 2 ^ 64) :
    so2.EveryStep ReturnsStored es ↔ ∀ p ∈ writes es, p.1 ≤ MSG_MAX - 1 := by
  induction es using List.reverseRecOn generalizing s os with
  | nil => exact iff_of_true Machine.everyStep_nil (by simp [writes])
  | append_singleton es e ih =>
    obtain ⟨t, os', o, hes, hstep, -⟩ := so2.run_concat_eq_some.mp hrun
    rw [List.forall_mem_append, List.forall_mem_singleton] at hok
    rw [writes_concat, List.forall_mem_append] at hsizes ⊢
    rw [Machine.everyStep_concat, ih hes hok.1 hsizes.1, Machine.forall_run_iff hes,
      returnsStored_iff hok.2 hsizes.2 hstep]

/-- After every run whose user copies succeed, every write has returned what it stored and `msg_len` is
what reading delivers exactly when no write was of more than `MSG_MAX - 1` bytes and there was a write, the
last of which stored no NUL. -/
theorem length_accounting_iff {es : List So2Event} {s : Sys} {os : List So2Output}
    (hrun : so2.run es = some (s, os)) (hok : ∀ e ∈ es, e.copiesSucceed = true)
    (hsizes : ∀ p ∈ writes es, p.1 < 2 ^ 64) :
    so2.EveryStep ReturnsStored es ∧ LengthRead s.dev ↔
      (∀ p ∈ writes es, p.1 ≤ MSG_MAX - 1) ∧
        ∃ size w, lastWrite es = some (size, w) ∧ 0 ∉ w.take (writeLength size) := by
  rw [everyStep_returnsStored_iff hrun hok hsizes, lengthRead_iff_of_leaves (run_leaves hrun hok)]

/-- The freshly loaded device says that its message of 15 bytes has none. -/
theorem loaded_length_not_read : ∃ s, so2.run [] = some (s, []) ∧ ¬ LengthRead s.dev := by
  refine ⟨so2.init, rfl, ?_⟩
  rw [lengthRead_iff]
  decide +kernel

theorem length_accounting_iff_short_write :
    ∃ s os, so2.run [.tryOpen 1, .write 1 2 (.done [104, 105])] = some (s, os) ∧ LengthRead s.dev := by
  have hrun : (so2.run [.tryOpen 1, .write 1 2 (.done [104, 105])]).isSome := by decide +kernel
  obtain ⟨⟨s, os⟩, hs⟩ := Option.isSome_iff_exists.mp hrun
  refine ⟨s, os, hs, ?_⟩
  exact ((length_accounting_iff hs (by decide) (by decide)).mpr
    ⟨by decide, 2, [104, 105], rfl, by decide⟩).2

end DeviceDrivers.So2
