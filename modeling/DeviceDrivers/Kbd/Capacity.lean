import DeviceDrivers.Kbd.Ring
import DeviceDrivers.Lib.Cyclic

/-!
# The capacity of the keyboard ring

`put_char` does not look at `cnt`: a key pressed on a full buffer is counted although there is no
slot for it. The buffer stays within its capacity exactly in the runs in which every key press
finds a free slot (`withinCapacity_iff`).
-/

namespace DeviceDrivers.Kbd

/-- The buffer is not over-full: `cnt` is at most the capacity, and no read delivers more bytes
than that or takes a slot twice. -/
structure WithinCapacity (dev : KbdDev) : Prop where
  cnt_le : dev.cnt ≤ BUFF_SIZE
  stored_le : ∀ size fault, (kbdRead dev size fault).stored.length ≤ BUFF_SIZE
  slots_nodup : ∀ size fault, (kbdRead dev size fault).slots.Nodup

/-- A key press finds a free slot. -/
def RoomForPress (dev : KbdDev) (e : KbdEvent) : Prop := e.isPress = true → dev.cnt < BUFF_SIZE

theorem withinCapacity_of_cnt_le {dev : KbdDev} (hi : dev.getIdx < BUFF_SIZE)
    (h : dev.cnt ≤ BUFF_SIZE) : WithinCapacity dev := by
  refine ⟨h, fun size fault => ?_, fun size fault => ?_⟩
  · rw [kbdRead_eq hi]
    simp only [readOutcome, List.length_map, List.length_range]
    have := storedCount_le fault (min size dev.cnt)
    omega
  · rw [kbdRead_eq hi]
    have := takenCount_le fault (min size dev.cnt)
    exact Cyclic.nodup_positions (by omega)

theorem kbdStep_cnt_le {dev : KbdDev} (hi : dev.getIdx < BUFF_SIZE) {e : KbdEvent}
    (he : e.isPress = false) : (kbdStep dev e).1.cnt ≤ dev.cnt := by
  cases e with
  | irq data =>
    simp only [KbdEvent.isPress] at he
    simp [kbdStep, kbdIrqHandler, he]
  | read size fault =>
    simp only [kbdStep, kbdRead_eq hi, readOutcome]
    exact Nat.sub_le _ _
  | write size => exact Nat.zero_le _

theorem kbdStep_press (dev : KbdDev) {e : KbdEvent} (he : e.isPress = true) :
    ∃ ch, (kbdStep dev e).1 = putChar dev ch := by
  cases e with
  | irq data =>
    simp only [KbdEvent.isPress] at he
    exact ⟨getAscii data.toUInt32, by simp [kbdStep, kbdIrqHandler, he]⟩
  | read size fault => simp [KbdEvent.isPress] at he
  | write size => simp [KbdEvent.isPress] at he

theorem withinCapacity_step {dev : KbdDev} (hi : dev.getIdx < BUFF_SIZE) (h : WithinCapacity dev)
    (e : KbdEvent) : WithinCapacity (kbdStep dev e).1 ↔ RoomForPress dev e := by
  have hcap : BUFF_SIZE = 100 := rfl
  have hle := h.cnt_le
  have hi' := kbdStep_getIdx_lt hi e
  cases he : e.isPress with
  | false =>
    have hcnt : (kbdStep dev e).1.cnt ≤ BUFF_SIZE := (kbdStep_cnt_le hi he).trans hle
    exact ⟨fun _ hpress => by simp [he] at hpress, fun _ => withinCapacity_of_cnt_le hi' hcnt⟩
  | true =>
    obtain ⟨ch, hch⟩ := kbdStep_press dev he
    have hcnt : (kbdStep dev e).1.cnt = dev.cnt + 1 := by
      rw [hch, putChar_cnt, sizeT_of_lt (by omega)]
    constructor
    · intro h' _
      have := h'.cnt_le
      omega
    · intro hroom
      have := hroom he
      exact withinCapacity_of_cnt_le hi' (by omega)

/-- **The ring stays within its capacity exactly when every key press finds a free slot.** -/
theorem withinCapacity_iff (es : List KbdEvent) :
    kbd.Always WithinCapacity es ↔ kbd.EveryStep RoomForPress es := by
  obtain ⟨dev, os, hrun⟩ := kbd.exists_run (fun _ _ => rfl) es
  refine Machine.always_iff_everyStep kbd_getIdx_invariant ?_ ?_ hrun
  · exact withinCapacity_of_cnt_le kbd_getIdx_invariant.init (Nat.zero_le _)
  · intro s t e o hi hs hstep
    obtain rfl : (kbdStep s e).1 = t := congrArg Prod.fst (Option.some.inj hstep)
    exact withinCapacity_step hi hs e

/-- 101 presses of `q` with no reader: `cnt` is 101, and one read of 101 bytes is served in full,
its first and its last byte from slot 0. -/
theorem overfilled_by_101_presses :
    ∃ dev os, kbd.run (List.replicate 101 (.irq 0x10)) = some (dev, os) ∧
      ¬ dev.cnt ≤ BUFF_SIZE ∧ ¬ (kbdRead dev 101 none).stored.length ≤ BUFF_SIZE ∧
      ¬ (kbdRead dev 101 none).slots.Nodup := by
  obtain ⟨dev, os, hrun⟩ := kbd.exists_run (fun _ _ => rfl) (List.replicate 101 (.irq 0x10))
  have heval : (kbd.run (List.replicate 101 (.irq 0x10))).all (fun r =>
      !decide (r.1.cnt ≤ BUFF_SIZE) && !decide ((kbdRead r.1 101 none).stored.length ≤ BUFF_SIZE) &&
        !decide (kbdRead r.1 101 none).slots.Nodup) = true := by
    decide +kernel
  simp only [hrun, Option.all_some, Bool.and_eq_true, Bool.not_eq_true', decide_eq_false_iff_not]
    at heval
  exact ⟨dev, os, hrun, heval.1.1, heval.1.2, heval.2⟩

end DeviceDrivers.Kbd
