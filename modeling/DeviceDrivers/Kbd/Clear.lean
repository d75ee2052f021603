import DeviceDrivers.Kbd.Capacity

/-!
# Clearing the keyboard buffer

`reset_buffer` rewinds the indices and leaves the old characters in `buff`, and `put_char` writes
only the slot that is read next. A read after a clear that runs past the slots written since then
delivers characters typed before it. `sinceClear` follows which slots have been written; what is
delivered after a clear is independent of what was typed before it exactly when every character
delivered comes from such a slot (`clear_hides_iff`).
-/

namespace DeviceDrivers.Kbd

/-- The device since a clear, started from an empty buffer, and the slots written since then. -/
structure Since where
  dev : KbdDev
  written : List Nat

def sinceStep (s : Since) (e : KbdEvent) : Since where
  dev := (kbdStep s.dev e).1
  written := if e.isPress then s.dev.getIdx :: s.written else s.written

def sinceClear : Machine Since KbdEvent Unit := ⟨⟨.fresh, []⟩, fun s e => some (sinceStep s e, ())⟩

/-- Every character a read stores for the user comes from a slot written since the clear. -/
def ReadsWritten (s : Since) : KbdEvent → Prop
  | .read size fault => ∀ i < storedCount fault (min size s.dev.cnt),
      (s.dev.getIdx + i) % BUFF_SIZE ∈ s.written
  | _ => True

/-- Two devices after the same events since a clear: the indices are those of `s`, the slots
written since agree, and the others are related by `U`. -/
structure Twins (U : UInt8 → UInt8 → Prop) (d₁ d₂ : KbdDev) (s : Since) : Prop where
  getIdx_lt : s.dev.getIdx < BUFF_SIZE
  getIdx₁ : d₁.getIdx = s.dev.getIdx
  getIdx₂ : d₂.getIdx = s.dev.getIdx
  cnt₁ : d₁.cnt = s.dev.cnt
  cnt₂ : d₂.cnt = s.dev.cnt
  same : ∀ j ∈ s.written, d₁.slot j = d₂.slot j
  old : ∀ j < BUFF_SIZE, j ∉ s.written → U (d₁.slot j) (d₂.slot j)

variable {U : UInt8 → UInt8 → Prop} {d₁ d₂ : KbdDev} {s : Since}

theorem twins_press (h : Twins U d₁ d₂ s) (ch : UInt8) :
    Twins U (putChar d₁ ch) (putChar d₂ ch)
      ⟨putChar s.dev ch, s.dev.getIdx :: s.written⟩ := by
  have hi := h.getIdx_lt
  refine ⟨hi, h.getIdx₁, h.getIdx₂, ?_, ?_, fun j hj => ?_, fun j hj hout => ?_⟩
  · rw [putChar_cnt, h.cnt₁, putChar_cnt]
  · rw [putChar_cnt, h.cnt₂, putChar_cnt]
  · by_cases hself : j = s.dev.getIdx
    · subst hself
      rw [← h.getIdx₁, putChar_slot_self d₁ ch (h.getIdx₁ ▸ hi), h.getIdx₁, ← h.getIdx₂,
        putChar_slot_self d₂ ch (h.getIdx₂ ▸ hi)]
    · rw [putChar_slot_ne d₁ ch (h.getIdx₁ ▸ hself), putChar_slot_ne d₂ ch (h.getIdx₂ ▸ hself)]
      exact h.same j (by simpa [hself] using hj)
  · obtain ⟨hself, hout⟩ := not_or.mp (List.mem_cons.not.mp hout)
    rw [putChar_slot_ne d₁ ch (h.getIdx₁ ▸ hself), putChar_slot_ne d₂ ch (h.getIdx₂ ▸ hself)]
    exact h.old j hj hout

theorem twins_advance (h : Twins U d₁ d₂ s) (n : Nat) :
    Twins U (d₁.advance n) (d₂.advance n) { s with dev := s.dev.advance n } := by
  refine ⟨advance_getIdx_lt _ _, ?_, ?_, ?_, ?_, h.same, h.old⟩
  · simp [KbdDev.advance, h.getIdx₁]
  · simp [KbdDev.advance, h.getIdx₂]
  · simp [KbdDev.advance, h.cnt₁]
  · simp [KbdDev.advance, h.cnt₂]

theorem twins_step (h : Twins U d₁ d₂ s) (e : KbdEvent) :
    Twins U (kbdStep d₁ e).1 (kbdStep d₂ e).1 (sinceStep s e) := by
  cases e with
  | irq data =>
    by_cases hp : isKeyPress data.toUInt32 = true
    · simpa [sinceStep, kbdStep, kbdIrqHandler, KbdEvent.isPress, hp] using twins_press h _
    · simpa [sinceStep, kbdStep, kbdIrqHandler, KbdEvent.isPress, hp] using h
  | read size fault =>
    have hread : sinceStep s (.read size fault) =
        { s with dev := s.dev.advance (takenCount fault (min size s.dev.cnt)) } := by
      simp [sinceStep, kbdStep, KbdEvent.isPress, kbdRead_eq h.getIdx_lt, readOutcome]
    rw [hread]
    simp only [kbdStep, kbdRead_eq (h.getIdx₁ ▸ h.getIdx_lt), kbdRead_eq (h.getIdx₂ ▸ h.getIdx_lt),
      readOutcome, h.cnt₁, h.cnt₂]
    exact twins_advance h _
  | write size => exact ⟨Nat.zero_lt_succ _, rfl, rfl, rfl, rfl, h.same, h.old⟩

theorem twins_stored (h : Twins U d₁ d₂ s) (size : Nat) (fault : Option Nat) :
    (kbdRead d₁ size fault).stored = (List.range (storedCount fault (min size s.dev.cnt))).map
        (fun i => d₁.slot ((s.dev.getIdx + i) % BUFF_SIZE)) ∧
      (kbdRead d₂ size fault).stored = (List.range (storedCount fault (min size s.dev.cnt))).map
        (fun i => d₂.slot ((s.dev.getIdx + i) % BUFF_SIZE)) := by
  rw [kbdRead_eq (h.getIdx₁ ▸ h.getIdx_lt), kbdRead_eq (h.getIdx₂ ▸ h.getIdx_lt)]
  simp only [readOutcome, h.cnt₁, h.cnt₂, h.getIdx₁, h.getIdx₂, and_self]

theorem twins_output (h : Twins U d₁ d₂ s) {e : KbdEvent} (hw : ReadsWritten s e) :
    (kbdStep d₁ e).2 = (kbdStep d₂ e).2 := by
  cases e with
  | irq data => rfl
  | read size fault =>
    have hret : (kbdRead d₁ size fault).ret = (kbdRead d₂ size fault).ret := by
      rw [kbdRead_eq (h.getIdx₁ ▸ h.getIdx_lt), kbdRead_eq (h.getIdx₂ ▸ h.getIdx_lt)]
      simp only [readOutcome, h.cnt₁, h.cnt₂]
    obtain ⟨h₁, h₂⟩ := twins_stored h size fault
    simp only [kbdStep, hret, h₁, h₂, KbdOutput.mk.injEq, true_and]
    refine List.map_congr_left fun i hi => ?_
    exact h.same _ (hw i (List.mem_range.mp hi))
  | write size => rfl

theorem twins_run (h : Twins U d₁ d₂ sinceClear.init) (es : List KbdEvent) :
    ∃ e₁ e₂ s os₁ os₂ ls, kbd.runFrom d₁ es = some (e₁, os₁) ∧ kbd.runFrom d₂ es = some (e₂, os₂) ∧
      sinceClear.run es = some (s, ls) ∧ Twins U e₁ e₂ s ∧
      (sinceClear.EveryStep ReadsWritten es → os₁ = os₂) := by
  induction es using List.reverseRecOn with
  | nil => exact ⟨d₁, d₂, sinceClear.init, [], [], [], rfl, rfl, rfl, h, fun _ => rfl⟩
  | append_singleton es e ih =>
    obtain ⟨e₁, e₂, s, os₁, os₂, ls, h₁, h₂, hs, htwins, hout⟩ := ih
    refine ⟨_, _, sinceStep s e, os₁ ++ [(kbdStep e₁ e).2], os₂ ++ [(kbdStep e₂ e).2], ls ++ [()],
      kbd.runFrom_concat_eq_some.mpr ⟨e₁, os₁, _, h₁, rfl, rfl⟩,
      kbd.runFrom_concat_eq_some.mpr ⟨e₂, os₂, _, h₂, rfl, rfl⟩,
      sinceClear.run_concat_eq_some.mpr ⟨s, ls, (), hs, rfl, rfl⟩, twins_step htwins e, ?_⟩
    intro hall
    obtain ⟨hpre, hlast⟩ := Machine.everyStep_concat.mp hall
    rw [hout hpre, twins_output htwins (hlast s ls hs)]

/-! ### Histories that differ everywhere -/

/-- Press and read the key `data`, once round the ring. -/
def fill (data : UInt8) : List KbdEvent :=
  (List.replicate BUFF_SIZE [KbdEvent.irq data, .read 1 none]).flatten

theorem clear_run {h : List KbdEvent} {n : Nat} {dev : KbdDev} {os : List KbdOutput}
    (hrun : kbd.run (h ++ [.write n]) = some (dev, os)) : dev.getIdx = 0 ∧ dev.cnt = 0 := by
  obtain ⟨d, os', o, -, hstep, -⟩ := kbd.run_concat_eq_some.mp hrun
  obtain rfl : (kbdStep d (.write n)).1 = dev := congrArg Prod.fst (Option.some.inj hstep)
  exact ⟨rfl, rfl⟩

theorem fill_round {dev : KbdDev} (hi : dev.getIdx < BUFF_SIZE) (hcnt : dev.cnt = 0) {data : UInt8}
    (hpress : isKeyPress data.toUInt32 = true) :
    (kbdStep (kbdStep dev (.irq data)).1 (.read 1 none)).1 =
      (putChar dev (getAscii data.toUInt32)).advance 1 := by
  have hput : (kbdStep dev (.irq data)).1 = putChar dev (getAscii data.toUInt32) := by
    simp [kbdStep, kbdIrqHandler, hpress]
  have hone : (putChar dev (getAscii data.toUInt32)).cnt = 1 := by
    rw [putChar_cnt, hcnt]
    rfl
  have hi' : (putChar dev (getAscii data.toUInt32)).getIdx < BUFF_SIZE := hi
  rw [hput]
  simp only [kbdStep]
  rw [kbdRead_eq hi', hone]
  rfl

theorem fill_rounds {data : UInt8} (hpress : isKeyPress data.toUInt32 = true) {n : Nat}
    (hn : n ≤ BUFF_SIZE) :
    ∃ dev os, kbd.run (List.replicate n [KbdEvent.irq data, .read 1 none]).flatten = some (dev, os) ∧
      dev.getIdx = n % BUFF_SIZE ∧ dev.cnt = 0 ∧ ∀ j < n, dev.slot j = getAscii data.toUInt32 := by
  induction n with
  | zero => exact ⟨.fresh, [], rfl, rfl, rfl, fun j hj => absurd hj (Nat.not_lt_zero j)⟩
  | succ n ih =>
    obtain ⟨dev, os, hrun, hidx, hcnt, hslots⟩ := ih (by omega)
    rw [Nat.mod_eq_of_lt (by omega)] at hidx
    have hi : dev.getIdx < BUFF_SIZE := by omega
    obtain ⟨os', hround⟩ : ∃ os', kbd.runFrom dev [.irq data, .read 1 none] =
        some ((putChar dev (getAscii data.toUInt32)).advance 1, os') := by
      rw [← fill_round hi hcnt hpress]
      exact ⟨_, rfl⟩
    refine ⟨(putChar dev (getAscii data.toUInt32)).advance 1, os ++ os', ?_, ?_, ?_, ?_⟩
    · rw [List.replicate_succ', List.flatten_append, List.flatten_singleton]
      exact kbd.runFrom_append_eq_some.mpr ⟨dev, os, _, hrun, hround, rfl⟩
    · simp [KbdDev.advance, hidx]
    · simp [KbdDev.advance, hcnt, sizeT]
    · intro j hj
      rw [slot_advance]
      by_cases hself : j = dev.getIdx
      · rw [hself]
        exact putChar_slot_self dev _ hi
      · rw [putChar_slot_ne dev _ hself]
        exact hslots j (by omega)

theorem fill_slots {data : UInt8} (hpress : isKeyPress data.toUInt32 = true) :
    ∃ dev os, kbd.run (fill data ++ [.write 0]) = some (dev, os) ∧
      ∀ j < BUFF_SIZE, dev.slot j = getAscii data.toUInt32 := by
  obtain ⟨dev, os, hrun, -, -, hslots⟩ := fill_rounds hpress (Nat.le_refl BUFF_SIZE)
  exact ⟨resetBuffer dev, _, kbd.run_concat_eq_some.mpr ⟨dev, os, _, hrun, rfl, rfl⟩, hslots⟩

theorem exists_twins : ∃ d₁ d₂ os₁ os₂, kbd.run (fill 0x10 ++ [.write 0]) = some (d₁, os₁) ∧
    kbd.run (fill 0x11 ++ [.write 0]) = some (d₂, os₂) ∧
    Twins (· ≠ ·) d₁ d₂ sinceClear.init := by
  obtain ⟨d₁, os₁, h₁, hslot₁⟩ := @fill_slots 0x10 (by decide)
  obtain ⟨d₂, os₂, h₂, hslot₂⟩ := @fill_slots 0x11 (by decide)
  obtain ⟨hi₁, hc₁⟩ := clear_run h₁
  obtain ⟨hi₂, hc₂⟩ := clear_run h₂
  refine ⟨d₁, d₂, os₁, os₂, h₁, h₂, Nat.zero_lt_succ _, hi₁, hi₂, hc₁, hc₂, ?_, ?_⟩
  · exact fun j hj => absurd hj (List.not_mem_nil)
  · intro j hj _
    rw [hslot₁ j hj, hslot₂ j hj]
    decide

theorem twins_differ (h : Twins (· ≠ ·) d₁ d₂ s) {e : KbdEvent} (hbad : ¬ ReadsWritten s e) :
    (kbdStep d₁ e).2 ≠ (kbdStep d₂ e).2 := by
  cases e with
  | irq data => exact (hbad trivial).elim
  | write size => exact (hbad trivial).elim
  | read size fault =>
    intro heq
    simp only [ReadsWritten, not_forall] at hbad
    obtain ⟨i, hi, hslot⟩ := hbad
    obtain ⟨h₁, h₂⟩ := twins_stored h size fault
    have hstored : (kbdRead d₁ size fault).stored = (kbdRead d₂ size fault).stored :=
      congrArg KbdOutput.stored heq
    rw [h₁, h₂] at hstored
    exact h.old _ (Nat.mod_lt _ (by decide)) hslot
      (List.map_inj_left.mp hstored i (List.mem_range.mpr hi))

/-- **A clear hides what was typed before it exactly when later reads stay within the slots written
since.** For every continuation `es`: whatever the two histories before a clear, all calls of `es`
return the same values and bytes in both runs, exactly when every byte a read of `es` delivers
comes from a slot that a key press of `es` has written. -/
theorem clear_hides_iff (es : List KbdEvent) :
    (∀ (h₁ h₂ : List KbdEvent) (n₁ n₂ : Nat) (d₁ d₂ : KbdDev) (os₁ os₂ : List KbdOutput),
      kbd.run (h₁ ++ [.write n₁]) = some (d₁, os₁) → kbd.run (h₂ ++ [.write n₂]) = some (d₂, os₂) →
        (kbd.runFrom d₁ es).map (·.2) = (kbd.runFrom d₂ es).map (·.2)) ↔
      sinceClear.EveryStep ReadsWritten es := by
  constructor
  · intro hhides
    by_contra hall
    obtain ⟨s', ls', hrun⟩ := sinceClear.exists_run (fun _ _ => rfl) es
    obtain ⟨pre, e, post, s, ls, rfl, hs, hgood, hbad⟩ := Machine.exists_first_failure hrun hall
    obtain ⟨d₁, d₂, os₁, os₂, h₁, h₂, htwins⟩ := exists_twins
    have hsame := hhides _ _ _ _ d₁ d₂ os₁ os₂ h₁ h₂
    obtain ⟨e₁, e₂, t, ps₁, ps₂, ks, hr₁, hr₂, ht, htwins', hps⟩ := twins_run htwins pre
    obtain ⟨rfl, -⟩ := Prod.mk.inj (Option.some.inj (hs.symm.trans ht))
    obtain rfl := hps hgood
    -- the outputs of `pre` agree, those of `e` do not
    obtain ⟨u₁, qs₁, hu₁⟩ := kbd.exists_runFrom (fun _ _ => rfl) (kbdStep e₁ e).1 post
    obtain ⟨u₂, qs₂, hu₂⟩ := kbd.exists_runFrom (fun _ _ => rfl) (kbdStep e₂ e).1 post
    have hfull₁ : kbd.runFrom d₁ (pre ++ e :: post) = some (u₁, ps₁ ++ (kbdStep e₁ e).2 :: qs₁) :=
      kbd.runFrom_append_eq_some.mpr ⟨e₁, ps₁, _, hr₁,
        kbd.runFrom_cons_eq_some.mpr ⟨_, _, qs₁, rfl, hu₁, rfl⟩, rfl⟩
    have hfull₂ : kbd.runFrom d₂ (pre ++ e :: post) = some (u₂, ps₁ ++ (kbdStep e₂ e).2 :: qs₂) :=
      kbd.runFrom_append_eq_some.mpr ⟨e₂, ps₁, _, hr₂,
        kbd.runFrom_cons_eq_some.mpr ⟨_, _, qs₂, rfl, hu₂, rfl⟩, rfl⟩
    rw [hfull₁, hfull₂, Option.map_some, Option.map_some, Option.some.injEq,
      List.append_cancel_left_eq, List.cons.injEq] at hsame
    exact twins_differ htwins' hbad hsame.1
  · intro hall h₁ h₂ n₁ n₂ d₁ d₂ os₁ os₂ hrun₁ hrun₂
    obtain ⟨hi₁, hc₁⟩ := clear_run hrun₁
    obtain ⟨hi₂, hc₂⟩ := clear_run hrun₂
    have htwins : Twins (fun _ _ => True) d₁ d₂ sinceClear.init :=
      ⟨Nat.zero_lt_succ _, hi₁, hi₂, hc₁, hc₂, fun j hj => absurd hj (List.not_mem_nil),
        fun _ _ _ => trivial⟩
    obtain ⟨e₁, e₂, t, ps₁, ps₂, ks, hr₁, hr₂, -, -, hps⟩ := twins_run htwins es
    simp [hr₁, hr₂, hps hall]

/-- `b` typed, read up to, and cleared, against a clear of the fresh device: after two presses of `q`
and a read of two bytes the first user sees the `b`. -/
theorem clear_leaks_old_key :
    ∃ d₁ d₂ os₁ os₂,
      kbd.run ([.irq 0x1e, .read 1 none, .irq 0x30] ++ [.write 0]) = some (d₁, os₁) ∧
      kbd.run ([] ++ [.write 0]) = some (d₂, os₂) ∧
      (kbd.runFrom d₁ [.irq 0x10, .irq 0x10, .read 2 none]).map (·.2) =
        some [⟨0, []⟩, ⟨0, []⟩, ⟨2, [113, 98]⟩] ∧
      (kbd.runFrom d₂ [.irq 0x10, .irq 0x10, .read 2 none]).map (·.2) =
        some [⟨0, []⟩, ⟨0, []⟩, ⟨2, [113, 0]⟩] := by
  have h₁ : (kbd.run ([.irq 0x1e, .read 1 none, .irq 0x30] ++ [.write 0])).bind (fun r =>
      (kbd.runFrom r.1 [.irq 0x10, .irq 0x10, .read 2 none]).map (·.2)) =
        some [⟨0, []⟩, ⟨0, []⟩, ⟨2, [113, 98]⟩] := by decide +kernel
  have h₂ : (kbd.run ([] ++ [.write 0])).bind (fun r =>
      (kbd.runFrom r.1 [.irq 0x10, .irq 0x10, .read 2 none]).map (·.2)) =
        some [⟨0, []⟩, ⟨0, []⟩, ⟨2, [113, 0]⟩] := by decide +kernel
  obtain ⟨⟨d₁, os₁⟩, hrun₁, hout₁⟩ := Option.bind_eq_some_iff.mp h₁
  obtain ⟨⟨d₂, os₂⟩, hrun₂, hout₂⟩ := Option.bind_eq_some_iff.mp h₂
  exact ⟨d₁, d₂, os₁, os₂, hrun₁, hrun₂, hout₁, hout₂⟩

end DeviceDrivers.Kbd
