import DeviceDrivers.Kbd.Readers

/-!
# The critical sections of the keyboard ring

Whatever the callers are, the ring changes only in the sections under its lock: `put_char`, `get_char`
and `reset_buffer`. `sections` runs them in any order. The indices stay in the buffer and `putIdx` is
`cnt` places past `getIdx`, also when `cnt` has outgrown the buffer: all three hold until the counter
itself wraps around, which takes `2 ^ 64` calls of `put_char`.
-/

namespace DeviceDrivers.Kbd

inductive Section
  | put (ch : UInt8)
  | get
  | reset
  deriving DecidableEq

def Section.isPut : Section → Bool
  | .put _ => true
  | _ => false

/-- The output is the character of a `get_char` that found one. -/
def sectionStep (dev : KbdDev) : Section → KbdDev × Option UInt8
  | .put ch => (putChar dev ch, none)
  | .get =>
    match getChar dev with
    | some (ch, dev') => (dev', some ch)
    | none => (dev, none)
  | .reset => (resetBuffer dev, none)

def sections : Machine KbdDev Section (Option UInt8) := ⟨.fresh, fun dev e => some (sectionStep dev e)⟩

/-- The indices are in the buffer, `putIdx` is `cnt` places past `getIdx`. -/
structure InRange (dev : KbdDev) : Prop where
  getIdx_lt : dev.getIdx < BUFF_SIZE
  putIdx_lt : dev.putIdx < BUFF_SIZE
  putIdx_eq : dev.putIdx = (dev.getIdx + dev.cnt) % BUFF_SIZE

theorem InRange.putChar {dev : KbdDev} (h : InRange dev) (hcnt : dev.cnt + 1 < 2 ^ 64) (ch : UInt8) :
    InRange (putChar dev ch) := by
  have hsmall : dev.putIdx + 1 < 2 ^ 64 := by
    have := h.putIdx_lt
    unfold BUFF_SIZE at this
    omega
  refine ⟨h.getIdx_lt, Nat.mod_lt _ (by decide), ?_⟩
  unfold Kbd.putChar
  dsimp only
  rw [sizeT_of_lt hsmall, sizeT_of_lt hcnt, h.putIdx_eq, Nat.mod_add_mod, Nat.add_assoc]

theorem InRange.advance {dev : KbdDev} (h : InRange dev) (hpos : 0 < dev.cnt) :
    InRange (dev.advance 1) := by
  refine ⟨advance_getIdx_lt dev 1, h.putIdx_lt, ?_⟩
  unfold KbdDev.advance
  dsimp only
  rw [Nat.mod_add_mod, h.putIdx_eq]
  congr 1
  omega

theorem InRange.sectionStep {dev : KbdDev} (h : InRange dev) {e : Section}
    (hcnt : e.isPut = true → dev.cnt + 1 < 2 ^ 64) :
    InRange (sectionStep dev e).1 ∧
      (Kbd.sectionStep dev e).1.cnt ≤ dev.cnt + if e.isPut then 1 else 0 := by
  cases e with
  | put ch =>
    have hlt : dev.cnt + 1 < 2 ^ 64 := hcnt rfl
    refine ⟨h.putChar hlt ch, ?_⟩
    change sizeT (dev.cnt + 1) ≤ dev.cnt + 1
    rw [sizeT_of_lt hlt]
  | get =>
    unfold Kbd.sectionStep
    rcases Nat.eq_zero_or_pos dev.cnt with hzero | hpos
    · rw [getChar_of_zero hzero]
      exact ⟨h, Nat.le_add_right _ _⟩
    · rw [getChar_of_pos h.getIdx_lt hpos]
      refine ⟨h.advance hpos, ?_⟩
      change dev.cnt - 1 ≤ _
      omega
  | reset => exact ⟨⟨Nat.zero_lt_succ _, Nat.zero_lt_succ _, rfl⟩, Nat.zero_le _⟩

theorem sections_inRange {es : List Section} {dev : KbdDev} {os : List (Option UInt8)}
    (hrun : sections.run es = some (dev, os)) (hputs : es.countP Section.isPut < 2 ^ 64) :
    InRange dev ∧ dev.cnt ≤ es.countP Section.isPut := by
  induction es using List.reverseRecOn generalizing dev os with
  | nil =>
    obtain ⟨rfl, -⟩ := Prod.mk.inj (Option.some.inj hrun)
    exact ⟨⟨Nat.zero_lt_succ _, Nat.zero_lt_succ _, rfl⟩, Nat.le_refl 0⟩
  | append_singleton es e ih =>
    obtain ⟨d, os', o, hpre, hstep, -⟩ := sections.run_concat_eq_some.mp hrun
    obtain rfl : (sectionStep d e).1 = dev := congrArg Prod.fst (Option.some.inj hstep)
    rw [List.countP_append, List.countP_singleton] at hputs ⊢
    obtain ⟨hd, hle⟩ := ih hpre (by omega)
    obtain ⟨hrange, hcnt⟩ := hd.sectionStep (e := e) (by
      intro he
      rw [if_pos he] at hputs
      omega)
    exact ⟨hrange, by omega⟩

/-- In every state of the ring the indices are in the buffer and `putIdx` is `cnt` places past `getIdx`;
`get_char` takes one from a positive `cnt`, and both `get_char` and `put_char` access a slot that
exists. -/
theorem ring_in_range {es : List Section} {dev : KbdDev} {os : List (Option UInt8)}
    (hrun : sections.run es = some (dev, os)) (hputs : es.countP Section.isPut < 2 ^ 64) :
    dev.getIdx < BUFF_SIZE ∧ dev.putIdx < BUFF_SIZE ∧
      dev.putIdx = (dev.getIdx + dev.cnt) % BUFF_SIZE ∧
      (∀ ch dev', getChar dev = some (ch, dev') →
        0 < dev.cnt ∧ dev'.cnt + 1 = dev.cnt ∧ dev.buff[dev.getIdx]? = some ch) ∧
      (∀ ch, (putChar dev ch).buff[dev.getIdx]? = some ch ∧
        ∀ i ≠ dev.getIdx, (putChar dev ch).buff[i]? = dev.buff[i]?) := by
  obtain ⟨h, -⟩ := sections_inRange hrun hputs
  refine ⟨h.getIdx_lt, h.putIdx_lt, h.putIdx_eq, ?_, ?_⟩
  · intro ch dev' hget
    rcases Nat.eq_zero_or_pos dev.cnt with hzero | hpos
    · simp [getChar_of_zero hzero] at hget
    · rw [getChar_of_pos h.getIdx_lt hpos] at hget
      obtain ⟨rfl, rfl⟩ := Prod.mk.inj (Option.some.inj hget)
      refine ⟨hpos, ?_, ?_⟩
      · exact Nat.sub_add_cancel hpos
      · simp [KbdDev.slot, h.getIdx_lt]
  · intro ch
    refine ⟨?_, ?_⟩
    · simp [putChar, h.getIdx_lt]
    · intro i hi
      simp [putChar, Ne.symm hi]

/-- Three characters put and one taken. -/
theorem ring_in_range_four_sections :
    ∃ dev os, sections.run [.put 97, .put 98, .get, .put 99] = some (dev, os) ∧
      dev.putIdx = (dev.getIdx + dev.cnt) % BUFF_SIZE := by
  refine ⟨_, _, rfl, ?_⟩
  exact (@ring_in_range [.put 97, .put 98, .get, .put 99] _ _ rfl (by decide)).2.2.1

/-! ### The calls of the driver are made of sections -/

theorem readersStep_section {s t : Sys} {e : ReadersEvent} (h : readersStep s e = some t) :
    (t.dev = s.dev ∧ t.presses = s.presses) ∨
      ∃ sec, t.dev = (sectionStep s.dev sec).1 ∧
        t.presses = s.presses + if sec.isPut then 1 else 0 := by
  obtain ⟨data, -, rfl⟩ | ⟨size, -, rfl⟩ | ⟨size, -, -, rfl⟩ | ⟨i, r, -, -, -, rfl⟩ |
    ⟨i, r, ch, ok, -, -, -, rfl⟩ := readersStep_cases h
  · by_cases hpress : isKeyPress data.toUInt32 = true
    · right
      refine ⟨.put (getAscii data.toUInt32), ?_, ?_⟩
      · simp [kbdIrqHandler, hpress, sectionStep]
      · simp [hpress, Section.isPut]
    · left
      simp [kbdIrqHandler, hpress]
  · right
    exact ⟨.reset, rfl, rfl⟩
  · left
    exact ⟨rfl, rfl⟩
  · unfold Sys.afterLoop
    split_ifs with hsize
    · left
      exact ⟨rfl, rfl⟩
    · right
      refine ⟨.get, ?_, ?_⟩
      · unfold sectionStep
        cases getChar s.dev <;> rfl
      · cases getChar s.dev <;> rfl
  · left
    exact ⟨rfl, rfl⟩

/-- The ring of the concurrent driver is reached by sections, one `put_char` for each key press. -/
theorem readers_run_sections {es : List ReadersEvent} {s : Sys} {os : List Unit}
    (hrun : readers.run es = some (s, os)) :
    ∃ secs os', sections.run secs = some (s.dev, os') ∧ secs.countP Section.isPut = s.presses := by
  induction es using List.reverseRecOn generalizing s os with
  | nil =>
    obtain ⟨rfl, -⟩ := Prod.mk.inj (Option.some.inj hrun)
    exact ⟨[], [], rfl, rfl⟩
  | append_singleton es e ih =>
    obtain ⟨s₀, os', o, hpre, hstep, -⟩ := readers.run_concat_eq_some.mp hrun
    obtain ⟨t, hmove, heq⟩ := Option.map_eq_some_iff.mp hstep
    obtain ⟨rfl, -⟩ := Prod.mk.inj heq
    obtain ⟨secs, outs, hsecs, hputs⟩ := ih hpre
    rcases readersStep_section hmove with ⟨hdev, hpresses⟩ | ⟨sec, hdev, hpresses⟩
    · exact ⟨secs, outs, by rw [hdev, hsecs], by rw [hpresses, hputs]⟩
    · refine ⟨secs ++ [sec], outs ++ [(sectionStep s₀.dev sec).2], ?_, ?_⟩
      · rw [hdev]
        exact sections.run_concat_eq_some.mpr ⟨s₀.dev, outs, _, hsecs, rfl, rfl⟩
      · rw [List.countP_append, List.countP_singleton, hputs, hpresses]

end DeviceDrivers.Kbd
