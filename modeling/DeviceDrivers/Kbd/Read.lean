import DeviceDrivers.Kbd.Ring

/-!
# One `kbd_read`, and the next ones

What a `kbd_read` without a fault does, for every ring and every size (`read_exact`), and what is left for
the next reads after one in which `put_user` fails (`faulting_read`). The loop here is the one of the source,
with the counter of type `size_t` that is tested and then decremented, so that the last test wraps it
around; `Kbd.Ring` has it as a recursion on the number of rounds left.
-/

namespace DeviceDrivers.Kbd

/-- The loop `while (size--)` of `kbd_read` after `read` stored bytes, for at most `fuel` tests. -/
def kbdReadWhile (fault : Option Nat) : Nat → BitVec 64 → Nat → KbdDev → Option ReadResult
  | 0, _, _, _ => none
  | fuel + 1, size, read, data =>
    let test := size
    -- the decrement happens also where the test ends the loop, and wraps there
    let size := size - 1
    if test = 0 then some ⟨ssizeT read, [], [], data⟩
    else
      match getChar data with
      | none => some ⟨ssizeT read, [], [], data⟩
      | some (ch, data') =>
        if fault = some read then some ⟨-EFAULT, [], [data.getIdx], data'⟩
        else (kbdReadWhile fault fuel size (read + 1) data').map fun r =>
          ⟨r.ret, ch :: r.stored, data.getIdx :: r.slots, r.dev⟩

/-- The characters in the ring, in the order in which reads take them. -/
def KbdDev.unread (data : KbdDev) : List UInt8 :=
  (List.range data.cnt).map fun i => data.slot ((data.getIdx + i) % BUFF_SIZE)

/-- Successful reads of any sizes, one after another, take the characters `chars` and no others. -/
def Delivers (data : KbdDev) (chars : List UInt8) : Prop :=
  ∀ sizes : List Nat, ∃ t os, kbd.runFrom data (sizes.map fun size => .read size none) = some (t, os) ∧
    (os.map KbdOutput.stored).flatten = chars.take sizes.sum

/-! ### The loop -/

theorem toNat_sub_one {size : BitVec 64} (h : size ≠ 0) : size.toNat = (size - 1).toNat + 1 := by
  bv_omega

/-- The loop ends after as many rounds as there are characters that were asked for. -/
theorem kbdReadWhile_eq (fault : Option Nat) {fuel : Nat} {size : BitVec 64} (read : Nat) {data : KbdDev}
    (h : min size.toNat data.cnt < fuel) :
    kbdReadWhile fault fuel size read data = some (kbdReadLoop fault size.toNat read data) := by
  induction fuel generalizing size read data with
  | zero => omega
  | succ fuel ih =>
    rw [kbdReadWhile]
    by_cases hsize : size = 0
    · subst hsize
      rw [if_pos rfl]
      rfl
    · have hsucc := toNat_sub_one hsize
      rw [if_neg hsize, hsucc, kbdReadLoop]
      cases hget : getChar data with
      | none => rfl
      | some p =>
        obtain ⟨ch, data'⟩ := p
        have hcnt : data.cnt = data'.cnt + 1 := by
          unfold getChar at hget
          split_ifs at hget with hpos
          obtain ⟨-, rfl⟩ := Prod.mk.inj (Option.some.inj hget)
          dsimp only
          omega
        dsimp only
        split_ifs
        · rfl
        · rw [ih (read + 1) (by omega)]
          rfl

/-! ### What is unread -/

theorem length_unread (data : KbdDev) : data.unread.length = data.cnt := by
  unfold KbdDev.unread
  rw [List.length_map, List.length_range]

theorem unread_advance (data : KbdDev) (n : Nat) : (data.advance n).unread = data.unread.drop n := by
  apply List.ext_getElem
  · rw [length_unread, List.length_drop, length_unread]
    rfl
  · intro i h₁ h₂
    simp [KbdDev.unread, KbdDev.advance, KbdDev.slot, Nat.add_assoc]

theorem take_unread_add (data : KbdDev) (a b : Nat) :
    data.unread.take (a + b) = data.unread.take a ++ (data.advance (min a data.cnt)).unread.take b := by
  rw [unread_advance, List.take_add, ← length_unread]
  congr 2
  exact List.drop_eq_drop_min

theorem map_range_eq_take (data : KbdDev) {n : Nat} (h : n ≤ data.cnt) :
    ((List.range n).map fun i => data.slot ((data.getIdx + i) % BUFF_SIZE)) = data.unread.take n := by
  unfold KbdDev.unread
  rw [← List.map_take, List.take_range, min_eq_left h]

theorem kbdRead_none {data : KbdDev} (hi : data.getIdx < BUFF_SIZE) (size : Nat) :
    (kbdRead data size none).stored = data.unread.take size ∧
      (kbdRead data size none).dev = data.advance (min size data.cnt) := by
  rw [kbdRead_eq hi]
  refine ⟨?_, rfl⟩
  show ((List.range (min size data.cnt)).map fun i => data.slot ((data.getIdx + i) % BUFF_SIZE)) = _
  rw [map_range_eq_take data (Nat.min_le_right _ _), ← length_unread]
  exact List.take_eq_take_min.symm

theorem delivers_unread {data : KbdDev} (hi : data.getIdx < BUFF_SIZE) : Delivers data data.unread := by
  intro sizes
  induction sizes generalizing data with
  | nil => exact ⟨data, [], rfl, by simp⟩
  | cons size sizes ih =>
    obtain ⟨hstored, hdev⟩ := kbdRead_none hi size
    obtain ⟨t, os, hrun, hos⟩ := ih (advance_getIdx_lt data (min size data.cnt))
    refine ⟨t, ⟨(kbdRead data size none).ret, data.unread.take size⟩ :: os, ?_, ?_⟩
    · rw [List.map_cons, kbd.runFrom_cons_eq_some]
      refine ⟨_, _, os, ?_, hrun, rfl⟩
      rw [← hdev, ← hstored]
      rfl
    · rw [List.map_cons, List.flatten_cons, hos, List.sum_cons, take_unread_add]

/-! ### A read without a fault -/

/-- A `kbd_read` ends, returns the number of characters it found of those it was asked for, stores them in
their order, and leaves the rest of the ring. So two reads one after the other do what one read of both
sizes does. -/
theorem read_exact {data : KbdDev} (hi : data.getIdx < BUFF_SIZE) :
    (∀ size < 2 ^ 31,
      (∀ fuel, min size data.cnt < fuel →
        kbdReadWhile none fuel (BitVec.ofNat 64 size) 0 data = some (kbdRead data size none)) ∧
      (kbdRead data size none).ret = min size data.cnt ∧
      (kbdRead data size none).stored.length = min size data.cnt ∧
      (∀ i < min size data.cnt,
        (kbdRead data size none).stored[i]? = data.buff[(data.getIdx + i) % BUFF_SIZE]?) ∧
      (kbdRead data size none).dev =
        ⟨data.buff, data.putIdx, (data.getIdx + min size data.cnt) % BUFF_SIZE,
          data.cnt - min size data.cnt⟩) ∧
    ∀ a b,
      (kbdRead data a none).stored ++ (kbdRead (kbdRead data a none).dev b none).stored =
        (kbdRead data (a + b) none).stored ∧
      (kbdRead (kbdRead data a none).dev b none).dev = (kbdRead data (a + b) none).dev := by
  constructor
  · intro size hsize
    obtain ⟨hstored, hdev⟩ := kbdRead_none hi size
    refine ⟨?_, ?_, ?_, ?_, hdev⟩
    · intro fuel hfuel
      have htoNat : (BitVec.ofNat 64 size).toNat = size := by
        rw [BitVec.toNat_ofNat]
        omega
      rw [kbdReadWhile_eq none 0 (by rwa [htoNat]), htoNat]
      rfl
    · rw [kbdRead_eq hi]
      have hret : (readOutcome data 0 (min size data.cnt) none).ret = ssizeT (min size data.cnt) := by
        simp [readOutcome, faults]
      rw [hret, ssizeT_of_lt (by omega)]
    · rw [hstored, List.length_take, length_unread]
    · intro i hmin
      have hslot : (data.getIdx + i) % BUFF_SIZE < BUFF_SIZE := Nat.mod_lt _ (by decide)
      rw [hstored, List.getElem?_take_of_lt (by omega)]
      unfold KbdDev.unread
      rw [List.getElem?_map, List.getElem?_range (by omega)]
      simp [KbdDev.slot, hslot]
  · intro a b
    have hia : (data.advance (min a data.cnt)).getIdx < BUFF_SIZE := advance_getIdx_lt _ _
    rw [(kbdRead_none hi a).2, (kbdRead_none hi a).1, (kbdRead_none hia b).1, (kbdRead_none hia b).2,
      (kbdRead_none hi (a + b)).1, (kbdRead_none hi (a + b)).2]
    constructor
    · rw [take_unread_add]
    · rw [advance_advance]
      congr 1
      show min a data.cnt + min b (data.cnt - min a data.cnt) = min (a + b) data.cnt
      omega

/-- More is unread than fits into the ring: a read of all of it goes around once and takes the first
characters again. -/
theorem read_exact_wraps :
    (kbdRead ⟨Vector.replicate BUFF_SIZE 7, 0, 99, 150⟩ 200 none).stored.length = 150 ∧
      (kbdRead ⟨Vector.replicate BUFF_SIZE 7, 0, 99, 150⟩ 200 none).dev.getIdx = 49 := by
  have h := (@read_exact ⟨Vector.replicate BUFF_SIZE 7, 0, 99, 150⟩ (by decide)).1 200 (by decide)
  refine ⟨h.2.2.1, ?_⟩
  rw [h.2.2.2.2]
  rfl

/-! ### A read with a fault -/

/-- No character is lost, and the return value says how many were stored. -/
def LosesNothing (data : KbdDev) (size j : Nat) : Prop :=
  Delivers (kbdRead data size (some j)).dev (data.unread.drop j) ∧
    if j = 0 then (kbdRead data size (some j)).ret = -EFAULT ∧ (kbdRead data size (some j)).dev = data
    else (kbdRead data size (some j)).ret = j

theorem kbdRead_fault {data : KbdDev} (hi : data.getIdx < BUFF_SIZE) {size j : Nat}
    (hj : j < min size data.cnt) :
    kbdRead data size (some j) =
      ⟨-EFAULT, data.unread.take j, (List.range (j + 1)).map fun i => (data.getIdx + i) % BUFF_SIZE,
        data.advance (j + 1)⟩ := by
  have hstored : storedCount (some j) (min size data.cnt) = j := by
    show min (min size data.cnt) j = j
    omega
  have htaken : takenCount (some j) (min size data.cnt) = j + 1 := by
    show min (min size data.cnt) (j + 1) = j + 1
    omega
  have hfaults : faults (some j) (min size data.cnt) = true := by
    simpa [faults] using hj
  rw [kbdRead_eq hi]
  unfold readOutcome
  rw [hstored, htaken, if_pos hfaults, map_range_eq_take data (by omega)]

theorem unread_kbdRead_fault {data : KbdDev} (hi : data.getIdx < BUFF_SIZE) {size j : Nat}
    (hj : j < min size data.cnt) :
    (kbdRead data size (some j)).dev.unread = data.unread.drop (j + 1) := by
  rw [kbdRead_fault hi hj]
  exact unread_advance data (j + 1)

/-- A read in which `put_user` fails at the character `j` returns `-EFAULT`. It has stored the `j` characters
before it, and the next reads deliver all those behind it, in their order. -/
theorem faulting_read {data : KbdDev} (hi : data.getIdx < BUFF_SIZE) {size j : Nat}
    (hj : j < min size data.cnt) :
    (kbdRead data size (some j)).ret = -EFAULT ∧
      (kbdRead data size (some j)).stored = data.unread.take j ∧
      ∃ failed : List UInt8, failed.Sublist (data.unread[j]?).toList ∧
        Delivers (kbdRead data size (some j)).dev (failed ++ data.unread.drop (j + 1)) := by
  have hread := kbdRead_fault hi hj
  refine ⟨by rw [hread], by rw [hread], [], List.nil_sublist _, ?_⟩
  rw [List.nil_append, ← unread_kbdRead_fault hi hj, hread]
  exact delivers_unread (advance_getIdx_lt data (j + 1))

/-- The read of the only key faults, and the ring is empty after it. The read of two keys faults at the
second: it has stored one character and returns `-EFAULT`. -/
theorem faulting_read_loses :
    ¬ LosesNothing (kbdIrqHandler .fresh 0x10).2 1 0 ∧
      ¬ LosesNothing (kbdIrqHandler (kbdIrqHandler .fresh 0x10).2 0x11).2 2 1 := by
  constructor
  · rintro ⟨-, hret⟩
    rw [if_pos rfl] at hret
    have hcnt := congrArg KbdDev.cnt hret.2
    exact absurd hcnt (by decide)
  · rintro ⟨-, hret⟩
    rw [if_neg Nat.one_ne_zero] at hret
    exact absurd hret (by decide)

theorem faulting_read_second_char :
    (kbdRead (putChar (putChar .fresh 97) 98) 5 (some 1)).ret = -EFAULT := by
  exact (@faulting_read (putChar (putChar .fresh 97) 98) (by decide) 5 1 (by decide)).1

end DeviceDrivers.Kbd
