import DeviceDrivers.Kernel
import DeviceDrivers.Lib.Machine

/-!
# The keyboard driver

`Drivers/kbd/kbd.c`: the ring buffer of `struct kbd_dev`, the two ends of it (`put_char` in the
interrupt handler, `get_char` in `kbd_read`) and `kbd_write`, which clears it. The lock makes each of
`put_char`, `get_char` and `reset_buffer` one atomic step; here the calls of the driver are
sequential (`kbd`), the interleaved readers are in `Kbd.Readers`.

A fault of `put_user` is an input of `kbd_read`: `fault = some j` makes the call number `j` fail.
-/

namespace DeviceDrivers.Kbd

def BUFF_SIZE : Nat := 100

def SCANCODE_RELEASED_MASK : UInt32 := 0x80

/-- `struct kbd_dev` without its `cdev` and its lock; the three counters are of type `size_t`. -/
structure KbdDev where
  buff : Vector UInt8 BUFF_SIZE
  putIdx : Nat
  getIdx : Nat
  cnt : Nat
  deriving DecidableEq

/-- The device as loaded: static storage, all zero. -/
def KbdDev.fresh : KbdDev := ⟨Vector.replicate BUFF_SIZE 0, 0, 0, 0⟩

/-- `buff[i]`. Every access of the driver has `i < BUFF_SIZE`. -/
def KbdDev.slot (data : KbdDev) (i : Nat) : UInt8 := data.buff[i]?.getD 0

/-- `get_char`: the character and the device after it, or `none` for `false`. -/
def getChar (data : KbdDev) : Option (UInt8 × KbdDev) :=
  if data.cnt > 0 then
    some (data.slot data.getIdx,
      { data with getIdx := sizeT (data.getIdx + 1) % BUFF_SIZE, cnt := data.cnt - 1 })
  else none

/-- `put_char`. The character goes to `buff[getIdx]`, as in the source, although it is `putIdx`
that advances. -/
def putChar (data : KbdDev) (ch : UInt8) : KbdDev :=
  { data with
    buff := data.buff.setIfInBounds data.getIdx ch
    putIdx := sizeT (data.putIdx + 1) % BUFF_SIZE
    cnt := sizeT (data.cnt + 1) }

/-- `reset_buffer`: the indices are rewound, the characters stay in `buff`. -/
def resetBuffer (dev : KbdDev) : KbdDev := { dev with cnt := 0, getIdx := 0, putIdx := 0 }

/-- `is_key_press`. -/
def isKeyPress (scancode : UInt32) : Bool := (scancode &&& SCANCODE_RELEASED_MASK) == 0

/-- `*(row + i)` for a string constant of the source. -/
def rowChar (row : String) (i : UInt32) : UInt8 :=
  ((row.toList[i.toNat]?).getD '\x00').toNat.toUInt8

/-- `get_ascii`. -/
def getAscii (scancode : UInt32) : UInt8 :=
  let scancode := scancode &&& ~~~SCANCODE_RELEASED_MASK
  if scancode ≥ 0x02 ∧ scancode ≤ 0x0b then rowChar "1234567890" (scancode - 0x02)
  else if scancode ≥ 0x10 ∧ scancode ≤ 0x19 then rowChar "qwertyuiop" (scancode - 0x10)
  else if scancode ≥ 0x1e ∧ scancode ≤ 0x26 then rowChar "asdfghjkl" (scancode - 0x1e)
  else if scancode ≥ 0x2c ∧ scancode ≤ 0x32 then rowChar "zxcvbnm" (scancode - 0x2c)
  else if scancode = 0x39 then 32
  else if scancode = 0x1c then 10
  else 63

/-- `irqreturn_t`; the handler always answers `IRQ_NONE`, the line being shared. -/
inductive IrqReturn
  | none
  | handled
  deriving DecidableEq

/-- `kbd_irq_handler` on the byte `i8042_read_data` returned. -/
def kbdIrqHandler (dev : KbdDev) (data : UInt8) : IrqReturn × KbdDev :=
  let scancode := data.toUInt32
  if isKeyPress scancode then (.none, putChar dev (getAscii scancode)) else (.none, dev)

/-- What a `kbd_read` does: its return value, the bytes it stored to the user buffer, the slots of
`buff` it took, and the device after it. -/
structure ReadResult where
  ret : Int
  stored : List UInt8
  slots : List Nat
  dev : KbdDev

/-- The loop `while (size--)` of `kbd_read`, after `read` stored bytes. -/
def kbdReadLoop (fault : Option Nat) : Nat → Nat → KbdDev → ReadResult
  | 0, read, data => ⟨ssizeT read, [], [], data⟩
  | size + 1, read, data =>
    match getChar data with
    | none => ⟨ssizeT read, [], [], data⟩
    | some (ch, data') =>
      -- the character has left the ring before `put_user` is tried
      if fault = some read then ⟨-EFAULT, [], [data.getIdx], data'⟩
      else
        let r := kbdReadLoop fault size (read + 1) data'
        ⟨r.ret, ch :: r.stored, data.getIdx :: r.slots, r.dev⟩

/-- `kbd_read`. -/
def kbdRead (data : KbdDev) (size : Nat) (fault : Option Nat) : ReadResult :=
  kbdReadLoop fault size 0 data

/-- `kbd_write`: the return value and the cleared device. -/
def kbdWrite (dev : KbdDev) (size : Nat) : Int × KbdDev := (ssizeT size, resetBuffer dev)

/-- A call of the driver: an interrupt with the scancode byte, a `kbd_read`, a `kbd_write`. -/
inductive KbdEvent
  | irq (data : UInt8)
  | read (size : Nat) (fault : Option Nat)
  | write (size : Nat)
  deriving DecidableEq

/-- What the user sees of a call: the value returned and the bytes stored to the buffer. -/
structure KbdOutput where
  ret : Int
  stored : List UInt8
  deriving DecidableEq

/-- The event is an interrupt for a pressed key. -/
def KbdEvent.isPress : KbdEvent → Bool
  | .irq data => isKeyPress data.toUInt32
  | _ => false

def kbdStep (dev : KbdDev) : KbdEvent → KbdDev × KbdOutput
  | .irq data => ((kbdIrqHandler dev data).2, ⟨0, []⟩)
  | .read size fault =>
    let r := kbdRead dev size fault
    (r.dev, ⟨r.ret, r.stored⟩)
  | .write size => let r := kbdWrite dev size; (r.2, ⟨r.1, []⟩)

/-- The driver with its calls one after another; every call is possible in every state. -/
def kbd : Machine KbdDev KbdEvent KbdOutput := ⟨.fresh, fun dev e => some (kbdStep dev e)⟩

/-! ### The three critical sections -/

/-- The device after `n` more characters have been taken. -/
def KbdDev.advance (data : KbdDev) (n : Nat) : KbdDev :=
  { data with getIdx := (data.getIdx + n) % BUFF_SIZE, cnt := data.cnt - n }

@[simp] theorem slot_advance (data : KbdDev) (n i : Nat) : (data.advance n).slot i = data.slot i := rfl

theorem advance_zero {data : KbdDev} (h : data.getIdx < BUFF_SIZE) : data.advance 0 = data := by
  simp [KbdDev.advance, Nat.mod_eq_of_lt h]

theorem advance_advance (data : KbdDev) (a b : Nat) :
    (data.advance a).advance b = data.advance (a + b) := by
  simp only [KbdDev.advance, Nat.mod_add_mod, Nat.add_assoc, Nat.sub_sub]

theorem advance_getIdx_lt (data : KbdDev) (n : Nat) : (data.advance n).getIdx < BUFF_SIZE :=
  Nat.mod_lt _ (by decide)

theorem getChar_of_pos {data : KbdDev} (hi : data.getIdx < BUFF_SIZE) (h : 0 < data.cnt) :
    getChar data = some (data.slot data.getIdx, data.advance 1) := by
  have hsmall : data.getIdx + 1 < 2 ^ 64 := by
    have : BUFF_SIZE = 100 := rfl
    omega
  rw [getChar, if_pos h, sizeT_of_lt hsmall]
  rfl

theorem getChar_of_zero {data : KbdDev} (h : data.cnt = 0) : getChar data = none := by
  simp [getChar, h]

theorem putChar_slot_self (data : KbdDev) (ch : UInt8) (h : data.getIdx < BUFF_SIZE) :
    (putChar data ch).slot data.getIdx = ch := by
  simp [KbdDev.slot, putChar, h]

theorem putChar_slot_ne (data : KbdDev) (ch : UInt8) {i : Nat} (h : i ≠ data.getIdx) :
    (putChar data ch).slot i = data.slot i := by
  simp [KbdDev.slot, putChar, h.symm]

@[simp] theorem putChar_getIdx (data : KbdDev) (ch : UInt8) :
    (putChar data ch).getIdx = data.getIdx := rfl

@[simp] theorem putChar_cnt (data : KbdDev) (ch : UInt8) :
    (putChar data ch).cnt = sizeT (data.cnt + 1) := rfl

/-! ### What `kbd_read` does -/

/-- The characters a read of `n` available ones stores, with `put_user` failing at `fault`. -/
def storedCount (fault : Option Nat) (n : Nat) : Nat := fault.elim n (min n)

/-- The characters it takes out of the ring: the one whose `put_user` fails is gone too. -/
def takenCount (fault : Option Nat) (n : Nat) : Nat := fault.elim n fun j => min n (j + 1)

/-- Some `put_user` of the read fails. -/
def faults (fault : Option Nat) (n : Nat) : Bool := fault.any (· < n)

/-- A read that finds `n` characters it was asked for, after `read` stored ones. -/
def readOutcome (data : KbdDev) (read n : Nat) (fault : Option Nat) : ReadResult where
  ret := if faults fault n then -EFAULT else ssizeT (read + n)
  stored := (List.range (storedCount fault n)).map
    fun i => data.slot ((data.getIdx + i) % BUFF_SIZE)
  slots := (List.range (takenCount fault n)).map fun i => (data.getIdx + i) % BUFF_SIZE
  dev := data.advance (takenCount fault n)

theorem readOutcome_zero {data : KbdDev} (hi : data.getIdx < BUFF_SIZE) (read : Nat)
    (fault : Option Nat) : readOutcome data read 0 fault = ⟨ssizeT read, [], [], data⟩ := by
  cases fault <;> simp [readOutcome, storedCount, takenCount, faults, advance_zero hi]

theorem readOutcome_fault {data : KbdDev} (hi : data.getIdx < BUFF_SIZE) (read n : Nat) :
    readOutcome data read (n + 1) (some 0) = ⟨-EFAULT, [], [data.getIdx], data.advance 1⟩ := by
  simp [readOutcome, storedCount, takenCount, faults, Nat.mod_eq_of_lt hi]

theorem readOutcome_succ {data : KbdDev} (hi : data.getIdx < BUFF_SIZE) (read n : Nat)
    (fault : Option Nat) :
    readOutcome data read (n + 1) (fault.map (· + 1)) =
      let r := readOutcome (data.advance 1) (read + 1) n fault
      ⟨r.ret, data.slot data.getIdx :: r.stored, data.getIdx :: r.slots, r.dev⟩ := by
  have hself : data.getIdx % BUFF_SIZE = data.getIdx := Nat.mod_eq_of_lt hi
  have hshift : ∀ i, ((data.advance 1).getIdx + i) % BUFF_SIZE
      = (data.getIdx + (i + 1)) % BUFF_SIZE := fun i => by
    rw [show (data.advance 1).getIdx = (data.getIdx + 1) % BUFF_SIZE from rfl, Nat.mod_add_mod,
      Nat.add_assoc, Nat.add_comm 1 i]
  have hstored : storedCount (fault.map (· + 1)) (n + 1) = storedCount fault n + 1 := by
    cases fault <;> simp [storedCount]
  have htaken : takenCount (fault.map (· + 1)) (n + 1) = takenCount fault n + 1 := by
    cases fault <;> simp [takenCount]
  have hfaults : faults (fault.map (· + 1)) (n + 1) = faults fault n := by
    cases fault <;> simp [faults]
  simp only [readOutcome, hstored, htaken, hfaults, List.range_succ_eq_map, List.map_cons,
    List.map_map, Function.comp_def, hshift, slot_advance, advance_advance, Nat.add_zero, hself,
    Nat.succ_eq_add_one]
  rw [show read + 1 + n = read + (n + 1) by omega, Nat.add_comm 1 (takenCount fault n)]

theorem kbdReadLoop_eq (fault : Option Nat) (size read : Nat) (data : KbdDev)
    (hi : data.getIdx < BUFF_SIZE) :
    kbdReadLoop (fault.map (read + ·)) size read data =
      readOutcome data read (min size data.cnt) fault := by
  induction size generalizing fault read data with
  | zero => rw [Nat.zero_min, readOutcome_zero hi, kbdReadLoop]
  | succ size ih =>
    rcases Nat.eq_zero_or_pos data.cnt with hzero | hpos
    · rw [kbdReadLoop, getChar_of_zero hzero, hzero, Nat.min_zero, readOutcome_zero hi]
    · have hcnt : data.cnt = (data.advance 1).cnt + 1 := by simp [KbdDev.advance]; omega
      have hnext := fun f => ih f (read + 1) (data.advance 1) (advance_getIdx_lt _ _)
      rw [kbdReadLoop, getChar_of_pos hi hpos, hcnt, Nat.add_min_add_right]
      simp only
      -- the fault position, seen from the next iteration
      rcases fault with _ | _ | j
      · rw [if_neg (by simp), ← Option.map_none (f := (· + 1)), readOutcome_succ hi, ← hnext]
        rfl
      · rw [if_pos (by simp), readOutcome_fault hi]
      · rw [if_neg (by simp), show some (j + 1) = (some j).map (· + 1) from rfl,
          readOutcome_succ hi, ← hnext]
        simp only [Option.map_some, Nat.add_assoc, Nat.add_comm 1 j]

/-- `kbd_read` takes the characters from `getIdx` on, as many as there are and were asked for. -/
theorem kbdRead_eq {data : KbdDev} (hi : data.getIdx < BUFF_SIZE) (size : Nat)
    (fault : Option Nat) : kbdRead data size fault = readOutcome data 0 (min size data.cnt) fault := by
  rw [← kbdReadLoop_eq fault size 0 data hi, kbdRead]
  simp

theorem storedCount_le (fault : Option Nat) (n : Nat) : storedCount fault n ≤ n := by
  cases fault with
  | none => exact Nat.le_refl n
  | some j => exact Nat.min_le_left n j

theorem takenCount_le (fault : Option Nat) (n : Nat) : takenCount fault n ≤ n := by
  cases fault with
  | none => exact Nat.le_refl n
  | some j => exact Nat.min_le_left n (j + 1)

/-! ### The index of the next character stays in the buffer -/

theorem kbdStep_getIdx_lt {dev : KbdDev} (h : dev.getIdx < BUFF_SIZE) (e : KbdEvent) :
    (kbdStep dev e).1.getIdx < BUFF_SIZE := by
  cases e with
  | irq data =>
    simp only [kbdStep, kbdIrqHandler]
    split_ifs <;> exact h
  | read size fault =>
    simp only [kbdStep, kbdRead_eq h, readOutcome]
    exact advance_getIdx_lt _ _
  | write size => exact Nat.zero_lt_succ _

theorem kbd_getIdx_invariant : kbd.Invariant fun dev => dev.getIdx < BUFF_SIZE where
  init := Nat.zero_lt_succ _
  step := by
    intro s t e o hs hstep
    obtain rfl : (kbdStep s e).1 = t := congrArg Prod.fst (Option.some.inj hstep)
    exact kbdStep_getIdx_lt hs e

end DeviceDrivers.Kbd
