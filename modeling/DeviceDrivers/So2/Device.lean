import DeviceDrivers.Kernel
import DeviceDrivers.Lib.CString
import DeviceDrivers.Lib.Machine

/-!
# The so2 character device

`Drivers/so2_cdev/kernel/so2_cdev.c`: one message of at most `MSG_MAX - 1` bytes, NUL-terminated in a
fixed array, and the flag `isOpen` that admits one open file at a time.

The outcome of a user copy is an input of the call. `so2` is the device under the VFS: a `struct file`
has its own position, which the VFS hands to `so2_read` and `so2_write` and stores back, and
`so2_release` runs once for every open that succeeded and for no other.
-/

namespace DeviceDrivers.So2

def MSG_MAX : Nat := 128

/-- The bytes of a string constant of the source. -/
def bytesOf (s : String) : List UInt8 := s.toList.map fun c => c.toNat.toUInt8

def MESSAGE : List UInt8 := bytesOf "the dog is matt"

/-- `struct so2_device_data` without its `cdev`. -/
structure So2DeviceData where
  isOpen : Int
  msg : Vector UInt8 MSG_MAX
  msgLen : Nat

/-- `strlen`, the number of bytes before the first NUL. -/
def strlen (s : List UInt8) : Nat := (CString.content 0 s).length

/-- `strscpy`: at most `n - 1` bytes of `src`, and a NUL behind them. -/
def strscpy {n : Nat} (dst : Vector UInt8 n) (src : List UInt8) : Vector UInt8 n :=
  CString.fill dst (src.take (n - 1) ++ [0])

/-- The device in static storage, before the module is loaded. -/
def So2DeviceData.zero : So2DeviceData := ⟨0, Vector.replicate MSG_MAX 0, 0⟩

/-- `so2_cdev_init`, with the result of `register_chrdev_region`. It sets the message but not
`msg_len`. -/
def so2CdevInit (data : So2DeviceData) (result : Int) : Int × So2DeviceData :=
  if result ≠ 0 then (result, data) else (0, { data with msg := strscpy data.msg MESSAGE })

/-- `so2_open`; `atomic_cmpxchg(&isOpen, 0, 1)` is one atomic step. -/
def so2Open (data : So2DeviceData) : Int × So2DeviceData :=
  if data.isOpen ≠ 0 then (-EBUSY, data) else (0, { data with isOpen := 1 })

/-- `so2_release`. -/
def so2Release (data : So2DeviceData) : Int × So2DeviceData := (0, { data with isOpen := 0 })

/-- What a call does: its return value, the bytes copied to the user, the new file position. -/
structure CallResult where
  ret : Int
  copied : List UInt8
  offset : Int

/-- `so2_read`. `loff_t` is compared with `size_t` as an unsigned number. `limit` is how many bytes of
the user buffer can be written, if not all. `private_data` is the device that `so2_open` put there, so
the test for `NULL` is never true. -/
def so2Read (data : So2DeviceData) (size : Nat) (offset : Int) (limit : Option Nat) : CallResult :=
  let lenOfStr := strlen data.msg.toList
  let start := (offset % 2 ^ 64).toNat
  if start ≥ lenOfStr then ⟨0, [], offset⟩
  else
    let available := lenOfStr - start
    let n := if size < available then size else available
    let copied := ((data.msg.toList.drop start).take n).take (limit.getD n)
    -- `copy_to_user` returns the number of bytes it could not copy
    if n - copied.length ≠ 0 then ⟨-EFAULT, copied, offset⟩
    else ⟨ssizeT size, copied, offset + n⟩

/-- A `copy_from_user`: it succeeds and reads `bytes`, or it fails and leaves `left` in the front of
the destination. -/
inductive UserCopy
  | done (bytes : List UInt8)
  | fault (left : List UInt8)

/-- `so2_write`. -/
def so2Write (data : So2DeviceData) (size : Nat) (offset : Int) (copy : UserCopy) :
    CallResult × So2DeviceData :=
  let n := if size < MSG_MAX - 1 then size else MSG_MAX - 1
  match copy with
  | .fault left => (⟨-EFAULT, [], offset⟩, { data with msg := CString.fill data.msg (left.take n) })
  | .done bytes =>
    (⟨ssizeT size, [], 0⟩, { data with
      msg := (CString.fill data.msg (bytes.take n)).setIfInBounds n 0
      msgLen := n })

/-! ### The device under the VFS -/

/-- An open `struct file`: which one it is, and its position. -/
structure File where
  id : Nat
  pos : Int

structure Sys where
  dev : So2DeviceData
  files : List File

inductive So2Event
  | tryOpen (f : Nat)
  | release (f : Nat)
  | read (f : Nat) (size : Nat) (limit : Option Nat)
  | write (f : Nat) (size : Nat) (copy : UserCopy)

/-- What the caller sees: the return value, and the bytes copied to its buffer. -/
structure So2Output where
  ret : Int
  copied : List UInt8
  deriving DecidableEq

/-- The open file `f`. -/
def Sys.file (s : Sys) (f : Nat) : Option File := s.files.find? (·.id = f)

/-- The VFS stores the updated position in the file `f`. -/
def Sys.setPos (s : Sys) (f : Nat) (pos : Int) : List File :=
  s.files.map fun file => if file.id = f then { file with pos := pos } else file

/-- The bytes a `so2_write` of `size` bytes takes from the user. -/
def writeLength (size : Nat) : Nat := min size (MSG_MAX - 1)

/-- A copy of `n` bytes succeeds only on a user buffer with `n` readable bytes, and a failed one
touches only the first `n` bytes of its destination. -/
def UserCopy.fits (n : Nat) : UserCopy → Bool
  | .done bytes => n ≤ bytes.length
  | .fault left => left.length ≤ n

def so2Step (s : Sys) : So2Event → Option (Sys × So2Output)
  | .tryOpen f =>
    -- every open has a new `struct file`; only a successful one is ever released
    if (s.file f).isSome then none
    else
      let r := so2Open s.dev
      some (⟨r.2, if r.1 = 0 then s.files ++ [⟨f, 0⟩] else s.files⟩, ⟨r.1, []⟩)
  | .release f =>
    if (s.file f).isSome then
      let r := so2Release s.dev
      some (⟨r.2, s.files.filter (·.id ≠ f)⟩, ⟨r.1, []⟩)
    else none
  | .read f size limit =>
    (s.file f).map fun file =>
      let r := so2Read s.dev size file.pos limit
      (⟨s.dev, s.setPos f r.offset⟩, ⟨r.ret, r.copied⟩)
  | .write f size copy =>
    if copy.fits (writeLength size) then
      (s.file f).map fun file =>
        let r := so2Write s.dev size file.pos copy
        (⟨r.2, s.setPos f r.1.offset⟩, ⟨r.1.ret, r.1.copied⟩)
    else none

/-- The loaded device with no file open. -/
def so2 : Machine Sys So2Event So2Output := ⟨⟨(so2CdevInit .zero 0).2, []⟩, so2Step⟩

theorem so2Write_done (data : So2DeviceData) (size : Nat) (offset : Int) (bytes : List UInt8) :
    so2Write data size offset (.done bytes) = (⟨ssizeT size, [], 0⟩, { data with
      msg := (CString.fill data.msg (bytes.take (writeLength size))).setIfInBounds (writeLength size) 0
      msgLen := writeLength size }) := by
  unfold so2Write
  simp only [ite_lt_eq_min, writeLength]

theorem so2Write_fault (data : So2DeviceData) (size : Nat) (offset : Int) (left : List UInt8) :
    so2Write data size offset (.fault left) = (⟨-EFAULT, [], offset⟩,
      { data with msg := CString.fill data.msg (left.take (writeLength size)) }) := by
  unfold so2Write
  simp only [ite_lt_eq_min, writeLength]

theorem so2Open_busy {data : So2DeviceData} (h : data.isOpen ≠ 0) :
    so2Open data = (-EBUSY, data) := if_pos h

theorem so2Open_free {data : So2DeviceData} (h : data.isOpen = 0) :
    so2Open data = (0, { data with isOpen := 1 }) := if_neg (not_not.mpr h)

theorem so2Step_cases {s t : Sys} {e : So2Event} {o : So2Output} (h : so2Step s e = some (t, o)) :
    (∃ f, e = .tryOpen f ∧ s.file f = none ∧ s.dev.isOpen ≠ 0 ∧ t = s ∧ o = ⟨-EBUSY, []⟩) ∨
    (∃ f, e = .tryOpen f ∧ s.file f = none ∧ s.dev.isOpen = 0 ∧
      t = ⟨{ s.dev with isOpen := 1 }, s.files ++ [⟨f, 0⟩]⟩ ∧ o = ⟨0, []⟩) ∨
    (∃ f, e = .release f ∧ (s.file f).isSome ∧
      t = ⟨{ s.dev with isOpen := 0 }, s.files.filter (·.id ≠ f)⟩ ∧ o = ⟨0, []⟩) ∨
    (∃ f size limit file, e = .read f size limit ∧ s.file f = some file ∧
      t = ⟨s.dev, s.setPos f (so2Read s.dev size file.pos limit).offset⟩ ∧
      o = ⟨(so2Read s.dev size file.pos limit).ret, (so2Read s.dev size file.pos limit).copied⟩) ∨
    (∃ f size copy file, e = .write f size copy ∧ copy.fits (writeLength size) = true ∧
      s.file f = some file ∧
      t = ⟨(so2Write s.dev size file.pos copy).2,
        s.setPos f (so2Write s.dev size file.pos copy).1.offset⟩ ∧
      o = ⟨(so2Write s.dev size file.pos copy).1.ret, (so2Write s.dev size file.pos copy).1.copied⟩) := by
  cases e with
  | tryOpen f =>
    by_cases hf : (s.file f).isSome = true
    · simp [so2Step, hf] at h
    simp only [so2Step, if_neg hf] at h
    have hnone : s.file f = none := by simpa using hf
    by_cases hopen : s.dev.isOpen = 0
    · rw [so2Open_free hopen, if_pos rfl] at h
      obtain ⟨rfl, rfl⟩ := Prod.mk.inj (Option.some.inj h)
      right; left
      exact ⟨f, rfl, hnone, hopen, rfl, rfl⟩
    · rw [so2Open_busy hopen, if_neg (show -EBUSY ≠ 0 by decide)] at h
      obtain ⟨rfl, rfl⟩ := Prod.mk.inj (Option.some.inj h)
      left
      exact ⟨f, rfl, hnone, hopen, rfl, rfl⟩
  | release f =>
    simp only [so2Step, so2Release] at h
    split_ifs at h with hf
    obtain ⟨rfl, rfl⟩ := Prod.mk.inj (Option.some.inj h)
    right; right; left
    exact ⟨f, rfl, hf, rfl, rfl⟩
  | read f size limit =>
    simp only [so2Step, Option.map_eq_some_iff] at h
    obtain ⟨file, hf, heq⟩ := h
    obtain ⟨rfl, rfl⟩ := Prod.mk.inj heq
    right; right; right; left
    exact ⟨f, size, limit, file, rfl, hf, rfl, rfl⟩
  | write f size copy =>
    simp only [so2Step] at h
    split_ifs at h with hfits
    obtain ⟨file, hf, heq⟩ := Option.map_eq_some_iff.mp h
    obtain ⟨rfl, rfl⟩ := Prod.mk.inj heq
    right; right; right; right
    exact ⟨f, size, copy, file, rfl, hfits, hf, rfl, rfl⟩

end DeviceDrivers.So2
