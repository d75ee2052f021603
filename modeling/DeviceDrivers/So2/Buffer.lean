import DeviceDrivers.So2.Reads

/-!
# The message buffer under failing copies

A `so2_write` whose user copy faults returns before it stores a terminator. The buffer still ends in a
NUL, because no write stores anything but a NUL to its last byte (`message_terminated`). The message
itself is not safe: the copy goes straight to the buffer, and what it leaves there is read back
(`failed_write_iff`).
-/

namespace DeviceDrivers.So2

open CString

/-! ### Reads and writes at any offset -/

inductive DeviceCall
  | read (size : Nat) (offset : Int) (limit : Option Nat)
  | write (size : Nat) (offset : Int) (copy : UserCopy)

def deviceStep (data : So2DeviceData) : DeviceCall → So2DeviceData × CallResult
  | .read size offset limit => (data, so2Read data size offset limit)
  | .write size offset copy => ((so2Write data size offset copy).2, (so2Write data size offset copy).1)

/-- The loaded device under calls with any arguments. -/
def device : Machine So2DeviceData DeviceCall CallResult :=
  ⟨(so2CdevInit .zero 0).2, fun data e => some (deviceStep data e)⟩

/-- The stores of a `so2_write` to `msg`, in their order. -/
def writeStores (size : Nat) : UserCopy → List (Nat × UInt8)
  | .fault left => stores 0 (left.take (writeLength size))
  | .done bytes => stores 0 (bytes.take (writeLength size)) ++ [(writeLength size, 0)]

theorem writeLength_lt (size : Nat) : writeLength size < MSG_MAX := by
  unfold writeLength MSG_MAX
  omega

theorem writeStores_lt (size : Nat) (copy : UserCopy) : ∀ x ∈ writeStores size copy, x.1 < MSG_MAX := by
  have hlt := writeLength_lt size
  have hblock : ∀ w : List UInt8, ∀ x ∈ stores 0 (w.take (writeLength size)), x.1 < MSG_MAX := by
    intro w x hx
    have := lt_of_mem_stores hx
    rw [List.length_take] at this
    omega
  cases copy with
  | fault left => exact hblock left
  | done bytes =>
    unfold writeStores
    rw [List.forall_mem_append, List.forall_mem_singleton]
    exact ⟨hblock bytes, hlt⟩

theorem so2Write_stores (data : So2DeviceData) (size : Nat) (offset : Int) (copy : UserCopy) :
    storeAll data.msg (writeStores size copy) = some (so2Write data size offset copy).2.msg := by
  have hlt := writeLength_lt size
  have hlen : ∀ w : List UInt8, (w.take (writeLength size)).length ≤ MSG_MAX := by
    intro w
    rw [List.length_take]
    omega
  unfold writeStores
  cases copy with
  | fault left =>
    rw [so2Write_fault]
    exact storeAll_fill data.msg (hlen left)
  | done bytes =>
    rw [so2Write_done]
    dsimp only
    rw [storeAll_append, storeAll_fill data.msg (hlen bytes), Option.bind_some, storeAll, dif_pos hlt,
      storeAll, Option.some.injEq]
    apply Vector.toList_inj.mp
    rw [Vector.toList_set, Vector.toList_setIfInBounds]

/-- The last byte of the buffer is a NUL. -/
def Terminated (data : So2DeviceData) : Prop := data.msg[MSG_MAX - 1]? = some 0

theorem Terminated.write {data : So2DeviceData} (h : Terminated data) (size : Nat) (offset : Int)
    (copy : UserCopy) : Terminated (so2Write data size offset copy).2 := by
  have hle : writeLength size ≤ MSG_MAX - 1 := Nat.min_le_right _ _
  have hfill : ∀ w : List UInt8, (fill data.msg (w.take (writeLength size)))[MSG_MAX - 1]? = some 0 := by
    intro w
    rw [getElem?_fill]
    · exact h
    · rw [List.length_take]
      omega
  unfold Terminated
  cases copy with
  | fault left =>
    rw [so2Write_fault]
    exact hfill left
  | done bytes =>
    rw [so2Write_done]
    dsimp only
    by_cases heq : writeLength size = MSG_MAX - 1
    · rw [heq]
      exact Vector.getElem?_setIfInBounds_self_of_lt (by decide)
    · rw [Vector.getElem?_setIfInBounds_ne heq]
      exact hfill bytes

theorem device_terminated : device.Invariant Terminated where
  init := by
    unfold Terminated
    decide +kernel
  step := by
    intro s t e o hs hstep
    obtain ⟨rfl, -⟩ := Prod.mk.inj (Option.some.inj hstep)
    cases e with
    | read size offset limit => exact hs
    | write size offset copy => exact hs.write size offset copy

/-! ### Every access is inside the array -/

theorem startOf_toInt (offset : BitVec 64) : startOf offset.toInt = offset.toNat := by
  have hlt := offset.isLt
  unfold startOf
  rw [BitVec.toInt_eq_toNat_cond]
  split_ifs <;> omega

theorem so2Read_accesses (data : So2DeviceData) (size : Nat) (offset : Int) (limit : Option Nat)
    (h : startOf offset < strlen data.msg.toList) :
    ∃ n, startOf offset + n ≤ strlen data.msg.toList ∧
      (so2Read data size offset limit).copied = (data.msg.toList.drop (startOf offset)).take n := by
  unfold so2Read
  dsimp only
  rw [← startOf, if_neg (by omega), ite_lt_eq_min, List.take_take]
  refine ⟨min (limit.getD (min size (strlen data.msg.toList - startOf offset)))
    (min size (strlen data.msg.toList - startOf offset)), by omega, ?_⟩
  split_ifs
  · rfl
  · rfl

/-- In every state the buffer ends in a NUL, so that the message is shorter than the buffer. A read whose
offset is negative or past the message copies nothing; any other subtracts the offset from a larger
length and copies bytes of the message only. All stores of a write are inside the buffer. -/
theorem message_terminated {es : List DeviceCall} {data : So2DeviceData} {os : List CallResult}
    (hrun : device.run es = some (data, os)) :
    data.msg[MSG_MAX - 1]? = some 0 ∧ strlen data.msg.toList ≤ MSG_MAX - 1 ∧
      (∀ (size : Nat) (offset : BitVec 64) (limit : Option Nat),
        (strlen data.msg.toList ≤ offset.toNat ∧
          so2Read data size offset.toInt limit = ⟨0, [], offset.toInt⟩) ∨
        (0 ≤ offset.toInt ∧ offset.toInt < strlen data.msg.toList ∧
          ∃ n, offset.toInt.toNat + n ≤ strlen data.msg.toList ∧
            (so2Read data size offset.toInt limit).copied =
              (data.msg.toList.drop offset.toInt.toNat).take n)) ∧
      (∀ size offset copy, (∀ x ∈ writeStores size copy, x.1 < MSG_MAX) ∧
        storeAll data.msg (writeStores size copy) = some (so2Write data size offset copy).2.msg) := by
  have hterm : Terminated data := device_terminated.run hrun
  have hlen : strlen data.msg.toList ≤ MSG_MAX - 1 := by
    apply length_content_le
    rw [Vector.getElem?_toList]
    exact hterm
  refine ⟨hterm, hlen, ?_, ?_⟩
  · intro size offset limit
    rw [← startOf_toInt]
    by_cases hpast : strlen data.msg.toList ≤ startOf offset.toInt
    · left
      exact ⟨hpast, so2Read_past hpast size limit⟩
    · right
      have hsmall : offset.toNat < 127 := by
        rw [← startOf_toInt]
        have hmax : MSG_MAX = 128 := rfl
        omega
      have hint : offset.toInt = offset.toNat := by
        rw [BitVec.toInt_eq_toNat_of_lt (by omega)]
      obtain ⟨n, hn, hcopied⟩ := so2Read_accesses data size offset.toInt limit (by omega)
      have hstart : startOf offset.toInt = offset.toInt.toNat := by
        rw [startOf_toInt, hint]
        rfl
      rw [hstart] at hn hcopied hpast
      refine ⟨by omega, by omega, n, hn, hcopied⟩
  · intro size offset copy
    exact ⟨writeStores_lt size copy, so2Write_stores data size offset copy⟩

/-- A copy that faults after the whole buffer is overwritten leaves the terminator. -/
theorem message_terminated_after_fault :
    ∃ data os, device.run [.write 200 0 (.fault (List.replicate 127 65))] = some (data, os) ∧
      strlen data.msg.toList ≤ MSG_MAX - 1 := by
  refine ⟨_, _, rfl, ?_⟩
  exact (@message_terminated [.write 200 0 (.fault (List.replicate 127 65))] _ _ rfl).2.1

/-! ### What a failed write leaves -/

/-- What a copy of `n` bytes leaves in the destination that faults after the first `k`: these, and zeros
for the rest if it fills up. -/
def leftBehind (payload : List UInt8) (n k : Nat) (zeroFilled : Bool) : List UInt8 :=
  payload.take k ++ if zeroFilled then List.replicate (n - k) 0 else []

/-- The call fails, but no sequence of reads delivers anything else than without it, and the length and
the position are as before. -/
structure LeavesMessage (data : So2DeviceData) (size : Nat) (offset : Int) (copy : UserCopy) : Prop where
  fails : (so2Write data size offset copy).1.ret = -EFAULT
  delivers : ∀ first sizes,
    ((reads (so2Write data size offset copy).2 first).run sizes).map (fun q => q.2.map CallResult.copied) =
      ((reads data first).run sizes).map fun q => q.2.map CallResult.copied
  msgLen : (so2Write data size offset copy).2.msgLen = data.msgLen
  offset : (so2Write data size offset copy).1.offset = offset

/-- No byte of `left` differs from the byte of the message, or its terminator, that it would replace. -/
def WritesSame (data : So2DeviceData) (left : List UInt8) : Prop :=
  ∀ (i : Nat) (b : UInt8), left[i]? = some b → i ≤ strlen data.msg.toList → data.msg[i]? = some b

theorem so2Read_congr {data data' : So2DeviceData} (h : data'.string = data.string) (size : Nat)
    (offset : Int) : so2Read data' size offset none = so2Read data size offset none := by
  by_cases hpast : data.string.length ≤ startOf offset
  · rw [so2Read_past hpast, so2Read_past (by rw [h]; exact hpast)]
  · rw [so2Read_inside (by rw [h]; omega), so2Read_inside (by omega), h]

theorem reads_deliver_iff (data data' : So2DeviceData) :
    (∀ first sizes, ((reads data' first).run sizes).map (fun q => q.2.map CallResult.copied) =
      ((reads data first).run sizes).map fun q => q.2.map CallResult.copied) ↔
        data'.string = data.string := by
  constructor
  · intro h
    have hone := h 0 [MSG_MAX]
    have hall : ∀ d : So2DeviceData, (so2Read d MSG_MAX 0 none).copied = d.string := by
      intro d
      rw [(so2Read_copied d MSG_MAX 0).1]
      apply List.take_of_length_le
      exact string_length_le d
    have hbytes : some [(so2Read data' MSG_MAX 0 none).copied] = some [(so2Read data MSG_MAX 0 none).copied] :=
      hone
    rw [hall, hall] at hbytes
    simpa using hbytes
  · intro h first sizes
    have hreads : reads data' first = reads data first := by
      unfold reads
      congr 1
      funext offset size
      rw [so2Read_congr h]
    rw [hreads]

/-- A write whose copy faults leaves the message as it was exactly when no byte that the copy left, up to
the place of the terminator, differs from the one that was there. -/
theorem failed_write_iff (data : So2DeviceData) (size : Nat) (offset : Int) (payload : List UInt8)
    (k : Fin (writeLength size)) (zeroFilled : Bool) :
    LeavesMessage data size offset (.fault (leftBehind payload (writeLength size) k zeroFilled)) ↔
      WritesSame data (leftBehind payload (writeLength size) k zeroFilled) := by
  have hlen : (leftBehind payload (writeLength size) k zeroFilled).length ≤ writeLength size := by
    have hk := k.isLt
    unfold leftBehind
    rw [List.length_append, List.length_take]
    split_ifs
    · rw [List.length_replicate]
      omega
    · rw [List.length_nil]
      omega
  generalize leftBehind payload (writeLength size) k zeroFilled = left at hlen ⊢
  have hmax : left.length ≤ MSG_MAX := by
    have := writeLength_lt size
    omega
  have hwrite : so2Write data size offset (.fault left) =
      (⟨-EFAULT, [], offset⟩, { data with msg := fill data.msg left }) := by
    rw [so2Write_fault, List.take_of_length_le hlen]
  have hstring : (so2Write data size offset (.fault left)).2.string =
      content 0 (left ++ data.msg.toList.drop left.length) := by
    rw [hwrite, ← toList_fill data.msg hmax]
    rfl
  have hsame : (so2Write data size offset (.fault left)).2.string = data.string ↔ WritesSame data left := by
    rw [hstring]
    unfold So2DeviceData.string WritesSame
    rw [content_overwrite 0 (by rw [Vector.length_toList]; exact hmax)]
    simp only [Vector.getElem?_toList]
    rfl
  constructor
  · intro h
    exact hsame.mp ((reads_deliver_iff data _).mp h.delivers)
  · intro h
    refine ⟨?_, (reads_deliver_iff data _).mpr (hsame.mpr h), ?_, ?_⟩
    · rw [hwrite]
    · rw [hwrite]
    · rw [hwrite]

/-- A write of `hi` to the freshly loaded device faults after the first byte: the message is then
`hhe dog is matt`. -/
theorem failed_write_garbles :
    ¬ LeavesMessage (so2CdevInit .zero 0).2 2 0 (.fault (leftBehind [104, 105] (writeLength 2) 1 false)) := by
  have hne : (so2Write (so2CdevInit .zero 0).2 2 0
      (.fault (leftBehind [104, 105] (writeLength 2) 1 false))).2.string ≠ (so2CdevInit .zero 0).2.string := by
    decide +kernel
  intro h
  exact hne ((reads_deliver_iff _ _).mp h.delivers)

end DeviceDrivers.So2
