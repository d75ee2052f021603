import DeviceDrivers.Lib.Machine
import DeviceDrivers.Timer.Device

/-!
# The packet filter

`KernelModules/packet-mod/kernel/packet.c`: an ioctl sets the destination address whose TCP connection
attempts are logged. `packet_ioctl` copies from user space right into the live address, so a copy that
faults leaves the bytes it got, and zeros for the rest, and returns `-EFAULT`. The packets that are
logged are those for the address of the last successful ioctl exactly as long as every such copy happens
to write the address that is already set (`logged_packets_iff`).

A 32-bit address is its four bytes in memory, in the packets as in the filter.
-/

namespace DeviceDrivers.Packet

/-- The object representation of an `unsigned int`. -/
abbrev Word := Vector (BitVec 8) 4

def Word.zero : Word := Vector.replicate 4 0

def MY_IOCTL_FILTER_ADDRESS : BitVec 32 := Timer.ioc 1 'k'.toNat 1 4

def IPPROTO_TCP : BitVec 8 := 6

def NF_ACCEPT : Nat := 1

/-- What the hook reads of a `sk_buff`: the IP header, and the TCP header behind it. -/
structure SkBuff where
  protocol : BitVec 8
  saddr : Word
  daddr : Word
  source : BitVec 16
  syn : Bool
  ack : Bool

/-- The messages of `packet_hook` for one packet. -/
structure LogEntry where
  saddr : Word
  source : BitVec 16
  daddr : Word
  protocol : BitVec 8

/-- `copy_from_user` of four bytes: the destination, and the number of bytes not copied. A fault after
`k` bytes fills the rest with zeros. -/
def copyFromUser (data : Word) : Option (Fin 4) → Word × Nat
  | none => (data, 0)
  | some k => (Vector.ofFn fun i => if i < k then data[i] else 0, 4 - k)

/-- `test_daddr`; `address` is `ioctl_set_address`. -/
def testDaddr (address : Word) (skb : SkBuff) : Bool :=
  if address = Word.zero then false else decide (skb.daddr = address)

/-- `packet_hook`: the verdict, and what it logs. -/
def packetHook (address : Word) (sbuf : Option SkBuff) : Nat × Option LogEntry :=
  match sbuf with
  | none => (NF_ACCEPT, none)
  | some skb =>
    if skb.protocol ≠ IPPROTO_TCP then (NF_ACCEPT, none)
    else if !skb.syn || skb.ack then (NF_ACCEPT, none)
    else if !testDaddr address skb then (NF_ACCEPT, none)
    else (NF_ACCEPT, some ⟨skb.saddr, skb.source, skb.daddr, skb.protocol⟩)

/-- `packet_ioctl`, where `data` is at `arg`: the new `ioctl_set_address`, and what it returns. -/
def packetIoctl (cmd : BitVec 32) (data : Word) (fault : Option (Fin 4)) (address : Word) : Word × Int :=
  if cmd = MY_IOCTL_FILTER_ADDRESS then
    let copy := copyFromUser data fault
    (copy.1, if copy.2 ≠ 0 then -EFAULT else 0)
  else (address, -EINVAL)

inductive PacketEvent
  | ioctl (cmd : BitVec 32) (data : Word) (fault : Option (Fin 4))
  | hook (sbuf : Option SkBuff)

inductive PacketOutput
  | returned (ret : Int)
  | verdict (v : Nat) (log : Option LogEntry)

def packetStep (address : Word) : PacketEvent → Word × PacketOutput
  | .ioctl cmd data fault =>
    let r := packetIoctl cmd data fault address
    (r.1, .returned r.2)
  | .hook sbuf =>
    let r := packetHook address sbuf
    (address, .verdict r.1 r.2)

/-- The state is `ioctl_set_address`. -/
def packet : Machine Word PacketEvent PacketOutput := ⟨Word.zero, fun address e => some (packetStep address e)⟩

/-! ### The filter that was asked for -/

/-- The address of the last ioctl that returned `0`, zero if there was none. -/
def lastSet : List (PacketEvent × PacketOutput) → Word
  | [] => Word.zero
  | (.ioctl _ data _, .returned ret) :: earlier => if ret = 0 then data else lastSet earlier
  | _ :: earlier => lastSet earlier

/-- The packets that are to be logged if the filter is set to `address`. -/
def Wanted (address : Word) (skb : SkBuff) : Prop :=
  skb.protocol = IPPROTO_TCP ∧ skb.syn = true ∧ skb.ack = false ∧ skb.daddr = address ∧ address ≠ Word.zero

/-- From here on the hook logs the packets that the last successful ioctl asked for. -/
def LogsWanted (s : Word × List (PacketEvent × PacketOutput)) : Prop :=
  ∀ skb, (packetHook s.1 (some skb)).2.isSome ↔ Wanted (lastSet s.2) skb

/-- If the step is an ioctl whose copy faults, what it writes is already there. -/
def FaultWritesSame (s : Word × List (PacketEvent × PacketOutput)) (e : PacketEvent) : Prop :=
  ∀ data k, e = .ioctl MY_IOCTL_FILTER_ADDRESS data (some k) → (copyFromUser data (some k)).1 = s.1

theorem packetHook_logs (address : Word) (skb : SkBuff) :
    (packetHook address (some skb)).2.isSome ↔ Wanted address skb := by
  unfold packetHook Wanted testDaddr
  dsimp only
  by_cases hproto : skb.protocol = IPPROTO_TCP
  · by_cases hzero : address = Word.zero
    · simp [hproto, hzero]
    · cases hsyn : skb.syn <;> cases hack : skb.ack <;> by_cases hdaddr : skb.daddr = address <;>
        simp [hproto, hzero, hdaddr]
  · simp [hproto]

theorem wanted_inj {a b : Word} (h : ∀ skb, Wanted a skb ↔ Wanted b skb) : a = b := by
  have hto : ∀ c : Word, c ≠ Word.zero → Wanted c ⟨IPPROTO_TCP, Word.zero, c, 0, true, false⟩ :=
    fun c hc => ⟨rfl, rfl, rfl, rfl, hc⟩
  by_cases ha : a = Word.zero
  · by_contra hne
    have hb : b ≠ Word.zero := by
      rintro rfl
      exact hne ha
    obtain ⟨-, -, -, hdaddr, -⟩ := (h _).mpr (hto b hb)
    exact hne hdaddr.symm
  · obtain ⟨-, -, -, hdaddr, -⟩ := (h _).mp (hto a ha)
    exact hdaddr

theorem logsWanted_iff (s : Word × List (PacketEvent × PacketOutput)) :
    LogsWanted s ↔ s.1 = lastSet s.2 := by
  unfold LogsWanted
  constructor
  · intro h
    apply wanted_inj
    intro skb
    rw [← packetHook_logs, h]
  · intro h skb
    rw [packetHook_logs, h]

theorem packetIoctl_cases (cmd : BitVec 32) (data : Word) (fault : Option (Fin 4)) (address : Word) :
    (cmd = MY_IOCTL_FILTER_ADDRESS ∧ fault = none ∧ packetIoctl cmd data fault address = (data, 0)) ∨
    (∃ k, cmd = MY_IOCTL_FILTER_ADDRESS ∧ fault = some k ∧
      packetIoctl cmd data fault address = ((copyFromUser data (some k)).1, -EFAULT)) ∨
    (cmd ≠ MY_IOCTL_FILTER_ADDRESS ∧ packetIoctl cmd data fault address = (address, -EINVAL)) := by
  by_cases hcmd : cmd = MY_IOCTL_FILTER_ADDRESS
  · cases fault with
    | none =>
      left
      refine ⟨hcmd, rfl, ?_⟩
      unfold packetIoctl
      rw [if_pos hcmd]
      rfl
    | some k =>
      right; left
      refine ⟨k, hcmd, rfl, ?_⟩
      have hleft : (copyFromUser data (some k)).2 ≠ 0 := by
        show 4 - k.val ≠ 0
        omega
      unfold packetIoctl
      rw [if_pos hcmd]
      simp only [if_pos hleft]
  · right; right
    exact ⟨hcmd, if_neg hcmd⟩

theorem logsWanted_step {s t : Word × List (PacketEvent × PacketOutput)} {e : PacketEvent}
    {o : PacketOutput} (hs : LogsWanted s) (hstep : packet.withLog.step s e = some (t, o)) :
    LogsWanted t ↔ FaultWritesSame s e := by
  rw [logsWanted_iff] at hs ⊢
  obtain ⟨hpacket, hlog⟩ := packet.withLog_step hstep
  obtain ⟨haddress, hout⟩ := Prod.mk.inj (Option.some.inj hpacket)
  rw [hlog, ← haddress, ← hout]
  cases e with
  | hook sbuf => exact iff_of_true hs (by simp [FaultWritesSame])
  | ioctl cmd data fault =>
    show (packetIoctl cmd data fault s.1).1 =
      (if (packetIoctl cmd data fault s.1).2 = 0 then data else lastSet s.2) ↔ _
    rcases packetIoctl_cases cmd data fault s.1 with ⟨rfl, rfl, heq⟩ | ⟨k, rfl, rfl, heq⟩ | ⟨hcmd, heq⟩
    · rw [heq]
      exact iff_of_true rfl (by simp [FaultWritesSame])
    · -- the address is overwritten, the filter that was asked for is not
      have herr : (-EFAULT : Int) ≠ 0 := by decide
      rw [heq, if_neg herr, ← hs]
      constructor
      · intro h data' k' he
        injection he with _ hdata hk
        obtain rfl := Option.some.inj hk
        rw [← hdata, h]
      · intro h
        exact h data k rfl
    · have herr : (-EINVAL : Int) ≠ 0 := by decide
      rw [heq, if_neg herr]
      refine iff_of_true hs ?_
      intro data' k' he
      injection he with hcmd'
      exact (hcmd hcmd').elim

/-- Along every sequence of ioctls and packets, the packets that are logged are those for the address of
the last ioctl that returned `0` exactly when every ioctl whose copy faults writes the address that is
already set. -/
theorem logged_packets_iff (es : List PacketEvent) :
    packet.withLog.Always LogsWanted es ↔ packet.withLog.EveryStep FaultWritesSame es := by
  obtain ⟨s, os, hrun⟩ := packet.exists_run (fun _ _ => rfl) es
  refine Machine.always_iff_everyStep (Machine.invariant_true _) ?_ (fun _ => logsWanted_step)
    (packet.run_withLog hrun)
  rw [logsWanted_iff]
  rfl

/-- The filter is set to 10.0.0.1, and a second ioctl faults after one byte. -/
def faultAfterOneByte : List PacketEvent :=
  [.ioctl MY_IOCTL_FILTER_ADDRESS #v[10, 0, 0, 1] none,
    .ioctl MY_IOCTL_FILTER_ADDRESS #v[192, 168, 0, 1] (some ⟨1, by decide⟩)]

/-- Connections to 10.0.0.1 are no longer logged then. -/
theorem filter_lost_after_fault : ¬ packet.withLog.Always LogsWanted faultAfterOneByte := by
  intro h
  have hlast := h _ _ [.returned 0, .returned (-EFAULT)] (List.prefix_refl _) rfl
  rw [logsWanted_iff] at hlast
  exact absurd hlast (by decide)

end DeviceDrivers.Packet
