import DeviceDrivers.Kbd.Ring
import DeviceDrivers.Lib.Pool

/-!
# Concurrent readers of the keyboard

`kbd_read` drops the lock after every character, so other readers, `kbd_write` and interrupts may
run between any two of its iterations. A step of `readers` is one critical section (`get_char`,
`put_char`, `reset_buffer`) or one `put_user`, and any number of `kbd_read` calls are under way.

`presses`, `discarded` and `pops` record the history: the key presses, the characters thrown away by
clears, and the slots `get_char` took since the last clear.
-/

namespace DeviceDrivers.Kbd

/-- Where a `kbd_read` stands: before `while (size--)`, holding a character that `put_user` has yet
to store, returned, or returned after a fault of `put_user`. -/
inductive ReaderPc
  | looping
  | holding (ch : UInt8)
  | returned (ret : Int)
  | faulted
  deriving DecidableEq

/-- A call of `kbd_read`: the size asked for, its local variables, the bytes stored in the user
buffer so far, and whether a `get_char` of it found `cnt = 0`. -/
structure Reader where
  requested : Nat
  size : Nat
  read : Nat
  stored : List UInt8
  sawEmpty : Bool
  pc : ReaderPc
  deriving DecidableEq

def Reader.start (size : Nat) : Reader := ⟨size, size, 0, [], false, .looping⟩

/-- The value the call returned, once it has. -/
def Reader.ret (r : Reader) : Option Int :=
  match r.pc with
  | .returned ret => some ret
  | .faulted => some (-EFAULT)
  | _ => none

def Reader.isPending (r : Reader) : Bool :=
  match r.pc with
  | .holding _ => true
  | _ => false

def Reader.isFaulted (r : Reader) : Bool := r.pc = .faulted

structure Sys where
  dev : KbdDev
  readers : List Reader
  presses : Nat
  discarded : Nat
  pops : List Nat

inductive ReadersEvent
  | irq (data : UInt8)
  | write (size : Nat)
  /-- a new `kbd_read` of the given size -/
  | call (size : Nat)
  /-- reader `i` goes once round the head of its loop, through `get_char` -/
  | loop (i : Nat)
  /-- `put_user` of reader `i` succeeds or fails -/
  | put (i : Nat) (ok : Bool)
  deriving DecidableEq

/-- `while (size--)` and, if the loop goes on, the locked `get_char`. -/
def Sys.afterLoop (s : Sys) (i : Nat) (r : Reader) : Sys :=
  if r.size = 0 then
    { s with readers := s.readers.set i { r with pc := .returned (ssizeT r.read) } }
  else
    match getChar s.dev with
    | none =>
      { s with
        readers := s.readers.set i
          { r with size := r.size - 1, sawEmpty := true, pc := .returned (ssizeT r.read) } }
    | some (ch, dev) =>
      { s with
        dev := dev
        pops := s.pops ++ [s.dev.getIdx]
        readers := s.readers.set i { r with size := r.size - 1, pc := .holding ch } }

/-- `put_user(ch, uBuff++)` and `read++`, or the return with `-EFAULT`. -/
def Sys.afterPut (s : Sys) (i : Nat) (r : Reader) (ch : UInt8) (ok : Bool) : Sys :=
  { s with
    readers := s.readers.set i (if ok then
      { r with read := r.read + 1, stored := r.stored ++ [ch], pc := .looping }
      else { r with pc := .faulted }) }

def readersStep (s : Sys) : ReadersEvent → Option Sys
  | .irq data => some { s with
      dev := (kbdIrqHandler s.dev data).2
      presses := s.presses + (if isKeyPress data.toUInt32 then 1 else 0) }
  | .write size => some { s with
      dev := (kbdWrite s.dev size).2
      discarded := s.discarded + s.dev.cnt
      pops := [] }
  | .call size =>
    if size < 2 ^ 64 then some { s with readers := s.readers ++ [Reader.start size] } else none
  | .loop i =>
    match s.readers[i]? with
    | some r => if r.pc = .looping then some (s.afterLoop i r) else none
    | none => none
  | .put i ok =>
    match s.readers[i]? with
    | some r =>
      match r.pc with
      | .holding ch => some (s.afterPut i r ch ok)
      | _ => none
    | none => none

/-- The driver with any number of `kbd_read` calls under way. -/
def readers : Machine Sys ReadersEvent Unit :=
  ⟨⟨.fresh, [], 0, 0, []⟩, fun s e => (readersStep s e).map (·, ())⟩

theorem readersStep_cases {s t : Sys} {e : ReadersEvent} (h : readersStep s e = some t) :
    (∃ data, e = .irq data ∧ t = { s with
        dev := (kbdIrqHandler s.dev data).2
        presses := s.presses + (if isKeyPress data.toUInt32 then 1 else 0) }) ∨
    (∃ size, e = .write size ∧ t = { s with
        dev := resetBuffer s.dev, discarded := s.discarded + s.dev.cnt, pops := [] }) ∨
    (∃ size, e = .call size ∧ size < 2 ^ 64 ∧
      t = { s with readers := s.readers ++ [Reader.start size] }) ∨
    (∃ i r, e = .loop i ∧ s.readers[i]? = some r ∧ r.pc = .looping ∧ t = s.afterLoop i r) ∨
    (∃ i r ch ok, e = .put i ok ∧ s.readers[i]? = some r ∧ r.pc = .holding ch ∧
      t = s.afterPut i r ch ok) := by
  cases e with
  | irq data => exact .inl ⟨data, rfl, (Option.some.inj h).symm⟩
  | write size => exact .inr (.inl ⟨size, rfl, (Option.some.inj h).symm⟩)
  | call size =>
    simp only [readersStep] at h
    split_ifs at h with hsize
    exact .inr (.inr (.inl ⟨size, rfl, hsize, (Option.some.inj h).symm⟩))
  | loop i =>
    simp only [readersStep] at h
    cases hr : s.readers[i]? with
    | none => simp [hr] at h
    | some r =>
      simp only [hr] at h
      split_ifs at h with hpc
      exact .inr (.inr (.inr (.inl ⟨i, r, rfl, hr, hpc, (Option.some.inj h).symm⟩)))
  | put i ok =>
    simp only [readersStep] at h
    cases hr : s.readers[i]? with
    | none => simp [hr] at h
    | some r =>
      simp only [hr] at h
      cases hpc : r.pc with
      | holding ch =>
        simp only [hpc] at h
        exact .inr (.inr (.inr (.inr ⟨i, r, ch, ok, rfl, hr, hpc, (Option.some.inj h).symm⟩)))
      | looping => simp [hpc] at h
      | returned ret => simp [hpc] at h
      | faulted => simp [hpc] at h

/-! ### The invariant -/

/-- The characters the call has taken: stored, waiting for `put_user`, or lost to a fault. -/
def Reader.popped (r : Reader) : Nat :=
  r.stored.length + (if r.isPending then 1 else 0) + (if r.isFaulted then 1 else 0)

/-- A call between two of its steps. -/
structure Reader.Ok (r : Reader) : Prop where
  requested_lt : r.requested < 2 ^ 64
  read_eq : r.read = r.stored.length
  progress : match r.pc with
    | .looping => r.read + r.size = r.requested
    | .holding _ => r.read + r.size + 1 = r.requested
    | .returned ret => ret = ssizeT r.read ∧ r.read ≤ r.requested ∧
        (r.read < r.requested → r.sawEmpty = true)
    | .faulted => True

/-- The indices follow the pops since the last clear, and every key press is accounted for. -/
structure Sys.Inv (s : Sys) : Prop where
  readers_ok : ∀ r ∈ s.readers, r.Ok
  getIdx_eq : s.dev.getIdx = s.pops.length % BUFF_SIZE
  pops_eq : s.pops = (List.range s.pops.length).map (· % BUFF_SIZE)
  ledger : s.presses < 2 ^ 64 →
    s.presses = (s.readers.map Reader.popped).sum + s.discarded + s.dev.cnt

theorem start_ok {size : Nat} (h : size < 2 ^ 64) : (Reader.start size).Ok :=
  ⟨h, rfl, Nat.zero_add size⟩

theorem inv_irq {s : Sys} (h : s.Inv) (data : UInt8) :
    Sys.Inv { s with
      dev := (kbdIrqHandler s.dev data).2
      presses := s.presses + (if isKeyPress data.toUInt32 then 1 else 0) } := by
  simp only [kbdIrqHandler]
  by_cases hp : isKeyPress data.toUInt32 = true
  · simp only [hp, if_true]
    refine ⟨h.readers_ok, h.getIdx_eq, h.pops_eq, fun hlt => ?_⟩
    simp only at hlt
    have hledger := h.ledger (by omega)
    simp only [putChar_cnt]
    rw [sizeT_of_lt (by omega)]
    omega
  · simp only [hp]
    exact ⟨h.readers_ok, h.getIdx_eq, h.pops_eq, h.ledger⟩

theorem inv_write {s : Sys} (h : s.Inv) :
    Sys.Inv { s with
      dev := resetBuffer s.dev, discarded := s.discarded + s.dev.cnt, pops := [] } := by
  refine ⟨h.readers_ok, rfl, rfl, fun hlt => ?_⟩
  have hledger := h.ledger hlt
  simp only [resetBuffer]
  omega

theorem inv_call {s : Sys} (h : s.Inv) {size : Nat} (hsize : size < 2 ^ 64) :
    Sys.Inv { s with readers := s.readers ++ [Reader.start size] } := by
  refine ⟨fun r hr => ?_, h.getIdx_eq, h.pops_eq, fun hlt => ?_⟩
  · rcases List.mem_append.mp hr with hr | hr
    · exact h.readers_ok r hr
    · rw [List.mem_singleton] at hr
      exact hr ▸ start_ok hsize
  · have hledger := h.ledger hlt
    have hzero : (Reader.start size).popped = 0 := rfl
    simp only [List.map_append, List.map_cons, List.map_nil, List.sum_append, List.sum_singleton,
      hzero, Nat.add_zero]
    exact hledger

theorem inv_set {s : Sys} (h : s.Inv) {i : Nat} {r r' : Reader} (hr : s.readers[i]? = some r)
    (hok : r'.Ok) (hpopped : r'.popped = r.popped) :
    Sys.Inv { s with readers := s.readers.set i r' } := by
  refine ⟨Pool.forall_set h.readers_ok hok, h.getIdx_eq, h.pops_eq, fun hlt => ?_⟩
  have hledger := h.ledger hlt
  have hsum := Pool.sum_map_set (b := r') Reader.popped hr
  simp only
  omega

theorem inv_pop {s : Sys} (h : s.Inv) {i : Nat} {r r' : Reader} (hr : s.readers[i]? = some r)
    (hok : r'.Ok) (hpopped : r'.popped = r.popped + 1) (hcnt : 0 < s.dev.cnt) :
    Sys.Inv { s with
      dev := s.dev.advance 1, pops := s.pops ++ [s.dev.getIdx], readers := s.readers.set i r' } := by
  refine ⟨Pool.forall_set h.readers_ok hok, ?_, ?_, fun hlt => ?_⟩
  · simp only [KbdDev.advance, h.getIdx_eq, List.length_append, List.length_singleton,
      Nat.mod_add_mod]
  · simp only [List.length_append, List.length_singleton, List.range_succ, List.map_append,
      List.map_cons, List.map_nil, ← h.pops_eq, ← h.getIdx_eq]
  · have hledger := h.ledger hlt
    have hsum := Pool.sum_map_set (b := r') Reader.popped hr
    simp only [KbdDev.advance]
    omega

theorem getIdx_lt_of_inv {s : Sys} (h : s.Inv) : s.dev.getIdx < BUFF_SIZE :=
  h.getIdx_eq ▸ Nat.mod_lt _ (by decide)

theorem inv_afterLoop {s : Sys} (h : s.Inv) {i : Nat} {r : Reader} (hr : s.readers[i]? = some r)
    (hpc : r.pc = .looping) : (s.afterLoop i r).Inv := by
  have hok := h.readers_ok r (List.mem_of_getElem? hr)
  have hprogress : r.read + r.size = r.requested := by simpa [hpc] using hok.progress
  have hpopped : r.popped = r.stored.length := by
    simp [Reader.popped, Reader.isPending, Reader.isFaulted, hpc]
  unfold Sys.afterLoop
  split_ifs with hsize
  · refine inv_set h hr ⟨hok.requested_lt, hok.read_eq, rfl, ?_, ?_⟩ ?_
    · simp only
      omega
    · simp only
      omega
    · simp [Reader.popped, Reader.isPending, Reader.isFaulted, hpc]
  · rcases Nat.eq_zero_or_pos s.dev.cnt with hzero | hpos
    · rw [getChar_of_zero hzero]
      refine inv_set h hr ⟨hok.requested_lt, hok.read_eq, rfl, ?_, fun _ => rfl⟩ ?_
      · simp only
        omega
      · simp [Reader.popped, Reader.isPending, Reader.isFaulted, hpc]
    · rw [getChar_of_pos (getIdx_lt_of_inv h) hpos]
      refine inv_pop h hr ⟨hok.requested_lt, hok.read_eq, ?_⟩ ?_ hpos
      · simp only
        omega
      · simp [Reader.popped, Reader.isPending, Reader.isFaulted, hpc]

theorem inv_afterPut {s : Sys} (h : s.Inv) {i : Nat} {r : Reader} {ch : UInt8}
    (hr : s.readers[i]? = some r) (hpc : r.pc = .holding ch) (ok : Bool) :
    (s.afterPut i r ch ok).Inv := by
  have hok := h.readers_ok r (List.mem_of_getElem? hr)
  have hprogress : r.read + r.size + 1 = r.requested := by simpa [hpc] using hok.progress
  cases ok with
  | true =>
    refine inv_set h hr ⟨hok.requested_lt, ?_, ?_⟩ ?_
    · simp [hok.read_eq]
    · simp only [if_true]
      omega
    · simp [Reader.popped, Reader.isPending, Reader.isFaulted, hpc]
  | false =>
    refine inv_set h hr ⟨hok.requested_lt, hok.read_eq, trivial⟩ ?_
    simp [Reader.popped, Reader.isPending, Reader.isFaulted, hpc]

theorem readers_invariant : readers.Invariant Sys.Inv where
  init := ⟨fun r hr => absurd hr List.not_mem_nil, rfl, rfl, fun _ => rfl⟩
  step := by
    intro s t e o h hstep
    obtain ⟨t', ht, heq⟩ := Option.map_eq_some_iff.mp hstep
    obtain rfl : t' = t := congrArg Prod.fst heq
    obtain ⟨data, -, rfl⟩ | ⟨size, -, rfl⟩ | ⟨size, -, hsize, rfl⟩ | ⟨i, r, -, hr, hpc, rfl⟩ |
      ⟨i, r, ch, ok, -, hr, hpc, rfl⟩ := readersStep_cases ht
    · exact inv_irq h data
    · exact inv_write h
    · exact inv_call h hsize
    · exact inv_afterLoop h hr hpc
    · exact inv_afterPut h hr hpc ok

/-! ### The account of a run -/

def ReadersEvent.isPress : ReadersEvent → Bool
  | .irq data => isKeyPress data.toUInt32
  | _ => false

theorem afterLoop_presses (s : Sys) (i : Nat) (r : Reader) :
    (s.afterLoop i r).presses = s.presses := by
  unfold Sys.afterLoop
  split_ifs
  · rfl
  · cases getChar s.dev <;> rfl

theorem presses_eq {es : List ReadersEvent} {s : Sys} {os : List Unit}
    (hrun : readers.run es = some (s, os)) : s.presses = es.countP ReadersEvent.isPress := by
  induction es using List.reverseRecOn generalizing s os with
  | nil =>
    obtain ⟨rfl, -⟩ := Prod.mk.inj (Option.some.inj hrun)
    rfl
  | append_singleton es e ih =>
    obtain ⟨s', os', o, hpre, hstep, -⟩ := readers.run_concat_eq_some.mp hrun
    obtain ⟨t, ht, heq⟩ := Option.map_eq_some_iff.mp hstep
    obtain rfl : t = s := congrArg Prod.fst heq
    rw [List.countP_append, List.countP_singleton, ← ih hpre]
    obtain ⟨data, rfl, rfl⟩ | ⟨size, rfl, rfl⟩ | ⟨size, rfl, -, rfl⟩ | ⟨i, r, rfl, -, -, rfl⟩ |
      ⟨i, r, ch, ok, rfl, -, -, rfl⟩ := readersStep_cases ht
    · rfl
    · rfl
    · rfl
    · exact afterLoop_presses s' i r
    · rfl

theorem sum_popped (rs : List Reader) :
    (rs.map Reader.popped).sum =
      (rs.map (·.stored.length)).sum + (rs.countP Reader.isFaulted + rs.countP Reader.isPending) := by
  induction rs with
  | nil => rfl
  | cons r rs ih =>
    simp only [List.map_cons, List.sum_cons, List.countP_cons, ih, Reader.popped]
    omega

theorem loop_pops {s : Sys} (h : s.Inv) {i : Nat} {t : Sys} {o : Unit}
    (hstep : readers.step s (.loop i) = some (t, o)) :
    (t.pops = s.pops ∧ t.dev = s.dev) ∨
      ∃ r ch, t.readers[i]? = some r ∧ r.pc = .holding ch ∧
        t.pops = s.pops ++ [s.pops.length % BUFF_SIZE] ∧
        s.dev.buff[s.pops.length % BUFF_SIZE]? = some ch := by
  obtain ⟨t', ht, heq⟩ := Option.map_eq_some_iff.mp hstep
  obtain rfl : t' = t := congrArg Prod.fst heq
  obtain ⟨data, he, -⟩ | ⟨size, he, -⟩ | ⟨size, he, -, -⟩ | ⟨j, r, he, hr, hpc, rfl⟩ |
    ⟨j, r, ch, ok, he, -, -, -⟩ := readersStep_cases ht
  · cases he
  · cases he
  · cases he
  · obtain rfl : i = j := ReadersEvent.loop.inj he
    have hlt : i < s.readers.length := (List.getElem?_eq_some_iff.mp hr).1
    unfold Sys.afterLoop
    split_ifs with hsize
    · exact .inl ⟨rfl, rfl⟩
    · rcases Nat.eq_zero_or_pos s.dev.cnt with hzero | hpos
      · rw [getChar_of_zero hzero]
        exact .inl ⟨rfl, rfl⟩
      · have hidx := getIdx_lt_of_inv h
        rw [getChar_of_pos hidx hpos, ← h.getIdx_eq]
        refine .inr ⟨_, s.dev.slot s.dev.getIdx, List.getElem?_set_self hlt, rfl, rfl, ?_⟩
        simp [KbdDev.slot, hidx]
  · cases he

/-- **No key slot is lost or handed out twice.** In every interleaving with fewer than `2 ^ 64` key
presses: the presses are the characters stored, those popped whose `put_user` failed or is pending,
those discarded by clears and those still in the ring; the `i`-th pop since the last clear took slot
`i % BUFF_SIZE`, and whatever reader pops next holds the character that stands in the slot of that
pop; and a `kbd_read` that returned a non-negative value returned the number of bytes it stored, less
than it was asked for only if it found the ring empty. -/
theorem readers_account (es : List ReadersEvent) (s : Sys) (os : List Unit)
    (hrun : readers.run es = some (s, os)) (hlt : es.countP ReadersEvent.isPress < 2 ^ 64) :
    es.countP ReadersEvent.isPress = (s.readers.map (·.stored.length)).sum +
        (s.readers.countP Reader.isFaulted + s.readers.countP Reader.isPending) +
        s.discarded + s.dev.cnt ∧
      (∀ i slot, s.pops[i]? = some slot → slot = i % BUFF_SIZE) ∧
      (∀ i t o, readers.step s (.loop i) = some (t, o) →
        (t.pops = s.pops ∧ t.dev = s.dev) ∨
          ∃ r ch, t.readers[i]? = some r ∧ r.pc = .holding ch ∧
            t.pops = s.pops ++ [s.pops.length % BUFF_SIZE] ∧
            s.dev.buff[s.pops.length % BUFF_SIZE]? = some ch) ∧
      ∀ r ∈ s.readers, ∀ ret, r.ret = some ret → 0 ≤ ret →
        ret = r.stored.length ∧ (r.stored.length < r.requested → r.sawEmpty = true) := by
  have hinv := readers_invariant.run hrun
  refine ⟨?_, fun i slot hslot => ?_, fun i t o hstep => loop_pops hinv hstep,
    fun r hr ret hret hnonneg => ?_⟩
  · rw [← presses_eq hrun, ← sum_popped]
    exact hinv.ledger (presses_eq hrun ▸ hlt)
  · rw [hinv.pops_eq, List.getElem?_map, Option.map_eq_some_iff] at hslot
    obtain ⟨j, hj, rfl⟩ := hslot
    obtain ⟨hi, rfl⟩ := List.getElem?_eq_some_iff.mp hj
    rw [List.getElem_range]
  · have hok := hinv.readers_ok r hr
    have hprogress := hok.progress
    cases hpc : r.pc with
    | looping => simp [Reader.ret, hpc] at hret
    | holding ch => simp [Reader.ret, hpc] at hret
    | faulted =>
      obtain rfl : -EFAULT = ret := by simpa [Reader.ret, hpc] using hret
      exact absurd hnonneg (by decide)
    | returned ret' =>
      obtain rfl : ret' = ret := by simpa [Reader.ret, hpc] using hret
      simp only [hpc] at hprogress
      obtain ⟨hssize, hle, hempty⟩ := hprogress
      have hread : r.read < 2 ^ 64 := lt_of_le_of_lt hle hok.requested_lt
      rw [hssize] at hnonneg
      rw [hssize, ← hok.read_eq]
      exact ⟨ssizeT_of_nonneg hread hnonneg, hempty⟩

/-- Two readers of two keys: the first stores one, the second's `put_user` is pending. -/
theorem readers_account_two_readers :
    ∃ s os, readers.run [.irq 0x10, .irq 0x11, .call 5, .call 1, .loop 0, .loop 1, .put 0 true] =
        some (s, os) ∧
      2 = (s.readers.map (·.stored.length)).sum +
        (s.readers.countP Reader.isFaulted + s.readers.countP Reader.isPending) +
        s.discarded + s.dev.cnt := by
  have hsome : (readers.run
      [.irq 0x10, .irq 0x11, .call 5, .call 1, .loop 0, .loop 1, .put 0 true]).isSome = true := by
    decide +kernel
  have hpresses : List.countP ReadersEvent.isPress
      [.irq 0x10, .irq 0x11, .call 5, .call 1, .loop 0, .loop 1, .put 0 true] = 2 := by
    decide +kernel
  obtain ⟨⟨s, os⟩, hrun⟩ := Option.isSome_iff_exists.mp hsome
  have haccount := (readers_account _ s os hrun (by rw [hpresses]; decide)).1
  rw [hpresses] at haccount
  exact ⟨s, os, hrun, haccount⟩

/-! ### A reader that nobody interrupts -/

theorem readers_step_loop {s : Sys} {i : Nat} {r : Reader} (hr : s.readers[i]? = some r)
    (hpc : r.pc = .looping) : readers.step s (.loop i) = some (s.afterLoop i r, ()) := by
  simp [readers, readersStep, hr, hpc]

theorem readers_step_put {s : Sys} {i : Nat} {r : Reader} {ch : UInt8}
    (hr : s.readers[i]? = some r) (hpc : r.pc = .holding ch) (ok : Bool) :
    readers.step s (.put i ok) = some (s.afterPut i r ch ok, ()) := by
  simp [readers, readersStep, hr, hpc]

/-- The steps of reader `i`. -/
def ReadersEvent.OfReader (i : Nat) : ReadersEvent → Prop
  | .loop j => j = i
  | .put j _ => j = i
  | _ => False

/-- Run alone, the steps of a reader are the sequential `kbd_read`. -/
theorem reader_alone (fault : Option Nat) (size : Nat) (s : Sys) (i : Nat) (r : Reader)
    (hr : s.readers[i]? = some r) (hpc : r.pc = .looping) (hsize : r.size = size) :
    ∃ es t os r', (∀ e ∈ es, e.OfReader i) ∧ readers.runFrom s es = some (t, os) ∧
      t.readers[i]? = some r' ∧ r'.ret = some (kbdReadLoop fault size r.read s.dev).ret ∧
      r'.stored = r.stored ++ (kbdReadLoop fault size r.read s.dev).stored ∧
      t.dev = (kbdReadLoop fault size r.read s.dev).dev := by
  induction size generalizing s r with
  | zero =>
    have hlt : i < s.readers.length := (List.getElem?_eq_some_iff.mp hr).1
    refine ⟨[.loop i], s.afterLoop i r, [()], { r with pc := .returned (ssizeT r.read) },
      by simp [ReadersEvent.OfReader],
      readers.runFrom_cons_eq_some.mpr ⟨_, _, _, readers_step_loop hr hpc, rfl, rfl⟩, ?_⟩
    simp [Sys.afterLoop, hsize, kbdReadLoop, Reader.ret, hlt]
  | succ size ih =>
    have hlt : i < s.readers.length := (List.getElem?_eq_some_iff.mp hr).1
    have hloop := readers_step_loop hr hpc
    cases hget : getChar s.dev with
    | none =>
      refine ⟨[.loop i], s.afterLoop i r, [()],
        { r with size := r.size - 1, sawEmpty := true, pc := .returned (ssizeT r.read) },
        by simp [ReadersEvent.OfReader],
        readers.runFrom_cons_eq_some.mpr ⟨_, _, _, hloop, rfl, rfl⟩, ?_⟩
      simp [Sys.afterLoop, hsize, kbdReadLoop, Reader.ret, hlt, hget]
    | some c =>
      obtain ⟨ch, dev⟩ := c
      have hafter : s.afterLoop i r = { s with
          dev := dev
          pops := s.pops ++ [s.dev.getIdx]
          readers := s.readers.set i { r with size := size, pc := .holding ch } } := by
        simp [Sys.afterLoop, hsize, hget]
      have hheld : (s.afterLoop i r).readers[i]? = some { r with size := size, pc := .holding ch } := by
        simp [hafter, hlt]
      by_cases hfault : fault = some r.read
      · refine ⟨[.loop i, .put i false], _, [(), ()], { r with size := size, pc := .faulted },
          by simp [ReadersEvent.OfReader],
          readers.runFrom_cons_eq_some.mpr ⟨_, _, _, hloop, readers.runFrom_cons_eq_some.mpr
            ⟨_, _, _, readers_step_put hheld rfl false, rfl, rfl⟩, rfl⟩, ?_⟩
        simp [hafter, Sys.afterPut, kbdReadLoop, Reader.ret, hlt, hget, hfault]
      · -- the character is stored, and the rest is the same call one character further
        have hput := readers_step_put hheld rfl true
        obtain ⟨es, t, os, r', hes, hrun, hr', hret, hstored, hdev⟩ := ih
          ((s.afterLoop i r).afterPut i { r with size := size, pc := .holding ch } ch true)
          { r with size := size, read := r.read + 1, stored := r.stored ++ [ch], pc := .looping }
          (by simp [hafter, Sys.afterPut, hlt]) rfl rfl
        refine ⟨.loop i :: .put i true :: es, t, () :: () :: os, r', ?_,
          readers.runFrom_cons_eq_some.mpr ⟨_, _, _, hloop, readers.runFrom_cons_eq_some.mpr
            ⟨_, _, _, hput, hrun, rfl⟩, rfl⟩, hr', ?_, ?_, ?_⟩
        · simpa [ReadersEvent.OfReader] using hes
        · simpa [hafter, Sys.afterPut, kbdReadLoop, hget, hfault] using hret
        · simpa [hafter, Sys.afterPut, kbdReadLoop, hget, hfault] using hstored
        · simpa [hafter, Sys.afterPut, kbdReadLoop, hget, hfault] using hdev

end DeviceDrivers.Kbd
