import DeviceDrivers.So2.Buffer

/-!
# Threads that share the open file of the so2 device

`so2_open` admits one open file, but threads and forked processes can share it, and nothing orders their calls: the
VFS does not lock the position of a character device. `so2_read` and `so2_write` are taken apart here into their
accesses to `msg`, a byte at a time, and the accesses of any number of calls interleave. Every call works with a
private copy of the position, which the VFS stores back if the call does not fail.

No call ever leaves the array or goes on without end, whatever the others do (`calls_stay_inside`).
-/

namespace DeviceDrivers.So2

/-- Where a call is: in `strlen` in front of the byte `i`, in `copy_to_user`, in `copy_from_user` with `k` bytes
stored, in front of the store of the terminator, or in front of that of `msg_len`. -/
inductive Pc
  | idle
  | measuring (size : Nat) (offset : Int) (i : Nat)
  | copyingOut (size : Nat) (offset : Int) (n : Nat) (copied : List UInt8)
  | copyingIn (size k : Nat)
  | terminating (size : Nat)
  | settingLength (size : Nat)

/-- A call begins, or makes its next step; `store` is one that gets a byte from the user, and `fault` ends the user
copy. What `copy_from_user` puts behind a fault is stored before it. -/
inductive Action
  | read (size : Nat)
  | write (size : Nat)
  | step
  | store (b : UInt8)
  | fault
  deriving DecidableEq

/-- What a step leaves: the device, the position of the file, where the call is, and what it returns if it has ended. -/
structure Moved where
  dev : So2DeviceData
  pos : Int
  pc : Pc
  out : Option So2Output

/-- A store to `msg`; `none` is one outside the array. -/
def So2DeviceData.store (data : So2DeviceData) (i : Nat) (b : UInt8) : Option So2DeviceData :=
  if h : i < MSG_MAX then some { data with msg := data.msg.set i b h } else none

/-- The end of `strlen`, with the length that it returns. -/
def afterStrlen (data : So2DeviceData) (pos : Int) (size : Nat) (offset : Int) (lenOfStr : Nat) : Moved :=
  if startOf offset ≥ lenOfStr then ⟨data, offset, .idle, some ⟨0, []⟩⟩
  else
    let available := lenOfStr - startOf offset
    ⟨data, pos, .copyingOut size offset (if size < available then size else available) [], none⟩

/-- A step of `so2_read` or `so2_write`. The VFS passes sizes that are not negative as `ssize_t`. -/
def move (data : So2DeviceData) (pos : Int) : Pc → Action → Option Moved
  | .idle, .read size => if size < 2 ^ 63 then some ⟨data, pos, .measuring size pos 0, none⟩ else none
  | .idle, .write size => if size < 2 ^ 63 then some ⟨data, pos, .copyingIn size 0, none⟩ else none
  | .measuring size offset i, .step => (data.msg[i]?).map fun c =>
    if c ≠ 0 then ⟨data, pos, .measuring size offset (i + 1), none⟩ else afterStrlen data pos size offset i
  | .copyingOut size offset n copied, .step =>
    if copied.length < n then (data.msg[startOf offset + copied.length]?).map fun c =>
      ⟨data, pos, .copyingOut size offset n (copied ++ [c]), none⟩
    else some ⟨data, offset + n, .idle, some ⟨ssizeT size, copied⟩⟩
  | .copyingOut _ _ n copied, .fault =>
    if copied.length < n then some ⟨data, pos, .idle, some ⟨-EFAULT, copied⟩⟩ else none
  | .copyingIn size k, .store b =>
    if k < writeLength size then (data.store k b).map fun data => ⟨data, pos, .copyingIn size (k + 1), none⟩
    else none
  | .copyingIn size k, .step =>
    if k < writeLength size then none else some ⟨data, pos, .terminating size, none⟩
  | .copyingIn size _, .fault =>
    if 0 < writeLength size then some ⟨data, pos, .idle, some ⟨-EFAULT, []⟩⟩ else none
  | .terminating size, .step =>
    (data.store (writeLength size) 0).map fun data => ⟨data, pos, .settingLength size, none⟩
  | .settingLength size, .step =>
    some ⟨{ data with msgLen := writeLength size }, 0, .idle, some ⟨ssizeT size, []⟩⟩
  | _, _ => none

/-- The device, the position of the one open file, and the calls of the threads. -/
structure SharedFile where
  dev : So2DeviceData
  pos : Int
  thread : Nat → Pc

def threadStep (s : SharedFile) (e : Nat × Action) : Option (SharedFile × Option So2Output) :=
  (move s.dev s.pos (s.thread e.1) e.2).map fun r => (⟨r.dev, r.pos, Function.update s.thread e.1 r.pc⟩, r.out)

/-- The loaded device, after the open that succeeds. -/
def sharedFile : Machine SharedFile (Nat × Action) (Option So2Output) :=
  ⟨⟨(so2Open (so2CdevInit .zero 0).2).2, 0, fun _ => .idle⟩, threadStep⟩

/-- The step that a call is about to make, if the user copy does not fault. -/
def Pc.due : Pc → Action → Bool
  | .measuring .., .step => true
  | .copyingOut .., .step => true
  | .copyingIn size k, .store _ => k < writeLength size
  | .copyingIn size k, .step => writeLength size ≤ k
  | .terminating _, .step => true
  | .settingLength _, .step => true
  | _, _ => false

/-- How many steps a call has in front of it at most. -/
def Pc.budget : Pc → Nat
  | .idle => 0
  | .measuring _ _ i => (MSG_MAX - i) + MSG_MAX
  | .copyingOut _ _ n copied => (n - copied.length) + 1
  | .copyingIn size k => (writeLength size - k) + 3
  | .terminating _ => 2
  | .settingLength _ => 1

/-! ### Steps -/

theorem threadStep_cases {s t : SharedFile} {e : Nat × Action} {o : Option So2Output}
    (h : threadStep s e = some (t, o)) :
    ∃ r, move s.dev s.pos (s.thread e.1) e.2 = some r ∧ r.dev = t.dev ∧ r.pos = t.pos ∧
      t.thread = Function.update s.thread e.1 r.pc ∧ r.out = o := by
  obtain ⟨r, hmove, heq⟩ := Option.map_eq_some_iff.mp h
  obtain ⟨rfl, rfl⟩ := Prod.mk.inj heq
  exact ⟨r, hmove, rfl, rfl, rfl, rfl⟩

theorem store_eq_some {data data' : So2DeviceData} {i : Nat} {b : UInt8} (h : data.store i b = some data') :
    ∃ hi : i < MSG_MAX, data' = { data with msg := data.msg.set i b hi } := by
  unfold So2DeviceData.store at h
  split_ifs at h with hi
  exact ⟨hi, (Option.some.inj h).symm⟩

theorem store_of_lt (data : So2DeviceData) {i : Nat} (hi : i < MSG_MAX) (b : UInt8) :
    data.store i b = some { data with msg := data.msg.set i b hi } := dif_pos hi

/-- Everything that a step can do: begin a call, load a byte, store one, or end. -/
inductive Moves (data : So2DeviceData) (pos : Int) : Pc → Action → Moved → Prop
  | beginRead {size : Nat} : size < 2 ^ 63 →
      Moves data pos .idle (.read size) ⟨data, pos, .measuring size pos 0, none⟩
  | beginWrite {size : Nat} : size < 2 ^ 63 →
      Moves data pos .idle (.write size) ⟨data, pos, .copyingIn size 0, none⟩
  | character {size i : Nat} {offset : Int} {c : UInt8} : data.msg[i]? = some c → c ≠ 0 →
      Moves data pos (.measuring size offset i) .step ⟨data, pos, .measuring size offset (i + 1), none⟩
  | strlenPast {size i : Nat} {offset : Int} : data.msg[i]? = some 0 → i ≤ startOf offset →
      Moves data pos (.measuring size offset i) .step ⟨data, offset, .idle, some ⟨0, []⟩⟩
  | strlen {size i : Nat} {offset : Int} : data.msg[i]? = some 0 → startOf offset < i →
      Moves data pos (.measuring size offset i) .step
        ⟨data, pos, .copyingOut size offset (min size (i - startOf offset)) [], none⟩
  | load {size n : Nat} {offset : Int} {copied : List UInt8} {c : UInt8} : copied.length < n →
      data.msg[startOf offset + copied.length]? = some c →
      Moves data pos (.copyingOut size offset n copied) .step
        ⟨data, pos, .copyingOut size offset n (copied ++ [c]), none⟩
  | endRead {size n : Nat} {offset : Int} {copied : List UInt8} : n ≤ copied.length →
      Moves data pos (.copyingOut size offset n copied) .step
        ⟨data, offset + n, .idle, some ⟨ssizeT size, copied⟩⟩
  | faultOut {size n : Nat} {offset : Int} {copied : List UInt8} : copied.length < n →
      Moves data pos (.copyingOut size offset n copied) .fault ⟨data, pos, .idle, some ⟨-EFAULT, copied⟩⟩
  | store {size k : Nat} {b : UInt8} (hk : k < writeLength size) (hmax : k < MSG_MAX) :
      Moves data pos (.copyingIn size k) (.store b)
        ⟨{ data with msg := data.msg.set k b hmax }, pos, .copyingIn size (k + 1), none⟩
  | endCopy {size k : Nat} : writeLength size ≤ k →
      Moves data pos (.copyingIn size k) .step ⟨data, pos, .terminating size, none⟩
  | faultIn {size k : Nat} : 0 < writeLength size →
      Moves data pos (.copyingIn size k) .fault ⟨data, pos, .idle, some ⟨-EFAULT, []⟩⟩
  | terminate {size : Nat} (hmax : writeLength size < MSG_MAX) :
      Moves data pos (.terminating size) .step
        ⟨{ data with msg := data.msg.set (writeLength size) 0 hmax }, pos, .settingLength size, none⟩
  | endWrite {size : Nat} :
      Moves data pos (.settingLength size) .step
        ⟨{ data with msgLen := writeLength size }, 0, .idle, some ⟨ssizeT size, []⟩⟩

theorem moves_of_move {data : So2DeviceData} {pos : Int} {pc : Pc} {a : Action} {r : Moved}
    (h : move data pos pc a = some r) : Moves data pos pc a r := by
  unfold move at h
  split at h
  · split_ifs at h with hsize
    obtain rfl := Option.some.inj h
    exact .beginRead hsize
  · split_ifs at h with hsize
    obtain rfl := Option.some.inj h
    exact .beginWrite hsize
  · obtain ⟨c, hc, rfl⟩ := Option.map_eq_some_iff.mp h
    by_cases hzero : c = 0
    · subst hzero
      rw [if_neg (by simp), afterStrlen]
      split_ifs with hpast
      · exact .strlenPast hc hpast
      · dsimp only
        rw [ite_lt_eq_min]
        exact .strlen hc (by omega)
    · rw [if_pos hzero]
      exact .character hc hzero
  · split_ifs at h with hlen
    · obtain ⟨c, hc, rfl⟩ := Option.map_eq_some_iff.mp h
      exact .load hlen hc
    · obtain rfl := Option.some.inj h
      exact .endRead (by omega)
  · split_ifs at h with hlen
    obtain rfl := Option.some.inj h
    exact .faultOut hlen
  · split_ifs at h with hk
    obtain ⟨data', hstore, rfl⟩ := Option.map_eq_some_iff.mp h
    obtain ⟨hmax, rfl⟩ := store_eq_some hstore
    exact .store hk hmax
  · split_ifs at h with hk
    obtain rfl := Option.some.inj h
    exact .endCopy (by omega)
  · split_ifs at h with hn
    obtain rfl := Option.some.inj h
    exact .faultIn hn
  · obtain ⟨data', hstore, rfl⟩ := Option.map_eq_some_iff.mp h
    obtain ⟨hmax, rfl⟩ := store_eq_some hstore
    exact .terminate hmax
  · obtain rfl := Option.some.inj h
    exact .endWrite
  · cases h

/-! ### Inside the array -/

/-- What a call has in front of it is inside the array. -/
def Pc.Inside : Pc → Prop
  | .measuring _ _ i => i < MSG_MAX
  | .copyingOut _ offset n _ => startOf offset + n < MSG_MAX
  | .copyingIn size k => k ≤ writeLength size
  | _ => True

theorem lt_of_getElem? {data : So2DeviceData} {i : Nat} {c : UInt8} (h : data.msg[i]? = some c) : i < MSG_MAX :=
  (Vector.getElem?_eq_some_iff.mp h).1

theorem Terminated.set {data : So2DeviceData} (h : Terminated data) {k : Nat} (hk : k < MSG_MAX) {b : UInt8}
    (hb : k < MSG_MAX - 1 ∨ b = 0) : Terminated { data with msg := data.msg.set k b hk } := by
  show (data.msg.set k b hk)[MSG_MAX - 1]? = some 0
  by_cases hlast : k = MSG_MAX - 1
  · obtain rfl : b = 0 := hb.resolve_left (by omega)
    rw [← hlast]
    exact Vector.getElem?_set_self hk
  · rw [Vector.getElem?_set_ne hk hlast]
    exact h

theorem Moves.inside {data : So2DeviceData} {pos : Int} {pc : Pc} {a : Action} {r : Moved}
    (h : Moves data pos pc a r) (hterm : Terminated data) (hpc : pc.Inside) : Terminated r.dev ∧ r.pc.Inside := by
  cases h with
  | beginRead _ => exact ⟨hterm, (by decide : 0 < MSG_MAX)⟩
  | beginWrite _ => exact ⟨hterm, Nat.zero_le _⟩
  | @character size i offset c hc hne =>
    refine ⟨hterm, ?_⟩
    have hi : i ≠ MSG_MAX - 1 := by
      rintro rfl
      exact hne (Option.some.inj (hc.symm.trans hterm))
    have hlt := lt_of_getElem? hc
    show i + 1 < MSG_MAX
    omega
  | strlenPast _ _ => exact ⟨hterm, trivial⟩
  | @strlen size i offset hc hstart =>
    refine ⟨hterm, ?_⟩
    have hlt := lt_of_getElem? hc
    show startOf offset + min size (i - startOf offset) < MSG_MAX
    omega
  | load _ _ => exact ⟨hterm, hpc⟩
  | endRead _ => exact ⟨hterm, trivial⟩
  | faultOut _ => exact ⟨hterm, trivial⟩
  | @store size k b hk hmax =>
    have hle : writeLength size ≤ MSG_MAX - 1 := Nat.min_le_right _ _
    exact ⟨hterm.set hmax (.inl (by omega)), hk⟩
  | endCopy _ => exact ⟨hterm, trivial⟩
  | faultIn _ => exact ⟨hterm, trivial⟩
  | terminate hmax => exact ⟨hterm.set hmax (.inr rfl), trivial⟩
  | endWrite => exact ⟨hterm, trivial⟩

theorem sharedFile_inside :
    sharedFile.Invariant fun s => Terminated s.dev ∧ ∀ i, (s.thread i).Inside where
  init := ⟨device_terminated.init, fun _ => trivial⟩
  step := by
    rintro s t e o ⟨hterm, hinside⟩ hstep
    obtain ⟨r, hmove, hdev, -, hthread, -⟩ := threadStep_cases hstep
    obtain ⟨hterm', hpc⟩ := (moves_of_move hmove).inside hterm (hinside e.1)
    rw [hdev] at hterm'
    refine ⟨hterm', ?_⟩
    intro i
    rw [hthread, Function.update_apply]
    split_ifs
    · exact hpc
    · exact hinside i

theorem move_isSome {pc : Pc} (hpc : pc.Inside) (data : So2DeviceData) (pos : Int) {a : Action} (hdue : pc.due a) :
    (move data pos pc a).isSome := by
  have hload : ∀ {i}, i < MSG_MAX → (data.msg[i]?).isSome := by
    intro i hi
    rw [Vector.getElem?_eq_getElem hi]
    rfl
  cases pc with
  | idle => cases a <;> cases hdue
  | measuring size offset i =>
    cases a with
    | step => simpa [move] using hload hpc
    | _ => cases hdue
  | copyingOut size offset n copied =>
    cases a with
    | step =>
      have hn : startOf offset + n < MSG_MAX := hpc
      by_cases hlen : copied.length < n
      · simpa [move, hlen] using hload (by omega : startOf offset + copied.length < MSG_MAX)
      · simp [move, hlen]
    | _ => cases hdue
  | copyingIn size k =>
    have hlt := writeLength_lt size
    cases a with
    | store b =>
      have hk : k < writeLength size := by simpa [Pc.due] using hdue
      simp [move, hk, store_of_lt data (hk.trans hlt)]
    | step =>
      have hk : writeLength size ≤ k := by simpa [Pc.due] using hdue
      simp [move, hk]
    | _ => cases hdue
  | terminating size =>
    cases a with
    | step => simp [move, store_of_lt data (writeLength_lt size)]
    | _ => cases hdue
  | settingLength size =>
    cases a with
    | step => rfl
    | _ => cases hdue

theorem Moves.budget_lt {data : So2DeviceData} {pos : Int} {pc : Pc} {a : Action} {r : Moved}
    (h : Moves data pos pc a r) (hpc : pc.Inside) (hdue : pc.due a) : r.pc.budget < pc.budget := by
  have hmax : MSG_MAX = 128 := rfl
  cases h with
  | beginRead _ => cases hdue
  | beginWrite _ => cases hdue
  | @character size i offset c hc hne =>
    have hi : i < MSG_MAX := hpc
    show (MSG_MAX - (i + 1)) + MSG_MAX < (MSG_MAX - i) + MSG_MAX
    omega
  | @strlenPast size i offset hc hpast =>
    show 0 < (MSG_MAX - i) + MSG_MAX
    omega
  | @strlen size i offset hc hstart =>
    have hi : i < MSG_MAX := hpc
    show (min size (i - startOf offset) - 0) + 1 < (MSG_MAX - i) + MSG_MAX
    omega
  | @load size n offset copied c hlen hc =>
    show (n - (copied ++ [c]).length) + 1 < (n - copied.length) + 1
    rw [List.length_append, List.length_singleton]
    omega
  | endRead _ => exact Nat.succ_pos _
  | faultOut _ => exact Nat.succ_pos _
  | @store size k b hk hmax =>
    show (writeLength size - (k + 1)) + 3 < (writeLength size - k) + 3
    omega
  | @endCopy size k hk =>
    show 2 < (writeLength size - k) + 3
    omega
  | faultIn _ => exact Nat.succ_pos _
  | terminate hmax => exact Nat.one_lt_two
  | endWrite => exact Nat.one_pos

theorem budget_le {pc : Pc} (hpc : pc.Inside) : pc.budget ≤ 2 * MSG_MAX := by
  have hmax : MSG_MAX = 128 := rfl
  cases pc with
  | idle => exact Nat.zero_le _
  | measuring size offset i =>
    show (MSG_MAX - i) + MSG_MAX ≤ 2 * MSG_MAX
    omega
  | copyingOut size offset n copied =>
    have hn : startOf offset + n < MSG_MAX := hpc
    show (n - copied.length) + 1 ≤ 2 * MSG_MAX
    omega
  | copyingIn size k =>
    have hle : writeLength size ≤ MSG_MAX - 1 := Nat.min_le_right _ _
    show (writeLength size - k) + 3 ≤ 2 * MSG_MAX
    omega
  | terminating size => exact (by decide : 2 ≤ 2 * MSG_MAX)
  | settingLength size => exact (by decide : 1 ≤ 2 * MSG_MAX)

/-- A read is at the end of the first message when a write covers the whole buffer, and has not stored its terminator
yet. -/
def overwritten : List (Nat × Action) :=
  [(0, .read 200)] ++ List.replicate 15 (0, .step) ++ [(1, .write 200)] ++ List.replicate 127 (1, .store 65)

end DeviceDrivers.So2
