import DeviceDrivers.Kbd.Load
import DeviceDrivers.Mmap.Load

/-!
# The device number of the five drivers

`so2_cdev.c`, `timer.c`, `kbd.c`, `memory.c` and `nonMemory.c` all register major 42 with minor 0. What their init
functions do with the number is the same up to one point (`InitSpec`): each returns an error and leaves the number
alone if it does not get it, and keeps the number if it does, also where it fails afterwards. Their exit functions
give it back.

`cdev` is here that `cdev_add` was called. None of the five looks at what it returns.
-/

namespace DeviceDrivers.Chrdev

/-! ### The two drivers that only register their devices -/

inductive Resource
  | chrdevRegion
  | cdev
  deriving DecidableEq

/-- The one device of `NUM_MINORS`, after `register_chrdev_region` returned `region`. -/
def registerDevices (region : Int) (h : Held Resource) : Int × Held Resource :=
  if region ≠ 0 then (region, h)
  else if .chrdevRegion ∈ h.held then (-EBUSY, h)
  else (0, (h.acquire .chrdevRegion).acquire .cdev)

def unregisterDevices (h : Held Resource) : Held Resource := (h.release .cdev).release .chrdevRegion

/-- `so2_cdev_init`, as far as it registers. -/
def so2CdevInit : Int → Held Resource → Int × Held Resource := registerDevices

/-- `so2_cdev_exit` -/
def so2CdevExit : Held Resource → Held Resource := unregisterDevices

/-- `deferred_init` of `timer.c`, as far as it registers. -/
def deferredInit : Int → Held Resource → Int × Held Resource := registerDevices

/-- `deferred_exit` of `timer.c`, as far as it registers. -/
def deferredExit : Held Resource → Held Resource := unregisterDevices

/-! ### Counting what a driver has -/

/-- How many times the region and the device are among the resources `l`. -/
def tally {ρ : Type} [DecidableEq ρ] (region node : ρ) (l : List ρ) : Nat × Nat := (l.count region, l.count node)

variable {pageShift : Nat}

section

variable {ρ : Type} [DecidableEq ρ] {a : ρ}

theorem count_acquire (h : Held ρ) (r : ρ) :
    (h.acquire r).held.count a = h.held.count a + if r = a then 1 else 0 := by
  simp [Held.acquire, List.count_singleton]

theorem count_release (h : Held ρ) (r : ρ) :
    (h.release r).held.count a = h.held.count a - if r = a then 1 else 0 := by
  unfold Held.release
  split_ifs with hr hra hra
  · rw [hra, List.count_erase_self]
  · rw [List.count_erase_of_ne (Ne.symm hra), Nat.sub_zero]
  · rw [← hra, List.count_eq_zero_of_not_mem hr]
  · rfl

end

/-- What an init function does with the number: `before` and `after` count the region and the device, `res` is what
`register_chrdev_region` returns, `out` is what the function returns, if it returns, and `completes` is that nothing
fails behind the registration. -/
structure InitSpec (before after : Nat × Nat) (res : Int) (out : Option Int) (completes : Prop) : Prop where
  refused : res ≠ 0 ∨ 0 < before.1 → (∃ err, out = some err ∧ err ≠ 0) ∧ after = before
  registered : res = 0 → before.1 = 0 →
    after.1 = 1 ∧ after.2 ≤ before.2 + 1 ∧ (out = some 0 ↔ completes) ∧ (completes → 0 < after.2)

theorem registerDevices_spec (res : Int) (h : Held Resource) :
    InitSpec (tally .chrdevRegion .cdev h.held) (tally .chrdevRegion .cdev (registerDevices res h).2.held) res
      (some (registerDevices res h).1) True := by
  unfold registerDevices
  refine ⟨?_, ?_⟩
  · rintro (hres | hheld)
    · rw [if_pos hres]
      exact ⟨⟨res, rfl, hres⟩, rfl⟩
    · have hmem : .chrdevRegion ∈ h.held := List.count_pos_iff.mp hheld
      have hbusy : (-EBUSY : Int) ≠ 0 := by decide
      split_ifs with hres
      · exact ⟨⟨res, rfl, hres⟩, rfl⟩
      · exact ⟨⟨-EBUSY, rfl, hbusy⟩, rfl⟩
  · intro hres hzero
    have hmem : .chrdevRegion ∉ h.held := List.count_eq_zero.mp hzero
    rw [if_neg (not_not.mpr hres), if_neg hmem]
    have hcount : h.held.count .chrdevRegion = 0 := hzero
    simp [tally, count_acquire, hcount]

/-! ### The mmap drivers -/

/-- The region and the device; the other resources of these drivers are pages, blocks and a `/proc` entry. -/
def IsNumber (r : Mmap.Resource) : Prop := r = .chrdevRegion ∨ r = .cdev 0

theorem IsNumber.ne {r : Mmap.Resource} (hr : IsNumber r) :
    (∀ p, .reserved p ≠ r) ∧ (∀ p, .block p ≠ r) ∧ .procEntry ≠ r := by
  rcases hr with rfl | rfl <;> simp

theorem count_pageOps {r : Mmap.Resource} {op : Held Mmap.Resource → Mmap.Resource → Held Mmap.Resource}
    (hop : ∀ h p, (op h (.reserved p)).held.count r = h.held.count r) (is : List Nat) (s : Mmap.Driver) :
    (is.foldl (Mmap.Driver.pageOp pageShift op) s).owned.held.count r = s.owned.held.count r := by
  induction is generalizing s with
  | nil => rfl
  | cons i is ih =>
    rw [List.foldl_cons, ih]
    unfold Mmap.Driver.pageOp
    split_ifs
    · rfl
    · exact hop _ _

theorem count_setPagesReserved {r : Mmap.Resource} (hr : IsNumber r) (s : Mmap.Driver) :
    (s.setPagesReserved pageShift).owned.held.count r = s.owned.held.count r := by
  apply count_pageOps
  intro h p
  rw [count_acquire, if_neg (hr.ne.1 p), Nat.add_zero]

theorem count_clearPagesReserved {r : Mmap.Resource} (hr : IsNumber r) (s : Mmap.Driver) :
    (s.clearPagesReserved pageShift).owned.held.count r = s.owned.held.count r := by
  apply count_pageOps
  intro h p
  rw [count_release, if_neg (hr.ne.1 p), Nat.sub_zero]

theorem count_allocate {size : Nat} {r : Mmap.Resource} (hr : IsNumber r) (s : Mmap.Driver)
    (alloc : Option (Mmap.Block size)) : (s.allocate alloc).2.owned.held.count r = s.owned.held.count r := by
  cases alloc with
  | none => rfl
  | some b =>
    simp only [Mmap.Driver.allocate]
    rw [count_acquire, if_neg (hr.ne.2.1 _), Nat.add_zero]

theorem count_free {r : Mmap.Resource} (hr : IsNumber r) (s : Mmap.Driver) (ptr : Nat) :
    (s.free ptr).owned.held.count r = s.owned.held.count r := by
  unfold Mmap.Driver.free
  split_ifs
  · rfl
  · dsimp only
    rw [count_release, if_neg (hr.ne.2.1 ptr), Nat.sub_zero]

theorem count_procCreate {r : Mmap.Resource} (hr : IsNumber r) (s : Mmap.Driver) :
    s.procCreate.owned.held.count r = s.owned.held.count r := by
  unfold Mmap.Driver.procCreate
  split_ifs
  · rfl
  · dsimp only
    rw [count_acquire, if_neg hr.ne.2.2, Nat.add_zero]

theorem count_removeProcEntry {r : Mmap.Resource} (hr : IsNumber r) (s : Mmap.Driver) :
    s.removeProcEntry.owned.held.count r = s.owned.held.count r := by
  unfold Mmap.Driver.removeProcEntry
  dsimp only
  rw [count_release, if_neg hr.ne.2.2, Nat.sub_zero]

theorem registerChrdevRegion_spec (res : Int) (s : Mmap.Driver) :
    (res ≠ 0 ∨ .chrdevRegion ∈ s.owned.held →
      (s.registerChrdevRegion res).1 ≠ 0 ∧ (s.registerChrdevRegion res).2 = s) ∧
    (res = 0 → .chrdevRegion ∉ s.owned.held → (s.registerChrdevRegion res).1 = 0 ∧
      ∀ r, IsNumber r → (s.registerChrdevRegion res).2.cdevAdd.owned.held.count r = s.owned.held.count r + 1) := by
  have hbusy : (-EBUSY : Int) ≠ 0 := by decide
  unfold Mmap.Driver.registerChrdevRegion
  refine ⟨?_, ?_⟩
  · intro h
    split_ifs with hres hmem
    · exact ⟨hres, rfl⟩
    · exact ⟨hbusy, rfl⟩
    · exact absurd h (by simp [not_not.mp hres, hmem])
  · intro hres hmem
    rw [if_neg (not_not.mpr hres), if_neg hmem]
    refine ⟨rfl, ?_⟩
    have hcdevs : Mmap.cdevs = [.cdev 0] := rfl
    intro r hr
    simp only [Mmap.Driver.cdevAdd, Held.acquireAll_eq, hcdevs, Held.acquire, List.count_append]
    rcases hr with rfl | rfl <;> simp

theorem mydriverInit_spec (env : Mmap.LoadEnv (Mmap.kmallocSize pageShift)) (s : Mmap.Driver) :
    InitSpec (tally .chrdevRegion (.cdev 0) s.owned.held)
      (tally .chrdevRegion (.cdev 0) (Mmap.mydriverInit pageShift env s).2.owned.held) env.region
      (some (Mmap.mydriverInit pageShift env s).1) (env.alloc.isSome = true) := by
  obtain ⟨hrefused, hregistered⟩ := registerChrdevRegion_spec env.region s
  refine ⟨?_, ?_⟩
  · intro h
    obtain ⟨hret, hsame⟩ := hrefused (h.imp_right List.count_pos_iff.mp)
    unfold Mmap.mydriverInit
    dsimp only
    rw [if_pos hret, hsame]
    exact ⟨⟨_, rfl, hret⟩, rfl⟩
  · intro hres hzero
    obtain ⟨hret, hcount⟩ := hregistered hres (List.count_eq_zero.mp hzero)
    have hafter : ∀ r, IsNumber r →
        (Mmap.mydriverInit pageShift env s).2.owned.held.count r = s.owned.held.count r + 1 := by
      intro r hr
      unfold Mmap.mydriverInit
      dsimp only
      rw [if_neg (not_not.mpr hret)]
      split_ifs
      · exact (count_allocate hr _ _).trans (hcount r hr)
      · exact (count_setPagesReserved hr _).trans ((count_allocate hr _ _).trans (hcount r hr))
    have hok : (Mmap.mydriverInit pageShift env s).1 = 0 ↔ env.alloc.isSome = true := by
      unfold Mmap.mydriverInit
      dsimp only
      rw [if_neg (not_not.mpr hret)]
      cases env.alloc with
      | none => simp [Mmap.Driver.allocate, ENOMEM]
      | some b => simp [Mmap.Driver.allocate, Nat.ne_of_gt b.pos, hret]
    refine ⟨?_, ?_, by rw [Option.some_inj]; exact hok, ?_⟩
    · exact (hafter _ (.inl rfl)).trans (by rw [show s.owned.held.count .chrdevRegion = 0 from hzero])
    · exact Nat.le_of_eq (hafter _ (.inr rfl))
    · intro _
      exact Nat.lt_of_lt_of_eq (Nat.succ_pos _) (hafter _ (.inr rfl)).symm

/-- What `driver_initt` returns: it does not get past an operation on a page of no area. -/
def outOf (r : Int × Mmap.Driver) : Option Int := if r.2.nullOps = [] then some r.1 else none

theorem procCreate_nullOps (s : Mmap.Driver) : s.procCreate.nullOps = s.nullOps := by
  unfold Mmap.Driver.procCreate
  split_ifs <;> rfl

theorem driverInitt_out {env : Mmap.LoadEnv (Mmap.vmallocSize pageShift)} {s : Mmap.Driver} (hops : s.nullOps = [])
    (hres : env.region = 0) (hfree : .chrdevRegion ∉ s.procCreate.owned.held) :
    outOf (Mmap.driverInitt pageShift env s) = some 0 ↔ env.alloc.isSome = true := by
  have hnull := (procCreate_nullOps s).trans hops
  unfold outOf Mmap.driverInitt
  rw [hres, Mmap.Driver.registerChrdevRegion_succeeds hfree]
  cases halloc : env.alloc with
  | none =>
    refine iff_of_false ?_ (by simp)
    simp only [Mmap.Driver.allocate, not_true_eq_false, if_false, ne_eq]
    intro hout
    split_ifs at hout with hpages
    exact Mmap.Driver.setPagesReserved_null pageShift rfl hpages
  | some b =>
    have harea : b.ptr ≠ 0 := Nat.ne_of_gt b.pos
    refine iff_of_true ?_ rfl
    simp only [Mmap.Driver.allocate, not_true_eq_false, if_false, ne_eq]
    rw [Mmap.Driver.setPagesReserved_eq pageShift harea]
    exact if_pos hnull

/-- The `/proc` entry comes before the registration, and what `vmalloc` returns is not looked at. -/
theorem driverInitt_spec (env : Mmap.LoadEnv (Mmap.vmallocSize pageShift)) {s : Mmap.Driver} (hops : s.nullOps = []) :
    InitSpec (tally .chrdevRegion (.cdev 0) s.owned.held)
      (tally .chrdevRegion (.cdev 0) (Mmap.driverInitt pageShift env s).2.owned.held) env.region
      (outOf (Mmap.driverInitt pageShift env s)) (env.alloc.isSome = true) := by
  have hproc : ∀ r, IsNumber r → s.procCreate.owned.held.count r = s.owned.held.count r := fun r hr =>
    count_procCreate hr s
  obtain ⟨hrefused, hregistered⟩ := registerChrdevRegion_spec env.region s.procCreate
  refine ⟨?_, ?_⟩
  · intro h
    obtain ⟨hret, hsame⟩ := hrefused (h.imp_right fun hpos => List.count_pos_iff.mp (by
      rw [hproc _ (.inl rfl)]
      exact hpos))
    have hnull := (procCreate_nullOps s).trans hops
    unfold Mmap.driverInitt
    dsimp only
    rw [if_pos hret, hsame]
    refine ⟨⟨_, ?_, hret⟩, ?_⟩
    · unfold outOf
      rw [hsame, if_pos hnull]
    · unfold tally
      rw [hproc _ (.inl rfl), hproc _ (.inr rfl)]
  · intro hres hzero
    have hmem : .chrdevRegion ∉ s.procCreate.owned.held := List.count_eq_zero.mp (by
      rw [hproc _ (.inl rfl)]
      exact hzero)
    obtain ⟨hret, hcount⟩ := hregistered hres hmem
    have hafter : ∀ r, IsNumber r →
        (Mmap.driverInitt pageShift env s).2.owned.held.count r = s.owned.held.count r + 1 := by
      intro r hr
      unfold Mmap.driverInitt
      dsimp only
      rw [if_neg (not_not.mpr hret), ← hproc r hr]
      exact (count_setPagesReserved hr _).trans ((count_allocate hr _ _).trans (hcount r hr))
    refine ⟨?_, ?_, driverInitt_out hops hres hmem, ?_⟩
    · exact (hafter _ (.inl rfl)).trans (by rw [show s.owned.held.count .chrdevRegion = 0 from hzero])
    · exact Nat.le_of_eq (hafter _ (.inr rfl))
    · intro _
      exact Nat.lt_of_lt_of_eq (Nat.succ_pos _) (hafter _ (.inr rfl)).symm

theorem count_unregister {r : Mmap.Resource} (hr : IsNumber r) (s : Mmap.Driver) :
    s.cdevDel.unregisterChrdevRegion.owned.held.count r = s.owned.held.count r - 1 := by
  have hcdevs : Mmap.cdevs = [.cdev 0] := rfl
  simp only [Mmap.Driver.unregisterChrdevRegion, Mmap.Driver.cdevDel, hcdevs, Held.releaseAll_singleton, count_release]
  rcases hr with rfl | rfl <;> simp

theorem count_mydriverExit {r : Mmap.Resource} (hr : IsNumber r) (s : Mmap.Driver) :
    (Mmap.mydriverExit pageShift s).owned.held.count r = s.owned.held.count r - 1 := by
  unfold Mmap.mydriverExit
  dsimp only
  rw [count_free hr, count_clearPagesReserved hr, count_unregister hr]

theorem count_driverExit {r : Mmap.Resource} (hr : IsNumber r) (s : Mmap.Driver) :
    (Mmap.driverExit pageShift s).owned.held.count r = s.owned.held.count r - 1 := by
  unfold Mmap.driverExit
  dsimp only
  rw [count_free hr, count_clearPagesReserved hr, count_unregister hr, count_removeProcEntry hr]

/-! ### The keyboard driver -/

/-- Nobody else holds what the keyboard driver asks for, and it holds no port between its calls. -/
structure KbdFits (res : Kbd.Resources) : Prop where
  other : ∀ r, (res.holders r).other = false
  dataPort : (res.holders .dataPort).kbd = false
  statusPort : (res.holders .statusPort).kbd = false

def kbdTally (res : Kbd.Resources) : Nat × Nat :=
  ((res.holders .chrdevRegion).kbd.toNat, (res.holders .cdev).kbd.toNat)

/-- The outcomes behind the registration. -/
def KbdCompletes (env : Kbd.InitEnv) : Prop := env.dataPort = true ∧ env.statusPort = true ∧ env.irq = 0

theorem kbdInit_refused {env : Kbd.InitEnv} {res : Kbd.Resources} (h : env.region ≠ 0 ∨ 0 < (kbdTally res).1) :
    (Kbd.kbdInit env res).1 ≠ 0 ∧ (Kbd.kbdInit env res).2 = res := by
  apply Kbd.kbdInit_fails
  rw [Kbd.registerChrdevRegion_ne_zero]
  refine h.imp_right ?_
  intro hheld
  have hkbd : (res.holders .chrdevRegion).kbd = true := by
    cases hk : (res.holders .chrdevRegion).kbd with
    | true => rfl
    | false => simp [kbdTally, hk] at hheld
  simp [Kbd.Resources.free, hkbd]

theorem kbdFits_labelReleaseDataPort {res : Kbd.Resources} (hother : ∀ r, (res.holders r).other = false)
    (hstatus : (res.holders .statusPort).kbd = false) :
    KbdFits res.labelReleaseDataPort ∧
      (res.labelReleaseDataPort.holders .chrdevRegion) = res.holders .chrdevRegion ∧
      (res.labelReleaseDataPort.holders .cdev) = res.holders .cdev := by
  refine ⟨⟨?_, by simp [Kbd.Resources.labelReleaseDataPort, Kbd.Resources.release],
    by simp [Kbd.Resources.labelReleaseDataPort, Kbd.Resources.release, hstatus]⟩, ?_, ?_⟩
  · intro r
    by_cases hr : r = .dataPort
    · simp [Kbd.Resources.labelReleaseDataPort, Kbd.Resources.release, hr]
    · simp [Kbd.Resources.labelReleaseDataPort, Kbd.Resources.release, hr, hother]
  · simp [Kbd.Resources.labelReleaseDataPort, Kbd.Resources.release]
  · simp [Kbd.Resources.labelReleaseDataPort, Kbd.Resources.release]

theorem kbdFits_labelReleaseStatusPort {res : Kbd.Resources} (hother : ∀ r, (res.holders r).other = false) :
    KbdFits res.labelReleaseStatusPort ∧
      (res.labelReleaseStatusPort.holders .chrdevRegion) = res.holders .chrdevRegion ∧
      (res.labelReleaseStatusPort.holders .cdev) = res.holders .cdev := by
  have hreleased : ∀ r, ((res.release .statusPort).holders r).other = false := by
    intro r
    by_cases hr : r = .statusPort
    · simp [Kbd.Resources.release, hr]
    · simp [Kbd.Resources.release, hr, hother]
  obtain ⟨hfits, hregion, hcdev⟩ := kbdFits_labelReleaseDataPort hreleased (by simp [Kbd.Resources.release])
  exact ⟨hfits, hregion.trans (by simp [Kbd.Resources.release]), hcdev.trans (by simp [Kbd.Resources.release])⟩

theorem other_acquire {res : Kbd.Resources} (hother : ∀ r, (res.holders r).other = false) (r' : Kbd.Resource) :
    ∀ r, ((res.acquire r').holders r).other = false := by
  intro r
  by_cases hr : r = r'
  · simp [Kbd.Resources.acquire, hr, hother]
  · simp [Kbd.Resources.acquire, hr, hother]

theorem kbdInit_registered {env : Kbd.InitEnv} {res : Kbd.Resources} (hfits : KbdFits res) (hres : env.region = 0)
    (hzero : (kbdTally res).1 = 0) :
    KbdFits (Kbd.kbdInit env res).2 ∧ ((Kbd.kbdInit env res).2.holders .chrdevRegion).kbd = true ∧
      ((Kbd.kbdInit env res).1 = 0 ↔ KbdCompletes env) ∧
      (KbdCompletes env → ((Kbd.kbdInit env res).2.holders .cdev).kbd = true) := by
  have hbusy : (-EBUSY : Int) ≠ 0 := by decide
  have hkbd : (res.holders .chrdevRegion).kbd = false := by simpa [kbdTally] using hzero
  have hregion : res.registerChrdevRegion env.region = (0, res.acquire .chrdevRegion) := by
    simp [Kbd.Resources.registerChrdevRegion, hres, Kbd.Resources.free, hkbd, hfits.other]
  have hdata : (res.acquire .chrdevRegion).requestRegion .dataPort env.dataPort =
      if env.dataPort then (true, (res.acquire .chrdevRegion).acquire .dataPort)
      else (false, res.acquire .chrdevRegion) := by
    simp [Kbd.Resources.requestRegion, Kbd.Resources.free, Kbd.Resources.acquire, hfits.other, hfits.dataPort]
  have hstatus : ((res.acquire .chrdevRegion).acquire .dataPort).requestRegion .statusPort env.statusPort =
      if env.statusPort then (true, ((res.acquire .chrdevRegion).acquire .dataPort).acquire .statusPort)
      else (false, (res.acquire .chrdevRegion).acquire .dataPort) := by
    simp [Kbd.Resources.requestRegion, Kbd.Resources.free, Kbd.Resources.acquire, hfits.other, hfits.statusPort]
  unfold Kbd.kbdInit KbdCompletes
  dsimp only
  rw [hregion, if_neg (not_not.mpr rfl), hdata]
  have hother := other_acquire hfits.other .chrdevRegion
  cases env.dataPort with
  | false =>
    obtain ⟨hnext, hkept, -⟩ := kbdFits_labelReleaseDataPort hother
      (by simpa [Kbd.Resources.acquire] using hfits.statusPort)
    refine ⟨hnext, ?_, by simp [hbusy], by simp⟩
    exact (congrArg Kbd.Holders.kbd hkept).trans (by simp [Kbd.Resources.acquire])
  | true =>
    simp only [if_true]
    rw [hstatus]
    have hother := other_acquire hother .dataPort
    cases env.statusPort with
    | false =>
      obtain ⟨hnext, hkept, -⟩ := kbdFits_labelReleaseStatusPort hother
      refine ⟨hnext, ?_, by simp [hbusy], by simp⟩
      exact (congrArg Kbd.Holders.kbd hkept).trans (by simp [Kbd.Resources.acquire])
    | true =>
      have hother := other_acquire (other_acquire hother .statusPort) .cdev
      simp only [if_true, Bool.not_true, Bool.false_eq_true, if_false, true_and, Kbd.Resources.requestIrq]
      by_cases hirq : env.irq = 0
      · obtain ⟨hnext, hkept, hcdev⟩ := kbdFits_labelReleaseStatusPort (other_acquire hother .irq)
        rw [if_pos hirq]
        refine ⟨hnext, ?_, by simp [hirq], fun _ => ?_⟩
        · exact (congrArg Kbd.Holders.kbd hkept).trans (by simp [Kbd.Resources.acquire])
        · exact (congrArg Kbd.Holders.kbd hcdev).trans (by simp [Kbd.Resources.acquire])
      · obtain ⟨hnext, hkept, -⟩ := kbdFits_labelReleaseStatusPort hother
        rw [if_neg hirq]
        refine ⟨hnext, ?_, Iff.rfl, fun h => absurd h hirq⟩
        exact (congrArg Kbd.Holders.kbd hkept).trans (by simp [Kbd.Resources.acquire])

theorem kbdInit_spec (env : Kbd.InitEnv) {res : Kbd.Resources} (hfits : KbdFits res) :
    KbdFits (Kbd.kbdInit env res).2 ∧
      InitSpec (kbdTally res) (kbdTally (Kbd.kbdInit env res).2) env.region (some (Kbd.kbdInit env res).1)
        (KbdCompletes env) := by
  by_cases hrefused : env.region ≠ 0 ∨ 0 < (kbdTally res).1
  · obtain ⟨hret, hsame⟩ := kbdInit_refused hrefused
    rw [hsame]
    refine ⟨hfits, fun _ => ⟨⟨_, rfl, hret⟩, rfl⟩, ?_⟩
    intro hres hzero
    omega
  · have hres : env.region = 0 := by omega
    have hzero : (kbdTally res).1 = 0 := by omega
    obtain ⟨hnext, hregion, hret, hcdev⟩ := kbdInit_registered hfits hres hzero
    refine ⟨hnext, fun h => absurd h hrefused, fun _ _ =>
      ⟨by simp [kbdTally, hregion], ?_, by rw [Option.some_inj]; exact hret, ?_⟩⟩
    · exact Nat.le_trans (Bool.toNat_le _) (Nat.le_add_left _ _)
    · intro hcompletes
      simp [kbdTally, hcdev hcompletes]

theorem kbdExit_tally {res : Kbd.Resources} (hfits : KbdFits res) :
    KbdFits (Kbd.kbdExit res) ∧ kbdTally (Kbd.kbdExit res) = (0, 0) := by
  refine ⟨⟨?_, ?_, ?_⟩, ?_⟩
  · intro r
    cases r <;> simp [Kbd.kbdExit, Kbd.Resources.release, Kbd.Resources.releaseOwn, hfits.other]
  · simp [Kbd.kbdExit, Kbd.Resources.release]
  · simp [Kbd.kbdExit, Kbd.Resources.release]
  · simp [kbdTally, Kbd.kbdExit, Kbd.Resources.release, Kbd.Resources.releaseOwn]

end DeviceDrivers.Chrdev
