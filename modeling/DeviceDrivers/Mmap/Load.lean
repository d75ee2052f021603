import DeviceDrivers.Kernel
import DeviceDrivers.Lib.Held
import DeviceDrivers.Lib.Loading

/-!
# Loading the two mmap drivers

`mydriver_init` and `mydriver_exit` of `Drivers/memory/kernel/memory.c`, and `driver_initt` and
`driver_exit` of `Drivers/nonConMemory/kernel/nonMemory.c`, as far as they acquire and release. The first
driver backs its mappings with `kmalloc`, the second with `vmalloc`; the second also has a `/proc` entry.

Neither cleans up after itself. `mydriver_init` returns from a failed `kmalloc` with its device registered,
`driver_initt` from a failed registration with its `/proc` entry, and it does not look at what `vmalloc`
returns (`mmap_load_iff`). It then goes to the pages of `NULL`, where a kernel stops it; the model writes the access
down (`nullOps`) and goes on.
-/

namespace DeviceDrivers.Mmap

def NUM_MINORS : Nat := 1

def NPAGES : Nat := 3

/-- `PAGE_SIZE` on an architecture with the given `PAGE_SHIFT`. -/
def PAGE_SIZE (pageShift : Nat) : Nat := 2 ^ pageShift

/-- `PAGE_ALIGN` of an `unsigned long`. -/
def PAGE_ALIGN (pageShift x : Nat) : Nat :=
  sizeT (x + (PAGE_SIZE pageShift - 1)) / PAGE_SIZE pageShift * PAGE_SIZE pageShift

/-- A block of memory from an allocator: it is not at `NULL` and ends inside the address space. -/
structure Block (size : Nat) where
  ptr : Nat
  pos : 0 < ptr
  fits : ptr + size ≤ 2 ^ 64

inductive Resource
  | chrdevRegion
  | cdev (minor : Nat)
  | procEntry
  | block (ptr : Nat)
  | reserved (page : Nat)
  deriving DecidableEq

/-- A driver's resources and its static pointers (`ptr` is `kmalloc_ptr`, `area` is `kmalloc_area` or
`vmalloc_area`), and the pages it operated on in a null area. -/
structure Driver where
  owned : Held Resource
  ptr : Nat
  area : Nat
  nullOps : List Nat

/-- The outcomes of the calls that can fail: what `register_chrdev_region` returns where the region is
free, and what the allocator returns. -/
structure LoadEnv (size : Nat) where
  region : Int
  alloc : Option (Block size)

/-! ### The calls -/

/-- The devices of the driver, one for each minor number. -/
def cdevs : List Resource := (List.range NUM_MINORS).map Resource.cdev

/-- The pages of an area. -/
def pages (pageShift area : Nat) : List Resource :=
  (List.range NPAGES).map fun i => .reserved (area + i * PAGE_SIZE pageShift)

namespace Driver

variable (s : Driver)

/-- The static data of a driver that is being loaded. -/
def fresh : Driver := { s with ptr := 0, area := 0 }

def registerChrdevRegion (res : Int) : Int × Driver :=
  if res ≠ 0 then (res, s)
  else if .chrdevRegion ∈ s.owned.held then (-EBUSY, s)
  else (0, { s with owned := s.owned.acquire .chrdevRegion })

def unregisterChrdevRegion : Driver := { s with owned := s.owned.release .chrdevRegion }

/-- The loop with `cdev_init` and `cdev_add`, whose result is not looked at. -/
def cdevAdd : Driver := { s with owned := s.owned.acquireAll cdevs }

/-- The loop with `cdev_del`. -/
def cdevDel : Driver := { s with owned := s.owned.releaseAll cdevs }

/-- `proc_create` fails where there is an entry of that name. Its result is not looked at. -/
def procCreate : Driver :=
  if .procEntry ∈ s.owned.held then s else { s with owned := s.owned.acquire .procEntry }

def removeProcEntry : Driver := { s with owned := s.owned.release .procEntry }

/-- `kmalloc` and `vmalloc`: the address, which is `0` for `NULL`. -/
def allocate {size : Nat} (alloc : Option (Block size)) : Nat × Driver :=
  match alloc with
  | none => (0, s)
  | some b => (b.ptr, { s with owned := s.owned.acquire (.block b.ptr) })

/-- `kfree` and `vfree` -/
def free (p : Nat) : Driver := if p = 0 then s else { s with owned := s.owned.release (.block p) }

/-- `SetPageReserved` or `ClearPageReserved` on page `i` of the area. -/
def pageOp (pageShift : Nat) (op : Held Resource → Resource → Held Resource) (s : Driver) (i : Nat) :
    Driver :=
  if s.area = 0 then { s with nullOps := s.nullOps ++ [i] }
  else { s with owned := op s.owned (.reserved (s.area + i * PAGE_SIZE pageShift)) }

def setPagesReserved (pageShift : Nat) : Driver :=
  (List.range NPAGES).foldl (pageOp pageShift Held.acquire) s

def clearPagesReserved (pageShift : Nat) : Driver :=
  (List.range NPAGES).foldl (pageOp pageShift Held.release) s

end Driver

/-! ### The two drivers -/

section

variable (pageShift : Nat)

/-- The size `memory.c` allocates: a page more than it maps, to align the area. -/
def kmallocSize : Nat := (NPAGES + 1) * PAGE_SIZE pageShift

def vmallocSize : Nat := PAGE_SIZE pageShift * NPAGES

/-- `mydriver_init`, without the test bytes it writes to the pages. -/
def mydriverInit (env : LoadEnv (kmallocSize pageShift)) (s : Driver) : Int × Driver :=
  let region := s.registerChrdevRegion env.region
  if region.1 ≠ 0 then region
  else
    let block := region.2.cdevAdd.allocate env.alloc
    let s : Driver := { block.2 with ptr := block.1 }
    if s.ptr = 0 then (-ENOMEM, s)
    else
      let s : Driver := { s with area := PAGE_ALIGN pageShift s.ptr }
      (region.1, s.setPagesReserved pageShift)

/-- `mydriver_exit` -/
def mydriverExit (s : Driver) : Driver :=
  let s := s.cdevDel
  let s := s.unregisterChrdevRegion
  let s := s.clearPagesReserved pageShift
  s.free s.ptr

/-- `driver_initt` -/
def driverInitt (env : LoadEnv (vmallocSize pageShift)) (s : Driver) : Int × Driver :=
  let region := s.procCreate.registerChrdevRegion env.region
  if region.1 ≠ 0 then region
  else
    let block := region.2.cdevAdd.allocate env.alloc
    let s : Driver := { block.2 with area := block.1 }
    (region.1, s.setPagesReserved pageShift)

/-- `driver_exit` -/
def driverExit (s : Driver) : Driver :=
  let s := s.removeProcEntry
  let s := s.cdevDel
  let s := s.unregisterChrdevRegion
  let s := s.clearPagesReserved pageShift
  s.free s.area

end

/-! ### Loading and unloading -/

def memory (pageShift : Nat) : Machine (Loading Driver) (LoadEvent (LoadEnv (kmallocSize pageShift))) Int :=
  Loading.machine Driver.fresh (mydriverInit pageShift) (mydriverExit pageShift) ⟨.empty, 0, 0, []⟩

def nonMemory (pageShift : Nat) :
    Machine (Loading Driver) (LoadEvent (LoadEnv (vmallocSize pageShift))) Int :=
  Loading.machine Driver.fresh (driverInitt pageShift) (driverExit pageShift) ⟨.empty, 0, 0, []⟩

/-- The driver owns `more` and everything that both use, with a backing area that is not null; `ptr` is the
block that the area is in. No page of a null area was touched. -/
structure Owns (pageShift : Nat) (s : Driver) (ptr : Nat) (more : List Resource) : Prop where
  ptr_ne : ptr ≠ 0
  area_ne : s.area ≠ 0
  owned : s.owned.held.Perm (more ++ .chrdevRegion :: cdevs ++ .block ptr :: pages pageShift s.area)
  nullOps : s.nullOps = []

def MemoryLoaded (pageShift : Nat) (s : Driver) : Prop := Owns pageShift s s.ptr []

def NonMemoryLoaded (pageShift : Nat) (s : Driver) : Prop := Owns pageShift s s.area [.procEntry]

/-- The driver owns nothing, and no page of a null area was touched. -/
structure Unloaded (s : Driver) : Prop where
  held : s.owned.held = []
  nullOps : s.nullOps = []

/-! ### What the calls do -/

theorem PAGE_SIZE_pos (pageShift : Nat) : 0 < PAGE_SIZE pageShift := Nat.two_pow_pos pageShift

theorem PAGE_ALIGN_bounds {pageShift : Nat} (b : Block (kmallocSize pageShift)) :
    b.ptr ≤ PAGE_ALIGN pageShift b.ptr ∧ PAGE_ALIGN pageShift b.ptr < b.ptr + PAGE_SIZE pageShift := by
  have hpos := PAGE_SIZE_pos pageShift
  have hfits := b.fits
  have hsize : kmallocSize pageShift = 4 * PAGE_SIZE pageShift := rfl
  unfold PAGE_ALIGN
  rw [sizeT_of_lt (by omega)]
  have hdiv := Nat.div_add_mod (b.ptr + (PAGE_SIZE pageShift - 1)) (PAGE_SIZE pageShift)
  have hmod := Nat.mod_lt (b.ptr + (PAGE_SIZE pageShift - 1)) hpos
  rw [Nat.mul_comm] at hdiv
  omega

theorem le_PAGE_ALIGN {pageShift : Nat} (b : Block (kmallocSize pageShift)) :
    b.ptr ≤ PAGE_ALIGN pageShift b.ptr := (PAGE_ALIGN_bounds b).1

theorem dvd_PAGE_ALIGN (pageShift x : Nat) : PAGE_SIZE pageShift ∣ PAGE_ALIGN pageShift x :=
  Nat.dvd_mul_left _ _

namespace Driver

variable {s : Driver}

theorem registerChrdevRegion_fails {res : Int} (h : res ≠ 0) : s.registerChrdevRegion res = (res, s) :=
  if_pos h

theorem registerChrdevRegion_succeeds (h : .chrdevRegion ∉ s.owned.held) :
    s.registerChrdevRegion 0 = (0, { s with owned := s.owned.acquire .chrdevRegion }) := by
  unfold registerChrdevRegion
  rw [if_neg (by simp), if_neg h]

theorem free_of_ne {p : Nat} (h : p ≠ 0) :
    s.free p = { s with owned := s.owned.release (.block p) } := if_neg h

theorem foldl_pageOp (pageShift : Nat) (op : Held Resource → Resource → Held Resource) (h : s.area ≠ 0)
    (is : List Nat) :
    is.foldl (pageOp pageShift op) s =
      { s with owned := (is.map fun i => .reserved (s.area + i * PAGE_SIZE pageShift)).foldl op s.owned } := by
  induction is generalizing s with
  | nil => rfl
  | cons i is ih =>
    have hop : pageOp pageShift op s i =
        { s with owned := op s.owned (.reserved (s.area + i * PAGE_SIZE pageShift)) } := if_neg h
    rw [List.foldl_cons, hop]
    exact ih h

theorem foldl_pageOp_null (pageShift : Nat) (op : Held Resource → Resource → Held Resource)
    (h : s.area = 0) (is : List Nat) :
    is.foldl (pageOp pageShift op) s = { s with nullOps := s.nullOps ++ is } := by
  induction is generalizing s with
  | nil => simp
  | cons i is ih =>
    have hop : pageOp pageShift op s i = { s with nullOps := s.nullOps ++ [i] } := if_pos h
    rw [List.foldl_cons, hop]
    have hrest := ih (s := { s with nullOps := s.nullOps ++ [i] }) h
    simpa only [List.append_assoc, List.singleton_append] using hrest

theorem setPagesReserved_eq (pageShift : Nat) (h : s.area ≠ 0) :
    s.setPagesReserved pageShift = { s with owned := s.owned.acquireAll (pages pageShift s.area) } :=
  foldl_pageOp pageShift Held.acquire h _

theorem clearPagesReserved_eq (pageShift : Nat) (h : s.area ≠ 0) :
    s.clearPagesReserved pageShift = { s with owned := s.owned.releaseAll (pages pageShift s.area) } :=
  foldl_pageOp pageShift Held.release h _

theorem setPagesReserved_null (pageShift : Nat) (h : s.area = 0) :
    (s.setPagesReserved pageShift).nullOps ≠ [] := by
  have hops : s.setPagesReserved pageShift = { s with nullOps := s.nullOps ++ List.range NPAGES } :=
    foldl_pageOp_null pageShift Held.acquire h _
  rw [hops]
  simp [NPAGES]

end Driver

theorem Owns.exit {pageShift : Nat} {s : Driver} {ptr : Nat} {more : List Resource}
    (h : Owns pageShift s ptr more) :
    ((((s.owned.releaseAll more).releaseAll cdevs).release .chrdevRegion).releaseAll
      (pages pageShift s.area)).release (.block ptr) = ⟨[], s.owned.stray⟩ := by
  have hall : (more ++ cdevs ++ [Resource.chrdevRegion] ++ pages pageShift s.area ++
      [Resource.block ptr]).Perm s.owned.held := by
    refine List.Perm.trans ?_ h.owned.symm
    rw [List.perm_iff_count]
    intro r
    simp only [List.count_append, List.count_cons, List.count_nil]
    omega
  rw [← Held.releaseAll_of_perm hall, Held.releaseAll_append, Held.releaseAll_append,
    Held.releaseAll_append, Held.releaseAll_append, Held.releaseAll_singleton, Held.releaseAll_singleton]

/-! ### `memory.c` -/

section

variable {pageShift : Nat} {s : Driver}

theorem mydriverInit_loads {env : LoadEnv (kmallocSize pageShift)} {b : Block (kmallocSize pageShift)}
    (hs : s.owned.held = []) (hregion : env.region = 0) (halloc : env.alloc = some b) :
    mydriverInit pageShift env s =
      (0, ⟨⟨.chrdevRegion :: cdevs ++ .block b.ptr :: pages pageShift (PAGE_ALIGN pageShift b.ptr),
        s.owned.stray⟩, b.ptr, PAGE_ALIGN pageShift b.ptr, s.nullOps⟩) := by
  have hptr : b.ptr ≠ 0 := Nat.ne_of_gt b.pos
  have harea : PAGE_ALIGN pageShift b.ptr ≠ 0 := by
    have := le_PAGE_ALIGN b
    omega
  unfold mydriverInit
  rw [hregion, Driver.registerChrdevRegion_succeeds (by simp [hs]), halloc]
  simp only [Driver.allocate, ne_eq, not_true_eq_false, if_false, hptr]
  rw [Driver.setPagesReserved_eq pageShift harea]
  simp [Driver.cdevAdd, Held.acquireAll_eq, Held.acquire, hs]

theorem memoryLoaded_of_init {env : LoadEnv (kmallocSize pageShift)} {b : Block (kmallocSize pageShift)}
    (hs : s.owned.held = []) (hops : s.nullOps = []) (hregion : env.region = 0)
    (halloc : env.alloc = some b) : MemoryLoaded pageShift (mydriverInit pageShift env s).2 := by
  rw [mydriverInit_loads hs hregion halloc]
  have harea := le_PAGE_ALIGN b
  have hpos := b.pos
  refine ⟨?_, ?_, List.Perm.refl _, hops⟩
  · dsimp only
    omega
  · dsimp only
    omega

theorem mydriverInit_fails {env : LoadEnv (kmallocSize pageShift)} (hs : s.owned.held = [])
    (h : env.region ≠ 0 ∨ env.alloc = none) :
    (mydriverInit pageShift env s).1 ≠ 0 ∧ (mydriverInit pageShift env s).2.nullOps = s.nullOps ∧
      ((mydriverInit pageShift env s).2.owned.held = [] ↔ env.region ≠ 0) := by
  unfold mydriverInit
  by_cases hregion : env.region = 0
  · have halloc : env.alloc = none := by simpa [hregion] using h
    rw [hregion, Driver.registerChrdevRegion_succeeds (by simp [hs]), halloc]
    simp [Driver.allocate, Driver.cdevAdd, Held.acquireAll_eq, Held.acquire, ENOMEM]
  · rw [Driver.registerChrdevRegion_fails hregion]
    simp [hregion, hs]

theorem mydriverExit_eq (h : MemoryLoaded pageShift s) :
    mydriverExit pageShift s = { s with owned := ⟨[], s.owned.stray⟩ } := by
  have hpages := Driver.clearPagesReserved_eq (s := s.cdevDel.unregisterChrdevRegion) pageShift h.area_ne
  unfold mydriverExit
  dsimp only
  rw [hpages]
  refine (Driver.free_of_ne h.ptr_ne).trans ?_
  rw [← h.exit, Held.releaseAll_nil]
  simp only [Driver.cdevDel, Driver.unregisterChrdevRegion]

theorem mydriverExit_unloads (h : MemoryLoaded pageShift s) : Unloaded (mydriverExit pageShift s) := by
  rw [mydriverExit_eq h]
  exact ⟨rfl, h.nullOps⟩

/-! ### `nonMemory.c` -/

theorem procCreate_of_nil (hs : s.owned.held = []) :
    s.procCreate = { s with owned := ⟨[.procEntry], s.owned.stray⟩ } := by
  unfold Driver.procCreate
  rw [if_neg (by simp [hs])]
  simp [Held.acquire, hs]

theorem driverInitt_loads {env : LoadEnv (vmallocSize pageShift)} {b : Block (vmallocSize pageShift)}
    (hs : s.owned.held = []) (hregion : env.region = 0) (halloc : env.alloc = some b) :
    driverInitt pageShift env s =
      (0, ⟨⟨.procEntry :: .chrdevRegion :: cdevs ++ .block b.ptr :: pages pageShift b.ptr,
        s.owned.stray⟩, s.ptr, b.ptr, s.nullOps⟩) := by
  have harea : b.ptr ≠ 0 := Nat.ne_of_gt b.pos
  unfold driverInitt
  rw [procCreate_of_nil hs, hregion, Driver.registerChrdevRegion_succeeds (by simp), halloc]
  simp only [Driver.allocate, ne_eq, not_true_eq_false, if_false]
  rw [Driver.setPagesReserved_eq pageShift harea]
  simp [Driver.cdevAdd, Held.acquireAll_eq, Held.acquire]

theorem driverInitt_fails {env : LoadEnv (vmallocSize pageShift)} (hs : s.owned.held = [])
    (h : env.region ≠ 0 ∨ env.alloc = none) :
    ((driverInitt pageShift env s).1 ≠ 0 ∧ (driverInitt pageShift env s).2.owned.held ≠ []) ∨
      (driverInitt pageShift env s).2.nullOps ≠ [] := by
  unfold driverInitt
  rw [procCreate_of_nil hs]
  by_cases hregion : env.region = 0
  · have halloc : env.alloc = none := by simpa [hregion] using h
    rw [hregion, Driver.registerChrdevRegion_succeeds (by simp), halloc]
    right
    exact Driver.setPagesReserved_null pageShift rfl
  · rw [Driver.registerChrdevRegion_fails hregion]
    left
    simp [hregion]

theorem driverExit_unloads (h : NonMemoryLoaded pageShift s) : Unloaded (driverExit pageShift s) := by
  have hpages := Driver.clearPagesReserved_eq
    (s := s.removeProcEntry.cdevDel.unregisterChrdevRegion) pageShift h.area_ne
  have hexit : driverExit pageShift s = { s with owned := ⟨[], s.owned.stray⟩ } := by
    unfold driverExit
    dsimp only
    rw [hpages]
    refine (Driver.free_of_ne h.ptr_ne).trans ?_
    rw [← h.exit, Held.releaseAll_singleton]
    simp only [Driver.removeProcEntry, Driver.cdevDel, Driver.unregisterChrdevRegion]
  rw [hexit]
  exact ⟨rfl, h.nullOps⟩

end

/-! ### Runs -/

theorem inOrder_mydriverInit {pageShift : Nat} (env : LoadEnv (kmallocSize pageShift)) (s : Driver)
    (hs : Unloaded s) :
    Loading.InOrder (MemoryLoaded pageShift) Unloaded
        (Loading.afterInit (mydriverInit pageShift) env s.fresh) ↔
      env.region ≠ 0 ∨ env.alloc.isSome = true := by
  have hheld : s.fresh.owned.held = [] := hs.held
  by_cases hfail : env.region ≠ 0 ∨ env.alloc = none
  · obtain ⟨hret, hops, hleft⟩ := mydriverInit_fails hheld hfail
    have hcond : env.region ≠ 0 ∨ env.alloc.isSome = true ↔ env.region ≠ 0 := by
      constructor
      · rintro (h | h)
        · exact h
        · rcases hfail with hregion | hnone
          · exact hregion
          · simp [hnone] at h
      · intro h
        exact Or.inl h
    rw [Loading.inOrder_of_ne_zero hret, hcond, ← hleft]
    constructor
    · intro h
      exact h.held
    · intro h
      exact ⟨h, hops.trans hs.nullOps⟩
  · rw [not_or, not_not] at hfail
    obtain ⟨b, hb⟩ := Option.ne_none_iff_exists'.mp hfail.2
    have hload := mydriverInit_loads hheld hfail.1 hb
    rw [Loading.inOrder_of_eq_zero (congrArg Prod.fst hload)]
    exact iff_of_true (memoryLoaded_of_init hheld hs.nullOps hfail.1 hb) (by simp [hb])

theorem inOrder_driverInitt {pageShift : Nat} (env : LoadEnv (vmallocSize pageShift)) (s : Driver)
    (hs : Unloaded s) :
    Loading.InOrder (NonMemoryLoaded pageShift) Unloaded
        (Loading.afterInit (driverInitt pageShift) env s.fresh) ↔
      env.region = 0 ∧ env.alloc.isSome = true := by
  have hheld : s.fresh.owned.held = [] := hs.held
  by_cases hfail : env.region ≠ 0 ∨ env.alloc = none
  · refine iff_of_false ?_ ?_
    · intro h
      rcases driverInitt_fails hheld hfail with ⟨hret, hleft⟩ | hops
      · rw [Loading.inOrder_of_ne_zero hret] at h
        exact hleft h.held
      · -- whatever the load returns, it has touched a null area
        by_cases hret : (driverInitt pageShift env s.fresh).1 = 0
        · rw [Loading.inOrder_of_eq_zero hret] at h
          exact hops h.nullOps
        · rw [Loading.inOrder_of_ne_zero hret] at h
          exact hops h.nullOps
    · rintro ⟨hregion, halloc⟩
      rcases hfail with h | h
      · exact h hregion
      · simp [h] at halloc
  · rw [not_or, not_not] at hfail
    obtain ⟨b, hb⟩ := Option.ne_none_iff_exists'.mp hfail.2
    have hload := driverInitt_loads hheld hfail.1 hb
    rw [Loading.inOrder_of_eq_zero (congrArg Prod.fst hload), hload]
    have hpos := b.pos
    refine iff_of_true ⟨?_, ?_, List.Perm.refl _, hs.nullOps⟩ ⟨hfail.1, by simp [hb]⟩
    · dsimp only
      omega
    · dsimp only
      omega

/-- Along a run the driver touches no page of a null area, owns what it uses while it is loaded and
nothing otherwise: `memory.c` exactly when no load that gets its region fails at `kmalloc`, `nonMemory.c`
exactly when no load fails at all. -/
theorem mmap_load_iff (pageShift : Nat) :
    (∀ es s os, (memory pageShift).run es = some (s, os) →
      ((memory pageShift).Always (Loading.InOrder (MemoryLoaded pageShift) Unloaded) es ↔
        ∀ env, .init env ∈ es → env.region ≠ 0 ∨ env.alloc.isSome = true)) ∧
    (∀ es s os, (nonMemory pageShift).run es = some (s, os) →
      ((nonMemory pageShift).Always (Loading.InOrder (NonMemoryLoaded pageShift) Unloaded) es ↔
        ∀ env, .init env ∈ es → env.region = 0 ∧ env.alloc.isSome = true)) := by
  constructor
  · intro es s os hrun
    exact Loading.always_inOrder_iff ⟨rfl, rfl⟩ inOrder_mydriverInit (fun _ => mydriverExit_unloads) hrun
  · intro es s os hrun
    exact Loading.always_inOrder_iff ⟨rfl, rfl⟩ inOrder_driverInitt (fun _ => driverExit_unloads) hrun

/-- Without memory, `memory.c` keeps its device, and `nonMemory.c` goes to the pages of no area. -/
theorem failed_allocation_leaves :
    ¬ (memory 12).Always (Loading.InOrder (MemoryLoaded 12) Unloaded) [.init ⟨0, none⟩] ∧
      ¬ (nonMemory 12).Always (Loading.InOrder (NonMemoryLoaded 12) Unloaded) [.init ⟨0, none⟩] := by
  constructor
  · intro h
    have hlast : Unloaded (mydriverInit 12 ⟨0, none⟩ (memory 12).init.state.fresh).2 := h.last rfl
    exact absurd hlast.held (by decide)
  · intro h
    have hlast : NonMemoryLoaded 12 (driverInitt 12 ⟨0, none⟩ (nonMemory 12).init.state.fresh).2 := h.last rfl
    exact absurd hlast.nullOps (by decide)

/-- A load of each driver with memory at hand and an unload; `memory.c` also has no trouble with a region
that it does not get. -/
theorem mmap_load_iff_twice :
    (memory 12).Always (Loading.InOrder (MemoryLoaded 12) Unloaded)
        [.init ⟨0, some ⟨4096, by decide, by decide⟩⟩, .exit, .init ⟨-16, none⟩] ∧
      (nonMemory 12).Always (Loading.InOrder (NonMemoryLoaded 12) Unloaded)
        [.init ⟨0, some ⟨4096, by decide, by decide⟩⟩, .exit] := by
  constructor
  · apply ((mmap_load_iff 12).1 _ _ _ rfl).mpr
    simp
  · apply ((mmap_load_iff 12).2 _ _ _ rfl).mpr
    simp

end DeviceDrivers.Mmap
