import DeviceDrivers.Lib.Machine
import DeviceDrivers.Mmap.Exposure

/-!
# Mappings that outlive the driver

`dev_fops` of `memory.c` has no `owner`, and neither has its `cdev`: an open device or a mapping does not keep the
module loaded. `mydriver_exit` frees the block while the page tables still lead to it. Along a run every mapping shows
pages that the driver has exactly when the module is never unloaded under a mapping (`mapped_pages_owned_iff`).
-/

namespace DeviceDrivers.Mmap

variable {pageShift : Nat} {virtToPhys : Nat → Nat}

/-- A block of `kmalloc`, which is mapped linearly. -/
abbrev DirectBlock (pageShift : Nat) (virtToPhys : Nat → Nat) :=
  { b : Block (kmallocSize pageShift) // LinearOn pageShift b virtToPhys }

/-- The driver, and the mappings of all programs with their page tables; `none` is one that is gone. -/
structure Mapped (pageShift : Nat) where
  driver : Loading Driver
  maps : List (Option (Vma pageShift × List (Nat × Nat)))

inductive MappedEvent (pageShift : Nat) (virtToPhys : Nat → Nat)
  | load (region : Int) (alloc : Option (DirectBlock pageShift virtToPhys))
  | unload
  | mmap (vma : Vma pageShift) (remap : Int)
  | munmap (i : Nat)

/-- The outcomes of the calls of a load. -/
def loadEnv (region : Int) (alloc : Option (DirectBlock pageShift virtToPhys)) : LoadEnv (kmallocSize pageShift) :=
  ⟨region, alloc.map Subtype.val⟩

def mappedStep (s : Mapped pageShift) : MappedEvent pageShift virtToPhys → Option (Mapped pageShift × Int)
  | .load region alloc =>
    (Loading.step Driver.fresh (mydriverInit pageShift) (mydriverExit pageShift) s.driver
      (.init (loadEnv region alloc))).map fun r => ({ s with driver := r.1 }, r.2)
  | .unload =>
    (Loading.step Driver.fresh (mydriverInit pageShift) (mydriverExit pageShift) s.driver .exit).map fun r =>
      ({ s with driver := r.1 }, r.2)
  | .mmap vma remap =>
    if s.driver.loaded then
      let r := memoryMmap pageShift NPAGES virtToPhys s.driver.state.area remap vma.toVmArea
      let m := if r.1 = 0 then some (vma, pageTable pageShift r.2) else none
      some ({ s with maps := s.maps ++ [m] }, r.1)
    else none
  | .munmap i => if i < s.maps.length then some ({ s with maps := s.maps.set i none }, 0) else none

def mapped (pageShift : Nat) (virtToPhys : Nat → Nat) :
    Machine (Mapped pageShift) (MappedEvent pageShift virtToPhys) Int :=
  ⟨⟨⟨⟨.empty, 0, 0, []⟩, false⟩, []⟩, mappedStep⟩

/-- Every frame behind a mapping is that of a page that the driver has marked as its own. -/
def ShowsOwned (virtToPhys : Nat → Nat) (s : Mapped pageShift) : Prop :=
  ∀ vma table, some (vma, table) ∈ s.maps → ∀ entry ∈ table,
    ∃ page, .reserved page ∈ s.driver.state.owned.held ∧ virtToPhys page / PAGE_SIZE pageShift = entry.2

/-- If the step is an unload, no mapping is left. -/
def UnloadsUnmapped (s : Mapped pageShift) (e : MappedEvent pageShift virtToPhys) : Prop :=
  e = .unload → ∀ m ∈ s.maps, m = none

/-! ### The driver between the calls -/

/-- The driver has no pages, and where it has kept its number it has nothing to load with. -/
structure Idle (s : Driver) : Prop where
  nullOps : s.nullOps = []
  held : s.owned.held = [] ∨ .chrdevRegion ∈ s.owned.held
  pages : ∀ page, .reserved page ∉ s.owned.held

/-- The driver owns the pages of a block. -/
def Running (virtToPhys : Nat → Nat) (pageShift : Nat) (s : Driver) : Prop :=
  MemoryLoaded pageShift s ∧ ∃ b : DirectBlock pageShift virtToPhys, s.area = PAGE_ALIGN pageShift b.val.ptr

structure Settled (virtToPhys : Nat → Nat) (s : Mapped pageShift) : Prop where
  loaded : s.driver.loaded = true → Running virtToPhys pageShift s.driver.state
  unloaded : s.driver.loaded = false → Idle s.driver.state
  tables : ∀ vma table, some (vma, table) ∈ s.maps → table ≠ []

theorem mydriverInit_of_kept (env : LoadEnv (kmallocSize pageShift)) {s : Driver} (h : .chrdevRegion ∈ s.owned.held) :
    (mydriverInit pageShift env s).1 ≠ 0 ∧ (mydriverInit pageShift env s).2 = s := by
  have hbusy : (-EBUSY : Int) ≠ 0 := by decide
  by_cases hregion : env.region = 0
  · have hcall : s.registerChrdevRegion env.region = (-EBUSY, s) := by
      unfold Driver.registerChrdevRegion
      rw [if_neg (not_not.mpr hregion), if_pos h]
    unfold mydriverInit
    rw [hcall]
    exact ⟨hbusy, rfl⟩
  · unfold mydriverInit
    rw [Driver.registerChrdevRegion_fails hregion]
    dsimp only
    rw [if_pos hregion]
    exact ⟨hregion, rfl⟩

theorem Idle.init {s : Driver} (hs : Idle s) (region : Int) (alloc : Option (DirectBlock pageShift virtToPhys)) :
    ((mydriverInit pageShift (loadEnv region alloc) s).1 = 0 →
      Running virtToPhys pageShift (mydriverInit pageShift (loadEnv region alloc) s).2) ∧
    ((mydriverInit pageShift (loadEnv region alloc) s).1 ≠ 0 →
      Idle (mydriverInit pageShift (loadEnv region alloc) s).2) := by
  rcases hs.held with hnil | hkept
  · by_cases hregion : region = 0
    · cases alloc with
      | none =>
        have hinit : mydriverInit pageShift (loadEnv region (none : Option (DirectBlock pageShift virtToPhys))) s =
            (-ENOMEM, { s with owned := ⟨.chrdevRegion :: cdevs, s.owned.stray⟩, ptr := 0 }) := by
          unfold mydriverInit loadEnv
          rw [hregion, Driver.registerChrdevRegion_succeeds (by simp [hnil])]
          simp [Driver.allocate, Driver.cdevAdd, Held.acquireAll_eq, Held.acquire, hnil]
        have hnomem : (-ENOMEM : Int) ≠ 0 := by decide
        rw [hinit]
        refine ⟨fun h => absurd h hnomem, fun _ => ⟨hs.nullOps, .inr (by simp), ?_⟩⟩
        intro page
        simp [cdevs]
      | some b =>
        have hloads : mydriverInit pageShift (loadEnv region (some b)) s = _ := mydriverInit_loads hnil hregion rfl
        refine ⟨fun _ => ⟨memoryLoaded_of_init hnil hs.nullOps hregion rfl, b, by rw [hloads]⟩, ?_⟩
        rw [hloads]
        exact fun h => absurd rfl h
    · have hinit : mydriverInit pageShift (loadEnv region alloc) s = (region, s) := by
        unfold mydriverInit loadEnv
        rw [Driver.registerChrdevRegion_fails hregion]
        exact if_pos hregion
      rw [hinit]
      exact ⟨fun h => absurd h hregion, fun _ => hs⟩
  · obtain ⟨hret, hsame⟩ := mydriverInit_of_kept (loadEnv region alloc) hkept
    rw [hsame]
    exact ⟨fun h => absurd h hret, fun _ => hs⟩

theorem Running.exit {s : Driver} (hs : Running virtToPhys pageShift s) :
    Idle (mydriverExit pageShift s) ∧ (mydriverExit pageShift s).owned.held = [] := by
  obtain ⟨hheld, hops⟩ := mydriverExit_unloads hs.1
  refine ⟨⟨hops, .inl hheld, ?_⟩, hheld⟩
  intro page hpage
  rw [hheld] at hpage
  cases hpage

theorem Vma.table_ne_nil (vma : Vma pageShift) (frame : Nat → Nat) : vma.table frame vma.pageCount ≠ [] := by
  have hpages : vma.pageCount ≠ 0 := by
    intro hzero
    have heq := vma.vmEnd_eq
    have hlt := vma.nonempty
    rw [hzero, Nat.zero_mul] at heq
    omega
  simp [Vma.table, hpages]

theorem Running.table {s : Driver} (hs : Running virtToPhys pageShift s) {vma : Vma pageShift} {remap : Int}
    (hret : (memoryMmap pageShift NPAGES virtToPhys s.area remap vma.toVmArea).1 = 0) :
    pageTable pageShift (memoryMmap pageShift NPAGES virtToPhys s.area remap vma.toVmArea).2 ≠ [] ∧
    ∀ entry ∈ pageTable pageShift (memoryMmap pageShift NPAGES virtToPhys s.area remap vma.toVmArea).2,
      ∃ page, .reserved page ∈ s.owned.held ∧ virtToPhys page / PAGE_SIZE pageShift = entry.2 := by
  obtain ⟨hloaded, ⟨b, hlinear⟩, harea⟩ := hs
  obtain ⟨hsize, htable⟩ := memoryMmap_eq_zero (npages_lt b) (Prod.ext hret rfl)
  rw [htable]
  refine ⟨vma.table_ne_nil _, ?_⟩
  intro entry hentry
  obtain ⟨k, hk, rfl⟩ := List.mem_map.mp hentry
  have hpage : k < NPAGES := (List.mem_range.mp hk).trans_le (vma.pageCount_le hsize)
  refine ⟨s.area + k * PAGE_SIZE pageShift, hloaded.owned.symm.subset ?_, ?_⟩
  · have hmem : Resource.reserved (s.area + k * PAGE_SIZE pageShift) ∈ pages pageShift s.area :=
      List.mem_map.mpr ⟨k, List.mem_range.mpr hpage, rfl⟩
    simp [hmem]
  · rw [harea]
    exact hlinear.frame hpage

theorem showsOwned_iff_of_idle {s : Mapped pageShift} (hs : Settled virtToPhys s) (hidle : Idle s.driver.state) :
    ShowsOwned virtToPhys s ↔ ∀ m ∈ s.maps, m = none := by
  constructor
  · intro h m hm
    match m, hm with
    | none, _ => rfl
    | some (vma, table), hmem =>
      obtain ⟨entry, hentry⟩ := List.exists_mem_of_ne_nil _ (hs.tables vma table hmem)
      obtain ⟨page, hpage, -⟩ := h vma table hmem entry hentry
      exact absurd hpage (hidle.pages page)
  · intro h vma table hmem
    cases h _ hmem

theorem Settled.step {s t : Mapped pageShift} {e : MappedEvent pageShift virtToPhys} {o : Int}
    (hs : Settled virtToPhys s) (hstep : mappedStep s e = some (t, o)) :
    Settled virtToPhys t ∧ (ShowsOwned virtToPhys s → (ShowsOwned virtToPhys t ↔ UnloadsUnmapped s e)) := by
  cases e with
  | load region alloc =>
    obtain ⟨⟨l, r⟩, hload, heq⟩ := Option.map_eq_some_iff.mp hstep
    obtain ⟨rfl, rfl⟩ := Prod.mk.inj heq
    rw [Loading.step] at hload
    split_ifs at hload with hloaded
    obtain ⟨rfl, rfl⟩ := Prod.mk.inj (Option.some.inj hload)
    have hidle : Idle s.driver.state := hs.unloaded (by simpa using hloaded)
    have hfresh : Idle s.driver.state.fresh := ⟨hidle.nullOps, hidle.held, hidle.pages⟩
    obtain ⟨hup, hdown⟩ := hfresh.init region alloc
    have hsettled : Settled virtToPhys { s with
        driver := Loading.afterInit (mydriverInit pageShift) (loadEnv region alloc) s.driver.state.fresh } := by
      refine ⟨fun h => hup (of_decide_eq_true h), fun h => hdown (of_decide_eq_false h), hs.tables⟩
    refine ⟨hsettled, fun hshows => iff_of_true ?_ (by simp [UnloadsUnmapped])⟩
    intro vma table hmem
    cases (showsOwned_iff_of_idle hs hidle).mp hshows _ hmem
  | unload =>
    obtain ⟨⟨l, r⟩, hload, heq⟩ := Option.map_eq_some_iff.mp hstep
    obtain ⟨rfl, rfl⟩ := Prod.mk.inj heq
    rw [Loading.step] at hload
    split_ifs at hload with hloaded
    obtain ⟨rfl, rfl⟩ := Prod.mk.inj (Option.some.inj hload)
    obtain ⟨hidle, -⟩ := (hs.loaded hloaded).exit
    have hsettled : Settled virtToPhys { s with driver := ⟨mydriverExit pageShift s.driver.state, false⟩ } :=
      ⟨fun h => absurd h Bool.false_ne_true, fun _ => hidle, hs.tables⟩
    refine ⟨hsettled, fun _ => ?_⟩
    rw [showsOwned_iff_of_idle hsettled hidle]
    simp [UnloadsUnmapped]
  | mmap vma remap =>
    rw [mappedStep] at hstep
    split_ifs at hstep with hloaded
    obtain ⟨rfl, -⟩ := Prod.mk.inj (Option.some.inj hstep)
    have hrunning := hs.loaded hloaded
    have hcases : ∀ vma' table, some (vma', table) ∈ s.maps ++ [if (memoryMmap pageShift NPAGES virtToPhys
        s.driver.state.area remap vma.toVmArea).1 = 0 then some (vma, pageTable pageShift (memoryMmap pageShift NPAGES
          virtToPhys s.driver.state.area remap vma.toVmArea).2) else none] →
        some (vma', table) ∈ s.maps ∨ (table ≠ [] ∧ ∀ entry ∈ table, ∃ page,
          .reserved page ∈ s.driver.state.owned.held ∧ virtToPhys page / PAGE_SIZE pageShift = entry.2) := by
      intro vma' table hmem
      rcases List.mem_append.mp hmem with hold | hnew
      · exact .inl hold
      · rw [List.mem_singleton] at hnew
        split_ifs at hnew with hret
        obtain ⟨-, rfl⟩ := Prod.mk.inj (Option.some.inj hnew)
        exact .inr (hrunning.table hret)
    refine ⟨⟨hs.loaded, hs.unloaded, ?_⟩, ?_⟩
    · intro vma' table hmem
      rcases hcases vma' table hmem with hold | ⟨hne, -⟩
      · exact hs.tables vma' table hold
      · exact hne
    · intro hshows
      refine iff_of_true ?_ (by simp [UnloadsUnmapped])
      intro vma' table hmem
      rcases hcases vma' table hmem with hold | ⟨-, hentries⟩
      · exact hshows vma' table hold
      · exact hentries
  | munmap i =>
    rw [mappedStep] at hstep
    split_ifs at hstep with hi
    obtain ⟨rfl, -⟩ := Prod.mk.inj (Option.some.inj hstep)
    have hsub : ∀ vma table, some (vma, table) ∈ s.maps.set i none → some (vma, table) ∈ s.maps := by
      intro vma table hmem
      rcases List.mem_or_eq_of_mem_set hmem with hold | hnone
      · exact hold
      · cases hnone
    refine ⟨⟨hs.loaded, hs.unloaded, fun vma table hmem => hs.tables vma table (hsub vma table hmem)⟩, ?_⟩
    intro hshows
    refine iff_of_true ?_ (by simp [UnloadsUnmapped])
    exact fun vma table hmem => hshows vma table (hsub vma table hmem)

/-- Along every run of loads, unloads, `mmap`s and `munmap`s, all mappings show pages that the driver has exactly when
the module is never unloaded while there is a mapping; nothing in the driver prevents that. -/
theorem mapped_pages_owned_iff {es : List (MappedEvent pageShift virtToPhys)} {s : Mapped pageShift} {os : List Int}
    (hrun : (mapped pageShift virtToPhys).run es = some (s, os)) :
    (mapped pageShift virtToPhys).Always (ShowsOwned virtToPhys) es ↔
      (mapped pageShift virtToPhys).EveryStep UnloadsUnmapped es := by
  have hinv : (mapped pageShift virtToPhys).Invariant (Settled virtToPhys) := by
    refine ⟨⟨fun h => absurd h Bool.false_ne_true, fun _ => ⟨rfl, .inl rfl, ?_⟩, ?_⟩, fun hs hstep => (hs.step hstep).1⟩
    · simp [mapped, Held.empty]
    · simp [mapped]
  refine Machine.always_iff_everyStep hinv ?_ (fun hs hshows hstep => (hs.step hstep).2 hshows) hrun
  simp [ShowsOwned, mapped]

def onePage : Vma 2 := ⟨⟨16, 20, by decide, by decide⟩, 0, by decide, by decide⟩

/-- A page is mapped, and the module unloaded. -/
def unloadedUnderMapping : List (MappedEvent 2 fun v => v - 40) :=
  [.load 0 (some ⟨sixteen, ⟨by decide, by decide⟩⟩), .mmap onePage 0] ++ [.unload]

theorem mapped_pages_owned_iff_unloaded :
    ¬ (mapped 2 fun v => v - 40).Always (ShowsOwned fun v => v - 40) unloadedUnderMapping := by
  intro h
  have hsteps := (mapped_pages_owned_iff rfl).mp h
  have hnone := hsteps _ .unload _ _ (List.prefix_refl _) rfl rfl
  exact Option.some_ne_none (onePage, [(16, 16)]) (hnone _ (List.mem_singleton.mpr rfl))

end DeviceDrivers.Mmap
