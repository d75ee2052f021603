import DeviceDrivers.Mmap.Map

/-!
# What a mapping shows

`memory.c` maps the page-aligned area inside its `kmalloc` block, as it sits behind `virt_to_phys`. Every
frame that it passes to `remap_pfn_range` is one of the block and marked reserved
(`mmap_exposes_own_pages`).

Neither driver looks at `vm_pgoff`: page `k` of a `vma` is page `k` of the area whatever offset the
caller asks for, so two mappings show the same byte at the same distance from their starts
(`mmap_ignores_offset`).
-/

namespace DeviceDrivers.Mmap

variable {pageShift : Nat}

/-- `virt_to_phys` on a block: linear, and it keeps the offset in the page. -/
structure LinearOn (pageShift : Nat) {size : Nat} (b : Block size) (virtToPhys : Nat → Nat) : Prop where
  linear : ∀ d < size, virtToPhys (b.ptr + d) = virtToPhys b.ptr + d
  offset : ∀ d < size, virtToPhys (b.ptr + d) % PAGE_SIZE pageShift = (b.ptr + d) % PAGE_SIZE pageShift

/-- The test bytes that `mydriver_init` writes: address and value. -/
def magicStores (pageShift kmallocArea : Nat) : List (Nat × Nat) :=
  (List.range NPAGES).flatMap fun i =>
    [(kmallocArea + (i * PAGE_SIZE pageShift + 0), 0xaa), (kmallocArea + (i * PAGE_SIZE pageShift + 1), 0xbb),
      (kmallocArea + (i * PAGE_SIZE pageShift + 2), 0xcc), (kmallocArea + (i * PAGE_SIZE pageShift + 3), 0xdd)]

/-- The byte of physical memory at a user address. -/
def Shows (pageShift : Nat) (table : List (Nat × Nat)) (addr byte : Nat) : Prop :=
  ∃ frame, (addr / PAGE_SIZE pageShift * PAGE_SIZE pageShift, frame) ∈ table ∧
    byte = frame * PAGE_SIZE pageShift + addr % PAGE_SIZE pageShift

/-! ### The area of `memory.c` -/

section

variable {b : Block (kmallocSize pageShift)} {virtToPhys : Nat → Nat}

theorem area_end_le (b : Block (kmallocSize pageShift)) :
    PAGE_ALIGN pageShift b.ptr + NPAGES * PAGE_SIZE pageShift < b.ptr + kmallocSize pageShift := by
  have hbounds := PAGE_ALIGN_bounds b
  have hsize : kmallocSize pageShift = NPAGES * PAGE_SIZE pageShift + PAGE_SIZE pageShift :=
    Nat.succ_mul NPAGES (PAGE_SIZE pageShift)
  omega

theorem npages_lt (b : Block (kmallocSize pageShift)) : NPAGES * PAGE_SIZE pageShift < 2 ^ 64 := by
  have hend := area_end_le b
  have hfits := b.fits
  have hle := le_PAGE_ALIGN b
  have hpos := b.pos
  omega

theorem LinearOn.area (h : LinearOn pageShift b virtToPhys) {d : Nat} (hd : d < NPAGES * PAGE_SIZE pageShift) :
    virtToPhys (PAGE_ALIGN pageShift b.ptr + d) = virtToPhys (PAGE_ALIGN pageShift b.ptr) + d := by
  have hbounds := PAGE_ALIGN_bounds b
  have hend := area_end_le b
  obtain ⟨skip, hskip⟩ := Nat.exists_eq_add_of_le hbounds.1
  rw [hskip] at hend ⊢
  rw [Nat.add_assoc, h.linear (skip + d) (by omega), h.linear skip (by omega)]
  omega

theorem LinearOn.pfn_mul (h : LinearOn pageShift b virtToPhys) :
    virtToPhys (PAGE_ALIGN pageShift b.ptr) >>> pageShift * PAGE_SIZE pageShift =
      virtToPhys (PAGE_ALIGN pageShift b.ptr) := by
  have hbounds := PAGE_ALIGN_bounds b
  have hend := area_end_le b
  obtain ⟨skip, hskip⟩ := Nat.exists_eq_add_of_le hbounds.1
  have hmod : virtToPhys (PAGE_ALIGN pageShift b.ptr) % PAGE_SIZE pageShift = 0 := by
    rw [hskip, h.offset skip (by omega), ← hskip]
    exact Nat.mod_eq_zero_of_dvd (dvd_PAGE_ALIGN pageShift b.ptr)
  rw [Nat.shiftRight_eq_div_pow]
  exact Nat.div_mul_cancel (Nat.dvd_of_mod_eq_zero hmod)

theorem LinearOn.frame (h : LinearOn pageShift b virtToPhys) {k : Nat} (hk : k < NPAGES) :
    virtToPhys (PAGE_ALIGN pageShift b.ptr + k * PAGE_SIZE pageShift) / PAGE_SIZE pageShift =
      virtToPhys (PAGE_ALIGN pageShift b.ptr) >>> pageShift + k := by
  have hpos := PAGE_SIZE_pos pageShift
  rw [h.area (Nat.mul_lt_mul_of_pos_right hk hpos), Nat.add_mul_div_right _ _ hpos,
    Nat.shiftRight_eq_div_pow]
  rfl

theorem memoryMmap_frames {vma : Vma pageShift} {kmallocArea : Nat} {remap : Int} {call : RemapCall}
    (hnpages : NPAGES * PAGE_SIZE pageShift < 2 ^ 64)
    (hcall : call ∈ (memoryMmap pageShift NPAGES virtToPhys kmallocArea remap vma.toVmArea).2) {frame : Nat}
    (hframe : frame ∈ call.frames pageShift) :
    ∃ k < NPAGES, frame = virtToPhys kmallocArea >>> pageShift + k := by
  unfold memoryMmap at hcall
  rw [sizeT_of_lt hnpages] at hcall
  split_ifs at hcall with hsize
  · cases hcall
  · obtain rfl := List.mem_singleton.mp hcall
    obtain ⟨k, hk, rfl⟩ := List.mem_map.mp hframe
    refine ⟨k, ?_, rfl⟩
    have hpages : vma.size / PAGE_SIZE pageShift ≤ NPAGES := by
      apply Nat.div_le_of_le_mul
      rw [Nat.mul_comm]
      omega
    exact (List.mem_range.mp hk).trans_le hpages

theorem LinearOn.byte (h : LinearOn pageShift b virtToPhys) {k x : Nat} (hk : k < NPAGES)
    (hx : x / PAGE_SIZE pageShift = virtToPhys (PAGE_ALIGN pageShift b.ptr) >>> pageShift + k) :
    ∃ v, b.ptr ≤ v ∧ v < b.ptr + kmallocSize pageShift ∧ virtToPhys v = x := by
  have hpos := PAGE_SIZE_pos pageShift
  have hmod := Nat.mod_lt x hpos
  have hx' := Nat.div_add_mod' x (PAGE_SIZE pageShift)
  rw [hx, Nat.add_mul, h.pfn_mul] at hx'
  have hle : (k + 1) * PAGE_SIZE pageShift ≤ NPAGES * PAGE_SIZE pageShift := Nat.mul_le_mul_right _ hk
  rw [Nat.succ_mul] at hle
  have hend := area_end_le b
  have hstart := le_PAGE_ALIGN b
  refine ⟨PAGE_ALIGN pageShift b.ptr + (k * PAGE_SIZE pageShift + x % PAGE_SIZE pageShift), ?_, ?_, ?_⟩
  · omega
  · omega
  · rw [h.area (by omega)]
    omega

theorem magicStores_in_block (hshift : 2 ≤ pageShift) (b : Block (kmallocSize pageShift)) :
    ∀ store ∈ magicStores pageShift (PAGE_ALIGN pageShift b.ptr),
      b.ptr ≤ store.1 ∧ store.1 < b.ptr + kmallocSize pageShift := by
  have hfour : 2 ^ 2 ≤ PAGE_SIZE pageShift := Nat.pow_le_pow_right (by omega) hshift
  have hstart := le_PAGE_ALIGN b
  have hend := area_end_le b
  intro store hstore
  obtain ⟨i, hi, hmem⟩ := List.mem_flatMap.mp hstore
  have hle : (i + 1) * PAGE_SIZE pageShift ≤ NPAGES * PAGE_SIZE pageShift :=
    Nat.mul_le_mul_right _ (List.mem_range.mp hi)
  rw [Nat.succ_mul] at hle
  simp only [List.mem_cons, List.not_mem_nil, or_false] at hmem
  rcases hmem with rfl | rfl | rfl | rfl <;> dsimp only <;> omega

/-- After a load of `memory.c`, every byte of every frame that an `mmap` passes to `remap_pfn_range` is one of
the block, and the frame is that of a page marked reserved. On pages of at least four bytes the test bytes
are written to the block. Unloading clears the marks that loading has set, and no others. -/
theorem mmap_exposes_own_pages (env : LoadEnv (kmallocSize pageShift)) (s : Driver) (hs : Unloaded s)
    (hregion : env.region = 0) (halloc : env.alloc = some b) (hlinear : LinearOn pageShift b virtToPhys) :
    (∀ (vma : Vma pageShift) (remap : Int),
      ∀ call ∈ (memoryMmap pageShift NPAGES virtToPhys (mydriverInit pageShift env s).2.area remap
          vma.toVmArea).2,
      ∀ frame ∈ call.frames pageShift,
        (∀ x, x / PAGE_SIZE pageShift = frame →
          ∃ v, b.ptr ≤ v ∧ v < b.ptr + kmallocSize pageShift ∧ virtToPhys v = x) ∧
        ∃ page, .reserved page ∈ (mydriverInit pageShift env s).2.owned.held ∧
          virtToPhys page / PAGE_SIZE pageShift = frame) ∧
    (2 ≤ pageShift → ∀ store ∈ magicStores pageShift (mydriverInit pageShift env s).2.area,
      b.ptr ≤ store.1 ∧ store.1 < b.ptr + kmallocSize pageShift) ∧
    (∀ page, .reserved page ∈ (mydriverInit pageShift env s).2.owned.held →
      .reserved page ∉ (mydriverExit pageShift (mydriverInit pageShift env s).2).owned.held) ∧
    (mydriverExit pageShift (mydriverInit pageShift env s).2).owned.stray = s.owned.stray := by
  have hload := mydriverInit_loads hs.held hregion halloc
  have hexit := mydriverExit_eq (memoryLoaded_of_init hs.held hs.nullOps hregion halloc)
  have harea : (mydriverInit pageShift env s).2.area = PAGE_ALIGN pageShift b.ptr := by rw [hload]
  rw [harea, hexit]
  refine ⟨?_, ?_, ?_, ?_⟩
  · intro vma remap call hcall frame hframe
    obtain ⟨k, hk, rfl⟩ := memoryMmap_frames (npages_lt b) hcall hframe
    refine ⟨fun x hx => hlinear.byte hk hx, ?_⟩
    refine ⟨PAGE_ALIGN pageShift b.ptr + k * PAGE_SIZE pageShift, ?_, hlinear.frame hk⟩
    rw [hload]
    have hpage : Resource.reserved (PAGE_ALIGN pageShift b.ptr + k * PAGE_SIZE pageShift) ∈
        pages pageShift (PAGE_ALIGN pageShift b.ptr) := List.mem_map.mpr ⟨k, List.mem_range.mpr hk, rfl⟩
    simp [hpage]
  · intro hshift
    exact magicStores_in_block hshift b
  · intro page _
    exact List.not_mem_nil
  · rw [hload]

end

/-- A block of `16` bytes at an odd address. -/
def sixteen : Block (kmallocSize 2) := ⟨101, by decide, by decide⟩

def sixteenLoaded : Driver := (mydriverInit 2 ⟨0, some sixteen⟩ ⟨.empty, 0, 0, []⟩).2

/-- Two pages of four bytes. -/
def twoSmallPages : Vma 2 := ⟨⟨400, 408, by decide, by decide⟩, 0, by decide, by decide⟩

def smallPagesCall : RemapCall := ⟨400, 16, 8, 0⟩

/-- Pages of four bytes, and a `virt_to_phys` that subtracts `40`: the area begins at `104`, and a mapping of
two pages passes the frames `16` and `17`. -/
theorem mmap_exposes_own_pages_four :
    smallPagesCall ∈ (memoryMmap 2 NPAGES (fun v => v - 40) sixteenLoaded.area 0 twoSmallPages.toVmArea).2 ∧
    smallPagesCall.frames 2 = [16, 17] ∧
    (∀ frame ∈ smallPagesCall.frames 2,
      (∀ x, x / 4 = frame → ∃ v, 101 ≤ v ∧ v < 101 + 16 ∧ v - 40 = x) ∧
      ∃ page, .reserved page ∈ sixteenLoaded.owned.held ∧ (page - 40) / 4 = frame) ∧
    (∀ store ∈ magicStores 2 sixteenLoaded.area, 101 ≤ store.1 ∧ store.1 < 101 + 16) ∧
    sixteenLoaded.area = 104 := by
  have h := @mmap_exposes_own_pages 2 sixteen (fun v => v - 40) ⟨0, some sixteen⟩ ⟨.empty, 0, 0, []⟩ ⟨rfl, rfl⟩ rfl
    rfl ⟨by decide, by decide⟩
  have hcall : smallPagesCall ∈
      (memoryMmap 2 NPAGES (fun v => v - 40) sixteenLoaded.area 0 twoSmallPages.toVmArea).2 := by
    decide
  exact ⟨hcall, by decide, h.1 twoSmallPages 0 smallPagesCall hcall, h.2.1 (by decide), by decide⟩

/-- With pages of one byte the test bytes are written past the block. -/
theorem test_bytes_past_block :
    ¬ ∀ store ∈ magicStores 0 (mydriverInit 0 ⟨0, some ⟨8, by decide, by decide⟩⟩ ⟨.empty, 0, 0, []⟩).2.area,
      8 ≤ store.1 ∧ store.1 < 8 + kmallocSize 0 := by
  decide

/-! ### The file offset -/

/-- Page tables of an `mmap` that succeeds. -/
def memoryMaps (virtToPhys : Nat → Nat) (kmallocArea : Nat) (vma : Vma pageShift) (table : List (Nat × Nat)) :
    Prop :=
  ∃ remap calls, memoryMmap pageShift NPAGES virtToPhys kmallocArea remap vma.toVmArea = (0, calls) ∧
    table = pageTable pageShift calls

def nonMemoryMaps (vmallocToPfn : Nat → Nat) (vmallocArea : Nat) (vma : Vma pageShift)
    (table : List (Nat × Nat)) : Prop :=
  ∃ remap fuel calls,
    nonMemoryMmap pageShift NPAGES vmallocToPfn vmallocArea remap vma.toVmArea fuel = some (0, calls) ∧
    table = pageTable pageShift calls

/-- Successful mappings are of at most the size of the area, send page `k` to frame `frame k`, and any two
of them show the same byte exactly at the same distance from their starts. -/
structure MapsFromStart (frame : Nat → Nat) (maps : Vma pageShift → List (Nat × Nat) → Prop) : Prop where
  size_le : ∀ {vma table}, maps vma table → vma.size ≤ NPAGES * PAGE_SIZE pageShift
  page : ∀ {vma table}, maps vma table → table = vma.table frame vma.pageCount
  same : ∀ {vma vma' table table'}, maps vma table → maps vma' table' → ∀ {addr addr'},
    vma.vmStart ≤ addr → addr < vma.vmEnd → vma'.vmStart ≤ addr' → addr' < vma'.vmEnd →
    ((∃ byte, Shows pageShift table addr byte ∧ Shows pageShift table' addr' byte) ↔
      addr - vma.vmStart = addr' - vma'.vmStart)

theorem Vma.shows_iff (vma : Vma pageShift) (frame : Nat → Nat) {addr byte : Nat} (hstart : vma.vmStart ≤ addr)
    (hend : addr < vma.vmEnd) :
    Shows pageShift (vma.table frame vma.pageCount) addr byte ↔
      byte = frame ((addr - vma.vmStart) / PAGE_SIZE pageShift) * PAGE_SIZE pageShift +
        (addr - vma.vmStart) % PAGE_SIZE pageShift := by
  have hpos := PAGE_SIZE_pos pageShift
  have hpage : (addr - vma.vmStart) / PAGE_SIZE pageShift < vma.pageCount := by
    have heq := vma.vmEnd_eq
    rw [Nat.div_lt_iff_lt_mul hpos]
    omega
  unfold Shows Vma.table
  rw [Pages.base_of_byte vma.start_aligned hstart, Pages.offset_of_byte vma.start_aligned hstart]
  constructor
  · rintro ⟨f, hmem, rfl⟩
    obtain ⟨k, -, heq⟩ := List.mem_map.mp hmem
    obtain ⟨haddr, rfl⟩ := Prod.mk.inj heq
    rw [Nat.eq_of_mul_eq_mul_right hpos (Nat.add_left_cancel haddr)]
  · rintro rfl
    exact ⟨_, List.mem_map.mpr ⟨_, List.mem_range.mpr hpage, rfl⟩, rfl⟩

theorem byte_eq_iff {frame : Nat → Nat} (hinj : ∀ i < NPAGES, ∀ j < NPAGES, frame i = frame j → i = j)
    {d e : Nat} (hd : d < NPAGES * PAGE_SIZE pageShift) (he : e < NPAGES * PAGE_SIZE pageShift) :
    frame (d / PAGE_SIZE pageShift) * PAGE_SIZE pageShift + d % PAGE_SIZE pageShift =
      frame (e / PAGE_SIZE pageShift) * PAGE_SIZE pageShift + e % PAGE_SIZE pageShift ↔ d = e := by
  have hpos := PAGE_SIZE_pos pageShift
  constructor
  · intro h
    have hmod := congrArg (· % PAGE_SIZE pageShift) h
    have hdiv := congrArg (· / PAGE_SIZE pageShift) h
    simp only [Nat.mul_add_mod_self_right, Nat.mod_mod] at hmod
    simp only [Nat.add_comm (frame _ * _), Nat.add_mul_div_right _ _ hpos, Nat.div_eq_of_lt (Nat.mod_lt _ hpos),
      Nat.zero_add] at hdiv
    have hpage := hinj _ ((Nat.div_lt_iff_lt_mul hpos).mpr hd) _ ((Nat.div_lt_iff_lt_mul hpos).mpr he) hdiv
    rw [← Nat.div_add_mod d (PAGE_SIZE pageShift), hmod, hpage, Nat.div_add_mod]
  · rintro rfl
    rfl

theorem mapsFromStart_of_table {frame : Nat → Nat} {maps : Vma pageShift → List (Nat × Nat) → Prop}
    (hinj : ∀ i < NPAGES, ∀ j < NPAGES, frame i = frame j → i = j)
    (hmaps : ∀ {vma table}, maps vma table →
      vma.size ≤ NPAGES * PAGE_SIZE pageShift ∧ table = vma.table frame vma.pageCount) :
    MapsFromStart frame maps := by
  refine ⟨fun h => (hmaps h).1, fun h => (hmaps h).2, ?_⟩
  intro vma vma' table table' h h' addr addr' hstart hend hstart' hend'
  obtain ⟨hsize, rfl⟩ := hmaps h
  obtain ⟨hsize', rfl⟩ := hmaps h'
  unfold VmArea.size at hsize hsize'
  simp only [vma.shows_iff frame hstart hend, vma'.shows_iff frame hstart' hend']
  rw [exists_eq_left, byte_eq_iff hinj (by omega) (by omega)]

/-- Neither driver looks at `vm_pgoff`. A mapping succeeds only up to the size of the area, its page `k` is page
`k` of the area, and two mappings show the same byte exactly at the same distance from their starts. -/
theorem mmap_ignores_offset (pageShift : Nat) :
    (∀ (b : Block (kmallocSize pageShift)) (virtToPhys : Nat → Nat), LinearOn pageShift b virtToPhys →
      MapsFromStart
        (fun k => virtToPhys (PAGE_ALIGN pageShift b.ptr + k * PAGE_SIZE pageShift) / PAGE_SIZE pageShift)
        (@memoryMaps pageShift virtToPhys (PAGE_ALIGN pageShift b.ptr))) ∧
    (∀ (b : Block (vmallocSize pageShift)) (vmallocToPfn : Nat → Nat),
      (∀ i < NPAGES, ∀ j < NPAGES, vmallocToPfn (b.ptr + i * PAGE_SIZE pageShift) =
        vmallocToPfn (b.ptr + j * PAGE_SIZE pageShift) → i = j) →
      MapsFromStart (fun k => vmallocToPfn (b.ptr + k * PAGE_SIZE pageShift))
        (@nonMemoryMaps pageShift vmallocToPfn b.ptr)) := by
  constructor
  · intro b virtToPhys hlinear
    apply mapsFromStart_of_table
    · intro i hi j hj heq
      rw [hlinear.frame hi, hlinear.frame hj] at heq
      exact Nat.add_left_cancel heq
    · rintro vma table ⟨remap, calls, hcalls, rfl⟩
      obtain ⟨hsize, htable⟩ := memoryMmap_eq_zero (npages_lt b) hcalls
      refine ⟨hsize, htable.trans (vma.table_congr ?_)⟩
      intro k hk
      exact (hlinear.frame (hk.trans_le (vma.pageCount_le hsize))).symm
  · intro b vmallocToPfn hframes
    refine mapsFromStart_of_table hframes ?_
    rintro vma table ⟨remap, fuel, calls, hcalls, rfl⟩
    refine nonMemoryMmap_eq_zero _ _ ?_ hcalls
    have hpos := b.pos
    have hfits := b.fits
    unfold vmallocSize at hfits
    rw [Nat.mul_comm]
    omega

/-- One page, from page `3` of the file on. -/
def pastArea : Vma 12 := ⟨⟨4096, 8192, by decide, by decide⟩, 3, by decide, by decide⟩

/-- Two pages, from the start of the file on. -/
def fromStart : Vma 12 := ⟨⟨16384, 24576, by decide, by decide⟩, 0, by decide, by decide⟩

/-- Physical memory at its virtual addresses for `memory.c`, and frames in the reverse order for
`nonMemory.c`. Two mappings at different offsets of the file show the same byte `5` behind their starts. -/
theorem mmap_ignores_offset_concrete :
    (memoryMaps (fun v => v) 8192 pastArea [(4096, 2)] ∧
      memoryMaps (fun v => v) 8192 fromStart [(16384, 2), (20480, 3)] ∧
      ∃ byte, Shows 12 [(4096, 2)] 4101 byte ∧ Shows 12 [(16384, 2), (20480, 3)] 16389 byte) ∧
    (nonMemoryMaps (fun v => 9 - v / 4096) 4096 pastArea [(4096, 8)] ∧
      nonMemoryMaps (fun v => 9 - v / 4096) 4096 fromStart [(16384, 8), (20480, 7)] ∧
      ∃ byte, Shows 12 [(4096, 8)] 4101 byte ∧ Shows 12 [(16384, 8), (20480, 7)] 16389 byte) := by
  have hmemory := (mmap_ignores_offset 12).1 ⟨5000, by decide, by decide⟩ (fun v => v)
    ⟨fun _ _ => rfl, fun _ _ => rfl⟩
  have hnonMemory := (mmap_ignores_offset 12).2 ⟨4096, by decide, by decide⟩ (fun v => 9 - v / 4096)
    (by decide)
  have hpast : memoryMaps (fun v => v) 8192 pastArea [(4096, 2)] := ⟨0, _, rfl, rfl⟩
  have hstart : memoryMaps (fun v => v) 8192 fromStart [(16384, 2), (20480, 3)] := ⟨0, _, rfl, rfl⟩
  have hpast' : nonMemoryMaps (fun v => 9 - v / 4096) 4096 pastArea [(4096, 8)] :=
    ⟨fun _ => 0, 2, _, rfl, rfl⟩
  have hstart' : nonMemoryMaps (fun v => 9 - v / 4096) 4096 fromStart [(16384, 8), (20480, 7)] :=
    ⟨fun _ => 0, 3, _, rfl, rfl⟩
  refine ⟨⟨hpast, hstart, ?_⟩, ⟨hpast', hstart', ?_⟩⟩
  · exact (hmemory.same hpast hstart (by decide) (by decide) (by decide) (by decide)).mpr rfl
  · exact (hnonMemory.same hpast' hstart' (by decide) (by decide) (by decide) (by decide)).mpr rfl

/-- Both drivers map a page behind the end of their area, and show its first page there. -/
theorem offset_past_area_succeeds :
    ¬ (∀ (vma : Vma 12) (table : List (Nat × Nat)), memoryMaps (fun v => v) 8192 vma table →
        vma.vmPgoff * PAGE_SIZE 12 + vma.size ≤ NPAGES * PAGE_SIZE 12) ∧
      ¬ (∀ (vma : Vma 12) (table : List (Nat × Nat)), nonMemoryMaps (fun v => v / 4096) 8192 vma table →
        vma.vmPgoff * PAGE_SIZE 12 + vma.size ≤ NPAGES * PAGE_SIZE 12) := by
  constructor
  · intro h
    have hle := h pastArea [(4096, 2)] ⟨0, _, rfl, rfl⟩
    exact absurd hle (by decide)
  · intro h
    have hle := h pastArea [(4096, 2)] ⟨fun _ => 0, 2, _, rfl, rfl⟩
    exact absurd hle (by decide)

end DeviceDrivers.Mmap
