import Mathlib.Data.Nat.Find
import DeviceDrivers.Lib.Pages
import DeviceDrivers.Mmap.Load

/-!
# The two `memory_mmap`

`memory.c` maps its area with one call of `remap_pfn_range`, `nonMemory.c` page by page, since the frames
behind a `vmalloc` area are anywhere. `virt_to_phys`, `vmalloc_to_pfn` and the outcomes of
`remap_pfn_range` are parameters: a successful call maps the given range to consecutive frames, a failed
one maps nothing. The loop of `nonMemory.c` advances an `unsigned long`, so it runs on fuel and has to be
shown to end; it maps what the one call maps (`page_by_page_agrees`).
-/

namespace DeviceDrivers.Mmap

/-- `struct vm_area_struct`, as far as its addresses go. -/
structure VmArea where
  vmStart : Nat
  vmEnd : Nat
  nonempty : vmStart < vmEnd
  fits : vmEnd < 2 ^ 64

/-- `vma->vm_end - vma->vm_start` -/
def VmArea.size (vma : VmArea) : Nat := vma.vmEnd - vma.vmStart

/-- The `vma` of an `mmap` call: whole pages, and the page of the file that it asks for. -/
structure Vma (pageShift : Nat) extends VmArea where
  vmPgoff : Nat
  start_aligned : PAGE_SIZE pageShift ∣ vmStart
  end_aligned : PAGE_SIZE pageShift ∣ vmEnd

/-- A call of `remap_pfn_range` and what it returned. -/
structure RemapCall where
  addr : Nat
  pfn : Nat
  size : Nat
  ret : Int
  deriving DecidableEq

/-- The frames that are passed to a call. -/
def RemapCall.frames (pageShift : Nat) (call : RemapCall) : List Nat :=
  (List.range (call.size / PAGE_SIZE pageShift)).map fun k => call.pfn + k

/-- The entries a call adds to the page table, an address and a frame each. -/
def RemapCall.entries (pageShift : Nat) (call : RemapCall) : List (Nat × Nat) :=
  if call.ret = 0 then
    (List.range (call.size / PAGE_SIZE pageShift)).map fun k =>
      (call.addr + k * PAGE_SIZE pageShift, call.pfn + k)
  else []

def pageTable (pageShift : Nat) (calls : List RemapCall) : List (Nat × Nat) :=
  calls.flatMap (RemapCall.entries pageShift)

section

variable (pageShift npages : Nat)

/-- `memory_mmap` of `memory.c` with `npages` for `NPAGES`: what it returns, and its calls of
`remap_pfn_range`. -/
def memoryMmap (virtToPhys : Nat → Nat) (kmallocArea : Nat) (remap : Int) (vma : VmArea) :
    Int × List RemapCall :=
  if sizeT (npages * PAGE_SIZE pageShift) < vma.size then (- EIO, [])
  else
    let pfn := virtToPhys kmallocArea >>> pageShift
    (remap, [⟨vma.vmStart, pfn, vma.size, remap⟩])

/-- The `i`-th call of `remap_pfn_range` in the loop. -/
def remapPage (vmallocToPfn : Nat → Nat) (vmallocArea : Nat) (remap : Nat → Int) (vma : VmArea)
    (i offset : Nat) : RemapCall :=
  ⟨sizeT (vma.vmStart + offset), vmallocToPfn (vmallocArea + offset), PAGE_SIZE pageShift, remap i⟩

/-- The loop of `nonMemory.c` from the `i`-th iteration on; `none` is out of fuel. -/
def mapPages (vmallocToPfn : Nat → Nat) (vmallocArea : Nat) (remap : Nat → Int) (vma : VmArea) :
    Nat → Nat → Nat → Option (Int × List RemapCall)
  | 0, _, _ => none
  | fuel + 1, i, offset =>
    if offset < vma.size then
      let call := remapPage pageShift vmallocToPfn vmallocArea remap vma i offset
      if call.ret ≠ 0 then some (call.ret, [call])
      else
        (mapPages vmallocToPfn vmallocArea remap vma fuel (i + 1)
          (sizeT (offset + PAGE_SIZE pageShift))).map fun r => (r.1, call :: r.2)
    else some (0, [])

/-- `memory_mmap` of `nonMemory.c`; `remap i` is what the `i`-th call of `remap_pfn_range` returns. -/
def nonMemoryMmap (vmallocToPfn : Nat → Nat) (vmallocArea : Nat) (remap : Nat → Int) (vma : VmArea)
    (fuel : Nat) : Option (Int × List RemapCall) :=
  if sizeT (npages * PAGE_SIZE pageShift) < vma.size then some (-1, [])
  else mapPages pageShift vmallocToPfn vmallocArea remap vma fuel 0 0

end

/-! ### The pages of a `vma` -/

namespace Vma

variable {pageShift : Nat} (vma : Vma pageShift)

/-- The number of its pages. -/
def pageCount : Nat := vma.size / PAGE_SIZE pageShift

theorem size_eq : vma.size = vma.pageCount * PAGE_SIZE pageShift :=
  (Nat.div_mul_cancel (Nat.dvd_sub vma.end_aligned vma.start_aligned)).symm

theorem pageCount_le {npages : Nat} (h : vma.size ≤ npages * PAGE_SIZE pageShift) : vma.pageCount ≤ npages := by
  rw [size_eq] at h
  exact Nat.le_of_mul_le_mul_right h (PAGE_SIZE_pos pageShift)

theorem size_lt : vma.size < 2 ^ 64 := (Nat.sub_le _ _).trans_lt vma.fits

theorem vmEnd_eq : vma.vmEnd = vma.vmStart + vma.pageCount * PAGE_SIZE pageShift := by
  have hsize : vma.vmEnd - vma.vmStart = vma.pageCount * PAGE_SIZE pageShift := vma.size_eq
  have hlt := vma.nonempty
  omega

/-- The addresses of its pages. -/
def bases : List Nat := Pages.bases (PAGE_SIZE pageShift) vma.vmStart vma.pageCount

theorem mem_bases {addr : Nat} :
    addr ∈ vma.bases ↔ vma.vmStart ≤ addr ∧ addr < vma.vmEnd ∧ PAGE_SIZE pageShift ∣ addr := by
  rw [vmEnd_eq]
  exact Pages.mem_bases_iff (PAGE_SIZE_pos pageShift) vma.start_aligned

/-- The page table that sends page `k` to frame `frame k`. -/
def table (frame : Nat → Nat) (n : Nat) : List (Nat × Nat) :=
  (List.range n).map fun k => (vma.vmStart + k * PAGE_SIZE pageShift, frame k)

theorem table_addresses (frame : Nat → Nat) : (vma.table frame vma.pageCount).map Prod.fst = vma.bases := by
  unfold table bases Pages.bases
  rw [List.map_map]
  rfl

theorem table_congr {frame frame' : Nat → Nat} {n : Nat} (h : ∀ k < n, frame k = frame' k) :
    vma.table frame n = vma.table frame' n := by
  apply List.map_congr_left
  intro k hk
  rw [h k (List.mem_range.mp hk)]

end Vma

/-! ### The loop -/

section

variable {pageShift : Nat} {vma : Vma pageShift} (vmallocToPfn : Nat → Nat) (vmallocArea : Nat)
  {remap : Nat → Int}

/-- The call for page `i`. -/
def pageCall (remap : Nat → Int) (vma : Vma pageShift) (i : Nat) : RemapCall :=
  remapPage pageShift vmallocToPfn vmallocArea remap vma.toVmArea i (i * PAGE_SIZE pageShift)

/-- The loop at the start of iteration `i`. -/
def mapFrom (remap : Nat → Int) (vma : Vma pageShift) (fuel i : Nat) : Option (Int × List RemapCall) :=
  mapPages pageShift vmallocToPfn vmallocArea remap vma.toVmArea fuel i (i * PAGE_SIZE pageShift)

theorem offset_lt_size {i : Nat} (hi : i < vma.pageCount) : i * PAGE_SIZE pageShift < vma.size := by
  rw [vma.size_eq]
  exact Nat.mul_lt_mul_of_pos_right hi (PAGE_SIZE_pos pageShift)

theorem mapFrom_succ {i : Nat} (hi : i < vma.pageCount) (hret : remap i = 0)
    (fuel : Nat) :
    mapFrom vmallocToPfn vmallocArea remap vma (fuel + 1) i =
      (mapFrom vmallocToPfn vmallocArea remap vma fuel (i + 1)).map fun r =>
        (r.1, pageCall vmallocToPfn vmallocArea remap vma i :: r.2) := by
  have hnext : sizeT (i * PAGE_SIZE pageShift + PAGE_SIZE pageShift) = (i + 1) * PAGE_SIZE pageShift := by
    have hle : (i + 1) * PAGE_SIZE pageShift ≤ vma.size := by
      rw [vma.size_eq]
      exact Nat.mul_le_mul_right _ hi
    have hlt := vma.size_lt
    rw [Nat.succ_mul] at hle ⊢
    exact sizeT_of_lt (by omega)
  unfold mapFrom
  rw [mapPages, if_pos (offset_lt_size hi), if_neg (by simp [remapPage, hret]), hnext]
  rfl

theorem mapFrom_fails {i : Nat} (hi : i < vma.pageCount) (hret : remap i ≠ 0) (fuel : Nat) :
    mapFrom vmallocToPfn vmallocArea remap vma (fuel + 1) i =
      some (remap i, [pageCall vmallocToPfn vmallocArea remap vma i]) := by
  unfold mapFrom
  rw [mapPages, if_pos (offset_lt_size hi)]
  exact if_pos hret

theorem mapFrom_done (fuel : Nat) :
    mapFrom vmallocToPfn vmallocArea remap vma (fuel + 1) vma.pageCount = some (0, []) := by
  unfold mapFrom
  rw [mapPages, if_neg (by rw [vma.size_eq]; omega)]

theorem mapFrom_add {i m : Nat} (hm : i + m ≤ vma.pageCount)
    (hrets : ∀ k, i ≤ k → k < i + m → remap k = 0) (fuel : Nat) :
    mapFrom vmallocToPfn vmallocArea remap vma (fuel + m) i =
      (mapFrom vmallocToPfn vmallocArea remap vma fuel (i + m)).map fun r =>
        (r.1, (List.range' i m).map (pageCall vmallocToPfn vmallocArea remap vma) ++ r.2) := by
  induction m generalizing i with
  | zero => simp
  | succ m ih =>
    have hrest := ih (i := i + 1) (by omega) (fun k hk hlt => hrets k (by omega) (by omega))
    rw [← Nat.add_assoc fuel, mapFrom_succ _ _ (by omega) (hrets i (by omega) (by omega)), hrest]
    have hcount : i + 1 + m = i + (m + 1) := by omega
    simp [hcount, List.range'_succ, Function.comp_def]

theorem mapFrom_zero {j : Nat} (hj : j ≤ vma.pageCount)
    (hrets : ∀ k < j, remap k = 0) {fuel : Nat} (hfuel : j ≤ fuel) :
    mapFrom vmallocToPfn vmallocArea remap vma fuel 0 =
      (mapFrom vmallocToPfn vmallocArea remap vma (fuel - j) j).map fun r =>
        (r.1, (List.range j).map (pageCall vmallocToPfn vmallocArea remap vma) ++ r.2) := by
  have hadd := @mapFrom_add pageShift vma vmallocToPfn vmallocArea remap 0 j (by omega)
    (fun k _ hk => hrets k (by omega)) (fuel - j)
  rw [Nat.sub_add_cancel hfuel, Nat.zero_add, ← List.range_eq_range'] at hadd
  exact hadd

theorem mapFrom_succeeds (hrets : ∀ k < vma.pageCount, remap k = 0) {fuel : Nat}
    (hfuel : vma.pageCount < fuel) :
    mapFrom vmallocToPfn vmallocArea remap vma fuel 0 =
      some (0, (List.range vma.pageCount).map (pageCall vmallocToPfn vmallocArea remap vma)) := by
  obtain ⟨rest, hrest⟩ := Nat.exists_eq_add_of_lt hfuel
  have hleft : fuel - vma.pageCount = rest + 1 := by omega
  rw [mapFrom_zero _ _ le_rfl hrets hfuel.le, hleft, mapFrom_done]
  simp

theorem mapFrom_fails_at {j : Nat} (hj : j < vma.pageCount)
    (hrets : ∀ k < j, remap k = 0) (hret : remap j ≠ 0) {fuel : Nat} (hfuel : vma.pageCount < fuel) :
    mapFrom vmallocToPfn vmallocArea remap vma fuel 0 =
      some (remap j, (List.range (j + 1)).map (pageCall vmallocToPfn vmallocArea remap vma)) := by
  obtain ⟨rest, hrest⟩ := Nat.exists_eq_add_of_lt (hj.trans hfuel)
  have hleft : fuel - j = rest + 1 := by omega
  rw [mapFrom_zero _ _ hj.le hrets (by omega), hleft, mapFrom_fails _ _ hj hret]
  simp [List.range_succ]

theorem mapFrom_eq_zero {fuel i : Nat} {calls : List RemapCall} (hi : i ≤ vma.pageCount)
    (h : mapFrom vmallocToPfn vmallocArea remap vma fuel i = some (0, calls)) :
    vma.pageCount < i + fuel ∧ ∀ k, i ≤ k → k < vma.pageCount → remap k = 0 := by
  induction fuel generalizing i calls with
  | zero => cases h
  | succ fuel ih =>
    rcases Nat.eq_or_lt_of_le hi with rfl | hlt
    · exact ⟨by omega, fun k hk hlt => by omega⟩
    by_cases hret : remap i = 0
    · rw [mapFrom_succ _ _ hlt hret] at h
      obtain ⟨⟨ret, calls'⟩, hrest, heq⟩ := Option.map_eq_some_iff.mp h
      obtain ⟨rfl, -⟩ := Prod.mk.inj heq
      obtain ⟨hfuel, hrets⟩ := ih hlt hrest
      refine ⟨by omega, ?_⟩
      intro k hk hkn
      rcases Nat.eq_or_lt_of_le hk with rfl | hk
      · exact hret
      · exact hrets k hk hkn
    · rw [mapFrom_fails _ _ hlt hret] at h
      exact (hret (Prod.mk.inj (Option.some.inj h)).1).elim

/-! ### The page tables -/

theorem entries_pageCall {i : Nat} (hi : i < vma.pageCount) (hret : remap i = 0) :
    (pageCall vmallocToPfn vmallocArea remap vma i).entries pageShift =
      [(vma.vmStart + i * PAGE_SIZE pageShift, vmallocToPfn (vmallocArea + i * PAGE_SIZE pageShift))] := by
  have hlt : vma.vmStart + i * PAGE_SIZE pageShift < 2 ^ 64 := by
    have hoffset := offset_lt_size hi
    rw [vma.size_eq] at hoffset
    have hend := vma.vmEnd_eq
    have hfits := vma.fits
    omega
  unfold RemapCall.entries pageCall remapPage
  rw [if_pos hret, Nat.div_self (PAGE_SIZE_pos pageShift), sizeT_of_lt hlt]
  simp

theorem pageTable_pageCalls {j : Nat} (hj : j ≤ vma.pageCount) (hrets : ∀ k < j, remap k = 0) :
    pageTable pageShift ((List.range j).map (pageCall vmallocToPfn vmallocArea remap vma)) =
      vma.table (fun k => vmallocToPfn (vmallocArea + k * PAGE_SIZE pageShift)) j := by
  unfold pageTable Vma.table
  rw [List.flatMap_map, ← List.flatMap_singleton' ((List.range j).map _), List.flatMap_map]
  apply List.flatMap_congr
  intro k hk
  rw [List.mem_range] at hk
  exact entries_pageCall _ _ (by omega) (hrets k hk)

theorem pageTable_failed {j : Nat} (hj : j ≤ vma.pageCount) (hrets : ∀ k < j, remap k = 0)
    (hret : remap j ≠ 0) :
    pageTable pageShift ((List.range (j + 1)).map (pageCall vmallocToPfn vmallocArea remap vma)) =
      vma.table (fun k => vmallocToPfn (vmallocArea + k * PAGE_SIZE pageShift)) j := by
  have hnone : (pageCall vmallocToPfn vmallocArea remap vma j).entries pageShift = [] := if_neg hret
  have hsucceeded := pageTable_pageCalls vmallocToPfn vmallocArea hj hrets
  unfold pageTable at hsucceeded ⊢
  rw [List.range_succ, List.map_append, List.flatMap_append, hsucceeded]
  simp [hnone]

theorem pageTable_memoryMmap {npages : Nat} (virtToPhys : Nat → Nat) (kmallocArea : Nat)
    (hfits : vma.size ≤ sizeT (npages * PAGE_SIZE pageShift)) :
    memoryMmap pageShift npages virtToPhys kmallocArea 0 vma.toVmArea =
      (0, [⟨vma.vmStart, virtToPhys kmallocArea >>> pageShift, vma.size, 0⟩]) ∧
    pageTable pageShift [⟨vma.vmStart, virtToPhys kmallocArea >>> pageShift, vma.size, 0⟩] =
      vma.table (fun k => virtToPhys kmallocArea >>> pageShift + k) vma.pageCount := by
  constructor
  · exact if_neg (by omega)
  · unfold pageTable
    rw [List.flatMap_singleton]
    rfl

/-! ### `memory_mmap` of `nonMemory.c` -/

section

variable {npages : Nat} (hnpages : npages * PAGE_SIZE pageShift < 2 ^ 64)

include hnpages

theorem sizeT_npages : sizeT (npages * PAGE_SIZE pageShift) = npages * PAGE_SIZE pageShift :=
  sizeT_of_lt hnpages

theorem nonMemoryMmap_rejects (h : npages * PAGE_SIZE pageShift < vma.size) (fuel : Nat) :
    nonMemoryMmap pageShift npages vmallocToPfn vmallocArea remap vma.toVmArea fuel = some (-1, []) := by
  unfold nonMemoryMmap
  rw [sizeT_npages hnpages, if_pos h]

theorem nonMemoryMmap_accepts (h : vma.size ≤ npages * PAGE_SIZE pageShift) (fuel : Nat) :
    nonMemoryMmap pageShift npages vmallocToPfn vmallocArea remap vma.toVmArea fuel =
      mapFrom vmallocToPfn vmallocArea remap vma fuel 0 := by
  unfold nonMemoryMmap mapFrom
  rw [sizeT_npages hnpages, if_neg (by omega), Nat.zero_mul]

/-- Whatever the calls return, the function returns. -/
theorem nonMemoryMmap_terminates {fuel : Nat} (hfuel : vma.pageCount < fuel) :
    (nonMemoryMmap pageShift npages vmallocToPfn vmallocArea remap vma.toVmArea fuel).isSome := by
  by_cases hsize : vma.size ≤ npages * PAGE_SIZE pageShift
  · rw [nonMemoryMmap_accepts _ _ hnpages hsize]
    by_cases hfail : ∃ j, j < vma.pageCount ∧ remap j ≠ 0
    · have hrets : ∀ k < Nat.find hfail, remap k = 0 := by
        intro k hk
        by_contra hret
        exact Nat.find_min hfail hk ⟨hk.trans (Nat.find_spec hfail).1, hret⟩
      rw [mapFrom_fails_at _ _ (Nat.find_spec hfail).1 hrets (Nat.find_spec hfail).2 hfuel]
      rfl
    · push Not at hfail
      rw [mapFrom_succeeds _ _ hfail hfuel]
      rfl
  · rw [nonMemoryMmap_rejects _ _ hnpages (by omega)]
    rfl

theorem nonMemoryMmap_succeeds (hsize : vma.size ≤ npages * PAGE_SIZE pageShift)
    (hrets : ∀ k < vma.pageCount, remap k = 0) {fuel : Nat} (hfuel : vma.pageCount < fuel) :
    ∃ calls,
      nonMemoryMmap pageShift npages vmallocToPfn vmallocArea remap vma.toVmArea fuel = some (0, calls) ∧
      pageTable pageShift calls =
        vma.table (fun k => vmallocToPfn (vmallocArea + k * PAGE_SIZE pageShift)) vma.pageCount := by
  rw [nonMemoryMmap_accepts _ _ hnpages hsize]
  exact ⟨_, mapFrom_succeeds _ _ hrets hfuel, pageTable_pageCalls _ _ le_rfl hrets⟩

theorem nonMemoryMmap_fails (hsize : vma.size ≤ npages * PAGE_SIZE pageShift) {j : Nat}
    (hj : j < vma.pageCount) (hrets : ∀ k < j, remap k = 0) (hret : remap j ≠ 0) {fuel : Nat}
    (hfuel : vma.pageCount < fuel) :
    ∃ calls,
      nonMemoryMmap pageShift npages vmallocToPfn vmallocArea remap vma.toVmArea fuel =
        some (remap j, calls) ∧
      pageTable pageShift calls =
        vma.table (fun k => vmallocToPfn (vmallocArea + k * PAGE_SIZE pageShift)) j := by
  rw [nonMemoryMmap_accepts _ _ hnpages hsize]
  exact ⟨_, mapFrom_fails_at _ _ hj hrets hret hfuel, pageTable_failed _ _ hj.le hrets hret⟩

theorem nonMemoryMmap_eq_zero {fuel : Nat} {calls : List RemapCall}
    (h : nonMemoryMmap pageShift npages vmallocToPfn vmallocArea remap vma.toVmArea fuel = some (0, calls)) :
    vma.size ≤ npages * PAGE_SIZE pageShift ∧ pageTable pageShift calls =
      vma.table (fun k => vmallocToPfn (vmallocArea + k * PAGE_SIZE pageShift)) vma.pageCount := by
  by_cases hsize : vma.size ≤ npages * PAGE_SIZE pageShift
  · have hmap := h
    rw [nonMemoryMmap_accepts _ _ hnpages hsize] at hmap
    obtain ⟨hfuel, hrets⟩ := mapFrom_eq_zero _ _ (Nat.zero_le _) hmap
    rw [Nat.zero_add] at hfuel
    obtain ⟨calls', hcalls, htable⟩ := nonMemoryMmap_succeeds vmallocToPfn vmallocArea hnpages hsize
      (fun k => hrets k (Nat.zero_le k)) hfuel
    obtain ⟨-, rfl⟩ := Prod.mk.inj (Option.some.inj (h.symm.trans hcalls))
    exact ⟨hsize, htable⟩
  · rw [nonMemoryMmap_rejects _ _ hnpages (by omega)] at h
    cases h

theorem memoryMmap_eq_zero {virtToPhys : Nat → Nat} {kmallocArea : Nat} {ret : Int} {calls : List RemapCall}
    (h : memoryMmap pageShift npages virtToPhys kmallocArea ret vma.toVmArea = (0, calls)) :
    vma.size ≤ npages * PAGE_SIZE pageShift ∧ pageTable pageShift calls =
      vma.table (fun k => virtToPhys kmallocArea >>> pageShift + k) vma.pageCount := by
  have hlimit := sizeT_npages hnpages
  by_cases hsize : vma.size ≤ npages * PAGE_SIZE pageShift
  · obtain rfl : ret = 0 := by
      unfold memoryMmap at h
      rw [hlimit, if_neg (by omega)] at h
      exact (Prod.mk.inj h).1
    obtain ⟨hmemory, htable⟩ := pageTable_memoryMmap virtToPhys kmallocArea (hsize.trans hlimit.ge)
    obtain ⟨-, rfl⟩ := Prod.mk.inj (h.symm.trans hmemory)
    exact ⟨hsize, htable⟩
  · unfold memoryMmap at h
    rw [hlimit, if_pos (by omega)] at h
    cases h

theorem accepts_iff (virtToPhys : Nat → Nat) (kmallocArea : Nat) :
    (∃ fuel calls, nonMemoryMmap pageShift npages vmallocToPfn vmallocArea (fun _ => 0) vma.toVmArea fuel =
        some (0, calls)) ↔
      (memoryMmap pageShift npages virtToPhys kmallocArea 0 vma.toVmArea).1 = 0 := by
  have hlimit := sizeT_npages hnpages
  by_cases hsize : vma.size ≤ npages * PAGE_SIZE pageShift
  · refine iff_of_true ?_ ?_
    · obtain ⟨calls, hcalls, -⟩ := @nonMemoryMmap_succeeds pageShift vma vmallocToPfn vmallocArea (fun _ => 0)
        npages hnpages hsize (fun _ _ => rfl) (vma.pageCount + 1) (Nat.lt_succ_self _)
      exact ⟨_, calls, hcalls⟩
    · rw [(pageTable_memoryMmap virtToPhys kmallocArea (hsize.trans hlimit.ge)).1]
  · refine iff_of_false ?_ ?_
    · rintro ⟨fuel, calls, hcalls⟩
      rw [nonMemoryMmap_rejects _ _ hnpages (by omega)] at hcalls
      cases hcalls
    · unfold memoryMmap
      rw [hlimit, if_pos (by omega)]
      decide

theorem same_table {virtToPhys : Nat → Nat} {kmallocArea : Nat}
    (hconsecutive : ∀ k < npages, vmallocToPfn (vmallocArea + k * PAGE_SIZE pageShift) =
      virtToPhys kmallocArea >>> pageShift + k) {fuel : Nat} (hfuel : vma.pageCount < fuel) :
    ∃ ret calls,
      nonMemoryMmap pageShift npages vmallocToPfn vmallocArea (fun _ => 0) vma.toVmArea fuel =
        some (ret, calls) ∧
      pageTable pageShift calls =
        pageTable pageShift (memoryMmap pageShift npages virtToPhys kmallocArea 0 vma.toVmArea).2 := by
  have hlimit := sizeT_npages hnpages
  by_cases hsize : vma.size ≤ npages * PAGE_SIZE pageShift
  · obtain ⟨calls, hcalls, htable⟩ := @nonMemoryMmap_succeeds pageShift vma vmallocToPfn vmallocArea
      (fun _ => 0) npages hnpages hsize (fun _ _ => rfl) fuel hfuel
    obtain ⟨hmemory, hone⟩ := pageTable_memoryMmap virtToPhys kmallocArea (hsize.trans hlimit.ge)
    refine ⟨0, calls, hcalls, ?_⟩
    rw [htable, hmemory, hone]
    apply vma.table_congr
    intro k hk
    exact hconsecutive k (hk.trans_le (vma.pageCount_le hsize))
  · refine ⟨-1, [], nonMemoryMmap_rejects _ _ hnpages (by omega) fuel, ?_⟩
    unfold memoryMmap
    rw [hlimit, if_pos (by omega)]

end

end

/-- `memory_mmap` of `nonMemory.c` returns, whatever `remap_pfn_range` does. With successful calls it maps
the pages of the `vma`, each once, and nothing else, page `k` to the frame of page `k` of the area; it
accepts what `memory.c` accepts, and with consecutive frames it leaves the same page table. If the call for
page `j` is the first that fails, its error is returned and the pages before `j` are mapped. -/
theorem page_by_page_agrees (pageShift npages : Nat) (hnpages : npages * PAGE_SIZE pageShift < 2 ^ 63)
    (vma : Vma pageShift) (vmallocToPfn : Nat → Nat) (vmallocArea : Nat) :
    (∀ (remap : Nat → Int) (fuel : Nat), vma.pageCount < fuel →
      (nonMemoryMmap pageShift npages vmallocToPfn vmallocArea remap vma.toVmArea fuel).isSome) ∧
    (vma.size ≤ npages * PAGE_SIZE pageShift → ∀ remap : Nat → Int, (∀ i < vma.pageCount, remap i = 0) →
      ∀ fuel, vma.pageCount < fuel → ∃ calls,
        nonMemoryMmap pageShift npages vmallocToPfn vmallocArea remap vma.toVmArea fuel = some (0, calls) ∧
        ((pageTable pageShift calls).map Prod.fst).Nodup ∧
        (∀ addr, addr ∈ (pageTable pageShift calls).map Prod.fst ↔
          vma.vmStart ≤ addr ∧ addr < vma.vmEnd ∧ PAGE_SIZE pageShift ∣ addr) ∧
        pageTable pageShift calls = (List.range vma.pageCount).map fun k =>
          (vma.vmStart + k * PAGE_SIZE pageShift, vmallocToPfn (vmallocArea + k * PAGE_SIZE pageShift))) ∧
    (∀ (virtToPhys : Nat → Nat) (kmallocArea : Nat),
      ((∃ fuel calls, nonMemoryMmap pageShift npages vmallocToPfn vmallocArea (fun _ => 0) vma.toVmArea fuel =
          some (0, calls)) ↔
        (memoryMmap pageShift npages virtToPhys kmallocArea 0 vma.toVmArea).1 = 0)) ∧
    (∀ (virtToPhys : Nat → Nat) (kmallocArea : Nat),
      (∀ k < npages, vmallocToPfn (vmallocArea + k * PAGE_SIZE pageShift) =
        virtToPhys kmallocArea >>> pageShift + k) →
      ∀ fuel, vma.pageCount < fuel → ∃ ret calls,
        nonMemoryMmap pageShift npages vmallocToPfn vmallocArea (fun _ => 0) vma.toVmArea fuel =
          some (ret, calls) ∧
        pageTable pageShift calls =
          pageTable pageShift (memoryMmap pageShift npages virtToPhys kmallocArea 0 vma.toVmArea).2) ∧
    (vma.size ≤ npages * PAGE_SIZE pageShift → ∀ (remap : Nat → Int) (j : Nat), j < vma.pageCount →
      (∀ i < j, remap i = 0) → remap j ≠ 0 → ∀ fuel, vma.pageCount < fuel → ∃ calls,
        nonMemoryMmap pageShift npages vmallocToPfn vmallocArea remap vma.toVmArea fuel =
          some (remap j, calls) ∧
        pageTable pageShift calls = (List.range j).map fun k =>
          (vma.vmStart + k * PAGE_SIZE pageShift, vmallocToPfn (vmallocArea + k * PAGE_SIZE pageShift))) := by
  have hwide : npages * PAGE_SIZE pageShift < 2 ^ 64 := by omega
  refine ⟨?_, ?_, ?_, ?_, ?_⟩
  · intro remap fuel hfuel
    exact nonMemoryMmap_terminates _ _ hwide hfuel
  · intro hsize remap hrets fuel hfuel
    obtain ⟨calls, hcalls, htable⟩ :=
      nonMemoryMmap_succeeds vmallocToPfn vmallocArea hwide hsize hrets hfuel
    refine ⟨calls, hcalls, ?_, ?_, htable⟩
    · rw [htable, vma.table_addresses]
      exact Pages.nodup_bases (PAGE_SIZE_pos pageShift) _ _
    · intro addr
      rw [htable, vma.table_addresses]
      exact vma.mem_bases
  · exact accepts_iff _ _ hwide
  · intro virtToPhys kmallocArea hconsecutive fuel hfuel
    exact same_table _ _ hwide hconsecutive hfuel
  · intro hsize remap j hj hrets hret fuel hfuel
    exact nonMemoryMmap_fails _ _ hwide hsize hj hrets hret hfuel

/-- Two pages of `4096` bytes. -/
def twoPages : Vma 12 := ⟨⟨4096, 12288, by decide, by decide⟩, 0, by decide, by decide⟩

/-- Two pages to frames that are not consecutive, and the second of them to none. -/
theorem page_by_page_agrees_two :
    (∃ calls,
      nonMemoryMmap 12 NPAGES (fun v => 9 - v / 4096) 8192 (fun _ => 0) twoPages.toVmArea 3 = some (0, calls) ∧
      pageTable 12 calls = [(4096, 7), (8192, 6)]) ∧
    ∃ calls,
      nonMemoryMmap 12 NPAGES (fun v => 9 - v / 4096) 8192 (fun i => if i = 1 then -EINVAL else 0)
        twoPages.toVmArea 3 = some (-EINVAL, calls) ∧
      pageTable 12 calls = [(4096, 7)] := by
  obtain ⟨-, hsucceeds, -, -, hfails⟩ :=
    page_by_page_agrees 12 NPAGES (by decide) twoPages (fun v => 9 - v / 4096) 8192
  constructor
  · obtain ⟨calls, hcalls, -, -, htable⟩ := hsucceeds (by decide) (fun _ => 0) (by simp) 3 (by decide)
    exact ⟨calls, hcalls, htable⟩
  · exact hfails (by decide) (fun i => if i = 1 then -EINVAL else 0) 1 (by decide) (by decide) (by decide) 3
      (by decide)

end DeviceDrivers.Mmap
