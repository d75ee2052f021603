import DeviceDrivers.Lib.Machine
import DeviceDrivers.Mmap.Exposure

/-!
# Mappings as one shared array

Any number of `MAP_SHARED` mappings of a device come and go, and programs load and store bytes through them; the
copies that a private mapping makes on a store are not modelled. `mappings` goes through the page tables that
`memory_mmap` sets up, down to physical memory. `sharedArray` knows only one array of `NPAGES` pages, and the distance
of an address from the start of its mapping. No sequence of calls, loads and stores tells them apart, for either driver
(`mappings_share_one_array`): what is stored through one mapping is what every other one shows, nothing else changes
it, and no access inside a mapping faults. The array of `memory.c` begins with the test bytes that `mydriver_init` has
written to each page.
-/

namespace DeviceDrivers.Mmap

variable {pageShift : Nat}

/-- What `memory_mmap` does: its return value and its calls of `remap_pfn_range`, by the results of these. -/
abbrev Mapper (pageShift : Nat) := Vma pageShift → (Nat → Int) → Int × List RemapCall

def memoryMapper (virtToPhys : Nat → Nat) (kmallocArea : Nat) : Mapper pageShift := fun vma remap =>
  memoryMmap pageShift NPAGES virtToPhys kmallocArea (remap 0) vma.toVmArea

/-- The loop of `nonMemory.c` ends within one round a page. -/
def nonMemoryMapper (vmallocToPfn : Nat → Nat) (vmallocArea : Nat) : Mapper pageShift := fun vma remap =>
  (nonMemoryMmap pageShift NPAGES vmallocToPfn vmallocArea remap vma.toVmArea (vma.pageCount + 1)).getD (-1, [])

inductive MapEvent (pageShift : Nat)
  | mmap (vma : Vma pageShift) (remap : Nat → Int)
  | munmap (i : Nat)
  | store (i addr : Nat) (byte : UInt8)
  | load (i addr : Nat)

inductive MapOutput
  | returned (ret : Int)
  | stored
  | loaded (byte : UInt8)
  deriving DecidableEq

/-! ### Through the page tables -/

/-- The physical address of a user address. -/
def translate (table : List (Nat × Nat)) (pageShift addr : Nat) : Option Nat :=
  (table.lookup (addr / PAGE_SIZE pageShift * PAGE_SIZE pageShift)).map fun frame =>
    frame * PAGE_SIZE pageShift + addr % PAGE_SIZE pageShift

/-- Physical memory, and the mappings with their page tables in the order of the calls; `none` is one that is gone. -/
structure Mappings (pageShift : Nat) where
  phys : Nat → UInt8
  maps : List (Option (Vma pageShift × List (Nat × Nat)))

namespace Mappings

variable (s : Mappings pageShift)

/-- Where an access through mapping `i` goes. -/
def access (i addr : Nat) : Option Nat :=
  (s.maps[i]?.join).bind fun m =>
    if m.1.vmStart ≤ addr ∧ addr < m.1.vmEnd then translate m.2 pageShift addr else none

def step (mapper : Mapper pageShift) : MapEvent pageShift → Option (Mappings pageShift × MapOutput)
  | .mmap vma remap =>
    let r := mapper vma remap
    let m := if r.1 = 0 then some (vma, pageTable pageShift r.2) else none
    some ({ s with maps := s.maps ++ [m] }, .returned r.1)
  | .munmap i => if i < s.maps.length then some ({ s with maps := s.maps.set i none }, .returned 0) else none
  | .store i addr byte => (s.access i addr).map fun x => ({ s with phys := Function.update s.phys x byte }, .stored)
  | .load i addr => (s.access i addr).map fun x => (s, .loaded (s.phys x))

end Mappings

def mappings (mapper : Mapper pageShift) (phys : Nat → UInt8) : Machine (Mappings pageShift) (MapEvent pageShift) MapOutput :=
  ⟨⟨phys, []⟩, fun s => s.step mapper⟩

/-! ### One array -/

structure SharedArray (pageShift : Nat) where
  bytes : Nat → UInt8
  maps : List (Option (Vma pageShift))

namespace SharedArray

variable (a : SharedArray pageShift)

/-- The distance of an address from the start of its mapping. -/
def access (i addr : Nat) : Option Nat :=
  (a.maps[i]?.join).bind fun vma => if vma.vmStart ≤ addr ∧ addr < vma.vmEnd then some (addr - vma.vmStart) else none

def step (mapper : Mapper pageShift) : MapEvent pageShift → Option (SharedArray pageShift × MapOutput)
  | .mmap vma remap =>
    let ret := (mapper vma remap).1
    some ({ a with maps := a.maps ++ [if ret = 0 then some vma else none] }, .returned ret)
  | .munmap i => if i < a.maps.length then some ({ a with maps := a.maps.set i none }, .returned 0) else none
  | .store i addr byte => (a.access i addr).map fun d => ({ a with bytes := Function.update a.bytes d byte }, .stored)
  | .load i addr => (a.access i addr).map fun d => (a, .loaded (a.bytes d))

end SharedArray

def sharedArray (mapper : Mapper pageShift) (bytes : Nat → UInt8) :
    Machine (SharedArray pageShift) (MapEvent pageShift) MapOutput := ⟨⟨bytes, []⟩, fun a => a.step mapper⟩

/-! ### The frames behind a mapping -/

/-- The physical address at a distance from the start. -/
def place (pageShift : Nat) (frame : Nat → Nat) (d : Nat) : Nat :=
  frame (d / PAGE_SIZE pageShift) * PAGE_SIZE pageShift + d % PAGE_SIZE pageShift

/-- The mappings that succeed fit the area and send page `k` to frame `frame k`; no two pages have one frame. -/
structure MapsPages (mapper : Mapper pageShift) (frame : Nat → Nat) : Prop where
  maps : ∀ vma remap, (mapper vma remap).1 = 0 →
    vma.size ≤ NPAGES * PAGE_SIZE pageShift ∧
      pageTable pageShift (mapper vma remap).2 = vma.table frame vma.pageCount
  distinct : ∀ i < NPAGES, ∀ j < NPAGES, frame i = frame j → i = j

theorem lookup_table (vma : Vma pageShift) (frame : Nat → Nat) {n k : Nat} (hk : k < n) :
    (vma.table frame n).lookup (vma.vmStart + k * PAGE_SIZE pageShift) = some (frame k) := by
  have hpos := PAGE_SIZE_pos pageShift
  induction n with
  | zero => cases hk
  | succ n ih =>
    have hconcat : vma.table frame (n + 1) =
        vma.table frame n ++ [(vma.vmStart + n * PAGE_SIZE pageShift, frame n)] := by
      simp [Vma.table, List.range_succ]
    rw [hconcat, List.lookup_append]
    by_cases hlt : k < n
    · rw [ih hlt]
      rfl
    · obtain rfl : k = n := by omega
      have hnone : (vma.table frame k).lookup (vma.vmStart + k * PAGE_SIZE pageShift) = none := by
        rw [List.lookup_eq_none_iff]
        intro entry hentry
        obtain ⟨j, hj, rfl⟩ := List.mem_map.mp hentry
        have hne : j * PAGE_SIZE pageShift < k * PAGE_SIZE pageShift :=
          Nat.mul_lt_mul_of_pos_right (List.mem_range.mp hj) hpos
        rw [bne_iff_ne]
        omega
      rw [hnone]
      simp

theorem translate_table (vma : Vma pageShift) (frame : Nat → Nat) {addr : Nat} (hstart : vma.vmStart ≤ addr)
    (hend : addr < vma.vmEnd) :
    translate (vma.table frame vma.pageCount) pageShift addr = some (place pageShift frame (addr - vma.vmStart)) := by
  have hpage : (addr - vma.vmStart) / PAGE_SIZE pageShift < vma.pageCount := by
    have heq := vma.vmEnd_eq
    rw [Nat.div_lt_iff_lt_mul (PAGE_SIZE_pos pageShift)]
    omega
  unfold translate place
  rw [Pages.base_of_byte vma.start_aligned hstart, Pages.offset_of_byte vma.start_aligned hstart,
    lookup_table vma frame hpage]
  rfl

/-! ### The two machines step together -/

section

variable {mapper : Mapper pageShift} {frame : Nat → Nat} {s : Mappings pageShift} {a : SharedArray pageShift}

/-- The array is what physical memory holds in the frames of the area, and the mappings are the same. -/
structure Mirrors (frame : Nat → Nat) (s : Mappings pageShift) (a : SharedArray pageShift) : Prop where
  bytes : ∀ d < NPAGES * PAGE_SIZE pageShift, s.phys (place pageShift frame d) = a.bytes d
  maps : s.maps = a.maps.map (Option.map fun vma => (vma, vma.table frame vma.pageCount))
  fits : ∀ vma, some vma ∈ a.maps → vma.size ≤ NPAGES * PAGE_SIZE pageShift

theorem Mirrors.access (h : Mirrors frame s a) (i addr : Nat) :
    s.access i addr = (a.access i addr).map (place pageShift frame) ∧
      ∀ d, a.access i addr = some d → d < NPAGES * PAGE_SIZE pageShift := by
  unfold Mappings.access SharedArray.access
  rw [h.maps, List.getElem?_map]
  rcases hvma : a.maps[i]? with _ | _ | vma
  · exact ⟨rfl, by simp⟩
  · exact ⟨rfl, by simp⟩
  · have hsize := h.fits vma (List.mem_of_getElem? hvma)
    simp only [Option.map_some, Option.join_some, Option.bind_some]
    by_cases hin : vma.vmStart ≤ addr ∧ addr < vma.vmEnd
    · rw [if_pos hin, if_pos hin, translate_table vma frame hin.1 hin.2]
      refine ⟨rfl, ?_⟩
      rintro d ⟨⟩
      unfold VmArea.size at hsize
      omega
    · rw [if_neg hin, if_neg hin]
      exact ⟨rfl, by simp⟩

theorem Mirrors.store (h : Mirrors frame s a) (hdistinct : ∀ i < NPAGES, ∀ j < NPAGES, frame i = frame j → i = j)
    {d : Nat} (hd : d < NPAGES * PAGE_SIZE pageShift) (byte : UInt8) :
    Mirrors frame { s with phys := Function.update s.phys (place pageShift frame d) byte }
      { a with bytes := Function.update a.bytes d byte } := by
  refine ⟨?_, h.maps, h.fits⟩
  intro e he
  by_cases heq : e = d
  · rw [heq]
    dsimp only
    rw [Function.update_self, Function.update_self]
  · have hne : place pageShift frame e ≠ place pageShift frame d := by
      intro hplace
      exact heq ((byte_eq_iff hdistinct he hd).mp hplace)
    dsimp only
    rw [Function.update_of_ne hne, Function.update_of_ne heq]
    exact h.bytes e he

theorem Mirrors.step (h : Mirrors frame s a) (hmapper : MapsPages mapper frame) (e : MapEvent pageShift) :
    (s.step mapper e = none ∧ a.step mapper e = none) ∨
      ∃ s' a' o, s.step mapper e = some (s', o) ∧ a.step mapper e = some (a', o) ∧ Mirrors frame s' a' := by
  have hlength : s.maps.length = a.maps.length := by rw [h.maps, List.length_map]
  cases e with
  | mmap vma remap =>
    right
    refine ⟨_, _, _, rfl, rfl, h.bytes, ?_, ?_⟩
    · dsimp only
      rw [h.maps, List.map_append]
      by_cases hret : (mapper vma remap).1 = 0
      · simp [hret, (hmapper.maps vma remap hret).2]
      · simp [hret]
    · intro vma' hmem
      rcases List.mem_append.mp hmem with hold | hnew
      · exact h.fits vma' hold
      · by_cases hret : (mapper vma remap).1 = 0
        · rw [if_pos hret, List.mem_singleton] at hnew
          obtain rfl := Option.some.inj hnew
          exact (hmapper.maps vma' remap hret).1
        · simp [hret] at hnew
  | munmap i =>
    by_cases hi : i < a.maps.length
    · right
      refine ⟨{ s with maps := s.maps.set i none }, { a with maps := a.maps.set i none }, .returned 0, ?_, ?_, h.bytes,
        ?_, ?_⟩
      · simp [Mappings.step, hlength, hi]
      · simp [SharedArray.step, hi]
      · simp [h.maps, List.map_set]
      · intro vma hmem
        rcases List.mem_or_eq_of_mem_set hmem with hold | hnone
        · exact h.fits vma hold
        · cases hnone
    · left
      simp [Mappings.step, SharedArray.step, hlength, hi]
  | store i addr byte =>
    obtain ⟨haccess, hbound⟩ := h.access i addr
    cases hd : a.access i addr with
    | none =>
      left
      simp [Mappings.step, SharedArray.step, haccess, hd]
    | some d =>
      right
      refine ⟨_, _, .stored, ?_, ?_, h.store hmapper.distinct (hbound d hd) byte⟩
      · simp [Mappings.step, haccess, hd]
      · simp [SharedArray.step, hd]
  | load i addr =>
    obtain ⟨haccess, hbound⟩ := h.access i addr
    cases hd : a.access i addr with
    | none =>
      left
      simp [Mappings.step, SharedArray.step, haccess, hd]
    | some d =>
      right
      refine ⟨s, a, .loaded (a.bytes d), ?_, ?_, h⟩
      · simp [Mappings.step, haccess, hd, h.bytes d (hbound d hd)]
      · simp [SharedArray.step, hd]

theorem Mirrors.runFrom {phys bytes : Nat → UInt8} (h : Mirrors frame s a) (hmapper : MapsPages mapper frame)
    (es : List (MapEvent pageShift)) :
    ((mappings mapper phys).runFrom s es).map Prod.snd = ((sharedArray mapper bytes).runFrom a es).map Prod.snd := by
  induction es generalizing s a with
  | nil => rfl
  | cons e es ih =>
    rw [Machine.runFrom_cons, Machine.runFrom_cons]
    rcases h.step hmapper e with ⟨hs, ha⟩ | ⟨s', a', o, hs, ha, hnext⟩
    · simp [mappings, sharedArray, hs, ha]
    · have hcons := congrArg (Option.map fun os => o :: os) (ih hnext)
      rw [Option.map_map, Option.map_map] at hcons
      have hs' : (mappings mapper phys).step s e = some (s', o) := hs
      have ha' : (sharedArray mapper bytes).step a e = some (a', o) := ha
      rw [hs', ha', Option.bind_some, Option.bind_some, Option.map_map, Option.map_map]
      exact hcons

theorem mappings_eq_sharedArray (hmapper : MapsPages mapper frame) {phys bytes : Nat → UInt8}
    (hbytes : ∀ d < NPAGES * PAGE_SIZE pageShift, phys (place pageShift frame d) = bytes d)
    (es : List (MapEvent pageShift)) :
    ((mappings mapper phys).run es).map Prod.snd = ((sharedArray mapper bytes).run es).map Prod.snd := by
  have hfirst : Mirrors frame (mappings mapper phys).init (sharedArray mapper bytes).init := ⟨hbytes, rfl, by simp [sharedArray]⟩
  exact hfirst.runFrom hmapper es

end

/-! ### The two drivers -/

section

variable {b : Block (kmallocSize pageShift)} {virtToPhys : Nat → Nat}

theorem memoryMapper_mapsPages (b : Block (kmallocSize pageShift)) (virtToPhys : Nat → Nat) :
    MapsPages (memoryMapper virtToPhys (PAGE_ALIGN pageShift b.ptr) : Mapper pageShift)
      fun k => virtToPhys (PAGE_ALIGN pageShift b.ptr) >>> pageShift + k where
  maps := by
    intro vma remap hret
    exact memoryMmap_eq_zero (npages_lt b) (Prod.ext hret rfl)
  distinct := fun i _ j _ heq => Nat.add_left_cancel heq

theorem LinearOn.place_eq (hlinear : LinearOn pageShift b virtToPhys) {d : Nat}
    (hd : d < NPAGES * PAGE_SIZE pageShift) :
    place pageShift (fun k => virtToPhys (PAGE_ALIGN pageShift b.ptr) >>> pageShift + k) d =
      virtToPhys (PAGE_ALIGN pageShift b.ptr + d) := by
  unfold place
  rw [Nat.add_mul, hlinear.pfn_mul, hlinear.area hd, Nat.add_assoc, Nat.div_add_mod']

theorem nonMemoryMapper_mapsPages {b : Block (vmallocSize pageShift)} {vmallocToPfn : Nat → Nat}
    (hframes : ∀ i < NPAGES, ∀ j < NPAGES, vmallocToPfn (b.ptr + i * PAGE_SIZE pageShift) =
      vmallocToPfn (b.ptr + j * PAGE_SIZE pageShift) → i = j) :
    MapsPages (nonMemoryMapper vmallocToPfn b.ptr : Mapper pageShift)
      fun k => vmallocToPfn (b.ptr + k * PAGE_SIZE pageShift) where
  maps := by
    intro vma remap hret
    unfold nonMemoryMapper at hret ⊢
    cases hcall : nonMemoryMmap pageShift NPAGES vmallocToPfn b.ptr remap vma.toVmArea (vma.pageCount + 1) with
    | none =>
      rw [hcall] at hret
      cases hret
    | some r =>
      rw [hcall] at hret
      refine nonMemoryMmap_eq_zero _ _ ?_ (hcall.trans (congrArg some (Prod.ext hret rfl)))
      have hpos := b.pos
      have hfits := b.fits
      unfold vmallocSize at hfits
      rw [Nat.mul_comm]
      omega
  distinct := hframes

/-! ### The test bytes -/

/-- Physical memory after the stores of `mydriver_init`. -/
def writeMagic (pageShift : Nat) (virtToPhys : Nat → Nat) (kmallocArea : Nat) (phys : Nat → UInt8) : Nat → UInt8 :=
  (magicStores pageShift kmallocArea).foldl
    (fun m store => Function.update m (virtToPhys store.1) (UInt8.ofNat store.2)) phys

/-- The bytes at the start of each page. -/
def magicBytes : List UInt8 := [0xaa, 0xbb, 0xcc, 0xdd]

/-- The array of `memory.c` after its load. -/
def withMagic (pageShift : Nat) (bytes : Nat → UInt8) (d : Nat) : UInt8 :=
  (magicBytes[d % PAGE_SIZE pageShift]?).getD (bytes d)

theorem foldl_update {α β γ : Type} [DecidableEq α] {l : List γ} {key : γ → α} {value : γ → β} {x : α} {v : β}
    (hvalue : ∀ c ∈ l, key c = x → value c = v) (m : α → β) :
    (l.foldl (fun m c => Function.update m (key c) (value c)) m) x = if x ∈ l.map key then v else m x := by
  induction l generalizing m with
  | nil => simp
  | cons c l ih =>
    rw [List.foldl_cons, ih fun c' hc' => hvalue c' (List.mem_cons_of_mem _ hc')]
    by_cases hl : x ∈ l.map key
    · simp [hl]
    · by_cases hc : key c = x
      · have := hvalue c List.mem_cons_self hc
        simp [hl, hc, this]
      · simp [hl, Ne.symm hc]

/-- Store number `j` of page `i`. -/
def magicStore (pageShift kmallocArea i j : Nat) : Nat × Nat :=
  (kmallocArea + (i * PAGE_SIZE pageShift + j), [0xaa, 0xbb, 0xcc, 0xdd].getD j 0)

theorem mem_magicStores {store : Nat × Nat} {kmallocArea : Nat} :
    store ∈ magicStores pageShift kmallocArea ↔ ∃ i < NPAGES, ∃ j < 4, store = magicStore pageShift kmallocArea i j := by
  unfold magicStores
  simp only [List.mem_flatMap, List.mem_range, List.mem_cons, List.not_mem_nil, or_false]
  constructor
  · rintro ⟨i, hi, rfl | rfl | rfl | rfl⟩
    · exact ⟨i, hi, 0, by decide, rfl⟩
    · exact ⟨i, hi, 1, by decide, rfl⟩
    · exact ⟨i, hi, 2, by decide, rfl⟩
    · exact ⟨i, hi, 3, by decide, rfl⟩
  · rintro ⟨i, hi, j, hj, rfl⟩
    refine ⟨i, hi, ?_⟩
    match j, hj with
    | 0, _ => exact .inl rfl
    | 1, _ => exact .inr (.inl rfl)
    | 2, _ => exact .inr (.inr (.inl rfl))
    | 3, _ => exact .inr (.inr (.inr rfl))

theorem magicBytes_getD {j : Nat} (hj : j < 4) (other : UInt8) :
    (magicBytes[j]?).getD other = UInt8.ofNat ([0xaa, 0xbb, 0xcc, 0xdd].getD j 0) := by
  match j, hj with
  | 0, _ => rfl
  | 1, _ => rfl
  | 2, _ => rfl
  | 3, _ => rfl

theorem LinearOn.writeMagic_eq (hlinear : LinearOn pageShift b virtToPhys) (hshift : 2 ≤ pageShift) (phys : Nat → UInt8)
    {d : Nat} (hd : d < NPAGES * PAGE_SIZE pageShift) :
    writeMagic pageShift virtToPhys (PAGE_ALIGN pageShift b.ptr) phys (virtToPhys (PAGE_ALIGN pageShift b.ptr + d)) =
      withMagic pageShift (fun d => phys (virtToPhys (PAGE_ALIGN pageShift b.ptr + d))) d := by
  have hpos := PAGE_SIZE_pos pageShift
  have hfour : 2 ^ 2 ≤ PAGE_SIZE pageShift := Nat.pow_le_pow_right (by omega) hshift
  -- a store that meets the byte is the one at its place in its page
  have hmeets : ∀ i < NPAGES, ∀ j < 4,
      virtToPhys (magicStore pageShift (PAGE_ALIGN pageShift b.ptr) i j).1 =
        virtToPhys (PAGE_ALIGN pageShift b.ptr + d) → d % PAGE_SIZE pageShift = j := by
    intro i hi j hj heq
    have hle : (i + 1) * PAGE_SIZE pageShift ≤ NPAGES * PAGE_SIZE pageShift := Nat.mul_le_mul_right _ hi
    rw [Nat.succ_mul] at hle
    unfold magicStore at heq
    rw [hlinear.area hd, hlinear.area (by omega)] at heq
    rw [← Nat.add_left_cancel heq, Nat.mul_add_mod_self_right, Nat.mod_eq_of_lt (by omega)]
  have hfold := @foldl_update _ _ _ _ (magicStores pageShift (PAGE_ALIGN pageShift b.ptr))
    (fun store => virtToPhys store.1) (fun store => UInt8.ofNat store.2)
    (virtToPhys (PAGE_ALIGN pageShift b.ptr + d)) ((magicBytes[d % PAGE_SIZE pageShift]?).getD 0) (by
      intro store hstore heq
      obtain ⟨i, hi, j, hj, rfl⟩ := mem_magicStores.mp hstore
      rw [hmeets i hi j hj heq, magicBytes_getD hj]
      rfl) phys
  unfold writeMagic withMagic
  rw [hfold]
  by_cases hj : d % PAGE_SIZE pageShift < 4
  · have hpage : d / PAGE_SIZE pageShift < NPAGES := (Nat.div_lt_iff_lt_mul hpos).mpr hd
    rw [if_pos, magicBytes_getD hj, magicBytes_getD hj]
    refine List.mem_map.mpr ⟨magicStore pageShift _ (d / PAGE_SIZE pageShift) (d % PAGE_SIZE pageShift),
      mem_magicStores.mpr ⟨_, hpage, _, hj, rfl⟩, ?_⟩
    unfold magicStore
    dsimp only
    rw [Nat.div_add_mod']
  · rw [if_neg, List.getElem?_eq_none (Nat.le_of_not_lt hj)]
    · rfl
    · intro hmem
      obtain ⟨store, hstore, heq⟩ := List.mem_map.mp hmem
      obtain ⟨i, hi, j, hj', rfl⟩ := mem_magicStores.mp hstore
      rw [hmeets i hi j hj' heq] at hj
      exact hj hj'

/-- For both drivers, every sequence of `mmap`s with `MAP_SHARED`, `munmap`s, loads and stores shows what one array of
`NPAGES` pages shows, at the distance from the start of the mapping. For `memory.c` the array is the area behind the pointer that
`kmalloc` returned, with the test bytes of `mydriver_init`; for `nonMemory.c` it is the pages of `vmalloc` in their
order. -/
theorem mappings_share_one_array (pageShift : Nat) (phys : Nat → UInt8) (es : List (MapEvent pageShift)) :
    (2 ≤ pageShift → ∀ (b : Block (kmallocSize pageShift)) (virtToPhys : Nat → Nat), LinearOn pageShift b virtToPhys →
      ((mappings (memoryMapper virtToPhys (PAGE_ALIGN pageShift b.ptr))
          (writeMagic pageShift virtToPhys (PAGE_ALIGN pageShift b.ptr) phys)).run es).map Prod.snd =
        ((sharedArray (memoryMapper virtToPhys (PAGE_ALIGN pageShift b.ptr))
          (withMagic pageShift fun d => phys (virtToPhys (PAGE_ALIGN pageShift b.ptr + d)))).run es).map Prod.snd) ∧
    (∀ (b : Block (vmallocSize pageShift)) (vmallocToPfn : Nat → Nat),
      (∀ i < NPAGES, ∀ j < NPAGES, vmallocToPfn (b.ptr + i * PAGE_SIZE pageShift) =
        vmallocToPfn (b.ptr + j * PAGE_SIZE pageShift) → i = j) →
      ((mappings (nonMemoryMapper vmallocToPfn b.ptr) phys).run es).map Prod.snd =
        ((sharedArray (nonMemoryMapper vmallocToPfn b.ptr)
          fun d => phys (vmallocToPfn (b.ptr + d / PAGE_SIZE pageShift * PAGE_SIZE pageShift) * PAGE_SIZE pageShift +
            d % PAGE_SIZE pageShift)).run es).map Prod.snd) := by
  constructor
  · intro hshift b virtToPhys hlinear
    refine mappings_eq_sharedArray (memoryMapper_mapsPages b virtToPhys) ?_ es
    intro d hd
    rw [hlinear.place_eq hd, hlinear.writeMagic_eq hshift phys hd]
  · intro b vmallocToPfn hframes
    exact mappings_eq_sharedArray (nonMemoryMapper_mapsPages hframes) (fun d _ => rfl) es

end

/-- Two mappings of different sizes at different addresses. A byte is stored through the first one, and loaded
through the second one. -/
def storeAndLoad : List (MapEvent 2) :=
  [.mmap ⟨⟨16, 24, by decide, by decide⟩, 0, by decide, by decide⟩ fun _ => 0,
    .mmap ⟨⟨40, 52, by decide, by decide⟩, 1, by decide, by decide⟩ fun _ => 0,
    .store 0 22 7, .load 1 46, .load 1 45]

theorem mappings_share_one_array_storeAndLoad :
    ((mappings (memoryMapper (fun v => v - 40) 104 : Mapper 2)
        (writeMagic 2 (fun v => v - 40) 104 fun _ => 0)).run storeAndLoad).map Prod.snd =
      some [.returned 0, .returned 0, .stored, .loaded 7, .loaded 0xbb] := by
  have h := (mappings_share_one_array 2 (fun _ => 0) storeAndLoad).1 (by decide) sixteen (fun v => v - 40)
    ⟨by decide, by decide⟩
  refine Eq.trans h ?_
  decide +kernel

end DeviceDrivers.Mmap
