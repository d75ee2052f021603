import DeviceDrivers.Lib.Intervals
import DeviceDrivers.Mmap.Map

/-!
# The `/proc` entry of `nonMemory.c`

`memory_seq_show` adds up the sizes of the `vma`s of the calling process in an `unsigned long`. They are
visited in ascending order and do not overlap, so what has been added up never gets past the end of the last
one visited, and the sum is the size of the address space (`seq_show_true_size`).
-/

namespace DeviceDrivers.Mmap

/-- The conversion `%lx`. -/
def lx (n : Nat) : String := String.ofList (Nat.toDigits 16 n)

/-- What `memory_seq_show` leaves: its return value, the lines it logs and what it prints. -/
structure SeqShow where
  ret : Int
  log : List String
  seq : String

/-- One iteration of the loop: `size`, and the lines logged so far. -/
def seqStep (s : Nat × List String) (vma : VmArea) : Nat × List String :=
  (sizeT (s.1 + vma.size), s.2 ++ [lx vma.vmStart ++ " " ++ lx vma.vmEnd ++ "\n"])

/-- The loop over the `vma`s. -/
def seqLoop (vmas : List VmArea) : Nat × List String := vmas.foldl seqStep (0, [])

/-- `memory_seq_show`; `mm` is what `for_each_vma` visits, `none` if the process has no `mm`. -/
def memorySeqShow (mm : Option (List VmArea)) : SeqShow :=
  match mm with
  | none => ⟨0, [], ""⟩
  | some vmas => ⟨0, (seqLoop vmas).2, toString (seqLoop vmas).1⟩

/-- The addresses of a process. -/
def addresses (vmas : List VmArea) : Set Nat := Intervals.covered VmArea.vmStart VmArea.vmEnd vmas

theorem seqLoop_concat (vmas : List VmArea) (vma : VmArea) :
    seqLoop (vmas ++ [vma]) = seqStep (seqLoop vmas) vma := List.foldl_concat ..

theorem total_lt {vmas : List VmArea} (h : vmas.Pairwise fun a b => a.vmEnd ≤ b.vmStart) :
    Intervals.total VmArea.vmStart VmArea.vmEnd vmas < 2 ^ 64 := by
  have hle : Intervals.total VmArea.vmStart VmArea.vmEnd vmas ≤ 2 ^ 64 - 1 := by
    refine Intervals.total_le h (fun vma _ => vma.nonempty.le) ?_
    intro vma _
    have hfits := vma.fits
    omega
  omega

theorem seqLoop_eq_total {vmas : List VmArea} (h : vmas.Pairwise fun a b => a.vmEnd ≤ b.vmStart) :
    (seqLoop vmas).1 = Intervals.total VmArea.vmStart VmArea.vmEnd vmas := by
  induction vmas using List.reverseRecOn with
  | nil => rfl
  | append_singleton vmas vma ih =>
    have hlt := total_lt h
    rw [Intervals.total_concat, ← ih (List.pairwise_append.mp h).1] at hlt ⊢
    rw [seqLoop_concat]
    exact sizeT_of_lt hlt

/-- For ascending, disjoint `vma`s no addition of the loop overflows, and the number printed is that of the
addresses they cover. -/
theorem seq_show_true_size (vmas : List VmArea) (h : vmas.Pairwise fun a b => a.vmEnd ≤ b.vmStart) :
    (∀ pre vma, pre ++ [vma] <+: vmas → (seqLoop pre).1 + vma.size < 2 ^ 64) ∧
      (memorySeqShow (some vmas)).seq = toString (addresses vmas).ncard := by
  constructor
  · intro pre vma hpre
    have hsorted := h.sublist hpre.sublist
    have hlt := total_lt hsorted
    rw [Intervals.total_concat, ← seqLoop_eq_total (List.pairwise_append.mp hsorted).1] at hlt
    exact hlt
  · show toString (seqLoop vmas).1 = _
    rw [seqLoop_eq_total h, ← Intervals.ncard_covered h]
    rfl

/-- A process with its last page at the end of the address space. -/
def highProcess : List VmArea :=
  [⟨20480, 28672, by decide, by decide⟩, ⟨2 ^ 64 - 4096, 2 ^ 64 - 1, by decide, by decide⟩]

theorem seq_show_true_size_high :
    (memorySeqShow (some highProcess)).seq = toString (addresses highProcess).ncard ∧
      (memorySeqShow (some highProcess)).seq = "12287" :=
  ⟨(seq_show_true_size highProcess (by decide)).2, by decide⟩

end DeviceDrivers.Mmap
