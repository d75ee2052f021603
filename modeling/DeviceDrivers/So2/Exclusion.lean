import DeviceDrivers.So2.Device

/-!
# One open file at a time

`so2_release` clears `isOpen` whoever calls it, and a failed `so2_open` leaves `private_data` set. The
device still has at most one open file, because only the file whose open succeeded is ever released.
-/

namespace DeviceDrivers.So2

/-- At most one file is open, and `isOpen` says whether there is one. -/
structure Exclusive (s : Sys) : Prop where
  single : s.files.length ≤ 1
  flag : s.dev.isOpen = s.files.length

/-- The handles that are open. -/
def Sys.handles (s : Sys) : List Nat := s.files.map (·.id)

@[simp] theorem length_handles (s : Sys) : s.handles.length = s.files.length := List.length_map _

@[simp] theorem handles_setPos (s : Sys) (dev : So2DeviceData) (f : Nat) (pos : Int) :
    (⟨dev, s.setPos f pos⟩ : Sys).handles = s.handles := by
  unfold Sys.handles Sys.setPos
  rw [List.map_map]
  apply List.map_congr_left
  intro file _
  dsimp only [Function.comp_apply]
  split <;> rfl

@[simp] theorem so2Write_isOpen (data : So2DeviceData) (size : Nat) (offset : Int) (copy : UserCopy) :
    (so2Write data size offset copy).2.isOpen = data.isOpen := by
  unfold so2Write
  cases copy <;> simp only

theorem Exclusive.of_handles {s t : Sys} (hs : Exclusive s) (hids : t.handles = s.handles)
    (hopen : t.dev.isOpen = s.dev.isOpen) : Exclusive t := by
  have hlen : t.files.length = s.files.length := by
    rw [← length_handles, ← length_handles, hids]
  exact ⟨hlen ▸ hs.single, by rw [hopen, hs.flag, hlen]⟩

theorem Exclusive.files_of_mem {s : Sys} (hs : Exclusive s) {file : File} (hmem : file ∈ s.files) :
    s.files = [file] := by
  have hone : s.files.length = 1 := le_antisymm hs.single (List.length_pos_of_mem hmem)
  obtain ⟨g, hg⟩ := List.length_eq_one_iff.mp hone
  rw [hg, List.mem_singleton] at hmem
  rw [hg, hmem]

theorem Exclusive.files_eq {s : Sys} (hs : Exclusive s) {f : Nat} (hf : (s.file f).isSome) :
    ∃ file, s.files = [file] ∧ file.id = f := by
  obtain ⟨file, hfile⟩ := Option.isSome_iff_exists.mp hf
  have hid : file.id = f := by simpa using List.find?_some hfile
  exact ⟨file, hs.files_of_mem (List.mem_of_find?_eq_some hfile), hid⟩

theorem Exclusive.isOpen_eq_zero_iff {s : Sys} (hs : Exclusive s) : s.dev.isOpen = 0 ↔ s.files = [] := by
  rw [hs.flag, ← List.length_eq_zero_iff]
  omega

theorem so2_exclusive : so2.Invariant Exclusive where
  init := ⟨by decide, by decide⟩
  step := by
    intro s t e o hs hstep
    obtain ⟨f, -, -, -, rfl, -⟩ | ⟨f, -, -, hfree, rfl, -⟩ | ⟨f, -, hf, rfl, -⟩ |
      ⟨f, size, limit, file, -, -, rfl, -⟩ | ⟨f, size, copy, file, -, -, -, rfl, -⟩ :=
        so2Step_cases hstep
    · exact hs
    · rw [hs.isOpen_eq_zero_iff] at hfree
      rw [hfree]
      exact ⟨le_refl 1, rfl⟩
    · -- the released file is the open one
      obtain ⟨file, hfiles, hid⟩ := hs.files_eq hf
      have hnil : s.files.filter (·.id ≠ f) = [] := by simp [hfiles, hid]
      rw [hnil]
      exact ⟨Nat.zero_le 1, rfl⟩
    · exact hs.of_handles (handles_setPos _ _ _ _) rfl
    · exact hs.of_handles (handles_setPos _ _ _ _) (so2Write_isOpen _ _ _ _)

/-! ### The holder keeps the device until it releases it -/

theorem holder_step {s t : Sys} {e : So2Event} {o : So2Output} {h : Nat} (hs : Exclusive s)
    (hheld : s.handles = [h]) (he : e ≠ .release h) (hstep : so2.step s e = some (t, o)) :
    t.handles = [h] := by
  obtain ⟨f, -, -, -, rfl, -⟩ | ⟨f, -, -, hfree, rfl, -⟩ | ⟨f, rfl, hf, rfl, -⟩ |
    ⟨f, size, limit, file, -, -, rfl, -⟩ | ⟨f, size, copy, file, -, -, -, rfl, -⟩ :=
      so2Step_cases hstep
  · exact hheld
  · rw [hs.isOpen_eq_zero_iff] at hfree
    simp [Sys.handles, hfree] at hheld
  · obtain ⟨file, hfiles, hid⟩ := hs.files_eq hf
    have hfh : f = h := by simpa [Sys.handles, hfiles, hid] using hheld
    exact absurd (hfh ▸ rfl) he
  · rw [handles_setPos]
    exact hheld
  · rw [handles_setPos]
    exact hheld

theorem holder_run {s t : Sys} {es : List So2Event} {os : List So2Output} {h : Nat}
    (hs : Exclusive s) (hheld : s.handles = [h]) (hrel : .release h ∉ es)
    (hrun : so2.runFrom s es = some (t, os)) : t.handles = [h] := by
  induction es generalizing s os with
  | nil =>
    obtain ⟨rfl, -⟩ := Prod.mk.inj (Option.some.inj hrun)
    exact hheld
  | cons e es ih =>
    obtain ⟨u, o, os', hstep, hrest, -⟩ := so2.runFrom_cons_eq_some.mp hrun
    rw [List.mem_cons, not_or] at hrel
    have hu : u.handles = [h] := holder_step hs hheld (Ne.symm hrel.1) hstep
    exact ih (so2_exclusive.step hs hstep) hu hrel.2 hrest

theorem tryOpen_busy {s : Sys} (hs : Exclusive s) (hne : s.handles ≠ []) {f : Nat}
    (hf : f ∉ s.handles) : so2.step s (.tryOpen f) = some (s, ⟨-EBUSY, []⟩) := by
  have hopen : s.dev.isOpen ≠ 0 := by
    intro hzero
    exact hne (List.map_eq_nil_iff.mpr (hs.isOpen_eq_zero_iff.mp hzero))
  have hnone : s.file f = none := by
    rw [Sys.file, List.find?_eq_none]
    intro file hfile heq
    exact hf (List.mem_map.mpr ⟨file, hfile, by simpa using heq⟩)
  simp only [so2, so2Step, hnone, Option.isSome_none, so2Open_busy hopen]
  rfl

theorem tryOpen_free {s : Sys} (hs : Exclusive s) (hnil : s.handles = []) (f : Nat) :
    so2.step s (.tryOpen f) = some (⟨{ s.dev with isOpen := 1 }, [⟨f, 0⟩]⟩, ⟨0, []⟩) := by
  have hfiles : s.files = [] := List.map_eq_nil_iff.mp hnil
  have hnone : s.file f = none := by simp [Sys.file, hfiles]
  simp only [so2, so2Step, hnone, Option.isSome_none, so2Open_free (hs.isOpen_eq_zero_iff.mpr hfiles),
    hfiles]
  rfl

theorem not_mem_handles_of_tryOpen {s t : Sys} {f : Nat} {o : So2Output}
    (hstep : so2.step s (.tryOpen f) = some (t, o)) : f ∉ s.handles := by
  intro hmem
  obtain ⟨file, hfile, hid⟩ := List.mem_map.mp hmem
  have hsome : (s.file f).isSome := List.find?_isSome.mpr ⟨file, hfile, by simpa using hid⟩
  simp [so2, so2Step, hsome] at hstep

/-- At most one handle is open in every reachable state and `isOpen` is the number of open handles. An
open succeeds exactly when no handle is open; otherwise it fails with `-EBUSY`, changes nothing, and
every later open fails too until the holder releases. -/
theorem single_open {es : List So2Event} {s : Sys} {os : List So2Output}
    (hrun : so2.run es = some (s, os)) :
    s.handles.length ≤ 1 ∧ s.dev.isOpen = s.handles.length ∧
      (∀ f t o, so2.step s (.tryOpen f) = some (t, o) →
        (o.ret = 0 ↔ s.handles = []) ∧ (o.ret = 0 → t.handles = [f]) ∧
          (o.ret ≠ 0 → o.ret = -EBUSY ∧ t = s)) ∧
      (∀ h ∈ s.handles, ∀ es' t os', so2.runFrom s es' = some (t, os') → .release h ∉ es' →
        t.handles = [h] ∧ ∀ f ≠ h, so2.step t (.tryOpen f) = some (t, ⟨-EBUSY, []⟩)) := by
  have hs : Exclusive s := so2_exclusive.run hrun
  refine ⟨by simpa using hs.single, by simpa using hs.flag, ?_, ?_⟩
  · intro f t o hstep
    by_cases hfree : s.handles = []
    · rw [tryOpen_free hs hfree] at hstep
      obtain ⟨rfl, rfl⟩ := Prod.mk.inj (Option.some.inj hstep)
      exact ⟨⟨fun _ => hfree, fun _ => rfl⟩, fun _ => rfl, fun h => absurd rfl h⟩
    · rw [tryOpen_busy hs hfree (not_mem_handles_of_tryOpen hstep)] at hstep
      obtain ⟨rfl, rfl⟩ := Prod.mk.inj (Option.some.inj hstep)
      have hbusy : (-EBUSY : Int) ≠ 0 := by decide
      exact ⟨⟨fun h => absurd h hbusy, fun h => absurd h hfree⟩, fun h => absurd h hbusy,
        fun _ => ⟨rfl, rfl⟩⟩
  · intro h hh es' t os' hcont hrel
    have hheld : s.handles = [h] := by
      obtain ⟨file, hfile, rfl⟩ := List.mem_map.mp hh
      unfold Sys.handles
      rw [hs.files_of_mem hfile, List.map_singleton]
    have ht : Exclusive t := so2_exclusive.runFrom hs hcont
    have hkeep : t.handles = [h] := holder_run hs hheld hrel hcont
    refine ⟨hkeep, fun f hf => ?_⟩
    apply tryOpen_busy ht
    · simp [hkeep]
    · simpa [hkeep] using hf

/-- The second open fails while the first file is open. -/
theorem single_open_two_processes :
    so2.step ⟨{ (so2CdevInit .zero 0).2 with isOpen := 1 }, [⟨1, 0⟩]⟩ (.tryOpen 2) =
      some (⟨{ (so2CdevInit .zero 0).2 with isOpen := 1 }, [⟨1, 0⟩]⟩, ⟨-EBUSY, []⟩) :=
  ((@single_open [.tryOpen 1] _ [⟨0, []⟩] rfl).2.2.2 1 (by decide) [] _ [] rfl (by simp)).2 2
    (by decide)

end DeviceDrivers.So2
