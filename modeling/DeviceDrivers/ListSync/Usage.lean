import DeviceDrivers.ListSync.History

/-!
# Used entries and the range of `count`

An entry counts the adds of its pid since it was linked, and `task_info_remove_expired` keeps it from
`count = 5` on. But `count` is an `int` that wraps: after `2 ^ 31` further adds it is negative, and after
`2 ^ 32` small again. A run never evicts a used entry exactly when none of its walks meets an aged entry
with such a count (`used_entries_stay_iff`).
-/

namespace DeviceDrivers.ListSync

variable {w : Nat}

/-- The list, and the calls so far with what they freed, the latest first. -/
abbrev Logged (w : Nat) := List (TaskInfo w) × List (TaskEvent w × List (TaskInfo w))

/-- How often `pid` was added after the add that linked its entry. -/
def usage (pid : Int) (log : List (TaskEvent w × List (TaskInfo w))) : Nat := (adds pid log).length - 1

/-- The call frees no entry whose pid was added five times since it was linked. -/
def KeepsUsed (HZ : Nat) (s : Logged w) (e : TaskEvent w) : Prop :=
  ∀ head' freed, tasksStep HZ s.1 e = some (head', freed) → ∀ ti ∈ freed, usage ti.pid s.2 < 5

/-- A count of `n` adds in a signed integer of `32` bits is not below `5`. -/
def CountShows (n : Nat) : Prop := 5 ≤ n % 2 ^ 32 ∧ n % 2 ^ 32 < 2 ^ 31

/-- Every used entry that a walk finds aged still shows that it is used. -/
def UsageShows (HZ : Nat) (s : Logged w) : TaskEvent w → Prop
  | .add _ _ _ => True
  | .removeExpired jiffies =>
    ∀ (i : Nat) (ti : TaskInfo w), s.1[i]? = some ti →
      BitVec.ofNat w (3 * HZ) < jiffies i - ti.timestamp →
      5 ≤ usage ti.pid s.2 → CountShows (usage ti.pid s.2)

theorem count_lt_five_iff (n : Nat) : (BitVec.ofNat 32 n).toInt < 5 ↔ ¬ CountShows n := by
  unfold CountShows
  rw [BitVec.toInt_ofNat', Int.bmod]
  omega

theorem mem_freed_iff {HZ : Nat} {jiffies : Nat → BitVec w} {head : List (TaskInfo w)} {ti : TaskInfo w} :
    ti ∈ (taskInfoRemoveExpired HZ jiffies head).2 ↔
      ∃ i : Nat, head[i]? = some ti ∧ ti.expired HZ (jiffies i) := by
  rw [taskInfoRemoveExpired_eq_filter]
  simp [List.mk_mem_zipIdx_iff_getElem?]

theorem KeepsUsed.lt_five {HZ : Nat} {s : Logged w} {jiffies : Nat → BitVec w}
    (h : KeepsUsed HZ s (.removeExpired jiffies)) {ti : TaskInfo w}
    (hti : ti ∈ (taskInfoRemoveExpired HZ jiffies s.1).2) : usage ti.pid s.2 < 5 :=
  h _ _ rfl ti hti

theorem keepsUsed_iff {HZ : Nat} {s : Logged w} (hs : Describes s.2 s.1) (e : TaskEvent w) :
    KeepsUsed HZ s e ↔ UsageShows HZ s e := by
  cases e with
  | add pid kmalloc jiffies =>
    refine iff_of_true ?_ trivial
    intro head' freed hstep ti hti
    obtain ⟨l, -, heq⟩ := Option.map_eq_some_iff.mp hstep
    obtain ⟨-, rfl⟩ := Prod.mk.inj heq
    cases hti
  | removeExpired jiffies =>
    have hcount : ∀ ti ∈ s.1, (ti.count.toInt < 5 ↔ ¬ CountShows (usage ti.pid s.2)) := by
      intro ti hti
      rw [(hs.recorded ti hti).count]
      exact count_lt_five_iff _
    constructor
    · intro h i ti hi haged hused
      by_contra hshows
      have hti : ti ∈ s.1 := List.mem_of_getElem? hi
      have hexpired : ti.expired HZ (jiffies i) := by
        simp [TaskInfo.expired, haged, (hcount ti hti).mpr hshows]
      have hlt := h.lt_five (mem_freed_iff.mpr ⟨i, hi, hexpired⟩)
      omega
    · intro h head' freed hstep ti hti
      obtain ⟨-, rfl⟩ := Prod.mk.inj (Option.some.inj hstep)
      obtain ⟨i, hi, hexpired⟩ := mem_freed_iff.mp hti
      unfold TaskInfo.expired at hexpired
      rw [Bool.and_eq_true, decide_eq_true_eq, decide_eq_true_eq] at hexpired
      obtain ⟨haged, hlow⟩ := hexpired
      by_contra hused
      exact (hcount ti (List.mem_of_getElem? hi)).mp hlow (h i ti hi haged (by omega))

/-- Calls that find memory run on, and none of them evicts an entry whose pid was added five times since
it was linked, exactly when every aged entry that a walk meets with at least five further adds still
shows this in its count. -/
theorem used_entries_stay_iff (HZ : Nat) (es : List (TaskEvent w)) (hes : ∀ e ∈ es, e.allocates) :
    (∃ s os, (tasks w HZ).withLog.run es = some (s, os)) ∧
      ((tasks w HZ).withLog.EveryStep (KeepsUsed HZ) es ↔
        (tasks w HZ).withLog.EveryStep (UsageShows HZ) es) := by
  obtain ⟨head, os, hrun⟩ := @tasks_runs w HZ es hes
  refine ⟨⟨_, os, (tasks w HZ).run_withLog hrun⟩, ?_⟩
  exact (describes_invariant w HZ).everyStep_congr fun s hs e _ => keepsUsed_iff hs e

/-- Six adds of one pid and a walk long after them. -/
theorem used_entries_stay_iff_six :
    (∃ s os, (tasks 64 250).withLog.run
        (List.replicate 6 (.add 1 true 0) ++ [.removeExpired fun _ => 1000]) = some (s, os)) ∧
      ((tasks 64 250).withLog.EveryStep (KeepsUsed 250)
          (List.replicate 6 (.add 1 true 0) ++ [.removeExpired fun _ => 1000]) ↔
        (tasks 64 250).withLog.EveryStep (UsageShows 250)
          (List.replicate 6 (.add 1 true 0) ++ [.removeExpired fun _ => 1000])) :=
  used_entries_stay_iff 250 _ (by decide)

/-! ### A count that has wrapped -/

/-- `n + 1` adds of pid `1`. -/
def manyAdds (n : Nat) : List (TaskEvent 64) := List.replicate (n + 1) (.add 1 true 0)

/-- The log that they leave. -/
def manyAddsLog (n : Nat) : List (TaskEvent 64 × List (TaskInfo 64)) :=
  List.replicate (n + 1) (.add 1 true 0, [])

theorem run_manyAdds (HZ n : Nat) :
    (tasks 64 HZ).run (manyAdds n) = some ([⟨1, 0, BitVec.ofNat 32 n⟩], List.replicate (n + 1) []) := by
  induction n with
  | zero => rfl
  | succ n ih =>
    have hmore : manyAdds (n + 1) = manyAdds n ++ [.add 1 true 0] := List.replicate_succ'
    rw [hmore, List.replicate_succ' (n := n + 1)]
    refine (tasks 64 HZ).run_concat_eq_some.mpr ⟨_, _, [], ih, ?_, rfl⟩
    rw [BitVec.ofNat_add]
    rfl

theorem usage_manyAddsLog (n : Nat) : usage 1 (manyAddsLog n) = n := by
  have hlength : (adds 1 (manyAddsLog n)).length = n + 1 := by
    induction n with
    | zero => rfl
    | succ n ih =>
      have hmore : manyAddsLog (n + 1) = (.add 1 true 0, []) :: manyAddsLog n := List.replicate_succ
      rw [hmore, adds_add, if_pos rfl, List.length_cons, ih]
  unfold usage
  rw [hlength, Nat.add_sub_cancel]

theorem not_keepsUsed_manyAdds {n : Nat} (hused : 5 ≤ n) (hshows : ¬ CountShows n) :
    ¬ (tasks 64 250).withLog.EveryStep (KeepsUsed 250) (manyAdds n ++ [.removeExpired fun _ => 1000]) := by
  intro h
  have hrun := (tasks 64 250).run_withLog (run_manyAdds 250 n)
  have hkeeps := h (manyAdds n) (.removeExpired fun _ => 1000) _ _ (List.prefix_refl _) hrun
  have hlog : ((manyAdds n).zip (List.replicate (n + 1) [])).reverse = manyAddsLog n := by
    unfold manyAdds manyAddsLog
    rw [List.zip_replicate', List.reverse_replicate]
  rw [hlog] at hkeeps
  have hfreed : (⟨1, 0, BitVec.ofNat 32 n⟩ : TaskInfo 64) ∈
      (taskInfoRemoveExpired 250 (fun _ => 1000) [⟨1, 0, BitVec.ofNat 32 n⟩]).2 := by
    refine mem_freed_iff.mpr ⟨0, rfl, ?_⟩
    have hlow : (BitVec.ofNat 32 n).toInt < 5 := (count_lt_five_iff n).mpr hshows
    unfold TaskInfo.expired
    rw [Bool.and_eq_true, decide_eq_true_eq, decide_eq_true_eq]
    have haged : BitVec.ofNat 64 (3 * 250) < (1000 : BitVec 64) - 0 := by decide
    exact ⟨haged, hlow⟩
  have hlt := hkeeps.lt_five hfreed
  rw [usage_manyAddsLog] at hlt
  omega

/-- After `2 ^ 31` further adds the entry is evicted. -/
theorem used_entry_evicted :
    ¬ (tasks 64 250).withLog.EveryStep (KeepsUsed 250)
      (manyAdds (2 ^ 31) ++ [.removeExpired fun _ => 1000]) := by
  apply not_keepsUsed_manyAdds
  · omega
  · unfold CountShows
    omega

end DeviceDrivers.ListSync
