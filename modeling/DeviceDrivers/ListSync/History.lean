import DeviceDrivers.Lib.Keyed
import DeviceDrivers.Lib.Machine
import DeviceDrivers.ListSync.List

/-!
# The task list as a map with a history

Calls that do not overlap (`tasks`). The list is then a map from pids to entries, and the whole history
can be read off it: which pids have been added since they were last evicted (`adds`), when the first of
these adds linked the entry, what the last one stamped it with and how many there were.
-/

namespace DeviceDrivers.ListSync

variable {w : Nat}

inductive TaskEvent (w : Nat)
  | add (pid : Int) (kmalloc : Bool) (jiffies : BitVec w)
  | removeExpired (jiffies : Nat → BitVec w)

/-- The output is the entries that are freed. There is no step past an oops. -/
def tasksStep (HZ : Nat) (head : List (TaskInfo w)) :
    TaskEvent w → Option (List (TaskInfo w) × List (TaskInfo w))
  | .add pid kmalloc jiffies => (taskInfoAddToList pid kmalloc jiffies head).map fun head' => (head', [])
  | .removeExpired jiffies => some (taskInfoRemoveExpired HZ jiffies head)

def tasks (w HZ : Nat) : Machine (List (TaskInfo w)) (TaskEvent w) (List (TaskInfo w)) :=
  ⟨[], tasksStep HZ⟩

/-- The adds of `pid` since its entry was last freed, the latest first: the position of the call in the
run and the `jiffies` it read. The log is the calls with what they freed, the latest first. -/
def adds (pid : Int) : List (TaskEvent w × List (TaskInfo w)) → List (Nat × BitVec w)
  | [] => []
  | (e, freed) :: earlier =>
    if pid ∈ pids freed then []
    else
      match e with
      | .add p _ jiffies =>
        if p = pid then (earlier.length, jiffies) :: adds pid earlier else adds pid earlier
      | .removeExpired _ => adds pid earlier

/-- The call that linked the entry of `pid`: its first add since then. -/
def linkedAt (pid : Int) (log : List (TaskEvent w × List (TaskInfo w))) : Nat :=
  ((adds pid log).getLast?.map Prod.fst).getD 0

/-- The entry has the stamp of the last add, and counts the adds after the one that linked it. -/
structure Recorded (log : List (TaskEvent w × List (TaskInfo w))) (ti : TaskInfo w) : Prop where
  timestamp : (adds ti.pid log).head?.map Prod.snd = some ti.timestamp
  count : ti.count = BitVec.ofNat 32 ((adds ti.pid log).length - 1)

/-- The list that the log describes. -/
structure Describes (log : List (TaskEvent w × List (TaskInfo w))) (head : List (TaskInfo w)) :
    Prop where
  distinct : (pids head).Nodup
  present : ∀ pid, pid ∈ pids head ↔ adds pid log ≠ []
  recorded : ∀ ti ∈ head, Recorded log ti
  ordered : (pids head).Pairwise fun p q => linkedAt q log < linkedAt p log

/-! ### What one step does -/

theorem tasksStep_cases {HZ : Nat} {head head' : List (TaskInfo w)} {e : TaskEvent w}
    {freed : List (TaskInfo w)} (h : tasksStep HZ head e = some (head', freed)) :
    (∃ pid kmalloc jiffies i, e = .add pid kmalloc jiffies ∧ taskInfoFindPid pid head = some i ∧
      head' = head.modify i (TaskInfo.refresh jiffies) ∧ freed = []) ∨
    (∃ pid kmalloc jiffies, e = .add pid kmalloc jiffies ∧ taskInfoFindPid pid head = none ∧
      head' = ⟨pid, jiffies, 0⟩ :: head ∧ freed = []) ∨
    (∃ jiffies, e = .removeExpired jiffies ∧ head' = (taskInfoRemoveExpired HZ jiffies head).1 ∧
      freed = (taskInfoRemoveExpired HZ jiffies head).2) := by
  cases e with
  | add pid kmalloc jiffies =>
    obtain ⟨l, hadd, heq⟩ := Option.map_eq_some_iff.mp h
    obtain ⟨rfl, rfl⟩ := Prod.mk.inj heq
    unfold taskInfoAddToList addLookup at hadd
    cases hfind : taskInfoFindPid pid head with
    | some i =>
      left
      rw [hfind] at hadd
      exact ⟨pid, kmalloc, jiffies, i, rfl, hfind, (Option.some.inj hadd).symm, rfl⟩
    | none =>
      right; left
      rw [hfind] at hadd
      obtain ⟨ti, halloc, rfl⟩ := Option.map_eq_some_iff.mp hadd
      unfold taskInfoAlloc at halloc
      split_ifs at halloc
      obtain rfl := Option.some.inj halloc
      exact ⟨pid, kmalloc, jiffies, rfl, hfind, rfl, rfl⟩
  | removeExpired jiffies =>
    right; right
    obtain ⟨rfl, rfl⟩ := Prod.mk.inj (Option.some.inj h)
    exact ⟨jiffies, rfl, rfl, rfl⟩

/-! ### The history -/

theorem adds_add (pid p : Int) (kmalloc : Bool) (jiffies : BitVec w)
    (log : List (TaskEvent w × List (TaskInfo w))) :
    adds pid ((.add p kmalloc jiffies, []) :: log) =
      if p = pid then (log.length, jiffies) :: adds pid log else adds pid log := by
  simp [adds, pids]

theorem adds_removeExpired (pid : Int) (jiffies : Nat → BitVec w) (freed : List (TaskInfo w))
    (log : List (TaskEvent w × List (TaskInfo w))) :
    adds pid ((.removeExpired jiffies, freed) :: log) = if pid ∈ pids freed then [] else adds pid log :=
  rfl

theorem adds_lt (pid : Int) (log : List (TaskEvent w × List (TaskInfo w))) :
    ∀ x ∈ adds pid log, x.1 < log.length := by
  induction log with
  | nil => simp [adds]
  | cons x earlier ih =>
    obtain ⟨e, freed⟩ := x
    intro y hy
    unfold adds at hy
    split_ifs at hy with hfreed
    · simp at hy
    · cases e with
      | add p kmalloc jiffies =>
        dsimp only at hy
        split_ifs at hy with hp
        · rcases List.mem_cons.mp hy with rfl | hy
          · exact Nat.lt_succ_self _
          · exact Nat.lt_succ_of_lt (ih y hy)
        · exact Nat.lt_succ_of_lt (ih y hy)
      | removeExpired jiffies => exact Nat.lt_succ_of_lt (ih y hy)

theorem linkedAt_lt {pid : Int} {log : List (TaskEvent w × List (TaskInfo w))}
    (h : adds pid log ≠ []) : linkedAt pid log < log.length := by
  unfold linkedAt
  rw [List.getLast?_eq_some_getLast h]
  exact adds_lt pid log _ (List.getLast_mem h)

/-- The pid was added, and its entry was not freed since. -/
def AddedSince (pid : Int) (log : List (TaskEvent w × List (TaskInfo w))) : Prop :=
  ∃ later kmalloc jiffies freed earlier,
    log = later ++ (.add pid kmalloc jiffies, freed) :: earlier ∧ pid ∉ pids freed ∧
      ∀ x ∈ later, pid ∉ pids x.2

theorem AddedSince.cons {pid : Int} {log : List (TaskEvent w × List (TaskInfo w))}
    (h : AddedSince pid log) {x : TaskEvent w × List (TaskInfo w)} (hx : pid ∉ pids x.2) :
    AddedSince pid (x :: log) := by
  obtain ⟨later, kmalloc, jiffies, freed, earlier, rfl, hfreed, hlater⟩ := h
  exact ⟨x :: later, kmalloc, jiffies, freed, earlier, rfl, hfreed,
    List.forall_mem_cons.mpr ⟨hx, hlater⟩⟩

theorem AddedSince.of_cons {pid : Int} {log : List (TaskEvent w × List (TaskInfo w))}
    {x : TaskEvent w × List (TaskInfo w)} (h : AddedSince pid (x :: log)) :
    pid ∉ pids x.2 ∧ ((∃ kmalloc jiffies, x.1 = .add pid kmalloc jiffies) ∨ AddedSince pid log) := by
  obtain ⟨later, kmalloc, jiffies, freed, earlier, heq, hfreed, hlater⟩ := h
  cases later with
  | nil =>
    obtain ⟨rfl, -⟩ := List.cons.inj heq
    exact ⟨hfreed, .inl ⟨kmalloc, jiffies, rfl⟩⟩
  | cons y later =>
    obtain ⟨rfl, rfl⟩ := List.cons.inj heq
    rw [List.forall_mem_cons] at hlater
    exact ⟨hlater.1, .inr ⟨later, kmalloc, jiffies, freed, earlier, rfl, hfreed, hlater.2⟩⟩

theorem adds_ne_nil_iff {pid : Int} {log : List (TaskEvent w × List (TaskInfo w))} :
    adds pid log ≠ [] ↔ AddedSince pid log := by
  induction log with
  | nil =>
    constructor
    · intro h
      exact (h rfl).elim
    · rintro ⟨later, _, _, _, _, heq, -⟩
      simp at heq
  | cons x log ih =>
    obtain ⟨e, freed⟩ := x
    unfold adds
    by_cases hfreed : pid ∈ pids freed
    · rw [if_pos hfreed]
      constructor
      · intro h
        exact (h rfl).elim
      · intro h
        exact (h.of_cons.1 hfreed).elim
    rw [if_neg hfreed]
    cases e with
    | add p kmalloc jiffies =>
      dsimp only
      split_ifs with hp
      · subst hp
        refine ⟨fun _ => ?_, fun _ => List.cons_ne_nil _ _⟩
        exact ⟨[], kmalloc, jiffies, freed, log, rfl, hfreed, by simp⟩
      · rw [ih]
        constructor
        · intro h
          exact h.cons hfreed
        · intro h
          rcases h.of_cons.2 with ⟨_, _, heq⟩ | h
          · injection heq with heq
            exact (hp heq).elim
          · exact h
    | removeExpired jiffies =>
      rw [ih]
      constructor
      · intro h
        exact h.cons hfreed
      · intro h
        rcases h.of_cons.2 with ⟨_, _, heq⟩ | h
        · cases heq
        · exact h

/-! ### Every step keeps the list and the log together -/

theorem describes_nil : Describes ([] : List (TaskEvent w × List (TaskInfo w))) [] :=
  ⟨List.nodup_nil, by simp [pids, adds], by simp, List.Pairwise.nil⟩

theorem Describes.refresh {log : List (TaskEvent w × List (TaskInfo w))} {head : List (TaskInfo w)}
    (h : Describes log head) {pid : Int} {i : Nat} (hi : taskInfoFindPid pid head = some i)
    (kmalloc : Bool) (jiffies : BitVec w) :
    Describes ((.add pid kmalloc jiffies, []) :: log) (head.modify i (TaskInfo.refresh jiffies)) := by
  have hne : adds pid log ≠ [] := by
    rw [← h.present]
    by_contra hmem
    rw [← taskInfoFindPid_eq_none, hi] at hmem
    cases hmem
  have hlinked : ∀ p, linkedAt p ((.add pid kmalloc jiffies, []) :: log) = linkedAt p log := by
    intro p
    unfold linkedAt
    rw [adds_add]
    split_ifs with hp
    · subst hp
      obtain ⟨x, xs, hxs⟩ := List.exists_cons_of_ne_nil hne
      rw [hxs, List.getLast?_cons_cons]
    · rfl
  refine ⟨?_, ?_, ?_, ?_⟩
  · rw [pids_modify_refresh]
    exact h.distinct
  · intro p
    rw [pids_modify_refresh, h.present, adds_add]
    split_ifs with hp
    · subst hp
      simp [hne]
    · rfl
  · rw [Keyed.modify_findIdx h.distinct hi]
    intro ti hti
    obtain ⟨old, hold, rfl⟩ := List.mem_map.mp hti
    have hrec : Recorded log old := h.recorded old hold
    by_cases hp : old.pid = pid
    · subst hp
      rw [if_pos rfl]
      refine ⟨?_, ?_⟩
      · show (adds old.pid _).head?.map Prod.snd = some jiffies
        rw [adds_add, if_pos rfl]
        rfl
      · show old.count + BitVec.ofNat 32 1 = BitVec.ofNat 32 ((adds old.pid _).length - 1)
        have hlen : 0 < (adds old.pid log).length := List.length_pos_iff.mpr hne
        rw [adds_add, if_pos rfl, List.length_cons, Nat.add_sub_cancel, hrec.count,
          ← BitVec.ofNat_add, Nat.sub_add_cancel hlen]
    · rw [if_neg hp]
      refine ⟨?_, ?_⟩
      · rw [adds_add, if_neg (Ne.symm hp)]
        exact hrec.timestamp
      · rw [adds_add, if_neg (Ne.symm hp)]
        exact hrec.count
  · rw [pids_modify_refresh]
    simp only [hlinked]
    exact h.ordered

theorem Describes.link {log : List (TaskEvent w × List (TaskInfo w))} {head : List (TaskInfo w)}
    (h : Describes log head) {pid : Int} (hmiss : taskInfoFindPid pid head = none)
    (kmalloc : Bool) (jiffies : BitVec w) :
    Describes ((.add pid kmalloc jiffies, []) :: log) (⟨pid, jiffies, 0⟩ :: head) := by
  rw [taskInfoFindPid_eq_none] at hmiss
  have hnil : adds pid log = [] := by
    by_contra hne
    exact hmiss ((h.present pid).mpr hne)
  have hother : ∀ p ∈ pids head, adds p ((.add pid kmalloc jiffies, []) :: log) = adds p log := by
    intro p hp
    rw [adds_add, if_neg]
    rintro rfl
    exact hmiss hp
  refine ⟨?_, ?_, ?_, ?_⟩
  · exact List.nodup_cons.mpr ⟨hmiss, h.distinct⟩
  · intro p
    show p ∈ pid :: pids head ↔ _
    rw [List.mem_cons, h.present, adds_add]
    split_ifs with hp
    · simp [hp]
    · simp [Ne.symm hp]
  · rw [List.forall_mem_cons]
    constructor
    · refine ⟨?_, ?_⟩
      · rw [adds_add, if_pos rfl]
        rfl
      · rw [adds_add, if_pos rfl, hnil]
        rfl
    · intro ti hti
      have hrec : Recorded log ti := h.recorded ti hti
      have hsame := hother ti.pid (List.mem_map.mpr ⟨ti, hti, rfl⟩)
      exact ⟨hsame ▸ hrec.timestamp, hsame ▸ hrec.count⟩
  · have hfirst : linkedAt pid ((.add pid kmalloc jiffies, []) :: log) = log.length := by
      unfold linkedAt
      rw [adds_add, if_pos rfl, hnil]
      rfl
    have hrest : ∀ p ∈ pids head, linkedAt p ((.add pid kmalloc jiffies, []) :: log) = linkedAt p log := by
      intro p hp
      unfold linkedAt
      rw [hother p hp]
    refine List.pairwise_cons.mpr ⟨?_, ?_⟩
    · intro q hq
      rw [hfirst, hrest q hq]
      exact linkedAt_lt ((h.present q).mp hq)
    · refine h.ordered.imp_of_mem ?_
      intro p q hp hq hlt
      rw [hrest p hp, hrest q hq]
      exact hlt

theorem Describes.removeExpired {log : List (TaskEvent w × List (TaskInfo w))}
    {head : List (TaskInfo w)} (h : Describes log head) (HZ : Nat) (jiffies : Nat → BitVec w) :
    Describes ((.removeExpired jiffies, (taskInfoRemoveExpired HZ jiffies head).2) :: log)
      (taskInfoRemoveExpired HZ jiffies head).1 := by
  have hperm := taskInfoRemoveExpired_perm HZ jiffies head
  have hsub := taskInfoRemoveExpired_sublist HZ jiffies head
  revert hperm hsub
  generalize (taskInfoRemoveExpired HZ jiffies head).1 = kept
  generalize (taskInfoRemoveExpired HZ jiffies head).2 = freed
  intro hperm hsub
  have hpids : (pids kept ++ pids freed).Perm (pids head) := by
    unfold pids
    rw [← List.map_append]
    exact hperm.map _
  have hdisjoint : ∀ p ∈ pids kept, p ∉ pids freed := by
    have hnodup := hpids.nodup_iff.mpr h.distinct
    intro p hkept hfreed
    exact (List.nodup_append.mp hnodup).2.2 p hkept p hfreed rfl
  have hkeep : ∀ p ∈ pids kept, adds p ((.removeExpired jiffies, freed) :: log) = adds p log := by
    intro p hp
    rw [adds_removeExpired, if_neg (hdisjoint p hp)]
  refine ⟨?_, ?_, ?_, ?_⟩
  · exact h.distinct.sublist (hsub.map _)
  · intro p
    rw [adds_removeExpired]
    have hmem : p ∈ pids head ↔ p ∈ pids kept ∨ p ∈ pids freed := by
      rw [← List.mem_append]
      exact hpids.mem_iff.symm
    split_ifs with hp
    · constructor
      · intro hkept
        exact (hdisjoint p hkept hp).elim
      · intro hne
        exact (hne rfl).elim
    · rw [← h.present, hmem]
      simp [hp]
  · intro ti hti
    have hrec : Recorded log ti := h.recorded ti (hsub.subset hti)
    have hsame := hkeep ti.pid (List.mem_map.mpr ⟨ti, hti, rfl⟩)
    exact ⟨hsame ▸ hrec.timestamp, hsame ▸ hrec.count⟩
  · have hordered := h.ordered.sublist (hsub.map TaskInfo.pid)
    refine hordered.imp_of_mem ?_
    intro p q hp hq hlt
    unfold linkedAt
    rw [hkeep p hp, hkeep q hq]
    exact hlt

theorem Describes.step {HZ : Nat} {log : List (TaskEvent w × List (TaskInfo w))}
    {head head' freed : List (TaskInfo w)} {e : TaskEvent w} (h : Describes log head)
    (hstep : tasksStep HZ head e = some (head', freed)) : Describes ((e, freed) :: log) head' := by
  rcases tasksStep_cases hstep with ⟨pid, kmalloc, jiffies, i, rfl, hi, rfl, rfl⟩ |
    ⟨pid, kmalloc, jiffies, rfl, hmiss, rfl, rfl⟩ | ⟨jiffies, rfl, rfl, rfl⟩
  · exact h.refresh hi kmalloc jiffies
  · exact h.link hmiss kmalloc jiffies
  · exact h.removeExpired HZ jiffies

/-! ### Runs -/

theorem describes_invariant (w HZ : Nat) : (tasks w HZ).withLog.Invariant fun s => Describes s.2 s.1 := by
  refine ⟨describes_nil, ?_⟩
  intro s t e freed hs hstep
  obtain ⟨htasks, hlog⟩ := (tasks w HZ).withLog_step hstep
  rw [hlog]
  exact hs.step htasks

theorem describes_run {HZ : Nat} {es : List (TaskEvent w)} {head : List (TaskInfo w)}
    {os : List (List (TaskInfo w))} (hrun : (tasks w HZ).run es = some (head, os)) :
    Describes (es.zip os).reverse head :=
  (describes_invariant w HZ).run ((tasks w HZ).run_withLog hrun)

/-- The allocation of the call, if it needs one, succeeds. -/
def TaskEvent.allocates : TaskEvent w → Bool
  | .add _ kmalloc _ => kmalloc
  | .removeExpired _ => true

theorem tasksStep_isSome (HZ : Nat) (head : List (TaskInfo w)) {e : TaskEvent w} (he : e.allocates) :
    (tasksStep HZ head e).isSome := by
  cases e with
  | add pid kmalloc jiffies =>
    obtain rfl : kmalloc = true := he
    show ((taskInfoAddToList pid true jiffies head).map fun l => (l, [])).isSome
    unfold taskInfoAddToList
    cases addLookup pid jiffies head with
    | none => rfl
    | some head' => rfl
  | removeExpired jiffies => rfl

theorem tasks_runs {HZ : Nat} {es : List (TaskEvent w)} (hes : ∀ e ∈ es, e.allocates) :
    ∃ head os, (tasks w HZ).run es = some (head, os) := by
  refine Machine.EveryStep.exists_run ?_ (Machine.everyStep_of_forall hes)
  intro head e he
  exact tasksStep_isSome HZ head he

/-- Calls that do not overlap and that find memory leave a list with one entry for every pid that was
added and not evicted since. Its entry has the `jiffies` of the last add, the number of adds after the
one that linked it, and stands before the entries that were linked earlier. -/
theorem task_list_history (HZ : Nat) (es : List (TaskEvent w)) (hes : ∀ e ∈ es, e.allocates) :
    ∃ head os, (tasks w HZ).run es = some (head, os) ∧
      (pids head).Nodup ∧
      (∀ pid, pid ∈ pids head ↔ AddedSince pid (es.zip os).reverse) ∧
      (∀ ti ∈ head,
        (adds ti.pid (es.zip os).reverse).head?.map Prod.snd = some ti.timestamp ∧
        ti.count = BitVec.ofNat 32 ((adds ti.pid (es.zip os).reverse).length - 1)) ∧
      (pids head).Pairwise fun p q =>
        linkedAt q (es.zip os).reverse < linkedAt p (es.zip os).reverse := by
  obtain ⟨head, os, hrun⟩ := @tasks_runs w HZ es hes
  have h : Describes (es.zip os).reverse head := describes_run hrun
  refine ⟨head, os, hrun, h.distinct, ?_, ?_, h.ordered⟩
  · intro pid
    rw [h.present, adds_ne_nil_iff]
  · intro ti hti
    exact ⟨(h.recorded ti hti).timestamp, (h.recorded ti hti).count⟩

/-- Two tasks, a refresh, an eviction and a new link. -/
theorem task_list_history_relinked :
    ∃ head os, (tasks 32 100).run
        [.add 1 true 0, .add 2 true 5, .add 1 true 400, .removeExpired fun _ => 500, .add 2 true 600] =
          some (head, os) ∧
      head = [⟨2, 600, 0⟩, ⟨1, 400, 1⟩] ∧ (pids head).Nodup := by
  obtain ⟨head, os, hrun, hnodup, -⟩ := task_list_history (w := 32) 100
    [.add 1 true 0, .add 2 true 5, .add 1 true 400, .removeExpired fun _ => 500, .add 2 true 600]
    (by decide)
  refine ⟨head, os, hrun, ?_, hnodup⟩
  have heval : (tasks 32 100).run
      [.add 1 true 0, .add 2 true 5, .add 1 true 400, .removeExpired fun _ => 500, .add 2 true 600] =
        some ([⟨2, 600, 0⟩, ⟨1, 400, 1⟩], [[], [], [], [⟨2, 5, 0⟩], []]) := by rfl
  exact (Prod.mk.inj (Option.some.inj (hrun.symm.trans heval))).1

end DeviceDrivers.ListSync
