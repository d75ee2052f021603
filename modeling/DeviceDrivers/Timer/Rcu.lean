import DeviceDrivers.Lib.Pool
import DeviceDrivers.Timer.Device

/-!
# `get_proc` and the end of a task

`get_proc` looks a task up inside an RCU read section and takes its reference outside of it, with an
allocation in between. A task that exits is unhashed at once; its own reference is dropped when all read
sections that were open at that moment are closed, and it is freed when no reference is left. Nothing
keeps the task in the gap between `rcu_read_unlock` and `get_task_struct`: no freed task gets a reference
in the runs in which no last reference is dropped while a call stands in that gap, and wherever one is,
the call can go on to take one (`get_task_struct_live`).
-/

namespace DeviceDrivers.Timer

/-- The next step of a `get_proc`: `rcu_read_lock`, the lookup, `rcu_read_unlock`, the allocation,
`get_task_struct`. -/
inductive GetPc
  | lock (pid : Int)
  | lookup (pid : Int)
  | unlock (task : Option Nat)
  | alloc (task : Nat)
  | get (task : Nat)
  | returned (r : Except Int Nat)

/-- The call is inside its read section. -/
def GetPc.reading : GetPc → Bool
  | .lookup _ => true
  | .unlock _ => true
  | _ => false

/-- `pidTask` is the pid table without regard to exits; `readers` is, for a task that has exited, the
calls whose read section was open then. `reaped` says that the task's own reference is gone, `held` counts
the references of others. -/
structure RcuSys where
  pidTask : Int → Option Nat
  readers : Nat → Option (List Nat)
  reaped : Nat → Bool
  held : Nat → Nat
  calls : List GetPc

namespace RcuSys

variable (s : RcuSys)

/-- The reference count of a task; it is freed at zero. -/
def refs (task : Nat) : Nat := (if s.reaped task then 0 else 1) + s.held task

/-- `pid_task(find_vpid(pid), PIDTYPE_PID)` -/
def lookup (pid : Int) : Option Nat := (s.pidTask pid).filter fun task => (s.readers task).isNone

/-- The calls inside a read section. -/
def openSections : List Nat :=
  (List.range s.calls.length).filter fun i => (s.calls[i]?).any GetPc.reading

def setCall (i : Nat) (pc : GetPc) : RcuSys := { s with calls := s.calls.set i pc }

def getTaskStruct (task : Nat) : RcuSys :=
  { s with held := Function.update s.held task (s.held task + 1) }

def putTaskStruct (task : Nat) : RcuSys :=
  { s with held := Function.update s.held task (s.held task - 1) }

/-- One step of the call `i`. -/
def procStep (i : Nat) (kmalloc : Bool) : Option RcuSys :=
  match s.calls[i]? with
  | some (.lock pid) => some (s.setCall i (.lookup pid))
  | some (.lookup pid) => some (s.setCall i (.unlock (s.lookup pid)))
  | some (.unlock none) => some (s.setCall i (.returned (.error (-ESRCH))))
  | some (.unlock (some task)) => some (s.setCall i (.alloc task))
  | some (.alloc task) =>
    some (s.setCall i (if kmalloc then .get task else .returned (.error (-ENOMEM))))
  | some (.get task) => some ((s.getTaskStruct task).setCall i (.returned (.ok task)))
  | _ => none

/-- The task's own reference may be dropped: it has exited, and the read sections that were open then are
closed. -/
def canReap (task : Nat) : Bool :=
  !s.reaped task && (s.readers task).any fun rs => rs.all fun i => !(s.calls[i]?).any GetPc.reading

end RcuSys

inductive RcuEvent
  | call (pid : Int)
  | proc (i : Nat) (kmalloc : Bool)
  | exit (task : Nat)
  | reap (task : Nat)
  | otherGet (task : Nat)
  | otherPut (task : Nat)

/-- Others take references only where there is one, and drop only their own. -/
def rcuStep (s : RcuSys) : RcuEvent → Option (RcuSys × Unit)
  | .call pid => some ({ s with calls := s.calls ++ [.lock pid] }, ())
  | .proc i kmalloc => (s.procStep i kmalloc).map fun t => (t, ())
  | .exit task =>
    if (s.readers task).isNone then
      some ({ s with readers := Function.update s.readers task (some s.openSections) }, ())
    else none
  | .reap task =>
    if s.canReap task then some ({ s with reaped := Function.update s.reaped task true }, ()) else none
  | .otherGet task => if 0 < s.refs task then some (s.getTaskStruct task, ()) else none
  | .otherPut task => if 0 < s.held task then some (s.putTaskStruct task, ()) else none

/-- No call has begun and no task has exited; others hold `held`. -/
def rcu (pidTask : Int → Option Nat) (held : Nat → Nat) : Machine RcuSys RcuEvent Unit :=
  ⟨⟨pidTask, fun _ => none, fun _ => false, held, []⟩, rcuStep⟩

/-- A `get_task_struct` of `get_proc` is applied to a task with a reference. -/
def GetsLive (s : RcuSys) (e : RcuEvent) : Prop :=
  ∀ i kmalloc task, e = .proc i kmalloc → s.calls[i]? = some (.get task) → 0 < s.refs task

/-- The step drops the last reference to the task. -/
def DropsLast (s : RcuSys) (e : RcuEvent) (task : Nat) : Prop :=
  (e = .reap task ∨ e = .otherPut task) ∧ s.refs task = 1

/-- The call has found the task and left its read section, but has no reference yet. -/
def InGap (s : RcuSys) (i task : Nat) : Prop :=
  s.calls[i]? = some (.alloc task) ∨ s.calls[i]? = some (.get task)

/-- No last reference is dropped while a call stands in the gap. -/
def NoneInGap (s : RcuSys) (e : RcuEvent) : Prop :=
  ∀ task, DropsLast s e task → ∀ i, ¬ InGap s i task

/-! ### What one step does -/

theorem procStep_cases {s t : RcuSys} {i : Nat} {kmalloc : Bool} (h : s.procStep i kmalloc = some t) :
    (∃ pid, s.calls[i]? = some (.lock pid) ∧ t = s.setCall i (.lookup pid)) ∨
    (∃ pid, s.calls[i]? = some (.lookup pid) ∧ t = s.setCall i (.unlock (s.lookup pid))) ∨
    (s.calls[i]? = some (.unlock none) ∧ t = s.setCall i (.returned (.error (-ESRCH)))) ∨
    (∃ task, s.calls[i]? = some (.unlock (some task)) ∧ t = s.setCall i (.alloc task)) ∨
    (∃ task, s.calls[i]? = some (.alloc task) ∧
      t = s.setCall i (if kmalloc then .get task else .returned (.error (-ENOMEM)))) ∨
    (∃ task, s.calls[i]? = some (.get task) ∧
      t = (s.getTaskStruct task).setCall i (.returned (.ok task))) := by
  unfold RcuSys.procStep at h
  split at h
  · next pid hpc =>
    left
    exact ⟨pid, hpc, (Option.some.inj h).symm⟩
  · next pid hpc =>
    right; left
    exact ⟨pid, hpc, (Option.some.inj h).symm⟩
  · next hpc =>
    right; right; left
    exact ⟨hpc, (Option.some.inj h).symm⟩
  · next task hpc =>
    right; right; right; left
    exact ⟨task, hpc, (Option.some.inj h).symm⟩
  · next task hpc =>
    right; right; right; right; left
    exact ⟨task, hpc, (Option.some.inj h).symm⟩
  · next task hpc =>
    right; right; right; right; right
    exact ⟨task, hpc, (Option.some.inj h).symm⟩
  · cases h

theorem rcuStep_cases {s t : RcuSys} {e : RcuEvent} {o : Unit} (h : rcuStep s e = some (t, o)) :
    (∃ pid, e = .call pid ∧ t = { s with calls := s.calls ++ [.lock pid] }) ∨
    (∃ i kmalloc, e = .proc i kmalloc ∧ s.procStep i kmalloc = some t) ∨
    (∃ task, e = .exit task ∧ s.readers task = none ∧
      t = { s with readers := Function.update s.readers task (some s.openSections) }) ∨
    (∃ task, e = .reap task ∧ s.canReap task = true ∧
      t = { s with reaped := Function.update s.reaped task true }) ∨
    (∃ task, e = .otherGet task ∧ t = s.getTaskStruct task) ∨
    (∃ task, e = .otherPut task ∧ 0 < s.held task ∧ t = s.putTaskStruct task) := by
  cases e with
  | call pid =>
    obtain ⟨rfl, -⟩ := Prod.mk.inj (Option.some.inj h)
    left
    exact ⟨pid, rfl, rfl⟩
  | proc i kmalloc =>
    obtain ⟨u, hu, heq⟩ := Option.map_eq_some_iff.mp h
    obtain ⟨rfl, -⟩ := Prod.mk.inj heq
    right; left
    exact ⟨i, kmalloc, rfl, hu⟩
  | exit task =>
    simp only [rcuStep] at h
    split_ifs at h with hnone
    obtain ⟨rfl, -⟩ := Prod.mk.inj (Option.some.inj h)
    right; right; left
    exact ⟨task, rfl, by simpa using hnone, rfl⟩
  | reap task =>
    simp only [rcuStep] at h
    split_ifs at h with hcan
    obtain ⟨rfl, -⟩ := Prod.mk.inj (Option.some.inj h)
    right; right; right; left
    exact ⟨task, rfl, hcan, rfl⟩
  | otherGet task =>
    simp only [rcuStep] at h
    split_ifs at h
    obtain ⟨rfl, -⟩ := Prod.mk.inj (Option.some.inj h)
    right; right; right; right; left
    exact ⟨task, rfl, rfl⟩
  | otherPut task =>
    simp only [rcuStep] at h
    split_ifs at h with hheld
    obtain ⟨rfl, -⟩ := Prod.mk.inj (Option.some.inj h)
    right; right; right; right; right
    exact ⟨task, rfl, hheld, rfl⟩

theorem rcuStep_last {s : RcuSys} {pc pc' : GetPc} {kmalloc : Bool}
    (h : RcuSys.procStep { s with calls := s.calls ++ [pc] } s.calls.length kmalloc =
      some (RcuSys.setCall { s with calls := s.calls ++ [pc] } s.calls.length pc')) :
    rcuStep { s with calls := s.calls ++ [pc] } (.proc s.calls.length kmalloc) =
      some ({ s with calls := s.calls ++ [pc'] }, ()) := by
  simp only [rcuStep, h, Option.map_some]
  simp [RcuSys.setCall]

/-- With nothing in between its steps, a call of `get_proc` does what `getProc` does. -/
theorem getProc_alone (pidTask : Int → Option Nat) (held : Nat → Nat) (s : RcuSys) (pid : Int)
    (env : IoctlEnv) (k : Tasks) (hpid : env.pidTask pid = s.lookup pid) :
    ∃ es t os r, (rcu pidTask held).runFrom s (.call pid :: es) = some (t, os) ∧
      t.calls = s.calls ++ [.returned r] ∧
      r = (getProc env pid k).map fun p => p.1.task := by
  have hcall : (rcu pidTask held).step s (.call pid) =
      some ({ s with calls := s.calls ++ [.lock pid] }, ()) := rfl
  have hlock : rcuStep { s with calls := s.calls ++ [.lock pid] }
      (.proc s.calls.length env.kmalloc) =
        some ({ s with calls := s.calls ++ [.lookup pid] }, ()) := by
    apply rcuStep_last
    simp [RcuSys.procStep]
  have hlookup : rcuStep { s with calls := s.calls ++ [.lookup pid] }
      (.proc s.calls.length env.kmalloc) =
        some ({ s with calls := s.calls ++ [.unlock (s.lookup pid)] }, ()) := by
    apply rcuStep_last
    simp [RcuSys.procStep, RcuSys.lookup]
  unfold getProc
  rw [hpid]
  cases hfound : s.lookup pid with
  | none =>
    rw [hfound] at hlookup
    have hunlock : rcuStep { s with calls := s.calls ++ [.unlock none] }
        (.proc s.calls.length env.kmalloc) =
          some ({ s with calls := s.calls ++ [.returned (.error (-ESRCH))] }, ()) := by
      apply rcuStep_last
      simp [RcuSys.procStep]
    refine ⟨List.replicate 3 (.proc s.calls.length env.kmalloc),
      { s with calls := s.calls ++ [.returned (.error (-ESRCH))] }, List.replicate 4 (),
      .error (-ESRCH), ?_, rfl, rfl⟩
    simp only [List.replicate, Machine.runFrom_cons_eq_some]
    exact ⟨_, _, _, hcall, ⟨_, _, _, hlock, ⟨_, _, _, hlookup, ⟨_, _, _, hunlock, rfl, rfl⟩,
      rfl⟩, rfl⟩, rfl⟩
  | some task =>
    rw [hfound] at hlookup
    have hunlock : rcuStep { s with calls := s.calls ++ [.unlock (some task)] }
        (.proc s.calls.length env.kmalloc) =
          some ({ s with calls := s.calls ++ [.alloc task] }, ()) := by
      apply rcuStep_last
      simp [RcuSys.procStep]
    have halloc : rcuStep { s with calls := s.calls ++ [.alloc task] }
        (.proc s.calls.length env.kmalloc) = some ({ s with calls := s.calls ++
          [if env.kmalloc then .get task else .returned (.error (-ENOMEM))] }, ()) := by
      apply rcuStep_last
      simp [RcuSys.procStep]
    cases hkmalloc : env.kmalloc with
    | false =>
      rw [hkmalloc] at hlock hlookup hunlock halloc
      refine ⟨List.replicate 4 (.proc s.calls.length false),
        { s with calls := s.calls ++ [.returned (.error (-ENOMEM))] }, List.replicate 5 (),
        .error (-ENOMEM), ?_, rfl, rfl⟩
      simp only [List.replicate, Machine.runFrom_cons_eq_some]
      exact ⟨_, _, _, hcall, ⟨_, _, _, hlock, ⟨_, _, _, hlookup, ⟨_, _, _, hunlock,
        ⟨_, _, _, halloc, rfl, rfl⟩, rfl⟩, rfl⟩, rfl⟩, rfl⟩
    | true =>
      rw [hkmalloc] at hlock hlookup hunlock halloc
      have hget : rcuStep { s with calls := s.calls ++ [.get task] } (.proc s.calls.length true) =
          some ({ s.getTaskStruct task with calls := s.calls ++ [.returned (.ok task)] }, ()) := by
        simp [rcuStep, RcuSys.procStep, RcuSys.setCall, RcuSys.getTaskStruct]
      refine ⟨List.replicate 5 (.proc s.calls.length true),
        { s.getTaskStruct task with calls := s.calls ++ [.returned (.ok task)] },
        List.replicate 6 (), .ok task, ?_, rfl, rfl⟩
      simp only [List.replicate, Machine.runFrom_cons_eq_some]
      exact ⟨_, _, _, hcall, ⟨_, _, _, hlock, ⟨_, _, _, hlookup, ⟨_, _, _, hunlock,
        ⟨_, _, _, halloc, ⟨_, _, _, hget, rfl, rfl⟩, rfl⟩, rfl⟩, rfl⟩, rfl⟩, rfl⟩

/-! ### The invariant of the runs that meet the condition -/

/-- A task that a call has found in its read section is not reaped: either it has not exited, or it waits
for this call. A task that a call has found and not yet taken a reference to has one. -/
structure Guarded (s : RcuSys) : Prop where
  exited : ∀ task, s.reaped task = true → s.readers task ≠ none
  found : ∀ i task, s.calls[i]? = some (.unlock (some task)) →
    s.reaped task = false ∧ ∀ rs, s.readers task = some rs → i ∈ rs
  gap : ∀ i task, InGap s i task → 0 < s.refs task

section

variable {s : RcuSys}

theorem mem_openSections {i : Nat} {pc : GetPc} (hi : s.calls[i]? = some pc) (hpc : pc.reading = true) :
    i ∈ s.openSections := by
  obtain ⟨hlt, -⟩ := List.getElem?_eq_some_iff.mp hi
  refine List.mem_filter.mpr ⟨List.mem_range.mpr hlt, ?_⟩
  rw [hi]
  exact hpc

theorem lookup_not_exited {pid : Int} {task : Nat} (h : s.lookup pid = some task) :
    s.readers task = none := by
  have hfilter := (Option.filter_eq_some_iff.mp h).2
  simpa using hfilter

theorem refs_getTaskStruct (task task' : Nat) : s.refs task' ≤ (s.getTaskStruct task).refs task' := by
  unfold RcuSys.refs RcuSys.getTaskStruct
  dsimp only
  by_cases heq : task' = task
  · subst heq
    rw [Function.update_self]
    omega
  · rw [Function.update_of_ne heq]

theorem inGap_setCall {i j task : Nat} {pc : GetPc} (h : InGap (s.setCall i pc) j task) :
    pc = .alloc task ∨ pc = .get task ∨ InGap s j task := by
  rcases h with hj | hj
  · rcases Pool.getElem?_set_cases hj with ⟨-, hpc⟩ | ⟨-, hj⟩
    · left
      exact hpc.symm
    · right; right
      exact .inl hj
  · rcases Pool.getElem?_set_cases hj with ⟨-, hpc⟩ | ⟨-, hj⟩
    · right; left
      exact hpc.symm
    · right; right
      exact .inr hj

theorem inGap_call {i task : Nat} {pid : Int}
    (h : InGap { s with calls := s.calls ++ [.lock pid] } i task) : InGap s i task := by
  rcases h with hi | hi
  · rcases Pool.getElem?_concat_cases hi with ⟨-, hpc⟩ | hi
    · cases hpc
    · exact .inl hi
  · rcases Pool.getElem?_concat_cases hi with ⟨-, hpc⟩ | hi
    · cases hpc
    · exact .inr hi

theorem Guarded.setCall (h : Guarded s) (i : Nat) {pc : GetPc}
    (hfound : ∀ task, pc = .unlock (some task) →
      s.reaped task = false ∧ ∀ rs, s.readers task = some rs → i ∈ rs)
    (hgap : ∀ task, pc = .alloc task ∨ pc = .get task → 0 < s.refs task) :
    Guarded (s.setCall i pc) := by
  refine ⟨h.exited, ?_, ?_⟩
  · intro j task hj
    rcases Pool.getElem?_set_cases hj with ⟨rfl, hpc⟩ | ⟨-, hj⟩
    · exact hfound task hpc.symm
    · exact h.found j task hj
  · intro j task hj
    rcases inGap_setCall hj with hpc | hpc | hj
    · exact hgap task (.inl hpc)
    · exact hgap task (.inr hpc)
    · exact h.gap j task hj

theorem Guarded.getTaskStruct (h : Guarded s) (task : Nat) : Guarded (s.getTaskStruct task) := by
  refine ⟨h.exited, h.found, ?_⟩
  intro i task' hi
  exact Nat.lt_of_lt_of_le (h.gap i task' hi) (refs_getTaskStruct task task')

theorem Guarded.procStep (h : Guarded s) {t : RcuSys} {i : Nat} {kmalloc : Bool}
    (hstep : s.procStep i kmalloc = some t) : Guarded t := by
  rcases procStep_cases hstep with ⟨pid, -, rfl⟩ | ⟨pid, -, rfl⟩ | ⟨-, rfl⟩ | ⟨task, hpc, rfl⟩ |
    ⟨task, hpc, rfl⟩ | ⟨task, -, rfl⟩
  · exact h.setCall i (by simp) (by simp)
  · -- the task is still hashed
    refine h.setCall i ?_ (by simp)
    intro task heq
    have hnone := lookup_not_exited (GetPc.unlock.inj heq)
    refine ⟨?_, by simp [hnone]⟩
    by_contra hreaped
    exact h.exited task (by simpa using hreaped) hnone
  · exact h.setCall i (by simp) (by simp)
  · -- the read section kept the task's own reference up to here
    refine h.setCall i (by simp) ?_
    rintro task' (heq | heq)
    · obtain rfl := GetPc.alloc.inj heq
      unfold RcuSys.refs
      rw [(h.found i task hpc).1]
      simp
    · cases heq
  · refine h.setCall i ?_ ?_
    · intro task' heq
      split_ifs at heq
    · intro task' heq
      split_ifs at heq with hkmalloc
      · rcases heq with heq | heq
        · cases heq
        · obtain rfl := GetPc.get.inj heq
          exact h.gap i task (.inl hpc)
      · rcases heq with heq | heq
        · cases heq
        · cases heq
  · exact (h.getTaskStruct task).setCall i (by simp) (by simp)

theorem Guarded.exit (h : Guarded s) {task : Nat} (hnone : s.readers task = none) :
    Guarded { s with readers := Function.update s.readers task (some s.openSections) } := by
  refine ⟨?_, ?_, h.gap⟩
  · intro task' hreaped
    dsimp only
    by_cases heq : task' = task
    · subst heq
      simp
    · rw [Function.update_of_ne heq]
      exact h.exited task' hreaped
  · intro i task' hi
    refine ⟨(h.found i task' hi).1, ?_⟩
    intro rs hrs
    dsimp only at hrs
    by_cases heq : task' = task
    · subst heq
      rw [Function.update_self] at hrs
      obtain rfl := Option.some.inj hrs
      exact mem_openSections hi rfl
    · rw [Function.update_of_ne heq] at hrs
      exact (h.found i task' hi).2 rs hrs

theorem refs_reap {task : Nat} (hcan : s.canReap task = true) (task' : Nat) :
    RcuSys.refs { s with reaped := Function.update s.reaped task true } task' =
      if task' = task then s.refs task - 1 else s.refs task' := by
  have hreaped : s.reaped task = false := by
    unfold RcuSys.canReap at hcan
    simpa using (Bool.and_eq_true_iff.mp hcan).1
  unfold RcuSys.refs
  dsimp only
  by_cases heq : task' = task
  · subst heq
    simp [hreaped]
  · simp [heq]

theorem refs_putTaskStruct {task : Nat} (hheld : 0 < s.held task) (task' : Nat) :
    (s.putTaskStruct task).refs task' = if task' = task then s.refs task - 1 else s.refs task' := by
  unfold RcuSys.refs RcuSys.putTaskStruct
  dsimp only
  by_cases heq : task' = task
  · subst heq
    rw [Function.update_self, if_pos rfl]
    omega
  · rw [Function.update_of_ne heq, if_neg heq]

theorem Guarded.gap_drop (h : Guarded s) {t : RcuSys} {task : Nat} (hcalls : t.calls = s.calls)
    (hrefs : ∀ task', t.refs task' = if task' = task then s.refs task - 1 else s.refs task')
    (hlast : s.refs task = 1 → ∀ i, ¬ InGap s i task) :
    ∀ i task', InGap t i task' → 0 < t.refs task' := by
  intro i task' hi
  have hi' : InGap s i task' := by
    unfold InGap at hi ⊢
    rw [← hcalls]
    exact hi
  have hpos := h.gap i task' hi'
  rw [hrefs task']
  split_ifs with heq
  · subst heq
    have hne : s.refs task' ≠ 1 := fun hone => hlast hone i hi'
    omega
  · exact hpos

theorem Guarded.reap (h : Guarded s) {task : Nat} (hcan : s.canReap task = true)
    (hlast : s.refs task = 1 → ∀ i, ¬ InGap s i task) :
    Guarded { s with reaped := Function.update s.reaped task true } := by
  obtain ⟨rs, hrs, hclosed⟩ : ∃ rs, s.readers task = some rs ∧
      ∀ i ∈ rs, (s.calls[i]?).any GetPc.reading = false := by
    have hany := (Bool.and_eq_true_iff.mp hcan).2
    cases hrs : s.readers task with
    | none => simp [hrs] at hany
    | some rs =>
      rw [hrs] at hany
      refine ⟨rs, rfl, ?_⟩
      intro i hi
      simpa using List.all_eq_true.mp hany i hi
  refine ⟨?_, ?_, h.gap_drop rfl (refs_reap hcan) hlast⟩
  · intro task' hreaped
    dsimp only at hreaped ⊢
    by_cases heq : task' = task
    · subst heq
      simp [hrs]
    · rw [Function.update_of_ne heq] at hreaped
      exact h.exited task' hreaped
  · intro i task' hi
    dsimp only
    obtain ⟨hreaped, hmem⟩ := h.found i task' hi
    refine ⟨?_, hmem⟩
    by_cases heq : task' = task
    · -- a call that has found the task is one of those that were waited for
      subst heq
      have hopen := hclosed i (hmem rs hrs)
      rw [hi] at hopen
      cases hopen
    · rw [Function.update_of_ne heq]
      exact hreaped

theorem Guarded.step (h : Guarded s) {t : RcuSys} {e : RcuEvent} {o : Unit} (hnone : NoneInGap s e)
    (hstep : rcuStep s e = some (t, o)) : Guarded t := by
  rcases rcuStep_cases hstep with ⟨pid, rfl, rfl⟩ | ⟨i, kmalloc, rfl, hproc⟩ | ⟨task, rfl, hexit, rfl⟩ |
    ⟨task, rfl, hcan, rfl⟩ | ⟨task, rfl, rfl⟩ | ⟨task, rfl, hheld, rfl⟩
  · refine ⟨h.exited, ?_, ?_⟩
    · intro i task hi
      rcases Pool.getElem?_concat_cases hi with ⟨-, hpc⟩ | hi
      · cases hpc
      · exact h.found i task hi
    · intro i task hi
      exact h.gap i task (inGap_call hi)
  · exact h.procStep hproc
  · exact h.exit hexit
  · exact h.reap hcan fun hone => hnone task ⟨.inl rfl, hone⟩
  · exact h.getTaskStruct task
  · exact ⟨h.exited, h.found, h.gap_drop rfl (refs_putTaskStruct hheld)
      fun hone => hnone task ⟨.inr rfl, hone⟩⟩

theorem Guarded.getsLive (h : Guarded s) (e : RcuEvent) : GetsLive s e := by
  intro i kmalloc task _ hi
  exact h.gap i task (.inr hi)

/-! ### A call in the gap -/

theorem gap_reaches_get {i task : Nat} (hi : InGap s i task) (pidTask : Int → Option Nat)
    (held : Nat → Nat) :
    ∃ fs u os, (rcu pidTask held).runFrom s fs = some (u, os) ∧ u.calls[i]? = some (.get task) ∧
      u.refs = s.refs := by
  rcases hi with hi | hi
  · refine ⟨[.proc i true], s.setCall i (.get task), [()], ?_, ?_, rfl⟩
    · simp [Machine.runFrom_cons, rcu, rcuStep, RcuSys.procStep, hi]
    · obtain ⟨hlt, -⟩ := List.getElem?_eq_some_iff.mp hi
      simp [RcuSys.setCall, hlt]
  · exact ⟨[], s, [], rfl, hi, rfl⟩

theorem dropsLast_refs {t : RcuSys} {e : RcuEvent} {o : Unit} {task : Nat} (hdrop : DropsLast s e task)
    (hstep : rcuStep s e = some (t, o)) : t.refs task = 0 ∧ t.calls = s.calls := by
  obtain ⟨rfl | rfl, hone⟩ := hdrop
  · simp only [rcuStep] at hstep
    split_ifs at hstep with hcan
    obtain ⟨rfl, -⟩ := Prod.mk.inj (Option.some.inj hstep)
    refine ⟨?_, rfl⟩
    rw [refs_reap hcan, if_pos rfl, hone]
  · simp only [rcuStep] at hstep
    split_ifs at hstep with hheld
    obtain ⟨rfl, -⟩ := Prod.mk.inj (Option.some.inj hstep)
    refine ⟨?_, rfl⟩
    rw [refs_putTaskStruct hheld, if_pos rfl, hone]

end

/-! ### The result -/

theorem guarded_init (pidTask : Int → Option Nat) (held : Nat → Nat) : Guarded (rcu pidTask held).init :=
  ⟨by simp [rcu], by simp [rcu], by simp [rcu, InGap]⟩

/-- In every interleaving in which no last reference to a task is dropped while a `get_proc` that has
found it stands between `rcu_read_unlock` and `get_task_struct`, every `get_task_struct` is applied to a
task with a reference. Wherever one is dropped then, the call can go on to take a reference to the freed
task. -/
theorem get_task_struct_live (pidTask : Int → Option Nat) (held : Nat → Nat) :
    (∀ es, (rcu pidTask held).EveryStep NoneInGap es → (rcu pidTask held).EveryStep GetsLive es) ∧
    (∀ es s os e t o, (rcu pidTask held).run es = some (s, os) →
      (rcu pidTask held).step s e = some (t, o) → ¬ NoneInGap s e →
      ∃ fs u os', (rcu pidTask held).run (es ++ e :: fs) = some (u, os') ∧
        ¬ (rcu pidTask held).EveryStep GetsLive (es ++ e :: fs)) := by
  constructor
  · intro es hes pre e t os hpre hrun
    have hguarded : (rcu pidTask held).Always Guarded es :=
      Machine.always_of_everyStep (guarded_init pidTask held) (fun h hnone hstep => h.step hnone hstep) hes
    exact (hguarded pre t os ((List.prefix_append _ _).trans hpre) hrun).getsLive e
  · intro es s os e t o hrun hstep hgap
    obtain ⟨task, hdrop, i, hi⟩ : ∃ task, DropsLast s e task ∧ ∃ i, InGap s i task := by
      by_contra hnone
      apply hgap
      intro task hdrop i hi
      exact hnone ⟨task, hdrop, i, hi⟩
    obtain ⟨hzero, hcalls⟩ := dropsLast_refs hdrop hstep
    have hi' : InGap t i task := by
      unfold InGap at hi ⊢
      rw [hcalls]
      exact hi
    obtain ⟨fs, u, os', hfs, hget, hrefs⟩ := gap_reaches_get hi' pidTask held
    have hreach : (rcu pidTask held).run (es ++ e :: fs) = some (u, os ++ o :: os') :=
      (rcu pidTask held).runFrom_append_eq_some.mpr ⟨s, os, o :: os', hrun,
        (rcu pidTask held).runFrom_cons_eq_some.mpr ⟨t, o, os', hstep, hfs, rfl⟩, rfl⟩
    have hlast : (rcu pidTask held).step u (.proc i true) =
        some ((u.getTaskStruct task).setCall i (.returned (.ok task)), ()) := by
      simp [rcu, rcuStep, RcuSys.procStep, hget]
    have hassoc : es ++ e :: (fs ++ [.proc i true]) = (es ++ e :: fs) ++ [.proc i true] := by simp
    refine ⟨fs ++ [.proc i true], (u.getTaskStruct task).setCall i (.returned (.ok task)),
      os ++ o :: os' ++ [()], ?_, ?_⟩
    · rw [hassoc]
      exact (rcu pidTask held).run_concat_eq_some.mpr ⟨u, _, (), hreach, hlast, rfl⟩
    · intro hlive
      rw [hassoc, Machine.everyStep_concat] at hlive
      have hpos := hlive.2 u _ hreach i true task rfl hget
      rw [hrefs, hzero] at hpos
      exact Nat.lt_irrefl 0 hpos

/-- A call for pid `5` finds the task `1` and leaves its read section; the task exits and is reaped; the
call allocates and takes a reference. -/
def getAfterReap : List RcuEvent :=
  [.call 5, .proc 0 true, .proc 0 true, .proc 0 true, .exit 1, .reap 1, .proc 0 true] ++ [.proc 0 true]

theorem get_on_freed_task :
    ∃ s os, (rcu (fun _ => some 1) fun _ => 0).run getAfterReap = some (s, os) ∧
      ¬ (rcu (fun _ => some 1) fun _ => 0).EveryStep GetsLive getAfterReap := by
  refine ⟨_, _, rfl, ?_⟩
  intro h
  have hlast := (Machine.everyStep_concat.mp h).2 _ [(), (), (), (), (), (), ()] rfl
  exact absurd (hlast 0 true 1 rfl rfl) (by decide)

/-- The task exits while the call is in its read section, and is reaped when the call has its reference;
the last reference is dropped after the call has returned. -/
def exitOutsideGap : List RcuEvent :=
  [.call 5, .proc 0 true, .proc 0 true, .exit 1, .proc 0 true, .proc 0 true, .proc 0 true] ++
    [.reap 1] ++ [.otherPut 1]

theorem get_task_struct_live_exitOutsideGap :
    ∃ s os, (rcu (fun _ => some 1) fun _ => 0).run exitOutsideGap = some (s, os) ∧ s.refs 1 = 0 ∧
      (rcu (fun _ => some 1) fun _ => 0).EveryStep GetsLive exitOutsideGap := by
  refine ⟨_, _, rfl, rfl, ?_⟩
  apply (get_task_struct_live (fun _ => some 1) fun _ => 0).1
  unfold exitOutsideGap
  rw [Machine.everyStep_concat, Machine.everyStep_concat]
  refine ⟨⟨?_, ?_⟩, ?_⟩
  · intro pre e t os hpre _ task hdrop
    have hmem := Machine.mem_of_prefix_concat hpre
    rcases hdrop.1 with rfl | rfl
    · simp at hmem
    · simp at hmem
  · -- the reference of the call is there beside the task's own
    intro t os hrun task hdrop
    obtain ⟨rfl, -⟩ := Prod.mk.inj (Option.some.inj hrun)
    rcases hdrop.1 with he | he
    · obtain rfl := RcuEvent.reap.inj he
      exact absurd hdrop.2 (by decide)
    · cases he
  · intro t os hrun task hdrop i hi
    obtain ⟨rfl, -⟩ := Prod.mk.inj (Option.some.inj hrun)
    cases i with
    | zero => rcases hi with hi | hi <;> cases hi
    | succ i => rcases hi with hi | hi <;> cases hi

end DeviceDrivers.Timer
