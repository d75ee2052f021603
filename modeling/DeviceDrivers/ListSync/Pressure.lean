import DeviceDrivers.ListSync.Exit

/-!
# Adding without memory

`task_info_add_to_list` hands what `task_info_alloc` returns to `list_add` without a look at it. A run of
`task_info_add_to_list` and `task_info_add_for_current` is safe exactly when every add of a pid that is
new to the list gets memory (`adds_safe_iff`). `task_info_add_for_current` is the run of its four adds, so
the argument is about single adds.
-/

namespace DeviceDrivers.ListSync

variable {w : Nat}

/-- One call of `task_info_add_to_list` with the outcome of its `kmalloc`. -/
structure Add (w : Nat) where
  pid : Int
  kmalloc : Bool
  jiffies : BitVec w

def Add.run (a : Add w) (head : List (TaskInfo w)) : Option (List (TaskInfo w)) :=
  taskInfoAddToList a.pid a.kmalloc a.jiffies head

/-- A call of one of the two functions that add. -/
inductive AddCall (w : Nat)
  | addToList (a : Add w)
  | addForCurrent (current : Current) (kmalloc : Fin 4 → Bool) (jiffies : Fin 4 → BitVec w)

def AddCall.run : AddCall w → List (TaskInfo w) → Option (List (TaskInfo w))
  | .addToList a => a.run
  | .addForCurrent current kmalloc jiffies => taskInfoAddForCurrent current kmalloc jiffies

/-- The four pids in the order of their adds. -/
def Current.pids (current : Current) : List Int :=
  [current.pid, current.parent, current.next, current.nextNext]

/-- The adds of a call. -/
def AddCall.adds : AddCall w → List (Add w)
  | .addToList a => [a]
  | .addForCurrent current kmalloc jiffies =>
    current.pids.mapFinIdx fun i pid h => ⟨pid, kmalloc ⟨i, h⟩, jiffies ⟨i, h⟩⟩

/-- Adds one after another, from a list `head₀`. There is no step past an oops. -/
def adding (head₀ : List (TaskInfo w)) : Machine (List (TaskInfo w)) (Add w) Unit :=
  ⟨head₀, fun head a => (a.run head).map fun head' => (head', ())⟩

/-- Calls one after another. -/
def calling (head₀ : List (TaskInfo w)) : Machine (List (TaskInfo w)) (AddCall w) Unit :=
  ⟨head₀, fun head c => (c.run head).map fun head' => (head', ())⟩

/-- The add returns; if it needs memory and gets none it leaves the list as it was, and if the pid is in
the list it refreshes its entry. -/
def AddsSafely (head : List (TaskInfo w)) (a : Add w) : Prop :=
  ∃ head', a.run head = some head' ∧
    (a.pid ∉ pids head → a.kmalloc = false → head' = head) ∧
    ∀ i, taskInfoFindPid a.pid head = some i → head' = head.modify i (TaskInfo.refresh a.jiffies)

/-- The add finds its pid in the list, or memory. -/
def Finds (head : List (TaskInfo w)) (a : Add w) : Prop := a.pid ∈ pids head ∨ a.kmalloc

/-! ### One add -/

theorem mem_pids_of_find {pid : Int} {head : List (TaskInfo w)} {i : Nat}
    (h : taskInfoFindPid pid head = some i) : pid ∈ pids head := by
  by_contra hmem
  rw [taskInfoFindPid_eq_none.mpr hmem] at h
  cases h

theorem Add.run_cases (a : Add w) (head : List (TaskInfo w)) :
    (∃ i, taskInfoFindPid a.pid head = some i ∧
      a.run head = some (head.modify i (TaskInfo.refresh a.jiffies))) ∨
    (taskInfoFindPid a.pid head = none ∧ a.kmalloc = true ∧
      a.run head = some (⟨a.pid, a.jiffies, 0⟩ :: head)) ∨
    (taskInfoFindPid a.pid head = none ∧ a.kmalloc = false ∧ a.run head = none) := by
  unfold Add.run taskInfoAddToList addLookup taskInfoAlloc
  cases taskInfoFindPid a.pid head with
  | some i =>
    left
    exact ⟨i, rfl, rfl⟩
  | none =>
    right
    cases a.kmalloc with
    | true => exact .inl ⟨rfl, rfl, rfl⟩
    | false => exact .inr ⟨rfl, rfl, rfl⟩

theorem addsSafely_iff (head : List (TaskInfo w)) (a : Add w) : AddsSafely head a ↔ Finds head a := by
  rcases a.run_cases head with ⟨i, hfind, hrun⟩ | ⟨hfind, halloc, hrun⟩ | ⟨hfind, halloc, hrun⟩
  · have hmem : a.pid ∈ pids head := mem_pids_of_find hfind
    refine iff_of_true ⟨_, hrun, fun hnot => (hnot hmem).elim, ?_⟩ (.inl hmem)
    intro j hj
    rw [Option.some.inj (hfind.symm.trans hj)]
  · refine iff_of_true ⟨_, hrun, ?_, ?_⟩ (.inr halloc)
    · intro _ hfail
      rw [halloc] at hfail
      cases hfail
    · intro i hi
      rw [hfind] at hi
      cases hi
  · apply iff_of_false
    · rintro ⟨head', hsome, -⟩
      rw [hrun] at hsome
      cases hsome
    · rintro (hmem | hmalloc)
      · exact taskInfoFindPid_eq_none.mp hfind hmem
      · rw [halloc] at hmalloc
        cases hmalloc

theorem Add.mem_pids {a : Add w} {head head' : List (TaskInfo w)} (h : a.run head = some head') (p : Int) :
    p ∈ pids head' ↔ p ∈ pids head ∨ p = a.pid := by
  rcases a.run_cases head with ⟨i, hfind, hrun⟩ | ⟨hfind, halloc, hrun⟩ | ⟨hfind, halloc, hrun⟩
  · obtain rfl := Option.some.inj (hrun.symm.trans h)
    rw [pids_modify_refresh]
    constructor
    · exact .inl
    · rintro (hp | rfl)
      · exact hp
      · exact mem_pids_of_find hfind
  · obtain rfl := Option.some.inj (hrun.symm.trans h)
    exact List.mem_cons.trans Or.comm
  · rw [hrun] at h
    cases h

/-! ### Runs -/

theorem adding_step {head₀ head t : List (TaskInfo w)} {a : Add w} {o : Unit} :
    (adding head₀).step head a = some (t, o) ↔ a.run head = some t := by
  show (a.run head).map _ = _ ↔ _
  simp

theorem mem_pids_run {head₀ head : List (TaskInfo w)} {as : List (Add w)} {os : List Unit}
    (hrun : (adding head₀).run as = some (head, os)) (p : Int) :
    p ∈ pids head ↔ p ∈ pids head₀ ∨ p ∈ as.map Add.pid := by
  induction as using List.reverseRecOn generalizing head os with
  | nil =>
    obtain ⟨rfl, -⟩ := Prod.mk.inj (Option.some.inj hrun)
    simp [adding]
  | append_singleton as a ih =>
    obtain ⟨t, os', o, has, hlast, -⟩ := (adding head₀).run_concat_eq_some.mp hrun
    rw [Add.mem_pids (adding_step.mp hlast), ih has, List.map_append, List.mem_append, or_assoc]
    simp

/-- Every pid that is added is in the list from the start, was added before, or gets memory. -/
def NewPidsAllocate (head₀ : List (TaskInfo w)) (as : List (Add w)) : Prop :=
  ∀ pre a post, as = pre ++ a :: post →
    a.pid ∈ pids head₀ ∨ a.pid ∈ pre.map Add.pid ∨ a.kmalloc

theorem finds_possible (head₀ head : List (TaskInfo w)) (a : Add w) (h : Finds head a) :
    ((adding head₀).step head a).isSome := by
  obtain ⟨head', hrun, -⟩ := (addsSafely_iff head a).mpr h
  exact Option.isSome_iff_exists.mpr ⟨(head', ()), adding_step.mpr hrun⟩

theorem everyStep_finds_iff (head₀ : List (TaskInfo w)) (as : List (Add w)) :
    (adding head₀).EveryStep Finds as ↔ NewPidsAllocate head₀ as := by
  constructor
  · rintro h pre a post rfl
    have hpre : pre ++ [a] <+: pre ++ a :: post := ⟨post, by simp⟩
    obtain ⟨head, os, hrun⟩ :=
      (h.front (List.prefix_append _ _)).exists_run (finds_possible head₀)
    rw [← or_assoc, ← mem_pids_run hrun]
    exact h pre a head os hpre hrun
  · rintro h pre a head os ⟨post, rfl⟩ hrun
    unfold Finds
    rw [mem_pids_run hrun, or_assoc]
    exact h pre a post (by simp)

theorem adding_cons (head₀ head : List (TaskInfo w)) (a : Add w) (as : List (Add w)) :
    ((adding head₀).runFrom head (a :: as)).map Prod.fst =
      (a.run head).bind fun t => ((adding head₀).runFrom t as).map Prod.fst := by
  have hstep : (adding head₀).step head a = (a.run head).map fun t => (t, ()) := rfl
  rw [Machine.runFrom_cons, hstep]
  cases a.run head with
  | none => rfl
  | some t => simp [Function.comp_def]

theorem AddCall.run_eq (c : AddCall w) (head₀ head : List (TaskInfo w)) :
    c.run head = ((adding head₀).runFrom head c.adds).map Prod.fst := by
  cases c with
  | addToList a => simp [AddCall.run, AddCall.adds, adding_cons]
  | addForCurrent current kmalloc jiffies =>
    simp [AddCall.run, AddCall.adds, Current.pids, taskInfoAddForCurrent, adding_cons, Add.run]

theorem calling_eq_adding (head₀ head : List (TaskInfo w)) (cs : List (AddCall w)) :
    ((calling head₀).runFrom head cs).map Prod.fst =
      ((adding head₀).runFrom head (cs.flatMap AddCall.adds)).map Prod.fst := by
  induction cs generalizing head with
  | nil => rfl
  | cons c cs ih =>
    have hstep : (calling head₀).step head c = (c.run head).map fun t => (t, ()) := rfl
    rw [List.flatMap_cons, Machine.runFrom_append, Machine.runFrom_cons, hstep, c.run_eq head₀]
    cases (adding head₀).runFrom head c.adds with
    | none => rfl
    | some r => simpa [Function.comp_def] using ih r.1

theorem exists_calling_run {head₀ : List (TaskInfo w)} {cs : List (AddCall w)}
    (h : ∃ t os, (adding head₀).run (cs.flatMap AddCall.adds) = some (t, os)) :
    ∃ t os, (calling head₀).run cs = some (t, os) := by
  obtain ⟨t, os, hrun⟩ := h
  have heq : ((calling head₀).run cs).map Prod.fst = some t := by
    refine (calling_eq_adding head₀ head₀ cs).trans ?_
    exact congrArg (Option.map Prod.fst) hrun
  obtain ⟨⟨u, os'⟩, hcalls, -⟩ := Option.map_eq_some_iff.mp heq
  exact ⟨u, os', hcalls⟩

/-- Calls that add run without an oops, and leave the list alone where an allocation fails and refresh
the pids that are in the list, exactly when every add of a pid that is new to the list gets memory. -/
theorem adds_safe_iff (head₀ : List (TaskInfo w)) (cs : List (AddCall w)) :
    ((∃ head os, (calling head₀).run cs = some (head, os)) ∧
        (adding head₀).EveryStep AddsSafely (cs.flatMap AddCall.adds)) ↔
      ∀ pre a post, cs.flatMap AddCall.adds = pre ++ a :: post →
        a.pid ∈ pids head₀ ∨ a.pid ∈ pre.map Add.pid ∨ a.kmalloc := by
  have hsafe : (adding head₀).EveryStep AddsSafely (cs.flatMap AddCall.adds) ↔
      (adding head₀).EveryStep Finds (cs.flatMap AddCall.adds) :=
    Machine.everyStep_congr fun head a _ => addsSafely_iff head a
  rw [hsafe]
  refine Iff.trans ?_ (everyStep_finds_iff head₀ _)
  constructor
  · exact And.right
  · intro h
    exact ⟨exists_calling_run (h.exists_run (finds_possible head₀)), h⟩

/-- One add to the empty list without memory. -/
theorem add_without_memory :
    ¬ ((∃ head os, (calling ([] : List (TaskInfo 64))).run [.addToList ⟨1, false, 0⟩] = some (head, os)) ∧
      (adding ([] : List (TaskInfo 64))).EveryStep AddsSafely
        ([.addToList ⟨1, false, 0⟩].flatMap AddCall.adds)) := by
  rintro ⟨⟨head, os, hrun⟩, -⟩
  cases hrun

end DeviceDrivers.ListSync
