import DeviceDrivers.ListSync.Locked

/-!
# The sections of `list-sync.c` end

A section on the lock walks the ring at most once. Whatever the other threads do meanwhile, a thread that has taken the
lock has not ended its section after at most one round more than there were entries when it took it, and its next round
is possible (`section_ends`): no loop over the list runs on for ever. The section that links the `NULL` of a failed
`kmalloc` is apart. It makes no round and keeps the lock for good.
-/

namespace DeviceDrivers.ListSync

open ListHead RwLock

namespace OnHeap

variable {ι : Type} {w : Nat} [DecidableEq ι] {HZ i : Nat} {es : List (LockedEvent (Input ι w))}
  {s : Locked (Heap ι (TaskInfo w)) (Pc ι w)} {os : List (Option (Output ι w))}

theorem run_enter (hrun : (threads ι w HZ).run (es ++ [.enter i]) = some (s, os)) :
    (∃ nodes, Holds s.shared nodes) ∧ s.holders.Exclusive ∧
      ∃ pc m, enterSection pc = some (m, s.thread i) ∧ s.holders.modeOf i = some m := by
  obtain ⟨u, os', o, hpre, hstep, -⟩ := (threads ι w HZ).run_concat_eq_some.mp hrun
  obtain ⟨c, hatomic, hfollows, -⟩ := run_atomic hpre
  obtain ⟨nodes, hholds⟩ := (atomic_holds ι w HZ).run hatomic
  replace hstep : (program ι w HZ).lockedStep u (.enter i) = some (s, o) := hstep
  simp only [Program.lockedStep] at hstep
  split_ifs at hstep with hout
  obtain ⟨⟨m, pc₀⟩, henter, hmap⟩ := Option.bind_eq_some_iff.mp hstep
  obtain ⟨holders, htake, heq⟩ := Option.map_eq_some_iff.mp hmap
  obtain ⟨rfl, -⟩ := Prod.mk.inj heq
  have hfree : u.holders.writer = none := by
    cases m with
    | read => exact (Holders.take_read htake).1
    | write => exact (Holders.take_write htake).1
  refine ⟨⟨nodes, ?_⟩, Holders.exclusive_of_take htake, u.thread i, m, ?_, Holders.modeOf_take_self htake⟩
  · rw [← hfollows.shared hfree] at hholds
    exact hholds
  · dsimp only
    rw [Function.update_self]
    exact henter

omit [DecidableEq ι] in
theorem exists_fits {h : Heap ι (TaskInfo w)} {pc : Pc ι w} {m : Mode} (hmode : pc.mode = some m)
    (hfree : ∃ new, h.next (.node new) = none) : ∃ x, Fits h pc x := by
  cases pc with
  | inLink ti =>
    obtain ⟨new, hnew⟩ := hfree
    exact ⟨.node new ⟨.head, .head⟩, hnew⟩
  | looking pid p => exact ⟨.round 0, trivial⟩
  | removing walk t => exact ⟨.round 0, trivial⟩
  | walking p lines => exact ⟨.round 0, trivial⟩
  | _ => cases hmode

theorem midway_rounds {nodes : List (ι × TaskInfo w)} (hholds : Holds s.shared nodes) (hx : s.holders.Exclusive)
    {pc : Pc ι w} {m : Mode} (henter : enterSection pc = some (m, s.thread i)) (hi : s.holders.modeOf i = some m)
    (hnull : s.thread i ≠ .inLink none) {fs : List (LockedEvent (Input ι w))}
    {t : Locked (Heap ι (TaskInfo w)) (Pc ι w)} {os' : List (Option (Output ι w))}
    (hfs : (threads ι w HZ).runFrom s fs = some (t, os')) (hon : ∀ x o, (.round i x, some o) ∉ fs.zip os') :
    (fs.filterMap (LockedEvent.roundOf i)).length ≤ nodes.length + 1 ∧
      (∀ x, Fits t.shared (t.thread i) x → ((threads ι w HZ).step t (.round i x)).isSome) ∧
      ((∃ new, t.shared.next (.node new) = none) → ∃ x, Fits t.shared (t.thread i) x) := by
  obtain ⟨-, hti, hongoing⟩ := (program ι w HZ).ongoing_of_runFrom hx hi hfs hon
  obtain ⟨hmid, hbefore, hmode⟩ := midway_of_ongoing hholds henter hongoing
  refine ⟨hmid.length_le, ?_, exists_fits hmode⟩
  intro x hfits
  have hnull' : t.thread i ≠ .inLink none := by
    intro heq
    -- the thread would have entered with it
    have hpc : pc = .linking none := by rw [← hbefore, heq]; rfl
    rw [hpc] at henter
    exact hnull (Prod.mk.inj (Option.some.inj henter)).2.symm
  obtain ⟨r, hround, -⟩ := hmid.goes hholds hmode hnull' hfits
  rw [round_step, hti, Option.bind_some, hround]
  rfl

theorem null_keeps_lock (hx : s.holders.Exclusive) (hi : s.holders.modeOf i = some .write)
    (hnull : s.thread i = .inLink none) {fs : List (LockedEvent (Input ι w))}
    {t : Locked (Heap ι (TaskInfo w)) (Pc ι w)} {os' : List (Option (Output ι w))}
    (hfs : (threads ι w HZ).runFrom s fs = some (t, os')) :
    t.holders.Exclusive ∧ t.holders.modeOf i = some .write ∧ t.thread i = .inLink none := by
  induction fs using List.reverseRecOn generalizing t os' with
  | nil =>
    obtain ⟨rfl, -⟩ := Prod.mk.inj (Option.some.inj hfs)
    exact ⟨hx, hi, hnull⟩
  | append_singleton fs e ih =>
    obtain ⟨u, us, o, hpre, hstep, -⟩ := (threads ι w HZ).runFrom_concat_eq_some.mp hfs
    obtain ⟨hu, hui, hunull⟩ := ih hpre
    rcases (program ι w HZ).lockedStep_inside hu hui hstep with ⟨-, hx', hi', -, hthread⟩ | ⟨x, -, hround, -⟩
    · exact ⟨hx', hi', hthread.trans hunull⟩
    · rw [hunull, round_null] at hround
      cases hround

/-- A thread that takes the lock finds the nodes in a ring. Unless it comes to link the `NULL` of a failed `kmalloc`,
it gives the lock back with the round that is two more than the ring has nodes at the latest, however the others go on,
and each round up to that one is possible. With the `NULL` it never gives the lock back. -/
theorem section_ends (hrun : (threads ι w HZ).run (es ++ [.enter i]) = some (s, os)) :
    (∃ nodes, Holds s.shared nodes) ∧
    (s.thread i ≠ .inLink none → ∀ nodes, Holds s.shared nodes → ∀ fs t os',
      (threads ι w HZ).runFrom s fs = some (t, os') → (∀ x o, (.round i x, some o) ∉ fs.zip os') →
      (fs.filterMap (LockedEvent.roundOf i)).length ≤ nodes.length + 1 ∧
        (∀ x, Fits t.shared (t.thread i) x → ((threads ι w HZ).step t (.round i x)).isSome) ∧
        ((∃ new, t.shared.next (.node new) = none) → ∃ x, Fits t.shared (t.thread i) x)) ∧
    (s.thread i = .inLink none → ∀ fs t os', (threads ι w HZ).runFrom s fs = some (t, os') →
      t.holders.writer = some i) := by
  obtain ⟨hring, hx, pc, m, henter, hi⟩ := run_enter hrun
  refine ⟨hring, ?_, ?_⟩
  · intro hnull nodes hholds fs t os' hfs hon
    exact midway_rounds hholds hx henter hi hnull hfs hon
  · intro hnull fs t os' hfs
    have hmode : m = .write := by
      obtain ⟨-, -, hmode⟩ := @midway_of_enter _ _ _ HZ s.shared [] _ _ _ henter
      rw [hnull] at hmode
      exact (Option.some.inj hmode).symm
    subst hmode
    exact Holders.writer_of_write (null_keeps_lock hx hi hnull hfs).2.1

/-- The first of the threads that print reads the entry, while the second one comes in. -/
def readEntry : List (LockedEvent (Input Nat 64)) := [.round 1 (.round 8), .enter 2, .round 1 (.round 8)]

/-- It has made as many rounds as it can without giving the lock back, and makes the last one. -/
theorem section_ends_readEntry :
    ∃ s os t os', (threads Nat 64 250).run (twoPrint.take 9 ++ [.enter 1]) = some (s, os) ∧
      (threads Nat 64 250).runFrom s readEntry = some (t, os') ∧
      ((threads Nat 64 250).step t (.round 1 (.round 9))).isSome := by
  refine ⟨_, _, _, _, rfl, rfl, ?_⟩
  refine ((@section_ends Nat 64 _ 250 1 (twoPrint.take 9) _ _ rfl).2.1 ?_ [(3, ⟨7, 6, 0⟩)] ?_ readEntry _ _ rfl
    ?_).2.1 (.round 9) trivial
  · intro h
    cases h
  · exact ⟨⟨by decide, ⟨⟨rfl, rfl⟩, rfl, rfl⟩⟩, by rw [List.forall_mem_singleton]; rfl⟩
  · intro x o h
    simp [readEntry] at h

end OnHeap

end DeviceDrivers.ListSync
