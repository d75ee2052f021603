import DeviceDrivers.ListSync.Interleave
import DeviceDrivers.ListSync.Locked

/-!
# Threads under the lock, and `listSync`

`listSync` takes one section, or one allocation, as a step on a list of entries. The threads of `Locked.lean`
walk nodes, round by round. Every interleaving of their rounds is a run of `listSync`, and the record of the threads
says which one (`tell`): a section counts where it ends, with the pid of its call and the readings of its rounds, and
the threads that have missed their pid and not linked it yet are the calls that `listSync` has under way. What a
section shows where it ends is what its step does to the list of that run (`Shows`, `locked_refines_listSync`).
-/

namespace DeviceDrivers.ListSync

open ListHead RwLock

namespace OnHeap

variable {ι : Type} {w : Nat} {HZ : Nat}

/-- The steps of `listSync` that a run of the threads has made: how many of them are lookups, by each thread the number
of its last one, and the call that it is in. -/
structure Told (w : Nat) where
  events : List (ListEvent w)
  lookups : Nat
  number : Nat → Nat
  call : Nat → Option Call

def Told.nothing : Told w := ⟨[], 0, fun _ => 0, fun _ => none⟩

/-- A section of the threads is one of `listSync` where it has ended; a walk that prints leaves the list alone. -/
def Told.add (r : Told w) : AtomicEvent (Input ι w) × Option (Output ι w) → Told w
  | (.outside i (.call k), _) => { r with call := Function.update r.call i (some k) }
  | (.outside i (.kmalloc ok jiffies), _) => { r with events := r.events ++ [.alloc (r.number i) ok jiffies] }
  | (.whole i xs, some (.looked pid _)) =>
    ⟨r.events ++ [.add pid (lastReading xs)], r.lookups + 1, Function.update r.number i r.lookups, r.call⟩
  | (.whole i _, some (.linked _)) => { r with events := r.events ++ [.link (r.number i)] }
  | (.whole _ xs, some (.removed _)) => { r with events := r.events ++ [.removeExpired (readings xs)] }
  | _ => r

def tell (es : List (LockedEvent (Input ι w))) (os : List (Option (Output ι w))) : Told w :=
  (record es os).events.foldl Told.add .nothing

/-- What thread `i` shows at the end of a section with the inputs `xs` is what its call is for and what the section does
to the list of `s`: whether the pid is there, which entry is linked, which nodes are visited and freed, which lines are
printed. -/
def Shows (HZ : Nat) (s : Sys w) (r : Told w) (i : Nat) (xs : List (Input ι w)) : Output ι w → Prop
  | .looked pid found => r.call i = some (.addToList pid) ∧ (found = true ↔ pid ∈ pids s.head)
  | .linked _ => ∃ ti, r.call i = some (.addToList ti.pid) ∧ s.adds[r.number i]? = some (.linking (some ti))
  | .removed t => r.call i = some .removeExpired ∧ ∃ nodes gone : List (ι × TaskInfo w),
      nodes.map Prod.snd = s.head ∧ t.visited = nodes.map Prod.fst ∧ gone.Sublist nodes ∧
      t.freed = gone.map Prod.fst ∧
      gone.map Prod.snd = (ListSync.taskInfoRemoveExpired HZ (readings xs) s.head).2
  | .printed lines => r.call i = some .printList ∧ lines = s.head.map TaskInfo.line

/-- What `listSync` has under way for a thread. -/
def Pc.underWay : Pc ι w → Option (AddPc w)
  | .allocating pid => some (.allocating pid)
  | .linking ti => some (.linking ti)
  | _ => none

/-- The call that a thread is in, outside the lock. -/
def Pc.inCall : Pc ι w → Option Call
  | .adding pid => some (.addToList pid)
  | .allocating pid => some (.addToList pid)
  | .linking (some ti) => some (.addToList ti.pid)
  | .expiring => some .removeExpired
  | .printing => some .printList
  | _ => none

/-- The entries of the nodes are the list, and the calls under way are those of the threads. -/
structure Stands (c : Threads (Heap ι (TaskInfo w)) (Pc ι w)) (s : Sys w) (r : Told w) : Prop where
  head : ∃ nodes, Holds c.shared nodes ∧ s.head = nodes.map Prod.snd
  lookups : r.lookups = s.adds.length
  adds : ∀ i pc, (c.thread i).underWay = some pc → s.adds[r.number i]? = some pc
  distinct : ∀ i j, (c.thread i).underWay.isSome → (c.thread j).underWay.isSome → r.number i = r.number j → i = j
  call : ∀ i k, (c.thread i).inCall = some k → r.call i = some k

variable {c : Threads (Heap ι (TaskInfo w)) (Pc ι w)} {s t : Sys w} {r r' : Told w} {i : Nat}

theorem stands_first : Stands (noEntries ι w) (listSync w HZ).init .nothing := by
  refine ⟨⟨[], ⟨⟨List.nodup_nil, rfl, rfl⟩, by simp⟩, rfl⟩, rfl, ?_, ?_, ?_⟩
  · intro i pc h
    cases h
  · intro i j h
    cases h
  · intro i k h
    cases h

theorem Stands.number_lt (h : Stands c s r) (hi : (c.thread i).underWay.isSome) : r.number i < s.adds.length := by
  obtain ⟨pc, hpc⟩ := Option.isSome_iff_exists.mp hi
  exact (List.getElem?_eq_some_iff.mp (h.adds i pc hpc)).1

theorem Stands.others_concat (h : Stands c s r) (pc : AddPc w) {j : Nat} {pc' : AddPc w}
    (hj : (c.thread j).underWay = some pc') : (s.adds ++ [pc])[r.number j]? = some pc' := by
  rw [List.getElem?_append_left (h.number_lt (Option.isSome_iff_exists.mpr ⟨pc', hj⟩))]
  exact h.adds j pc' hj

theorem Stands.others_set (h : Stands c s r) (hi : (c.thread i).underWay.isSome) (pc : AddPc w) {j : Nat}
    (hji : j ≠ i) {pc' : AddPc w} (hj : (c.thread j).underWay = some pc') :
    (s.adds.set (r.number i) pc)[r.number j]? = some pc' := by
  have hne : r.number i ≠ r.number j := by
    intro heq
    exact hji (h.distinct i j hi (Option.isSome_iff_exists.mpr ⟨pc', hj⟩) heq).symm
  rw [List.getElem?_set_ne hne]
  exact h.adds j pc' hj

theorem Stands.move (h : Stands c s r) {pc : Pc ι w} {shared : Heap ι (TaskInfo w)}
    (hhead : ∃ nodes, Holds shared nodes ∧ t.head = nodes.map Prod.snd) (hlookups : r'.lookups = t.adds.length)
    (hsame : ∀ j ≠ i, r'.number j = r.number j ∧ r'.call j = r.call j)
    (hothers : ∀ j ≠ i, ∀ pc', (c.thread j).underWay = some pc' → t.adds[r.number j]? = some pc')
    (hself : ∀ pc', pc.underWay = some pc' → t.adds[r'.number i]? = some pc')
    (hapart : pc.underWay.isSome → ∀ j ≠ i, (c.thread j).underWay.isSome → r'.number i ≠ r.number j)
    (hcall : ∀ k, pc.inCall = some k → r'.call i = some k) :
    Stands ⟨shared, Function.update c.thread i pc⟩ t r' := by
  refine ⟨hhead, hlookups, ?_, ?_, ?_⟩
  · intro j pc' hj
    by_cases hji : j = i
    · subst hji
      dsimp only at hj
      rw [Function.update_self] at hj
      exact hself pc' hj
    · dsimp only at hj
      rw [Function.update_of_ne hji] at hj
      rw [(hsame j hji).1]
      exact hothers j hji pc' hj
  · intro j k hj hk heq
    dsimp only at hj hk
    by_cases hji : j = i
    · by_cases hki : k = i
      · rw [hji, hki]
      · subst hji
        rw [Function.update_self] at hj
        rw [Function.update_of_ne hki] at hk
        rw [(hsame k hki).1] at heq
        exact (hapart hj k hki hk heq).elim
    · rw [Function.update_of_ne hji] at hj
      by_cases hki : k = i
      · subst hki
        rw [Function.update_self] at hk
        rw [(hsame j hji).1] at heq
        exact (hapart hk j hji hj heq.symm).elim
      · rw [Function.update_of_ne hki] at hk
        rw [(hsame j hji).1, (hsame k hki).1] at heq
        exact h.distinct j k hj hk heq
  · intro j k hj
    by_cases hji : j = i
    · subst hji
      dsimp only at hj
      rw [Function.update_self] at hj
      exact hcall k hj
    · dsimp only at hj
      rw [Function.update_of_ne hji] at hj
      rw [(hsame j hji).2]
      exact h.call j k hj

/-! ### One step -/

theorem runFrom_one {e : ListEvent w} {o : List (TaskInfo w)} (h : listSyncStep HZ s e = some (t, o)) :
    (listSync w HZ).runFrom s [e] = some (t, [o]) := by
  have hstep : (listSync w HZ).step s e = some (t, o) := h
  simp [Machine.runFrom_cons, hstep]

theorem Stands.returns (h : Stands c s r) {shared : Heap ι (TaskInfo w)}
    (hhead : ∃ nodes, Holds shared nodes ∧ t.head = nodes.map Prod.snd) (hlookups : r'.lookups = t.adds.length)
    (hsame : ∀ j ≠ i, r'.number j = r.number j ∧ r'.call j = r.call j)
    (hothers : ∀ j ≠ i, ∀ pc', (c.thread j).underWay = some pc' → t.adds[r.number j]? = some pc') :
    Stands ⟨shared, Function.update c.thread i .idle⟩ t r' := by
  refine h.move hhead hlookups hsame hothers ?_ ?_ ?_
  · intro pc' hpc'
    cases hpc'
  · intro hsome
    cases hsome
  · intro k hk
    cases hk

theorem mem_pids_iff {nodes : List (ι × TaskInfo w)} {pid : Int} :
    pid ∉ pids (nodes.map Prod.snd) ↔ ∀ x ∈ nodes, x.2.pid ≠ pid := by
  unfold pids
  rw [List.map_map, List.mem_map]
  constructor
  · intro h x hx heq
    exact h ⟨x, hx, heq⟩
  · rintro h ⟨x, hx, heq⟩
    exact h x hx heq

theorem addLookup_hit {pid : Int} {jiffies : BitVec w} {pre rest : List (TaskInfo w)} {ti : TaskInfo w}
    (hpre : ∀ x ∈ pre, x.pid ≠ pid) (hti : ti.pid = pid) :
    addLookup pid jiffies (pre ++ ti :: rest) = some (pre ++ ti.refresh jiffies :: rest) := by
  have hadd : ListSync.taskInfoAddToList pid false jiffies (pre ++ ti :: rest) =
      some (pre ++ ti.refresh jiffies :: rest) := taskInfoAddToList_hit false hpre hti
  unfold ListSync.taskInfoAddToList at hadd
  cases hlook : addLookup pid jiffies (pre ++ ti :: rest) with
  | some head => rwa [hlook] at hadd
  | none =>
    rw [hlook] at hadd
    cases hadd

/-- What a step of the threads is for `listSync`: the events that are told of it lead on from `s`. -/
def Leads (HZ : Nat) (s : Sys w) (r : Told w) (c' : Threads (Heap ι (TaskInfo w)) (Pc ι w)) (r' : Told w) : Prop :=
  ∃ es t los, r'.events = r.events ++ es ∧ (listSync w HZ).runFrom s es = some (t, los) ∧ Stands c' t r'

theorem Stands.outside (h : Stands c s r) {x : Input ι w} {pc : Pc ι w} (hstep : outsideStep (c.thread i) x = some pc) :
    Leads HZ s r ⟨c.shared, Function.update c.thread i pc⟩ (r.add (.outside i x, (none : Option (Output ι w)))) := by
  cases hpc : c.thread i with
  | idle =>
    rw [hpc] at hstep
    cases x with
    | call k =>
      have hunder : pc.underWay = none ∧ ∀ k', pc.inCall = some k' → k' = k := by
        cases k <;> (obtain rfl := Option.some.inj hstep; exact ⟨rfl, fun k' hk => (Option.some.inj hk).symm⟩)
      refine ⟨[], s, [], (List.append_nil _).symm, rfl, h.move h.head h.lookups ?_ ?_ ?_ ?_ ?_⟩
      · intro j hji
        exact ⟨rfl, Function.update_of_ne hji _ _⟩
      · intro j _ pc' hj
        exact h.adds j pc' hj
      · intro pc' hpc'
        rw [hunder.1] at hpc'
        cases hpc'
      · intro hsome
        rw [hunder.1] at hsome
        cases hsome
      · intro k' hk'
        obtain rfl := hunder.2 k' hk'
        exact Function.update_self _ _ _
    | _ => cases hstep
  | allocating pid =>
    rw [hpc] at hstep
    cases x with
    | kmalloc ok jiffies =>
      obtain rfl := Option.some.inj hstep
      have hunder : (c.thread i).underWay = some (.allocating pid) := by rw [hpc]; rfl
      have hsome : (c.thread i).underWay.isSome := by rw [hunder]; rfl
      have hadd := h.adds i _ hunder
      refine ⟨[.alloc (r.number i) ok jiffies], ⟨s.head, s.adds.set (r.number i) (.linking (taskInfoAlloc pid ok
        jiffies))⟩, [[]], rfl, runFrom_one ?_, h.move h.head ?_ (fun _ _ => ⟨rfl, rfl⟩) ?_ ?_ ?_ ?_⟩
      · simp only [listSyncStep, hadd]
      · rw [List.length_set]
        exact h.lookups
      · intro j hji pc' hj
        exact h.others_set hsome _ hji hj
      · intro pc' hpc'
        obtain rfl := Option.some.inj hpc'
        exact List.getElem?_set_self (h.number_lt hsome)
      · intro _ j hji hj heq
        exact hji (h.distinct i j hsome hj heq).symm
      · intro k hk
        have hcall := h.call i (.addToList pid) (by rw [hpc]; rfl)
        cases ok with
        | false => cases hk
        | true =>
          obtain rfl := Option.some.inj hk
          exact hcall
    | _ => cases hstep
  | _ =>
    rw [hpc] at hstep
    cases x <;> cases hstep

theorem Stands.whole (h : Stands c s r) {nodes : List (ι × TaskInfo w)} (hholds : Holds c.shared nodes)
    (hhead : s.head = nodes.map Prod.snd) {xs : List (Input ι w)} {pc : Pc ι w} (hpc : c.thread i = pc)
    {shared : Heap ι (TaskInfo w)} {pc' : Pc ι w} {o : Output ι w}
    (hends : Ends HZ c.shared nodes xs pc shared pc' o) :
    Leads HZ s r ⟨shared, Function.update c.thread i pc'⟩ (r.add (.whole i xs, some o)) ∧ Shows HZ s r i xs o := by
  have hcall : ∀ k, pc.inCall = some k → r.call i = some k := by
    intro k hk
    exact h.call i k (by rw [hpc]; exact hk)
  cases hends with
  | @miss pid hmiss =>
    have hnot : pid ∉ pids s.head := by
      rw [hhead]
      exact mem_pids_iff.mpr hmiss
    have hfind : addLookup pid (lastReading xs) s.head = none := by
      unfold addLookup
      rw [taskInfoFindPid_eq_none.mpr hnot]
      rfl
    refine ⟨⟨[.add pid (lastReading xs)], ⟨s.head, s.adds ++ [.allocating pid]⟩, [[]], rfl, runFrom_one ?_,
      h.move h.head ?_ ?_ ?_ ?_ ?_ ?_⟩, hcall _ rfl, by simp [hnot]⟩
    · simp only [listSyncStep, hfind]
    · simp [Told.add, h.lookups]
    · intro j hji
      exact ⟨Function.update_of_ne hji _ _, rfl⟩
    · intro j _ pc' hj
      exact h.others_concat _ hj
    · intro pc' hpc'
      obtain rfl := Option.some.inj hpc'
      simp only [Told.add, Function.update_self]
      rw [h.lookups]
      exact List.getElem?_concat_length
    · intro _ j _ hj heq
      simp only [Told.add, Function.update_self] at heq
      exact absurd (heq.symm.trans h.lookups) (Nat.ne_of_lt (h.number_lt hj))
    · intro k hk
      obtain rfl := Option.some.inj hk
      exact hcall _ rfl
  | @hit pid pre rest j ti _ hnodes hpre hti hholds' =>
    have hlook : addLookup pid (lastReading xs) s.head =
        some ((pre ++ (j, ti.refresh (lastReading xs)) :: rest).map Prod.snd) := by
      rw [hhead, hnodes, List.map_append, List.map_append, List.map_cons, List.map_cons]
      refine addLookup_hit ?_ hti
      intro x hx
      obtain ⟨y, hy, rfl⟩ := List.mem_map.mp hx
      exact hpre y hy
    have hmem : pid ∈ pids s.head := by
      rw [hhead, hnodes, ← hti]
      simp [pids]
    refine ⟨⟨[.add pid (lastReading xs)], ⟨_, s.adds ++ [.returned]⟩, [[]], rfl, runFrom_one ?_,
      h.returns ⟨_, hholds', rfl⟩ ?_ ?_ ?_⟩, hcall _ rfl, by simp [hmem]⟩
    · simp only [listSyncStep, hlook]
    · simp [Told.add, h.lookups]
    · intro k hki
      exact ⟨Function.update_of_ne hki _ _, rfl⟩
    · intro k _ pc' hk
      exact h.others_concat _ hk
  | @linked ti new _ hholds' =>
    have hunder : (c.thread i).underWay = some (.linking (some ti)) := by rw [hpc]; rfl
    have hsome : (c.thread i).underWay.isSome := by rw [hunder]; rfl
    have hadd := h.adds i _ hunder
    refine ⟨⟨[.link (r.number i)], ⟨ti :: s.head, s.adds.set (r.number i) .returned⟩, [[]], rfl, runFrom_one ?_,
      h.returns ⟨_, hholds', by simp [hhead]⟩ ?_ (fun _ _ => ⟨rfl, rfl⟩) ?_⟩, ti, hcall _ rfl, hadd⟩
    · simp [listSyncStep, hadd, addLink]
    · rw [List.length_set]
      exact h.lookups
    · intro k hki pc'' hk
      exact h.others_set hsome _ hki hk
  | @removed _ hholds' =>
    have hremove := taskInfoRemoveExpired_eq HZ (readings xs) nodes
    rw [← hhead] at hremove
    refine ⟨⟨[.removeExpired (readings xs)], ⟨(ListSync.taskInfoRemoveExpired HZ (readings xs) s.head).1, s.adds⟩,
      [(ListSync.taskInfoRemoveExpired HZ (readings xs) s.head).2], rfl, runFrom_one rfl,
      h.returns ⟨_, hholds', ?_⟩ h.lookups (fun _ _ => ⟨rfl, rfl⟩) ?_⟩, hcall _ rfl,
      nodes, evicted (expiredAt HZ (readings xs)) nodes, hhead.symm, rfl, evicted_sublist _ nodes, rfl, ?_⟩
    · rw [hremove]
      rfl
    · intro k _ pc' hk
      exact h.adds k pc' hk
    · rw [hremove]
      rfl
  | printed =>
    refine ⟨⟨[], s, [], (List.append_nil _).symm, rfl, h.returns ⟨nodes, hholds, hhead⟩ h.lookups
      (fun _ _ => ⟨rfl, rfl⟩) ?_⟩, hcall _ rfl, ?_⟩
    · intro k _ pc' hk
      exact h.adds k pc' hk
    · rw [hhead, List.map_map]
      rfl

variable [DecidableEq ι]

theorem Stands.wholeStep (h : Stands c s r) {xs : List (Input ι w)} {c' : Threads (Heap ι (TaskInfo w)) (Pc ι w)}
    {o : Option (Output ι w)} (hstep : (program ι w HZ).atomicStep c (.whole i xs) = some (c', o)) :
    Leads HZ s r c' (r.add (.whole i xs, o)) ∧ ∀ out, o = some out → Shows HZ s r i xs out := by
  obtain ⟨nodes, hholds, hhead⟩ := h.head
  obtain ⟨⟨m, pc₀⟩, henter, hmap⟩ := Option.bind_eq_some_iff.mp hstep
  obtain ⟨⟨h', pc', out⟩, hrounds, heq⟩ := Option.map_eq_some_iff.mp hmap
  obtain ⟨rfl, rfl⟩ := Prod.mk.inj heq
  obtain ⟨hleads, hshows⟩ := h.whole hholds hhead rfl (ends_of_rounds hholds henter hrounds)
  refine ⟨hleads, ?_⟩
  intro out' hout
  obtain rfl := Option.some.inj hout
  exact hshows

theorem Stands.step (h : Stands c s r) {e : AtomicEvent (Input ι w)} {c' : Threads (Heap ι (TaskInfo w)) (Pc ι w)}
    {o : Option (Output ι w)} (hstep : (program ι w HZ).atomicStep c e = some (c', o)) :
    Leads HZ s r c' (r.add (e, o)) := by
  cases e with
  | outside i x =>
    obtain ⟨pc, houtside, heq⟩ := Option.map_eq_some_iff.mp hstep
    obtain ⟨rfl, rfl⟩ := Prod.mk.inj heq
    exact h.outside houtside
  | whole i xs => exact (h.wholeStep hstep).1

/-! ### Runs -/

theorem atomic_refines {cs : List (AtomicEvent (Input ι w) × Option (Output ι w))}
    (hrun : ((program ι w HZ).atomic (noEntries ι w)).run (cs.map Prod.fst) = some (c, cs.map Prod.snd)) :
    ∃ t los, (listSync w HZ).run (cs.foldl Told.add .nothing).events = some (t, los) ∧
      Stands c t (cs.foldl Told.add .nothing) := by
  induction cs using List.reverseRecOn generalizing c with
  | nil =>
    obtain ⟨rfl, -⟩ := Prod.mk.inj (Option.some.inj hrun)
    exact ⟨_, [], rfl, stands_first⟩
  | append_singleton cs e ih =>
    rw [List.map_append, List.map_append] at hrun
    obtain ⟨c₀, cos, o, hpre, hstep, houts⟩ := Machine.run_concat_eq_some _ |>.mp hrun
    obtain ⟨rfl, ho⟩ := List.append_inj' houts rfl
    obtain rfl := (List.singleton_inj.mp ho).symm
    obtain ⟨t, los, hls, hstands⟩ := ih hpre
    obtain ⟨es, u, os, hevents, hes, hstands'⟩ := hstands.step hstep
    rw [List.foldl_append]
    refine ⟨u, los ++ os, ?_, hstands'⟩
    show (listSync w HZ).run ((cs.foldl Told.add .nothing).add e).events = _
    rw [hevents]
    exact (listSync w HZ).runFrom_append_eq_some.mpr ⟨t, los, os, hls, hes, rfl⟩

/-- Every interleaving of the rounds of the threads is the run of `listSync` that their record tells: whenever no thread
writes, the nodes form the ring of its list, and a section that ends shows what it does to that list, the walk of
`task_info_print_list` entry for entry. -/
theorem locked_refines_listSync {es : List (LockedEvent (Input ι w))}
    {s : Locked (Heap ι (TaskInfo w)) (Pc ι w)} {os : List (Option (Output ι w))}
    (hrun : (threads ι w HZ).run es = some (s, os)) :
    ∃ t los, (listSync w HZ).run (tell es os).events = some (t, los) ∧
      (s.holders.writer = none → ∃ nodes, Holds s.shared nodes ∧ t.head = nodes.map Prod.snd) ∧
      ∀ i x s' o, (threads ι w HZ).step s (.round i x) = some (s', some o) →
        Shows HZ t (tell es os) i ((record es os).inputs i ++ [x]) o := by
  obtain ⟨c, hatomic, hfollows, -⟩ := run_atomic hrun
  obtain ⟨t, los, hls, hstands⟩ := atomic_refines hatomic
  refine ⟨t, los, hls, ?_, ?_⟩
  · intro hfree
    rw [hfollows.shared hfree]
    exact hstands.head
  · intro i x s' o hstep
    rw [round_step] at hstep
    obtain ⟨m, hi, hmap⟩ := Option.bind_eq_some_iff.mp hstep
    obtain ⟨⟨shared, pc, out⟩, hround, heq⟩ := Option.map_eq_some_iff.mp hmap
    obtain ⟨-, rfl⟩ := Prod.mk.inj heq
    obtain ⟨pc₀, henter, hrounds⟩ := hfollows.lastRound hi hround
    have hwhole : (program ι w HZ).atomicStep c (.whole i ((record es os).inputs i ++ [x])) =
        some (⟨shared, Function.update c.thread i pc⟩, some o) := by
      simp [Program.atomicStep, henter, hrounds]
    exact (hstands.wholeStep hwhole).2 o rfl

/-- An entry is linked and a thread walks past it to print it, while another one waits to remove it. -/
def printsFirst : List (LockedEvent (Input Nat 64)) :=
  [.outside 0 (.call (.addToList 7)), .enter 0, .round 0 (.round 5), .round 0 (.round 5),
    .outside 0 (.kmalloc true 6), .enter 0, .round 0 (.node 3 ⟨.poison1, .poison2⟩),
    .outside 1 (.call .printList), .outside 2 (.call .removeExpired), .enter 1, .round 1 (.round 900),
    .round 1 (.round 900)]

/-- The run of `listSync` that is told of it, and what the end of the walk shows in it. -/
theorem locked_refines_listSync_printsFirst :
    ∃ s os t los, (threads Nat 64 250).run printsFirst = some (s, os) ∧
      (tell printsFirst os).events = [.add 7 5, .alloc 0 true 6, .link 0] ∧
      (listSync 64 250).run (tell printsFirst os).events = some (t, los) ∧
      Shows 250 t (tell printsFirst os) 1 [.round 900, .round 900, .round 901] (.printed [(7, 6)] : Output Nat 64) := by
  obtain ⟨s, os, hrun, s', hstep, htold, hinputs⟩ : ∃ s os, (threads Nat 64 250).run printsFirst = some (s, os) ∧
      ∃ s', (threads Nat 64 250).step s (.round 1 (.round 901)) = some (s', some (.printed [(7, 6)])) ∧
      (tell printsFirst os).events = [.add 7 5, .alloc 0 true 6, .link 0] ∧
      (record printsFirst os).inputs 1 = [.round 900, .round 900] := ⟨_, _, rfl, _, rfl, rfl, rfl⟩
  obtain ⟨t, los, hls, -, hshows⟩ := locked_refines_listSync hrun
  have hprinted := hshows 1 (.round 901) s' _ hstep
  rw [hinputs] at hprinted
  exact ⟨s, os, t, los, hrun, htold, hls, hprinted⟩

end OnHeap

end DeviceDrivers.ListSync
