import Mathlib.Data.Nat.ModEq
import DeviceDrivers.Lib.Pool
import DeviceDrivers.ListSync.Interleave

/-!
# No add is lost

However the sections of concurrent calls interleave, the entries of a pid account for the calls that
have returned (`no_add_lost`): an entry stands for the call that linked it and for the refreshes it
counts, in the list and after it was freed. Two entries for one pid do no harm here. The invariant
carries the calls that are under way, with the pid each was called for (`calls`).
-/

namespace DeviceDrivers.ListSync

variable {w : Nat}

/-- The calls an entry stands for, if it is one of `p`. -/
def TaskInfo.weight (p : Int) (ti : TaskInfo w) : Nat :=
  if ti.pid = p then ti.count.toNat + 1 else 0

/-- The sum of `count + 1` over the entries of `p`. -/
def weight (p : Int) (l : List (TaskInfo w)) : Nat := (l.map (TaskInfo.weight p)).sum

/-- The pids that `task_info_add_to_list` was called for, in the order of the calls. -/
def addPids (es : List (ListEvent w)) : List Int :=
  es.filterMap fun e => match e with
    | .add pid _ => some pid
    | _ => none

/-- Every call with its pid. -/
def calls (es : List (ListEvent w)) (s : Sys w) : List (Int × AddPc w) := (addPids es).zip s.adds

def AddPc.isReturned : AddPc w → Bool
  | .returned => true
  | _ => false

def returnedFor (p : Int) (c : Int × AddPc w) : Bool := c.1 = p && c.2.isReturned

/-- The calls for `p` that have returned. -/
def completed (p : Int) (es : List (ListEvent w)) (s : Sys w) : Nat :=
  (calls es s).countP (returnedFor p)

@[simp] theorem returnedFor_returned (p q : Int) : returnedFor p (q, (.returned : AddPc w)) = (q = p) := by
  simp [returnedFor, AddPc.isReturned]

@[simp] theorem returnedFor_allocating (p q pid : Int) :
    returnedFor p (q, (.allocating pid : AddPc w)) = false := Bool.and_false _

@[simp] theorem returnedFor_linking (p q : Int) (ti : Option (TaskInfo w)) :
    returnedFor p (q, .linking ti) = false := Bool.and_false _

/-! ### Weights -/

theorem weight_cons (p : Int) (ti : TaskInfo w) (l : List (TaskInfo w)) :
    weight p (ti :: l) = ti.weight p + weight p l := by
  unfold weight
  rw [List.map_cons, List.sum_cons]

theorem weight_append (p : Int) (l m : List (TaskInfo w)) :
    weight p (l ++ m) = weight p l + weight p m := by
  unfold weight
  rw [List.map_append, List.sum_append]

theorem weight_perm (p : Int) {l m : List (TaskInfo w)} (h : l.Perm m) : weight p l = weight p m :=
  (h.map _).sum_eq

theorem weight_refresh (p : Int) (jiffies : BitVec w) (ti : TaskInfo w) :
    (ti.refresh jiffies).weight p ≡ ti.weight p + (if ti.pid = p then 1 else 0) [MOD 2 ^ 32] := by
  unfold TaskInfo.weight
  show (if ti.pid = p then (ti.count + 1).toNat + 1 else 0) ≡ _ [MOD 2 ^ 32]
  split_ifs with hp
  · apply Nat.ModEq.add_right
    rw [BitVec.toNat_add]
    exact Nat.mod_modEq _ _
  · exact Nat.ModEq.rfl

theorem weight_modify_refresh (p : Int) (jiffies : BitVec w) {head : List (TaskInfo w)} {i : Nat}
    {ti : TaskInfo w} (hi : head[i]? = some ti) :
    weight p (head.modify i (TaskInfo.refresh jiffies)) ≡
      weight p head + (if ti.pid = p then 1 else 0) [MOD 2 ^ 32] := by
  have hset : head.modify i (TaskInfo.refresh jiffies) = head.set i (ti.refresh jiffies) := by
    rw [List.modify_eq_set_getElem?, hi]
    rfl
  have hsum : weight p (head.set i (ti.refresh jiffies)) + ti.weight p =
      weight p head + (ti.refresh jiffies).weight p := Pool.sum_map_set (TaskInfo.weight p) hi
  rw [hset]
  apply Nat.ModEq.add_right_cancel' (ti.weight p)
  calc weight p (head.set i (ti.refresh jiffies)) + ti.weight p
      = weight p head + (ti.refresh jiffies).weight p := hsum
    _ ≡ weight p head + (ti.weight p + if ti.pid = p then 1 else 0) [MOD 2 ^ 32] :=
        (weight_refresh p jiffies ti).add_left _
    _ = weight p head + (if ti.pid = p then 1 else 0) + ti.weight p := by omega

theorem weight_addLookup (p : Int) {pid : Int} {jiffies : BitVec w} {head head' : List (TaskInfo w)}
    (h : addLookup pid jiffies head = some head') :
    weight p head' ≡ weight p head + (if pid = p then 1 else 0) [MOD 2 ^ 32] := by
  obtain ⟨i, hfind, rfl⟩ := Option.map_eq_some_iff.mp h
  obtain ⟨hlt, hpid, -⟩ := List.findIdx?_eq_some_iff_getElem.mp hfind
  have hw := weight_modify_refresh p jiffies (List.getElem?_eq_getElem hlt)
  rw [decide_eq_true_iff] at hpid
  rw [hpid] at hw
  exact hw

/-! ### Calls -/

theorem addPids_concat_add (es : List (ListEvent w)) (pid : Int) (jiffies : BitVec w) :
    addPids (es ++ [.add pid jiffies]) = addPids es ++ [pid] := by
  simp [addPids]

theorem addPids_concat (es : List (ListEvent w)) {e : ListEvent w}
    (he : ∀ pid jiffies, e ≠ .add pid jiffies) : addPids (es ++ [e]) = addPids es := by
  cases e with
  | add pid jiffies => exact (he pid jiffies rfl).elim
  | alloc i kmalloc jiffies => simp [addPids]
  | link i => simp [addPids]
  | removeExpired jiffies => simp [addPids]

/-- A call that has not returned works for the pid it was called for, and its entry is fresh. -/
def InFlight (c : Int × AddPc w) : Prop :=
  match c.2 with
  | .returned => True
  | .allocating pid => pid = c.1
  | .linking none => True
  | .linking (some ti) => ti.pid = c.1 ∧ ti.count = 0

/-- The list, the freed entries and the calls of a run belong together. -/
structure Accounted (es : List (ListEvent w)) (s : Sys w) (os : List (List (TaskInfo w))) : Prop where
  length : (addPids es).length = s.adds.length
  inFlight : ∀ c ∈ calls es s, InFlight c
  balanced : ∀ p, weight p s.head + weight p os.flatten ≡ completed p es s [MOD 2 ^ 32]

theorem accounted_nil : Accounted ([] : List (ListEvent w)) ⟨[], []⟩ [] :=
  ⟨rfl, by simp [calls, addPids], fun _ => Nat.ModEq.rfl⟩

section Step

variable {es : List (ListEvent w)} {s : Sys w} {os : List (List (TaskInfo w))}

theorem Accounted.getElem? (h : Accounted es s os) {i : Nat} {pc : AddPc w}
    (hi : s.adds[i]? = some pc) :
    ∃ q, (addPids es)[i]? = some q ∧ (calls es s)[i]? = some (q, pc) ∧ InFlight (q, pc) := by
  obtain ⟨hlt, -⟩ := List.getElem?_eq_some_iff.mp hi
  obtain ⟨q, hq⟩ : ∃ q, (addPids es)[i]? = some q := by
    apply Option.isSome_iff_exists.mp
    rw [isSome_getElem?, h.length]
    exact hlt
  have hc : (calls es s)[i]? = some (q, pc) := List.getElem?_zip_eq_some.mpr ⟨hq, hi⟩
  exact ⟨q, hq, hc, h.inFlight _ (List.mem_of_getElem? hc)⟩

theorem calls_concat_add (h : Accounted es s os) (pid : Int) (jiffies : BitVec w)
    (head : List (TaskInfo w)) (pc : AddPc w) :
    calls (es ++ [.add pid jiffies]) ⟨head, s.adds ++ [pc]⟩ = calls es s ++ [(pid, pc)] := by
  unfold calls
  rw [addPids_concat_add, List.zip_append h.length]
  rfl

theorem calls_concat_set {e : ListEvent w} (he : ∀ pid jiffies, e ≠ .add pid jiffies) {i : Nat} {q : Int}
    (hq : (addPids es)[i]? = some q) (head : List (TaskInfo w)) (pc : AddPc w) :
    calls (es ++ [e]) ⟨head, s.adds.set i pc⟩ = (calls es s).set i (q, pc) := by
  unfold calls
  rw [addPids_concat es he]
  exact Pool.zip_set hq

theorem Accounted.hit (h : Accounted es s os) {pid : Int} {jiffies : BitVec w}
    {head : List (TaskInfo w)} (hlook : addLookup pid jiffies s.head = some head) :
    Accounted (es ++ [.add pid jiffies]) ⟨head, s.adds ++ [.returned]⟩ (os ++ [[]]) := by
  have hcalls := calls_concat_add h pid jiffies head .returned
  refine ⟨?_, ?_, ?_⟩
  · rw [addPids_concat_add, List.length_append, List.length_append, h.length]
    rfl
  · rw [hcalls, List.forall_mem_append, List.forall_mem_singleton]
    exact ⟨h.inFlight, trivial⟩
  · intro p
    have hdone : completed p (es ++ [.add pid jiffies]) ⟨head, s.adds ++ [.returned]⟩ =
        completed p es s + if pid = p then 1 else 0 := by
      unfold completed
      rw [hcalls, List.countP_append, List.countP_singleton]
      simp
    rw [hdone, List.flatten_append, weight_append]
    calc weight p head + (weight p os.flatten + weight p [[]].flatten)
        = weight p head + weight p os.flatten := rfl
      _ ≡ weight p s.head + (if pid = p then 1 else 0) + weight p os.flatten [MOD 2 ^ 32] :=
          (weight_addLookup p hlook).add_right _
      _ = weight p s.head + weight p os.flatten + (if pid = p then 1 else 0) := by omega
      _ ≡ completed p es s + (if pid = p then 1 else 0) [MOD 2 ^ 32] := (h.balanced p).add_right _

theorem Accounted.miss (h : Accounted es s os) (pid : Int) (jiffies : BitVec w) :
    Accounted (es ++ [.add pid jiffies]) ⟨s.head, s.adds ++ [.allocating pid]⟩ (os ++ [[]]) := by
  have hcalls := calls_concat_add h pid jiffies s.head (.allocating pid)
  refine ⟨?_, ?_, ?_⟩
  · rw [addPids_concat_add, List.length_append, List.length_append, h.length]
    rfl
  · rw [hcalls, List.forall_mem_append, List.forall_mem_singleton]
    exact ⟨h.inFlight, rfl⟩
  · intro p
    have hdone : completed p (es ++ [.add pid jiffies]) ⟨s.head, s.adds ++ [.allocating pid]⟩ =
        completed p es s := by
      unfold completed
      rw [hcalls, List.countP_append, List.countP_singleton]
      simp
    rw [hdone, List.flatten_append, weight_append]
    exact h.balanced p

theorem Accounted.alloc (h : Accounted es s os) {i : Nat} {pid : Int}
    (hi : s.adds[i]? = some (.allocating pid)) (kmalloc : Bool) (jiffies : BitVec w) :
    Accounted (es ++ [.alloc i kmalloc jiffies])
      ⟨s.head, s.adds.set i (.linking (taskInfoAlloc pid kmalloc jiffies))⟩ (os ++ [[]]) := by
  obtain ⟨q, hq, hc, hflight⟩ := h.getElem? hi
  obtain rfl : pid = q := hflight
  have hcalls := calls_concat_set (s := s) (e := .alloc i kmalloc jiffies) (by simp) hq s.head
    (.linking (taskInfoAlloc pid kmalloc jiffies))
  refine ⟨?_, ?_, ?_⟩
  · rw [addPids_concat es (by simp), List.length_set, h.length]
  · rw [hcalls]
    apply Pool.forall_set h.inFlight
    unfold taskInfoAlloc
    split_ifs
    · exact ⟨rfl, rfl⟩
    · trivial
  · intro p
    have hdone : completed p (es ++ [.alloc i kmalloc jiffies])
        ⟨s.head, s.adds.set i (.linking (taskInfoAlloc pid kmalloc jiffies))⟩ = completed p es s := by
      unfold completed
      rw [hcalls]
      have hset := Pool.countP_set (b := (pid, AddPc.linking (taskInfoAlloc pid kmalloc jiffies)))
        (returnedFor p) hc
      simpa using hset
    rw [hdone, List.flatten_append, weight_append]
    exact h.balanced p

theorem Accounted.link (h : Accounted es s os) {i : Nat} {ti : TaskInfo w}
    (hi : s.adds[i]? = some (.linking (some ti))) :
    Accounted (es ++ [.link i]) ⟨ti :: s.head, s.adds.set i .returned⟩ (os ++ [[]]) := by
  obtain ⟨q, hq, hc, hflight⟩ := h.getElem? hi
  obtain ⟨hpid, hcount⟩ : ti.pid = q ∧ ti.count = 0 := hflight
  have hcalls := calls_concat_set (s := s) (e := .link i) (by simp) hq (ti :: s.head) .returned
  refine ⟨?_, ?_, ?_⟩
  · rw [addPids_concat es (by simp), List.length_set, h.length]
  · rw [hcalls]
    exact Pool.forall_set h.inFlight trivial
  · intro p
    have hdone : completed p (es ++ [.link i]) ⟨ti :: s.head, s.adds.set i .returned⟩ =
        ti.weight p + completed p es s := by
      unfold completed
      rw [hcalls]
      have hset := Pool.countP_set (b := (q, AddPc.returned)) (returnedFor p) hc
      have hweight : ti.weight p = if q = p then 1 else 0 := by
        unfold TaskInfo.weight
        rw [hpid, hcount]
        rfl
      rw [hweight, Nat.add_comm]
      simpa using hset
    rw [hdone, List.flatten_append, weight_append, weight_cons, Nat.add_assoc]
    exact (h.balanced p).add_left _

theorem Accounted.removeExpired (h : Accounted es s os) (HZ : Nat) (jiffies : Nat → BitVec w) :
    Accounted (es ++ [.removeExpired jiffies]) ⟨(taskInfoRemoveExpired HZ jiffies s.head).1, s.adds⟩
      (os ++ [(taskInfoRemoveExpired HZ jiffies s.head).2]) := by
  have hpids : addPids (es ++ [.removeExpired jiffies]) = addPids es := addPids_concat es (by simp)
  refine ⟨?_, ?_, ?_⟩
  · rw [hpids, h.length]
  · unfold calls
    rw [hpids]
    exact h.inFlight
  · intro p
    have hsplit := weight_perm p (taskInfoRemoveExpired_perm HZ jiffies s.head)
    rw [weight_append] at hsplit
    unfold completed calls
    rw [hpids, List.flatten_append, weight_append, List.flatten_singleton, Nat.add_left_comm,
      hsplit, Nat.add_comm]
    exact h.balanced p

theorem Accounted.step (h : Accounted es s os) {HZ : Nat} {e : ListEvent w} {t : Sys w}
    {o : List (TaskInfo w)} (hstep : (listSync w HZ).step s e = some (t, o)) :
    Accounted (es ++ [e]) t (os ++ [o]) := by
  obtain ⟨pid, jiffies, head, rfl, hlook, rfl, rfl⟩ | ⟨pid, jiffies, rfl, -, rfl, rfl⟩ |
    ⟨i, kmalloc, jiffies, pid, rfl, hi, rfl, rfl⟩ | ⟨i, ti, rfl, hi, rfl, rfl⟩ | ⟨jiffies, rfl, rfl, rfl⟩ :=
      listSyncStep_cases hstep
  · exact h.hit hlook
  · exact h.miss pid jiffies
  · exact h.alloc hi kmalloc jiffies
  · exact h.link hi
  · exact h.removeExpired HZ jiffies

end Step

theorem accounted_run {HZ : Nat} {es : List (ListEvent w)} {s : Sys w} {os : List (List (TaskInfo w))}
    (hrun : (listSync w HZ).run es = some (s, os)) : Accounted es s os := by
  induction es using List.reverseRecOn generalizing s os with
  | nil =>
    obtain ⟨rfl, rfl⟩ := Prod.mk.inj (Option.some.inj hrun)
    exact accounted_nil
  | append_singleton es e ih =>
    obtain ⟨before, os', o, hes, hlast, rfl⟩ := (listSync w HZ).run_concat_eq_some.mp hrun
    exact (ih hes).step hlast

/-- In every interleaving the entries of a pid, those in the list and those freed so far, add up to
the calls for it that have returned. -/
theorem no_add_lost (HZ : Nat) {es : List (ListEvent w)} {s : Sys w} {os : List (List (TaskInfo w))}
    (hrun : (listSync w HZ).run es = some (s, os)) (p : Int) :
    weight p s.head + weight p os.flatten ≡ completed p es s [MOD 2 ^ 32] :=
  (accounted_run hrun).balanced p

/-- The two calls of `racingAdds`, the eviction of both entries, and a third call under way. -/
def racingAddsEvicted : List (ListEvent 64) :=
  racingAdds ++ [.removeExpired fun _ => 1000, .add 7 1000]

theorem no_add_lost_racingAdds :
    ∃ s os, (listSync 64 250).run racingAddsEvicted = some (s, os) ∧ weight 7 os.flatten = 2 ∧
      weight 7 s.head + weight 7 os.flatten ≡ completed 7 racingAddsEvicted s [MOD 2 ^ 32] := by
  have hrun : (listSync 64 250).run racingAddsEvicted =
      some (⟨[], [.returned, .returned, .allocating 7]⟩,
        [[], [], [], [], [], [], [⟨7, 100, 0⟩, ⟨7, 100, 0⟩], []]) := by rfl
  exact ⟨_, _, hrun, by decide, no_add_lost 250 hrun 7⟩

end DeviceDrivers.ListSync
