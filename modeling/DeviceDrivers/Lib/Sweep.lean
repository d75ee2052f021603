import DeviceDrivers.Lib.ListHead

/-!
# A heap that holds one list

The nodes of a list, and nothing else: a heap `Stores` a list of nodes if they form its ring and no other node is
live. A node that is taken off the list and not freed, or freed and left on the list, would break that.

* `Stores.push`, `Stores.add` : a new node in front;
* `Stores.sweep`, `Stores.purge` : a `list_for_each_safe` that frees some of the nodes it comes to, or all of them;
* `Stores.forEach`, `Stores.forEachSafeFind` : walks that only read.
-/

namespace ListHead

variable {ι α β : Type}

/-- `INIT_LIST_HEAD` -/
def Heap.initListHead [DecidableEq ι] (h : Heap ι α) (p : Ptr ι) : Option (Heap ι α) := do
  let h ← h.setNext p p
  h.setPrev p p

/-- `list_del` and `kfree` of one node. -/
def Heap.discard [DecidableEq ι] (h : Heap ι α) (i : ι) : Option (Heap ι α) := do
  let h ← h.listDel i
  h.kfree i

/-- A loop body that discards its node. -/
def discardNode [DecidableEq ι] (i : ι) (h : Heap ι α) (_ : Unit) : Option (Heap ι α × Unit) :=
  (h.discard i).map fun h => (h, ())

/-- `list_for_each` from `pos` on. -/
def forEach (visit : β → α → β) (h : Heap ι α) : Nat → Ptr ι → β → Option β
  | 0, _, _ => none
  | _ + 1, .head, b => some b
  | fuel + 1, .node i, b => do
    let a ← h.payload i
    let n ← h.next (.node i)
    forEach visit h fuel n (visit b a)
  | _ + 1, _, _ => none

/-- `list_for_each`, with a body that reads the entry it is at. -/
def listForEach (visit : β → α → β) (fuel : Nat) (h : Heap ι α) (b : β) : Option β := do
  let pos ← h.next .head
  forEach visit h fuel pos b

/-- `list_for_each_safe` from `pos` on, with `n` saved, up to the first node that passes the test. -/
def forEachSafeFind (test : α → Bool) (h : Heap ι α) : Nat → Ptr ι → Ptr ι → Option (Option ι)
  | 0, _, _ => none
  | _ + 1, .head, _ => some none
  | fuel + 1, .node i, n => do
    let a ← h.payload i
    if test a then some (some i)
    else
      let n' ← h.next n
      forEachSafeFind test h fuel n n'
  | _ + 1, _, _ => none

def listForEachSafeFind (test : α → Bool) (fuel : Nat) (h : Heap ι α) : Option (Option ι) := do
  let pos ← h.next .head
  let n ← h.next pos
  forEachSafeFind test h fuel pos n

/-- The ring of these nodes, each with its payload, and no other live node. -/
structure Stores (h : Heap ι α) (nodes : List (ι × α)) : Prop where
  ring : Ring h (nodes.map Prod.fst)
  payload : ∀ x ∈ nodes, h.payload x.1 = some x.2
  only : ∀ i, i ∉ nodes.map Prod.fst → h.payload i = none

/-- The nodes that a loop keeps, if what it has seen and the payload decide. -/
def sweep (evict : β → α → Bool) (visit : β → α → β) : β → List (ι × α) → List (ι × α)
  | _, [] => []
  | b, x :: nodes =>
    if evict b x.2 then sweep evict visit (visit b x.2) nodes
    else x :: sweep evict visit (visit b x.2) nodes

/-- The body discards its node or passes it, as `evict` says. -/
def Sweeps [DecidableEq ι] (evict : β → α → Bool) (visit : β → α → β)
    (body : ι → Heap ι α → β → Option (Heap ι α × β)) : Prop :=
  ∀ i h b a, h.payload i = some a →
    body i h b = if evict b a then (h.discard i).map fun h => (h, visit b a) else some (h, visit b a)

/-! ### Nodes that are not live -/

section Live

variable {h : Heap ι α} {i : ι}

theorem Heap.payload_eq_none_iff : h.payload i = none ↔ h.get i = none := Option.map_eq_none_iff

theorem Heap.next_eq_none_iff : h.next (.node i) = none ↔ h.payload i = none := by
  show ((h.get i).map Node.links).map Links.next = none ↔ (h.get i).map Node.payload = none
  rw [Option.map_eq_none_iff, Option.map_eq_none_iff, Option.map_eq_none_iff]

theorem Stores.get_eq_none (hs : Stores h []) (i : ι) : h.get i = none :=
  Heap.payload_eq_none_iff.mp (hs.only i (by simp))

end Live

/-! ### One node more, one node less -/

section Node

variable [DecidableEq ι] {h : Heap ι α} {i : ι} {a : α} {nodes kept todo : List (ι × α)}

theorem Heap.initListHead_spec {p x y : Ptr ι} (hnext : h.next p = some x) (hprev : h.prev p = some y) :
    ∃ h', h.initListHead p = some h' ∧ h'.next = Function.update h.next p (some p) ∧
      h'.prev = Function.update h.prev p (some p) ∧ h'.payload = h.payload := by
  obtain ⟨h₁, hset₁, hnext₁, hprev₁, hpay₁⟩ := setNext_spec hnext p
  obtain ⟨h₂, hset₂, hnext₂, hprev₂, hpay₂⟩ := setPrev_spec (h := h₁) (p := p) (by rw [hprev₁, hprev]) p
  refine ⟨h₂, ?_, ?_, ?_, ?_⟩
  · simp [initListHead, hset₁, hset₂]
  · rw [hnext₂, hnext₁]
  · rw [hprev₂, hprev₁]
  · rw [hpay₂, hpay₁]

theorem Stores.listAdd {h₁ : Heap ι α} (hs : Stores h nodes) (hi : i ∉ nodes.map Prod.fst)
    (hring : Ring h₁ (nodes.map Prod.fst)) (hpay : h₁.payload = Function.update h.payload i (some a)) {x y : Ptr ι}
    (hnext : h₁.next (.node i) = some x) (hprev : h₁.prev (.node i) = some y) :
    ∃ h₂, h₁.listAdd i = some h₂ ∧ Stores h₂ ((i, a) :: nodes) := by
  obtain ⟨h₂, hadd, hring₂, hpay₂⟩ := hring.listAdd hi hnext hprev
  have hpayload : h₂.payload = Function.update h.payload i (some a) := hpay₂.trans hpay
  refine ⟨h₂, hadd, hring₂, ?_, ?_⟩
  · rw [List.forall_mem_cons]
    constructor
    · rw [hpayload, Function.update_self]
    · intro x hx
      have hne : x.1 ≠ i := by
        rintro rfl
        exact hi (List.mem_map_of_mem hx)
      rw [hpayload, Function.update_of_ne hne]
      exact hs.payload x hx
  · intro j hj
    rw [List.map_cons, List.mem_cons, not_or] at hj
    rw [hpayload, Function.update_of_ne hj.1]
    exact hs.only j hj.2

theorem Stores.push (hs : Stores h nodes) (hi : h.payload i = none) (garbage : Links ι) (a : α) :
    ∃ h₁ h₂, h.kmalloc i garbage a = some h₁ ∧ h₁.listAdd i = some h₂ ∧ Stores h₂ ((i, a) :: nodes) := by
  have hdead := Heap.next_eq_none_iff.mpr hi
  obtain ⟨h₁, hmalloc, hring₁, hpay₁, hnext₁, hprev₁⟩ := hs.ring.kmalloc hdead garbage a
  obtain ⟨h₂, hadd, hs₂⟩ := hs.listAdd (hs.ring.not_mem hdead) hring₁ hpay₁ hnext₁ hprev₁
  exact ⟨h₁, h₂, hmalloc, hadd, hs₂⟩

theorem Stores.add (hs : Stores h nodes) (hi : h.payload i = none) (garbage : Links ι) (a : α) :
    ∃ h₁ h₂ h₃, h.kmalloc i garbage a = some h₁ ∧ h₁.initListHead (.node i) = some h₂ ∧
      h₂.listAdd i = some h₃ ∧ Stores h₃ ((i, a) :: nodes) := by
  have hdead := Heap.next_eq_none_iff.mpr hi
  have hnot := hs.ring.not_mem hdead
  obtain ⟨h₁, hmalloc, hring₁, hpay₁, hnext₁, hprev₁⟩ := hs.ring.kmalloc hdead garbage a
  obtain ⟨h₂, hinit, hnext₂, hprev₂, hpay₂⟩ := Heap.initListHead_spec hnext₁ hprev₁
  have hring₂ : Ring h₂ (nodes.map Prod.fst) := by
    refine hring₁.congr hnot ?_ ?_
    · intro p hp
      rw [hnext₂, Function.update_of_ne hp]
    · intro p hp
      rw [hprev₂, Function.update_of_ne hp]
  have hself : h₂.next (.node i) = some (.node i) := by rw [hnext₂, Function.update_self]
  have hself' : h₂.prev (.node i) = some (.node i) := by rw [hprev₂, Function.update_self]
  obtain ⟨h₃, hadd, hs₃⟩ := hs.listAdd hnot hring₂ (hpay₂.trans hpay₁) hself hself'
  exact ⟨h₁, h₂, h₃, hmalloc, hinit, hadd, hs₃⟩

theorem Stores.discard (hs : Stores h (kept ++ (i, a) :: todo)) :
    ∃ h', h.discard i = some h' ∧ Stores h' (kept ++ todo) := by
  have hring := hs.ring
  rw [List.map_append, List.map_cons] at hring
  obtain ⟨h₁, h₂, hdel, hfree, hring₂, hpayload⟩ := hring.delete
  have hnot := (List.nodup_middle.mp hring.nodup).notMem
  rw [← List.map_append] at hring₂ hnot
  refine ⟨h₂, ?_, hring₂, ?_, ?_⟩
  · show (h.listDel i).bind (fun h => h.kfree i) = some h₂
    rw [hdel, Option.bind_some, hfree]
  · intro x hx
    have hne : x.1 ≠ i := by
      rintro rfl
      exact hnot (List.mem_map.mpr ⟨x, hx, rfl⟩)
    rw [hpayload, Function.update_of_ne hne]
    apply hs.payload
    rw [List.mem_append] at hx ⊢
    exact hx.imp_right (List.mem_cons_of_mem _)
  · intro j hj
    by_cases hji : j = i
    · rw [hpayload, hji, Function.update_self]
    · rw [hpayload, Function.update_of_ne hji]
      apply hs.only
      rw [List.map_append] at hj
      rw [List.map_append, List.map_cons]
      simp only [List.mem_append, List.mem_cons, not_or] at hj ⊢
      exact ⟨hj.1, hji, hj.2⟩

end Node

/-! ### What a loop keeps -/

theorem sweep_length_le (evict : β → α → Bool) (visit : β → α → β) (b : β) (nodes : List (ι × α)) :
    (sweep evict visit b nodes).length ≤ nodes.length := by
  induction nodes generalizing b with
  | nil => exact Nat.le_refl 0
  | cons x nodes ih =>
    rw [sweep]
    have hle := ih (visit b x.2)
    split_ifs
    · exact hle.trans (Nat.le_succ _)
    · exact Nat.succ_le_succ hle

theorem sweep_all (visit : β → α → β) (b : β) (nodes : List (ι × α)) :
    sweep (fun _ _ => true) visit b nodes = [] := by
  induction nodes generalizing b with
  | nil => rfl
  | cons x nodes ih => exact ih (visit b x.2)

/-! ### A loop that discards nodes -/

section Sweep

variable [DecidableEq ι] {h : Heap ι α} {nodes : List (ι × α)} {evict : β → α → Bool} {visit : β → α → β}

/-- What a loop has kept and what is in front of it, such that it will end with the nodes `last` and what it has
seen by then. -/
def Sweeping (evict : β → α → Bool) (visit : β → α → β) (last : List (ι × α)) (seen : β) (pre rest : List ι)
    (h : Heap ι α) (b : β) : Prop :=
  ∃ kept todo, pre = kept.map Prod.fst ∧ rest = todo.map Prod.fst ∧ Stores h (kept ++ todo) ∧
    kept ++ sweep evict visit b todo = last ∧ todo.foldl (fun b x => visit b x.2) b = seen

theorem Sweeping.round {body : ι → Heap ι α → β → Option (Heap ι α × β)} (hbody : Sweeps evict visit body)
    {last : List (ι × α)} {seen b : β} {pre rest : List ι} {i : ι}
    (hI : Sweeping evict visit last seen pre (i :: rest) h b) :
    ∃ h' b', body i h b = some (h', b') ∧
      (Sweeping evict visit last seen (pre ++ [i]) rest h' b' ∨ Sweeping evict visit last seen pre rest h' b') := by
  obtain ⟨kept, todo, rfl, htodo, hs, hlast, hseen⟩ := hI
  cases todo with
  | nil => cases htodo
  | cons x todo =>
    obtain ⟨rfl, rfl⟩ := List.cons.inj htodo
    have hpayload : h.payload x.1 = some x.2 := hs.payload x (by simp)
    rw [hbody x.1 h b x.2 hpayload]
    rw [sweep] at hlast
    cases hev : evict b x.2 with
    | true =>
      rw [if_pos hev] at hlast
      obtain ⟨h', hdiscard, hs'⟩ := hs.discard
      refine ⟨h', visit b x.2, ?_, .inr ⟨kept, todo, rfl, rfl, hs', hlast, hseen⟩⟩
      rw [if_pos rfl, hdiscard]
      rfl
    | false =>
      rw [if_neg (by simp [hev])] at hlast
      refine ⟨h, visit b x.2, if_neg (by simp), .inl ⟨kept ++ [x], todo, ?_, rfl, ?_, ?_, hseen⟩⟩
      · rw [List.map_append]
        rfl
      · rw [List.append_assoc]
        exact hs
      · rw [List.append_assoc]
        exact hlast

/-- The loop ends, has seen every node, and leaves the nodes that it was to keep. -/
theorem Stores.sweep {body : ι → Heap ι α → β → Option (Heap ι α × β)} (hbody : Sweeps evict visit body)
    (hs : Stores h nodes) {fuel : Nat} (hfuel : nodes.length < fuel) (b : β) :
    ∃ h', listForEachSafe body fuel h b = some (h', nodes.foldl (fun b x => visit b x.2) b) ∧
      Stores h' (ListHead.sweep evict visit b nodes) := by
  have hstart : Sweeping evict visit (ListHead.sweep evict visit b nodes)
      (nodes.foldl (fun b x => visit b x.2) b) [] (nodes.map Prod.fst) h b :=
    ⟨[], nodes, rfl, rfl, hs, rfl, rfl⟩
  have hring : ∀ {pre rest h b'}, Sweeping evict visit (ListHead.sweep evict visit b nodes)
      (nodes.foldl (fun b x => visit b x.2) b) pre rest h b' → Ring h (pre ++ rest) := by
    rintro pre rest h b' ⟨kept, todo, rfl, rfl, hs, -, -⟩
    rw [← List.map_append]
    exact hs.ring
  obtain ⟨pre, h', b', hloop, kept, todo, -, htodo, hs', hlast, hseen⟩ :=
    listForEachSafe_rule (I := Sweeping evict visit (ListHead.sweep evict visit b nodes)
      (nodes.foldl (fun b x => visit b x.2) b)) hring (Sweeping.round hbody) hstart
      (by rw [List.length_map]; exact hfuel)
  obtain rfl : todo = [] := List.map_eq_nil_iff.mp htodo.symm
  obtain rfl : b' = nodes.foldl (fun b x => visit b x.2) b := hseen
  rw [ListHead.sweep, List.append_nil] at hlast
  rw [List.append_nil, hlast] at hs'
  exact ⟨h', hloop, hs'⟩

theorem Stores.purge (hs : Stores h nodes) {fuel : Nat} (hfuel : nodes.length < fuel) :
    ∃ h', listForEachSafe discardNode fuel h () = some (h', ()) ∧ Stores h' [] := by
  have hbody : Sweeps (fun _ _ => true) (fun _ _ => ()) (discardNode (ι := ι) (α := α)) := by
    intro i h _ a _
    rfl
  obtain ⟨h', hloop, hs'⟩ := hs.sweep hbody hfuel ()
  rw [sweep_all] at hs'
  exact ⟨h', hloop, hs'⟩

end Sweep

/-! ### Walks that read -/

section Read

variable {h : Heap ι α} {nodes pre rest : List (ι × α)} {fuel : Nat}

theorem Stores.at_node {x : ι × α} (hs : Stores h (pre ++ x :: rest)) :
    h.payload x.1 = some x.2 ∧ h.next (.node x.1) = some (firstPtr (rest.map Prod.fst)) := by
  refine ⟨hs.payload x (by simp), ?_⟩
  have hring := hs.ring
  rw [List.map_append, List.map_cons] at hring
  exact hring.around.1

theorem forEach_stores (visit : β → α → β) (hs : Stores h (pre ++ rest)) (hfuel : rest.length < fuel) (b : β) :
    forEach visit h fuel (firstPtr (rest.map Prod.fst)) b = some (rest.foldl (fun b x => visit b x.2) b) := by
  induction rest generalizing pre fuel b with
  | nil =>
    obtain ⟨fuel, rfl⟩ : ∃ k, fuel = k + 1 := ⟨fuel - 1, by simp at hfuel; omega⟩
    rfl
  | cons x rest ih =>
    obtain ⟨fuel, rfl⟩ : ∃ k, fuel = k + 1 := ⟨fuel - 1, by simp at hfuel; omega⟩
    obtain ⟨hpayload, hnext⟩ := hs.at_node
    have hs' : Stores h (pre ++ [x] ++ rest) := by
      rw [List.append_assoc]
      exact hs
    show ((h.payload x.1).bind fun a => (h.next (.node x.1)).bind fun n => forEach visit h fuel n (visit b a)) = _
    rw [hpayload, Option.bind_some, hnext, Option.bind_some, ih hs' (by simpa using hfuel)]
    rfl

theorem Stores.forEach (hs : Stores h nodes) (visit : β → α → β) (hfuel : nodes.length < fuel) (b : β) :
    listForEach visit fuel h b = some (nodes.foldl (fun b x => visit b x.2) b) := by
  show ((h.next .head).bind fun pos => ListHead.forEach visit h fuel pos b) = _
  rw [hs.ring.next_head, Option.bind_some]
  exact @forEach_stores ι α β h [] nodes fuel visit hs hfuel b

theorem forEachSafeFind_stores (test : α → Bool) (hs : Stores h (pre ++ rest)) (hfuel : rest.length < fuel)
    {n : Ptr ι} (hn : ∀ i rest', rest.map Prod.fst = i :: rest' → n = firstPtr rest') :
    forEachSafeFind test h fuel (firstPtr (rest.map Prod.fst)) n =
      some ((rest.find? fun x => test x.2).map Prod.fst) := by
  induction rest generalizing pre fuel n with
  | nil =>
    obtain ⟨fuel, rfl⟩ : ∃ k, fuel = k + 1 := ⟨fuel - 1, by simp at hfuel; omega⟩
    rfl
  | cons x rest ih =>
    obtain ⟨fuel, rfl⟩ : ∃ k, fuel = k + 1 := ⟨fuel - 1, by simp at hfuel; omega⟩
    obtain rfl := hn x.1 _ rfl
    have hs' : Stores h (pre ++ [x] ++ rest) := by
      rw [List.append_assoc]
      exact hs
    have hring := hs'.ring
    rw [List.map_append] at hring
    obtain ⟨n', hnext, hn'⟩ := hring.next_firstPtr
    show ((h.payload x.1).bind fun a => if test a then some (some x.1) else
      (h.next (firstPtr (rest.map Prod.fst))).bind fun n' =>
        forEachSafeFind test h fuel (firstPtr (rest.map Prod.fst)) n') = _
    rw [hs.at_node.1, Option.bind_some, hnext, Option.bind_some, ih hs' (by simpa using hfuel) hn',
      List.find?_cons]
    cases test x.2 with
    | true => rfl
    | false => rfl

theorem Stores.forEachSafeFind (hs : Stores h nodes) (test : α → Bool) (hfuel : nodes.length < fuel) :
    listForEachSafeFind test fuel h = some ((nodes.find? fun x => test x.2).map Prod.fst) := by
  obtain ⟨n, hnext, hn⟩ := @Ring.next_firstPtr ι α h [] (nodes.map Prod.fst) hs.ring
  show ((h.next .head).bind fun pos => (h.next pos).bind fun n => ListHead.forEachSafeFind test h fuel pos n) = _
  rw [hs.ring.next_head, Option.bind_some, hnext, Option.bind_some]
  exact @forEachSafeFind_stores ι α h [] nodes fuel test hs hfuel n hn

end Read

end ListHead
