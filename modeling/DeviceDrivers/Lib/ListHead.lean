import Mathlib.Algebra.Order.BigOperators.Group.List
import Mathlib.Algebra.Order.Ring.Nat
import Mathlib.Data.List.Nodup
import Mathlib.Logic.Function.Basic
import Mathlib.Tactic.Common

/-!
# Rings of `list_head`s

`linux/list.h` on a heap with explicit nodes. A node has its two links, a payload, and is live until it
is freed; every access goes through a live node, and an access to any other is a fault (`none`). The
list head is a sentinel without a payload.

* `Path` : a doubly linked path, stated over the two link functions alone;
* `Heap` : the nodes, with `list_add`, `list_del`, `kmalloc` and `kfree`, and for each what it does to
  the link functions;
* `Ring` : the circular list of some nodes, and what the operations make of it;
* `listForEachSafe_rule` : the rule for loops that may delete the node they are at.
-/

namespace ListHead

/-! ### Doubly linked paths -/

section Path

variable {P : Type*} {next prev next' prev' : P → Option P} {a e p : P} {ps pre rest : List P}

def Linked (next prev : P → Option P) (a b : P) : Prop := next a = some b ∧ prev b = some a

/-- From `a` along `ps` to `e`, linked both ways. -/
def Path (next prev : P → Option P) : P → List P → P → Prop
  | a, [], e => Linked next prev a e
  | a, p :: ps, e => Linked next prev a p ∧ Path next prev p ps e

/-- The first of `ps`, or `e` behind them. -/
def firstOf (ps : List P) (e : P) : P := ps.head?.getD e

/-- The last of `ps`, or `a` before them. -/
def lastOf (a : P) : List P → P
  | [] => a
  | p :: ps => lastOf p ps

theorem lastOf_mem (a : P) (ps : List P) : lastOf a ps ∈ a :: ps := by
  induction ps generalizing a with
  | nil => exact List.mem_cons_self
  | cons p ps ih => exact List.mem_cons_of_mem a (ih p)

theorem firstOf_mem (ps : List P) (e : P) : firstOf ps e ∈ ps ++ [e] := by
  cases ps with
  | nil => exact List.mem_cons_self
  | cons p ps => exact List.mem_cons_self

theorem Path.next_first (h : Path next prev a ps e) : next a = some (firstOf ps e) := by
  cases ps with
  | nil => exact h.1
  | cons p ps => exact h.1.1

theorem path_append : Path next prev a (pre ++ p :: rest) e ↔
    Path next prev a pre p ∧ Path next prev p rest e := by
  induction pre generalizing a with
  | nil => rfl
  | cons x xs ih =>
    rw [List.cons_append, Path, Path, ih]
    exact and_assoc.symm

theorem Path.prev_last (h : Path next prev a ps e) : prev e = some (lastOf a ps) := by
  induction ps generalizing a with
  | nil => exact h.2
  | cons p ps ih => exact ih h.2

theorem Path.next_last (h : Path next prev a ps e) : next (lastOf a ps) = some e := by
  induction ps generalizing a with
  | nil => exact h.1
  | cons p ps ih => exact ih h.2

theorem Path.prev_first (h : Path next prev a ps e) : prev (firstOf ps e) = some a := by
  cases ps with
  | nil => exact h.2
  | cons p ps => exact h.1.2

theorem Path.congr (h : Path next prev a ps e) (hnext : ∀ x ∈ a :: ps, next' x = next x)
    (hprev : ∀ x ∈ ps ++ [e], prev' x = prev x) : Path next' prev' a ps e := by
  induction ps generalizing a with
  | nil => exact ⟨(hnext a (by simp)).trans h.1, (hprev e (by simp)).trans h.2⟩
  | cons p ps ih =>
    refine ⟨⟨(hnext a (by simp)).trans h.1.1, (hprev p (by simp)).trans h.1.2⟩, ?_⟩
    apply ih h.2
    · intro x hx
      exact hnext x (List.mem_cons_of_mem a hx)
    · intro x hx
      exact hprev x (List.mem_cons_of_mem p hx)

theorem Path.unlink [DecidableEq P] (h : Path next prev a (pre ++ p :: rest) e)
    (hnodup : (a :: (pre ++ p :: rest)).Nodup) (he : e ∉ pre ++ p :: rest)
    (hnext : ∀ x, x ≠ p → next' x = if x = lastOf a pre then some (firstOf rest e) else next x)
    (hprev : ∀ x, x ≠ p → prev' x = if x = firstOf rest e then some (lastOf a pre) else prev x) :
    Path next' prev' a (pre ++ rest) e := by
  induction pre generalizing a with
  | nil =>
    rw [List.nil_append] at h hnodup he ⊢
    rw [List.nodup_cons, List.nodup_cons] at hnodup
    obtain ⟨ha, hp, hrest⟩ := hnodup
    rw [List.mem_cons, not_or] at ha he
    have hfirst : next' a = some (firstOf rest e) := (hnext a ha.1).trans (if_pos rfl)
    cases rest with
    | nil => exact ⟨hfirst, (hprev e he.1).trans (if_pos rfl)⟩
    | cons r rs =>
      have hr : r ≠ p := by
        rintro rfl
        exact hp List.mem_cons_self
      refine ⟨⟨hfirst, (hprev r hr).trans (if_pos rfl)⟩, ?_⟩
      -- behind `r` nothing changes
      refine Path.congr h.2.2 ?_ ?_
      · intro x hx
        have hxp : x ≠ p := by
          rintro rfl
          exact hp hx
        have hxa : x ≠ a := by
          rintro rfl
          exact ha.2 hx
        rw [hnext x hxp]
        exact if_neg hxa
      · intro x hx
        have hxp : x ≠ p := by
          rintro rfl
          rcases List.mem_append.mp hx with hx | hx
          · exact hp (List.mem_cons_of_mem r hx)
          · exact he.1 (List.mem_singleton.mp hx).symm
        have hxr : x ≠ r := by
          rintro rfl
          rcases List.mem_append.mp hx with hx | hx
          · exact (List.nodup_cons.mp hrest).1 hx
          · exact he.2 (List.mem_singleton.mp hx ▸ List.mem_cons_self)
        rw [hprev x hxp]
        exact if_neg hxr
  | cons y ys ih =>
    rw [List.cons_append] at h hnodup he ⊢
    have htail := (List.nodup_cons.mp hnodup).2
    have hay := (List.nodup_cons.mp hnodup).1
    rw [List.mem_cons, not_or] at he
    refine ⟨⟨?_, ?_⟩, ih h.2 htail he.2 hnext hprev⟩
    · -- `a` is not the node before `p`
      have hap : a ≠ p := by
        rintro rfl
        exact hay (by simp)
      have hlast : a ≠ lastOf y ys := by
        intro heq
        have hmem := lastOf_mem y ys
        rw [← heq] at hmem
        apply hay
        rcases List.mem_cons.mp hmem with rfl | hmem
        · exact List.mem_cons_self
        · exact List.mem_cons_of_mem _ (List.mem_append_left _ hmem)
      exact ((hnext a hap).trans (if_neg hlast)).trans h.1.1
    · -- nor is `y` the one after it
      have hyp : y ≠ p := by
        rintro rfl
        exact (List.nodup_cons.mp htail).1 (by simp)
      have hfirst : y ≠ firstOf rest e := by
        intro heq
        have hmem := firstOf_mem rest e
        rw [← heq] at hmem
        rcases List.mem_append.mp hmem with hmem | hmem
        · exact (List.nodup_cons.mp htail).1 (by simp [hmem])
        · exact he.1 (List.mem_singleton.mp hmem).symm
      exact ((hprev y hyp).trans (if_neg hfirst)).trans h.1.2

theorem Path.link [DecidableEq P] (h : Path next prev a ps e) (hnodup : (a :: ps).Nodup) (he : e ∉ ps)
    (hp : p ∉ a :: ps) (hpe : p ≠ e)
    (hnext : ∀ x, next' x = if x = a then some p else if x = p then some (firstOf ps e) else next x)
    (hprev : ∀ x, prev' x = if x = p then some a else if x = firstOf ps e then some p else prev x) :
    Path next' prev' a (p :: ps) e := by
  rw [List.mem_cons, not_or] at hp
  rw [List.nodup_cons] at hnodup
  refine ⟨⟨(hnext a).trans (if_pos rfl), (hprev p).trans (if_pos rfl)⟩, ?_⟩
  have hfirst : next' p = some (firstOf ps e) := by
    rw [hnext p, if_neg hp.1, if_pos rfl]
  cases ps with
  | nil =>
    refine ⟨hfirst, ?_⟩
    rw [hprev e, if_neg (Ne.symm hpe)]
    exact if_pos rfl
  | cons r rs =>
    have hrp : r ≠ p := by
      rintro rfl
      exact hp.2 List.mem_cons_self
    refine ⟨⟨hfirst, ?_⟩, Path.congr h.2 ?_ ?_⟩
    · rw [hprev r, if_neg hrp]
      exact if_pos rfl
    · intro x hx
      have hxa : x ≠ a := by
        rintro rfl
        exact hnodup.1 hx
      have hxp : x ≠ p := by
        rintro rfl
        exact hp.2 hx
      rw [hnext x, if_neg hxa, if_neg hxp]
    · intro x hx
      have hxp : x ≠ p := by
        rintro rfl
        rcases List.mem_append.mp hx with hx | hx
        · exact hp.2 (List.mem_cons_of_mem r hx)
        · exact hpe (List.mem_singleton.mp hx)
      have hxr : x ≠ r := by
        rintro rfl
        rcases List.mem_append.mp hx with hx | hx
        · exact (List.nodup_cons.mp hnodup.2).1 hx
        · exact he (List.mem_singleton.mp hx ▸ List.mem_cons_self)
      rw [hprev x, if_neg hxp]
      exact if_neg hxr

end Path

/-! ### The heap -/

/-- A pointer to the list head or to a node, or one of the two values that `list_del` leaves. -/
inductive Ptr (ι : Type)
  | head
  | node (i : ι)
  | poison1
  | poison2
  deriving DecidableEq

structure Links (ι : Type) where
  next : Ptr ι
  prev : Ptr ι

structure Node (ι α : Type) where
  links : Links ι
  payload : α
  live : Bool

/-- The list head, and the nodes that were ever allocated. -/
structure Heap (ι α : Type) where
  head : Links ι
  node : ι → Option (Node ι α)

namespace Heap

variable {ι α : Type} [DecidableEq ι] (h : Heap ι α)

/-- The node, if it is live. -/
def get (i : ι) : Option (Node ι α) := (h.node i).filter Node.live

def set (i : ι) (n : Node ι α) : Heap ι α := { h with node := Function.update h.node i (some n) }

def links : Ptr ι → Option (Links ι)
  | .head => some h.head
  | .node i => (h.get i).map Node.links
  | .poison1 => none
  | .poison2 => none

def next (p : Ptr ι) : Option (Ptr ι) := (h.links p).map Links.next

def prev (p : Ptr ι) : Option (Ptr ι) := (h.links p).map Links.prev

def payload (i : ι) : Option α := (h.get i).map Node.payload

def setLinks (p : Ptr ι) (f : Links ι → Links ι) : Option (Heap ι α) :=
  match p with
  | .head => some { h with head := f h.head }
  | .node i => (h.get i).map fun n => h.set i { n with links := f n.links }
  | .poison1 => none
  | .poison2 => none

def setNext (p q : Ptr ι) : Option (Heap ι α) := h.setLinks p fun l => { l with next := q }

def setPrev (p q : Ptr ι) : Option (Heap ι α) := h.setLinks p fun l => { l with prev := q }

def setPayload (i : ι) (f : α → α) : Option (Heap ι α) :=
  (h.get i).map fun n => h.set i { n with payload := f n.payload }

/-- The memory of a new node is not initialised: `garbage` is what its links hold. -/
def kmalloc (i : ι) (garbage : Links ι) (a : α) : Option (Heap ι α) :=
  if (h.get i).isSome then none else some (h.set i ⟨garbage, a, true⟩)

def kfree (i : ι) : Option (Heap ι α) := (h.get i).map fun n => h.set i { n with live := false }

/-- `list_add(new, head)`, that is `__list_add(new, head, head->next)` -/
def listAdd (new : ι) : Option (Heap ι α) := do
  let next ← h.next .head
  let h ← h.setPrev next (.node new)
  let h ← h.setNext (.node new) next
  let h ← h.setPrev (.node new) .head
  h.setNext .head (.node new)

/-- `list_del(entry)`: `__list_del(entry->prev, entry->next)`, then the poison. -/
def listDel (entry : ι) : Option (Heap ι α) := do
  let prev ← h.prev (.node entry)
  let next ← h.next (.node entry)
  let h ← h.setPrev next prev
  let h ← h.setNext prev next
  let h ← h.setNext (.node entry) .poison1
  h.setPrev (.node entry) .poison2

/-! What each access does to the two link functions and to the payloads. -/

variable {h} {h' : Heap ι α} {i : ι} {p q : Ptr ι}

theorem get_set_self (n : Node ι α) : (h.set i n).get i = if n.live then some n else none := by
  simp [get, set, Option.filter_some]

theorem get_set_of_ne {j : ι} (hj : j ≠ i) (n : Node ι α) : (h.set i n).get j = h.get j := by
  simp [get, set, hj]

omit [DecidableEq ι] in
theorem live_of_get {n : Node ι α} (hi : h.get i = some n) : n.live = true := by
  rw [get, Option.filter_eq_some_iff] at hi
  exact hi.2

theorem links_set (n : Node ι α) :
    (h.set i n).links = Function.update h.links (.node i) (if n.live then some n.links else none) := by
  funext x
  by_cases hx : x = .node i
  · subst hx
    rw [Function.update_self]
    show ((h.set i n).get i).map Node.links = _
    rw [get_set_self]
    split_ifs
    · rfl
    · rfl
  · rw [Function.update_of_ne hx]
    cases x with
    | head => rfl
    | node j =>
      show ((h.set i n).get j).map Node.links = _
      rw [get_set_of_ne (by rintro rfl; exact hx rfl)]
      rfl
    | poison1 => rfl
    | poison2 => rfl

theorem payload_set (n : Node ι α) :
    (h.set i n).payload = Function.update h.payload i (if n.live then some n.payload else none) := by
  funext j
  by_cases hj : j = i
  · subst hj
    rw [Function.update_self]
    show ((h.set j n).get j).map Node.payload = _
    rw [get_set_self]
    split_ifs
    · rfl
    · rfl
  · rw [Function.update_of_ne hj]
    show ((h.set i n).get j).map Node.payload = _
    rw [get_set_of_ne hj]
    rfl

theorem next_of_links {l : Option (Links ι)} (hl : h'.links = Function.update h.links p l) :
    h'.next = Function.update h.next p (l.map Links.next) := by
  funext x
  show (h'.links x).map Links.next = _
  rw [hl]
  by_cases hx : x = p
  · subst hx
    rw [Function.update_self, Function.update_self]
  · rw [Function.update_of_ne hx, Function.update_of_ne hx]
    rfl

theorem prev_of_links {l : Option (Links ι)} (hl : h'.links = Function.update h.links p l) :
    h'.prev = Function.update h.prev p (l.map Links.prev) := by
  funext x
  show (h'.links x).map Links.prev = _
  rw [hl]
  by_cases hx : x = p
  · subst hx
    rw [Function.update_self, Function.update_self]
  · rw [Function.update_of_ne hx, Function.update_of_ne hx]
    rfl

theorem setLinks_spec {l : Links ι} (hp : h.links p = some l) (f : Links ι → Links ι) :
    ∃ h', h.setLinks p f = some h' ∧ h'.links = Function.update h.links p (some (f l)) ∧
      h'.payload = h.payload := by
  cases p with
  | head =>
    obtain rfl := Option.some.inj hp
    refine ⟨{ h with head := f h.head }, rfl, ?_, rfl⟩
    funext x
    by_cases hx : x = .head
    · subst hx
      rw [Function.update_self]
      rfl
    · rw [Function.update_of_ne hx]
      cases x with
      | head => exact (hx rfl).elim
      | node i => rfl
      | poison1 => rfl
      | poison2 => rfl
  | node i =>
    obtain ⟨n, hn, rfl⟩ := Option.map_eq_some_iff.mp hp
    have hlive := live_of_get hn
    refine ⟨h.set i { n with links := f n.links }, by simp [setLinks, hn], ?_, ?_⟩
    · rw [links_set]
      simp only [hlive, if_true]
    · rw [payload_set]
      simp only [hlive, if_true]
      apply Function.update_eq_self_iff.mpr
      simp [payload, hn]
  | poison1 => cases hp
  | poison2 => cases hp

theorem setNext_spec {x : Ptr ι} (hp : h.next p = some x) (q : Ptr ι) :
    ∃ h', h.setNext p q = some h' ∧ h'.next = Function.update h.next p (some q) ∧ h'.prev = h.prev ∧
      h'.payload = h.payload := by
  obtain ⟨l, hl, -⟩ := Option.map_eq_some_iff.mp hp
  obtain ⟨h', hset, hlinks, hpayload⟩ := setLinks_spec hl fun l => { l with next := q }
  refine ⟨h', hset, next_of_links hlinks, ?_, hpayload⟩
  rw [prev_of_links hlinks]
  apply Function.update_eq_self_iff.mpr
  simp [prev, hl]

theorem setPrev_spec {x : Ptr ι} (hp : h.prev p = some x) (q : Ptr ι) :
    ∃ h', h.setPrev p q = some h' ∧ h'.next = h.next ∧ h'.prev = Function.update h.prev p (some q) ∧
      h'.payload = h.payload := by
  obtain ⟨l, hl, -⟩ := Option.map_eq_some_iff.mp hp
  obtain ⟨h', hset, hlinks, hpayload⟩ := setLinks_spec hl fun l => { l with prev := q }
  refine ⟨h', hset, ?_, prev_of_links hlinks, hpayload⟩
  rw [next_of_links hlinks]
  apply Function.update_eq_self_iff.mpr
  simp [next, hl]

theorem setPayload_spec {a : α} (hi : h.payload i = some a) (f : α → α) :
    ∃ h', h.setPayload i f = some h' ∧ h'.next = h.next ∧ h'.prev = h.prev ∧
      h'.payload = Function.update h.payload i (some (f a)) := by
  obtain ⟨n, hn, rfl⟩ := Option.map_eq_some_iff.mp hi
  have hlive := live_of_get hn
  have hlinks : (h.set i { n with payload := f n.payload }).links =
      Function.update h.links (.node i) (some n.links) := by
    rw [links_set]
    simp only [hlive, if_true]
  refine ⟨h.set i { n with payload := f n.payload }, by simp [setPayload, hn], ?_, ?_, ?_⟩
  · rw [next_of_links hlinks]
    apply Function.update_eq_self_iff.mpr
    simp [next, links, hn]
  · rw [prev_of_links hlinks]
    apply Function.update_eq_self_iff.mpr
    simp [prev, links, hn]
  · rw [payload_set]
    simp only [hlive, if_true]

theorem kmalloc_spec (hi : h.next (.node i) = none) (garbage : Links ι) (a : α) :
    ∃ h', h.kmalloc i garbage a = some h' ∧
      h'.next = Function.update h.next (.node i) (some garbage.next) ∧
      h'.prev = Function.update h.prev (.node i) (some garbage.prev) ∧
      h'.payload = Function.update h.payload i (some a) := by
  have hfree : h.get i = none := by simpa [next, links] using hi
  have hlinks := @links_set ι α _ h i ⟨garbage, a, true⟩
  refine ⟨h.set i ⟨garbage, a, true⟩, by simp [kmalloc, hfree], ?_, ?_, ?_⟩
  · exact next_of_links hlinks
  · exact prev_of_links hlinks
  · exact payload_set _

theorem kfree_spec {x : Ptr ι} (hi : h.next (.node i) = some x) :
    ∃ h', h.kfree i = some h' ∧ h'.next = Function.update h.next (.node i) none ∧
      h'.prev = Function.update h.prev (.node i) none ∧
      h'.payload = Function.update h.payload i none := by
  obtain ⟨l, hl, -⟩ := Option.map_eq_some_iff.mp hi
  obtain ⟨n, hn, -⟩ := Option.map_eq_some_iff.mp hl
  have hlinks := @links_set ι α _ h i { n with live := false }
  refine ⟨h.set i { n with live := false }, by simp [kfree, hn], ?_, ?_, ?_⟩
  · exact next_of_links hlinks
  · exact prev_of_links hlinks
  · exact payload_set _

theorem listDel_spec {a b : Ptr ι} (hprev : h.prev (.node i) = some a) (hnext : h.next (.node i) = some b)
    (ha : h.next a = some (.node i)) (hb : h.prev b = some (.node i)) (hai : a ≠ .node i)
    (hbi : b ≠ .node i) :
    ∃ h', h.listDel i = some h' ∧
      h'.next = Function.update (Function.update h.next a (some b)) (.node i) (some .poison1) ∧
      h'.prev = Function.update (Function.update h.prev b (some a)) (.node i) (some .poison2) ∧
      h'.payload = h.payload := by
  obtain ⟨h₁, hset₁, hnext₁, hprev₁, hpay₁⟩ := setPrev_spec hb a
  obtain ⟨h₂, hset₂, hnext₂, hprev₂, hpay₂⟩ := setNext_spec (h := h₁) (by rw [hnext₁, ha]) b
  obtain ⟨h₃, hset₃, hnext₃, hprev₃, hpay₃⟩ := setNext_spec (h := h₂) (p := .node i) (x := b)
    (by rw [hnext₂, hnext₁, Function.update_of_ne (Ne.symm hai), hnext]) .poison1
  obtain ⟨h₄, hset₄, hnext₄, hprev₄, hpay₄⟩ := setPrev_spec (h := h₃) (p := .node i) (x := a)
    (by rw [hprev₃, hprev₂, hprev₁, Function.update_of_ne (Ne.symm hbi), hprev]) .poison2
  refine ⟨h₄, ?_, ?_, ?_, ?_⟩
  · simp [listDel, hprev, hnext, hset₁, hset₂, hset₃, hset₄]
  · rw [hnext₄, hnext₃, hnext₂, hnext₁]
  · rw [hprev₄, hprev₃, hprev₂, hprev₁]
  · rw [hpay₄, hpay₃, hpay₂, hpay₁]

theorem listAdd_spec {b x y z : Ptr ι} (hnext : h.next .head = some b) (hb : h.prev b = some z)
    (hnew : h.next (.node i) = some x) (hnew' : h.prev (.node i) = some y) (hib : .node i ≠ b) :
    ∃ h', h.listAdd i = some h' ∧
      h'.next = Function.update (Function.update h.next (.node i) (some b)) .head (some (.node i)) ∧
      h'.prev = Function.update (Function.update h.prev b (some (.node i))) (.node i) (some .head) ∧
      h'.payload = h.payload := by
  obtain ⟨h₁, hset₁, hnext₁, hprev₁, hpay₁⟩ := setPrev_spec hb (.node i)
  obtain ⟨h₂, hset₂, hnext₂, hprev₂, hpay₂⟩ := setNext_spec (h := h₁) (by rw [hnext₁, hnew]) b
  obtain ⟨h₃, hset₃, hnext₃, hprev₃, hpay₃⟩ := setPrev_spec (h := h₂) (p := .node i) (x := y)
    (by rw [hprev₂, hprev₁, Function.update_of_ne hib, hnew']) .head
  obtain ⟨h₄, hset₄, hnext₄, hprev₄, hpay₄⟩ := setNext_spec (h := h₃) (p := .head) (x := b)
    (by rw [hnext₃, hnext₂, hnext₁, Function.update_of_ne (by simp), hnext]) (.node i)
  refine ⟨h₄, ?_, ?_, ?_, ?_⟩
  · simp [listAdd, hnext, hset₁, hset₂, hset₃, hset₄]
  · rw [hnext₄, hnext₃, hnext₂, hnext₁]
  · rw [hprev₄, hprev₃, hprev₂, hprev₁]
  · rw [hpay₄, hpay₃, hpay₂, hpay₁]

end Heap

/-! ### Rings -/

section Ring

variable {ι α : Type} {h h' : Heap ι α} {i : ι} {ids pre rest : List ι}

/-- The nodes `ids`, in this order, between the list head and itself. -/
structure Ring (h : Heap ι α) (ids : List ι) : Prop where
  nodup : ids.Nodup
  path : Path h.next h.prev .head (ids.map .node) .head

/-- The pointer to the first of `ids`, or to the list head behind them. -/
def firstPtr (ids : List ι) : Ptr ι := firstOf (ids.map .node) .head

/-- The pointer to the last of `ids`, or to the list head before them. -/
def lastPtr (ids : List ι) : Ptr ι := lastOf .head (ids.map .node)

theorem node_injective : Function.Injective (Ptr.node : ι → Ptr ι) := fun _ _ => Ptr.node.inj

theorem head_notMem (ids : List ι) : Ptr.head ∉ ids.map Ptr.node := by simp

theorem node_ne_firstPtr (hi : i ∉ ids) : Ptr.node i ≠ firstPtr ids := by
  intro heq
  have hmem : Ptr.node i ∈ ids.map Ptr.node ++ [Ptr.head] := by
    rw [heq]
    exact firstOf_mem _ _
  simp [hi] at hmem

theorem node_ne_lastPtr (hi : i ∉ ids) : Ptr.node i ≠ lastPtr ids := by
  intro heq
  have hmem : Ptr.node i ∈ Ptr.head :: ids.map Ptr.node := by
    rw [heq]
    exact lastOf_mem _ _
  simp [hi] at hmem

theorem Ring.nodup_head (hr : Ring h ids) : (Ptr.head :: ids.map Ptr.node).Nodup :=
  List.nodup_cons.mpr ⟨head_notMem ids, hr.nodup.map node_injective⟩

theorem Ring.next_head (hr : Ring h ids) : h.next .head = some (firstPtr ids) := hr.path.next_first

theorem Ring.around (hr : Ring h (pre ++ i :: rest)) :
    h.next (.node i) = some (firstPtr rest) ∧ h.prev (.node i) = some (lastPtr pre) ∧
      h.next (lastPtr pre) = some (.node i) ∧ h.prev (firstPtr rest) = some (.node i) := by
  have hpath := hr.path
  rw [List.map_append, List.map_cons, path_append] at hpath
  exact ⟨hpath.2.next_first, hpath.1.prev_last, hpath.1.next_last, hpath.2.prev_first⟩

theorem Ring.live (hr : Ring h ids) (hi : i ∈ ids) : ∃ x, h.next (.node i) = some x := by
  obtain ⟨pre, rest, rfl⟩ := List.append_of_mem hi
  exact ⟨_, hr.around.1⟩

theorem Ring.not_mem (hr : Ring h ids) (hi : h.next (.node i) = none) : i ∉ ids := by
  intro hmem
  obtain ⟨x, hx⟩ := hr.live hmem
  rw [hi] at hx
  cases hx

theorem Ring.congr (hr : Ring h ids) (hi : i ∉ ids) (hnext : ∀ p, p ≠ .node i → h'.next p = h.next p)
    (hprev : ∀ p, p ≠ .node i → h'.prev p = h.prev p) : Ring h' ids := by
  refine ⟨hr.nodup, hr.path.congr ?_ ?_⟩
  · intro p hp
    apply hnext
    rintro rfl
    simp [hi] at hp
  · intro p hp
    apply hprev
    rintro rfl
    simp [hi] at hp

variable [DecidableEq ι]

theorem Ring.kmalloc (hr : Ring h ids) (hi : h.next (.node i) = none) (garbage : Links ι) (a : α) :
    ∃ h', h.kmalloc i garbage a = some h' ∧ Ring h' ids ∧
      h'.payload = Function.update h.payload i (some a) ∧ h'.next (.node i) = some garbage.next ∧
      h'.prev (.node i) = some garbage.prev := by
  obtain ⟨h', hmalloc, hnext, hprev, hpayload⟩ := Heap.kmalloc_spec hi garbage a
  refine ⟨h', hmalloc, hr.congr (hr.not_mem hi) ?_ ?_, hpayload, ?_, ?_⟩
  · intro p hp
    rw [hnext, Function.update_of_ne hp]
  · intro p hp
    rw [hprev, Function.update_of_ne hp]
  · rw [hnext, Function.update_self]
  · rw [hprev, Function.update_self]

theorem Ring.kfree (hr : Ring h ids) (hi : i ∉ ids) {x : Ptr ι} (hlive : h.next (.node i) = some x) :
    ∃ h', h.kfree i = some h' ∧ Ring h' ids ∧ h'.payload = Function.update h.payload i none := by
  obtain ⟨h', hfree, hnext, hprev, hpayload⟩ := Heap.kfree_spec hlive
  refine ⟨h', hfree, hr.congr hi ?_ ?_, hpayload⟩
  · intro p hp
    rw [hnext, Function.update_of_ne hp]
  · intro p hp
    rw [hprev, Function.update_of_ne hp]

theorem Ring.setPayload (hr : Ring h ids) {a : α} (hi : h.payload i = some a) (f : α → α) :
    ∃ h', h.setPayload i f = some h' ∧ Ring h' ids ∧
      h'.payload = Function.update h.payload i (some (f a)) := by
  obtain ⟨h', hset, hnext, hprev, hpayload⟩ := Heap.setPayload_spec hi f
  refine ⟨h', hset, ⟨hr.nodup, ?_⟩, hpayload⟩
  rw [hnext, hprev]
  exact hr.path

theorem Ring.listDel (hr : Ring h (pre ++ i :: rest)) :
    ∃ h' x, h.listDel i = some h' ∧ Ring h' (pre ++ rest) ∧ h'.payload = h.payload ∧
      h'.next (.node i) = some x := by
  obtain ⟨hnext, hprev, hlast, hfirst⟩ := hr.around
  have hi : i ∉ pre ++ rest := (List.nodup_middle.mp hr.nodup).notMem
  rw [List.mem_append, not_or] at hi
  obtain ⟨h', hdel, hnext', hprev', hpayload⟩ := Heap.listDel_spec hprev hnext hlast hfirst
    (Ne.symm (node_ne_lastPtr hi.1)) (Ne.symm (node_ne_firstPtr hi.2))
  refine ⟨h', .poison1, hdel, ⟨?_, ?_⟩, hpayload, ?_⟩
  · exact (List.nodup_middle.mp hr.nodup).of_cons
  · have hpath := hr.path
    have hnodup := hr.nodup_head
    have hhead := head_notMem (pre ++ i :: rest)
    rw [List.map_append, List.map_cons] at hpath hnodup hhead
    rw [List.map_append]
    refine hpath.unlink hnodup hhead ?_ ?_
    · intro p hp
      rw [hnext', Function.update_of_ne hp, Function.update_apply]
      rfl
    · intro p hp
      rw [hprev', Function.update_of_ne hp, Function.update_apply]
      rfl
  · rw [hnext', Function.update_self]

theorem Ring.delete (hr : Ring h (pre ++ i :: rest)) :
    ∃ h₁ h₂, h.listDel i = some h₁ ∧ h₁.kfree i = some h₂ ∧ Ring h₂ (pre ++ rest) ∧
      h₂.payload = Function.update h.payload i none := by
  obtain ⟨h₁, x, hdel, hr₁, hpayload₁, hlive⟩ := hr.listDel
  obtain ⟨h₂, hfree, hr₂, hpayload₂⟩ := hr₁.kfree (List.nodup_middle.mp hr.nodup).notMem hlive
  rw [hpayload₁] at hpayload₂
  exact ⟨h₁, h₂, hdel, hfree, hr₂, hpayload₂⟩

theorem Ring.listAdd (hr : Ring h ids) (hi : i ∉ ids) {x y : Ptr ι} (hnew : h.next (.node i) = some x)
    (hnew' : h.prev (.node i) = some y) :
    ∃ h', h.listAdd i = some h' ∧ Ring h' (i :: ids) ∧ h'.payload = h.payload := by
  obtain ⟨h', hadd, hnext', hprev', hpayload⟩ := Heap.listAdd_spec hr.next_head hr.path.prev_first hnew
    hnew' (node_ne_firstPtr hi)
  refine ⟨h', hadd, ⟨List.nodup_cons.mpr ⟨hi, hr.nodup⟩, ?_⟩, hpayload⟩
  refine hr.path.link hr.nodup_head (head_notMem ids) (by simp [hi]) (by simp) ?_ ?_
  · intro p
    rw [hnext', Function.update_apply, Function.update_apply]
    rfl
  · intro p
    rw [hprev', Function.update_apply, Function.update_apply]
    rfl

end Ring

/-! ### Loops -/

section Loop

variable {ι α β : Type} {h : Heap ι α} {ids pre rest : List ι}

/-- `list_for_each_safe` from `pos` on, with `n` saved. The body gets its node and what the rounds before
have accumulated; `none` is a fault in it, or that the fuel runs out. -/
def forEachSafe (body : ι → Heap ι α → β → Option (Heap ι α × β)) :
    Nat → Ptr ι → Ptr ι → Heap ι α → β → Option (Heap ι α × β)
  | 0, _, _, _, _ => none
  | _ + 1, .head, _, h, b => some (h, b)
  | fuel + 1, .node i, n, h, b => do
    let r ← body i h b
    let n' ← r.1.next n
    forEachSafe body fuel n n' r.1 r.2
  | _ + 1, _, _, _, _ => none

/-- `list_for_each_safe` -/
def listForEachSafe (body : ι → Heap ι α → β → Option (Heap ι α × β)) (fuel : Nat) (h : Heap ι α) (b : β) :
    Option (Heap ι α × β) := do
  let pos ← h.next .head
  let n ← h.next pos
  forEachSafe body fuel pos n h b

/-- `list_for_each` from `pos` on, up to the first node that passes the test. -/
def forEachFind (test : α → Bool) (h : Heap ι α) : Nat → Ptr ι → Option (Option ι)
  | 0, _ => none
  | _ + 1, .head => some none
  | fuel + 1, .node i => do
    let a ← h.payload i
    if test a then some (some i)
    else
      let n ← h.next (.node i)
      forEachFind test h fuel n
  | _ + 1, _ => none

def listForEachFind (test : α → Bool) (fuel : Nat) (h : Heap ι α) : Option (Option ι) := do
  let pos ← h.next .head
  forEachFind test h fuel pos

/-- The node that a walk saves: behind the last node it is not used. -/
theorem Ring.next_firstPtr (hr : Ring h (pre ++ rest)) :
    ∃ n, h.next (firstPtr rest) = some n ∧ ∀ i rest', rest = i :: rest' → n = firstPtr rest' := by
  cases rest with
  | nil => exact ⟨_, hr.next_head, by simp⟩
  | cons i rest =>
    refine ⟨_, hr.around.1, ?_⟩
    intro j rest' heq
    obtain ⟨rfl, rfl⟩ := List.cons.inj heq
    rfl

/-- The rule for `list_for_each_safe`. The invariant `I pre rest` is about the nodes that the walk has
passed and kept, and those in front of it; it must hold again after each round, whether the body keeps
its node in the ring or takes it out. -/
theorem forEachSafe_rule {body : ι → Heap ι α → β → Option (Heap ι α × β)}
    {I : List ι → List ι → Heap ι α → β → Prop}
    (hring : ∀ {pre rest h b}, I pre rest h b → Ring h (pre ++ rest))
    (hbody : ∀ {pre i rest h b}, I pre (i :: rest) h b →
      ∃ h' b', body i h b = some (h', b') ∧ (I (pre ++ [i]) rest h' b' ∨ I pre rest h' b'))
    {pre rest : List ι} {h : Heap ι α} {b : β} {n : Ptr ι} {fuel : Nat} (hI : I pre rest h b)
    (hn : ∀ i rest', rest = i :: rest' → n = firstPtr rest') (hfuel : rest.length < fuel) :
    ∃ pre' h' b', forEachSafe body fuel (firstPtr rest) n h b = some (h', b') ∧ I pre' [] h' b' := by
  induction rest generalizing pre h b n fuel with
  | nil =>
    obtain ⟨fuel, rfl⟩ : ∃ k, fuel = k + 1 := ⟨fuel - 1, by simp at hfuel; omega⟩
    exact ⟨pre, h, b, rfl, hI⟩
  | cons i rest ih =>
    obtain ⟨fuel, rfl⟩ : ∃ k, fuel = k + 1 := ⟨fuel - 1, by simp at hfuel; omega⟩
    obtain rfl := hn i rest rfl
    obtain ⟨h', b', hstep, hI'⟩ := hbody hI
    obtain ⟨pre', hI'⟩ : ∃ pre', I pre' rest h' b' := by
      rcases hI' with hI' | hI'
      · exact ⟨_, hI'⟩
      · exact ⟨_, hI'⟩
    obtain ⟨n', hnext, hn'⟩ := (hring hI').next_firstPtr
    obtain ⟨pre'', h'', b'', hloop, hI''⟩ := ih hI' hn' (by simpa using hfuel)
    refine ⟨pre'', h'', b'', ?_, hI''⟩
    show ((body i h b).bind fun r => (r.1.next (firstPtr rest)).bind fun n' =>
      forEachSafe body fuel (firstPtr rest) n' r.1 r.2) = _
    rw [hstep, Option.bind_some]
    show ((h'.next (firstPtr rest)).bind fun n' => forEachSafe body fuel (firstPtr rest) n' h' b') = _
    rw [hnext, Option.bind_some, hloop]

theorem listForEachSafe_rule {body : ι → Heap ι α → β → Option (Heap ι α × β)}
    {I : List ι → List ι → Heap ι α → β → Prop}
    (hring : ∀ {pre rest h b}, I pre rest h b → Ring h (pre ++ rest))
    (hbody : ∀ {pre i rest h b}, I pre (i :: rest) h b →
      ∃ h' b', body i h b = some (h', b') ∧ (I (pre ++ [i]) rest h' b' ∨ I pre rest h' b'))
    {ids : List ι} {h : Heap ι α} {b : β} {fuel : Nat} (hI : I [] ids h b) (hfuel : ids.length < fuel) :
    ∃ pre' h' b', listForEachSafe body fuel h b = some (h', b') ∧ I pre' [] h' b' := by
  have hr : Ring h ids := hring hI
  obtain ⟨n, hnext, hn⟩ := @Ring.next_firstPtr ι α h [] ids hr
  obtain ⟨pre', h', b', hloop, hI'⟩ := forEachSafe_rule (I := I) hring hbody hI hn hfuel
  refine ⟨pre', h', b', ?_, hI'⟩
  show ((h.next .head).bind fun pos => (h.next pos).bind fun n => forEachSafe body fuel pos n h b) = _
  rw [hr.next_head, Option.bind_some, hnext, Option.bind_some, hloop]

theorem forEachFind_ring (test : α → Bool) {t : ι → Bool} (hr : Ring h (pre ++ rest)) {fuel : Nat}
    (ht : ∀ i ∈ rest, (h.payload i).map test = some (t i)) (hfuel : rest.length < fuel) :
    forEachFind test h fuel (firstPtr rest) = some (rest.find? t) := by
  induction rest generalizing pre fuel with
  | nil =>
    obtain ⟨fuel, rfl⟩ : ∃ k, fuel = k + 1 := ⟨fuel - 1, by simp at hfuel; omega⟩
    rfl
  | cons i rest ih =>
    obtain ⟨fuel, rfl⟩ : ∃ k, fuel = k + 1 := ⟨fuel - 1, by simp at hfuel; omega⟩
    obtain ⟨a, ha, hta⟩ := Option.map_eq_some_iff.mp (ht i List.mem_cons_self)
    have hr' : Ring h (pre ++ [i] ++ rest) := by
      rw [List.append_assoc]
      exact hr
    have hrest : forEachFind test h fuel (firstPtr rest) = some (rest.find? t) := by
      refine ih hr' ?_ (by simpa using hfuel)
      intro j hj
      exact ht j (List.mem_cons_of_mem i hj)
    show ((h.payload i).bind fun a => if test a then some (some i) else
      (h.next (.node i)).bind fun n => forEachFind test h fuel n) = _
    rw [ha, Option.bind_some, hr.around.1, Option.bind_some, hrest, List.find?_cons, hta]
    cases t i with
    | true => rfl
    | false => rfl

theorem listForEachFind_ring (test : α → Bool) {t : ι → Bool} (hr : Ring h ids) {fuel : Nat}
    (ht : ∀ i ∈ ids, (h.payload i).map test = some (t i)) (hfuel : ids.length < fuel) :
    listForEachFind test fuel h = some (ids.find? t) := by
  show ((h.next .head).bind fun pos => forEachFind test h fuel pos) = _
  rw [hr.next_head, Option.bind_some]
  exact @forEachFind_ring ι α h [] ids test t hr fuel ht hfuel

end Loop

end ListHead
