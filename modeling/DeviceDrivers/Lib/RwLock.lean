import Mathlib.Logic.Function.Basic
import DeviceDrivers.Lib.Machine

/-!
# Sections under a reader-writer lock

Threads with local states `τ` share a state `σ`. They touch it only in sections: a thread takes the lock for
reading or for writing, goes through a number of rounds, and gives the lock back with the last one. In
`locked` the rounds of all threads interleave as the lock lets them. In `atomic` a section is one step.

Every run of `locked` is one of `atomic`: its record turns into one of `atomic`, with the sections in the order in
which they end and with the same outputs (`record`, `run_atomic`). While a section is under way, `atomic` is still
where it began (`Follows`): a writer is alone, and readers change nothing.
-/

namespace RwLock

inductive Mode
  | read
  | write
  deriving DecidableEq

/-- What a thread does, by its local state: a step that leaves the shared state alone, the way into a section, and
the rounds of a section. Steps and rounds take an input, and the last round of a section has an output. -/
structure Program (σ τ ι ω : Type*) where
  outside : τ → ι → Option τ
  enter : τ → Option (Mode × τ)
  readRound : σ → τ → ι → Option (τ × Option ω)
  writeRound : σ → τ → ι → Option (σ × τ × Option ω)

/-- The threads that hold the lock. -/
structure Holders where
  readers : List Nat
  writer : Option Nat

namespace Holders

variable (h : Holders) (i : Nat)

def nobody : Holders := ⟨[], none⟩

/-- How thread `i` holds the lock. -/
def modeOf : Option Mode :=
  if h.writer = some i then some .write else if i ∈ h.readers then some .read else none

/-- The lock is taken; `none` is that the thread has to wait. -/
def take : Mode → Option Holders
  | .read => if h.writer = none then some { h with readers := i :: h.readers } else none
  | .write => if h.writer = none ∧ h.readers = [] then some { h with writer := some i } else none

def give : Holders := ⟨h.readers.filter (· ≠ i), if h.writer = some i then none else h.writer⟩

variable {h i} {j : Nat} {m : Mode} {h' : Holders}

theorem take_read (htake : h.take i .read = some h') :
    h.writer = none ∧ h' = { h with readers := i :: h.readers } := by
  simp only [take] at htake
  split_ifs at htake with hfree
  exact ⟨hfree, (Option.some.inj htake).symm⟩

theorem take_write (htake : h.take i .write = some h') :
    h.writer = none ∧ h.readers = [] ∧ h' = { h with writer := some i } := by
  simp only [take] at htake
  split_ifs at htake with hfree
  exact ⟨hfree.1, hfree.2, (Option.some.inj htake).symm⟩

theorem modeOf_take_self (htake : h.take i m = some h') : h'.modeOf i = some m := by
  cases m with
  | read =>
    obtain ⟨hfree, rfl⟩ := take_read htake
    simp [modeOf, hfree]
  | write =>
    obtain ⟨-, -, rfl⟩ := take_write htake
    simp [modeOf]

theorem modeOf_take_of_ne (hj : j ≠ i) (htake : h.take i m = some h') : h'.modeOf j = h.modeOf j := by
  cases m with
  | read =>
    obtain ⟨-, rfl⟩ := take_read htake
    simp [modeOf, hj]
  | write =>
    obtain ⟨hfree, hreaders, rfl⟩ := take_write htake
    simp [modeOf, hfree, hreaders, Ne.symm hj]

theorem modeOf_give_self : (h.give i).modeOf i = none := by
  unfold modeOf give
  split_ifs with hw hi <;> simp_all

theorem modeOf_give_of_ne (hj : j ≠ i) : (h.give i).modeOf j = h.modeOf j := by
  unfold modeOf give
  by_cases hw : h.writer = some i
  · simp [hw, hj, Ne.symm hj]
  · simp [hw, hj]

/-- The writer is the only holder. -/
def Exclusive (h : Holders) : Prop := h.writer ≠ none → h.readers = []

theorem writer_of_write (hi : h.modeOf i = some .write) : h.writer = some i := by
  unfold modeOf at hi
  split_ifs at hi with hw hread
  · exact hw
  · cases hi

theorem Exclusive.alone (hx : h.Exclusive) (hi : h.modeOf i = some .write) (hj : j ≠ i) : h.modeOf j = none := by
  have hw := writer_of_write hi
  unfold modeOf
  rw [hw, hx (by simp [hw])]
  simp [Ne.symm hj]

theorem Exclusive.writer_of_read (hx : h.Exclusive) (hi : h.modeOf i = some .read) : h.writer = none := by
  unfold modeOf at hi
  split_ifs at hi with hw hread
  · cases hi
  · by_contra hne
    rw [hx hne] at hread
    cases hread

theorem exclusive_of_take (htake : h.take i m = some h') : h'.Exclusive := by
  intro hne
  cases m with
  | read =>
    obtain ⟨hfree, rfl⟩ := take_read htake
    exact (hne hfree).elim
  | write =>
    obtain ⟨-, hreaders, rfl⟩ := take_write htake
    exact hreaders

theorem Exclusive.give (hx : h.Exclusive) (i : Nat) : (h.give i).Exclusive := by
  intro hne
  have hwriter : h.writer ≠ none := by
    intro hnone
    apply hne
    simp [Holders.give, hnone]
  simp [Holders.give, hx hwriter]

end Holders

variable {σ τ ι ω : Type*}

/-- The shared state, and the threads by their numbers. -/
structure Threads (σ τ : Type*) where
  shared : σ
  thread : Nat → τ

structure Locked (σ τ : Type*) extends Threads σ τ where
  holders : Holders

inductive LockedEvent (ι : Type*)
  | outside (i : Nat) (x : ι)
  | enter (i : Nat)
  | round (i : Nat) (x : ι)

inductive AtomicEvent (ι : Type*)
  | outside (i : Nat) (x : ι)
  | whole (i : Nat) (xs : List ι)

namespace Program

variable (p : Program σ τ ι ω)

def round (m : Mode) (s : σ) (t : τ) (x : ι) : Option (σ × τ × Option ω) :=
  match m with
  | .read => (p.readRound s t x).map fun r => (s, r)
  | .write => p.writeRound s t x

/-- All rounds of a section. -/
def rounds (m : Mode) : σ → τ → List ι → Option (σ × τ × ω)
  | _, _, [] => none
  | s, t, x :: xs => (p.round m s t x).bind fun r =>
    match r.2.2 with
    | some o => if xs.isEmpty then some (r.1, r.2.1, o) else none
    | none => rounds m r.1 r.2.1 xs

/-- A thread that holds the lock goes through rounds, any other one may enter. -/
def lockedStep (s : Locked σ τ) : LockedEvent ι → Option (Locked σ τ × Option ω)
  | .outside i x =>
    if s.holders.modeOf i = none then
      (p.outside (s.thread i) x).map fun t => (⟨⟨s.shared, Function.update s.thread i t⟩, s.holders⟩, none)
    else none
  | .enter i =>
    if s.holders.modeOf i = none then
      (p.enter (s.thread i)).bind fun r => (s.holders.take i r.1).map fun h =>
        (⟨⟨s.shared, Function.update s.thread i r.2⟩, h⟩, none)
    else none
  | .round i x =>
    (s.holders.modeOf i).bind fun m => (p.round m s.shared (s.thread i) x).map fun r =>
      (⟨⟨r.1, Function.update s.thread i r.2.1⟩, if r.2.2.isSome then s.holders.give i else s.holders⟩, r.2.2)

def locked (first : Threads σ τ) : Machine (Locked σ τ) (LockedEvent ι) (Option ω) :=
  ⟨⟨first, .nobody⟩, p.lockedStep⟩

def atomicStep (c : Threads σ τ) : AtomicEvent ι → Option (Threads σ τ × Option ω)
  | .outside i x => (p.outside (c.thread i) x).map fun t => (⟨c.shared, Function.update c.thread i t⟩, none)
  | .whole i xs =>
    (p.enter (c.thread i)).bind fun r => (p.rounds r.1 c.shared r.2 xs).map fun q =>
      (⟨q.1, Function.update c.thread i q.2.1⟩, some q.2.2)

def atomic (first : Threads σ τ) : Machine (Threads σ τ) (AtomicEvent ι) (Option ω) := ⟨first, p.atomicStep⟩

/-! ### A section that is under way -/

/-- The rounds with inputs `xs` lead from the start of a section to `s` and `t`, and do not end it. -/
inductive Ongoing (m : Mode) (s₀ : σ) (t₀ : τ) : List ι → σ → τ → Prop
  | start : Ongoing m s₀ t₀ [] s₀ t₀
  | round {xs : List ι} {s s' : σ} {t t' : τ} {x : ι} (h : Ongoing m s₀ t₀ xs s t)
      (hround : p.round m s t x = some (s', t', none)) : Ongoing m s₀ t₀ (xs ++ [x]) s' t'

variable {p} {m : Mode} {s s' s₀ : σ} {t t' t₀ : τ} {xs : List ι}

theorem Ongoing.rounds_append (h : p.Ongoing m s₀ t₀ xs s t) (ys : List ι) :
    p.rounds m s₀ t₀ (xs ++ ys) = p.rounds m s t ys := by
  induction h generalizing ys with
  | start => rfl
  | round h hround ih =>
    rw [List.append_assoc, ih, List.singleton_append, rounds, hround]
    rfl

theorem Ongoing.rounds_last (h : p.Ongoing m s₀ t₀ xs s t) {x : ι} {o : ω}
    (hround : p.round m s t x = some (s', t', some o)) : p.rounds m s₀ t₀ (xs ++ [x]) = some (s', t', o) := by
  rw [h.rounds_append, rounds, hround]
  rfl

theorem Ongoing.cons {s₁ : σ} {t₁ : τ} {x : ι} (hround : p.round m s₀ t₀ x = some (s₁, t₁, none))
    (h : p.Ongoing m s₁ t₁ xs s t) : p.Ongoing m s₀ t₀ (x :: xs) s t := by
  induction h with
  | start => exact Ongoing.start.round hround
  | round h hlast ih => exact ih.round hlast

theorem exists_ongoing {o : ω} (h : p.rounds m s₀ t₀ xs = some (s', t', o)) :
    ∃ ys s t x, xs = ys ++ [x] ∧ p.Ongoing m s₀ t₀ ys s t ∧ p.round m s t x = some (s', t', some o) := by
  induction xs generalizing s₀ t₀ with
  | nil => cases h
  | cons x xs ih =>
    obtain ⟨⟨s₁, t₁, r⟩, hround, hrest⟩ := Option.bind_eq_some_iff.mp h
    cases r with
    | none =>
      obtain ⟨ys, s, t, y, rfl, hongoing, hlast⟩ := ih hrest
      exact ⟨x :: ys, s, t, y, rfl, hongoing.cons hround, hlast⟩
    | some o' =>
      dsimp only at hrest
      split_ifs at hrest with hxs
      obtain ⟨rfl, heq⟩ := Prod.mk.inj (Option.some.inj hrest)
      obtain ⟨rfl, rfl⟩ := Prod.mk.inj heq
      obtain rfl := List.isEmpty_iff.mp hxs
      exact ⟨[], s₀, t₀, x, rfl, .start, hround⟩

theorem readRound_shared {x : ι} {r : Option ω} (h : p.round .read s t x = some (s', t', r)) : s' = s := by
  obtain ⟨q, -, heq⟩ := Option.map_eq_some_iff.mp h
  exact (Prod.mk.inj heq).1.symm

end Program

/-! ### Locked runs are atomic runs -/

section

variable {p : Program σ τ ι ω} {s s' : Locked σ τ} {c : Threads σ τ}

/-- What has happened in a run of `locked`: the inputs of the rounds that each thread has made since it entered, and
the events of `atomic` with their outputs. A section stands where it has ended. -/
structure Record (ι ω : Type*) where
  inputs : Nat → List ι
  events : List (AtomicEvent ι × Option ω)

def Record.add (r : Record ι ω) : LockedEvent ι × Option ω → Record ι ω
  | (.outside i x, o) => { r with events := r.events ++ [(.outside i x, o)] }
  | (.enter i, _) => { r with inputs := Function.update r.inputs i [] }
  | (.round i x, none) => { r with inputs := Function.update r.inputs i (r.inputs i ++ [x]) }
  | (.round i x, some o) => { r with events := r.events ++ [(.whole i (r.inputs i ++ [x]), some o)] }

def record (es : List (LockedEvent ι)) (os : List (Option ω)) : Record ι ω :=
  (es.zip os).foldl Record.add ⟨fun _ => [], []⟩

theorem record_concat {es : List (LockedEvent ι)} {os : List (Option ω)} (hlen : os.length = es.length)
    (e : LockedEvent ι) (o : Option ω) : record (es ++ [e]) (os ++ [o]) = (record es os).add (e, o) := by
  unfold record
  rw [List.zip_append hlen.symm, List.foldl_append]
  rfl

theorem outside_mem_of_add {r : Record ι ω} {e : LockedEvent ι × Option ω} {i : Nat} {x : ι} {o : Option ω}
    (hmem : (.outside i x, o) ∈ (r.add e).events) : (.outside i x, o) ∈ r.events ∨ e.1 = .outside i x := by
  obtain ⟨e, o'⟩ := e
  cases e with
  | outside j y =>
    rcases List.mem_append.mp hmem with hmem | hmem
    · exact .inl hmem
    · obtain ⟨heq, -⟩ := Prod.mk.inj (List.mem_singleton.mp hmem)
      obtain ⟨rfl, rfl⟩ := AtomicEvent.outside.inj heq
      exact .inr rfl
  | enter j => exact .inl hmem
  | round j y =>
    cases o' with
    | none => exact .inl hmem
    | some o' =>
      rcases List.mem_append.mp hmem with hmem | hmem
      · exact .inl hmem
      · cases List.mem_singleton.mp hmem

theorem outside_mem_of_record {es : List (LockedEvent ι)} {os : List (Option ω)} (hlen : os.length = es.length)
    {i : Nat} {x : ι} {o : Option ω} (hmem : (.outside i x, o) ∈ (record es os).events) : .outside i x ∈ es := by
  induction es using List.reverseRecOn generalizing os with
  | nil => cases hmem
  | append_singleton es e ih =>
    obtain ⟨os, o', rfl⟩ := List.eq_nil_or_concat os |>.resolve_left (by rintro rfl; simp at hlen)
    have hlen' : os.length = es.length := by simpa using hlen
    rw [List.concat_eq_append, record_concat hlen'] at hmem
    rcases outside_mem_of_add hmem with hmem | rfl
    · exact List.mem_append_left _ (ih hlen' hmem)
    · simp

/-- `c` is `s` without what the sections under way have done, whose rounds have had the inputs `xs`. -/
structure Follows (p : Program σ τ ι ω) (xs : Nat → List ι) (s : Locked σ τ) (c : Threads σ τ) : Prop where
  exclusive : s.holders.Exclusive
  shared : s.holders.writer = none → s.shared = c.shared
  outside : ∀ i, s.holders.modeOf i = none → s.thread i = c.thread i
  inside : ∀ i m, s.holders.modeOf i = some m →
    ∃ t, p.enter (c.thread i) = some (m, t) ∧ p.Ongoing m c.shared t (xs i) s.shared (s.thread i)

variable {xs : Nat → List ι}

theorem follows_first (first : Threads σ τ) : Follows p xs ⟨first, .nobody⟩ first where
  exclusive := fun _ => rfl
  shared := fun _ => rfl
  outside := fun _ _ => rfl
  inside := by
    intro i m hm
    cases hm

theorem Follows.outsideStep (h : Follows p xs s c) {i : Nat} {t : τ} (hout : s.holders.modeOf i = none) :
    Follows p xs ⟨⟨s.shared, Function.update s.thread i t⟩, s.holders⟩
      ⟨c.shared, Function.update c.thread i t⟩ where
  exclusive := h.exclusive
  shared := h.shared
  outside := by
    intro j hj
    by_cases hij : j = i
    · subst hij
      dsimp only
      rw [Function.update_self, Function.update_self]
    · dsimp only
      rw [Function.update_of_ne hij, Function.update_of_ne hij]
      exact h.outside j hj
  inside := by
    intro j m hj
    have hij : j ≠ i := by
      rintro rfl
      rw [hout] at hj
      cases hj
    dsimp only
    rw [Function.update_of_ne hij, Function.update_of_ne hij]
    exact h.inside j m hj

theorem Follows.enterStep (h : Follows p xs s c) {i : Nat} {m : Mode} {t : τ} {holders : Holders}
    (hout : s.holders.modeOf i = none) (henter : p.enter (s.thread i) = some (m, t))
    (htake : s.holders.take i m = some holders) :
    Follows p (Function.update xs i []) ⟨⟨s.shared, Function.update s.thread i t⟩, holders⟩ c := by
  have hfree : s.holders.writer = none := by
    cases m with
    | read => exact (Holders.take_read htake).1
    | write => exact (Holders.take_write htake).1
  refine ⟨Holders.exclusive_of_take htake, fun _ => h.shared hfree, ?_, ?_⟩
  · intro j hj
    have hij : j ≠ i := by
      rintro rfl
      rw [Holders.modeOf_take_self htake] at hj
      cases hj
    rw [Holders.modeOf_take_of_ne hij htake] at hj
    dsimp only
    rw [Function.update_of_ne hij]
    exact h.outside j hj
  · intro j m' hj
    by_cases hij : j = i
    · subst hij
      obtain rfl : m = m' := Option.some.inj ((Holders.modeOf_take_self htake).symm.trans hj)
      refine ⟨t, ?_, ?_⟩
      · rw [← h.outside j hout]
        exact henter
      · dsimp only
        rw [Function.update_self, Function.update_self, h.shared hfree]
        exact .start
    · rw [Holders.modeOf_take_of_ne hij htake] at hj
      dsimp only
      rw [Function.update_of_ne hij, Function.update_of_ne hij]
      exact h.inside j m' hj

/-- What the others see of a round: a writer has no others, and a reader changes nothing. -/
theorem Follows.shared_of_round (h : Follows p xs s c) {i j : Nat} {m m' : Mode} {x : ι} {shared : σ} {t : τ}
    {o : Option ω} (hi : s.holders.modeOf i = some m) (hround : p.round m s.shared (s.thread i) x = some (shared, t, o))
    (hj : s.holders.modeOf j = some m') (hij : j ≠ i) : shared = s.shared := by
  cases m with
  | read => exact Program.readRound_shared hround
  | write =>
    rw [h.exclusive.alone hi hij] at hj
    cases hj

theorem Follows.roundStep (h : Follows p xs s c) {i : Nat} {m : Mode} {x : ι} {shared : σ} {t : τ}
    (hi : s.holders.modeOf i = some m) (hround : p.round m s.shared (s.thread i) x = some (shared, t, none)) :
    Follows p (Function.update xs i (xs i ++ [x])) ⟨⟨shared, Function.update s.thread i t⟩, s.holders⟩ c := by
  refine ⟨h.exclusive, ?_, ?_, ?_⟩
  · intro hfree
    cases m with
    | read => exact (Program.readRound_shared hround).trans (h.shared hfree)
    | write =>
      rw [Holders.writer_of_write hi] at hfree
      cases hfree
  · intro j hj
    have hij : j ≠ i := by
      rintro rfl
      rw [hi] at hj
      cases hj
    dsimp only
    rw [Function.update_of_ne hij]
    exact h.outside j hj
  · intro j m' hj
    by_cases hij : j = i
    · subst hij
      obtain rfl : m = m' := Option.some.inj (hi.symm.trans hj)
      obtain ⟨t₀, henter, hongoing⟩ := h.inside j m hi
      refine ⟨t₀, henter, ?_⟩
      dsimp only
      rw [Function.update_self, Function.update_self]
      exact hongoing.round hround
    · obtain rfl := h.shared_of_round hi hround hj hij
      dsimp only
      rw [Function.update_of_ne hij, Function.update_of_ne hij]
      exact h.inside j m' hj

theorem Follows.lastRound (h : Follows p xs s c) {i : Nat} {m : Mode} {x : ι} {shared : σ} {t : τ} {o : ω}
    (hi : s.holders.modeOf i = some m)
    (hround : p.round m s.shared (s.thread i) x = some (shared, t, some o)) :
    ∃ t₀, p.enter (c.thread i) = some (m, t₀) ∧
      p.rounds m c.shared t₀ (xs i ++ [x]) = some (shared, t, o) := by
  obtain ⟨t₀, henter, hongoing⟩ := h.inside i m hi
  exact ⟨t₀, henter, hongoing.rounds_last hround⟩

theorem Follows.endStep (h : Follows p xs s c) {i : Nat} {m : Mode} {x : ι} {shared : σ} {t : τ} {o : ω}
    (hi : s.holders.modeOf i = some m)
    (hround : p.round m s.shared (s.thread i) x = some (shared, t, some o)) :
    Follows p xs ⟨⟨shared, Function.update s.thread i t⟩, s.holders.give i⟩
      ⟨shared, Function.update c.thread i t⟩ := by
  refine ⟨h.exclusive.give i, fun _ => rfl, ?_, ?_⟩
  · intro j hj
    by_cases hij : j = i
    · subst hij
      dsimp only
      rw [Function.update_self, Function.update_self]
    · rw [Holders.modeOf_give_of_ne hij] at hj
      dsimp only
      rw [Function.update_of_ne hij, Function.update_of_ne hij]
      exact h.outside j hj
  · intro j m' hj
    have hij : j ≠ i := by
      rintro rfl
      rw [Holders.modeOf_give_self] at hj
      cases hj
    rw [Holders.modeOf_give_of_ne hij] at hj
    obtain rfl := h.shared_of_round hi hround hj hij
    obtain ⟨t₀, henter, hongoing⟩ := h.inside j m' hj
    have hmode : m = .read := by
      cases m with
      | read => rfl
      | write =>
        rw [h.exclusive.alone hi hij] at hj
        cases hj
    -- the other one is a reader too, so nothing has changed since it began
    have hsame : s.shared = c.shared := h.shared (h.exclusive.writer_of_read (hmode ▸ hi))
    rw [← hsame] at hongoing
    dsimp only
    rw [Function.update_of_ne hij, Function.update_of_ne hij]
    exact ⟨t₀, henter, hongoing⟩

theorem Follows.step {r : Record ι ω} (h : Follows p r.inputs s c) {e : LockedEvent ι} {o : Option ω}
    (hstep : p.lockedStep s e = some (s', o)) :
    (o = none ∧ (r.add (e, o)).events = r.events ∧ Follows p (r.add (e, o)).inputs s' c) ∨
      ∃ e' c', (r.add (e, o)).events = r.events ++ [(e', o)] ∧ p.atomicStep c e' = some (c', o) ∧
        Follows p (r.add (e, o)).inputs s' c' := by
  cases e with
  | outside i x =>
    simp only [Program.lockedStep] at hstep
    split_ifs at hstep with hout
    obtain ⟨t, ht, heq⟩ := Option.map_eq_some_iff.mp hstep
    obtain ⟨rfl, rfl⟩ := Prod.mk.inj heq
    right
    refine ⟨.outside i x, _, rfl, ?_, h.outsideStep hout⟩
    rw [h.outside i hout] at ht
    simp [Program.atomicStep, ht]
  | enter i =>
    simp only [Program.lockedStep] at hstep
    split_ifs at hstep with hout
    obtain ⟨⟨m, t⟩, henter, hmap⟩ := Option.bind_eq_some_iff.mp hstep
    obtain ⟨holders, htake, heq⟩ := Option.map_eq_some_iff.mp hmap
    obtain ⟨rfl, rfl⟩ := Prod.mk.inj heq
    left
    exact ⟨rfl, rfl, h.enterStep hout henter htake⟩
  | round i x =>
    simp only [Program.lockedStep] at hstep
    obtain ⟨m, hi, hmap⟩ := Option.bind_eq_some_iff.mp hstep
    obtain ⟨⟨shared, t, out⟩, hround, heq⟩ := Option.map_eq_some_iff.mp hmap
    obtain ⟨rfl, rfl⟩ := Prod.mk.inj heq
    cases out with
    | none =>
      left
      exact ⟨rfl, rfl, h.roundStep hi hround⟩
    | some o =>
      right
      obtain ⟨t₀, henter, hrounds⟩ := h.lastRound hi hround
      refine ⟨.whole i (r.inputs i ++ [x]), _, rfl, ?_, h.endStep hi hround⟩
      simp [Program.atomicStep, henter, hrounds]

/-- Every run of `locked` follows the run of `atomic` that its record tells, with the same outputs. -/
theorem run_atomic {first : Threads σ τ} {es : List (LockedEvent ι)} {os : List (Option ω)}
    (hrun : (p.locked first).run es = some (s, os)) :
    ∃ c, (p.atomic first).run ((record es os).events.map Prod.fst) = some (c, (record es os).events.map Prod.snd) ∧
      Follows p (record es os).inputs s c ∧
      ((record es os).events.map Prod.snd).filterMap id = os.filterMap id := by
  induction es using List.reverseRecOn generalizing s os with
  | nil =>
    obtain ⟨rfl, rfl⟩ := Prod.mk.inj (Option.some.inj hrun)
    exact ⟨first, rfl, follows_first first, rfl⟩
  | append_singleton es e ih =>
    obtain ⟨u, os', o, hpre, hstep, rfl⟩ := (p.locked first).run_concat_eq_some.mp hrun
    obtain ⟨c, hcs, hfollows, houts⟩ := ih hpre
    rw [record_concat ((p.locked first).length_of_runFrom hpre)]
    rcases hfollows.step hstep with ⟨rfl, hevents, hnext⟩ | ⟨e', c', hevents, hatomic, hnext⟩
    · refine ⟨c, ?_, hnext, ?_⟩
      · rw [hevents]
        exact hcs
      · rw [hevents, houts, List.filterMap_append]
        simp
    · refine ⟨c', ?_, hnext, ?_⟩
      · rw [hevents, List.map_append, List.map_append]
        exact (p.atomic first).run_concat_eq_some.mpr ⟨c, _, o, hcs, hatomic, rfl⟩
      · rw [hevents, List.map_append, List.filterMap_append, List.filterMap_append, houts]
        rfl

/-! ### One section of one thread -/

/-- The input of a round of thread `i`. -/
def LockedEvent.roundOf (i : Nat) : LockedEvent ι → Option ι
  | .round j x => if j = i then some x else none
  | _ => none

theorem Program.lockedStep_inside {i : Nat} {m : Mode} (hx : s.holders.Exclusive) (hi : s.holders.modeOf i = some m)
    {e : LockedEvent ι} {o : Option ω} (hstep : p.lockedStep s e = some (s', o)) :
    (e.roundOf i = none ∧ s'.holders.Exclusive ∧ s'.holders.modeOf i = some m ∧ s'.shared = s.shared ∧
      s'.thread i = s.thread i) ∨
    ∃ x, e = .round i x ∧ p.round m s.shared (s.thread i) x = some (s'.shared, s'.thread i, o) ∧
      (o = none → s'.holders = s.holders) := by
  cases e with
  | outside j x =>
    left
    simp only [Program.lockedStep] at hstep
    split_ifs at hstep with hout
    obtain ⟨t, -, heq⟩ := Option.map_eq_some_iff.mp hstep
    obtain ⟨rfl, -⟩ := Prod.mk.inj heq
    have hij : i ≠ j := by
      rintro rfl
      rw [hout] at hi
      cases hi
    exact ⟨rfl, hx, hi, rfl, Function.update_of_ne hij _ _⟩
  | enter j =>
    left
    simp only [Program.lockedStep] at hstep
    split_ifs at hstep with hout
    obtain ⟨⟨m', t⟩, -, hmap⟩ := Option.bind_eq_some_iff.mp hstep
    obtain ⟨holders, htake, heq⟩ := Option.map_eq_some_iff.mp hmap
    obtain ⟨rfl, -⟩ := Prod.mk.inj heq
    have hij : i ≠ j := by
      rintro rfl
      rw [hout] at hi
      cases hi
    refine ⟨rfl, Holders.exclusive_of_take htake, ?_, rfl, Function.update_of_ne hij _ _⟩
    exact (Holders.modeOf_take_of_ne hij htake).trans hi
  | round j x =>
    simp only [Program.lockedStep] at hstep
    obtain ⟨m', hj, hmap⟩ := Option.bind_eq_some_iff.mp hstep
    obtain ⟨⟨shared, t, r⟩, hround, heq⟩ := Option.map_eq_some_iff.mp hmap
    obtain ⟨rfl, rfl⟩ := Prod.mk.inj heq
    by_cases hij : i = j
    · subst hij
      right
      obtain rfl : m = m' := Option.some.inj (hi.symm.trans hj)
      refine ⟨x, rfl, ?_, ?_⟩
      · rw [hround]
        simp
      · rintro rfl
        rfl
    · left
      have hshared : shared = s.shared := by
        cases m' with
        | read => exact Program.readRound_shared hround
        | write =>
          rw [hx.alone hj hij] at hi
          cases hi
      refine ⟨if_neg (Ne.symm hij), ?_, ?_, hshared, Function.update_of_ne hij _ _⟩
      · dsimp only
        split_ifs
        · exact hx.give j
        · exact hx
      · dsimp only
        split_ifs
        · exact (Holders.modeOf_give_of_ne hij).trans hi
        · exact hi

theorem Program.ongoing_of_runFrom {first : Threads σ τ} {i : Nat} {m : Mode} (hx : s.holders.Exclusive)
    (hi : s.holders.modeOf i = some m) {fs : List (LockedEvent ι)} {os : List (Option ω)}
    (hrun : (p.locked first).runFrom s fs = some (s', os)) (hon : ∀ x o, (.round i x, some o) ∉ fs.zip os) :
    s'.holders.Exclusive ∧ s'.holders.modeOf i = some m ∧
      p.Ongoing m s.shared (s.thread i) (fs.filterMap (LockedEvent.roundOf i)) s'.shared (s'.thread i) := by
  induction fs using List.reverseRecOn generalizing s' os with
  | nil =>
    obtain ⟨rfl, rfl⟩ := Prod.mk.inj (Option.some.inj hrun)
    exact ⟨hx, hi, .start⟩
  | append_singleton fs e ih =>
    obtain ⟨u, os', o, hpre, hstep, rfl⟩ := (p.locked first).runFrom_concat_eq_some.mp hrun
    rw [List.zip_append (Machine.length_of_runFrom _ hpre).symm] at hon
    obtain ⟨hu, hui, hongoing⟩ := ih hpre fun x o hmem => hon x o (List.mem_append_left _ hmem)
    rw [List.filterMap_append]
    rcases p.lockedStep_inside hu hui hstep with ⟨hother, hx', hi', hshared, hthread⟩ | ⟨x, rfl, hround, hsame⟩
    · rw [List.filterMap_cons_none hother, List.filterMap_nil, List.append_nil, hshared, hthread]
      exact ⟨hx', hi', hongoing⟩
    · have hnone : o = none := by
        cases o with
        | none => rfl
        | some o => exact (hon x o (List.mem_append_right _ (List.mem_singleton.mpr rfl))).elim
      subst hnone
      have hown : LockedEvent.roundOf i (.round i x) = some x := if_pos rfl
      rw [List.filterMap_cons_some hown, List.filterMap_nil, hsame rfl]
      exact ⟨hu, hui, hongoing.round hround⟩

end

end RwLock
