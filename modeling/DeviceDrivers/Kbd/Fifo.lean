import DeviceDrivers.Kbd.Ring
import Mathlib.Data.List.Forall2

/-!
# The keyboard driver against an ideal queue

`queue` is what a keyboard buffer is for: a key press appends its character, a read removes the
oldest ones, a write empties it. The driver's `put_char` stores the character at `getIdx`, the slot
the *reader* takes next, so a second unread character replaces the first one and leaves the slot
after it unwritten.

`load` follows the number of unread characters and its peak since the last clear; neither depends
on which keys are pressed. The driver delivers the queue's bytes, whatever keys are pressed,
exactly when no read takes a character after two have been unread at once (`fifo_iff`).
-/

namespace DeviceDrivers.Kbd

/-! ### The ideal queue -/

/-- The read has no fault of `put_user` in it (the other events have none). -/
def KbdEvent.noFault : KbdEvent → Bool
  | .read _ (some _) => false
  | _ => true

def queueStep (q : List UInt8) : KbdEvent → Option (List UInt8 × List UInt8)
  | .irq data => some (if isKeyPress data.toUInt32 then q ++ [getAscii data.toUInt32] else q, [])
  | .read size none => some (q.drop size, q.take size)
  | .read _ (some _) => none
  | .write _ => some ([], [])

/-- The ideal queue; its output is the bytes delivered. -/
def queue : Machine (List UInt8) KbdEvent (List UInt8) := ⟨[], queueStep⟩

/-- The bytes the reads of a run deliver, one after another. -/
def delivered (es : List KbdEvent) : Option (List UInt8) :=
  (kbd.run es).map fun r => r.2.flatMap (·.stored)

/-- The bytes the ideal queue delivers. -/
def queueDelivered (es : List KbdEvent) : Option (List UInt8) :=
  (queue.run es).map fun r => r.2.flatten

/-! ### The number of unread characters -/

/-- How many characters are unread, and the most that were unread at once since the last clear. -/
structure Load where
  unread : Nat
  peak : Nat

def loadStep (l : Load) : KbdEvent → Load
  | .irq data =>
    if isKeyPress data.toUInt32 then ⟨l.unread + 1, max l.peak (l.unread + 1)⟩ else l
  | .read size _ => { l with unread := l.unread - size }
  | .write _ => ⟨0, 0⟩

def load : Machine Load KbdEvent Unit := ⟨⟨0, 0⟩, fun l e => some (loadStep l e, ())⟩

/-- A read that takes a character comes at a time when no two characters have been unread at once
since the last clear. -/
def ReadsLone (l : Load) : KbdEvent → Prop
  | .read size _ => 0 < size → 0 < l.unread → l.peak ≤ 1
  | _ => True

theorem load_unread_le {es : List KbdEvent} {l : Load} {ls : List Unit}
    (hrun : load.run es = some (l, ls)) : l.unread ≤ es.length := by
  induction es using List.reverseRecOn generalizing l ls with
  | nil =>
    obtain ⟨rfl, -⟩ := Prod.mk.inj (Option.some.inj hrun)
    exact Nat.le_refl 0
  | append_singleton es e ih =>
    obtain ⟨l', ls', o, hpre, hstep, -⟩ := load.run_concat_eq_some.mp hrun
    obtain rfl : loadStep l' e = l := congrArg Prod.fst (Option.some.inj hstep)
    have hle := ih hpre
    have hlen : (es ++ [e]).length = es.length + 1 := by simp
    cases e with
    | irq data =>
      simp only [loadStep]
      split_ifs
      · dsimp only
        omega
      · omega
    | read size fault =>
      simp only [loadStep]
      omega
    | write size => exact Nat.zero_le _

theorem load_always_le {es : List KbdEvent} (h : es.length ≤ BUFF_SIZE) :
    load.Always (·.unread ≤ BUFF_SIZE) es := fun _ _ _ hpre hrun =>
  (load_unread_le hrun).trans (hpre.length_le.trans h)

/-- The same event up to which key is pressed or released. -/
def KbdEvent.SameKind : KbdEvent → KbdEvent → Prop
  | .irq data, .irq data' => isKeyPress data.toUInt32 = isKeyPress data'.toUInt32
  | e, e' => e = e'

/-! ### The driver keeps up with the queue while characters are read one by one -/

/-- The driver's ring, the ideal queue and the load agree. -/
structure Matches (dev : KbdDev) (q : List UInt8) (l : Load) : Prop where
  getIdx_lt : dev.getIdx < BUFF_SIZE
  cnt_eq : dev.cnt = q.length
  unread_eq : l.unread = q.length
  le_peak : q.length ≤ l.peak
  lone : l.peak ≤ 1 → q = [] ∨ q = [dev.slot dev.getIdx]

theorem matches_fresh : Matches .fresh [] ⟨0, 0⟩ :=
  ⟨by decide, rfl, rfl, Nat.le_refl _, fun _ => .inl rfl⟩

theorem matches_press {dev : KbdDev} {q : List UInt8} {l : Load} (h : Matches dev q l) (ch : UInt8)
    (hcap : l.unread + 1 ≤ BUFF_SIZE) :
    Matches (putChar dev ch) (q ++ [ch]) ⟨l.unread + 1, max l.peak (l.unread + 1)⟩ := by
  have hsize : BUFF_SIZE = 100 := rfl
  have hunread := h.unread_eq
  have hlen : (q ++ [ch]).length = q.length + 1 := by simp
  refine ⟨h.getIdx_lt, ?_, by rw [hlen, hunread], ?_, fun hpeak => .inr ?_⟩
  · rw [putChar_cnt, h.cnt_eq, sizeT_of_lt (by omega), hlen]
  · rw [hlen, hunread]
    exact Nat.le_max_right _ _
  · have hempty : q = [] := List.length_eq_zero_iff.mp (by simp only at hpeak; omega)
    simp [hempty, putChar_slot_self dev ch h.getIdx_lt]

theorem matches_read {dev : KbdDev} {q : List UInt8} {l : Load} (h : Matches dev q l) {size : Nat}
    (hlone : 0 < size → 0 < l.unread → l.peak ≤ 1) :
    (kbdRead dev size none).stored = q.take size ∧
      Matches (kbdRead dev size none).dev (q.drop size) { l with unread := l.unread - size } := by
  have hi := h.getIdx_lt
  rw [kbdRead_eq hi]
  simp only [readOutcome, storedCount, takenCount, Option.elim_none]
  by_cases htakes : 0 < size ∧ 0 < q.length
  · -- the queue is the single character in the slot the driver reads
    obtain ⟨hsize, hq⟩ := htakes
    have hpeak : l.peak ≤ 1 := hlone hsize (h.unread_eq ▸ hq)
    obtain rfl | hsingle := h.lone hpeak
    · simp at hq
    have hlen : q.length = 1 := by rw [hsingle]; rfl
    have hmin : min size dev.cnt = 1 := by rw [h.cnt_eq, hlen]; omega
    have hdrop : q.drop size = [] := List.drop_eq_nil_of_le (by omega)
    have htake : q.take size = q := List.take_of_length_le (by omega)
    rw [hmin, hdrop, htake]
    refine ⟨?_, advance_getIdx_lt _ _, ?_, ?_, Nat.zero_le _, fun _ => .inl rfl⟩
    · rw [hsingle]
      simp [Nat.mod_eq_of_lt hi]
    · simp [KbdDev.advance, h.cnt_eq, hlen]
    · simp [h.unread_eq]
      omega
  · have hmin : min size dev.cnt = 0 := by rw [h.cnt_eq]; omega
    have hunread : l.unread - size = l.unread := by rw [h.unread_eq]; omega
    rw [hmin, advance_zero hi, hunread]
    rcases Nat.eq_zero_or_pos size with rfl | hpos
    · exact ⟨by simp, by simpa using h⟩
    · obtain rfl : q = [] := List.length_eq_zero_iff.mp (by omega)
      exact ⟨by simp, by simpa using h⟩

theorem matches_step {dev : KbdDev} {q : List UInt8} {l : Load} (h : Matches dev q l)
    {e : KbdEvent} (hok : e.noFault = true) (hlone : ReadsLone l e)
    (hcap : (loadStep l e).unread ≤ BUFF_SIZE) :
    ∃ q' bytes, queueStep q e = some (q', bytes) ∧ (kbdStep dev e).2.stored = bytes ∧
      Matches (kbdStep dev e).1 q' (loadStep l e) := by
  cases e with
  | irq data =>
    refine ⟨_, _, rfl, rfl, ?_⟩
    simp only [kbdStep, kbdIrqHandler, loadStep] at hcap ⊢
    by_cases hp : isKeyPress data.toUInt32 = true
    · simp only [hp, if_true] at hcap ⊢
      exact matches_press h _ hcap
    · simp only [hp] at hcap ⊢
      exact h
  | read size fault =>
    cases fault with
    | some j => simp [KbdEvent.noFault] at hok
    | none =>
      obtain ⟨hstored, hmatches⟩ := matches_read h hlone
      exact ⟨_, _, rfl, hstored, hmatches⟩
  | write size => exact ⟨_, _, rfl, rfl, ⟨Nat.zero_lt_succ _, rfl, rfl, Nat.le_refl _, fun _ => .inl rfl⟩⟩

theorem SameKind.refl (e : KbdEvent) : e.SameKind e := by
  cases e <;> simp [KbdEvent.SameKind]

theorem SameKind.loadStep_eq {e e' : KbdEvent} (h : e.SameKind e') (l : Load) :
    loadStep l e' = loadStep l e := by
  cases e <;> cases e' <;> simp_all [KbdEvent.SameKind, loadStep]

theorem SameKind.noFault_eq {e e' : KbdEvent} (h : e.SameKind e') : e'.noFault = e.noFault := by
  cases e <;> cases e' <;> simp_all [KbdEvent.SameKind, KbdEvent.noFault]

theorem SameKind.readsLone_iff {e e' : KbdEvent} (h : e.SameKind e') (l : Load) :
    ReadsLone l e' ↔ ReadsLone l e := by
  cases e <;> cases e' <;> simp_all [KbdEvent.SameKind, ReadsLone]

theorem exists_concat_of_forall₂ {α β : Type} {R : α → β → Prop} {xs : List α} {x : α}
    {zs : List β} (h : List.Forall₂ R (xs ++ [x]) zs) :
    ∃ ys y, zs = ys ++ [y] ∧ List.Forall₂ R xs ys ∧ R x y := by
  induction xs generalizing zs with
  | nil =>
    cases h with
    | cons hx hnil =>
      cases hnil
      exact ⟨[], _, rfl, .nil, hx⟩
  | cons a xs ih =>
    cases h with
    | cons ha htail =>
      obtain ⟨ys, y, rfl, hys, hy⟩ := ih htail
      exact ⟨_ :: ys, y, rfl, .cons ha hys, hy⟩

theorem matches_run {es es' : List KbdEvent} (hkind : List.Forall₂ KbdEvent.SameKind es es')
    (hok : ∀ e ∈ es, e.noFault = true) (hcap : load.Always (·.unread ≤ BUFF_SIZE) es)
    (hlone : load.EveryStep ReadsLone es) :
    ∃ dev os q bs l ls, kbd.run es' = some (dev, os) ∧ queue.run es' = some (q, bs) ∧
      load.run es = some (l, ls) ∧ os.flatMap (·.stored) = bs.flatten ∧ Matches dev q l := by
  induction es using List.reverseRecOn generalizing es' with
  | nil =>
    obtain rfl := List.forall₂_nil_left_iff.mp hkind
    exact ⟨_, _, _, _, _, _, rfl, rfl, rfl, rfl, matches_fresh⟩
  | append_singleton es e ih =>
    obtain ⟨fs, f, rfl, hfs, hf⟩ := exists_concat_of_forall₂ hkind
    rw [Machine.always_concat] at hcap
    rw [Machine.everyStep_concat] at hlone
    obtain ⟨dev, os, q, bs, l, ls, hkbd, hqueue, hload, hbytes, hmatch⟩ :=
      ih hfs (fun g hg => hok g (by simp [hg])) hcap.1 hlone.1
    have hload' : load.run (es ++ [e]) = some (loadStep l e, ls ++ [()]) :=
      load.run_concat_eq_some.mpr ⟨l, ls, (), hload, rfl, rfl⟩
    obtain ⟨q', bytes, hq, hout, hmatch'⟩ := matches_step hmatch
      ((SameKind.noFault_eq hf).trans (hok e (by simp)))
      ((SameKind.readsLone_iff hf l).mpr (hlone.2 l ls hload))
      (SameKind.loadStep_eq hf l ▸ hcap.2 _ _ hload')
    rw [SameKind.loadStep_eq hf] at hmatch'
    refine ⟨_, _, _, _, _, _,
      kbd.run_concat_eq_some.mpr ⟨dev, os, (kbdStep dev f).2, hkbd, rfl, rfl⟩,
      queue.run_concat_eq_some.mpr ⟨q, bs, bytes, hqueue, hq, rfl⟩, hload', ?_, hmatch'⟩
    simp [hbytes, hout]

/-! ### Two unread characters

Where a read takes a character although two have been unread at once, there are keys that show it:
`q` whenever the buffer is empty and `w` otherwise. The queue then has `q` in front, and the slot
the driver reads holds the `w` pressed last. -/

structure Coded (dev : KbdDev) (q : List UInt8) (l : Load) : Prop extends Matches dev q l where
  front : ∀ c ∈ q.head?, c = getAscii 0x10
  replaced : 2 ≤ l.peak → q ≠ [] ∧ dev.slot dev.getIdx = getAscii 0x11

/-- The event with the key chosen for a queue `q`. -/
def KbdEvent.recode (q : List UInt8) : KbdEvent → KbdEvent
  | .irq data =>
    if isKeyPress data.toUInt32 then (if q = [] then .irq 0x10 else .irq 0x11) else .irq data
  | e => e

theorem recode_sameKind (q : List UInt8) (e : KbdEvent) : e.SameKind (e.recode q) := by
  cases e with
  | irq data =>
    simp only [KbdEvent.recode]
    split_ifs with hp hq
    · exact hp.trans (by decide)
    · exact hp.trans (by decide)
    · rfl
  | read size fault => rfl
  | write size => rfl

theorem coded_fresh : Coded .fresh [] ⟨0, 0⟩ :=
  ⟨matches_fresh, fun _ h => by simp at h, fun h => by simp at h⟩

theorem coded_press_empty {dev : KbdDev} {l : Load} (h : Coded dev [] l)
    (hcap : l.unread + 1 ≤ BUFF_SIZE) :
    Coded (putChar dev (getAscii 0x10)) [getAscii 0x10] ⟨l.unread + 1, max l.peak (l.unread + 1)⟩ := by
  refine ⟨matches_press h.toMatches _ hcap, fun c hc => by simpa using hc.symm, fun hpeak => ?_⟩
  have hunread : l.unread = 0 := h.unread_eq
  have hsmall : ¬ 2 ≤ l.peak := fun hp => (h.replaced hp).1 rfl
  simp only at hpeak
  omega

theorem coded_press_nonempty {dev : KbdDev} {q : List UInt8} {l : Load} (h : Coded dev q l)
    (hq : q ≠ []) (hcap : l.unread + 1 ≤ BUFF_SIZE) :
    Coded (putChar dev (getAscii 0x11)) (q ++ [getAscii 0x11])
      ⟨l.unread + 1, max l.peak (l.unread + 1)⟩ := by
  refine ⟨matches_press h.toMatches _ hcap, fun c hc => ?_, fun _ => ⟨by simp, ?_⟩⟩
  · rw [List.head?_append_of_ne_nil _ hq] at hc
    exact h.front c hc
  · exact putChar_slot_self dev _ h.getIdx_lt

theorem coded_read {dev : KbdDev} {q : List UInt8} {l : Load} (h : Coded dev q l) {size : Nat}
    (hlone : 0 < size → 0 < l.unread → l.peak ≤ 1) :
    Coded (kbdRead dev size none).dev (q.drop size) { l with unread := l.unread - size } := by
  have hmatch := (matches_read h.toMatches hlone).2
  rcases Nat.eq_zero_or_pos size with rfl | hsize
  · have hsame : (kbdRead dev 0 none).dev = dev := rfl
    rw [hsame] at hmatch ⊢
    exact ⟨hmatch, h.front, h.replaced⟩
  · -- the read takes all there is
    have hpeak : l.peak ≤ 1 := by
      by_contra hbig
      have hne := (h.replaced (by omega)).1
      exact hbig (hlone hsize (h.unread_eq ▸ List.length_pos_iff.mpr hne))
    have hle := h.le_peak
    have hdrop : q.drop size = [] := List.drop_eq_nil_of_le (by omega)
    rw [hdrop] at hmatch ⊢
    exact ⟨hmatch, fun c hc => by simp at hc, fun hbig => by simp only at hbig; omega⟩

theorem coded_step {dev : KbdDev} {q : List UInt8} {l : Load} (h : Coded dev q l) {e : KbdEvent}
    (hok : e.noFault = true) (hlone : ReadsLone l e) (hcap : (loadStep l e).unread ≤ BUFF_SIZE) :
    ∃ q' bytes, queueStep q (e.recode q) = some (q', bytes) ∧
      (kbdStep dev (e.recode q)).2.stored = bytes ∧
      Coded (kbdStep dev (e.recode q)).1 q' (loadStep l e) := by
  cases e with
  | irq data =>
    by_cases hp : isKeyPress data.toUInt32 = true
    · have hload : loadStep l (.irq data) = ⟨l.unread + 1, max l.peak (l.unread + 1)⟩ := by
        simp [loadStep, hp]
      rw [hload] at hcap ⊢
      by_cases hq : q = []
      · subst hq
        rw [show KbdEvent.recode [] (.irq data) = .irq 0x10 by simp [KbdEvent.recode, hp]]
        exact ⟨[getAscii 0x10], [], rfl, rfl, coded_press_empty h hcap⟩
      · rw [show KbdEvent.recode q (.irq data) = .irq 0x11 by simp [KbdEvent.recode, hp, hq]]
        exact ⟨q ++ [getAscii 0x11], [], rfl, rfl, coded_press_nonempty h hq hcap⟩
    · rw [show KbdEvent.recode q (.irq data) = .irq data by simp [KbdEvent.recode, hp]]
      refine ⟨q, [], by simp [queueStep, hp], rfl, ?_⟩
      simpa [kbdStep, kbdIrqHandler, loadStep, hp] using h
  | read size fault =>
    cases fault with
    | some j => simp [KbdEvent.noFault] at hok
    | none => exact ⟨_, _, rfl, (matches_read h.toMatches hlone).1, coded_read h hlone⟩
  | write size =>
    exact ⟨_, _, rfl, rfl, ⟨Nat.zero_lt_succ _, rfl, rfl, Nat.le_refl _, fun _ => .inl rfl⟩,
      fun c hc => by simp at hc, fun hbig => by simp [loadStep] at hbig⟩

theorem coded_run (es : List KbdEvent) (hok : ∀ e ∈ es, e.noFault = true)
    (hcap : load.Always (·.unread ≤ BUFF_SIZE) es) (hlone : load.EveryStep ReadsLone es) :
    ∃ es' dev os q bs l ls, List.Forall₂ KbdEvent.SameKind es es' ∧ kbd.run es' = some (dev, os) ∧
      queue.run es' = some (q, bs) ∧ load.run es = some (l, ls) ∧
      os.flatMap (·.stored) = bs.flatten ∧ Coded dev q l := by
  induction es using List.reverseRecOn with
  | nil => exact ⟨[], _, _, _, _, _, _, .nil, rfl, rfl, rfl, rfl, coded_fresh⟩
  | append_singleton es e ih =>
    rw [Machine.always_concat] at hcap
    rw [Machine.everyStep_concat] at hlone
    obtain ⟨es', dev, os, q, bs, l, ls, hkind, hkbd, hqueue, hload, hbytes, hcoded⟩ :=
      ih (fun f hf => hok f (by simp [hf])) hcap.1 hlone.1
    have hload' : load.run (es ++ [e]) = some (loadStep l e, ls ++ [()]) :=
      load.run_concat_eq_some.mpr ⟨l, ls, (), hload, rfl, rfl⟩
    obtain ⟨q', bytes, hq, hout, hcoded'⟩ := coded_step hcoded (hok e (by simp))
      (hlone.2 l ls hload) (hcap.2 _ _ hload')
    refine ⟨es' ++ [e.recode q], _, _, _, _, _, _,
      List.rel_append hkind (.cons (recode_sameKind q e) .nil),
      kbd.run_concat_eq_some.mpr ⟨dev, os, (kbdStep dev (e.recode q)).2, hkbd, rfl, rfl⟩,
      queue.run_concat_eq_some.mpr ⟨q, bs, bytes, hqueue, hq, rfl⟩, hload', ?_, hcoded'⟩
    simp [hbytes, hout]

theorem coded_read_differs {dev : KbdDev} {q : List UInt8} {l : Load} (h : Coded dev q l)
    {size : Nat} (hbad : ¬ ReadsLone l (.read size none)) :
    ∃ xs ys, (kbdStep dev (.read size none)).2.stored = getAscii 0x11 :: xs ∧
      q.take size = getAscii 0x10 :: ys := by
  simp only [ReadsLone, not_forall] at hbad
  obtain ⟨hsize, hunread, hpeak⟩ := hbad
  obtain ⟨hne, hslot⟩ := h.replaced (by omega)
  obtain ⟨c, cs, rfl⟩ := List.exists_cons_of_ne_nil hne
  obtain ⟨n, rfl⟩ : ∃ n, size = n + 1 := ⟨size - 1, by omega⟩
  obtain rfl : c = getAscii 0x10 := h.front c rfl
  have hmin : min (n + 1) dev.cnt = min n cs.length + 1 := by
    rw [h.cnt_eq, List.length_cons, Nat.add_min_add_right]
  have hread : (kbdRead dev (n + 1) none).stored = dev.slot dev.getIdx ::
      (readOutcome (dev.advance 1) 1 (min n cs.length) none).stored := by
    rw [kbdRead_eq h.getIdx_lt, hmin]
    exact congrArg ReadResult.stored (readOutcome_succ h.getIdx_lt 0 _ none)
  exact ⟨_, cs.take n, hslot ▸ hread, rfl⟩

theorem delivered_append {pre : List KbdEvent} {dev : KbdDev} {os : List KbdOutput}
    (hrun : kbd.run pre = some (dev, os)) (size : Nat) (post : List KbdEvent) :
    ∃ ws, delivered (pre ++ .read size none :: post) =
      some (os.flatMap (·.stored) ++ ((kbdRead dev size none).stored ++ ws)) := by
  obtain ⟨dev', os', hrun'⟩ := kbd.exists_run (fun _ _ => rfl) (pre ++ .read size none :: post)
  obtain ⟨s, os₁, os₂, hpre, hpost, rfl⟩ := kbd.runFrom_append_eq_some.mp hrun'
  obtain ⟨rfl, rfl⟩ := Prod.mk.inj (Option.some.inj (hrun.symm.trans hpre))
  obtain ⟨t, o, os₃, hstep, -, rfl⟩ := kbd.runFrom_cons_eq_some.mp hpost
  obtain rfl : (kbdStep dev (.read size none)).2 = o := congrArg Prod.snd (Option.some.inj hstep)
  exact ⟨os₃.flatMap (·.stored), by simp [delivered, hrun', kbdStep]⟩

theorem queueDelivered_append {pre post : List KbdEvent} {q : List UInt8} {bs : List (List UInt8)}
    (hrun : queue.run pre = some (q, bs)) {size : Nat} {bytes : List UInt8}
    (h : queueDelivered (pre ++ .read size none :: post) = some bytes) :
    ∃ ws, bytes = bs.flatten ++ (q.take size ++ ws) := by
  obtain ⟨⟨q', bs'⟩, hrun', rfl⟩ := Option.map_eq_some_iff.mp h
  obtain ⟨s, bs₁, bs₂, hpre, hpost, rfl⟩ := queue.runFrom_append_eq_some.mp hrun'
  obtain ⟨rfl, rfl⟩ := Prod.mk.inj (Option.some.inj (hrun.symm.trans hpre))
  obtain ⟨t, b, bs₃, hstep, -, rfl⟩ := queue.runFrom_cons_eq_some.mp hpost
  obtain rfl : q.take size = b := congrArg Prod.snd (Option.some.inj hstep)
  exact ⟨bs₃.flatten, by simp⟩

/-- **The driver is a FIFO queue exactly in the runs whose reads are lone ones**: the bytes
delivered are those of the ideal queue, whatever keys are pressed, exactly when no read takes a
character after two have been unread at once since the last clear. -/
theorem fifo_iff (es : List KbdEvent) (hok : ∀ e ∈ es, e.noFault = true)
    (hcap : load.Always (·.unread ≤ BUFF_SIZE) es) :
    (∀ es', List.Forall₂ KbdEvent.SameKind es es' → delivered es' = queueDelivered es') ↔
      load.EveryStep ReadsLone es := by
  constructor
  · intro hfifo
    by_contra hlone
    obtain ⟨l', ls', hrun⟩ := load.exists_run (fun _ _ => rfl) es
    obtain ⟨pre, e, post, l, ls, rfl, hl, hgood, hbad⟩ := Machine.exists_first_failure hrun hlone
    -- the run up to the first such read, with the telling keys
    obtain ⟨pre', dev, os, q, bs, l₀, ls₀, hkind, hkbd, hqueue, hload, hbytes, hcoded⟩ :=
      coded_run pre (fun f hf => hok f (by simp [hf]))
        (fun p t os hp => hcap p t os (hp.trans (List.prefix_append _ _))) hgood
    obtain ⟨rfl, -⟩ := Prod.mk.inj (Option.some.inj (hl.symm.trans hload))
    cases e with
    | irq data => exact hbad trivial
    | write size => exact hbad trivial
    | read size fault =>
      cases fault with
      | some j => simpa [KbdEvent.noFault] using hok (.read size (some j)) (by simp)
      | none =>
        obtain ⟨xs, ys, hx, hy⟩ := coded_read_differs hcoded hbad
        have hsame := hfifo (pre' ++ .read size none :: post)
          (List.rel_append hkind (List.forall₂_same.mpr fun f _ => SameKind.refl f))
        obtain ⟨vs, hvs⟩ := delivered_append hkbd size post
        obtain ⟨ws, hws⟩ := queueDelivered_append hqueue (hsame.symm.trans hvs)
        rw [hbytes, List.append_cancel_left_eq, hy] at hws
        have hx' : (kbdRead dev size none).stored = getAscii 0x11 :: xs := hx
        rw [hx', List.cons_append, List.cons_append, List.cons.injEq] at hws
        exact absurd hws.1 (by decide)
  · intro hlone es' hkind
    obtain ⟨dev, os, q, bs, l, ls, hkbd, hqueue, -, hbytes, -⟩ := matches_run hkind hok hcap hlone
    simp [delivered, queueDelivered, hkbd, hqueue, hbytes]

/-- `q` then `w`, read in one go: the driver delivers `w` and the zero byte of the slot after it. -/
theorem fifo_fails_for_two_keys :
    (∀ e ∈ [KbdEvent.irq 0x10, .irq 0x11, .read 2 none], e.noFault = true) ∧
      load.Always (·.unread ≤ BUFF_SIZE) [.irq 0x10, .irq 0x11, .read 2 none] ∧
      delivered [.irq 0x10, .irq 0x11, .read 2 none] = some [119, 0] ∧
      queueDelivered [.irq 0x10, .irq 0x11, .read 2 none] = some [113, 119] :=
  ⟨by decide, load_always_le (by decide), by decide, by decide⟩

/-- One key, read: the driver delivers it, whatever key it is. -/
theorem fifo_iff_one_key :
    delivered [.irq 0x11, .read 1 none] = queueDelivered [.irq 0x11, .read 1 none] := by
  have hlone : load.EveryStep ReadsLone [.irq 0x10, .read 1 none] := by
    refine Machine.everyStep_concat.mpr ⟨Machine.everyStep_concat.mpr
      ⟨Machine.everyStep_nil, fun _ _ _ => trivial⟩, fun l ls hrun => ?_⟩
    obtain ⟨rfl, -⟩ := Prod.mk.inj (Option.some.inj hrun)
    exact fun _ _ => by decide
  apply (fifo_iff [.irq 0x10, .read 1 none] (by decide) (load_always_le (by decide))).mpr hlone
  have hpress : (KbdEvent.irq 0x10).SameKind (.irq 0x11) := by
    unfold KbdEvent.SameKind
    decide
  exact .cons hpress (.cons (SameKind.refl _) .nil)

end DeviceDrivers.Kbd
