import DeviceDrivers.Kbd.Sections
import DeviceDrivers.Lib.RwLock

/-!
# The statements of the sections of the keyboard ring

`put_char`, `get_char` and `reset_buffer` once more, a statement at a time. Interrupts and calls on several
processors take `dev->lock` in any order, and their statements interleave as the spinlock lets them: a lock that is
only ever held for writing. The sections take effect one after another, in the order in which they end, every
`get_char` returns what it returns in that order, and no statement of one of them meets an index outside the buffer
(`statements_refine_sections`).
-/

namespace DeviceDrivers.Kbd

open RwLock

/-- A thread: not at the lock, at it, or inside in front of the statement number `k`; `ch` is `*c` of `get_char`. -/
inductive SectionPc
  | idle
  | waiting (sec : Section)
  | inside (sec : Section) (k : Nat) (ch : UInt8)

/-- The statement number `k` of a section: the ring and `ch` after it, and what the function returns if it was the
last one. -/
def statement (data : KbdDev) (ch : UInt8) : Section → Nat → Option (KbdDev × UInt8 × Option (Option UInt8))
  | .put c, 0 => some ({ data with buff := data.buff.setIfInBounds data.getIdx c }, ch, none)
  | .put _, 1 => some ({ data with putIdx := sizeT (data.putIdx + 1) % BUFF_SIZE }, ch, none)
  | .put _, 2 => some ({ data with cnt := sizeT (data.cnt + 1) }, ch, some none)
  | .get, 0 => if data.cnt > 0 then some (data, ch, none) else some (data, ch, some none)
  | .get, 1 => some (data, data.slot data.getIdx, none)
  | .get, 2 => some ({ data with getIdx := sizeT (data.getIdx + 1) % BUFF_SIZE }, ch, none)
  | .get, 3 => some ({ data with cnt := data.cnt - 1 }, ch, some (some ch))
  | .reset, 0 => some ({ data with cnt := 0 }, ch, none)
  | .reset, 1 => some ({ data with getIdx := 0 }, ch, none)
  | .reset, 2 => some ({ data with putIdx := 0 }, ch, some none)
  | _, _ => none

/-- `spin_lock` waits as `write_lock` does. A thread that is idle may come to any section; one that ends shows which
one it was and what it returned. -/
def statements : Program KbdDev SectionPc (Option Section) (Section × Option UInt8) where
  outside
    | .idle, some sec => some (.waiting sec)
    | _, _ => none
  enter
    | .waiting sec => some (.write, .inside sec 0 0)
    | _ => none
  readRound _ _ _ := none
  writeRound data pc _ :=
    match pc with
    | .inside sec k ch => (statement data ch sec k).map fun r =>
      (r.1, if r.2.2.isSome then .idle else .inside sec (k + 1) r.2.1, r.2.2.map fun o => (sec, o))
    | _ => none

def ringThreads : Machine (Locked KbdDev SectionPc) (LockedEvent (Option Section)) (Option (Section × Option UInt8)) :=
  statements.locked ⟨.fresh, fun _ => .idle⟩

/-! ### A section from within -/

/-- The ring `data` and the local variable in front of statement `k` of a section that began with `data₀`. -/
def Reached (data₀ : KbdDev) : Section → Nat → UInt8 → KbdDev → Prop
  | .put c, k, _, data =>
    (k = 0 ∧ data = data₀) ∨
    (k = 1 ∧ data = { data₀ with buff := data₀.buff.setIfInBounds data₀.getIdx c }) ∨
    (k = 2 ∧ data = { data₀ with
      buff := data₀.buff.setIfInBounds data₀.getIdx c, putIdx := sizeT (data₀.putIdx + 1) % BUFF_SIZE })
  | .get, k, ch, data =>
    (k = 0 ∧ data = data₀) ∨
    (data₀.cnt > 0 ∧ ((k = 1 ∧ data = data₀) ∨ (k = 2 ∧ data = data₀ ∧ ch = data₀.slot data₀.getIdx) ∨
      (k = 3 ∧ data = { data₀ with getIdx := sizeT (data₀.getIdx + 1) % BUFF_SIZE } ∧
        ch = data₀.slot data₀.getIdx)))
  | .reset, k, _, data =>
    (k = 0 ∧ data = data₀) ∨ (k = 1 ∧ data = { data₀ with cnt := 0 }) ∨
    (k = 2 ∧ data = { data₀ with cnt := 0, getIdx := 0 })

theorem reached_start (data : KbdDev) (sec : Section) (ch : UInt8) : Reached data sec 0 ch data := by
  cases sec with
  | put c => exact .inl ⟨rfl, rfl⟩
  | get => exact .inl ⟨rfl, rfl⟩
  | reset => exact .inl ⟨rfl, rfl⟩

theorem ends_with {x : KbdDev × UInt8 × Option (Option UInt8)} {data : KbdDev} {ch : UInt8}
    {o : Option (Option UInt8)} (h : some x = some (data, ch, o)) : x.1 = data ∧ x.2.1 = ch ∧ x.2.2 = o := by
  obtain rfl := Option.some.inj h
  exact ⟨rfl, rfl, rfl⟩

theorem Reached.statement {data₀ data data' : KbdDev} {sec : Section} {k : Nat} {ch ch' : UInt8}
    {o : Option (Option UInt8)} (h : Reached data₀ sec k ch data)
    (hstatement : Kbd.statement data ch sec k = some (data', ch', o)) :
    (o = none ∧ Reached data₀ sec (k + 1) ch' data') ∨
      (o = some (sectionStep data₀ sec).2 ∧ data' = (sectionStep data₀ sec).1) := by
  cases sec with
  | put c =>
    rcases h with ⟨rfl, rfl⟩ | ⟨rfl, rfl⟩ | ⟨rfl, rfl⟩
    · obtain ⟨rfl, -, rfl⟩ := ends_with hstatement
      exact .inl ⟨rfl, .inr (.inl ⟨rfl, rfl⟩)⟩
    · obtain ⟨rfl, -, rfl⟩ := ends_with hstatement
      exact .inl ⟨rfl, .inr (.inr ⟨rfl, rfl⟩)⟩
    · obtain ⟨rfl, -, rfl⟩ := ends_with hstatement
      exact .inr ⟨rfl, rfl⟩
  | get =>
    rcases h with ⟨rfl, rfl⟩ | ⟨hcnt, ⟨rfl, rfl⟩ | ⟨rfl, rfl, rfl⟩ | ⟨rfl, rfl, rfl⟩⟩
    · by_cases hcnt : data.cnt > 0
      · have hgo : Kbd.statement data ch .get 0 = some (data, ch, none) := if_pos hcnt
        rw [hgo] at hstatement
        obtain ⟨rfl, -, rfl⟩ := ends_with hstatement
        exact .inl ⟨rfl, .inr ⟨hcnt, .inl ⟨rfl, rfl⟩⟩⟩
      · have hstop : Kbd.statement data ch .get 0 = some (data, ch, some none) := if_neg hcnt
        rw [hstop] at hstatement
        obtain ⟨rfl, -, rfl⟩ := ends_with hstatement
        simp [sectionStep, getChar, hcnt]
    · obtain ⟨rfl, rfl, rfl⟩ := ends_with hstatement
      exact .inl ⟨rfl, .inr ⟨hcnt, .inr (.inl ⟨rfl, rfl, rfl⟩)⟩⟩
    · obtain ⟨rfl, rfl, rfl⟩ := ends_with hstatement
      exact .inl ⟨rfl, .inr ⟨hcnt, .inr (.inr ⟨rfl, rfl, rfl⟩)⟩⟩
    · obtain ⟨rfl, rfl, rfl⟩ := ends_with hstatement
      simp [sectionStep, getChar, hcnt]
  | reset =>
    rcases h with ⟨rfl, rfl⟩ | ⟨rfl, rfl⟩ | ⟨rfl, rfl⟩
    · obtain ⟨rfl, -, rfl⟩ := ends_with hstatement
      exact .inl ⟨rfl, .inr (.inl ⟨rfl, rfl⟩)⟩
    · obtain ⟨rfl, -, rfl⟩ := ends_with hstatement
      exact .inl ⟨rfl, .inr (.inr ⟨rfl, rfl⟩)⟩
    · obtain ⟨rfl, -, rfl⟩ := ends_with hstatement
      exact .inr ⟨rfl, rfl⟩

theorem round_statement {data data' : KbdDev} {sec : Section} {k : Nat} {ch : UInt8} {x : Option Section}
    {pc : SectionPc} {o : Option (Section × Option UInt8)}
    (h : statements.round .write data (.inside sec k ch) x = some (data', pc, o)) :
    ∃ ch' r, statement data ch sec k = some (data', ch', r) ∧
      pc = (if r.isSome then .idle else .inside sec (k + 1) ch') ∧ o = r.map fun v => (sec, v) := by
  obtain ⟨⟨d, ch', r⟩, hstatement, heq⟩ := Option.map_eq_some_iff.mp h
  obtain ⟨hdata, heq⟩ := Prod.mk.inj heq
  obtain ⟨rfl, rfl⟩ := Prod.mk.inj heq
  dsimp only at hdata
  subst hdata
  exact ⟨ch', r, hstatement, rfl, rfl⟩

theorem reached_of_ongoing {data₀ data : KbdDev} {sec : Section} {xs : List (Option Section)} {pc : SectionPc}
    (h : statements.Ongoing .write data₀ (.inside sec 0 0) xs data pc) :
    ∃ k ch, pc = .inside sec k ch ∧ Reached data₀ sec k ch data := by
  generalize ht : SectionPc.inside sec 0 0 = t₀ at h
  induction h with
  | start => exact ⟨0, 0, ht.symm, reached_start data₀ sec 0⟩
  | round h hround ih =>
    obtain ⟨k, ch, rfl, hreached⟩ := ih
    obtain ⟨ch', r, hstatement, hpc, ho⟩ := round_statement hround
    cases r with
    | some v => cases ho
    | none =>
      rcases hreached.statement hstatement with ⟨-, hnext⟩ | ⟨hlast, -⟩
      · exact ⟨k + 1, ch', hpc, hnext⟩
      · cases hlast

/-- A whole section does what `sectionStep` does. -/
theorem rounds_section {data data' : KbdDev} {sec : Section} {xs : List (Option Section)} {pc : SectionPc}
    {o : Section × Option UInt8}
    (h : statements.rounds .write data (.inside sec 0 0) xs = some (data', pc, o)) :
    data' = (sectionStep data sec).1 ∧ pc = .idle ∧ o = (sec, (sectionStep data sec).2) := by
  obtain ⟨ys, d, t, x, -, hongoing, hlast⟩ := Program.exists_ongoing h
  obtain ⟨k, ch, rfl, hreached⟩ := reached_of_ongoing hongoing
  obtain ⟨ch', r, hstatement, hpc, ho⟩ := round_statement hlast
  cases r with
  | none => cases ho
  | some v =>
    rcases hreached.statement hstatement with ⟨hmore, -⟩ | ⟨hv, hdata⟩
    · cases hmore
    · obtain rfl := Option.some.inj hv
      exact ⟨hdata, hpc, Option.some.inj ho⟩

theorem enter_statements {pc pc' : SectionPc} {m : Mode} (h : statements.enter pc = some (m, pc')) :
    ∃ sec, pc = .waiting sec ∧ m = .write ∧ pc' = .inside sec 0 0 := by
  cases pc with
  | waiting sec =>
    obtain ⟨rfl, rfl⟩ := Prod.mk.inj (Option.some.inj h)
    exact ⟨sec, rfl, rfl, rfl⟩
  | idle => cases h
  | inside sec k ch => cases h

/-! ### Every interleaving is a sequence of sections -/

theorem atomic_run_sections {cs : List (AtomicEvent (Option Section))} {c : Threads KbdDev SectionPc}
    {os : List (Option (Section × Option UInt8))}
    (hrun : (statements.atomic ⟨.fresh, fun _ => .idle⟩).run cs = some (c, os)) :
    ∃ secs outs, sections.run secs = some (c.shared, outs) ∧ secs.zip outs = os.filterMap id := by
  induction cs using List.reverseRecOn generalizing c os with
  | nil =>
    obtain ⟨rfl, rfl⟩ := Prod.mk.inj (Option.some.inj hrun)
    exact ⟨[], [], rfl, rfl⟩
  | append_singleton cs e ih =>
    obtain ⟨b, os', o, hpre, hstep, rfl⟩ := Machine.run_concat_eq_some _ |>.mp hrun
    obtain ⟨secs, outs, hsecs, hzip⟩ := ih hpre
    cases e with
    | outside i x =>
      obtain ⟨t, -, heq⟩ := Option.map_eq_some_iff.mp hstep
      obtain ⟨rfl, rfl⟩ := Prod.mk.inj heq
      refine ⟨secs, outs, hsecs, ?_⟩
      rw [hzip, List.filterMap_append]
      simp
    | whole i xs =>
      obtain ⟨⟨m, t⟩, henter, hmap⟩ := Option.bind_eq_some_iff.mp hstep
      obtain ⟨⟨data', pc, v⟩, hrounds, heq⟩ := Option.map_eq_some_iff.mp hmap
      obtain ⟨rfl, rfl⟩ := Prod.mk.inj heq
      obtain ⟨sec, -, rfl, rfl⟩ := enter_statements henter
      obtain ⟨rfl, -, rfl⟩ := rounds_section hrounds
      refine ⟨secs ++ [sec], outs ++ [(sectionStep b.shared sec).2], ?_, ?_⟩
      · exact sections.run_concat_eq_some.mpr ⟨b.shared, outs, _, hsecs, rfl, rfl⟩
      · have hlen : secs.length = outs.length := (sections.length_of_runFrom hsecs).symm
        rw [List.zip_append hlen, hzip, List.filterMap_append]
        rfl

/-- The indices are in the buffer however often `cnt` has wrapped around. -/
def IndicesFit (dev : KbdDev) : Prop := dev.getIdx < BUFF_SIZE ∧ dev.putIdx < BUFF_SIZE

theorem mod_buff_lt (n : Nat) : n % BUFF_SIZE < BUFF_SIZE := Nat.mod_lt n (Nat.zero_lt_succ _)

theorem Reached.indicesFit {data₀ data : KbdDev} (h₀ : IndicesFit data₀) {sec : Section} {k : Nat} {ch : UInt8}
    (h : Reached data₀ sec k ch data) : IndicesFit data := by
  cases sec with
  | put c =>
    rcases h with ⟨-, rfl⟩ | ⟨-, rfl⟩ | ⟨-, rfl⟩
    · exact h₀
    · exact h₀
    · exact ⟨h₀.1, mod_buff_lt _⟩
  | get =>
    rcases h with ⟨-, rfl⟩ | ⟨-, ⟨-, rfl⟩ | ⟨-, rfl, -⟩ | ⟨-, rfl, -⟩⟩
    · exact h₀
    · exact h₀
    · exact h₀
    · exact ⟨mod_buff_lt _, h₀.2⟩
  | reset =>
    rcases h with ⟨-, rfl⟩ | ⟨-, rfl⟩ | ⟨-, rfl⟩
    · exact h₀
    · exact h₀
    · exact ⟨mod_buff_lt 0, h₀.2⟩

theorem sections_indicesFit {es : List Section} {dev : KbdDev} {os : List (Option UInt8)}
    (hrun : sections.run es = some (dev, os)) : IndicesFit dev := by
  have hinv : sections.Invariant IndicesFit := by
    refine ⟨⟨mod_buff_lt 0, mod_buff_lt 0⟩, ?_⟩
    intro d d' sec o hd hstep
    obtain rfl : (sectionStep d sec).1 = d' := congrArg Prod.fst (Option.some.inj hstep)
    cases sec with
    | put c => exact ⟨hd.1, mod_buff_lt _⟩
    | get =>
      unfold sectionStep getChar
      split_ifs
      · exact ⟨mod_buff_lt _, hd.2⟩
      · exact hd
    | reset => exact ⟨mod_buff_lt 0, mod_buff_lt 0⟩
  exact hinv.run hrun

/-- Whatever the order of the statements of the threads, the sections that have ended are a run of `sections` that
returned the same characters; the ring is where that run left it whenever nobody holds the lock, and the indices are
in the buffer in front of every statement. -/
theorem statements_refine_sections {es : List (LockedEvent (Option Section))} {s : Locked KbdDev SectionPc}
    {os : List (Option (Section × Option UInt8))} (hrun : ringThreads.run es = some (s, os)) :
    ∃ secs dev outs, sections.run secs = some (dev, outs) ∧ secs.zip outs = os.filterMap id ∧
      (s.holders.writer = none → s.shared = dev) ∧
      s.shared.getIdx < BUFF_SIZE ∧ s.shared.putIdx < BUFF_SIZE := by
  obtain ⟨c, hcs, hfollows, houts⟩ := run_atomic hrun
  obtain ⟨secs, outs, hsecs, hzip⟩ := atomic_run_sections hcs
  have hfit := sections_indicesFit hsecs
  refine ⟨secs, c.shared, outs, hsecs, hzip.trans houts, hfollows.shared, ?_⟩
  cases hw : s.holders.writer with
  | none =>
    rw [hfollows.shared hw]
    exact hfit
  | some i =>
    have hi : s.holders.modeOf i = some .write := by
      unfold Holders.modeOf
      rw [if_pos hw]
    obtain ⟨t, henter, hongoing⟩ := hfollows.inside i .write hi
    obtain ⟨sec, -, -, rfl⟩ := enter_statements henter
    obtain ⟨k, ch, -, hreached⟩ := reached_of_ongoing hongoing
    exact hreached.indicesFit hfit

/-- A reader comes to the lock while an interrupt is inside. -/
def readerWaits : List (LockedEvent (Option Section)) :=
  [.outside 0 (some (.put 97)), .outside 1 (some .get), .enter 0, .round 0 none, .round 0 none, .round 0 none,
    .enter 1, .round 1 none, .round 1 none, .round 1 none, .round 1 none]

/-- The reader gets the character of the interrupt. -/
theorem statements_refine_sections_readerWaits :
    ∃ s os secs dev outs, ringThreads.run readerWaits = some (s, os) ∧ sections.run secs = some (dev, outs) ∧
      secs.zip outs = [(.put 97, none), (.get, some 97)] := by
  have hshown : (ringThreads.run readerWaits).map (fun r => r.2.filterMap id) =
      some [(.put 97, none), (.get, some 97)] := by
    decide +kernel
  obtain ⟨⟨s, os⟩, hrun, hos⟩ := Option.map_eq_some_iff.mp hshown
  obtain ⟨secs, dev, outs, hsecs, hzip, -⟩ := statements_refine_sections hrun
  exact ⟨s, os, secs, dev, outs, hrun, hsecs, hzip.trans hos⟩

end DeviceDrivers.Kbd
