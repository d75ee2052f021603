import Mathlib.Data.List.Infix
import Mathlib.Tactic.Common

/-!
# Machines with outputs

A `Machine` takes events one after another. An event may be impossible in a state (`step` is then
`none`), and a possible one shows an output. Runs start in `init`; interleavings of several parties
are runs of a machine whose events say which party moves.

Three rules carry every proof about runs:

* `Invariant.run` : what holds initially and is kept by every step holds after every run;
* `always_iff_everyStep` : if a step from a good state leads to a good state exactly when the step
  meets a condition, then all states of a run are good exactly when all its steps meet the
  condition (`exists_first_failure` gives the first step that does not);
* `runFrom_sim` : a step-by-step simulation lifts to runs.
-/

/-- States `σ`, events `ε`, outputs `ω`. -/
structure Machine (σ ε ω : Type*) where
  init : σ
  step : σ → ε → Option (σ × ω)

namespace Machine

variable {σ ε ω τ : Type*} (m : Machine σ ε ω)

/-- The state after the events `es` from `s`, and their outputs; `none` if one is impossible. -/
def runFrom (s : σ) : List ε → Option (σ × List ω)
  | [] => some (s, [])
  | e :: es => (m.step s e).bind fun r => (runFrom r.1 es).map fun q => (q.1, r.2 :: q.2)

/-- A run from the initial state. -/
def run (es : List ε) : Option (σ × List ω) := m.runFrom m.init es

@[simp] theorem runFrom_nil (s : σ) : m.runFrom s [] = some (s, []) := rfl

theorem runFrom_cons (s : σ) (e : ε) (es : List ε) :
    m.runFrom s (e :: es) =
      (m.step s e).bind fun r => (m.runFrom r.1 es).map fun q => (q.1, r.2 :: q.2) := rfl

theorem runFrom_cons_eq_some {s u : σ} {e : ε} {es : List ε} {os : List ω} :
    m.runFrom s (e :: es) = some (u, os) ↔
      ∃ t o os', m.step s e = some (t, o) ∧ m.runFrom t es = some (u, os') ∧ os = o :: os' := by
  simp only [runFrom_cons, Option.bind_eq_some_iff, Option.map_eq_some_iff, Prod.mk.injEq,
    Prod.exists]
  constructor
  · rintro ⟨t, o, hstep, v, os', hrun, rfl, rfl⟩
    exact ⟨t, o, os', hstep, hrun, rfl⟩
  · rintro ⟨t, o, os', hstep, hrun, rfl⟩
    exact ⟨t, o, hstep, u, os', hrun, rfl, rfl⟩

theorem runFrom_append (s : σ) (es fs : List ε) :
    m.runFrom s (es ++ fs) =
      (m.runFrom s es).bind fun r => (m.runFrom r.1 fs).map fun q => (q.1, r.2 ++ q.2) := by
  induction es generalizing s with
  | nil => simp
  | cons e es ih =>
    simp only [List.cons_append, runFrom_cons, ih]
    cases m.step s e with
    | none => rfl
    | some r =>
      cases h : m.runFrom r.1 es with
      | none => simp [h]
      | some q => simp [h, Function.comp_def]

theorem runFrom_append_eq_some {s u : σ} {es fs : List ε} {os : List ω} :
    m.runFrom s (es ++ fs) = some (u, os) ↔
      ∃ t os₁ os₂, m.runFrom s es = some (t, os₁) ∧ m.runFrom t fs = some (u, os₂) ∧
        os = os₁ ++ os₂ := by
  simp only [runFrom_append, Option.bind_eq_some_iff, Option.map_eq_some_iff, Prod.exists,
    Prod.mk.injEq]
  constructor
  · rintro ⟨t, os₁, hes, v, os₂, hfs, rfl, rfl⟩
    exact ⟨t, os₁, os₂, hes, hfs, rfl⟩
  · rintro ⟨t, os₁, os₂, hes, hfs, rfl⟩
    exact ⟨t, os₁, hes, u, os₂, hfs, rfl, rfl⟩

theorem length_of_runFrom {s t : σ} {es : List ε} {os : List ω}
    (hrun : m.runFrom s es = some (t, os)) : os.length = es.length := by
  induction es generalizing s os with
  | nil =>
    obtain ⟨-, rfl⟩ := Prod.mk.inj (Option.some.inj hrun)
    rfl
  | cons e es ih =>
    obtain ⟨u, o, os', -, hrest, rfl⟩ := m.runFrom_cons_eq_some.mp hrun
    rw [List.length_cons, List.length_cons, ih hrest]

theorem runFrom_concat_eq_some {s u : σ} {es : List ε} {e : ε} {os : List ω} :
    m.runFrom s (es ++ [e]) = some (u, os) ↔
      ∃ t os' o, m.runFrom s es = some (t, os') ∧ m.step t e = some (u, o) ∧ os = os' ++ [o] := by
  rw [runFrom_append_eq_some]
  simp only [runFrom_cons_eq_some, runFrom_nil, Option.some.injEq, Prod.mk.injEq]
  constructor
  · rintro ⟨t, os', _, hrun, ⟨_, o, _, hstep, ⟨rfl, rfl⟩, rfl⟩, rfl⟩
    exact ⟨t, os', o, hrun, hstep, rfl⟩
  · rintro ⟨t, os', o, hrun, hstep, rfl⟩
    exact ⟨t, os', [o], hrun, ⟨u, o, [], hstep, ⟨rfl, rfl⟩, rfl⟩, rfl⟩

theorem run_concat_eq_some {es : List ε} {e : ε} {u : σ} {os : List ω} :
    m.run (es ++ [e]) = some (u, os) ↔
      ∃ s os' o, m.run es = some (s, os') ∧ m.step s e = some (u, o) ∧ os = os' ++ [o] :=
  m.runFrom_concat_eq_some

theorem exists_runFrom (htotal : ∀ s e, (m.step s e).isSome) (s : σ) (es : List ε) :
    ∃ t os, m.runFrom s es = some (t, os) := by
  induction es generalizing s with
  | nil => exact ⟨s, [], rfl⟩
  | cons e es ih =>
    obtain ⟨⟨t, o⟩, hstep⟩ := Option.isSome_iff_exists.mp (htotal s e)
    obtain ⟨u, os, hrun⟩ := ih t
    exact ⟨u, o :: os, m.runFrom_cons_eq_some.mpr ⟨t, o, os, hstep, hrun, rfl⟩⟩

theorem exists_run (htotal : ∀ s e, (m.step s e).isSome) (es : List ε) :
    ∃ s os, m.run es = some (s, os) := m.exists_runFrom htotal m.init es

/-- The machine that keeps its own history, the latest event first. -/
def withLog : Machine (σ × List (ε × ω)) ε ω :=
  ⟨(m.init, []), fun s e => (m.step s.1 e).map fun r => ((r.1, (e, r.2) :: s.2), r.2)⟩

theorem withLog_step {s t : σ × List (ε × ω)} {e : ε} {o : ω} (h : m.withLog.step s e = some (t, o)) :
    m.step s.1 e = some (t.1, o) ∧ t.2 = (e, o) :: s.2 := by
  obtain ⟨r, hstep, heq⟩ := Option.map_eq_some_iff.mp h
  obtain ⟨rfl, rfl⟩ := Prod.mk.inj heq
  exact ⟨hstep, rfl⟩

theorem run_withLog {es : List ε} {s : σ} {os : List ω} (hrun : m.run es = some (s, os)) :
    m.withLog.run es = some ((s, (es.zip os).reverse), os) := by
  induction es using List.reverseRecOn generalizing s os with
  | nil =>
    obtain ⟨rfl, rfl⟩ := Prod.mk.inj (Option.some.inj hrun)
    rfl
  | append_singleton es e ih =>
    obtain ⟨t, os', o, hes, hstep, rfl⟩ := m.run_concat_eq_some.mp hrun
    refine m.withLog.run_concat_eq_some.mpr ⟨_, os', o, ih hes, ?_, rfl⟩
    have hlen : es.length = os'.length := (m.length_of_runFrom hes).symm
    rw [List.zip_append hlen, List.reverse_append]
    show (m.step t e).map _ = _
    rw [hstep]
    rfl

/-! ### Invariants -/

/-- `I` holds initially and is kept by every step. -/
structure Invariant (I : σ → Prop) : Prop where
  init : I m.init
  step : ∀ {s t : σ} {e : ε} {o : ω}, I s → m.step s e = some (t, o) → I t

variable {m}

theorem Invariant.runFrom {I : σ → Prop} (h : m.Invariant I) {s t : σ} {es : List ε}
    {os : List ω} (hs : I s) (hrun : m.runFrom s es = some (t, os)) : I t := by
  induction es generalizing s os with
  | nil =>
    simp only [runFrom_nil, Option.some.injEq, Prod.mk.injEq] at hrun
    exact hrun.1 ▸ hs
  | cons e es ih =>
    obtain ⟨u, o, os', hstep, hrest, -⟩ := m.runFrom_cons_eq_some.mp hrun
    exact ih (h.step hs hstep) hrest

theorem Invariant.run {I : σ → Prop} (h : m.Invariant I) {t : σ} {es : List ε} {os : List ω}
    (hrun : m.run es = some (t, os)) : I t :=
  h.runFrom h.init hrun

/-! ### Conditions on the steps of a run -/

theorem invariant_true (m : Machine σ ε ω) : m.Invariant fun _ => True :=
  ⟨trivial, fun _ _ => trivial⟩

variable (m)

/-- Every state of the run `es`, the first and the last included, satisfies `P`. -/
def Always (P : σ → Prop) (es : List ε) : Prop :=
  ∀ pre t os, pre <+: es → m.run pre = some (t, os) → P t

/-- Every step of the run `es` meets `C` in the state it is taken in. -/
def EveryStep (C : σ → ε → Prop) (es : List ε) : Prop :=
  ∀ pre e t os, pre ++ [e] <+: es → m.run pre = some (t, os) → C t e

variable {m}

theorem Always.last {P : σ → Prop} {es : List ε} {s : σ} {os : List ω} (h : m.Always P es)
    (hrun : m.run es = some (s, os)) : P s :=
  h es s os (List.prefix_refl _) hrun

theorem forall_run_iff {P : σ → Prop} {es : List ε} {s : σ} {os : List ω}
    (hrun : m.run es = some (s, os)) : (∀ t os', m.run es = some (t, os') → P t) ↔ P s := by
  constructor
  · intro h
    exact h s os hrun
  · intro h t os' ht
    obtain ⟨rfl, -⟩ := Prod.mk.inj (Option.some.inj (hrun.symm.trans ht))
    exact h

theorem always_nil {P : σ → Prop} : m.Always P [] ↔ P m.init := by
  constructor
  · intro h
    exact h [] m.init [] (List.prefix_refl _) rfl
  · intro h pre t os hpre hrun
    obtain rfl := List.prefix_nil.mp hpre
    simp only [run, runFrom_nil, Option.some.injEq, Prod.mk.injEq] at hrun
    exact hrun.1 ▸ h

theorem always_concat {P : σ → Prop} {es : List ε} {e : ε} :
    m.Always P (es ++ [e]) ↔ m.Always P es ∧ ∀ t os, m.run (es ++ [e]) = some (t, os) → P t := by
  constructor
  · intro h
    exact ⟨fun pre t os hpre => h pre t os (hpre.trans (List.prefix_append _ _)),
      fun t os => h _ t os (List.prefix_refl _)⟩
  · rintro ⟨h, hlast⟩ pre t os hpre hrun
    rcases List.prefix_concat_iff.mp hpre with rfl | hpre
    · exact hlast t os hrun
    · exact h pre t os hpre hrun

theorem everyStep_nil {C : σ → ε → Prop} : m.EveryStep C [] := by
  intro pre e t os hpre
  simp at hpre

theorem everyStep_concat {C : σ → ε → Prop} {es : List ε} {e : ε} :
    m.EveryStep C (es ++ [e]) ↔ m.EveryStep C es ∧ ∀ t os, m.run es = some (t, os) → C t e := by
  constructor
  · intro h
    exact ⟨fun pre f t os hpre => h pre f t os (hpre.trans (List.prefix_append _ _)),
      fun t os => h es e t os (List.prefix_refl _)⟩
  · rintro ⟨h, hlast⟩ pre f t os hpre hrun
    rcases List.prefix_concat_iff.mp hpre with heq | hpre
    · obtain ⟨rfl, rfl⟩ := List.concat_inj.mp (by simpa using heq)
      exact hlast t os hrun
    · exact h pre f t os hpre hrun

theorem mem_of_prefix_concat {pre es : List ε} {e : ε} (h : pre ++ [e] <+: es) : e ∈ es :=
  h.subset (List.mem_append_right pre (List.mem_singleton_self e))

theorem everyStep_of_forall {C : ε → Prop} {es : List ε} (h : ∀ e ∈ es, C e) :
    m.EveryStep (fun _ e => C e) es := fun _ e _ _ hpre _ => h e (mem_of_prefix_concat hpre)

/-- If a step from a good state ends in a good state exactly when it meets `C`, a run stays good
exactly when all its steps meet `C`. -/
theorem always_iff_everyStep {I P : σ → Prop} {C : σ → ε → Prop} (hI : m.Invariant I)
    (hinit : P m.init)
    (hstep : ∀ {s t e o}, I s → P s → m.step s e = some (t, o) → (P t ↔ C s e))
    {es : List ε} {u : σ} {os : List ω} (hrun : m.run es = some (u, os)) :
    m.Always P es ↔ m.EveryStep C es := by
  induction es using List.reverseRecOn generalizing u os with
  | nil => exact ⟨fun _ => everyStep_nil, fun _ => always_nil.mpr hinit⟩
  | append_singleton es e ih =>
    obtain ⟨s, os', o, hpre, hlast, -⟩ := m.run_concat_eq_some.mp hrun
    rw [always_concat, everyStep_concat, ← ih hpre, forall_run_iff hrun, forall_run_iff hpre]
    refine and_congr_right fun halways => ?_
    have hgood : P s := halways.last hpre
    exact hstep (hI.run hpre) hgood hlast

/-- What holds initially and is kept by every step that meets `C` holds along the runs of such
steps. -/
theorem always_of_everyStep {P : σ → Prop} {C : σ → ε → Prop} (hinit : P m.init)
    (hstep : ∀ {s t e o}, P s → C s e → m.step s e = some (t, o) → P t) {es : List ε}
    (hC : m.EveryStep C es) : m.Always P es := by
  induction es using List.reverseRecOn with
  | nil => exact always_nil.mpr hinit
  | append_singleton es e ih =>
    obtain ⟨hes, hlast⟩ := everyStep_concat.mp hC
    refine always_concat.mpr ⟨ih hes, ?_⟩
    intro t os hrun
    obtain ⟨s, os', o, hpre, hstep', -⟩ := m.run_concat_eq_some.mp hrun
    exact hstep ((ih hes).last hpre) (hlast s os' hpre) hstep'

theorem EveryStep.front {C : σ → ε → Prop} {es pre : List ε} (h : m.EveryStep C es)
    (hpre : pre <+: es) : m.EveryStep C pre := fun fs e t os hfs => h fs e t os (hfs.trans hpre)

theorem EveryStep.exists_run {C : σ → ε → Prop} (hpossible : ∀ s e, C s e → (m.step s e).isSome)
    {es : List ε} (h : m.EveryStep C es) : ∃ s os, m.run es = some (s, os) := by
  induction es using List.reverseRecOn with
  | nil => exact ⟨m.init, [], rfl⟩
  | append_singleton es e ih =>
    obtain ⟨hes, hlast⟩ := everyStep_concat.mp h
    obtain ⟨s, os, hrun⟩ := ih hes
    obtain ⟨⟨t, o⟩, hstep⟩ := Option.isSome_iff_exists.mp (hpossible s e (hlast s os hrun))
    exact ⟨t, os ++ [o], m.run_concat_eq_some.mpr ⟨s, os, o, hrun, hstep, rfl⟩⟩

theorem everyStep_iff_forall {C : ε → Prop} {es : List ε} {u : σ} {os : List ω}
    (hrun : m.run es = some (u, os)) : m.EveryStep (fun _ e => C e) es ↔ ∀ e ∈ es, C e := by
  induction es using List.reverseRecOn generalizing u os with
  | nil => exact iff_of_true everyStep_nil (by simp)
  | append_singleton es e ih =>
    obtain ⟨s, os', o, hpre, -, -⟩ := m.run_concat_eq_some.mp hrun
    rw [everyStep_concat, ih hpre, List.forall_mem_append, List.forall_mem_singleton,
      @forall_run_iff _ _ _ m (fun _ => C e) _ _ _ hpre]

theorem Invariant.everyStep_congr {I : σ → Prop} (hI : m.Invariant I) {C D : σ → ε → Prop}
    {es : List ε} (h : ∀ s, I s → ∀ e ∈ es, (C s e ↔ D s e)) : m.EveryStep C es ↔ m.EveryStep D es := by
  constructor
  · intro hC pre e t os hpre hrun
    exact (h t (hI.run hrun) e (mem_of_prefix_concat hpre)).mp (hC pre e t os hpre hrun)
  · intro hD pre e t os hpre hrun
    exact (h t (hI.run hrun) e (mem_of_prefix_concat hpre)).mpr (hD pre e t os hpre hrun)

theorem everyStep_congr {C D : σ → ε → Prop} {es : List ε} (h : ∀ s, ∀ e ∈ es, (C s e ↔ D s e)) :
    m.EveryStep C es ↔ m.EveryStep D es :=
  (invariant_true m).everyStep_congr fun s _ => h s

theorem outputs_of_everyStep {C : σ → ε → Prop} {D : ω → Prop}
    (hout : ∀ {s t e o}, C s e → m.step s e = some (t, o) → D o) {es : List ε} {u : σ} {os : List ω}
    (hC : m.EveryStep C es) (hrun : m.run es = some (u, os)) : ∀ o ∈ os, D o := by
  induction es using List.reverseRecOn generalizing u os with
  | nil =>
    obtain ⟨-, rfl⟩ := Prod.mk.inj (Option.some.inj hrun)
    simp
  | append_singleton es e ih =>
    obtain ⟨s, os', o, hpre, hlast, rfl⟩ := m.run_concat_eq_some.mp hrun
    obtain ⟨hes, he⟩ := everyStep_concat.mp hC
    rw [List.forall_mem_append, List.forall_mem_singleton]
    exact ⟨ih hes hpre, hout (he s os' hpre) hlast⟩

theorem exists_first_failure {C : σ → ε → Prop} {es : List ε} {u : σ} {os : List ω}
    (hrun : m.run es = some (u, os)) (h : ¬ m.EveryStep C es) :
    ∃ pre e post s os', es = pre ++ e :: post ∧ m.run pre = some (s, os') ∧ m.EveryStep C pre ∧
      ¬ C s e := by
  induction es using List.reverseRecOn generalizing u os with
  | nil => exact (h everyStep_nil).elim
  | append_singleton es e ih =>
    obtain ⟨s, os', o, hpre, hlast, -⟩ := m.run_concat_eq_some.mp hrun
    by_cases hes : m.EveryStep C es
    · refine ⟨es, e, [], s, os', rfl, hpre, hes, ?_⟩
      intro hC
      apply h
      exact everyStep_concat.mpr ⟨hes, (forall_run_iff hpre).mpr hC⟩
    · obtain ⟨pre, f, post, t, os'', rfl, ht, hgood, hbad⟩ := ih hpre hes
      exact ⟨pre, f, post ++ [e], t, os'', by simp, ht, hgood, hbad⟩

/-! ### Two runs side by side -/

/-- Two copies of a machine, whose events are two readings of one event. -/
def twin {ε' : Type*} (m : Machine σ ε ω) (left right : ε' → ε) : Machine (σ × σ) ε' (ω × ω) :=
  ⟨(m.init, m.init), fun s e => (m.step s.1 (left e)).bind fun r =>
    (m.step s.2 (right e)).map fun q => ((r.1, q.1), (r.2, q.2))⟩

theorem twin_step {ε' : Type*} {left right : ε' → ε} {s t : σ × σ} {e : ε'} {o : ω × ω} :
    (m.twin left right).step s e = some (t, o) ↔
      m.step s.1 (left e) = some (t.1, o.1) ∧ m.step s.2 (right e) = some (t.2, o.2) := by
  simp only [twin, Option.bind_eq_some_iff, Option.map_eq_some_iff]
  constructor
  · rintro ⟨r, hleft, q, hright, heq⟩
    obtain ⟨rfl, rfl⟩ := Prod.mk.inj heq
    exact ⟨hleft, hright⟩
  · rintro ⟨hleft, hright⟩
    exact ⟨_, hleft, _, hright, rfl⟩

theorem run_twin {ε' : Type*} {left right : ε' → ε} {es : List ε'} {s t : σ} {os os' : List ω}
    (hleft : m.run (es.map left) = some (s, os)) (hright : m.run (es.map right) = some (t, os')) :
    (m.twin left right).run es = some ((s, t), os.zip os') := by
  induction es using List.reverseRecOn generalizing s t os os' with
  | nil =>
    obtain ⟨rfl, rfl⟩ := Prod.mk.inj (Option.some.inj hleft)
    obtain ⟨rfl, rfl⟩ := Prod.mk.inj (Option.some.inj hright)
    rfl
  | append_singleton es e ih =>
    rw [List.map_append] at hleft hright
    obtain ⟨s', os₁, o₁, hes₁, hstep₁, rfl⟩ := m.run_concat_eq_some.mp hleft
    obtain ⟨t', os₂, o₂, hes₂, hstep₂, rfl⟩ := m.run_concat_eq_some.mp hright
    have hlen : os₁.length = os₂.length := by
      rw [m.length_of_runFrom hes₁, m.length_of_runFrom hes₂, List.length_map, List.length_map]
    rw [List.zip_append hlen]
    exact (m.twin left right).run_concat_eq_some.mpr
      ⟨_, _, _, ih hes₁ hes₂, twin_step.mpr ⟨hstep₁, hstep₂⟩, rfl⟩

/-! ### Simulation -/

/-- A step-by-step simulation lifts to runs; `f` is what the simulating machine shows of an
output. -/
theorem runFrom_sim {ω' : Type*} {n : Machine τ ε ω'} {R : σ → τ → Prop} {f : ω → ω'}
    {Q : ε → Prop}
    (hstep : ∀ {s t e s' o}, R s t → Q e → m.step s e = some (s', o) →
      ∃ t', n.step t e = some (t', f o) ∧ R s' t')
    {es : List ε} {s s' : σ} {t : τ} {os : List ω} (hR : R s t) (hQ : ∀ e ∈ es, Q e)
    (hrun : m.runFrom s es = some (s', os)) :
    ∃ t', n.runFrom t es = some (t', os.map f) ∧ R s' t' := by
  induction es generalizing s t os with
  | nil =>
    simp only [runFrom_nil, Option.some.injEq, Prod.mk.injEq] at hrun
    obtain ⟨rfl, rfl⟩ := hrun
    exact ⟨t, rfl, hR⟩
  | cons e es ih =>
    obtain ⟨u, o, os', he, hrest, rfl⟩ := m.runFrom_cons_eq_some.mp hrun
    obtain ⟨v, hv, hR'⟩ := hstep hR (hQ e (by simp)) he
    obtain ⟨t', ht', hfin⟩ := ih hR' (fun e' he' => hQ e' (by simp [he'])) hrest
    exact ⟨t', n.runFrom_cons_eq_some.mpr ⟨v, f o, os'.map f, hv, ht', rfl⟩, hfin⟩

end Machine
