import DeviceDrivers.Lib.Machine

/-!
# Loading and unloading

A kernel module has an init function, which returns zero if it succeeds, and an exit function. The module is
loaded from an init that succeeds to the next exit; there is no init while it is loaded and no exit while
it is not. Every load begins with static data that is `fresh`. What the module holds is in order if it is `Loaded` while the module is loaded and `Unloaded` otherwise.

Where the exit function leads back to `Unloaded`, the loads alone decide whether a run stays in order
(`always_inOrder_iff`).
-/

structure Loading (σ : Type*) where
  state : σ
  loaded : Bool

/-- A load comes with the outcomes of the calls that its init function makes. -/
inductive LoadEvent (ε : Type*)
  | init (env : ε)
  | exit

namespace Loading

variable {σ ε : Type*} (fresh : σ → σ) (init : ε → σ → Int × σ) (exit : σ → σ)

/-- The state after an init function. -/
def afterInit (env : ε) (s : σ) : Loading σ := ⟨(init env s).2, decide ((init env s).1 = 0)⟩

/-- The output is what the init function returns. -/
def step (s : Loading σ) : LoadEvent ε → Option (Loading σ × Int)
  | .init env =>
    if s.loaded then none else some (afterInit init env (fresh s.state), (init env (fresh s.state)).1)
  | .exit => if s.loaded then some (⟨exit s.state, false⟩, 0) else none

/-- The module, not yet loaded. -/
def machine (first : σ) : Machine (Loading σ) (LoadEvent ε) Int := ⟨⟨first, false⟩, step fresh init exit⟩

def InOrder (Loaded Unloaded : σ → Prop) (s : Loading σ) : Prop :=
  if s.loaded then Loaded s.state else Unloaded s.state

variable {fresh init exit} {Loaded Unloaded : σ → Prop} {C : ε → Prop}

theorem inOrder_of_eq_zero {env : ε} {s : σ} (h : (init env s).1 = 0) :
    InOrder Loaded Unloaded (afterInit init env s) ↔ Loaded (init env s).2 := by
  unfold InOrder afterInit
  rw [decide_eq_true h]
  exact Iff.rfl

theorem inOrder_of_ne_zero {env : ε} {s : σ} (h : (init env s).1 ≠ 0) :
    InOrder Loaded Unloaded (afterInit init env s) ↔ Unloaded (init env s).2 := by
  unfold InOrder afterInit
  rw [decide_eq_false h]
  exact Iff.rfl

theorem inOrder_step
    (hinit : ∀ env s, Unloaded s → (InOrder Loaded Unloaded (afterInit init env (fresh s)) ↔ C env))
    (hexit : ∀ s, Loaded s → Unloaded (exit s)) {s t : Loading σ} {e : LoadEvent ε} {o : Int}
    (hs : InOrder Loaded Unloaded s) (hstep : step fresh init exit s e = some (t, o)) :
    InOrder Loaded Unloaded t ↔ ∀ env, e = .init env → C env := by
  unfold InOrder at hs
  cases e with
  | init env =>
    rw [step] at hstep
    split_ifs at hstep with hloaded
    obtain ⟨rfl, -⟩ := Prod.mk.inj (Option.some.inj hstep)
    rw [if_neg hloaded] at hs
    rw [hinit env s.state hs]
    simp
  | exit =>
    rw [step] at hstep
    split_ifs at hstep with hloaded
    obtain ⟨rfl, -⟩ := Prod.mk.inj (Option.some.inj hstep)
    rw [if_pos hloaded] at hs
    exact iff_of_true (hexit s.state hs) (by simp)

theorem always_inOrder_iff {first : σ} (hfirst : Unloaded first)
    (hinit : ∀ env s, Unloaded s → (InOrder Loaded Unloaded (afterInit init env (fresh s)) ↔ C env))
    (hexit : ∀ s, Loaded s → Unloaded (exit s)) {es : List (LoadEvent ε)} {s : Loading σ} {os : List Int}
    (hrun : (machine fresh init exit first).run es = some (s, os)) :
    (machine fresh init exit first).Always (InOrder Loaded Unloaded) es ↔ ∀ env, .init env ∈ es → C env := by
  rw [Machine.always_iff_everyStep (Machine.invariant_true _) hfirst
    (fun _ => inOrder_step hinit hexit) hrun,
    Machine.everyStep_iff_forall (C := fun e => ∀ env, e = .init env → C env) hrun]
  constructor
  · intro h env he
    exact h _ he env rfl
  · rintro h e he env rfl
    exact h env he

end Loading
