import Mathlib.Logic.Function.Basic
import Mathlib.Tactic.Common

/-!
# A slot that clients share

Clients `α` come up one by one, and each needs the slot for it. A client that fails on its way up may stall: it
keeps the slot and is not up. An entry may lead from the slot to its client. Whatever the order, at most one client is
up, and the slot leads to no other (`Sound.moves`). A slot that a stalled client has is lost (`Sound.moves_stalled`),
and a slot is lost in no other way (`recoverable_update_iff`).
-/

namespace Slot

/-- What a client has: the slot, an entry that leads from the slot to it, and whether it is up. -/
@[ext] structure Client where
  held : Bool
  linked : Bool
  up : Bool

variable {α : Type*} [DecidableEq α]

/-- Client `a` tries to come up, or goes down; the last argument is whether it got what it wanted. -/
inductive Moves (c : α → Client) (a : α) : Client → Bool → Prop
  | refused (hdown : (c a).up = false) : Moves c a (c a) false
  | comesUp {linked : Bool} (hdown : (c a).up = false) (hfree : ∀ b, (c b).held = false) :
      Moves c a ⟨true, linked, true⟩ true
  | stalls {linked : Bool} (hdown : (c a).up = false) (hfree : ∀ b, (c b).held = false) :
      Moves c a ⟨true, linked, false⟩ false
  | goesDown (hup : (c a).up = true) : Moves c a ⟨false, false, false⟩ true

structure Sound (c : α → Client) : Prop where
  one : ∀ a b, (c a).held = true → (c b).held = true → a = b
  linked : ∀ a, (c a).linked = true → (c a).held = true
  up : ∀ a, (c a).up = true → (c a).held = true

/-- Who has the slot is up. -/
def Recoverable (c : α → Client) : Prop := ∀ a, (c a).held = true → (c a).up = true

variable {c : α → Client} {a b : α} {v : Client} {ok : Bool}

theorem Sound.update (h : Sound c) (hothers : ∀ b ≠ a, (c b).held = false) (hlinked : v.linked = true → v.held = true)
    (hup : v.up = true → v.held = true) : Sound (Function.update c a v) where
  one := by
    have honly : ∀ b, (Function.update c a v b).held = true → b = a := by
      intro b hb
      by_contra hne
      rw [Function.update_of_ne hne, hothers b hne] at hb
      cases hb
    intro b b' hb hb'
    rw [honly b hb, honly b' hb']
  linked := (Function.forall_update_iff c fun _ w => w.linked = true → w.held = true).mpr
    ⟨hlinked, fun b _ => h.linked b⟩
  up := (Function.forall_update_iff c fun _ w => w.up = true → w.held = true).mpr
    ⟨hup, fun b _ => h.up b⟩

theorem Sound.moves (h : Sound c) (hmoves : Moves c a v ok) : Sound (Function.update c a v) := by
  cases hmoves with
  | refused hdown => rwa [Function.update_eq_self]
  | comesUp hdown hfree => exact h.update (fun b _ => hfree b) (by simp) (by simp)
  | stalls hdown hfree => exact h.update (fun b _ => hfree b) (by simp) (by simp)
  | goesDown hup =>
    refine h.update ?_ (by simp) (by simp)
    -- the one that goes down is the one that has the slot
    intro b hba
    by_contra hb
    exact hba (h.one b a (by simpa using hb) (h.up a hup))

omit [DecidableEq α] in
theorem Sound.moves_stalled (h : Sound c) (hheld : (c a).held = true) (hdown : (c a).up = false)
    (hmoves : Moves c b v ok) : ok = false ∧ v = c b := by
  cases hmoves with
  | refused hb => exact ⟨rfl, rfl⟩
  | comesUp hb hfree =>
    rw [hfree a] at hheld
    cases hheld
  | stalls hb hfree =>
    rw [hfree a] at hheld
    cases hheld
  | goesDown hup =>
    obtain rfl := h.one a b hheld (h.up b hup)
    rw [hup] at hdown
    cases hdown

/-- A client with the slot that is not up. -/
def Stalled (v : Client) : Prop := v.held = true ∧ v.up = false

theorem recoverable_update_iff (h : Recoverable c) :
    Recoverable (Function.update c a v) ↔ ¬ Stalled v := by
  constructor
  · intro hnext hstalled
    have hup : v.up = true := by
      have := hnext a
      rw [Function.update_self] at this
      exact this hstalled.1
    rw [hstalled.2] at hup
    cases hup
  · intro hstalled
    refine (Function.forall_update_iff c fun _ w => w.held = true → w.up = true).mpr ⟨?_, fun b _ => h b⟩
    intro hheld
    by_contra hne
    exact hstalled ⟨hheld, by simpa using hne⟩

end Slot
