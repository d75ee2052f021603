import Mathlib.Logic.Function.Basic
import DeviceDrivers.Kernel
import DeviceDrivers.Lib.Machine

/-!
# What the keyboard driver holds

`kbd_init` and `kbd_exit` of `Drivers/kbd/kbd.c`, as far as they acquire and release. The labels of
`kbd_init` fall through: once the character device region is registered, every path ends with a release
of the data port, the path that returns `0` too, and no path gives the region back. So the ledger holds
along a run exactly when no attempt to load the driver gets past `register_chrdev_region`
(`ledger_iff`).
-/

namespace DeviceDrivers.Kbd

inductive Resource
  | chrdevRegion
  | dataPort
  | statusPort
  | cdev
  | irq
  deriving DecidableEq

/-- Every driver has `cdev`s and interrupt handlers of its own; the rest has one owner. -/
def Resource.shared : Resource → Bool
  | .cdev => true
  | .irq => true
  | _ => false

/-- Whether this driver owns a resource, and whether another one does. -/
structure Holders where
  kbd : Bool
  other : Bool
  deriving DecidableEq

/-- The resources, and what this driver released although it did not own it. -/
structure Resources where
  holders : Resource → Holders
  stray : List Resource

namespace Resources

variable (s : Resources)

def free (r : Resource) : Bool := !(s.holders r).kbd && !(s.holders r).other

def acquire (r : Resource) : Resources :=
  { s with holders := Function.update s.holders r { s.holders r with kbd := true } }

/-- The releases so far that were not this driver's to make, with one of `r`. -/
def note (r : Resource) : List Resource := if (s.holders r).kbd then s.stray else s.stray ++ [r]

/-- A release that goes by number: it frees the resource whoever owns it. -/
def release (r : Resource) : Resources :=
  ⟨Function.update s.holders r ⟨false, false⟩, s.note r⟩

/-- A release that goes by the driver's own structure. -/
def releaseOwn (r : Resource) : Resources :=
  ⟨Function.update s.holders r { s.holders r with kbd := false }, s.note r⟩

/-- `register_chrdev_region`; `res` is what it returns where the region is free. -/
def registerChrdevRegion (res : Int) : Int × Resources :=
  if res ≠ 0 then (res, s)
  else if s.free .chrdevRegion then (0, s.acquire .chrdevRegion)
  else (-EBUSY, s)

/-- `request_region` on a port; it may fail on a free one (`ok`). -/
def requestRegion (port : Resource) (ok : Bool) : Bool × Resources :=
  if ok && s.free port then (true, s.acquire port) else (false, s)

/-- `request_irq` on a shared line, which returns `res`. -/
def requestIrq (res : Int) : Int × Resources :=
  if res = 0 then (0, s.acquire .irq) else (res, s)

/-! The labels of `kbd_init`, each with what it falls through to. -/

def labelReleaseDataPort : Resources := s.release .dataPort

def labelReleaseStatusPort : Resources := (s.release .statusPort).labelReleaseDataPort

end Resources

/-- The outcomes of the calls of `kbd_init` that can fail. -/
structure InitEnv where
  region : Int
  dataPort : Bool
  statusPort : Bool
  irq : Int

/-- `kbd_init` -/
def kbdInit (env : InitEnv) (s : Resources) : Int × Resources :=
  let region := s.registerChrdevRegion env.region
  if region.1 ≠ 0 then (region.1, region.2)
  else
    let data := region.2.requestRegion .dataPort env.dataPort
    if !data.1 then (-EBUSY, data.2.labelReleaseDataPort)
    else
      let status := data.2.requestRegion .statusPort env.statusPort
      if !status.1 then (-EBUSY, status.2.labelReleaseStatusPort)
      else
        -- what `cdev_add` returns is not looked at
        let irq := (status.2.acquire .cdev).requestIrq env.irq
        (irq.1, irq.2.labelReleaseStatusPort)

/-- `kbd_exit` -/
def kbdExit (s : Resources) : Resources :=
  let s := s.releaseOwn .irq
  let s := s.releaseOwn .cdev
  let s := s.release .statusPort
  let s := s.release .dataPort
  s.release .chrdevRegion

/-! ### Loading, unloading and other drivers -/

/-- `loaded` from a `kbd_init` that returns `0` to the next `kbd_exit`. -/
structure LedgerSys where
  res : Resources
  loaded : Bool

inductive LedgerEvent
  | init (env : InitEnv)
  | exit
  | otherRequest (r : Resource)
  | otherRelease (r : Resource)

/-- The output is what `kbd_init` returns. Other drivers are well behaved. -/
def ledgerStep (s : LedgerSys) : LedgerEvent → Option (LedgerSys × Int)
  | .init env =>
    if s.loaded then none
    else
      let r := kbdInit env s.res
      some (⟨r.2, decide (r.1 = 0)⟩, r.1)
  | .exit => if s.loaded then some (⟨kbdExit s.res, false⟩, 0) else none
  | .otherRequest r =>
    if r.shared || s.res.free r then
      some (⟨{ s.res with holders := Function.update s.res.holders r { s.res.holders r with other := true } },
        s.loaded⟩, 0)
    else none
  | .otherRelease r =>
    if (s.res.holders r).other then
      some (⟨{ s.res with holders := Function.update s.res.holders r { s.res.holders r with other := false } },
        s.loaded⟩, 0)
    else none

def ledger : Machine LedgerSys LedgerEvent Int := ⟨⟨⟨fun _ => ⟨false, false⟩, []⟩, false⟩, ledgerStep⟩

/-- This driver has released nothing but its own, and it owns everything while it is loaded and nothing
while it is not. -/
def InOrder (s : LedgerSys) : Prop :=
  s.res.stray = [] ∧ ∀ r, (s.res.holders r).kbd = s.loaded

/-- An attempt to load the driver fails at `register_chrdev_region`. -/
def FailsAtRegion (s : LedgerSys) (e : LedgerEvent) : Prop :=
  ∀ env, e = .init env → env.region ≠ 0 ∨ s.res.free .chrdevRegion = false

/-! ### The two ways of `kbd_init` -/

namespace Resources

variable {s : Resources} {r q : Resource}

@[simp] theorem acquire_self : (s.acquire r).holders r = { s.holders r with kbd := true } :=
  Function.update_self ..

@[simp] theorem acquire_of_ne (h : q ≠ r) : (s.acquire r).holders q = s.holders q :=
  Function.update_of_ne h ..

@[simp] theorem release_self : (s.release r).holders r = ⟨false, false⟩ := Function.update_self ..

@[simp] theorem release_of_ne (h : q ≠ r) : (s.release r).holders q = s.holders q :=
  Function.update_of_ne h ..

@[simp] theorem requestRegion_of_ne {port : Resource} {ok : Bool} (h : q ≠ port) :
    (s.requestRegion port ok).2.holders q = s.holders q := by
  unfold requestRegion
  split_ifs
  · exact acquire_of_ne h
  · rfl

@[simp] theorem requestIrq_of_ne {res : Int} (h : q ≠ .irq) :
    (s.requestIrq res).2.holders q = s.holders q := by
  unfold requestIrq
  split_ifs
  · exact acquire_of_ne h
  · rfl

end Resources

theorem registerChrdevRegion_ne_zero (res : Int) (s : Resources) :
    (s.registerChrdevRegion res).1 ≠ 0 ↔ res ≠ 0 ∨ s.free .chrdevRegion = false := by
  unfold Resources.registerChrdevRegion
  split_ifs with hres hfree
  · simp [hres]
  · simp at hres
    simp [hres, hfree]
  · simp at hres hfree
    simp [hfree, EBUSY]

theorem registerChrdevRegion_of_ne_zero {res : Int} {s : Resources}
    (h : (s.registerChrdevRegion res).1 ≠ 0) : (s.registerChrdevRegion res).2 = s := by
  unfold Resources.registerChrdevRegion at h ⊢
  split_ifs at h ⊢
  · rfl
  · exact (h rfl).elim
  · rfl

theorem registerChrdevRegion_of_eq_zero {res : Int} {s : Resources}
    (h : (s.registerChrdevRegion res).1 = 0) :
    (s.registerChrdevRegion res).2 = s.acquire .chrdevRegion := by
  unfold Resources.registerChrdevRegion at h ⊢
  split_ifs at h ⊢ with hres hfree
  · exact (hres h).elim
  · rfl
  · simp [EBUSY] at h

theorem kbdInit_fails {env : InitEnv} {s : Resources} (h : (s.registerChrdevRegion env.region).1 ≠ 0) :
    (kbdInit env s).1 ≠ 0 ∧ (kbdInit env s).2 = s := by
  unfold kbdInit
  dsimp only
  rw [if_pos h]
  exact ⟨h, registerChrdevRegion_of_ne_zero h⟩

theorem kbdInit_past_region {env : InitEnv} {s : Resources}
    (h : (s.registerChrdevRegion env.region).1 = 0) :
    ((kbdInit env s).2.holders .chrdevRegion).kbd = true ∧
      ((kbdInit env s).2.holders .dataPort).kbd = false := by
  unfold kbdInit Resources.labelReleaseStatusPort Resources.labelReleaseDataPort
  dsimp only
  rw [if_neg (not_not.mpr h), registerChrdevRegion_of_eq_zero h]
  split_ifs
  · simp
  · simp
  · simp

theorem kbdExit_inOrder {s : Resources} (hstray : s.stray = []) (hown : ∀ r, (s.holders r).kbd = true) :
    (kbdExit s).stray = [] ∧ ∀ r, ((kbdExit s).holders r).kbd = false := by
  constructor
  · simp [kbdExit, Resources.release, Resources.releaseOwn, Resources.note, hown, hstray]
  · intro r
    unfold kbdExit
    cases r with
    | chrdevRegion => simp
    | dataPort => simp
    | statusPort => simp
    | cdev => simp [Resources.releaseOwn]
    | irq => simp [Resources.releaseOwn]

theorem inOrder_init {s : LedgerSys} (hs : InOrder s) (hloaded : s.loaded = false) (env : InitEnv) :
    InOrder ⟨(kbdInit env s.res).2, decide ((kbdInit env s.res).1 = 0)⟩ ↔
      (env.region ≠ 0 ∨ s.res.free .chrdevRegion = false) := by
  rw [← registerChrdevRegion_ne_zero]
  constructor
  · rintro ⟨-, hown⟩ hzero
    obtain ⟨hregion, hdata⟩ := kbdInit_past_region hzero
    -- the region says that the driver is loaded, the data port that it is not
    have htrue := (hown .chrdevRegion).symm.trans hregion
    have hfalse := (hown .dataPort).symm.trans hdata
    exact Bool.false_ne_true (hfalse.symm.trans htrue)
  · intro h
    obtain ⟨hres, hsame⟩ := kbdInit_fails h
    refine ⟨?_, ?_⟩
    · rw [hsame]
      exact hs.1
    · intro r
      rw [hsame, decide_eq_false hres, ← hloaded]
      exact hs.2 r

theorem inOrder_other {s : LedgerSys} (hs : InOrder s) (r : Resource) (other : Bool) :
    InOrder ⟨{ s.res with holders := Function.update s.res.holders r { s.res.holders r with other := other } },
      s.loaded⟩ := by
  refine ⟨hs.1, ?_⟩
  intro q
  by_cases hq : q = r
  · subst hq
    dsimp only
    rw [Function.update_self]
    exact hs.2 q
  · dsimp only
    rw [Function.update_of_ne hq]
    exact hs.2 q

theorem inOrder_step {s t : LedgerSys} {e : LedgerEvent} {o : Int} (hs : InOrder s)
    (hstep : ledger.step s e = some (t, o)) : InOrder t ↔ FailsAtRegion s e := by
  cases e with
  | init env =>
    have hif : (if s.loaded then none
        else some ((⟨(kbdInit env s.res).2, decide ((kbdInit env s.res).1 = 0)⟩ : LedgerSys),
          (kbdInit env s.res).1)) = some (t, o) := hstep
    split_ifs at hif with hloaded
    obtain ⟨rfl, -⟩ := Prod.mk.inj (Option.some.inj hif)
    rw [inOrder_init hs (by simpa using hloaded)]
    simp [FailsAtRegion]
  | exit =>
    have hif : (if s.loaded then some ((⟨kbdExit s.res, false⟩ : LedgerSys), (0 : Int)) else none) =
      some (t, o) := hstep
    split_ifs at hif with hloaded
    obtain ⟨rfl, -⟩ := Prod.mk.inj (Option.some.inj hif)
    have hown : ∀ r, (s.res.holders r).kbd = true := fun r => (hs.2 r).trans hloaded
    exact iff_of_true (kbdExit_inOrder hs.1 hown) (by simp [FailsAtRegion])
  | otherRequest r =>
    simp only [ledger, ledgerStep] at hstep
    split_ifs at hstep
    obtain ⟨rfl, -⟩ := Prod.mk.inj (Option.some.inj hstep)
    exact iff_of_true (inOrder_other hs r true) (by simp [FailsAtRegion])
  | otherRelease r =>
    simp only [ledger, ledgerStep] at hstep
    split_ifs at hstep
    obtain ⟨rfl, -⟩ := Prod.mk.inj (Option.some.inj hstep)
    exact iff_of_true (inOrder_other hs r false) (by simp [FailsAtRegion])

/-- Along a run the driver releases only its own, owns everything while it is loaded and nothing
otherwise, exactly when every attempt to load it fails at `register_chrdev_region`. -/
theorem ledger_iff {es : List LedgerEvent} {s : LedgerSys} {os : List Int}
    (hrun : ledger.run es = some (s, os)) :
    ledger.Always InOrder es ↔ ledger.EveryStep FailsAtRegion es :=
  Machine.always_iff_everyStep (Machine.invariant_true _) ⟨rfl, fun _ => rfl⟩
    (fun _ => inOrder_step) hrun

/-- The driver is loaded with nothing in its way. -/
def loadedOnce : List LedgerEvent := [.init ⟨0, true, true, 0⟩]

/-- It then owns neither port. -/
theorem loaded_without_ports : ¬ ledger.Always InOrder loadedOnce := by
  intro h
  have hown := (h _ ⟨(kbdInit ⟨0, true, true, 0⟩ ledger.init.res).2, true⟩ [0] (List.prefix_refl _) rfl).2
  exact Bool.false_ne_true (hown .dataPort)

/-- Another driver has the region, and the load fails there. -/
theorem ledger_iff_region_taken :
    ledger.Always InOrder ([.otherRequest .chrdevRegion] ++ [.init ⟨0, true, true, 0⟩]) := by
  rw [ledger_iff rfl, Machine.everyStep_concat, ← List.nil_append [LedgerEvent.otherRequest _],
    Machine.everyStep_concat]
  refine ⟨⟨Machine.everyStep_nil, ?_⟩, ?_⟩
  · intro t os _
    simp [FailsAtRegion]
  · intro t os hrun env heq
    obtain ⟨rfl, -⟩ := Prod.mk.inj (Option.some.inj hrun)
    right
    rfl

end DeviceDrivers.Kbd
