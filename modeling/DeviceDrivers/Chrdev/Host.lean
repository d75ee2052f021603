import DeviceDrivers.Chrdev.Register
import DeviceDrivers.Lib.Slot

/-!
# Five drivers on one machine

`host` loads and unloads the five drivers that want major 42 in any order: at most one of them is loaded, and the
device number leads to no other (`one_driver_at_a_time`). A load that has registered the number and then fails keeps
it: `kbd_init` and `mydriver_init` return an error, and `driver_initt` does not get past the pages of the `NULL` that
`vmalloc` returns without memory. The number is then lost to all five (`failed_load_is_final`), and it is lost in no
other way (`number_recoverable_iff`).
-/

namespace DeviceDrivers.Chrdev

open Slot

/-! ### The drivers -/

inductive DriverId
  | so2Cdev
  | timer
  | kbd
  | memory
  | nonMemory
  deriving DecidableEq

namespace DriverId

def all : List DriverId := [.so2Cdev, .timer, .kbd, .memory, .nonMemory]

abbrev State : DriverId → Type
  | .so2Cdev => Loading (Held Resource)
  | .timer => Loading (Held Resource)
  | .kbd => Kbd.LedgerSys
  | .memory => Loading Mmap.Driver
  | .nonMemory => Loading Mmap.Driver

/-- The outcomes of the calls that its init function makes, but for `cdev_add`. -/
abbrev Env (pageShift : Nat) : DriverId → Type
  | .so2Cdev => Int
  | .timer => Int
  | .kbd => Kbd.InitEnv
  | .memory => Mmap.LoadEnv (Mmap.kmallocSize pageShift)
  | .nonMemory => Mmap.LoadEnv (Mmap.vmallocSize pageShift)

def first : (d : DriverId) → d.State
  | .so2Cdev => ⟨.empty, false⟩
  | .timer => ⟨.empty, false⟩
  | .kbd => Kbd.ledger.init
  | .memory => ⟨⟨.empty, 0, 0, []⟩, false⟩
  | .nonMemory => ⟨⟨.empty, 0, 0, []⟩, false⟩

variable {pageShift : Nat}

/-- What `register_chrdev_region` returns if the number is free. -/
def regionOf : (d : DriverId) → d.Env pageShift → Int
  | .so2Cdev, res => res
  | .timer, res => res
  | .kbd, env => env.region
  | .memory, env => env.region
  | .nonMemory, env => env.region

def withRegion : (d : DriverId) → d.Env pageShift → Int → d.Env pageShift
  | .so2Cdev, _, res => res
  | .timer, _, res => res
  | .kbd, env, res => { env with region := res }
  | .memory, env, res => { env with region := res }
  | .nonMemory, env, res => { env with region := res }

/-- The driver and what its init function returns. One that has not returned is not run again, and the driver is not
loaded. -/
def load : (d : DriverId) → d.Env pageShift → d.State → Option (d.State × Option Int)
  | .so2Cdev, res, s => (Loading.step id so2CdevInit so2CdevExit s (.init res)).map fun r => (r.1, some r.2)
  | .timer, res, s => (Loading.step id deferredInit deferredExit s (.init res)).map fun r => (r.1, some r.2)
  | .kbd, env, s => (Kbd.ledgerStep s (.init env)).map fun r => (r.1, some r.2)
  | .memory, env, s =>
    (Loading.step Mmap.Driver.fresh (Mmap.mydriverInit pageShift) (Mmap.mydriverExit pageShift) s (.init env)).map
      fun r => (r.1, some r.2)
  | .nonMemory, env, s =>
    if s.state.nullOps = [] then
      (Loading.step Mmap.Driver.fresh (Mmap.driverInitt pageShift) (Mmap.driverExit pageShift) s (.init env)).map
        fun r => (⟨r.1.state, decide (outOf (r.2, r.1.state) = some 0)⟩, outOf (r.2, r.1.state))
    else none

def unload (pageShift : Nat) : (d : DriverId) → d.State → Option d.State
  | .so2Cdev, s => (Loading.step id so2CdevInit so2CdevExit s .exit).map Prod.fst
  | .timer, s => (Loading.step id deferredInit deferredExit s .exit).map Prod.fst
  | .kbd, s => (Kbd.ledgerStep s .exit).map Prod.fst
  | .memory, s =>
    (Loading.step Mmap.Driver.fresh (Mmap.mydriverInit pageShift) (Mmap.mydriverExit pageShift) s .exit).map Prod.fst
  | .nonMemory, s =>
    (Loading.step Mmap.Driver.fresh (Mmap.driverInitt pageShift) (Mmap.driverExit pageShift) s .exit).map Prod.fst

/-- The region and the device of a driver. -/
def tally : (d : DriverId) → d.State → Nat × Nat
  | .so2Cdev, s => Chrdev.tally .chrdevRegion .cdev s.state.held
  | .timer, s => Chrdev.tally .chrdevRegion .cdev s.state.held
  | .kbd, s => kbdTally s.res
  | .memory, s => Chrdev.tally .chrdevRegion (.cdev 0) s.state.owned.held
  | .nonMemory, s => Chrdev.tally .chrdevRegion (.cdev 0) s.state.owned.held

def loaded : (d : DriverId) → d.State → Bool
  | .so2Cdev, s => s.loaded
  | .timer, s => s.loaded
  | .kbd, s => s.loaded
  | .memory, s => s.loaded
  | .nonMemory, s => s.loaded

/-- Nothing fails behind the registration. -/
def Completes : (d : DriverId) → d.Env pageShift → Prop
  | .so2Cdev, _ => True
  | .timer, _ => True
  | .kbd, env => KbdCompletes env
  | .memory, env => env.alloc.isSome = true
  | .nonMemory, env => env.alloc.isSome = true

end DriverId

/-! ### The machine -/

/-- The drivers, and to which of them the number leads. -/
structure Host where
  driver : (d : DriverId) → d.State
  linked : DriverId → Bool

namespace Host

variable (s : Host) (d : DriverId)

def tallyOf : Nat × Nat := d.tally (s.driver d)

def loadedOf : Bool := d.loaded (s.driver d)

/-- The driver has registered the number, the number leads to it, it is loaded. -/
def client : Client := ⟨decide (0 < (s.tallyOf d).1), s.linked d, s.loadedOf d⟩

/-- What `register_chrdev_region` returns to `d`, where `res` is what it returns if the number is free. -/
def region (res : Int) : Int :=
  if DriverId.all.any fun d' => d' ≠ d && (s.client d').held then -EBUSY else res

def put (x : d.State) (linked : Bool) : Host := ⟨Function.update s.driver d x, Function.update s.linked d linked⟩

/-- Whether the number leads to `d` when its init function has left it as `x`, by what `cdev_add` has returned to it
if it was called. -/
def linkedAfter (x : d.State) (cdevAdd : Int) : Bool :=
  if (s.tallyOf d).2 < (d.tally x).2 then decide (cdevAdd = 0) else s.linked d

end Host

inductive HostEvent (pageShift : Nat)
  | load (d : DriverId) (env : d.Env pageShift) (cdevAdd : Int)
  | unload (d : DriverId)

variable {pageShift : Nat}

/-- The output is what the init function returns, if it does. -/
def hostStep (s : Host) : HostEvent pageShift → Option (Host × Option Int)
  | .load d env cdevAdd =>
    (d.load (d.withRegion env (s.region d (d.regionOf env))) (s.driver d)).map fun r =>
      (s.put d r.1 (s.linkedAfter d r.1 cdevAdd), r.2)
  | .unload d => (d.unload pageShift (s.driver d)).map fun x => (s.put d x false, some 0)

def host (pageShift : Nat) : Machine Host (HostEvent pageShift) (Option Int) :=
  ⟨⟨DriverId.first, fun _ => false⟩, hostStep⟩

/-! ### One driver -/

section

variable {σ ε : Type} {fresh : σ → σ} {init : ε → σ → Int × σ} {exit : σ → σ} {x l : Loading σ} {ret : Int}

theorem loading_init {env : ε} (h : Loading.step fresh init exit x (.init env) = some (l, ret)) :
    x.loaded = false ∧ l = ⟨(init env (fresh x.state)).2, decide (ret = 0)⟩ ∧ ret = (init env (fresh x.state)).1 := by
  rw [Loading.step] at h
  split_ifs at h with hloaded
  obtain ⟨rfl, rfl⟩ := Prod.mk.inj (Option.some.inj h)
  exact ⟨by simpa using hloaded, rfl, rfl⟩

theorem loading_exit (h : (Loading.step fresh init exit x .exit).map Prod.fst = some l) :
    x.loaded = true ∧ l = ⟨exit x.state, false⟩ := by
  obtain ⟨r, hstep, rfl⟩ := Option.map_eq_some_iff.mp h
  rw [Loading.step] at hstep
  split_ifs at hstep with hloaded
  obtain rfl := Option.some.inj hstep
  exact ⟨hloaded, rfl⟩

end

namespace DriverId

/-- What the keyboard driver needs of its ports between its calls. -/
def Ports : (d : DriverId) → d.State → Prop
  | .kbd, s => KbdFits s.res
  | _, _ => True

/-- A driver has the number at most once and no device without it, and it has both while it is loaded. -/
structure Fits (d : DriverId) (x : d.State) : Prop where
  bound : (d.tally x).2 ≤ (d.tally x).1 ∧ (d.tally x).1 ≤ 1
  loaded : d.loaded x = true → d.tally x = (1, 1)
  ports : d.Ports x

variable {d : DriverId} {x y : d.State} {o : Option Int}

/-- Whatever the init function does, the driver is loaded if it returns `0`, and it does with the number what all five
do. -/
structure Loads (d : DriverId) (env : d.Env pageShift) (x y : d.State) (o : Option Int) : Prop where
  down : d.loaded x = false
  loaded : d.loaded y = decide (o = some 0)
  spec : InitSpec (d.tally x) (d.tally y) (d.regionOf env) o (d.Completes env)
  returns : o = none → d = .nonMemory
  ports : d.Ports y

theorem loads_of_load (hx : d.Fits x) {env : d.Env pageShift} (h : d.load env x = some (y, o)) :
    d.Loads env x y o := by
  cases d with
  | so2Cdev =>
    obtain ⟨⟨l, r⟩, hload, heq⟩ := Option.map_eq_some_iff.mp h
    obtain ⟨rfl, rfl⟩ := Prod.mk.inj heq
    obtain ⟨hdown, rfl, rfl⟩ := loading_init hload
    exact ⟨hdown, by simp [loaded], registerDevices_spec env x.state, by simp, trivial⟩
  | timer =>
    obtain ⟨⟨l, r⟩, hload, heq⟩ := Option.map_eq_some_iff.mp h
    obtain ⟨rfl, rfl⟩ := Prod.mk.inj heq
    obtain ⟨hdown, rfl, rfl⟩ := loading_init hload
    exact ⟨hdown, by simp [loaded], registerDevices_spec env x.state, by simp, trivial⟩
  | kbd =>
    obtain ⟨⟨l, r⟩, hload, heq⟩ := Option.map_eq_some_iff.mp h
    obtain ⟨rfl, rfl⟩ := Prod.mk.inj heq
    simp only [Kbd.ledgerStep] at hload
    split_ifs at hload with hloaded
    obtain ⟨rfl, rfl⟩ := Prod.mk.inj (Option.some.inj hload)
    obtain ⟨hkbd, hspec⟩ := kbdInit_spec env (hx.ports)
    exact ⟨Bool.not_eq_true _ ▸ hloaded, by simp [loaded], hspec, by simp, hkbd⟩
  | memory =>
    obtain ⟨⟨l, r⟩, hload, heq⟩ := Option.map_eq_some_iff.mp h
    obtain ⟨rfl, rfl⟩ := Prod.mk.inj heq
    obtain ⟨hdown, rfl, rfl⟩ := loading_init hload
    exact ⟨hdown, by simp [loaded], mydriverInit_spec env x.state.fresh, by simp, trivial⟩
  | nonMemory =>
    simp only [load] at h
    split_ifs at h with hops
    obtain ⟨⟨l, r⟩, hload, heq⟩ := Option.map_eq_some_iff.mp h
    obtain ⟨rfl, rfl⟩ := Prod.mk.inj heq
    obtain ⟨hdown, rfl, rfl⟩ := loading_init hload
    exact ⟨hdown, rfl, driverInitt_spec env (s := x.state.fresh) hops, fun _ => rfl, trivial⟩

theorem tally_unregistered {ρ : Type} [DecidableEq ρ] {region node : ρ} {l l' : List ρ}
    (hbefore : Chrdev.tally region node l = (1, 1)) (hregion : l'.count region = l.count region - 1)
    (hnode : l'.count node = l.count node - 1) : Chrdev.tally region node l' = (0, 0) := by
  obtain ⟨h₁, h₂⟩ := Prod.mk.inj hbefore
  unfold Chrdev.tally
  rw [hregion, hnode, h₁, h₂]

theorem tally_of_unload (hx : d.Fits x) (h : d.unload pageShift x = some y) :
    d.loaded x = true ∧ d.loaded y = false ∧ d.tally y = (0, 0) ∧ d.Ports y := by
  cases d with
  | so2Cdev =>
    obtain ⟨hup, rfl⟩ := loading_exit h
    refine ⟨hup, rfl, tally_unregistered (hx.loaded hup) ?_ ?_, trivial⟩ <;>
      simp [so2CdevExit, unregisterDevices, count_release]
  | timer =>
    obtain ⟨hup, rfl⟩ := loading_exit h
    refine ⟨hup, rfl, tally_unregistered (hx.loaded hup) ?_ ?_, trivial⟩ <;>
      simp [deferredExit, unregisterDevices, count_release]
  | kbd =>
    obtain ⟨r, hstep, rfl⟩ := Option.map_eq_some_iff.mp h
    simp only [Kbd.ledgerStep] at hstep
    split_ifs at hstep with hup
    obtain rfl := Option.some.inj hstep
    obtain ⟨hkbd, htally⟩ := kbdExit_tally (hx.ports)
    exact ⟨hup, rfl, htally, hkbd⟩
  | memory =>
    obtain ⟨hup, rfl⟩ := loading_exit h
    exact ⟨hup, rfl, tally_unregistered (hx.loaded hup) (count_mydriverExit (.inl rfl) _)
      (count_mydriverExit (.inr rfl) _), trivial⟩
  | nonMemory =>
    obtain ⟨hup, rfl⟩ := loading_exit h
    exact ⟨hup, rfl, tally_unregistered (hx.loaded hup) (count_driverExit (.inl rfl) _)
      (count_driverExit (.inr rfl) _), trivial⟩

theorem Loads.fits (hx : d.Fits x) {env : d.Env pageShift} (h : d.Loads env x y o) : d.Fits y := by
  obtain ⟨hnode, hone⟩ := hx.bound
  by_cases hregistered : d.regionOf env = 0 ∧ (d.tally x).1 = 0
  · obtain ⟨hone', hle, hok, hlinked⟩ := h.spec.registered hregistered.1 hregistered.2
    refine ⟨by omega, ?_, h.ports⟩
    intro hup
    rw [h.loaded, decide_eq_true_eq] at hup
    have hpos := hlinked (hok.mp hup)
    ext
    · exact hone'
    · show (d.tally y).2 = 1
      omega
  · obtain ⟨⟨err, hout, herr⟩, hsame⟩ := h.spec.refused (by omega)
    refine ⟨by rw [hsame]; exact hx.bound, ?_, h.ports⟩
    intro hup
    rw [h.loaded, decide_eq_true_eq, hout] at hup
    exact (herr (Option.some.inj hup)).elim

theorem Loads.device (hx : d.Fits x) {env : d.Env pageShift} (h : d.Loads env x y o) (hup : d.loaded y = true) :
    (d.tally x).2 < (d.tally y).2 := by
  have hy := (h.fits hx).loaded hup
  rw [h.loaded, decide_eq_true_eq] at hup
  have hnode := hx.bound.1
  rw [hy]
  by_contra hheld
  obtain ⟨⟨err, hout, herr⟩, -⟩ := h.spec.refused (.inr (by omega))
  rw [hout] at hup
  exact herr (Option.some.inj hup)

end DriverId

/-! ### One step of the machine -/

structure Fits (s : Host) : Prop where
  driver : ∀ d : DriverId, d.Fits (s.driver d)
  sound : Sound s.client

/-- The load finds the number free and fails after it has registered it. -/
def FailsAfterRegistering (s : Host) : HostEvent pageShift → Prop
  | .load d env _ => (∀ d', (s.client d').held = false) ∧ d.regionOf env = 0 ∧ ¬ d.Completes env
  | .unload _ => False

variable {s t : Host} {d : DriverId} {res : Int} {o : Option Int}

theorem region_of_free (h : ∀ d, (s.client d).held = false) : s.region d res = res := by
  unfold Host.region
  rw [if_neg]
  simp [h]

theorem region_of_held {d' : DriverId} (hne : d' ≠ d) (hheld : (s.client d').held = true) :
    s.region d res ≠ 0 := by
  have hall : d' ∈ DriverId.all := by cases d' <;> decide
  have hany : (DriverId.all.any fun d' => d' ≠ d && (s.client d').held) = true :=
    List.any_eq_true.mpr ⟨d', hall, by simp [hne, hheld]⟩
  unfold Host.region
  rw [if_pos hany]
  decide

theorem held_iff : (s.client d).held = true ↔ 0 < (s.tallyOf d).1 := decide_eq_true_iff

@[simp] theorem DriverId.regionOf_withRegion (d : DriverId) (env : d.Env pageShift) (res : Int) :
    d.regionOf (d.withRegion env res) = res := by
  cases d <;> rfl

@[simp] theorem DriverId.completes_withRegion (d : DriverId) (env : d.Env pageShift) (res : Int) :
    d.Completes (d.withRegion env res) ↔ d.Completes env := by
  cases d <;> rfl

theorem put_client (s : Host) (d : DriverId) (x : d.State) (linked : Bool) :
    (s.put d x linked).client = Function.update s.client d ⟨decide (0 < (d.tally x).1), linked, d.loaded x⟩ := by
  funext d'
  unfold Host.client Host.tallyOf Host.loadedOf Host.put
  by_cases hd : d' = d
  · subst hd
    simp only [Function.update_self]
  · simp only [Function.update_of_ne hd]

theorem put_of_ne {d' : DriverId} (hne : d' ≠ d) (x : d.State) (linked : Bool) :
    (s.put d x linked).linked d' = s.linked d' ∧ (s.put d x linked).loadedOf d' = s.loadedOf d' := by
  unfold Host.loadedOf Host.put
  simp only [Function.update_of_ne hne, and_self]

theorem put_others (s : Host) (d : DriverId) (x : d.State) (linked : Bool) :
    (s.put d x linked).client = Function.update s.client d ((s.put d x linked).client d) := by
  rw [put_client, Function.update_self]

theorem Fits.put (hs : Fits s) {x : d.State} {linked : Bool} (hx : d.Fits x) {ok : Bool}
    (hmoves : Moves s.client d ((s.put d x linked).client d) ok) : Fits (s.put d x linked) where
  driver := by
    intro d'
    by_cases hd : d' = d
    · subst hd
      simpa [Host.put] using hx
    · simpa [Host.put, hd] using hs.driver d'
  sound := by
    rw [put_others]
    exact hs.sound.moves hmoves

/-- One driver moves, and it stalls where its load fails behind the registration. -/
structure StepMoves (s t : Host) (e : HostEvent pageShift) (o : Option Int) (d : DriverId) : Prop where
  others : t.client = Function.update s.client d (t.client d)
  moves : Moves s.client d (t.client d) (decide (o = some 0))
  fits : Fits t
  stalled : Recoverable s.client → (Stalled (t.client d) ↔ FailsAfterRegistering s e)
  returns : o = none → FailsAfterRegistering s e ∧ ∃ env cdevAdd, e = .load .nonMemory env cdevAdd

theorem refused_of_not_free {res : Int} (h : ¬ ((∀ d', (s.client d').held = false) ∧ res = 0)) :
    s.region d res ≠ 0 ∨ 0 < (d.tally (s.driver d)).1 := by
  by_contra hnot
  rw [not_or, not_not] at hnot
  have hfree : ∀ d', (s.client d').held = false := by
    intro d'
    by_contra hheld
    rw [Bool.not_eq_false] at hheld
    by_cases hne : d' = d
    · exact hnot.2 (held_iff.mp (hne ▸ hheld))
    · exact region_of_held hne hheld hnot.1
  rw [region_of_free hfree] at hnot
  exact h ⟨hfree, hnot.1⟩

theorem load_stepMoves (hs : Fits s) {env : d.Env pageShift} {cdevAdd : Int} {x : d.State}
    (hload : d.load (d.withRegion env (s.region d (d.regionOf env))) (s.driver d) = some (x, o)) :
    StepMoves s (s.put d x (s.linkedAfter d x cdevAdd)) (.load d env cdevAdd) o d := by
  have hloads := DriverId.loads_of_load (hs.driver d) hload
  have hx := hloads.fits (hs.driver d)
  have hspec := hloads.spec
  rw [DriverId.regionOf_withRegion, DriverId.completes_withRegion] at hspec
  have hothers := put_others s d x (s.linkedAfter d x cdevAdd)
  have hself : (s.put d x (s.linkedAfter d x cdevAdd)).client d =
      ⟨decide (0 < (d.tally x).1), s.linkedAfter d x cdevAdd, decide (o = some 0)⟩ := by
    rw [put_client, Function.update_self, hloads.loaded]
  have hdown : (s.client d).up = false := hloads.down
  by_cases hregistered : (∀ d', (s.client d').held = false) ∧ d.regionOf env = 0
  · obtain ⟨hfree, hres⟩ := hregistered
    have hzero : (d.tally (s.driver d)).1 = 0 := by
      by_contra hne
      have := held_iff.mpr (Nat.pos_of_ne_zero hne)
      rw [hfree d] at this
      cases this
    obtain ⟨hone, -, hok, -⟩ := hspec.registered (by rw [region_of_free hfree, hres]) hzero
    by_cases hcompletes : d.Completes env
    · have hclient : (s.put d x (s.linkedAfter d x cdevAdd)).client d =
          ⟨true, s.linkedAfter d x cdevAdd, true⟩ := by
        rw [hself, hone, hok.mpr hcompletes]
        rfl
      have hmoves : Moves s.client d ((s.put d x (s.linkedAfter d x cdevAdd)).client d) (decide (o = some 0)) := by
        rw [hclient, hok.mpr hcompletes]
        exact .comesUp hdown hfree
      refine ⟨hothers, hmoves, hs.put hx hmoves, fun _ => iff_of_false ?_ (fun h => h.2.2 hcompletes), ?_⟩
      · simp [Stalled, hclient]
      · intro hnone
        rw [hok.mpr hcompletes] at hnone
        cases hnone
    · have hout : o ≠ some 0 := mt hok.mp hcompletes
      have hclient : (s.put d x (s.linkedAfter d x cdevAdd)).client d =
          ⟨true, s.linkedAfter d x cdevAdd, false⟩ := by
        rw [hself, hone, decide_eq_false hout]
        rfl
      have hmoves : Moves s.client d ((s.put d x (s.linkedAfter d x cdevAdd)).client d) (decide (o = some 0)) := by
        rw [hclient, decide_eq_false hout]
        exact .stalls hdown hfree
      have hfails : FailsAfterRegistering s (.load d env cdevAdd) := ⟨hfree, hres, hcompletes⟩
      refine ⟨hothers, hmoves, hs.put hx hmoves, fun _ => iff_of_true ?_ hfails, fun hnone => ⟨hfails, ?_⟩⟩
      · rw [hclient]
        exact ⟨rfl, rfl⟩
      · obtain rfl := hloads.returns hnone
        exact ⟨env, cdevAdd, rfl⟩
  · obtain ⟨⟨err, hout, herr⟩, hsame⟩ := hspec.refused (refused_of_not_free hregistered)
    have hfalse : decide (o = some 0) = false := by simp [hout, herr]
    have hclient : (s.put d x (s.linkedAfter d x cdevAdd)).client d = s.client d := by
      have hlinked : s.linkedAfter d x cdevAdd = s.linked d := by
        unfold Host.linkedAfter Host.tallyOf
        rw [hsame, if_neg (Nat.lt_irrefl _)]
      rw [hself, hsame, hfalse, hlinked, ← hdown]
      rfl
    have hmoves : Moves s.client d ((s.put d x (s.linkedAfter d x cdevAdd)).client d) (decide (o = some 0)) := by
      rw [hclient, hfalse]
      exact .refused hdown
    refine ⟨hothers, hmoves, hs.put hx hmoves, ?_, by simp [hout]⟩
    intro hrecoverable
    refine iff_of_false ?_ fun h => hregistered ⟨h.1, h.2.1⟩
    rintro ⟨hheld, -⟩
    rw [hclient] at hheld
    have hup := hrecoverable d hheld
    rw [hdown] at hup
    cases hup

theorem unload_stepMoves (hs : Fits s) {x : d.State} (hunload : d.unload pageShift (s.driver d) = some x) :
    StepMoves s (s.put d x false) (.unload d : HostEvent pageShift) (some 0) d := by
  obtain ⟨hup, hdown, htally, hports⟩ := DriverId.tally_of_unload (hs.driver d) hunload
  have hx : d.Fits x := ⟨by rw [htally]; decide, by simp [hdown], hports⟩
  have hclient : (s.put d x false).client d = ⟨false, false, false⟩ := by
    rw [put_client, Function.update_self, htally, hdown]
    rfl
  have hmoves : Moves s.client d ((s.put d x false).client d) (decide (some (0 : Int) = some 0)) := by
    rw [hclient]
    exact .goesDown hup
  exact ⟨put_others s d x false, hmoves, hs.put hx hmoves, fun _ => iff_of_false (by simp [Stalled, hclient]) id,
    by simp⟩

theorem hostStep_moves (hs : Fits s) {e : HostEvent pageShift} (hstep : hostStep s e = some (t, o)) :
    ∃ d, StepMoves s t e o d := by
  cases e with
  | load d env cdevAdd =>
    obtain ⟨⟨x, o'⟩, hload, heq⟩ := Option.map_eq_some_iff.mp hstep
    obtain ⟨rfl, rfl⟩ := Prod.mk.inj heq
    exact ⟨d, load_stepMoves hs hload⟩
  | unload d =>
    obtain ⟨x, hunload, heq⟩ := Option.map_eq_some_iff.mp hstep
    obtain ⟨rfl, rfl⟩ := Prod.mk.inj heq
    exact ⟨d, unload_stepMoves hs hunload⟩

/-! ### Every run -/

theorem fits_init : Fits (host pageShift).init where
  driver := by
    intro d
    cases d with
    | kbd => exact ⟨⟨Nat.le_refl 0, Nat.zero_le 1⟩, Bool.noConfusion, ⟨fun _ => rfl, rfl, rfl⟩⟩
    | _ => exact ⟨⟨Nat.le_refl 0, Nat.zero_le 1⟩, Bool.noConfusion, trivial⟩
  sound := by
    have hnone : ∀ d, (host pageShift).init.client d = ⟨false, false, false⟩ := by
      intro d
      cases d <;> rfl
    refine ⟨?_, ?_, ?_⟩
    · intro a b ha
      rw [hnone a] at ha
      cases ha
    · intro a ha
      rw [hnone a] at ha
      cases ha
    · intro a ha
      rw [hnone a] at ha
      cases ha

theorem fits_invariant : (host pageShift).Invariant Fits where
  init := fits_init
  step := by
    intro s t e o hs hstep
    obtain ⟨d, hmoves⟩ := hostStep_moves hs hstep
    exact hmoves.fits

/-- What `cdev_add` returns in a load of `d`. -/
def HostEvent.cdevAdd (d : DriverId) : HostEvent pageShift → Option Int
  | .load d' _ cdevAdd => if d' = d then some cdevAdd else none
  | .unload _ => none

/-- What it has returned in the last one. -/
def lastCdevAdd (d : DriverId) (es : List (HostEvent pageShift)) : Option Int :=
  (es.filterMap (HostEvent.cdevAdd d)).getLast?

theorem lastCdevAdd_concat (d : DriverId) (es : List (HostEvent pageShift)) (e : HostEvent pageShift) :
    lastCdevAdd d (es ++ [e]) = (e.cdevAdd d).or (lastCdevAdd d es) := by
  unfold lastCdevAdd
  rw [List.filterMap_append]
  cases he : e.cdevAdd d with
  | none => simp [he]
  | some r => simp [he]

theorem linked_iff {es : List (HostEvent pageShift)} {os : List (Option Int)}
    (hrun : (host pageShift).run es = some (s, os)) (hd : s.loadedOf d = true) :
    s.linked d = true ↔ lastCdevAdd d es = some 0 := by
  induction es using List.reverseRecOn generalizing s os with
  | nil =>
    obtain ⟨rfl, -⟩ := Prod.mk.inj (Option.some.inj hrun)
    cases d <;> cases hd
  | append_singleton es e ih =>
    obtain ⟨u, os', o, hpre, hstep, -⟩ := (host pageShift).run_concat_eq_some.mp hrun
    have hu := fits_invariant.run hpre
    rw [lastCdevAdd_concat]
    cases e with
    | load d' env cdevAdd =>
      obtain ⟨⟨x, o'⟩, hload, heq⟩ := Option.map_eq_some_iff.mp hstep
      obtain ⟨rfl, rfl⟩ := Prod.mk.inj heq
      by_cases hdd : d = d'
      · subst hdd
        have hloads := DriverId.loads_of_load (hu.driver d) hload
        have hup : d.loaded x = true := by simpa [Host.loadedOf, Host.put] using hd
        have hdevice := hloads.device (hu.driver d) hup
        simp [Host.put, Host.linkedAfter, Host.tallyOf, hdevice, HostEvent.cdevAdd]
      · obtain ⟨hlinked, hloaded⟩ := put_of_ne (s := u) hdd x (u.linkedAfter d' x cdevAdd)
        dsimp only at hd ⊢
        rw [hloaded] at hd
        rw [hlinked, HostEvent.cdevAdd, if_neg (Ne.symm hdd), Option.none_or]
        exact ih hpre hd
    | unload d' =>
      obtain ⟨x, hunload, heq⟩ := Option.map_eq_some_iff.mp hstep
      obtain ⟨rfl, rfl⟩ := Prod.mk.inj heq
      by_cases hdd : d = d'
      · subst hdd
        obtain ⟨-, hdown, -⟩ := DriverId.tally_of_unload (hu.driver d) hunload
        have hup : d.loaded x = true := by simpa [Host.loadedOf, Host.put] using hd
        rw [hdown] at hup
        cases hup
      · obtain ⟨hlinked, hloaded⟩ := put_of_ne (s := u) hdd x false
        rw [hloaded] at hd
        rw [hlinked, HostEvent.cdevAdd, Option.none_or]
        exact ih hpre hd

/-- Whatever is loaded and unloaded in whatever order, at most one of the five drivers is loaded. It has registered the
number, which leads to it unless `cdev_add` has failed in its load, and to no other driver. -/
theorem one_driver_at_a_time {es : List (HostEvent pageShift)} {os : List (Option Int)}
    (hrun : (host pageShift).run es = some (s, os)) (hd : s.loadedOf d = true) :
    (s.client d).held = true ∧ ((s.client d).linked = true ↔ lastCdevAdd d es = some 0) ∧
      ∀ d' ≠ d, s.loadedOf d' = false ∧ (s.client d').held = false ∧ (s.client d').linked = false := by
  obtain ⟨-, hsound⟩ := fits_invariant.run hrun
  have hheld := hsound.up d hd
  refine ⟨hheld, linked_iff hrun hd, ?_⟩
  intro d' hne
  have hother : (s.client d').held = false := by
    by_contra h
    exact hne (hsound.one d' d (by simpa using h) hheld)
  refine ⟨?_, hother, ?_⟩
  · by_contra h
    have := hsound.up d' (Bool.not_eq_false _ ▸ h)
    rw [hother] at this
    cases this
  · by_contra h
    have := hsound.linked d' (by simpa using h)
    rw [hother] at this
    cases this

/-- The second driver is refused while the first one is there, and gets the number after it; its `cdev_add` fails. -/
def oneAfterAnother : List (HostEvent 12) :=
  [.load .timer (0 : Int) 0, .load .so2Cdev (0 : Int) 0, .unload .timer, .load .so2Cdev (0 : Int) (-12)]

theorem one_driver_at_a_time_second :
    ∃ s, (host 12).run oneAfterAnother = some (s, [some 0, some (-16), some 0, some 0]) ∧
      s.loadedOf .so2Cdev = true ∧ s.loadedOf .timer = false ∧ ¬ (s.client .so2Cdev).linked = true := by
  have hrun : (host 12).run oneAfterAnother = some (_, [some 0, some (-16), some 0, some 0]) := rfl
  obtain ⟨-, hlinked, hothers⟩ := one_driver_at_a_time (d := .so2Cdev) hrun rfl
  refine ⟨_, hrun, rfl, (hothers .timer (by decide)).1, ?_⟩
  rw [hlinked]
  decide

theorem FailsAfterRegistering.free {e : HostEvent pageShift} (h : FailsAfterRegistering s e) :
    ∀ d, (s.client d).held = false := by
  cases e with
  | load d env cdevAdd => exact h.1
  | unload d => exact h.elim

theorem stalled_runFrom {fs : List (HostEvent pageShift)} {ps : List (Option Int)} (hs : Fits s)
    (hstalled : Stalled (s.client d)) (hrun : (host pageShift).runFrom s fs = some (t, ps)) :
    (∀ o ∈ ps, ∃ err, o = some err ∧ err ≠ 0) ∧ t.client = s.client := by
  induction fs generalizing s ps with
  | nil =>
    obtain ⟨rfl, rfl⟩ := Prod.mk.inj (Option.some.inj hrun)
    exact ⟨by simp, rfl⟩
  | cons f fs ih =>
    obtain ⟨u, o, ps', hstep, hrest, rfl⟩ := (host pageShift).runFrom_cons_eq_some.mp hrun
    obtain ⟨d', hmoves⟩ := hostStep_moves hs hstep
    obtain ⟨hret, hsame⟩ := hs.sound.moves_stalled hstalled.1 hstalled.2 hmoves.moves
    have hclient : u.client = s.client := by
      rw [hmoves.others, hsame, Function.update_eq_self]
    obtain ⟨hrets, hend⟩ := ih hmoves.fits (by rw [hclient]; exact hstalled) hrest
    refine ⟨List.forall_mem_cons.mpr ⟨?_, hrets⟩, hend.trans hclient⟩
    cases o with
    | none =>
      -- only a load that has found the number free does not return
      have hfree := (hmoves.returns rfl).1.free d
      rw [hstalled.1] at hfree
      cases hfree
    | some err => exact ⟨err, rfl, by simpa using hret⟩

/-- Once a load has failed behind its registration, no driver is loaded, and every later load of any of the five
returns an error. The number stays with the driver that is not there, and goes on leading to it if it did so before.
The load itself returns an error, or it is one of `nonMemory.c`, which does not return. -/
theorem failed_load_is_final {es fs : List (HostEvent pageShift)} {os ps : List (Option Int)} {u : Host}
    {e : HostEvent pageShift} (hrun : (host pageShift).run es = some (s, os)) (hfails : FailsAfterRegistering s e)
    (hstep : (host pageShift).step s e = some (t, o)) (hrest : (host pageShift).runFrom t fs = some (u, ps)) :
    ((∃ err, o = some err ∧ err ≠ 0) ∨ o = none ∧ ∃ env cdevAdd, e = .load .nonMemory env cdevAdd) ∧
      (∀ o ∈ ps, ∃ err, o = some err ∧ err ≠ 0) ∧ (∀ d, u.loadedOf d = false) ∧ u.client = t.client ∧
      ∃ d, (u.client d).held = true := by
  have hs := fits_invariant.run hrun
  have hrecoverable : Recoverable s.client := by
    intro d hd
    rw [hfails.free d] at hd
    cases hd
  obtain ⟨d, hmoves⟩ := hostStep_moves hs hstep
  have hd : Stalled (t.client d) := (hmoves.stalled hrecoverable).mpr hfails
  obtain ⟨hrets, hclient⟩ := stalled_runFrom hmoves.fits hd hrest
  refine ⟨?_, hrets, ?_, hclient, d, by rw [hclient]; exact hd.1⟩
  · cases o with
    | none => exact .inr ⟨rfl, (hmoves.returns rfl).2⟩
    | some err =>
      refine .inl ⟨err, rfl, ?_⟩
      rintro rfl
      have hup := hmoves.moves
      rw [decide_eq_true rfl] at hup
      generalize t.client d = v at hup hd
      cases hup with
      | comesUp => cases hd.2
      | goesDown => cases hd.1
  · intro d'
    by_contra hup
    have hup' : (t.client d').up = true := by
      rw [← hclient]
      exact Bool.not_eq_false _ ▸ hup
    obtain rfl := hmoves.fits.sound.one d d' hd.1 (hmoves.fits.sound.up d' hup')
    rw [hd.2] at hup'
    cases hup'

/-- The interrupt line is refused to the keyboard driver, and the character driver is not loaded any more. -/
theorem failed_load_is_final_irq :
    ∃ t u, (host 12).run [.load .kbd ⟨0, true, true, -16⟩ 0] = some (t, [some (-16)]) ∧
      (host 12).runFrom t [.load .so2Cdev (0 : Int) 0, .load .kbd ⟨0, true, true, 0⟩ 0] =
        some (u, [some (-16), some (-16)]) ∧
      u.loadedOf .so2Cdev = false := by
  refine ⟨_, _, rfl, rfl, ?_⟩
  have hfails : FailsAfterRegistering (host 12).init (.load .kbd ⟨0, true, true, -16⟩ 0 : HostEvent 12) := by
    refine ⟨?_, rfl, by simp [DriverId.Completes, KbdCompletes]⟩
    intro d
    cases d <;> rfl
  exact (@failed_load_is_final 12 (host 12).init _ _ [] [.load .so2Cdev (0 : Int) 0, .load .kbd ⟨0, true, true, 0⟩ 0]
    [] _ _ _ rfl hfails rfl rfl).2.2.1 .so2Cdev

/-- The number is only ever with a driver that is loaded exactly when no load finds it free and fails behind its
registration. -/
theorem number_recoverable_iff {es : List (HostEvent pageShift)} {os : List (Option Int)}
    (hrun : (host pageShift).run es = some (s, os)) :
    (host pageShift).Always (fun s => Recoverable s.client) es ↔
      (host pageShift).EveryStep (fun s e => ¬ FailsAfterRegistering s e) es := by
  refine Machine.always_iff_everyStep fits_invariant ?_ ?_ hrun
  · intro d hd
    cases d <;> cases hd
  · intro s t e o hs hrecoverable hstep
    obtain ⟨d, hmoves⟩ := hostStep_moves hs hstep
    rw [hmoves.others, recoverable_update_iff hrecoverable, hmoves.stalled hrecoverable]

/-- A load of `nonMemory.c` that is refused, and one that has no memory behind its registration and does not return. -/
def withoutMemory : List (HostEvent 12) := [.load .nonMemory ⟨-12, none⟩ 0] ++ [.load .nonMemory ⟨0, none⟩ 0]

theorem number_recoverable_iff_no_memory :
    ∃ s, (host 12).run withoutMemory = some (s, [some (-12), none]) ∧
      ¬ (host 12).Always (fun s => Recoverable s.client) withoutMemory := by
  refine ⟨_, rfl, ?_⟩
  intro h
  have hsteps := (number_recoverable_iff rfl).mp h
  refine hsteps [.load .nonMemory ⟨-12, none⟩ 0] (.load .nonMemory ⟨0, none⟩ 0) _ _ (List.prefix_refl _) rfl
    ⟨?_, rfl, by simp [DriverId.Completes]⟩
  intro d
  cases d <;> rfl

end DeviceDrivers.Chrdev
