import DeviceDrivers.Tcp.Load
import DeviceDrivers.Udp.Load

/-!
# The sockets of both modules on one host

Loads and unloads of the TCP and the UDP module in any order. The kernel gives the address of the TCP module,
`127.0.0.1:60000`, to one open socket at a time: while some socket has it, `bind` fails.

A load of the TCP module that fails behind `listen` keeps its listening socket, and with it the address. No later load
gets past `bind`, so the module is never loaded again, and this one socket is all that is ever lost. The UDP module
loses none, and each of its loads that succeeds has sent its datagram (`sockets_of_host`).
-/

namespace DeviceDrivers.Net

open Tcp (SocketPtr Sockets FailsAfterListen tcpmodInit tcpmodExit)

/-- Both modules, and the open socket of the TCP module that has the address. -/
structure Host where
  tcp : Loading Sockets
  port : SocketPtr
  udp : Loading Udp.Module

inductive NetEvent
  | tcp (e : LoadEvent Tcp.InitEnv)
  | udp (e : LoadEvent Udp.InitEnv)

/-- The load gets the address. -/
def Binds (env : Tcp.InitEnv) : Prop := 0 ≤ env.createKern ∧ 0 ≤ env.bind

instance (env : Tcp.InitEnv) : Decidable (Binds env) := inferInstanceAs (Decidable (_ ∧ _))

/-- The kernel gives the address only when it is free. -/
def Host.permits (h : Host) : LoadEvent Tcp.InitEnv → Bool
  | .init env => !Binds env || h.port.isNone
  | .exit => true

/-- The socket that has the address after a step; a socket that is closed loses it. -/
def Host.portAfter (h : Host) (e : LoadEvent Tcp.InitEnv) (t : Loading Sockets) : SocketPtr :=
  let p := match e with
    | .init env => if Binds env then some h.tcp.state.created else h.port
    | .exit => h.port
  if p ∈ t.state.opened.held then p else none

def netStep (h : Host) : NetEvent → Option (Host × Int)
  | .tcp e => if h.permits e then (Tcp.tcp.step h.tcp e).map fun r => (⟨r.1, h.portAfter e r.1, h.udp⟩, r.2) else none
  | .udp e => (Udp.udp.step h.udp e).map fun r => ({ h with udp := r.1 }, r.2)

def net : Machine Host NetEvent Int := ⟨⟨Tcp.tcp.init, none, Udp.udp.init⟩, netStep⟩

/-- The load keeps its listening socket. -/
def NetEvent.Loses : NetEvent → Prop
  | .tcp (.init env) => FailsAfterListen env
  | _ => False

/-- The datagrams of a load. -/
def NetEvent.sends : NetEvent → List Udp.Datagram
  | .udp (.init env) => if Udp.Sends env then [Udp.hello] else []
  | _ => []

def NetEvent.prints : NetEvent → List String
  | .udp (.init env) => [Udp.line env]
  | _ => []

/-! ### The TCP module -/

/-- The module has the address and its two sockets while it is loaded, and nothing otherwise. -/
structure Kept (h : Host) : Prop where
  inOrder : Loading.InOrder Tcp.Loaded Tcp.Unloaded h.tcp
  port : h.port = if h.tcp.loaded then h.tcp.state.sock else none

/-- The module is not loaded, and a socket that it cannot reach has the address. -/
structure Lost (h : Host) : Prop where
  unloaded : h.tcp.loaded = false
  socket : ∃ p, h.tcp.state.opened.held = [some p] ∧ h.port = some p ∧ p < h.tcp.state.created

theorem tcpmodInit_late_held {env : Tcp.InitEnv} {s : Sockets} (hs : s.opened = .empty) (hnew : s.newSock = none)
    (h : FailsAfterListen env) : (tcpmodInit env s).1 ≠ 0 ∧ (tcpmodInit env s).2.opened.held = [some s.created] ∧
      s.created < (tcpmodInit env s).2.created := by
  obtain ⟨hkern, hbind, hlisten, hlate⟩ := h
  have hnull : s.sockCreateKern.releaseNewSock.opened.held = [some s.created] := by
    rw [Tcp.sockCreateKern_of_nil hs, hnew]
    simp [Sockets.releaseNewSock, Sockets.sockRelease, Held.release]
  have hmade : s.sockCreateKern.sockCreateLite.releaseNewSock.opened.held = [some s.created] := by
    rw [Tcp.sockCreateKern_of_nil hs]
    simp [Sockets.releaseNewSock, Sockets.sockRelease, Sockets.sockCreateLite, Held.release, Held.acquire]
  unfold tcpmodInit
  dsimp only
  rw [if_neg (by omega), if_neg (by omega), if_neg (by omega)]
  split_ifs with hlite haccept hgetname
  · exact ⟨by omega, hnull, Nat.lt_succ_self _⟩
  · exact ⟨by omega, hmade, Nat.lt_add_of_pos_right (by decide : 0 < 2)⟩
  · exact ⟨by omega, hmade, Nat.lt_add_of_pos_right (by decide : 0 < 2)⟩
  · omega

theorem tcpmodInit_refused {env : Tcp.InitEnv} {s : Sockets} (hrefused : ¬ Binds env) {p : Nat}
    (hheld : s.opened.held = [some p]) (hp : p < s.created) : (tcpmodInit env s).1 ≠ 0 ∧
      (tcpmodInit env s).2.opened.held = [some p] ∧ p < (tcpmodInit env s).2.created := by
  unfold tcpmodInit
  dsimp only
  by_cases hkern : env.createKern < 0
  · rw [if_pos hkern]
    exact ⟨by dsimp only; omega, hheld, hp⟩
  · have hbind : env.bind < 0 := by
      unfold Binds at hrefused
      omega
    rw [if_neg hkern, if_pos hbind]
    refine ⟨by dsimp only; omega, ?_, Nat.lt_succ_of_lt hp⟩
    have hother : some p ≠ some s.created := by
      intro heq
      have := Option.some.inj heq
      omega
    simp [Sockets.releaseSock, Sockets.sockRelease, Sockets.sockCreateKern, Held.release, Held.acquire, hheld,
      List.erase_cons_tail, hother]

section Step

variable {h t : Host} {o : Int}

theorem Kept.opened (hh : Kept h) (hunloaded : h.tcp.loaded = false) : h.tcp.state.opened = .empty := by
  have hin := hh.inOrder
  unfold Loading.InOrder at hin
  rw [hunloaded] at hin
  exact hin

theorem portAfter_init (hfree : h.port = none) (env : Tcp.InitEnv) (tcp : Loading Sockets) :
    h.portAfter (.init env) tcp =
      if Binds env ∧ some h.tcp.state.created ∈ tcp.state.opened.held then some h.tcp.state.created else none := by
  unfold Host.portAfter
  dsimp only
  by_cases hbinds : Binds env
  · simp [hbinds]
  · simp [hbinds, hfree]

theorem Kept.tcp_init (hh : Kept h) (hunloaded : h.tcp.loaded = false) (env : Tcp.InitEnv) :
    let tcp := Loading.afterInit tcpmodInit env h.tcp.state.fresh
    (FailsAfterListen env ∧ Lost ⟨tcp, h.portAfter (.init env) tcp, h.udp⟩) ∨
      (¬ FailsAfterListen env ∧ Kept ⟨tcp, h.portAfter (.init env) tcp, h.udp⟩) := by
  intro tcp
  have hempty : h.tcp.state.fresh.opened = .empty := hh.opened hunloaded
  have hfree : h.port = none := by
    rw [hh.port, hunloaded]
    rfl
  by_cases hlate : FailsAfterListen env
  · left
    obtain ⟨hret, hheld, hcreated⟩ := tcpmodInit_late_held hempty rfl hlate
    refine ⟨hlate, decide_eq_false hret, h.tcp.state.created, hheld, ?_, hcreated⟩
    have hmem : some h.tcp.state.created ∈ tcp.state.opened.held := by
      show _ ∈ (tcpmodInit env h.tcp.state.fresh).2.opened.held
      rw [hheld]
      exact List.mem_singleton.mpr rfl
    show h.portAfter (.init env) tcp = _
    rw [portAfter_init hfree]
    exact if_pos ⟨⟨hlate.1, hlate.2.1⟩, hmem⟩
  · right
    refine ⟨hlate, (Tcp.inOrder_tcpmodInit env h.tcp.state (hh.opened hunloaded)).mpr hlate, ?_⟩
    show h.portAfter (.init env) tcp = _
    rw [portAfter_init hfree]
    by_cases hearly : env.createKern < 0 ∨ env.bind < 0 ∨ env.listen < 0
    · obtain ⟨hret, hopened⟩ := Tcp.tcpmodInit_early hempty hearly
      have hloaded : tcp.loaded = false := decide_eq_false hret
      have hheld : tcp.state.opened = .empty := hopened
      rw [hloaded, hheld, if_neg (by simp [Held.empty])]
      rfl
    · have hload := Tcp.tcpmodInit_loads hempty hearly hlate
      have hbinds : Binds env := by
        unfold Binds
        omega
      have htcp : tcp = ⟨⟨some h.tcp.state.created, some (h.tcp.state.created + 1),
          ⟨[some h.tcp.state.created, some (h.tcp.state.created + 1)], []⟩, h.tcp.state.created + 2⟩, true⟩ := by
        show Loading.afterInit tcpmodInit env h.tcp.state.fresh = _
        unfold Loading.afterInit
        rw [hload]
        rfl
      rw [htcp, if_pos ⟨hbinds, by simp⟩]
      rfl

theorem Lost.tcp_init (hh : Lost h) {env : Tcp.InitEnv} (hrefused : ¬ Binds env) :
    Lost ⟨Loading.afterInit tcpmodInit env h.tcp.state.fresh,
      h.portAfter (.init env) (Loading.afterInit tcpmodInit env h.tcp.state.fresh), h.udp⟩ := by
  obtain ⟨p, hheld, hport, hp⟩ := hh.socket
  obtain ⟨hret, hheld', hp'⟩ := @tcpmodInit_refused env h.tcp.state.fresh hrefused p hheld hp
  refine ⟨decide_eq_false hret, p, hheld', ?_, hp'⟩
  unfold Host.portAfter
  dsimp only
  rw [if_neg hrefused, hport]
  refine if_pos ?_
  show some p ∈ (tcpmodInit env h.tcp.state.fresh).2.opened.held
  rw [hheld']
  exact List.mem_singleton.mpr rfl

theorem Kept.tcp_exit (hh : Kept h) (hloaded : h.tcp.loaded = true) :
    Kept ⟨⟨tcpmodExit h.tcp.state, false⟩, h.portAfter .exit ⟨tcpmodExit h.tcp.state, false⟩, h.udp⟩ := by
  have hin := hh.inOrder
  unfold Loading.InOrder at hin
  rw [hloaded] at hin
  have hunloaded : Tcp.Unloaded (tcpmodExit h.tcp.state) := Tcp.Loaded.exit hin
  refine ⟨hunloaded, ?_⟩
  show h.portAfter .exit _ = none
  unfold Host.portAfter
  dsimp only
  rw [show (tcpmodExit h.tcp.state).opened = .empty from hunloaded]
  exact if_neg (by simp [Held.empty])

theorem netStep_tcp {e : LoadEvent Tcp.InitEnv} (hstep : netStep h (.tcp e) = some (t, o)) :
    (∃ env, e = .init env ∧ h.tcp.loaded = false ∧ (Binds env → h.port = none) ∧
      t = ⟨Loading.afterInit tcpmodInit env h.tcp.state.fresh,
        h.portAfter (.init env) (Loading.afterInit tcpmodInit env h.tcp.state.fresh), h.udp⟩) ∨
    (e = .exit ∧ h.tcp.loaded = true ∧
      t = ⟨⟨tcpmodExit h.tcp.state, false⟩, h.portAfter .exit ⟨tcpmodExit h.tcp.state, false⟩, h.udp⟩) := by
  simp only [netStep] at hstep
  split_ifs at hstep with hpermits
  obtain ⟨⟨tcp, out⟩, hload, heq⟩ := Option.map_eq_some_iff.mp hstep
  obtain ⟨rfl, -⟩ := Prod.mk.inj heq
  cases e with
  | init env =>
    left
    replace hload : (if h.tcp.loaded then none else some (Loading.afterInit tcpmodInit env h.tcp.state.fresh,
      (tcpmodInit env h.tcp.state.fresh).1)) = some (tcp, out) := hload
    split_ifs at hload with hloaded
    obtain ⟨rfl, -⟩ := Prod.mk.inj (Option.some.inj hload)
    refine ⟨env, rfl, by simpa using hloaded, ?_, rfl⟩
    intro hbinds
    simpa [Host.permits, hbinds] using hpermits
  | exit =>
    right
    replace hload : (if h.tcp.loaded then some ((⟨tcpmodExit h.tcp.state, false⟩ : Loading Sockets), (0 : Int))
      else none) = some (tcp, out) := hload
    split_ifs at hload with hloaded
    obtain ⟨rfl, -⟩ := Prod.mk.inj (Option.some.inj hload)
    exact ⟨rfl, hloaded, rfl⟩

theorem Kept.step (hh : Kept h) {e : NetEvent} (hstep : netStep h e = some (t, o)) :
    (e.Loses ∧ Lost t) ∨ (¬ e.Loses ∧ Kept t) := by
  cases e with
  | tcp e =>
    rcases netStep_tcp hstep with ⟨env, rfl, hunloaded, -, rfl⟩ | ⟨rfl, hloaded, rfl⟩
    · exact hh.tcp_init hunloaded env
    · right
      exact ⟨id, hh.tcp_exit hloaded⟩
  | udp e =>
    right
    obtain ⟨⟨udp, out⟩, -, heq⟩ := Option.map_eq_some_iff.mp hstep
    obtain ⟨rfl, -⟩ := Prod.mk.inj heq
    exact ⟨id, hh.inOrder, hh.port⟩

theorem Lost.step (hh : Lost h) {e : NetEvent} (hstep : netStep h e = some (t, o)) : Lost t := by
  obtain ⟨p, -, hport, -⟩ := hh.socket
  cases e with
  | tcp e =>
    rcases netStep_tcp hstep with ⟨env, rfl, -, hfree, rfl⟩ | ⟨rfl, hloaded, rfl⟩
    · apply hh.tcp_init
      intro hbinds
      rw [hfree hbinds] at hport
      cases hport
    · rw [hh.unloaded] at hloaded
      cases hloaded
  | udp e =>
    obtain ⟨⟨udp, out⟩, -, heq⟩ := Option.map_eq_some_iff.mp hstep
    obtain ⟨rfl, -⟩ := Prod.mk.inj heq
    exact ⟨hh.unloaded, hh.socket⟩

/-! ### The UDP module -/

theorem udp_step {h t : Host} {e : NetEvent} {o : Int} (hstep : netStep h e = some (t, o))
    (hh : Loading.InOrder Udp.Loaded Udp.Unloaded h.udp) :
    Loading.InOrder Udp.Loaded Udp.Unloaded t.udp ∧ t.udp.state.sent = h.udp.state.sent ++ e.sends ∧
      t.udp.state.log = h.udp.state.log ++ e.prints := by
  cases e with
  | tcp e =>
    rcases netStep_tcp hstep with ⟨env, rfl, -, -, rfl⟩ | ⟨rfl, -, rfl⟩
    · exact ⟨hh, (List.append_nil _).symm, (List.append_nil _).symm⟩
    · exact ⟨hh, (List.append_nil _).symm, (List.append_nil _).symm⟩
  | udp e =>
    obtain ⟨⟨udp, out⟩, hload, heq⟩ := Option.map_eq_some_iff.mp hstep
    obtain ⟨rfl, -⟩ := Prod.mk.inj heq
    have hin := (@Loading.inOrder_step _ _ _ _ _ Udp.Loaded Udp.Unloaded (fun _ => True)
      (fun env s hs => iff_of_true (Udp.inOrder_udpmodInit env s hs) trivial) (fun _ => Udp.Loaded.exit) _ _ _ _
      hh hload).mpr fun _ _ => trivial
    refine ⟨hin, ?_⟩
    cases e with
    | init env =>
      replace hload : (if h.udp.loaded then none else some (Loading.afterInit Udp.udpmodInit env h.udp.state.fresh,
        (Udp.udpmodInit env h.udp.state.fresh).1)) = some (udp, out) := hload
      split_ifs at hload
      obtain ⟨rfl, -⟩ := Prod.mk.inj (Option.some.inj hload)
      exact Udp.udpmodInit_effects env h.udp.state.fresh
    | exit =>
      replace hload : (if h.udp.loaded then some ((⟨Udp.udpmodExit h.udp.state, false⟩ : Loading Udp.Module), (0 : Int))
        else none) = some (udp, out) := hload
      split_ifs at hload
      obtain ⟨rfl, -⟩ := Prod.mk.inj (Option.some.inj hload)
      obtain ⟨hsent, hlog⟩ := Udp.udpmodExit_effects h.udp.state
      exact ⟨hsent.trans (List.append_nil _).symm, hlog.trans (List.append_nil _).symm⟩

end Step

/-! ### Runs -/

theorem run_tcp {es : List NetEvent} {s : Host} {os : List Int} (hrun : net.run es = some (s, os)) :
    ((∃ e ∈ es, e.Loses) ∧ Lost s) ∨ ((∀ e ∈ es, ¬ e.Loses) ∧ Kept s) := by
  induction es using List.reverseRecOn generalizing s os with
  | nil =>
    right
    obtain ⟨rfl, -⟩ := Prod.mk.inj (Option.some.inj hrun)
    exact ⟨fun e he => (List.not_mem_nil he).elim, rfl, rfl⟩
  | append_singleton es e ih =>
    obtain ⟨u, os', o, hpre, hstep, -⟩ := Machine.run_concat_eq_some _ |>.mp hrun
    rcases ih hpre with ⟨⟨e', he', hloses⟩, hu⟩ | ⟨hes, hu⟩
    · left
      exact ⟨⟨e', List.mem_append_left _ he', hloses⟩, hu.step hstep⟩
    · rcases hu.step hstep with ⟨hloses, hs⟩ | ⟨hkept, hs⟩
      · left
        exact ⟨⟨e, List.mem_append_right _ (List.mem_singleton.mpr rfl), hloses⟩, hs⟩
      · right
        refine ⟨?_, hs⟩
        rw [List.forall_mem_append, List.forall_mem_singleton]
        exact ⟨hes, hkept⟩

theorem run_udp {es : List NetEvent} {s : Host} {os : List Int} (hrun : net.run es = some (s, os)) :
    Loading.InOrder Udp.Loaded Udp.Unloaded s.udp ∧ s.udp.state.sent = es.flatMap NetEvent.sends ∧
      s.udp.state.log = es.flatMap NetEvent.prints := by
  induction es using List.reverseRecOn generalizing s os with
  | nil =>
    obtain ⟨rfl, -⟩ := Prod.mk.inj (Option.some.inj hrun)
    exact ⟨rfl, rfl, rfl⟩
  | append_singleton es e ih =>
    obtain ⟨u, os', o, hpre, hstep, -⟩ := Machine.run_concat_eq_some _ |>.mp hrun
    obtain ⟨hu, hsent, hlog⟩ := ih hpre
    obtain ⟨hs, hsent', hlog'⟩ := udp_step hstep hu
    rw [List.flatMap_append, List.flatMap_singleton, List.flatMap_append, List.flatMap_singleton, ← hsent, ← hlog]
    exact ⟨hs, hsent', hlog'⟩

/-- In every run of loads and unloads of the two modules: once a load of the TCP module has failed behind `listen`, the
module is never loaded again, and one listening socket is open for good and has the address. Without such a load the
TCP module has the address and its two sockets exactly while it is loaded. The UDP module always has its one socket
exactly while it is loaded, has sent one datagram for each load that succeeded, and has printed one line a load. -/
theorem sockets_of_host {es : List NetEvent} {s : Host} {os : List Int} (hrun : net.run es = some (s, os)) :
    ((∃ e ∈ es, e.Loses) → Lost s) ∧ ((∀ e ∈ es, ¬ e.Loses) → Kept s) ∧
      Loading.InOrder Udp.Loaded Udp.Unloaded s.udp ∧ s.udp.state.sent = es.flatMap NetEvent.sends ∧
      s.udp.state.log = es.flatMap NetEvent.prints := by
  refine ⟨?_, ?_, run_udp hrun⟩
  · rintro ⟨e, he, hloses⟩
    rcases run_tcp hrun with ⟨-, hs⟩ | ⟨hkept, -⟩
    · exact hs
    · exact (hkept e he hloses).elim
  · intro hkept
    rcases run_tcp hrun with ⟨⟨e, he, hloses⟩, -⟩ | ⟨-, hs⟩
    · exact (hkept e he hloses).elim
    · exact hs

/-- The TCP module waits in vain for a connection, and is told on its next load that the address is in use. -/
def loseAddress : List NetEvent :=
  [.udp (.init ⟨0, 31⟩), .tcp (.init ⟨0, 0, 0, 0, -11, 0⟩), .udp .exit, .tcp (.init ⟨0, -98, 0, 0, 0, 0⟩)]

theorem sockets_of_host_loseAddress :
    ∃ s os, net.run loseAddress = some (s, os) ∧ os = [0, -11, 0, -98] ∧ Lost s ∧ s.udp.state.opened = .empty := by
  have hends : (net.run loseAddress).map (fun r => (r.2, r.1.udp.loaded)) = some ([0, -11, 0, -98], false) := by
    decide +kernel
  obtain ⟨⟨s, os⟩, hrun, heq⟩ := Option.map_eq_some_iff.mp hends
  obtain ⟨hos, hunloaded⟩ := Prod.mk.inj heq
  obtain ⟨hlost, -, hudp, -⟩ := sockets_of_host hrun
  refine ⟨s, os, hrun, hos, hlost ⟨.tcp (.init ⟨0, 0, 0, 0, -11, 0⟩), by simp [loseAddress], ?_⟩, ?_⟩
  · exact ⟨by decide, by decide, by decide, .inr (.inl (by decide))⟩
  · unfold Loading.InOrder at hudp
    rw [show s.udp.loaded = false from hunloaded] at hudp
    exact hudp

end DeviceDrivers.Net
