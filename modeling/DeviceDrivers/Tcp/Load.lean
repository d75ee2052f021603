import DeviceDrivers.Lib.Held
import DeviceDrivers.Lib.Loading

/-!
# The sockets of the TCP module

`tcpmod_init` and `tcpmod_exit` of `KernelModules/tcp-mod/kernel/tcpmod.c`. The module makes a listening
socket, accepts one connection on a second socket, and keeps both until it is unloaded.

The label `NEW_SOCKET_FAILED` releases the second socket and leaves the first one open. So the module gives
back what it made, and only that, exactly when no load gets past `listen` and then fails
(`sockets_iff`).
-/

namespace DeviceDrivers.Tcp

/-- A `struct socket *`: `NULL`, or the number of a socket that was made. -/
abbrev SocketPtr : Type := Option Nat

/-- The two static pointers of the module, the sockets it has open, and how many it has made. -/
structure Sockets where
  sock : SocketPtr
  newSock : SocketPtr
  opened : Held SocketPtr
  created : Nat

/-- The results of the calls of `tcpmod_init`; one below zero is a failure. -/
structure InitEnv where
  createKern : Int
  bind : Int
  listen : Int
  createLite : Int
  accept : Int
  getname : Int

namespace Sockets

variable (s : Sockets)

/-- The module's static data when it is loaded. -/
def fresh : Sockets := { s with sock := none, newSock := none }

/-- A successful `sock_create_kern` into `sock`. -/
def sockCreateKern : Sockets :=
  { s with sock := some s.created, opened := s.opened.acquire (some s.created), created := s.created + 1 }

/-- A successful `sock_create_lite` into `new_sock`. -/
def sockCreateLite : Sockets :=
  { s with newSock := some s.created, opened := s.opened.acquire (some s.created), created := s.created + 1 }

def sockRelease (p : SocketPtr) : Sockets := { s with opened := s.opened.release p }

/-- `sock_release(sock); sock = NULL;`, at the label `socket_failed` and in `tcpmod_exit`. -/
def releaseSock : Sockets := { s.sockRelease s.sock with sock := none }

/-- The same for `new_sock`, at the label `NEW_SOCKET_FAILED` and in `tcpmod_exit`. -/
def releaseNewSock : Sockets := { s.sockRelease s.newSock with newSock := none }

end Sockets

/-- `tcpmod_init`. A failed `sock_create_lite` leaves `new_sock` as it is. -/
def tcpmodInit (env : InitEnv) (s : Sockets) : Int × Sockets :=
  if env.createKern < 0 then (env.createKern, s)
  else
    let s := s.sockCreateKern
    if env.bind < 0 then (env.bind, s.releaseSock)
    else if env.listen < 0 then (env.listen, s.releaseSock)
    else if env.createLite < 0 then (env.createLite, s.releaseNewSock)
    else
      let s := s.sockCreateLite
      if env.accept < 0 then (env.accept, s.releaseNewSock)
      else if env.getname < 0 then (env.getname, s.releaseNewSock)
      else (0, s)

/-- `tcpmod_exit` -/
def tcpmodExit (s : Sockets) : Sockets :=
  let s := if s.sock.isSome then s.releaseSock else s
  if s.newSock.isSome then s.releaseNewSock else s

/-! ### Loading and unloading -/

def tcp : Machine (Loading Sockets) (LoadEvent InitEnv) Int :=
  Loading.machine Sockets.fresh tcpmodInit tcpmodExit ⟨none, none, .empty, 0⟩

/-- Only open sockets were released, and the open ones are the two that the pointers hold. -/
structure Loaded (s : Sockets) : Prop where
  sock : s.sock ≠ none
  newSock : s.newSock ≠ none
  distinct : s.sock ≠ s.newSock
  opened : s.opened.held.Perm [s.sock, s.newSock]
  stray : s.opened.stray = []

/-- Only open sockets were released, and none is open. -/
def Unloaded (s : Sockets) : Prop := s.opened = .empty

/-- The load gets past `listen` and then fails. -/
def FailsAfterListen (env : InitEnv) : Prop :=
  0 ≤ env.createKern ∧ 0 ≤ env.bind ∧ 0 ≤ env.listen ∧
    (env.createLite < 0 ∨ env.accept < 0 ∨ env.getname < 0)

/-! ### The ways of `tcpmod_init` -/

theorem sockCreateKern_of_nil {s : Sockets} (hs : s.opened = .empty) :
    s.sockCreateKern = ⟨some s.created, s.newSock, ⟨[some s.created], []⟩, s.created + 1⟩ := by
  unfold Sockets.sockCreateKern
  rw [hs]
  rfl

theorem releaseSock_of_kern {s : Sockets} (hs : s.opened = .empty) :
    s.sockCreateKern.releaseSock.opened = .empty := by
  rw [sockCreateKern_of_nil hs]
  show Held.release ⟨[some s.created], []⟩ (some s.created) = .empty
  rw [Held.release_of_mem (by simp)]
  simp [Held.empty]

theorem releaseNewSock_of_kern {s : Sockets} (hs : s.opened = .empty) (hnew : s.newSock = none) :
    some s.created ∈ s.sockCreateKern.releaseNewSock.opened.held ∧
      some s.created ∈ s.sockCreateKern.sockCreateLite.releaseNewSock.opened.held := by
  rw [sockCreateKern_of_nil hs, hnew]
  constructor
  · simp [Sockets.releaseNewSock, Sockets.sockRelease, Held.release]
  · simp [Sockets.releaseNewSock, Sockets.sockRelease, Sockets.sockCreateLite, Held.release, Held.acquire]

theorem tcpmodInit_early {env : InitEnv} {s : Sockets} (hs : s.opened = .empty)
    (h : env.createKern < 0 ∨ env.bind < 0 ∨ env.listen < 0) :
    (tcpmodInit env s).1 ≠ 0 ∧ (tcpmodInit env s).2.opened = .empty := by
  unfold tcpmodInit
  dsimp only
  split_ifs with hkern hbind hlisten
  · exact ⟨by omega, hs⟩
  · exact ⟨by omega, releaseSock_of_kern hs⟩
  · exact ⟨by omega, releaseSock_of_kern hs⟩
  all_goals omega

theorem tcpmodInit_late {env : InitEnv} {s : Sockets} (hs : s.opened = .empty) (hnew : s.newSock = none)
    (h : FailsAfterListen env) :
    (tcpmodInit env s).1 ≠ 0 ∧ some s.created ∈ (tcpmodInit env s).2.opened.held := by
  obtain ⟨hkern, hbind, hlisten, hlate⟩ := h
  obtain ⟨hnull, hmade⟩ := releaseNewSock_of_kern hs hnew
  unfold tcpmodInit
  dsimp only
  rw [if_neg (by omega), if_neg (by omega), if_neg (by omega)]
  split_ifs with hlite haccept hgetname
  · exact ⟨by omega, hnull⟩
  · exact ⟨by omega, hmade⟩
  · exact ⟨by omega, hmade⟩
  · omega

theorem tcpmodInit_loads {env : InitEnv} {s : Sockets} (hs : s.opened = .empty)
    (hearly : ¬ (env.createKern < 0 ∨ env.bind < 0 ∨ env.listen < 0)) (hlate : ¬ FailsAfterListen env) :
    tcpmodInit env s = (0, ⟨some s.created, some (s.created + 1),
      ⟨[some s.created, some (s.created + 1)], []⟩, s.created + 2⟩) := by
  unfold FailsAfterListen at hlate
  unfold tcpmodInit
  dsimp only
  rw [if_neg (by omega), if_neg (by omega), if_neg (by omega), if_neg (by omega), if_neg (by omega),
    if_neg (by omega), sockCreateKern_of_nil hs]
  rfl

theorem inOrder_tcpmodInit (env : InitEnv) (s : Sockets) (hs : Unloaded s) :
    Loading.InOrder Loaded Unloaded (Loading.afterInit tcpmodInit env s.fresh) ↔
      ¬ FailsAfterListen env := by
  have hfresh : s.fresh.opened = .empty := hs
  by_cases hearly : env.createKern < 0 ∨ env.bind < 0 ∨ env.listen < 0
  · obtain ⟨hret, hopened⟩ := tcpmodInit_early hfresh hearly
    rw [Loading.inOrder_of_ne_zero hret]
    refine iff_of_true hopened ?_
    rintro ⟨hkern, hbind, hlisten, -⟩
    omega
  · by_cases hlate : FailsAfterListen env
    · obtain ⟨hret, hleak⟩ := tcpmodInit_late hfresh rfl hlate
      rw [Loading.inOrder_of_ne_zero hret]
      refine iff_of_false ?_ (not_not.mpr hlate)
      intro hopened
      rw [hopened] at hleak
      simp [Held.empty] at hleak
    · have hload := tcpmodInit_loads hfresh hearly hlate
      rw [Loading.inOrder_of_eq_zero (congrArg Prod.fst hload), hload]
      exact iff_of_true ⟨by simp, by simp, by simp, List.Perm.refl _, rfl⟩ hlate

theorem Loaded.exit {s : Sockets} (hs : Loaded s) : Unloaded (tcpmodExit s) := by
  have hexit : (tcpmodExit s).opened = s.opened.releaseAll [s.sock, s.newSock] := by
    unfold tcpmodExit
    rw [if_pos (Option.isSome_iff_ne_none.mpr hs.sock)]
    exact congrArg Sockets.opened (if_pos (Option.isSome_iff_ne_none.mpr hs.newSock))
  unfold Unloaded
  rw [hexit, Held.releaseAll_of_perm hs.opened.symm, hs.stray]
  rfl

/-- Along a run the module releases only sockets that are open, has its two sockets open while it is loaded
and none otherwise, exactly when no load gets past `listen` and then fails. -/
theorem sockets_iff {es : List (LoadEvent InitEnv)} {s : Loading Sockets} {os : List Int}
    (hrun : tcp.run es = some (s, os)) :
    tcp.Always (Loading.InOrder Loaded Unloaded) es ↔ ∀ env, .init env ∈ es → ¬ FailsAfterListen env := by
  have hfirst : Unloaded ⟨none, none, .empty, 0⟩ := rfl
  exact Loading.always_inOrder_iff hfirst inOrder_tcpmodInit (fun _ => Loaded.exit) hrun

/-- No connection comes in, and `accept` fails. -/
def acceptFails : InitEnv := ⟨0, 0, 0, 0, -11, 0⟩

/-- The listening socket is then still open, though the module is not loaded. -/
theorem listening_socket_leaks : ¬ tcp.Always (Loading.InOrder Loaded Unloaded) [.init acceptFails] := by
  intro h
  have hunloaded : Unloaded (tcpmodInit acceptFails tcp.init.state.fresh).2 := h.last rfl
  exact absurd (congrArg Held.held hunloaded) (by decide)

/-- The port is taken, and on the next load all goes well. -/
theorem sockets_iff_second_load :
    tcp.Always (Loading.InOrder Loaded Unloaded) [.init ⟨0, -98, 0, 0, 0, 0⟩, .init ⟨0, 0, 0, 0, 0, 16⟩, .exit] := by
  apply (sockets_iff rfl).mpr
  intro env henv
  simp only [List.mem_cons, LoadEvent.init.injEq, List.not_mem_nil, or_false, reduceCtorEq] at henv
  rcases henv with rfl | rfl
  · simp [FailsAfterListen]
  · simp [FailsAfterListen]

end DeviceDrivers.Tcp
