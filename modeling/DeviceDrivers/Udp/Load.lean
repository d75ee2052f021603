import DeviceDrivers.Lib.Held
import DeviceDrivers.Lib.Inet
import DeviceDrivers.Lib.Loading

/-!
# The socket of the UDP module

`udpmod_init` and `udpmod_exit` of `KernelModules/udp-mod/kernel/udpmod.c`: a load makes a socket and sends one datagram
to the loopback address, and the socket stays open until the module is unloaded. Unlike the TCP module this one gives
back what it made in every run (`Loading.InOrder` always holds).

`print` of `print.h` takes a level behind the message. The call for a failed `sock_create_kern` passes the error there.
-/

namespace DeviceDrivers.Udp

/-- What `kernel_sendmsg` is given: `msg_name` and the bytes of the one `kvec`. -/
structure Datagram where
  addr : Inet.Address
  port : Nat
  data : String

def PORT : Nat := 60001

def MESSAGE : String := "Hello from kernel space world!\n"

/-- To `INADDR_LOOPBACK`. -/
def hello : Datagram := ⟨#v[127, 0, 0, 1], PORT, MESSAGE⟩

/-- `enum LOG_LEVEL` -/
def DEBUG : Int := 0
def ERROR : Int := 1

/-- The line of `print`. -/
def print (msg : String) (level : Int) : String :=
  if level = DEBUG then "[LOG]:" ++ msg ++ "\n"
  else if level = ERROR then "[ERROR]:" ++ msg ++ "\n"
  else "[???]: unknown log level\n"

/-- The static pointer of the module, the sockets it has open, how many it has made, what it has sent and printed. -/
structure Module where
  sock : Option Nat
  opened : Held (Option Nat)
  created : Nat
  sent : List Datagram
  log : List String

/-- The results of the calls of `udpmod_init`; one below zero is a failure. -/
structure InitEnv where
  createKern : Int
  sendmsg : Int

namespace Module

variable (s : Module)

def fresh : Module := { s with sock := none }

def println (line : String) : Module := { s with log := s.log ++ [line] }

/-- A successful `sock_create_kern`. -/
def sockCreateKern : Module :=
  { s with sock := some s.created, opened := s.opened.acquire (some s.created), created := s.created + 1 }

/-- `sock_release(sock); sock = NULL;` -/
def releaseSock : Module := { s with opened := s.opened.release s.sock, sock := none }

/-- A successful `kernel_sendmsg`. -/
def kernelSendmsg : Module := { s with sent := s.sent ++ [hello] }

end Module

/-- `udpmod_init` -/
def udpmodInit (env : InitEnv) (s : Module) : Int × Module :=
  if env.createKern < 0 then
    (env.createKern, s.println (print "[UDP SOCKET] sock_create_kern failed: %d\n" env.createKern))
  else
    let s := s.sockCreateKern
    if env.sendmsg < 0 then
      (env.sendmsg, (s.println (print "[UDP SOCKET] kernel_sendmsg failed\n" ERROR)).releaseSock)
    else
      (0, s.kernelSendmsg.println ("[UDP SOCKET] send " ++ toString env.sendmsg ++ " bytes to 127.0.0.1:60001\n"))

/-- `udpmod_exit` -/
def udpmodExit (s : Module) : Module := if s.sock.isSome then s.releaseSock else s

def udp : Machine (Loading Module) (LoadEvent InitEnv) Int :=
  Loading.machine Module.fresh udpmodInit udpmodExit ⟨none, .empty, 0, [], []⟩

/-! ### What a load leaves -/

/-- The one socket that is open is the one the pointer holds. -/
def Loaded (s : Module) : Prop := s.sock ≠ none ∧ s.opened = ⟨[s.sock], []⟩

def Unloaded (s : Module) : Prop := s.opened = .empty

def Sends (env : InitEnv) : Prop := 0 ≤ env.createKern ∧ 0 ≤ env.sendmsg

instance (env : InitEnv) : Decidable (Sends env) := inferInstanceAs (Decidable (_ ∧ _))

/-- What a load prints: a failed `sock_create_kern` is not told. -/
def line (env : InitEnv) : String :=
  if env.createKern < 0 then "[???]: unknown log level\n"
  else if env.sendmsg < 0 then "[ERROR]:[UDP SOCKET] kernel_sendmsg failed\n\n"
  else "[UDP SOCKET] send " ++ toString env.sendmsg ++ " bytes to 127.0.0.1:60001\n"

theorem sockCreateKern_opened {s : Module} (hs : Unloaded s) : s.sockCreateKern.opened = ⟨[some s.created], []⟩ := by
  unfold Module.sockCreateKern
  rw [show s.opened = .empty from hs]
  rfl

theorem inOrder_udpmodInit (env : InitEnv) (s : Module) (hs : Unloaded s) :
    Loading.InOrder Loaded Unloaded (Loading.afterInit udpmodInit env s.fresh) := by
  have hfresh : Unloaded s.fresh := hs
  have hopened := sockCreateKern_opened hfresh
  by_cases hkern : env.createKern < 0
  · have hinit : udpmodInit env s.fresh = (env.createKern, _) := if_pos hkern
    rw [Loading.inOrder_of_ne_zero (by rw [hinit]; dsimp only; omega), hinit]
    exact hs
  by_cases hsend : env.sendmsg < 0
  · have hinit : udpmodInit env s.fresh = (env.sendmsg, (s.fresh.sockCreateKern.println
        (print "[UDP SOCKET] kernel_sendmsg failed\n" ERROR)).releaseSock) := by
      unfold udpmodInit
      rw [if_neg hkern]
      exact if_pos hsend
    rw [Loading.inOrder_of_ne_zero (by rw [hinit]; dsimp only; omega), hinit]
    show s.fresh.sockCreateKern.opened.release (some s.created) = .empty
    rw [hopened, Held.release_of_mem (List.mem_singleton.mpr rfl)]
    simp [Held.empty, Module.fresh]
  · have hinit : (udpmodInit env s.fresh).1 = 0 := by
      unfold udpmodInit
      rw [if_neg hkern]
      exact congrArg Prod.fst (if_neg hsend)
    have hstate : (udpmodInit env s.fresh).2.sock = some s.created ∧
        (udpmodInit env s.fresh).2.opened = s.fresh.sockCreateKern.opened := by
      unfold udpmodInit
      rw [if_neg hkern]
      dsimp only
      rw [if_neg hsend]
      exact ⟨rfl, rfl⟩
    rw [Loading.inOrder_of_eq_zero hinit]
    refine ⟨by rw [hstate.1]; simp, ?_⟩
    rw [hstate.1, hstate.2, hopened]
    rfl

theorem Loaded.exit {s : Module} (hs : Loaded s) : Unloaded (udpmodExit s) := by
  unfold udpmodExit
  rw [if_pos (Option.isSome_iff_ne_none.mpr hs.1)]
  show s.opened.release s.sock = .empty
  rw [hs.2, Held.release_of_mem (List.mem_singleton.mpr rfl)]
  simp [Held.empty]

theorem udpmodInit_effects (env : InitEnv) (s : Module) :
    (udpmodInit env s).2.sent = s.sent ++ (if Sends env then [hello] else []) ∧
      (udpmodInit env s).2.log = s.log ++ [line env] := by
  unfold udpmodInit line
  by_cases hkern : env.createKern < 0
  · have hlevel : print "[UDP SOCKET] sock_create_kern failed: %d\n" env.createKern = "[???]: unknown log level\n" := by
      unfold print DEBUG ERROR
      rw [if_neg (by omega), if_neg (by omega)]
    rw [if_pos hkern, if_pos hkern, if_neg (fun h : Sends env => absurd h.1 (by omega)), hlevel, List.append_nil]
    exact ⟨rfl, rfl⟩
  rw [if_neg hkern, if_neg hkern]
  dsimp only
  by_cases hsend : env.sendmsg < 0
  · rw [if_pos hsend, if_pos hsend, if_neg (fun h : Sends env => absurd h.2 (by omega)), List.append_nil]
    exact ⟨rfl, rfl⟩
  · have hsends : Sends env := ⟨by omega, by omega⟩
    rw [if_neg hsend, if_neg hsend, if_pos hsends]
    exact ⟨rfl, rfl⟩

theorem udpmodExit_effects (s : Module) : (udpmodExit s).sent = s.sent ∧ (udpmodExit s).log = s.log := by
  unfold udpmodExit
  split_ifs
  · exact ⟨rfl, rfl⟩
  · exact ⟨rfl, rfl⟩

end DeviceDrivers.Udp
