import DeviceDrivers.Lib.Held
import DeviceDrivers.Lib.Inet
import DeviceDrivers.Lib.Loading
import DeviceDrivers.Packet.Filter

/-!
# Programs that set the packet filter

The module of `KernelModules/packet-mod/kernel/packet.c` from its load to its unload, together with the class
`PacketDriver` of `user/PacketDriver/packetDriver.cpp`, through which programs set the filter: a text goes through
`inet_pton`, the ioctl and `packet_hook`, and comes back as the text of `%pI4` in the log. What is logged for a packet
is decided by texts alone: by the last one that a `filter_address` did not refuse since the module was loaded
(`log_of_filter_text`).

`misc_register` may fail without `packet_init` taking notice. The module then gives back a device it does not have
when it is unloaded (`packet_resources_iff`).
-/

namespace DeviceDrivers.Packet

open Inet

/-! ### The module -/

inductive Resource
  | hook
  | device
  deriving DecidableEq

/-- The results of `nf_register_net_hook` and of `misc_register`. -/
structure InitEnv where
  registerNet : Int
  misc : Int

/-- `packet_init`. -/
def packetInit (env : InitEnv) (h : Held Resource) : Int × Held Resource :=
  if env.registerNet < 0 then (-1, h)
  else
    let h := h.acquire .hook
    (0, if env.misc = 0 then h.acquire .device else h)

/-- `packet_exit`. -/
def packetExit (h : Held Resource) : Held Resource := (h.release .hook).release .device

/-! ### The log -/

/-- `print(msg, DEBUG)`. -/
def printDebug (msg : String) : List Char := "[LOG]:".toList ++ msg.toList ++ ['\n']

/-- `ntohs` of a little-endian machine. -/
def ntohs (port : BitVec 16) : BitVec 16 := port.extractLsb' 0 8 ++ port.extractLsb' 8 8

def LogEntry.lines (entry : LogEntry) : List (List Char) :=
  ["[TCP] tcp connection intiated from ".toList ++ pI4 entry.saddr ++ ':' :: decimal (ntohs entry.source).toNat ++ ['\n'],
    "[IP HEADER]: DST IP:".toList ++ pI4 entry.daddr,
    "[IP HEADER]: SRC IP:".toList ++ pI4 entry.saddr,
    "[IP HEADER]: protocol:".toList ++ decimal entry.protocol.toNat]

/-- The packet opens a TCP connection. -/
def SkBuff.opens (skb : SkBuff) : Prop := skb.protocol = IPPROTO_TCP ∧ skb.syn = true ∧ skb.ack = false

instance (skb : SkBuff) : Decidable skb.opens := inferInstanceAs (Decidable (_ ∧ _ ∧ _))

/-- What `packet_hook` prints: `test_daddr` asks for an address if there is none. -/
def packetHookLog (address : Word) (sbuf : Option SkBuff) : List (List Char) :=
  match sbuf with
  | none => []
  | some skb =>
    if skb.protocol ≠ IPPROTO_TCP then []
    else if !skb.syn || skb.ack then []
    else if address = Word.zero then [printDebug "ioctl set address must be called"]
    else
      match (packetHook address sbuf).2 with
      | none => []
      | some entry => entry.lines

/-! ### The programs -/

/-- `opened` are the objects of class `PacketDriver`; each keeps the device open. -/
structure Session where
  held : Held Resource
  loaded : Bool
  address : Word
  opened : Nat

inductive SessionEvent
  | load (env : InitEnv)
  | unload
  | construct
  | destruct
  | filterAddress (ip : List Char)
  | packet (sbuf : Option SkBuff)

/-- What comes of an event: a return value, lines in the log, or an exception. -/
inductive SessionOutput
  | returned (ret : Int)
  | printed (log : List (List Char))
  | thrown (what : String)

/-- `PacketDriver::filter_address`. The address is copied from the stack of the caller, which does not fault. -/
def filterAddress (address : Word) (ip : List Char) : Word × SessionOutput :=
  match inetPton ip with
  | none => (address, .thrown "[ERROR] Invalid IP ADDRESS\n")
  | some addr =>
    let r := packetIoctl MY_IOCTL_FILTER_ADDRESS addr none address
    if r.2 < 0 then (r.1, .thrown "[ERROR] Failed to filter address\n")
    else (r.1, .printed ["FIlter set to address: ".toList ++ pI4 r.1 ++ ['\n']])

/-- `fops.owner` keeps the module loaded while its device is open. The static data of a module is zero when it is
loaded. -/
def sessionStep (s : Session) : SessionEvent → Option (Session × SessionOutput)
  | .load env =>
    if s.loaded then none
    else
      let r := packetInit env s.held
      some (⟨r.2, decide (r.1 = 0), Word.zero, 0⟩, .returned r.1)
  | .unload =>
    if s.loaded ∧ s.opened = 0 then some ({ s with held := packetExit s.held, loaded := false }, .returned 0) else none
  | .construct =>
    if s.loaded ∧ .device ∈ s.held.held then some ({ s with opened := s.opened + 1 }, .printed [])
    else some (s, .thrown "[ERROR] Failed to open packet Driver\n")
  | .destruct => if s.opened = 0 then none else some ({ s with opened := s.opened - 1 }, .printed [])
  | .filterAddress ip =>
    if s.opened = 0 then none
    else
      let r := filterAddress s.address ip
      some ({ s with address := r.1 }, r.2)
  | .packet sbuf => some (s, .printed (if s.loaded then packetHookLog s.address sbuf else []))

def session : Machine Session SessionEvent SessionOutput := ⟨⟨.empty, false, Word.zero, 0⟩, sessionStep⟩

/-! ### The log, by texts -/

/-- The module is loaded, and the last text that was not refused since then, the latest event first. -/
def asked : List (SessionEvent × SessionOutput) → Option (Option (List Char))
  | [] => none
  | (.load _, .returned ret) :: earlier => if ret = 0 then some none else asked earlier
  | (.unload, _) :: _ => none
  | (.filterAddress ip, .printed _) :: _ => some (some ip)
  | _ :: earlier => asked earlier

/-- What is to be logged for a packet. -/
def expectedLog (filter : Option (Option (List Char))) (skb : SkBuff) : List (List Char) :=
  match filter with
  | none => []
  | some text =>
    if skb.opens then
      if text = none ∨ text = some "0.0.0.0".toList then [printDebug "ioctl set address must be called"]
      else if text = some (pI4 skb.daddr) then (LogEntry.mk skb.saddr skb.source skb.daddr skb.protocol).lines
      else []
    else []

/-- The address of the module is the one that was asked for. -/
structure Agrees (s : Session × List (SessionEvent × SessionOutput)) : Prop where
  loaded : s.1.loaded = (asked s.2).isSome
  unset : asked s.2 = some none → s.1.address = Word.zero
  set : ∀ text, asked s.2 = some (some text) → text = pI4 s.1.address
  closed : s.1.loaded = false → s.1.opened = 0

theorem filterAddress_cases (address : Word) (ip : List Char) :
    (∃ addr log, ip = pI4 addr ∧ filterAddress address ip = (addr, .printed log)) ∨
      ∃ what, filterAddress address ip = (address, .thrown what) := by
  cases hpton : inetPton ip with
  | none =>
    right
    exact ⟨"[ERROR] Invalid IP ADDRESS\n", by simp [filterAddress, hpton]⟩
  | some addr =>
    left
    have hioctl : packetIoctl MY_IOCTL_FILTER_ADDRESS addr none address = (addr, 0) := by
      simp [packetIoctl, copyFromUser]
    have hset : filterAddress address ip =
        (addr, .printed ["FIlter set to address: ".toList ++ pI4 addr ++ ['\n']]) := by
      simp only [filterAddress, hpton, hioctl]
      rfl
    exact ⟨addr, _, inetPton_eq_some_iff.mp hpton, hset⟩

theorem Agrees.step {s t : Session × List (SessionEvent × SessionOutput)} {e : SessionEvent} {o : SessionOutput}
    (hs : Agrees s) (hstep : session.withLog.step s e = some (t, o)) : Agrees t := by
  obtain ⟨hsession, hlog⟩ := session.withLog_step hstep
  obtain ⟨s, before⟩ := s
  obtain ⟨t, after⟩ := t
  dsimp only at hsession hlog
  subst hlog
  cases e with
  | load env =>
    simp only [session, sessionStep] at hsession
    split_ifs at hsession with hloaded
    obtain ⟨rfl, rfl⟩ := Prod.mk.inj (Option.some.inj hsession)
    have hnone : asked before = none := by
      have := hs.loaded
      simpa [hloaded] using this
    by_cases hret : (packetInit env s.held).1 = 0
    · refine ⟨?_, fun _ => rfl, ?_, fun _ => rfl⟩
      · simp [asked, hret]
      · intro text htext
        simp [asked, hret] at htext
    · refine ⟨?_, fun _ => rfl, ?_, fun _ => rfl⟩
      · simp [asked, hret, hnone]
      · intro text htext
        simp [asked, hret, hnone] at htext
  | unload =>
    simp only [session, sessionStep] at hsession
    split_ifs at hsession with hloaded
    obtain ⟨rfl, rfl⟩ := Prod.mk.inj (Option.some.inj hsession)
    exact ⟨rfl, by simp [asked], by simp [asked], fun _ => hloaded.2⟩
  | construct =>
    simp only [session, sessionStep] at hsession
    split_ifs at hsession with hopen
    · obtain ⟨rfl, rfl⟩ := Prod.mk.inj (Option.some.inj hsession)
      refine ⟨hs.loaded, hs.unset, hs.set, ?_⟩
      intro hunloaded
      exact absurd (hopen.1.symm.trans hunloaded) (by simp)
    · obtain ⟨rfl, rfl⟩ := Prod.mk.inj (Option.some.inj hsession)
      exact ⟨hs.loaded, hs.unset, hs.set, hs.closed⟩
  | destruct =>
    simp only [session, sessionStep] at hsession
    split_ifs at hsession with hzero
    obtain ⟨rfl, rfl⟩ := Prod.mk.inj (Option.some.inj hsession)
    refine ⟨hs.loaded, hs.unset, hs.set, ?_⟩
    intro hunloaded
    have := hs.closed hunloaded
    dsimp only at this ⊢
    omega
  | filterAddress ip =>
    simp only [session, sessionStep] at hsession
    split_ifs at hsession with hzero
    obtain ⟨rfl, rfl⟩ := Prod.mk.inj (Option.some.inj hsession)
    rcases filterAddress_cases s.address ip with ⟨addr, log, hip, hset⟩ | ⟨what, hthrown⟩
    · rw [hset]
      refine ⟨?_, by simp [asked], ?_, hs.closed⟩
      · -- an object is open, so the module is loaded
        have hloaded : s.loaded = true := by
          by_contra hne
          exact hzero (hs.closed (by simpa using hne))
        simpa [asked] using hloaded
      · intro text htext
        obtain rfl : ip = text := by simpa [asked] using htext
        exact hip
    · rw [hthrown]
      exact ⟨hs.loaded, hs.unset, hs.set, hs.closed⟩
  | packet sbuf =>
    obtain ⟨rfl, rfl⟩ := Prod.mk.inj (Option.some.inj hsession)
    exact ⟨hs.loaded, hs.unset, hs.set, hs.closed⟩

theorem pI4_zero : pI4 Word.zero = "0.0.0.0".toList := by decide

/-- The hook compares addresses as one would compare their texts. -/
theorem packetHookLog_eq (address : Word) (skb : SkBuff) {text : Option (List Char)}
    (hunset : text = none → address = Word.zero) (hset : ∀ t, text = some t → t = pI4 address) :
    packetHookLog address (some skb) = expectedLog (some text) skb := by
  have hzero : address = Word.zero ↔ text = none ∨ text = some "0.0.0.0".toList := by
    cases text with
    | none => simpa using hunset
    | some t =>
      rw [hset t rfl, ← pI4_zero]
      constructor
      · rintro rfl
        exact .inr rfl
      · rintro (h | h)
        · cases h
        · exact pI4_injective (Option.some.inj h)
  unfold packetHookLog expectedLog
  dsimp only
  by_cases hopens : skb.opens
  · obtain ⟨hproto, hsyn, hack⟩ := hopens
    have hgoes : skb.opens := ⟨hproto, hsyn, hack⟩
    have hflags : ¬ (!skb.syn || skb.ack) = true := by simp [hsyn, hack]
    rw [if_neg (not_not.mpr hproto), if_neg hflags, if_pos hgoes]
    by_cases hunknown : address = Word.zero
    · rw [if_pos hunknown, if_pos (hzero.mp hunknown)]
    · rw [if_neg hunknown, if_neg (mt hzero.mpr hunknown)]
      cases text with
      | none => exact absurd (hunset rfl) hunknown
      | some t =>
        rw [hset t rfl]
        by_cases hdaddr : skb.daddr = address
        · rw [hdaddr, if_pos rfl]
          simp [packetHook, hproto, hsyn, hack, testDaddr, hunknown, hdaddr]
        · have htext : ¬ some (pI4 address) = some (pI4 skb.daddr) := by
            intro h
            exact hdaddr (pI4_injective (Option.some.inj h)).symm
          rw [if_neg htext]
          simp [packetHook, hproto, hsyn, hack, testDaddr, hunknown, hdaddr]
  · rw [if_neg hopens]
    by_cases hproto : skb.protocol = IPPROTO_TCP
    · have hflags : (!skb.syn || skb.ack) = true := by
        by_contra hne
        apply hopens
        simpa [SkBuff.opens, hproto] using hne
      rw [if_neg (not_not.mpr hproto), if_pos hflags]
    · rw [if_pos hproto]

/-- Whatever was loaded, opened and asked for before, a packet is logged with its addresses if it opens a connection
to the text that `filter_address` last took since the module was loaded; a connection that comes before any text, or
after `0.0.0.0`, is answered by a reminder. -/
theorem log_of_filter_text {es : List SessionEvent} {s : Session} {os : List SessionOutput}
    (hrun : session.run es = some (s, os)) (skb : SkBuff) :
    session.step s (.packet (some skb)) =
      some (s, .printed (expectedLog (asked (es.zip os).reverse) skb)) := by
  have hinv : session.withLog.Invariant Agrees :=
    ⟨⟨rfl, by simp [asked, Machine.withLog], by simp [asked, Machine.withLog], fun _ => rfl⟩, fun hs hstep => hs.step hstep⟩
  obtain ⟨hloaded, hunset, hset, -⟩ := hinv.run (session.run_withLog hrun)
  dsimp only at hloaded hunset hset
  simp only [session, sessionStep]
  cases hasked : asked (es.zip os).reverse with
  | none =>
    rw [hasked] at hloaded
    simp [hloaded, expectedLog]
  | some text =>
    rw [hasked] at hloaded hunset hset
    have heq : packetHookLog s.address (some skb) = expectedLog (some text) skb := by
      apply packetHookLog_eq
      · intro h
        exact hunset (by rw [h])
      · intro t h
        exact hset t (by rw [h])
    simp [hloaded, heq]

/-- The filter is 127.0.0.1, and the second text is refused. -/
def loopbackFiltered : List SessionEvent :=
  [.load ⟨0, 0⟩, .construct, .filterAddress "127.0.0.1".toList, .filterAddress "127.0.0.01".toList, .destruct]

/-- A connection to 127.0.0.1 is logged, one to 127.0.0.2 is not. -/
theorem log_of_filter_text_loopback :
    ∃ s os, session.run loopbackFiltered = some (s, os) ∧
      session.step s (.packet (some ⟨IPPROTO_TCP, #v[127, 0, 0, 1], #v[127, 0, 0, 1], 0x901f, true, false⟩)) =
        some (s, .printed ["[TCP] tcp connection intiated from 127.0.0.1:8080\n".toList,
          "[IP HEADER]: DST IP:127.0.0.1".toList, "[IP HEADER]: SRC IP:127.0.0.1".toList,
          "[IP HEADER]: protocol:6".toList]) ∧
      session.step s (.packet (some ⟨IPPROTO_TCP, #v[127, 0, 0, 1], #v[127, 0, 0, 2], 0x901f, true, false⟩)) =
        some (s, .printed []) := by
  have hasked : (session.run loopbackFiltered).map (fun r => asked (loopbackFiltered.zip r.2).reverse) =
      some (some (some "127.0.0.1".toList)) := by
    decide +kernel
  obtain ⟨⟨s, os⟩, hrun, htext⟩ := Option.map_eq_some_iff.mp hasked
  refine ⟨s, os, hrun, ?_, ?_⟩
  · rw [log_of_filter_text hrun, htext]
    congr 3
  · rw [log_of_filter_text hrun, htext]
    congr 3

/-! ### What the module holds -/

/-- The module, loaded and unloaded. -/
def packetLoads : Machine (Loading (Held Resource)) (LoadEvent InitEnv) Int :=
  Loading.machine id packetInit packetExit .empty

/-- The hook and the device, and nothing was given back that was not there. -/
def Loaded (h : Held Resource) : Prop := h = ⟨[.hook, .device], []⟩

def Unloaded (h : Held Resource) : Prop := h = .empty

theorem inOrder_packetInit (env : InitEnv) (h : Held Resource) (hh : Unloaded h) :
    Loading.InOrder Loaded Unloaded (Loading.afterInit packetInit env h) ↔ (0 ≤ env.registerNet → env.misc = 0) := by
  unfold Unloaded at hh
  subst hh
  by_cases hnet : env.registerNet < 0
  · have hinit : packetInit env .empty = (-1, .empty) := if_pos hnet
    rw [Loading.inOrder_of_ne_zero (by rw [hinit]; decide), hinit]
    exact iff_of_true rfl (by omega)
  · have hinit : packetInit env .empty =
        (0, if env.misc = 0 then ⟨[.hook, .device], []⟩ else ⟨[.hook], []⟩) := if_neg hnet
    rw [Loading.inOrder_of_eq_zero (congrArg Prod.fst hinit), hinit]
    by_cases hmisc : env.misc = 0
    · simp [Loaded, hmisc]
    · simp [Loaded, hmisc]
      omega

/-- Along a run of loads and unloads the module has its hook and its device while it is loaded, neither of them
otherwise, and gives back only what it has, exactly when `misc_register` succeeds in each load that gets to it. -/
theorem packet_resources_iff {es : List (LoadEvent InitEnv)} {s : Loading (Held Resource)} {os : List Int}
    (hrun : packetLoads.run es = some (s, os)) :
    packetLoads.Always (Loading.InOrder Loaded Unloaded) es ↔
      ∀ env, .init env ∈ es → 0 ≤ env.registerNet → env.misc = 0 := by
  have hfirst : Unloaded .empty := rfl
  refine Loading.always_inOrder_iff hfirst inOrder_packetInit ?_ hrun
  rintro h rfl
  unfold Unloaded
  rfl

/-- The second load finds no device number. -/
theorem packet_resources_iff_second_load :
    ¬ packetLoads.Always (Loading.InOrder Loaded Unloaded) [.init ⟨0, 0⟩, .exit, .init ⟨0, -16⟩] := by
  rw [packet_resources_iff rfl]
  intro h
  exact absurd (h ⟨0, -16⟩ (by simp) (by decide)) (by decide)

end DeviceDrivers.Packet
