import DeviceDrivers.So2.Exclusion

/-!
# The so2 device as a message with a position

The array of the device keeps stale bytes of earlier messages behind the terminator. For its users
the device is simpler: a message, and a position in it while a file is open (`message`). Runs of the
device whose user copies succeed are runs of that model (`so2_refines_message`).
-/

namespace DeviceDrivers.So2

open CString

/-! ### The model -/

/-- The message, and the position of the open file if there is one. -/
structure Message where
  content : List UInt8
  position : Option Nat

/-- The output is the bytes delivered to the user. -/
def messageStep (m : Message) : So2Event → Option (Message × List UInt8)
  | .tryOpen _ =>
    match m.position with
    | none => some ({ m with position := some 0 }, [])
    | some _ => some (m, [])
  | .release _ => some ({ m with position := none }, [])
  | .read _ size _ => m.position.map fun p =>
      let bytes := (m.content.drop p).take size
      ({ m with position := some (p + bytes.length) }, bytes)
  | .write _ size copy =>
    match copy with
    | .done w => some (⟨CString.content 0 (w.take (min size 127)), some 0⟩, [])
    | .fault _ => none

def message : Machine Message So2Event (List UInt8) := ⟨⟨MESSAGE, none⟩, messageStep⟩

/-- The user copy of the call succeeds. -/
def So2Event.copiesSucceed : So2Event → Bool
  | .read _ _ limit => limit.isNone
  | .write _ _ (.fault _) => false
  | _ => true

def So2Event.isWrite : So2Event → Bool
  | .write _ _ _ => true
  | _ => false

/-! ### Reads and writes of the array -/

/-- The string in the device's array. -/
def So2DeviceData.string (data : So2DeviceData) : List UInt8 := content 0 data.msg.toList

theorem string_length_le (data : So2DeviceData) : data.string.length ≤ MSG_MAX := by
  have := (content_isPrefix 0 data.msg.toList).length_le
  rwa [Vector.length_toList] at this

/-- `*offset` as the `size_t` that it is compared as. -/
def startOf (offset : Int) : Nat := (offset % 2 ^ 64).toNat

theorem so2Read_past {data : So2DeviceData} {offset : Int} (h : data.string.length ≤ startOf offset)
    (size : Nat) (limit : Option Nat) : so2Read data size offset limit = ⟨0, [], offset⟩ := by
  unfold so2Read
  exact if_pos h

theorem so2Read_inside {data : So2DeviceData} {offset : Int} (h : startOf offset < data.string.length)
    (size : Nat) :
    so2Read data size offset none =
      ⟨ssizeT size, (data.string.drop (startOf offset)).take size,
        offset + ((data.string.drop (startOf offset)).take size).length⟩ := by
  have hlen : ((data.string.drop (startOf offset)).take size).length =
      min size (data.string.length - startOf offset) := by
    rw [List.length_take, List.length_drop]
  have hbytes : (data.msg.toList.drop (startOf offset)).take
      (min size (data.string.length - startOf offset)) =
        (data.string.drop (startOf offset)).take size := by
    have hend : startOf offset + min size (data.string.length - startOf offset) ≤ data.string.length := by
      omega
    rw [take_drop_eq 0 hend, ← List.length_drop]
    exact List.take_eq_take_min.symm
  have hstrlen : strlen data.msg.toList = data.string.length := rfl
  unfold so2Read
  simp only [hstrlen, ge_iff_le, ite_lt_eq_min, Option.getD_none]
  rw [← startOf, if_neg (by omega), hbytes, ← hlen, List.take_length, Nat.sub_self,
    if_neg (not_not.mpr rfl)]

theorem so2Read_copied (data : So2DeviceData) (size : Nat) (offset : Int) :
    (so2Read data size offset none).copied = (data.string.drop (startOf offset)).take size ∧
      startOf (so2Read data size offset none).offset =
        startOf offset + ((data.string.drop (startOf offset)).take size).length := by
  by_cases h : data.string.length ≤ startOf offset
  · rw [so2Read_past h, List.drop_eq_nil_of_le h]
    simp
  · rw [so2Read_inside (by omega)]
    refine ⟨rfl, ?_⟩
    have hmax := string_length_le data
    unfold MSG_MAX at hmax
    have hlen : ((data.string.drop (startOf offset)).take size).length ≤
        data.string.length - startOf offset := by
      rw [List.length_take, List.length_drop]
      omega
    unfold startOf at h hlen ⊢
    dsimp only
    omega

theorem so2Read_eq (data : So2DeviceData) (size p : Nat) (hp : p < 2 ^ 64) :
    (so2Read data size p none).copied = (data.string.drop p).take size ∧
      (so2Read data size p none).offset = ((p + ((data.string.drop p).take size).length : Nat) : Int) := by
  have hstart : startOf p = p := by
    unfold startOf
    omega
  by_cases hend : data.string.length ≤ p
  · rw [so2Read_past (by rw [hstart]; exact hend), List.drop_eq_nil_of_le hend]
    simp
  · rw [so2Read_inside (by omega), hstart]
    exact ⟨rfl, (Int.natCast_add _ _).symm⟩

theorem so2Write_string (data : So2DeviceData) (size : Nat) (offset : Int) {w : List UInt8}
    (hw : writeLength size ≤ w.length) :
    (so2Write data size offset (.done w)).2.string = content 0 (w.take (min size 127)) := by
  have hle : writeLength size ≤ 127 := min_le_right _ _
  have hlen : (w.take (writeLength size)).length = writeLength size := by
    rw [List.length_take, min_eq_left hw]
  have hlt : writeLength size < data.msg.toList.length := by
    rw [Vector.length_toList]
    exact Nat.lt_succ_of_le hle
  rw [so2Write_done]
  unfold So2DeviceData.string
  dsimp only
  rw [Vector.toList_setIfInBounds, toList_fill data.msg (by rw [hlen]; exact hle.trans (by decide)), hlen,
    List.set_append_right _ _ hlen.le, hlen, Nat.sub_self, List.drop_eq_getElem_cons hlt, List.set_cons_zero, content_terminated]
  rfl

/-! ### The simulation -/

/-- The device `s` shows the message `m`. -/
structure Sys.Shows (s : Sys) (m : Message) : Prop where
  string : s.dev.string = m.content
  positions : s.files.map (·.pos) = m.position.toList.map fun p => (p : Int)
  inside : ∀ p ∈ m.position, p ≤ m.content.length

theorem Sys.Shows.position_none {s : Sys} {m : Message} (h : s.Shows m) (hnil : s.files = []) :
    m.position = none := by
  have := h.positions
  rw [hnil] at this
  cases hm : m.position with
  | none => rfl
  | some p => simp [hm] at this

theorem Sys.Shows.position_some {s : Sys} {m : Message} (h : s.Shows m) {file : File}
    (hone : s.files = [file]) : ∃ p : Nat, m.position = some p ∧ file.pos = p := by
  have := h.positions
  rw [hone] at this
  cases hm : m.position with
  | none => simp [hm] at this
  | some p => exact ⟨p, rfl, by simpa [hm] using this⟩

theorem Exclusive.setPos_eq {s : Sys} (hs : Exclusive s) {f : Nat} {file : File}
    (hf : s.file f = some file) (pos : Int) :
    s.files = [file] ∧ s.setPos f pos = [⟨f, pos⟩] := by
  have hone : s.files = [file] := hs.files_of_mem (List.mem_of_find?_eq_some hf)
  have hid : file.id = f := by simpa using List.find?_some hf
  refine ⟨hone, ?_⟩
  unfold Sys.setPos
  rw [hone, ← hid]
  simp

/-- Every step of the device is a step of the message model. -/
theorem so2Step_shows {s s' : Sys} {m : Message} {e : So2Event} {o : So2Output}
    (h : Exclusive s ∧ s.Shows m) (he : e.copiesSucceed = true) (hstep : so2.step s e = some (s', o)) :
    ∃ m', message.step m e = some (m', o.copied) ∧ Exclusive s' ∧ s'.Shows m' := by
  obtain ⟨hs, hm⟩ := h
  have hs' : Exclusive s' := so2_exclusive.step hs hstep
  obtain ⟨f, rfl, -, hbusy, rfl, rfl⟩ | ⟨f, rfl, -, hfree, rfl, rfl⟩ | ⟨f, rfl, hf, rfl, rfl⟩ |
    ⟨f, size, limit, file, rfl, hf, rfl, rfl⟩ | ⟨f, size, copy, file, rfl, hfits, hf, rfl, rfl⟩ :=
      so2Step_cases hstep
  · -- a failed open leaves the position where it is
    have hne : s'.files ≠ [] := mt hs.isOpen_eq_zero_iff.mpr hbusy
    obtain ⟨file, hfile⟩ := List.exists_mem_of_ne_nil _ hne
    obtain ⟨p, hp, -⟩ := hm.position_some (hs.files_of_mem hfile)
    exact ⟨m, by simp [message, messageStep, hp], hs', hm⟩
  · have hnil : s.files = [] := hs.isOpen_eq_zero_iff.mp hfree
    refine ⟨{ m with position := some 0 }, ?_, hs', hm.string, by simp [hnil], ?_⟩
    · simp [message, messageStep, hm.position_none hnil]
    · simp
  · obtain ⟨file, hone, hid⟩ := hs.files_eq hf
    exact ⟨{ m with position := none }, rfl, hs', hm.string, by simp [hone, hid], by simp⟩
  · obtain ⟨hone, hset⟩ := hs.setPos_eq hf (so2Read s.dev size file.pos limit).offset
    obtain ⟨p, hp, hpos⟩ := hm.position_some hone
    have hle : p ≤ m.content.length := hm.inside p hp
    have hmax : m.content.length ≤ MSG_MAX := hm.string ▸ string_length_le s.dev
    obtain rfl : limit = none := by simpa [So2Event.copiesSucceed] using he
    obtain ⟨hcopied, hoffset⟩ := so2Read_eq s.dev size p (by unfold MSG_MAX at hmax; omega)
    rw [hm.string] at hcopied hoffset
    rw [hpos] at hset hs' ⊢
    refine ⟨{ m with position := some (p + ((m.content.drop p).take size).length) }, ?_, hs',
      hm.string, ?_, ?_⟩
    · simp [message, messageStep, hp, hcopied]
    · rw [hset, hoffset]
      rfl
    · intro q hq
      obtain rfl := Option.some.inj hq
      rw [List.length_take, List.length_drop]
      dsimp only
      omega
  · cases copy with
    | fault left => simp [So2Event.copiesSucceed] at he
    | done w =>
      obtain ⟨-, hset⟩ := hs.setPos_eq hf (so2Write s.dev size file.pos (.done w)).1.offset
      have hw : writeLength size ≤ w.length := by simpa [UserCopy.fits] using hfits
      refine ⟨⟨content 0 (w.take (min size 127)), some 0⟩, rfl, hs',
        so2Write_string s.dev size file.pos hw, ?_, ?_⟩
      · rw [hset]
        rfl
      · simp

theorem so2_init_shows : Exclusive so2.init ∧ so2.init.Shows message.init :=
  ⟨so2_exclusive.init, by decide +kernel, rfl, by simp [message]⟩

theorem so2_run_shows {es : List So2Event} {s : Sys} {os : List So2Output}
    (hrun : so2.run es = some (s, os)) (hok : ∀ e ∈ es, e.copiesSucceed = true) :
    ∃ m, message.run es = some (m, os.map (·.copied)) ∧ Exclusive s ∧ s.Shows m :=
  Machine.runFrom_sim so2Step_shows so2_init_shows hok hrun

/-! ### What a read can deliver -/

theorem message_step_infix {m m' : Message} {e : So2Event} {out : List UInt8}
    (hstep : message.step m e = some (m', out)) (he : e.isWrite = false) :
    m'.content = m.content ∧ out <:+: m.content := by
  cases e with
  | tryOpen f =>
    cases hp : m.position with
    | none =>
      simp only [message, messageStep, hp] at hstep
      obtain ⟨rfl, rfl⟩ := Prod.mk.inj (Option.some.inj hstep)
      exact ⟨rfl, List.nil_infix⟩
    | some p =>
      simp only [message, messageStep, hp] at hstep
      obtain ⟨rfl, rfl⟩ := Prod.mk.inj (Option.some.inj hstep)
      exact ⟨rfl, List.nil_infix⟩
  | release f =>
    obtain ⟨rfl, rfl⟩ := Prod.mk.inj (Option.some.inj hstep)
    exact ⟨rfl, List.nil_infix⟩
  | read f size limit =>
    obtain ⟨p, hp, heq⟩ := Option.map_eq_some_iff.mp hstep
    obtain ⟨rfl, rfl⟩ := Prod.mk.inj heq
    exact ⟨rfl, (List.take_prefix _ _).isInfix.trans (List.drop_suffix _ _).isInfix⟩
  | write f size copy => simp [So2Event.isWrite] at he

theorem message_infix {m m' : Message} {es : List So2Event} {outs : List (List UInt8)}
    (hrun : message.runFrom m es = some (m', outs)) (hes : ∀ e ∈ es, e.isWrite = false) :
    ∀ out ∈ outs, out <:+: m.content := by
  induction es generalizing m outs with
  | nil =>
    obtain ⟨-, rfl⟩ := Prod.mk.inj (Option.some.inj hrun)
    simp
  | cons e es ih =>
    obtain ⟨u, out, outs', hstep, hrest, rfl⟩ := message.runFrom_cons_eq_some.mp hrun
    have hu : u.content = m.content ∧ out <:+: m.content :=
      message_step_infix hstep (hes e List.mem_cons_self)
    rw [List.forall_mem_cons]
    refine ⟨hu.2, ?_⟩
    rw [← hu.1]
    exact ih hrest fun e' he' => hes e' (List.mem_cons_of_mem _ he')

theorem read_step (dev : So2DeviceData) (f size : Nat) {p : Nat} (hp : p ≤ dev.string.length) :
    ∃ r, so2.step ⟨dev, [⟨f, p⟩]⟩ (.read f size none) =
      some (⟨dev, [⟨f, ((p + ((dev.string.drop p).take size).length : Nat) : Int)⟩]⟩,
        ⟨r, (dev.string.drop p).take size⟩) := by
  have hmax : dev.string.length ≤ MSG_MAX := string_length_le dev
  obtain ⟨hcopied, hoffset⟩ := so2Read_eq dev size p (by unfold MSG_MAX at hmax; omega)
  refine ⟨(so2Read dev size p none).ret, ?_⟩
  rw [← hoffset, ← hcopied]
  simp [so2, so2Step, Sys.file, Sys.setPos]

theorem reads_chunked (dev : So2DeviceData) (f : Nat) (ks : List Nat) {p : Nat}
    (hp : p ≤ dev.string.length) :
    ∃ os, so2.runFrom ⟨dev, [⟨f, p⟩]⟩ (ks.map fun k => .read f k none) =
        some (⟨dev, [⟨f, ((p + ((dev.string.drop p).take ks.sum).length : Nat) : Int)⟩]⟩, os) ∧
      (os.map (·.copied)).flatten = (dev.string.drop p).take ks.sum := by
  induction ks generalizing p with
  | nil => exact ⟨[], by simp, by simp⟩
  | cons k ks ih =>
    obtain ⟨r, hstep⟩ := read_step dev f k hp
    have hlen : ((dev.string.drop p).take k).length = min k (dev.string.length - p) := by
      rw [List.length_take, List.length_drop]
    obtain ⟨os, hrun, hos⟩ :=
      ih (show p + ((dev.string.drop p).take k).length ≤ dev.string.length by omega)
    refine ⟨⟨r, (dev.string.drop p).take k⟩ :: os, ?_, ?_⟩
    · rw [List.map_cons, so2.runFrom_cons_eq_some]
      refine ⟨_, _, os, hstep, ?_, rfl⟩
      rw [hrun, List.sum_cons, take_drop_add, List.length_append, Nat.add_assoc]
    · rw [List.map_cons, List.flatten_cons, hos, List.sum_cons, take_drop_add]

/-- Runs of the device whose user copies succeed are runs of the message model, with the same bytes
delivered. So after a write, until the next one, every read delivers a part of what was written, and a
read may be split into chunks of any sizes. -/
theorem so2_refines_message {es : List So2Event} {s : Sys} {os : List So2Output}
    (hrun : so2.run es = some (s, os)) (hok : ∀ e ∈ es, e.copiesSucceed = true) :
    (∃ m, message.run es = some (m, os.map (·.copied)) ∧ s.dev.string = m.content ∧
      s.files.map (·.pos) = m.position.toList.map fun p => (p : Int)) ∧
    (∀ pre f size w post, es = pre ++ .write f size (.done w) :: post →
      (∀ e ∈ post, e.isWrite = false) →
      ∀ o ∈ os.drop (pre.length + 1), o.copied <:+: content 0 (w.take (min size 127))) ∧
    (∀ f ∈ s.handles, ∀ ks : List Nat, ∃ t os' o,
      so2.runFrom s (ks.map fun k => .read f k none) = some (t, os') ∧
      so2.step s (.read f ks.sum none) = some (t, o) ∧
      (os'.map (·.copied)).flatten = o.copied) := by
  obtain ⟨m, hm, hs, hshows⟩ := so2_run_shows hrun hok
  refine ⟨⟨m, hm, hshows.string, hshows.positions⟩, ?_, ?_⟩
  · rintro pre f size w post rfl hpost o ho
    obtain ⟨m₁, outs, outs', hpre, hrest, houts⟩ := message.runFrom_append_eq_some.mp hm
    obtain ⟨m₂, out, outs'', hwrite, hreads, rfl⟩ := message.runFrom_cons_eq_some.mp hrest
    obtain ⟨rfl, rfl⟩ := Prod.mk.inj (Option.some.inj hwrite)
    have hlen : outs.length = pre.length := message.length_of_runFrom hpre
    have hdrop : (os.map (·.copied)).drop (pre.length + 1) = outs'' := by
      rw [houts, ← hlen, ← List.drop_drop, List.drop_left]
      rfl
    apply message_infix hreads hpost
    rw [← hdrop, ← List.map_drop]
    exact List.mem_map_of_mem ho
  · intro f hf ks
    obtain ⟨file, hfile, rfl⟩ := List.mem_map.mp hf
    have hone : s.files = [file] := hs.files_of_mem hfile
    obtain ⟨p, hp, hpos⟩ := hshows.position_some hone
    have hs_eq : s = ⟨s.dev, [⟨file.id, p⟩]⟩ := by
      rw [← hpos]
      exact congrArg (Sys.mk s.dev) hone
    have hle : p ≤ s.dev.string.length := hshows.string ▸ hshows.inside p hp
    obtain ⟨os', hchunks, hos'⟩ := reads_chunked s.dev file.id ks hle
    obtain ⟨r, hone⟩ := read_step s.dev file.id ks.sum hle
    rw [← hs_eq] at hchunks hone
    exact ⟨_, os', _, hchunks, hone, hos'⟩

/-- A long message, then a short one: the read after it delivers the short one only. -/
theorem so2_refines_message_short_write :
    ∃ m, message.run [.tryOpen 1, .write 1 5 (.done [104, 101, 108, 108, 111]),
      .write 1 2 (.done [104, 105]), .read 1 10 none] = some (m, [[], [], [], [104, 105]]) := by
  have hrun : (so2.run [.tryOpen 1, .write 1 5 (.done [104, 101, 108, 108, 111]),
      .write 1 2 (.done [104, 105]), .read 1 10 none]).map (·.2) =
        some [⟨0, []⟩, ⟨5, []⟩, ⟨2, []⟩, ⟨10, [104, 105]⟩] := by decide +kernel
  obtain ⟨⟨s, os⟩, hs, rfl⟩ := Option.map_eq_some_iff.mp hrun
  obtain ⟨⟨m, hm, -⟩, -⟩ := so2_refines_message hs (by decide)
  exact ⟨m, hm⟩

end DeviceDrivers.So2
