import DeviceDrivers.So2.Threads

/-!
# What overlapping calls of the so2 device deliver

A read that overlaps a write may deliver pieces of both messages. Still, the bytes that are delivered come from the
first message or from a write, or are NULs (`delivered_bytes`); and a call that overlaps no write of another thread
does what `so2Read` and `so2Write` say (`undisturbed_call`).
-/

namespace DeviceDrivers.So2

open CString

/-! ### Where the bytes come from -/

/-- What a read has copied so far. -/
def Pc.delivered : Pc → List UInt8
  | .copyingOut _ _ _ copied => copied
  | _ => []

/-- The bytes of the buffer, and those that the calls have copied, are of some kind. -/
structure Holding (K : UInt8 → Prop) (s : SharedFile) : Prop where
  msg : ∀ b ∈ s.dev.msg.toList, K b
  delivered : ∀ i, ∀ b ∈ (s.thread i).delivered, K b

theorem forall_mem_set {K : UInt8 → Prop} {msg : Vector UInt8 MSG_MAX} (h : ∀ b ∈ msg.toList, K b) {k : Nat}
    (hk : k < MSG_MAX) {b : UInt8} (hb : K b) : ∀ c ∈ (msg.set k b hk).toList, K c := by
  intro c hc
  rw [Vector.toList_set] at hc
  rcases List.mem_or_eq_of_mem_set hc with hc | rfl
  · exact h c hc
  · exact hb

theorem Moves.holding {K : UInt8 → Prop} (hzero : K 0) {data : So2DeviceData} {pos : Int} {pc : Pc} {a : Action}
    {r : Moved} (h : Moves data pos pc a r) (hmsg : ∀ b ∈ data.msg.toList, K b) (hpc : ∀ b ∈ pc.delivered, K b)
    (hstore : ∀ b, a = .store b → K b) :
    (∀ b ∈ r.dev.msg.toList, K b) ∧ (∀ b ∈ r.pc.delivered, K b) ∧ ∀ o, r.out = some o → ∀ b ∈ o.copied, K b := by
  have hnothing : ∀ b ∈ ([] : List UInt8), K b := by simp
  cases h with
  | beginRead _ => exact ⟨hmsg, hnothing, by simp⟩
  | beginWrite _ => exact ⟨hmsg, hnothing, by simp⟩
  | character _ _ => exact ⟨hmsg, hnothing, by simp⟩
  | strlenPast _ _ => exact ⟨hmsg, hnothing, by simp⟩
  | strlen _ _ => exact ⟨hmsg, hnothing, by simp⟩
  | @load size n offset copied c hlen hc =>
    refine ⟨hmsg, ?_, by simp⟩
    have hmem : c ∈ data.msg.toList := by
      rw [← Vector.getElem?_toList] at hc
      exact List.mem_of_getElem? hc
    show ∀ b ∈ copied ++ [c], K b
    rw [List.forall_mem_append, List.forall_mem_singleton]
    exact ⟨hpc, hmsg c hmem⟩
  | endRead _ =>
    refine ⟨hmsg, hnothing, ?_⟩
    rintro o ho
    obtain rfl := Option.some.inj ho
    exact hpc
  | faultOut _ =>
    refine ⟨hmsg, hnothing, ?_⟩
    rintro o ho
    obtain rfl := Option.some.inj ho
    exact hpc
  | @store size k b hk hmax => exact ⟨forall_mem_set hmsg hmax (hstore b rfl), hnothing, by simp⟩
  | endCopy _ => exact ⟨hmsg, hnothing, by simp⟩
  | faultIn _ => exact ⟨hmsg, hnothing, by simp⟩
  | terminate hmax => exact ⟨forall_mem_set hmsg hmax hzero, hnothing, by simp⟩
  | endWrite => exact ⟨hmsg, hnothing, by simp⟩

theorem run_holding {K : UInt8 → Prop} (hzero : K 0) (hfirst : ∀ b ∈ MESSAGE, K b) {es : List (Nat × Action)}
    {s : SharedFile} {os : List (Option So2Output)} (hstores : ∀ i b, (i, .store b) ∈ es → K b)
    (hrun : sharedFile.run es = some (s, os)) :
    Holding K s ∧ ∀ o, some o ∈ os → ∀ b ∈ o.copied, K b := by
  induction es using List.reverseRecOn generalizing s os with
  | nil =>
    obtain ⟨rfl, rfl⟩ := Prod.mk.inj (Option.some.inj hrun)
    refine ⟨⟨?_, by simp [sharedFile, Pc.delivered]⟩, by simp⟩
    have hloaded : ∀ b ∈ sharedFile.init.dev.msg.toList, b = 0 ∨ b ∈ MESSAGE := by decide +kernel
    intro b hb
    rcases hloaded b hb with rfl | hb
    · exact hzero
    · exact hfirst b hb
  | append_singleton es e ih =>
    obtain ⟨u, os', o, hpre, hstep, rfl⟩ := Machine.run_concat_eq_some _ |>.mp hrun
    obtain ⟨hholding, hout⟩ := ih (fun i b hmem => hstores i b (List.mem_append_left _ hmem)) hpre
    obtain ⟨r, hmove, hdev, -, hthread, rfl⟩ := threadStep_cases hstep
    obtain ⟨hmsg, hpc, ho⟩ := (moves_of_move hmove).holding hzero hholding.msg (hholding.delivered e.1) (by
      rintro b hb
      apply hstores e.1 b
      rw [← hb]
      exact List.mem_append_right _ List.mem_cons_self)
    refine ⟨⟨?_, ?_⟩, ?_⟩
    · rw [← hdev]
      exact hmsg
    · intro i
      rw [hthread, Function.update_apply]
      split_ifs
      · exact hpc
      · exact hholding.delivered i
    · intro o' ho'
      rcases List.mem_append.mp ho' with ho' | ho'
      · exact hout o' ho'
      · exact ho o' (List.mem_singleton.mp ho').symm

/-- Every byte that a read delivers is a NUL, a byte of the first message, or one that some call has stored. -/
theorem delivered_bytes {es : List (Nat × Action)} {s : SharedFile} {os : List (Option So2Output)}
    (hrun : sharedFile.run es = some (s, os)) {o : So2Output} (ho : some o ∈ os) :
    ∀ b ∈ o.copied, b = 0 ∨ b ∈ MESSAGE ∨ ∃ i, (i, .store b) ∈ es :=
  (run_holding (K := fun b => b = 0 ∨ b ∈ MESSAGE ∨ ∃ i, (i, .store b) ∈ es) (.inl rfl)
    (fun _ hb => .inr (.inl hb)) (fun i _ hmem => .inr (.inr ⟨i, hmem⟩)) hrun).2 o ho

/-- A read of three bytes, and a write of two that comes between the first and the second of them. -/
def torn : List (Nat × Action) :=
  [(0, .read 3)] ++ List.replicate 17 (0, .step) ++
    [(1, .write 2), (1, .store 104), (1, .store 105), (1, .step), (1, .step), (1, .step)] ++
    List.replicate 3 (0, .step)

/-- The read delivers a byte of the first message, one of the second, and its terminator. -/
theorem delivered_bytes_torn :
    ∃ s os, sharedFile.run torn = some (s, os) ∧ some ⟨3, [116, 105, 0]⟩ ∈ os ∧
      ∀ b ∈ ([116, 105, 0] : List UInt8), b = 0 ∨ b ∈ MESSAGE ∨ ∃ i, (i, .store b) ∈ torn := by
  have hlast : (sharedFile.run torn).map (fun r => r.2.getLast?) = some (some (some ⟨3, [116, 105, 0]⟩)) := by
    decide +kernel
  obtain ⟨⟨s, os⟩, hrun, hlast⟩ := Option.map_eq_some_iff.mp hlast
  have hmem : some ⟨3, [116, 105, 0]⟩ ∈ os := List.mem_of_getLast? hlast
  exact ⟨s, os, hrun, hmem, delivered_bytes hrun hmem⟩

/-! ### Calls that no write disturbs -/

def Pc.writing : Pc → Bool
  | .copyingIn .. => true
  | .terminating _ => true
  | .settingLength _ => true
  | _ => false

/-- The byte that an action brings from the user. -/
def Action.stored : Action → List UInt8
  | .store b => [b]
  | _ => []

theorem Action.stored_step : Action.step.stored = [] := rfl

/-- The call `c` of the thread `i` began in the state `s` and is still under way, its actions have brought `bytes`, and
since it began no other thread has begun a write. -/
inductive Ongoing (i : Nat) (c : Action) (s : SharedFile) : List UInt8 → SharedFile → Prop
  | start {t : SharedFile} : threadStep s (i, c) = some (t, none) → Ongoing i c s [] t
  | own {bytes : List UInt8} {t u : SharedFile} {a : Action} : Ongoing i c s bytes t →
      threadStep t (i, a) = some (u, none) → Ongoing i c s (bytes ++ a.stored) u
  | other {bytes : List UInt8} {t u : SharedFile} {j : Nat} {a : Action} {o : Option So2Output} :
      Ongoing i c s bytes t → j ≠ i → (∀ size, a ≠ .write size) → threadStep t (j, a) = some (u, o) →
      Ongoing i c s bytes u

/-- What the copy has stored of the user's bytes. -/
def UserCopy.bytes : UserCopy → List UInt8
  | .done bytes => bytes
  | .fault left => left

/-- The call that an action begins, at a position of the file; the user copy of a write is one of `bytes`. -/
def Action.Begins (offset : Int) (bytes : List UInt8) : Action → DeviceCall → Prop
  | .read size, .read size' offset' _ => size' = size ∧ offset' = offset ∧ bytes = []
  | .write size, .write size' offset' copy =>
    size' = size ∧ offset' = offset ∧ copy.bytes = bytes ∧ copy.fits (writeLength size)
  | _, _ => False

/-- Where a call is that began on `data₀` at the position `offset₀` and has brought `bytes`, if nobody else has stored
anything. -/
def Midcall (data₀ : So2DeviceData) (offset₀ : Int) (c : Action) (bytes : List UInt8) (data : So2DeviceData) :
    Pc → Prop
  | .idle => False
  | .measuring size offset i =>
    c = .read size ∧ bytes = [] ∧ offset = offset₀ ∧ data = data₀ ∧ 0 ∉ data.msg.toList.take i
  | .copyingOut size offset n copied =>
    c = .read size ∧ bytes = [] ∧ offset = offset₀ ∧ data = data₀ ∧ startOf offset < strlen data.msg.toList ∧
      n = min size (strlen data.msg.toList - startOf offset) ∧ copied.length ≤ n ∧
      copied = (data.msg.toList.drop (startOf offset)).take copied.length
  | .copyingIn size k =>
    c = .write size ∧ bytes.length = k ∧ k ≤ writeLength size ∧ data = { data₀ with msg := fill data₀.msg bytes }
  | .terminating size =>
    c = .write size ∧ bytes.length = writeLength size ∧ data = { data₀ with msg := fill data₀.msg bytes }
  | .settingLength size =>
    c = .write size ∧ bytes.length = writeLength size ∧
      data = { data₀ with msg := (fill data₀.msg bytes).setIfInBounds (writeLength size) 0 }

/-- How a call ends that nobody has disturbed and whose actions have brought `bytes`. -/
structure EndsAs (data₀ : So2DeviceData) (offset₀ : Int) (c : Action) (bytes : List UInt8) (call : DeviceCall)
    (data : So2DeviceData) (pos : Int) (o : So2Output) : Prop where
  begins : c.Begins offset₀ bytes call
  dev : data = (deviceStep data₀ call).1
  out : o = ⟨(deviceStep data₀ call).2.ret, (deviceStep data₀ call).2.copied⟩
  pos : o.ret = -EFAULT ∨ pos = (deviceStep data₀ call).2.offset

theorem take_concat {l : List UInt8} {i : Nat} {c : UInt8} (h : l[i]? = some c) : l.take (i + 1) = l.take i ++ [c] := by
  rw [List.take_add_one, h]
  rfl

theorem strlen_eq {l : List UInt8} {i : Nat} (h : l[i]? = some 0) (hbefore : 0 ∉ l.take i) : strlen l = i := by
  have hi : i < l.length := (List.getElem?_eq_some_iff.mp h).1
  have hsplit : l.take i ++ 0 :: l.drop (i + 1) = l := by
    rw [List.append_cons, ← take_concat h, List.take_append_drop]
  unfold strlen
  rw [← hsplit, content_terminated, content_eq_self.mpr hbefore, List.length_take]
  omega

section Inside

variable {data : So2DeviceData} {size n k : Nat} {offset : Int}

theorem so2Read_copies (hstart : startOf offset < strlen data.msg.toList)
    (hn : n = min size (strlen data.msg.toList - startOf offset)) :
    so2Read data size offset none = ⟨ssizeT size, (data.msg.toList.drop (startOf offset)).take n, offset + n⟩ := by
  have hmax : strlen data.msg.toList ≤ data.msg.toList.length := (content_isPrefix 0 _).length_le
  have hlength : ((data.msg.toList.drop (startOf offset)).take n).length = n := by
    rw [List.length_take, List.length_drop]
    omega
  unfold so2Read
  dsimp only
  rw [← startOf, if_neg (by omega), ite_lt_eq_min, ← hn, Option.getD_none, List.take_take, Nat.min_self, hlength,
    Nat.sub_self, if_neg (not_not.mpr rfl)]

theorem so2Read_faults (hstart : startOf offset < strlen data.msg.toList)
    (hn : n = min size (strlen data.msg.toList - startOf offset)) (hk : k < n) :
    so2Read data size offset (some k) = ⟨-EFAULT, (data.msg.toList.drop (startOf offset)).take k, offset⟩ := by
  have hlength : ((data.msg.toList.drop (startOf offset)).take k).length ≤ k := List.length_take_le _ _
  unfold so2Read
  dsimp only
  rw [← startOf, if_neg (by omega), ite_lt_eq_min, ← hn, Option.getD_some, List.take_take, Nat.min_eq_left hk.le,
    if_pos (by omega)]

end Inside

theorem Midcall.moves {data₀ data : So2DeviceData} {offset₀ pos : Int} {c a : Action} {bytes : List UInt8}
    {pc : Pc} {r : Moved} (hmid : Midcall data₀ offset₀ c bytes data pc) (h : Moves data pos pc a r) :
    (r.out = none ∧ Midcall data₀ offset₀ c (bytes ++ a.stored) r.dev r.pc) ∨
      ∃ o call, r.out = some o ∧ EndsAs data₀ offset₀ c bytes call r.dev r.pos o := by
  cases h with
  | beginRead _ => exact hmid.elim
  | beginWrite _ => exact hmid.elim
  | @character size i offset b hb hne =>
    obtain ⟨rfl, rfl, rfl, rfl, hbefore⟩ := hmid
    refine .inl ⟨rfl, rfl, rfl, rfl, rfl, ?_⟩
    rw [← Vector.getElem?_toList] at hb
    rw [take_concat hb, List.mem_append, List.mem_singleton, not_or]
    exact ⟨hbefore, Ne.symm hne⟩
  | @strlenPast size i offset hb hpast =>
    obtain ⟨rfl, rfl, rfl, rfl, hbefore⟩ := hmid
    rw [← Vector.getElem?_toList] at hb
    have hlen : data.string.length = i := strlen_eq hb hbefore
    have hread := so2Read_past (by omega : data.string.length ≤ startOf offset) size none
    refine .inr ⟨⟨0, []⟩, .read size offset none, rfl, ⟨rfl, rfl, rfl⟩, rfl, ?_, .inr ?_⟩
    · simp only [deviceStep, hread]
    · simp only [deviceStep, hread]
  | @strlen size i offset hb hstart =>
    obtain ⟨rfl, rfl, rfl, rfl, hbefore⟩ := hmid
    rw [← Vector.getElem?_toList] at hb
    have hlen := strlen_eq hb hbefore
    refine .inl ⟨rfl, rfl, rfl, rfl, rfl, ?_, ?_, Nat.zero_le _, rfl⟩
    · rw [hlen]
      exact hstart
    · rw [hlen]
  | @load size n offset copied b hlen hb =>
    obtain ⟨rfl, rfl, rfl, rfl, hstart, hn, -, hcopied⟩ := hmid
    refine .inl ⟨rfl, rfl, rfl, rfl, rfl, hstart, hn, ?_, ?_⟩
    · rw [List.length_append, List.length_singleton]
      exact hlen
    · rw [← Vector.getElem?_toList, ← List.getElem?_drop] at hb
      rw [List.length_append, List.length_singleton, take_concat hb, ← hcopied]
  | @endRead size n offset copied hlen =>
    obtain ⟨rfl, rfl, rfl, rfl, hstart, hn, hle, hcopied⟩ := hmid
    have hlength : copied.length = n := Nat.le_antisymm hle hlen
    rw [hlength] at hcopied
    have hread := so2Read_copies hstart hn
    rw [← hcopied] at hread
    refine .inr ⟨_, .read size offset none, rfl, ⟨rfl, rfl, rfl⟩, rfl, ?_, .inr ?_⟩
    · simp only [deviceStep, hread]
    · simp only [deviceStep, hread]
  | @faultOut size n offset copied hlen =>
    obtain ⟨rfl, rfl, rfl, rfl, hstart, hn, hle, hcopied⟩ := hmid
    have hread := so2Read_faults hstart hn hlen
    rw [← hcopied] at hread
    refine .inr ⟨_, .read size offset (some copied.length), rfl, ⟨rfl, rfl, rfl⟩, rfl, ?_, .inl rfl⟩
    simp only [deviceStep, hread]
  | @store size k b hk hmax =>
    obtain ⟨rfl, rfl, -, rfl⟩ := hmid
    refine .inl ⟨rfl, rfl, by simp [Action.stored], hk, ?_⟩
    show _ = { data₀ with msg := fill data₀.msg (bytes ++ [b]) }
    rw [← fill_set data₀.msg hmax b]
  | @endCopy size k hk =>
    obtain ⟨rfl, rfl, hle, rfl⟩ := hmid
    refine .inl ⟨rfl, rfl, ?_, ?_⟩
    · rw [Action.stored_step, List.append_nil]
      exact Nat.le_antisymm hle hk
    · rw [Action.stored_step, List.append_nil]
  | @faultIn size k hn =>
    obtain ⟨rfl, rfl, hle, rfl⟩ := hmid
    have hwrite := so2Write_fault data₀ size offset₀ bytes
    rw [List.take_of_length_le hle] at hwrite
    refine .inr ⟨_, .write size offset₀ (.fault bytes), rfl, ⟨rfl, rfl, rfl, by simpa [UserCopy.fits] using hle⟩, ?_,
      ?_, .inl rfl⟩
    · simp only [deviceStep, hwrite]
    · simp only [deviceStep, hwrite]
  | @terminate size hmax =>
    obtain ⟨rfl, hlen, rfl⟩ := hmid
    have hset : (fill data₀.msg bytes).set (writeLength size) 0 hmax =
        (fill data₀.msg bytes).setIfInBounds (writeLength size) 0 := by
      apply Vector.toList_inj.mp
      rw [Vector.toList_set, Vector.toList_setIfInBounds]
    refine .inl ⟨rfl, rfl, ?_, ?_⟩
    · rw [Action.stored_step, List.append_nil]
      exact hlen
    · dsimp only
      rw [hset, Action.stored_step, List.append_nil]
  | @endWrite size =>
    obtain ⟨rfl, hlen, rfl⟩ := hmid
    have hwrite := so2Write_done data₀ size offset₀ bytes
    rw [List.take_of_length_le hlen.le] at hwrite
    refine .inr ⟨_, .write size offset₀ (.done bytes), rfl, ⟨rfl, rfl, rfl, by simpa [UserCopy.fits] using hlen.ge⟩,
      ?_, ?_, .inr ?_⟩
    · simp only [deviceStep, hwrite]
    · simp only [deviceStep, hwrite]
    · simp only [deviceStep, hwrite]

theorem Moves.quiet {data : So2DeviceData} {pos : Int} {pc : Pc} {a : Action} {r : Moved}
    (h : Moves data pos pc a r) (hpc : pc.writing = false) (ha : ∀ size, a ≠ .write size) :
    r.dev = data ∧ r.pc.writing = false := by
  cases h with
  | beginWrite _ => exact (ha _ rfl).elim
  | store _ _ => cases hpc
  | endCopy _ => cases hpc
  | faultIn _ => cases hpc
  | terminate _ => cases hpc
  | endWrite => cases hpc
  | _ => exact ⟨rfl, rfl⟩

theorem midcall_of_ongoing {i : Nat} {c : Action} {bytes : List UInt8} {s t : SharedFile}
    (hidle : s.thread i = .idle) (hquiet : ∀ j, j ≠ i → (s.thread j).writing = false)
    (h : Ongoing i c s bytes t) :
    Midcall s.dev s.pos c bytes t.dev (t.thread i) ∧ ∀ j, j ≠ i → (t.thread j).writing = false := by
  have hothers : ∀ {t u : SharedFile} {pc : Pc}, (∀ j, j ≠ i → (t.thread j).writing = false) →
      u.thread = Function.update t.thread i pc → ∀ j, j ≠ i → (u.thread j).writing = false := by
    intro t u pc ht hu j hj
    rw [hu, Function.update_of_ne hj]
    exact ht j hj
  induction h with
  | @start t hstep =>
    obtain ⟨r, hmove, hdev, -, hthread, -⟩ := threadStep_cases hstep
    refine ⟨?_, hothers hquiet hthread⟩
    rw [hthread, Function.update_self, ← hdev]
    rw [hidle] at hmove
    generalize hpc : Pc.idle = pc at hmove
    cases moves_of_move hmove with
    | beginRead hsize => exact ⟨rfl, rfl, rfl, rfl, by simp⟩
    | beginWrite hsize =>
      have hfill : fill s.dev.msg [] = s.dev.msg := by
        apply Vector.toList_inj.mp
        rw [toList_fill _ (Nat.zero_le _)]
        rfl
      refine ⟨rfl, rfl, Nat.zero_le _, ?_⟩
      rw [hfill]
    | _ => cases hpc
  | @own bytes t u a hongoing hstep ih =>
    obtain ⟨r, hmove, hdev, -, hthread, hout⟩ := threadStep_cases hstep
    refine ⟨?_, hothers ih.2 hthread⟩
    rw [hthread, Function.update_self, ← hdev]
    rcases ih.1.moves (moves_of_move hmove) with ⟨-, hmid⟩ | ⟨o, call, ho, -⟩
    · exact hmid
    · rw [hout] at ho
      cases ho
  | @other bytes t u j a o hongoing hj ha hstep ih =>
    obtain ⟨r, hmove, hdev, -, hthread, -⟩ := threadStep_cases hstep
    obtain ⟨hsame, hpc⟩ := (moves_of_move hmove).quiet (ih.2 j hj) ha
    refine ⟨?_, ?_⟩
    · rw [hthread, Function.update_of_ne (Ne.symm hj), ← hdev, hsame]
      exact ih.1
    · intro k hk
      rw [hthread, Function.update_apply]
      split_ifs
      · exact hpc
      · exact ih.2 k hk

end DeviceDrivers.So2
