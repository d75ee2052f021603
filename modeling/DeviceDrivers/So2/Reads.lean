import Mathlib.Algebra.Order.Ring.Int
import DeviceDrivers.So2.Content

/-!
# Successive reads of one file

`reads` are the calls of `so2_read` on one open file, each from the position where the one before left
it. Whatever the sizes, they deliver the string of the device from the first position on, piece by piece.
What they return is another matter: `so2_read` returns the size it was asked for, not the number of bytes
it delivered, so the two agree only where the request ends inside the message (`read_reports_iff`). And
the string ends at the first NUL, also where that is a byte of the message that was written
(`written_read_back_iff`).
-/

namespace DeviceDrivers.So2

open CString

/-- The state is the position of the file, an event the size of a read. The user copies succeed. -/
def reads (data : So2DeviceData) (offset : Int) : Machine Int Nat CallResult :=
  ⟨offset, fun offset size => some ((so2Read data size offset none).offset, so2Read data size offset none)⟩

/-- Reads of positive sizes, until one delivers nothing, deliver bytes with `Q`. -/
def ReadingToEnd (data : So2DeviceData) (offset : Int) (Q : List UInt8 → Prop) : Prop :=
  ∀ sizes o rs, (∀ size ∈ sizes, 0 < size) → (reads data offset).run sizes = some (o, rs) →
    rs.getLast?.map CallResult.copied = some [] → Q (rs.map CallResult.copied).flatten

/-- The call returns the number of bytes it delivers, and advances the position by it. -/
def Reports (data : So2DeviceData) (offset : Int) (size : Nat) : Prop :=
  (so2Read data size offset none).ret = (so2Read data size offset none).copied.length ∧
    (so2Read data size offset none).offset = offset + (so2Read data size offset none).copied.length

/-- The call is made at the end of the message, or asks for no more than is left of it. -/
def InsideMessage (data : So2DeviceData) (offset : Int) (size : Nat) : Prop :=
  strlen data.msg.toList ≤ startOf offset ∨ startOf offset + size ≤ strlen data.msg.toList

/-! ### Any sizes -/

theorem reads_run (data : So2DeviceData) (first offset : Int) (sizes : List Nat) :
    ∃ o rs, (reads data first).runFrom offset sizes = some (o, rs) ∧
      (rs.map CallResult.copied).flatten = (data.string.drop (startOf offset)).take sizes.sum ∧
      startOf o = startOf offset + ((data.string.drop (startOf offset)).take sizes.sum).length := by
  induction sizes generalizing offset with
  | nil => exact ⟨offset, [], rfl, by simp, by simp⟩
  | cons size sizes ih =>
    obtain ⟨hcopied, hstart⟩ := so2Read_copied data size offset
    obtain ⟨o, rs, hrun, hbytes, hend⟩ := ih (so2Read data size offset none).offset
    refine ⟨o, so2Read data size offset none :: rs, ?_, ?_, ?_⟩
    · exact (reads data first).runFrom_cons_eq_some.mpr ⟨_, _, _, rfl, hrun, rfl⟩
    · rw [List.map_cons, List.flatten_cons, hbytes, hcopied, hstart, List.sum_cons, take_drop_add]
    · rw [hend, hstart, List.sum_cons, take_drop_add, List.length_append, Nat.add_assoc]

theorem reading_to_end {data : So2DeviceData} {offset : Int} {sizes : List Nat} {o : Int}
    {rs : List CallResult} (hpos : ∀ size ∈ sizes, 0 < size)
    (hrun : (reads data offset).run sizes = some (o, rs))
    (hlast : rs.getLast?.map CallResult.copied = some []) :
    (rs.map CallResult.copied).flatten = data.string.drop (startOf offset) := by
  rcases List.eq_nil_or_concat sizes with rfl | ⟨pre, size, rfl⟩
  · obtain ⟨-, rfl⟩ := Prod.mk.inj (Option.some.inj hrun)
    simp at hlast
  rw [List.concat_eq_append] at hrun hpos
  obtain ⟨p, rs', r, hpre, hstep, rfl⟩ := (reads data offset).run_concat_eq_some.mp hrun
  obtain ⟨-, rfl⟩ := Prod.mk.inj (Option.some.inj hstep)
  obtain ⟨p', rs'', hpre', hbytes, hp⟩ := reads_run data offset offset pre
  obtain ⟨rfl, rfl⟩ := Prod.mk.inj (Option.some.inj (hpre.symm.trans hpre'))
  -- the last call delivers nothing, so the ones before have come to the end of the string
  have hnil : (data.string.drop (startOf p)).take size = [] := by
    rw [← (so2Read_copied data size p).1]
    simpa using hlast
  have hsize : 0 < size := hpos size (by simp)
  have hend : data.string.length ≤ startOf p := by
    have hlen := congrArg List.length hnil
    rw [List.length_take, List.length_drop, List.length_nil] at hlen
    omega
  have hall : data.string.length - startOf offset ≤ pre.sum := by
    rw [List.length_take, List.length_drop] at hp
    omega
  rw [List.map_append, List.flatten_append, hbytes, List.map_singleton, List.flatten_singleton,
    (so2Read_copied data size p).1, hnil, List.append_nil]
  apply List.take_of_length_le
  rw [List.length_drop]
  exact hall

theorem readingToEnd_iff (data : So2DeviceData) (offset : Int) (Q : List UInt8 → Prop) :
    ReadingToEnd data offset Q ↔ Q (data.string.drop (startOf offset)) := by
  constructor
  · intro h
    have hmax := string_length_le data
    have hlong : (so2Read data MSG_MAX offset none).copied = data.string.drop (startOf offset) := by
      rw [(so2Read_copied data MSG_MAX offset).1]
      apply List.take_of_length_le
      rw [List.length_drop]
      omega
    have hshort : (so2Read data 1 (so2Read data MSG_MAX offset none).offset none).copied = [] := by
      rw [(so2Read_copied data 1 _).1, (so2Read_copied data MSG_MAX offset).2,
        ← (so2Read_copied data MSG_MAX offset).1, hlong, List.length_drop, List.drop_eq_nil_of_le (by omega)]
      rfl
    have hrun : (reads data offset).run [MSG_MAX, 1] =
        some ((so2Read data 1 (so2Read data MSG_MAX offset none).offset none).offset,
          [so2Read data MSG_MAX offset none,
            so2Read data 1 (so2Read data MSG_MAX offset none).offset none]) := rfl
    have hread := h _ _ _ (by decide) hrun (by simpa using hshort)
    simpa [hlong, hshort] using hread
  · intro h sizes o rs hpos hrun hlast
    rw [reading_to_end hpos hrun hlast]
    exact h

/-! ### What the calls return -/

theorem reports_iff (data : So2DeviceData) (offset : Int) {size : Nat} (hsize : size < 2 ^ 64) :
    Reports data offset size ↔ InsideMessage data offset size := by
  have hstrlen : strlen data.msg.toList = data.string.length := rfl
  have hmax := string_length_le data
  unfold MSG_MAX at hmax
  unfold Reports InsideMessage
  rw [hstrlen]
  by_cases h : data.string.length ≤ startOf offset
  · rw [so2Read_past h]
    simp [h]
  · have hlen : ((data.string.drop (startOf offset)).take size).length =
        min size (data.string.length - startOf offset) := by
      rw [List.length_take, List.length_drop]
    rw [so2Read_inside (by omega)]
    dsimp only
    rw [hlen, ssizeT_eq_iff hsize (by omega)]
    constructor
    · rintro ⟨hret, -⟩
      right
      omega
    · rintro (hpast | hinside)
      · exact (h hpast).elim
      · exact ⟨by omega, rfl⟩

theorem reports_sum {data : So2DeviceData} {first offset : Int} {sizes : List Nat} {o : Int}
    {rs : List CallResult} (hrun : (reads data first).runFrom offset sizes = some (o, rs))
    (hrets : ∀ r ∈ rs, r.ret = r.copied.length) :
    (rs.map CallResult.ret).sum = ((rs.map CallResult.copied).flatten.length : Nat) ∧
      (rs.map CallResult.copied).flatten.length ≤ strlen data.msg.toList := by
  constructor
  · clear hrun
    induction rs with
    | nil => rfl
    | cons r rs ih =>
      rw [List.forall_mem_cons] at hrets
      rw [List.map_cons, List.sum_cons, List.map_cons, List.flatten_cons, List.length_append, hrets.1,
        ih hrets.2, Int.natCast_add]
  · obtain ⟨o', rs', hrun', hbytes, -⟩ := reads_run data first offset sizes
    obtain ⟨rfl, rfl⟩ := Prod.mk.inj (Option.some.inj (hrun.symm.trans hrun'))
    rw [hbytes, List.length_take, List.length_drop]
    show _ ≤ data.string.length
    omega

/-- Along every sequence of reads of one file, each call returns the number of bytes it delivers and
advances the position by it, so that the returned values add up to what is delivered and to no more than
the message, exactly when each call is made at the end of the message or asks for no more than is left of
it. -/
theorem read_reports_iff (data : So2DeviceData) (offset : Int) {sizes : List Nat}
    (hsizes : ∀ size ∈ sizes, size < 2 ^ 64) :
    ∃ o rs, (reads data offset).run sizes = some (o, rs) ∧
      (((reads data offset).EveryStep (Reports data) sizes ∧
          (rs.map CallResult.ret).sum = (rs.map CallResult.copied).flatten.length ∧
          (rs.map CallResult.ret).sum ≤ strlen data.msg.toList) ↔
        (reads data offset).EveryStep (InsideMessage data) sizes) := by
  obtain ⟨o, rs, hrun, -⟩ := reads_run data offset offset sizes
  refine ⟨o, rs, hrun, ?_⟩
  rw [← Machine.everyStep_congr fun p size hsize => reports_iff data p (hsizes size hsize)]
  constructor
  · rintro ⟨hreports, -⟩
    exact hreports
  · intro hreports
    have hrets : ∀ r ∈ rs, r.ret = r.copied.length := by
      refine Machine.outputs_of_everyStep ?_ hreports hrun
      intro p q size r hreport hstep
      obtain ⟨-, rfl⟩ := Prod.mk.inj (Option.some.inj hstep)
      exact hreport.1
    obtain ⟨hsum, hle⟩ := reports_sum hrun hrets
    refine ⟨hreports, hsum, ?_⟩
    rw [hsum]
    exact_mod_cast hle

/-- A message of two bytes. -/
def hi : So2DeviceData := (so2Write .zero 2 0 (.done [104, 105])).2

/-- A read of ten bytes delivers two and returns ten. -/
theorem read_reports_too_much : ¬ (reads hi 0).EveryStep (Reports hi) [10] := by
  intro h
  have hreport := h [] 10 0 [] (List.prefix_refl _) rfl
  exact absurd hreport.1 (by decide +kernel)

/-- Two reads of one byte deliver the two bytes and return one each. -/
theorem read_reports_iff_bytewise :
    ∃ o rs, (reads hi 0).run ([1] ++ [1]) = some (o, rs) ∧
      (rs.map CallResult.ret).sum = (rs.map CallResult.copied).flatten.length := by
  obtain ⟨o, rs, hrun, hiff⟩ := @read_reports_iff hi 0 ([1] ++ [1]) (by decide)
  have hinside : (reads hi 0).EveryStep (InsideMessage hi) ([1] ++ [1]) := by
    rw [Machine.everyStep_concat, ← List.nil_append [1], Machine.everyStep_concat]
    refine ⟨⟨Machine.everyStep_nil, ?_⟩, ?_⟩
    · intro t os ht
      obtain ⟨rfl, -⟩ := Prod.mk.inj (Option.some.inj ht)
      right
      decide +kernel
    · intro t os ht
      obtain ⟨rfl, -⟩ := Prod.mk.inj (Option.some.inj ht)
      right
      decide +kernel
  exact ⟨o, rs, hrun, (hiff.mpr hinside).2.1⟩

/-! ### What was written -/

/-- After a message of at most `MSG_MAX - 1` bytes is written, all readings to the end deliver it exactly
when it has no NUL. -/
theorem written_read_back_iff (data : So2DeviceData) (offset : Int) {payload : List UInt8}
    (hlen : payload.length ≤ MSG_MAX - 1) :
    ReadingToEnd (so2Write data payload.length offset (.done payload)).2
        (so2Write data payload.length offset (.done payload)).1.offset (· = payload) ↔
      0 ∉ payload := by
  have hwrite : writeLength payload.length ≤ payload.length := Nat.min_le_left _ _
  have htake : payload.take (min payload.length 127) = payload := by
    apply List.take_of_length_le
    unfold MSG_MAX at hlen
    omega
  rw [readingToEnd_iff, so2Write_string data payload.length offset hwrite, htake, ← content_eq_self]
  rfl

/-- Of `a`, NUL, `b` only the `a` is read back. -/
theorem nul_not_read_back :
    ¬ ReadingToEnd (so2Write .zero 3 0 (.done [97, 0, 98])).2
      (so2Write .zero 3 0 (.done [97, 0, 98])).1.offset (· = [97, 0, 98]) := by
  rw [readingToEnd_iff]
  decide +kernel

theorem written_read_back_iff_hi :
    ReadingToEnd (so2Write .zero 2 0 (.done [104, 105])).2
      (so2Write .zero 2 0 (.done [104, 105])).1.offset (· = [104, 105]) := by
  exact (@written_read_back_iff .zero 0 [104, 105] (by decide)).mpr (by decide)

end DeviceDrivers.So2
