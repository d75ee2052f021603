import Mathlib.Data.List.Induction
import Mathlib.Tactic.Common

/-!
# Internet addresses as text

`inet_pton` for `AF_INET`, as the C library computes it character by character, and the dotted decimal form that
`%pI4` prints. The texts that `inet_pton` accepts are exactly those that `%pI4` prints, each for the address it
stands for (`inetPton_eq_some_iff`): no leading zeros, no missing or further octets, nothing behind the last one.

An address is its four bytes in network order.
-/

namespace Inet

abbrev Address := Vector (BitVec 8) 4

/-- An unsigned number in decimal, as `%u` prints it. -/
def decimal (n : Nat) : List Char := Nat.toDigits 10 n

/-- `%pI4`. -/
def pI4 (addr : Address) : List Char :=
  ['.'].intercalate (addr.toList.map fun b => decimal b.toNat)

/-- The local variables of `inet_pton4`: `tp` is an index into `tmp`. -/
structure Pton where
  tmp : Address
  tp : Nat
  sawDigit : Bool
  octets : Nat

namespace Pton

variable (s : Pton)

def start : Pton := ⟨Vector.replicate 4 0, 0, false, 0⟩

/-- `*tp`. -/
def cur : BitVec 8 := s.tmp[s.tp]?.getD 0

/-- One round of the loop; `none` is `return 0`. -/
def step (ch : Char) : Option Pton :=
  if '0' ≤ ch ∧ ch ≤ '9' then
    let new := s.cur.toNat * 10 + (ch.toNat - '0'.toNat)
    if s.sawDigit = true ∧ s.cur = 0 then none
    else if new > 255 then none
    else
      let s := { s with tmp := s.tmp.setIfInBounds s.tp (BitVec.ofNat 8 new) }
      if s.sawDigit then some s
      else if s.octets + 1 > 4 then none
      else some { s with octets := s.octets + 1, sawDigit := true }
  else if ch = '.' ∧ s.sawDigit = true then
    if s.octets = 4 then none
    else some { s with tmp := s.tmp.setIfInBounds (s.tp + 1) 0, tp := s.tp + 1, sawDigit := false }
  else none

def steps (text : List Char) : Option Pton := text.foldlM step s

end Pton

/-- `inet_pton(AF_INET, text, &addr)`; `none` is a result other than one. -/
def inetPton (text : List Char) : Option Address :=
  (Pton.start.steps text).bind fun s => if s.octets < 4 then none else some s.tmp

/-! ### Digits -/

theorem digitChar_range {d : Nat} (h : d < 10) : '0' ≤ d.digitChar ∧ d.digitChar ≤ '9' := by
  have hdigit : d.digitChar.isDigit = true := by simpa using h
  simpa [Char.isDigit, Char.le_def] using hdigit

theorem toNat_of_range {ch : Char} (h : '0' ≤ ch ∧ ch ≤ '9') : 48 ≤ ch.toNat ∧ ch.toNat ≤ 57 := by
  have h₀ : (48 : Nat) ≤ ch.val.toNat := h.1
  have h₉ : ch.val.toNat ≤ (57 : Nat) := h.2
  exact ⟨h₀, h₉⟩

theorem digitChar_of_range {ch : Char} (h : '0' ≤ ch ∧ ch ≤ '9') : (ch.toNat - 48).digitChar = ch := by
  obtain ⟨hlow, hhigh⟩ := toNat_of_range h
  apply Char.toNat_inj.mp
  rw [Nat.toNat_digitChar_of_lt_ten (by omega)]
  omega

theorem decimal_of_lt {d : Nat} (h : d < 10) : decimal d = [d.digitChar] := Nat.toDigits_of_lt_base h

theorem decimal_append {n d : Nat} (hn : 0 < n) (hd : d < 10) :
    decimal (n * 10 + d) = decimal n ++ [d.digitChar] := by
  unfold decimal
  rw [← Nat.toDigits_of_lt_base hd, Nat.toDigits_append_toDigits (by decide) hn hd, Nat.mul_comm]

/-! ### What is accepted was printed -/

namespace Pton

variable {s t : Pton} {ch : Char}

theorem step_cases (h : s.step ch = some t) :
    (∃ d, d < 10 ∧ ch = d.digitChar ∧ (s.sawDigit = true → s.cur ≠ 0) ∧ s.cur.toNat * 10 + d < 256 ∧
      (s.sawDigit = false → s.octets < 4) ∧
      t = ⟨s.tmp.setIfInBounds s.tp (BitVec.ofNat 8 (s.cur.toNat * 10 + d)), s.tp, true,
        if s.sawDigit then s.octets else s.octets + 1⟩) ∨
    (ch = '.' ∧ s.sawDigit = true ∧ s.octets ≠ 4 ∧
      t = ⟨s.tmp.setIfInBounds (s.tp + 1) 0, s.tp + 1, false, s.octets⟩) := by
  simp only [step] at h
  split_ifs at h with hdigit hzero hlarge hsaw hmany hdot hfour
  · left
    obtain rfl := Option.some.inj h
    obtain ⟨hlow, hhigh⟩ := toNat_of_range hdigit
    refine ⟨ch.toNat - 48, by omega, (digitChar_of_range hdigit).symm, fun hs hcur => hzero ⟨hs, hcur⟩, ?_,
      by simp [hsaw], ?_⟩
    · exact Nat.lt_succ_of_le (Nat.le_of_not_gt hlarge)
    · simp [hsaw]
  · left
    obtain rfl := Option.some.inj h
    obtain ⟨hlow, hhigh⟩ := toNat_of_range hdigit
    refine ⟨ch.toNat - 48, by omega, (digitChar_of_range hdigit).symm, fun hs => absurd hs hsaw, ?_, ?_, ?_⟩
    · exact Nat.lt_succ_of_le (Nat.le_of_not_gt hlarge)
    · intro _
      omega
    · simp [hsaw]
  · right
    obtain rfl := Option.some.inj h
    exact ⟨hdot.1, hdot.2, hfour, rfl⟩

/-- The octets that are complete, and the digits of the next one. -/
structure Parsed (text : List Char) (s : Pton) : Prop where
  tp_lt : s.tp < 4
  octets : s.octets = s.tp + if s.sawDigit then 1 else 0
  cur : s.sawDigit = false → s.cur = 0
  text : text = (s.tmp.toList.take s.tp).flatMap (fun b => decimal b.toNat ++ ['.']) ++
    if s.sawDigit then decimal s.cur.toNat else []

theorem cur_set {tp : Nat} (h : tp < 4) (tmp : Address) (b : BitVec 8) (saw : Bool) (n : Nat) :
    (Pton.mk (tmp.setIfInBounds tp b) tp saw n).cur = b := by
  simp [Pton.cur, h]

theorem take_tp (b : BitVec 8) : (s.tmp.setIfInBounds s.tp b).toList.take s.tp = s.tmp.toList.take s.tp := by
  rw [Vector.toList_setIfInBounds, List.take_set_of_le (Nat.le_refl _)]

theorem take_succ_tp (h : s.tp < 4) (b : BitVec 8) :
    (s.tmp.setIfInBounds (s.tp + 1) b).toList.take (s.tp + 1) = s.tmp.toList.take s.tp ++ [s.cur] := by
  rw [Vector.toList_setIfInBounds, List.take_set_of_le (Nat.le_refl _), List.take_add_one]
  simp [Pton.cur, h]

theorem Parsed.step {text : List Char} (hs : Parsed text s) (h : s.step ch = some t) : Parsed (text ++ [ch]) t := by
  have hlt := hs.tp_lt
  have hoctets := hs.octets
  have htext := hs.text
  rcases step_cases h with ⟨d, hd, rfl, hcur, hsmall, hmany, rfl⟩ | ⟨rfl, hsaw, hfour, rfl⟩
  · have hnew : (BitVec.ofNat 8 (s.cur.toNat * 10 + d)).toNat = s.cur.toNat * 10 + d := by
      rw [BitVec.toNat_ofNat, Nat.mod_eq_of_lt hsmall]
    refine ⟨hlt, ?_, by simp, ?_⟩
    · cases hsaw : s.sawDigit <;> simp [hsaw] at hoctets ⊢ <;> omega
    · rw [htext]
      dsimp only
      rw [take_tp, cur_set hlt, hnew, if_pos rfl, List.append_assoc]
      congr 1
      cases hsaw : s.sawDigit with
      | false => simp [hs.cur hsaw, decimal_of_lt hd]
      | true =>
        have hpos : 0 < s.cur.toNat := by
          have hne := hcur hsaw
          rw [Ne, ← BitVec.toNat_inj] at hne
          exact Nat.pos_of_ne_zero hne
        rw [decimal_append hpos hd, if_pos rfl]
  · rw [if_pos hsaw] at hoctets htext
    refine ⟨by dsimp only; omega, by simpa using hoctets, ?_, ?_⟩
    · intro _
      exact cur_set (by omega) _ _ _ _
    · rw [htext]
      dsimp only
      rw [take_succ_tp hlt]
      simp

theorem steps_concat (s : Pton) (text : List Char) (ch : Char) :
    s.steps (text ++ [ch]) = (s.steps text).bind fun t => t.step ch := by
  unfold steps
  rw [List.foldlM_append]
  cases List.foldlM Pton.step s text with
  | none => rfl
  | some t => cases h : t.step ch <;> simp [h]

theorem parsed_of_steps {text : List Char} (h : start.steps text = some s) : Parsed text s := by
  induction text using List.reverseRecOn generalizing s with
  | nil =>
    obtain rfl := Option.some.inj h
    exact ⟨by decide, by decide, by decide, rfl⟩
  | append_singleton text ch ih =>
    rw [steps_concat] at h
    obtain ⟨t, ht, hstep⟩ := Option.bind_eq_some_iff.mp h
    exact (ih ht).step hstep

end Pton

theorem toList_address (addr : Address) : addr.toList = [addr[0], addr[1], addr[2], addr[3]] := by
  obtain ⟨⟨bytes⟩, hsize⟩ := addr
  match bytes, hsize with
  | [_, _, _, _], _ => rfl

theorem pI4_eq (addr : Address) : pI4 addr = decimal addr[0].toNat ++ '.' :: (decimal addr[1].toNat ++ '.' ::
    (decimal addr[2].toNat ++ '.' :: decimal addr[3].toNat)) := by
  unfold pI4
  rw [toList_address]
  simp [List.intercalate]

theorem eq_pI4_of_inetPton {text : List Char} {addr : Address} (h : inetPton text = some addr) : text = pI4 addr := by
  obtain ⟨s, hsteps, hend⟩ := Option.bind_eq_some_iff.mp h
  split_ifs at hend with hfew
  obtain rfl := Option.some.inj hend
  obtain ⟨hlt, hoctets, -, htext⟩ := Pton.parsed_of_steps hsteps
  have hsaw : s.sawDigit = true := by
    cases hsaw : s.sawDigit with
    | true => rfl
    | false =>
      simp only [hsaw, Bool.false_eq_true, if_false] at hoctets
      omega
  rw [if_pos hsaw] at hoctets
  have htp : s.tp = 3 := by omega
  rw [if_pos hsaw, htp, toList_address] at htext
  have hcur : s.cur = s.tmp[3] := by
    unfold Pton.cur
    rw [htp]
    rfl
  rw [htext, hcur]
  simp [pI4_eq]

/-! ### What is printed is accepted -/

namespace Pton

theorem step_digit {s : Pton} {d : Nat} (hd : d < 10) (hcur : s.sawDigit = true → s.cur ≠ 0)
    (hsmall : s.cur.toNat * 10 + d < 256) (hoctets : s.sawDigit = false → s.octets < 4) :
    s.step d.digitChar = some ⟨s.tmp.setIfInBounds s.tp (BitVec.ofNat 8 (s.cur.toNat * 10 + d)), s.tp, true,
      if s.sawDigit then s.octets else s.octets + 1⟩ := by
  have hvalue : d.digitChar.toNat - '0'.toNat = d := Nat.toNat_digitChar_sub_48_of_lt_ten hd
  have hle : ¬ s.cur.toNat * 10 + d > 255 := by omega
  unfold step
  rw [if_pos (digitChar_range hd)]
  dsimp only
  rw [hvalue, if_neg (fun h => hcur h.1 h.2), if_neg hle]
  cases hsaw : s.sawDigit with
  | true => rfl
  | false =>
    have hfour : ¬ s.octets + 1 > 4 := by
      have := hoctets hsaw
      omega
    simp [hfour]

/-- In front of the octet number `tp`. -/
def ready (tmp : Address) (tp : Nat) : Pton := ⟨tmp.setIfInBounds tp 0, tp, false, tp⟩

theorem steps_decimal {tmp : Address} {tp : Nat} (hlt : tp < 4) {n : Nat} (hn : n < 256) :
    (ready tmp tp).steps (decimal n) = some ⟨tmp.setIfInBounds tp (BitVec.ofNat 8 n), tp, true, tp + 1⟩ := by
  induction n using Nat.strongRecOn with
  | ind n ih =>
    by_cases hsmall : n < 10
    · have hcur : (ready tmp tp).cur = 0 := cur_set hlt _ _ _ _
      have hstep : (ready tmp tp).step n.digitChar = _ :=
        step_digit hsmall (by simp [ready]) (by simp [hcur]; omega) fun _ => hlt
      rw [hcur] at hstep
      rw [decimal_of_lt hsmall]
      simpa [steps, ready] using hstep
    · -- the last digit comes behind those of `n / 10`, which is not zero
      have hpos : 0 < n / 10 := by omega
      have hdigit : n % 10 < 10 := Nat.mod_lt n (by decide)
      have hsplit : n / 10 * 10 + n % 10 = n := by omega
      have hread : (BitVec.ofNat 8 (n / 10)).toNat = n / 10 := by
        rw [BitVec.toNat_ofNat, Nat.mod_eq_of_lt (by omega)]
      have hne : BitVec.ofNat 8 (n / 10) ≠ 0 := by
        rw [Ne, ← BitVec.toNat_inj, hread]
        exact Nat.ne_of_gt hpos
      have hdecimal : decimal n = decimal (n / 10) ++ [(n % 10).digitChar] := by
        rw [← decimal_append hpos hdigit, hsplit]
      rw [hdecimal, steps_concat, ih (n / 10) (by omega) (by omega), Option.bind_some, step_digit hdigit]
      · rw [cur_set hlt, hread, hsplit]
        simp
      · intro _
        rwa [cur_set hlt]
      · rw [cur_set hlt, hread, hsplit]
        exact hn
      · simp

theorem steps_byte {tmp : Address} {tp : Nat} (hlt : tp < 4) (b : BitVec 8) :
    (ready tmp tp).steps (decimal b.toNat) = some ⟨tmp.setIfInBounds tp b, tp, true, tp + 1⟩ := by
  rw [steps_decimal hlt b.isLt, BitVec.ofNat_toNat, BitVec.setWidth_eq]

theorem steps_octet {tmp : Address} {tp : Nat} (hlt : tp < 3) (b : BitVec 8) (rest : List Char) :
    (ready tmp tp).steps (decimal b.toNat ++ '.' :: rest) =
      (ready (tmp.setIfInBounds tp b) (tp + 1)).steps rest := by
  have hdecimal : (ready tmp tp).steps (decimal b.toNat) = _ := steps_byte (by omega) b
  have hdot : (Pton.mk (tmp.setIfInBounds tp b) tp true (tp + 1)).step '.' =
      some (ready (tmp.setIfInBounds tp b) (tp + 1)) := by
    have hfour : ¬ tp + 1 = 4 := by omega
    simp [step, ready, hfour]
  unfold steps at hdecimal ⊢
  rw [List.foldlM_append, hdecimal, Option.bind_eq_bind, Option.bind_some, List.foldlM_cons, hdot]
  rfl

end Pton

theorem inetPton_pI4 (addr : Address) : inetPton (pI4 addr) = some addr := by
  have hstart : Pton.start = Pton.ready (Vector.replicate 4 0) 0 := rfl
  unfold inetPton
  rw [pI4_eq]
  rw [hstart, Pton.steps_octet (by decide), Pton.steps_octet (by decide), Pton.steps_octet (by decide),
    Pton.steps_byte (by decide), Option.bind_some, if_neg (Nat.lt_irrefl 4)]
  congr 1
  apply Vector.toList_inj.mp
  rw [toList_address addr]
  rfl

/-- `inet_pton` accepts what `%pI4` prints, for the address that was printed, and nothing else. -/
theorem inetPton_eq_some_iff {text : List Char} {addr : Address} : inetPton text = some addr ↔ text = pI4 addr := by
  constructor
  · exact eq_pI4_of_inetPton
  · rintro rfl
    exact inetPton_pI4 addr

theorem pI4_injective {a b : Address} (h : pI4 a = pI4 b) : a = b := by
  have ha := inetPton_pI4 a
  rw [h, inetPton_pI4] at ha
  exact (Option.some.inj ha).symm

end Inet
