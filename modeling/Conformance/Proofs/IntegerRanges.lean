import Conformance.Integer
import Mathlib.Algebra.Ring.Int.Defs
import Mathlib.Tactic.SplitIfs

namespace Conformance

-- The ends of a range are cut out of one word by shifting, and a value is held against them once
-- with its sign and once without it. What comes out is the range that the width promises.

namespace Bounds

-- A value that is not negative reads the same with and without its sign, so that both comparisons
-- are comparisons of numbers.
theorem contains_iff (bounds : Bounds) (value : BitVec 128) :
    bounds.contains value = true ↔ bounds.least.toInt ≤ value.toInt ∧
      (value.toInt < 0 ∨ value.toInt ≤ bounds.greatest.toNat) := by
  have hzero : (0 : BitVec 128).toInt = 0 := BitVec.toInt_zero
  have hunsigned : ¬ value.toInt < 0 → value.toInt = value.toNat := by
    intro h
    rw [BitVec.toInt_eq_toNat_of_msb]
    rw [BitVec.msb_eq_toInt, decide_eq_false h]
  rw [contains]
  split
  · rename_i hlow
    rw [BitVec.slt_iff_toInt_lt] at hlow
    simp only [Bool.false_eq_true, false_iff]
    omega
  · rename_i hlow
    rw [BitVec.slt_iff_toInt_lt] at hlow
    rw [Bool.or_eq_true, BitVec.slt_iff_toInt_lt, BitVec.ule_iff_toNat_le, hzero]
    omega

section Ends

variable {bits : Nat}

-- An end of the widest range, shifted by the bits that are missing, is that end of the range.
theorem toInt_least_ofSigned (hpos : 0 < bits) (hle : bits ≤ 128) :
    (ofSigned bits).least.toInt = -2 ^ (bits - 1) := by
  have hsplit : (2 : Int) ^ 127 = 2 ^ (bits - 1) * 2 ^ (128 - bits) := by
    rw [← Int.pow_add]
    congr 1
    omega
  have hshift : (2 : Int) ^ (128 - bits) ≠ 0 := Int.pow_ne_zero (by decide)
  rw [ofSigned, BitVec.toInt_sshiftRight, BitVec.toInt_intMin_of_pos (by decide),
    Int.shiftRight_eq_div_pow, hsplit, ← Int.neg_mul]
  exact Int.mul_ediv_cancel _ hshift

-- All ones without the bits that are missing are the greatest number of the bits that are left.
theorem toNat_allOnes_shifted (hle : bits ≤ 128) :
    ((BitVec.allOnes 128 >>> (128 - bits)).toNat : Int) = 2 ^ bits - 1 := by
  have hsplit : 2 ^ 128 = 2 ^ (128 - bits) * 2 ^ bits := by
    rw [← Nat.pow_add]
    congr 1
    omega
  have hword : 0 < 2 ^ (128 - bits) * 2 ^ bits := Nat.mul_pos (Nat.two_pow_pos _) (Nat.two_pow_pos _)
  rw [BitVec.toNat_ushiftRight, BitVec.toNat_allOnes, Nat.shiftRight_eq_div_pow, hsplit,
    Nat.mul_sub_div 0 _ _ hword, Nat.zero_div, Nat.zero_add, Int.natCast_sub Nat.one_le_two_pow,
    Int.natCast_pow]
  rfl

theorem toNat_greatest_ofSigned (hpos : 0 < bits) (hle : bits ≤ 128) :
    ((ofSigned bits).greatest.toNat : Int) = 2 ^ (bits - 1) - 1 := by
  have hshift : 128 - bits + 1 = 128 - (bits - 1) := by omega
  rw [ofSigned, hshift]
  exact toNat_allOnes_shifted (by omega)

end Ends

end Bounds

namespace IntegerKind

theorem bits_mem (kind : IntegerKind) : 0 < kind.bits ∧ kind.bits ≤ 128 := by
  rw [bits]
  cases kind.width <;> decide

@[simp] theorem bits_bounds (kind : IntegerKind) : kind.bounds.bits = kind.bits := by
  rw [bounds]
  split <;> rfl

@[simp] theorem signed_bounds (kind : IntegerKind) : kind.bounds.signed = kind.signed := by
  rw [bounds]
  split
  · rename_i h
    exact h.symm
  · rename_i h
    exact (Bool.eq_false_iff.mpr h).symm

-- The numbers of a kind, in two's complement if it is signed.
def InRange (kind : IntegerKind) (n : Int) : Prop :=
  if kind.signed then -2 ^ (kind.bits - 1) ≤ n ∧ n ≤ 2 ^ (kind.bits - 1) - 1
  else 0 ≤ n ∧ n ≤ 2 ^ kind.bits - 1

theorem contains_bounds_iff (kind : IntegerKind) (value : BitVec 128) :
    kind.bounds.contains value = true ↔ kind.InRange value.toInt := by
  obtain ⟨hpos, hle⟩ := kind.bits_mem
  rw [Bounds.contains_iff, bounds, InRange]
  split
  · have hhalf : (0 : Int) < 2 ^ (kind.bits - 1) := Int.pow_pos (by decide)
    rw [Bounds.toInt_least_ofSigned hpos hle, Bounds.toNat_greatest_ofSigned hpos hle]
    omega
  · have hgreatest : ((Bounds.ofUnsigned kind.bits).greatest.toNat : Int) = 2 ^ kind.bits - 1 :=
      Bounds.toNat_allOnes_shifted hle
    have hleast : (Bounds.ofUnsigned kind.bits).least.toInt = 0 := BitVec.toInt_zero
    rw [hleast, hgreatest]
    omega

section Promotion

variable {left right kind other : IntegerKind} {bits : Nat}

-- One kind has room for the numbers of another: the width of its own signedness, and one bit more
-- for the sign where the other has none.
def HasRoomFor (kind other : IntegerKind) : Prop :=
  if other.signed = kind.signed then other.bits ≤ kind.bits
  else kind.signed = true ∧ other.bits < kind.bits

theorem HasRoomFor.inRange {n : Int} (h : kind.HasRoomFor other) (hn : other.InRange n) :
    kind.InRange n := by
  have hpow {m n : Nat} (hle : m ≤ n) : (2 : Int) ^ m ≤ 2 ^ n := by
    exact_mod_cast Nat.pow_le_pow_right (by decide) hle
  rw [HasRoomFor] at h
  rw [InRange] at hn ⊢
  split at h
  · rename_i hsame
    rw [hsame] at hn
    have hhalf := hpow (Nat.sub_le_sub_right h 1)
    have hfull := hpow h
    split_ifs at hn ⊢ <;> omega
  · rename_i hmixed
    obtain ⟨hsigned, hlt⟩ := h
    have hunsigned : other.signed = false := by simpa [hsigned] using hmixed
    have hhalf := hpow (Nat.le_sub_one_of_lt hlt)
    have hpos : (0 : Int) < 2 ^ (kind.bits - 1) := Int.pow_pos (by decide)
    simp only [hunsigned, Bool.false_eq_true, if_false] at hn
    rw [if_pos hsigned]
    omega

-- The kind that is looked for is of the signedness asked for, and wide enough.
theorem smallest_spec {signed : Bool}
    (h : (Width.all.map (IntegerKind.mk signed)).find? (fun kind => bits ≤ kind.bounds.bits) =
      some kind) : kind.signed = signed ∧ bits ≤ kind.bits := by
  obtain ⟨width, -, rfl⟩ := List.mem_map.mp (List.mem_of_find?_eq_some h)
  exact ⟨rfl, by simpa using List.find?_some h⟩

theorem promote_of_same (hsame : left.signed = right.signed) (h : left.promote right = .ok kind) :
    kind.signed = left.signed ∧ max left.bits right.bits ≤ kind.bits := by
  simp only [promote, bits_bounds, signed_bounds, if_pos hsame] at h
  split at h
  · rename_i found hfound
    obtain rfl : found = kind := Except.ok.inj h
    split at hfound
    · rename_i hsigned
      rw [hsigned]
      exact smallest_spec hfound
    · rename_i hsigned
      rw [Bool.eq_false_iff.mpr hsigned]
      exact smallest_spec hfound
  · cases h

-- Where no signed kind is wide enough, the operand without a sign is taken.
theorem promote_of_mixed (hmixed : left.signed ≠ right.signed)
    (h : left.promote right = .ok kind) :
    kind.signed = true ∧ max left.bits right.bits < kind.bits ∨ kind.signed = false := by
  have hunsigned : (if left.signed then right else left).signed = false := by
    split
    · rename_i hsigned
      simpa [hsigned] using hmixed
    · rename_i hsigned
      exact Bool.eq_false_iff.mpr hsigned
  simp only [promote, bits_bounds, signed_bounds, if_neg hmixed] at h
  generalize (if left.signed then right else left) = unsigned at h hunsigned
  split at h
  · rename_i found hfound
    obtain rfl : found = kind := Except.ok.inj h
    exact .inl (smallest_spec hfound)
  · split at h
    · obtain rfl := Except.ok.inj h
      exact .inr hunsigned
    · cases h

theorem hasRoomFor_of_promote (h : left.promote right = .ok kind)
    (hsigned : kind.signed = true ∨ left.signed = false ∧ right.signed = false) :
    kind.HasRoomFor left ∧ kind.HasRoomFor right := by
  have hleft := Nat.le_max_left left.bits right.bits
  have hright := Nat.le_max_right left.bits right.bits
  simp only [HasRoomFor]
  by_cases hsame : left.signed = right.signed
  · obtain ⟨hkind, hbits⟩ := promote_of_same hsame h
    rw [if_pos hkind.symm, if_pos (hsame.symm.trans hkind.symm)]
    omega
  · have hkind : kind.signed = true := by
      refine hsigned.resolve_right fun hunsigned => hsame ?_
      rw [hunsigned.1, hunsigned.2]
    obtain ⟨-, hbits⟩ := (promote_of_mixed hsame h).resolve_right (by simp [hkind])
    simp only [hkind, true_and]
    split_ifs <;> omega

-- Minus one is a number of every signed kind, and of no other.
theorem inRange_minus_one_iff (kind : IntegerKind) : kind.InRange (-1) ↔ kind.signed = true := by
  have hpos : (0 : Int) < 2 ^ (kind.bits - 1) := Int.pow_pos (by decide)
  rw [InRange]
  split
  · rename_i hsigned
    simp only [hsigned, iff_true]
    omega
  · rename_i hsigned
    simp [hsigned]

end Promotion

end IntegerKind

-- The bounds of a kind hold exactly its numbers. The kind in which two operands meet holds the
-- numbers of both, unless a signed operand gave way to one without a sign.
theorem integer_ranges_exact :
    (∀ (kind : IntegerKind) (value : BitVec 128),
      kind.bounds.contains value = true ↔ kind.InRange value.toInt) ∧
    ∀ left right kind : IntegerKind, left.promote right = .ok kind →
      ((∀ value, left.bounds.contains value = true ∨ right.bounds.contains value = true →
          kind.bounds.contains value = true) ↔
        kind.signed = true ∨ left.signed = false ∧ right.signed = false) := by
  refine ⟨IntegerKind.contains_bounds_iff, fun left right kind h => ?_⟩
  simp only [IntegerKind.contains_bounds_iff]
  constructor
  · intro hkept
    have hword : (-1 : BitVec 128).toInt = -1 := by decide
    have hminus := hkept (-1)
    simp only [hword, IntegerKind.inRange_minus_one_iff] at hminus
    cases hkind : kind.signed with
    | true => exact .inl rfl
    | false =>
        have hnone := mt hminus (by simp [hkind])
        simpa using hnone
  · intro hsigned value hvalue
    obtain ⟨hleft, hright⟩ := IntegerKind.hasRoomFor_of_promote h hsigned
    rcases hvalue with hvalue | hvalue
    · exact hleft.inRange hvalue
    · exact hright.inRange hvalue

-- A signed word of 32 bits and an unsigned one of 64 need 65 bits, and meet in 128. Next to an
-- unsigned word of 128 bits there is no room left for the sign.
theorem mixed_operands_meet :
    (IntegerKind.mk true .w32).promote ⟨false, .w64⟩ = .ok ⟨true, .w128⟩ ∧
      (∀ value, (IntegerKind.mk true .w32).bounds.contains value = true ∨
          (IntegerKind.mk false .w64).bounds.contains value = true →
        (IntegerKind.mk true .w128).bounds.contains value = true) ∧
      (IntegerKind.mk true .w64).promote ⟨false, .w128⟩ = .ok ⟨false, .w128⟩ ∧
      ¬ ∀ value, (IntegerKind.mk true .w64).bounds.contains value = true ∨
          (IntegerKind.mk false .w128).bounds.contains value = true →
        (IntegerKind.mk false .w128).bounds.contains value = true := by
  have hwide : (IntegerKind.mk true .w32).promote ⟨false, .w64⟩ = .ok ⟨true, .w128⟩ := by decide
  have hfull : (IntegerKind.mk true .w64).promote ⟨false, .w128⟩ = .ok ⟨false, .w128⟩ := by decide
  refine ⟨hwide, (integer_ranges_exact.2 _ _ _ hwide).mpr (.inl rfl), hfull, ?_⟩
  rw [integer_ranges_exact.2 _ _ _ hfull]
  decide

end Conformance
