import FormulaShell.Number.Parts
import Mathlib

namespace FormulaShell.Number

open Float.Model Float.Model.UnpackedFloat

/-- The mantissas and exponents of finite numbers other than zero. -/
structure Canonical (m : Nat) (q : Int) : Prop where
  pos : 0 < m
  small : m < 2 ^ 53
  least : -1074 ≤ q
  most : q ≤ 971
  full : 2 ^ 52 ≤ m ∨ q = -1074

def signOf (negative : Bool) : Sign := if negative then .negative else .positive

def ofParts (negative : Bool) (m : Nat) (q : Int) (h : 0 < m) : Float :=
  .ofModel (.pack (.finite (signOf negative) m q h))

theorem toNat_toBitVec_signOf (negative : Bool) :
    (signOf negative).toBitVec.toNat = negative.toNat := by cases negative <;> rfl

theorem toNat_packComponents (s : Sign) (e : BitVec 11) (f : BitVec 52) :
    (packComponents Format.binary64 s e f).toNat =
      s.toBitVec.toNat * 2 ^ 63 + e.toNat * 2 ^ 52 + f.toNat := by
  change (s.toBitVec ++ e ++ f).toNat = _
  rw [BitVec.toNat_append, BitVec.toNat_append, ← Nat.shiftLeft_add_eq_or_of_lt e.isLt,
    ← Nat.shiftLeft_add_eq_or_of_lt f.isLt, Nat.shiftLeft_eq, Nat.shiftLeft_eq, Nat.add_mul,
    Nat.mul_assoc, ← Nat.pow_add]

section

variable {s : Sign} {m : Nat} {q : Int}

theorem log2_of_full (hs : m < 2 ^ 53) (hf : 2 ^ 52 ≤ m) : m.log2 = 52 :=
  (Nat.log2_eq_iff (by omega)).mpr ⟨hf, hs⟩

theorem log2_lt_of_not_full (hp : 0 < m) (hf : m < 2 ^ 52) : m.log2 < 52 :=
  (Nat.log2_lt (by omega)).mpr hf

theorem pack_full (h : Canonical m q) (hf : 2 ^ 52 ≤ m) :
    UnpackedFloat.pack Format.binary64 (.finite s m q h.pos) =
      packComponents Format.binary64 s (BitVec.ofNat 11 (q + 1075).toNat) (BitVec.ofNat 52 m) := by
  have hb : (q + Format.binary64.exponentBias + Format.binary64.mantissaBitsWithoutImplicit).toNat
      = (q + 1075).toNat := by
    change (q + 1023 + 52).toNat = _
    rw [Int.add_assoc]
    rfl
  have hsmall : ¬ 2 ^ 11 ≤ (q + 1075).toNat + 1 := by
    have := h.most
    omega
  have hlog : m.log2 + 1 = Format.binary64.mantissaBits := by
    rw [log2_of_full h.small hf]
    rfl
  rw [UnpackedFloat.pack]
  simp only [hb, hlog]
  rw [if_neg hsmall, if_pos trivial]

theorem pack_scant (h : Canonical m q) (hf : m < 2 ^ 52) :
    UnpackedFloat.pack Format.binary64 (.finite s m q h.pos) =
      packComponents Format.binary64 s 0#11 (BitVec.ofNat 52 m) := by
  have hq : q = -1074 := h.full.resolve_left (by omega)
  have hb : (q + Format.binary64.exponentBias + Format.binary64.mantissaBitsWithoutImplicit).toNat
      = 1 := by
    rw [hq]
    rfl
  have hlog : m.log2 + 1 ≠ Format.binary64.mantissaBits := by
    have := log2_lt_of_not_full h.pos hf
    change m.log2 + 1 ≠ 53
    omega
  rw [UnpackedFloat.pack]
  simp only [hb]
  rw [if_neg (by decide), if_neg hlog]

theorem toNat_pack (h : Canonical m q) :
    (UnpackedFloat.pack Format.binary64 (.finite s m q h.pos)).toNat =
      s.toBitVec.toNat * 2 ^ 63 + (if 2 ^ 52 ≤ m then (q + 1075).toNat else 0) * 2 ^ 52 +
        m % 2 ^ 52 := by
  by_cases hf : 2 ^ 52 ≤ m
  · have hq : (q + 1075).toNat % 2 ^ 11 = (q + 1075).toNat := by
      have := h.most
      exact Nat.mod_eq_of_lt (by omega)
    rw [pack_full h hf, toNat_packComponents, if_pos hf, BitVec.toNat_ofNat, BitVec.toNat_ofNat, hq]
  · rw [pack_scant h (by omega), toNat_packComponents, if_neg hf, BitVec.toNat_ofNat,
      BitVec.toNat_ofNat, Nat.zero_mod]

theorem toNat_toBits_ofParts {negative : Bool} (h : Canonical m q) :
    (ofParts negative m q h.pos).toBits.toNat =
      negative.toNat * 2 ^ 63 + (if 2 ^ 52 ≤ m then (q + 1075).toNat else 0) * 2 ^ 52 +
        m % 2 ^ 52 := by
  rw [← toNat_toBitVec_signOf]
  exact toNat_pack h

end

theorem eq_of_toNat_toBits {x y : Float} (h : x.toBits.toNat = y.toBits.toNat) : x = y :=
  Float.toBits_inj.mp (UInt64.toNat_inj.mp h)

variable {x : Float} {negative : Bool} {m : Nat} {q : Int}

theorem exists_parts_of_isFinite (h : isFinite x = true) :
    ∃ negative m q, parts x = .finite negative m q := by
  unfold isFinite at h
  split at h
  next hp => exact ⟨_, _, _, hp⟩
  next => cases h

theorem bits_of_parts (h : parts x = .finite negative m q) :
    negative = (x.toBits.toNat / 2 ^ 63 == 1) ∧
      (x.toBits.toNat / 2 ^ 52 % 2 ^ 11 = 0 ∧ m = x.toBits.toNat % 2 ^ 52 ∧ q = -1074 ∨
        0 < x.toBits.toNat / 2 ^ 52 % 2 ^ 11 ∧ x.toBits.toNat / 2 ^ 52 % 2 ^ 11 < 2047 ∧
          m = x.toBits.toNat % 2 ^ 52 + 2 ^ 52 ∧
          q = (x.toBits.toNat / 2 ^ 52 % 2 ^ 11 : Nat) - 1075) := by
  simp only [parts, show ∀ n, twoTo n = 2 ^ n from fun _ => rfl] at h
  have hlt : x.toBits.toNat / 2 ^ 52 % 2 ^ 11 < 2 ^ 11 := Nat.mod_lt _ (by decide)
  generalize x.toBits.toNat / 2 ^ 52 % 2 ^ 11 = field at h hlt ⊢
  by_cases h1 : field = 2047
  · rw [if_pos h1] at h
    by_cases hf : x.toBits.toNat % 2 ^ 52 = 0
    · rw [if_pos hf] at h
      cases h
    · rw [if_neg hf] at h
      cases h
  · rw [if_neg h1] at h
    by_cases h2 : field = 0
    · rw [if_pos h2] at h
      cases h
      exact ⟨rfl, .inl ⟨h2, rfl, rfl⟩⟩
    · rw [if_neg h2] at h
      cases h
      exact ⟨rfl, .inr ⟨by omega, by omega, rfl, rfl⟩⟩

theorem canonical_of_parts (h : parts x = .finite negative m q) (hm : 0 < m) : Canonical m q := by
  obtain ⟨-, ⟨-, rfl, rfl⟩ | ⟨h0, h1, rfl, rfl⟩⟩ := bits_of_parts h
  · exact ⟨hm, by omega, by omega, by omega, .inr rfl⟩
  · exact ⟨hm, by omega, by omega, by omega, .inl (by omega)⟩

theorem eq_ofParts (h : parts x = .finite negative m q) (hm : 0 < m) :
    x = ofParts negative m q hm := by
  apply eq_of_toNat_toBits
  rw [toNat_toBits_ofParts (canonical_of_parts h hm)]
  have hx : x.toBits.toNat < 2 ^ 64 := x.toBits.toNat_lt
  obtain ⟨hs, hf⟩ := bits_of_parts h
  have hn : negative.toNat = x.toBits.toNat / 2 ^ 63 := by
    by_cases hb : x.toBits.toNat / 2 ^ 63 = 1
    · rw [hs, hb]
      rfl
    · have h0 : x.toBits.toNat / 2 ^ 63 = 0 := by omega
      rw [hs, h0]
      rfl
  rw [hn]
  obtain ⟨h0, rfl, rfl⟩ | ⟨h0, h1, rfl, rfl⟩ := hf
  · rw [if_neg (by omega)]
    omega
  · rw [if_pos (by omega)]
    omega

theorem toNat_implicitBit (f : BitVec 52) : (1#1 ++ f).toNat = 2 ^ 52 + f.toNat := by
  rw [BitVec.toNat_append, ← Nat.shiftLeft_add_eq_or_of_lt f.isLt]
  rfl

theorem unpack_pack_full {s : Sign} (h : Canonical m q) (hf : 2 ^ 52 ≤ m) :
    UnpackedFloat.unpack Format.binary64
      (UnpackedFloat.pack Format.binary64 (.finite s m q h.pos)) = .finite s m q h.pos := by
  have hb : (BitVec.ofNat 11 (q + 1075).toNat).toNat = (q + 1075).toNat := by
    have := h.most
    exact Nat.mod_eq_of_lt (by omega)
  have hones : BitVec.ofNat 11 (q + 1075).toNat ≠ -1#11 := by
    intro he
    have hn := congrArg BitVec.toNat he
    have := h.most
    rw [hb] at hn
    have h2047 : (-1#11).toNat = 2047 := by decide
    omega
  have hzero : BitVec.ofNat 11 (q + 1075).toNat ≠ 0#11 := by
    intro he
    have hn := congrArg BitVec.toNat he
    have := h.least
    rw [hb] at hn
    have h0 : (0#11).toNat = 0 := rfl
    omega
  rw [pack_full h hf, UnpackedFloat.unpack]
  simp only [unpackMantissa_packComponents, unpackExponent_packComponents,
    unpackSign_packComponents, Sign.ofBitVec_toBitVec, if_neg hones, if_neg hzero]
  congr 1
  · rw [toNat_implicitBit, BitVec.toNat_ofNat]
    have := h.small
    omega
  · rw [hb]
    change ((q + 1075).toNat : Int) - (1023 + 52) = q
    have := h.least
    omega

theorem unpack_pack_scant {s : Sign} (h : Canonical m q) (hf : m < 2 ^ 52) :
    UnpackedFloat.unpack Format.binary64
      (UnpackedFloat.pack Format.binary64 (.finite s m q h.pos)) = .finite s m q h.pos := by
  have hq : q = -1074 := h.full.resolve_left (by omega)
  have hm : (BitVec.ofNat 52 m).toNat = m := Nat.mod_eq_of_lt hf
  have hzero : BitVec.ofNat 52 m ≠ 0#52 := by
    intro he
    have hn := congrArg BitVec.toNat he
    have := h.pos
    rw [hm] at hn
    have h0 : (0#52).toNat = 0 := rfl
    omega
  rw [pack_scant h hf, UnpackedFloat.unpack]
  simp only [unpackMantissa_packComponents, unpackExponent_packComponents,
    unpackSign_packComponents, Sign.ofBitVec_toBitVec]
  rw [if_neg (by decide), if_pos trivial, dif_neg hzero]
  congr 1
  rw [hq]
  rfl

theorem unpack_ofParts (h : Canonical m q) :
    (ofParts negative m q h.pos).toModel.unpack = .finite (signOf negative) m q h.pos := by
  by_cases hf : 2 ^ 52 ≤ m
  · exact unpack_pack_full h hf
  · exact unpack_pack_scant h (by omega)

theorem neg_ofParts (h : Canonical m q) : -ofParts false m q h.pos = ofParts true m q h.pos := by
  change Float.ofModel (.pack (ofParts false m q h.pos).toModel.unpack.neg) = _
  rw [unpack_ofParts h]
  rfl

theorem beq_self_ofParts (h : Canonical m q) :
    (ofParts negative m q h.pos == ofParts negative m q h.pos) = true := by
  change UnpackedFloat.beq (ofParts negative m q h.pos).toModel.unpack
    (ofParts negative m q h.pos).toModel.unpack = true
  rw [unpack_ofParts h, UnpackedFloat.beq]
  cases negative <;> simp [signOf, UnpackedFloat.compare]

theorem eq_zero_of_parts (h : parts x = .finite negative 0 q) :
    x = Float.ofBits 0 ∨ x = Float.ofBits (2 ^ 63) := by
  obtain ⟨-, ⟨h0, hm, -⟩ | ⟨-, -, hm, -⟩⟩ := bits_of_parts h
  · have hx : x.toBits.toNat < 2 ^ 64 := x.toBits.toNat_lt
    have hbits : x.toBits.toNat = 0 ∨ x.toBits.toNat = 2 ^ 63 := by omega
    obtain hb | hb := hbits
    · exact .inl (eq_of_toNat_toBits (hb.trans (by decide +kernel)))
    · exact .inr (eq_of_toNat_toBits (hb.trans (by decide +kernel)))
  · omega

theorem zero_beq_of_parts (h : parts x = .finite negative 0 q) : ((0.0 : Float) == x) = true := by
  obtain rfl | rfl := eq_zero_of_parts h <;> decide +kernel

theorem beq_of_zeros {y : Float} {negative' : Bool} {q' : Int} (hx : parts x = .finite negative 0 q)
    (hy : parts y = .finite negative' 0 q') : (x == y) = true := by
  obtain rfl | rfl := eq_zero_of_parts hx <;> obtain rfl | rfl := eq_zero_of_parts hy <;>
    decide +kernel

end FormulaShell.Number
