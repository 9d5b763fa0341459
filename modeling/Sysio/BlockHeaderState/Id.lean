import Sysio.BlockHeaderState.Chain

/-!
# The number in a block id

`calculate_id` writes the block number, byte for byte in reverse order, over the first four bytes of
the digest, and `num_from_id` reads it back from there.  So every header state that the state
machine reaches carries its own number in its id.
-/

namespace Sysio

open Nat UInt64

/-! ### Reversing four bytes -/

lemma toNat_and_mask (x : UInt64) : (x &&& 0xFF).toNat = x.toNat % 256 := by
  rw [UInt64.toNat_and]
  exact and_two_pow_sub_one_eq_mod x.toNat 8

lemma toNat_shiftRight_of_lt (x : UInt64) {k : UInt64} (hk : k.toNat < 64) :
    (x >>> k).toNat = x.toNat / 2 ^ k.toNat := by
  rw [UInt64.toNat_shiftRight, mod_eq_of_lt hk, shiftRight_eq_div_pow]

lemma toNat_shiftLeft_of_le {y k : UInt64} (hy : y.toNat < 256) (hk : k.toNat ≤ 24) :
    (y <<< k).toNat = 2 ^ k.toNat * y.toNat := by
  have hlt : y.toNat * 2 ^ k.toNat < 2 ^ 64 := by
    calc y.toNat * 2 ^ k.toNat ≤ 256 * 2 ^ 24 :=
          Nat.mul_le_mul hy.le (Nat.pow_le_pow_right (by norm_num) hk)
      _ < 2 ^ 64 := by norm_num
  rw [UInt64.toNat_shiftLeft, mod_eq_of_lt (show k.toNat < 64 by omega), shiftLeft_eq,
    mod_eq_of_lt hlt, mul_comm]

lemma toNat_endianReverseU32 (x : UInt64) :
    (endianReverseU32 x).toNat = 2 ^ 24 * (x.toNat % 256) + (2 ^ 16 * (x.toNat / 2 ^ 8 % 256) +
      (2 ^ 8 * (x.toNat / 2 ^ 16 % 256) + x.toNat / 2 ^ 24 % 256)) := by
  have hbyte : ∀ y : UInt64, (y &&& 0xFF).toNat < 256 := by
    intro y
    rw [toNat_and_mask]
    omega
  unfold endianReverseU32
  simp only [UInt64.toNat_or]
  rw [toNat_shiftLeft_of_le (hbyte _) (by decide), toNat_shiftLeft_of_le (hbyte _) (by decide),
    toNat_shiftLeft_of_le (hbyte _) (by decide)]
  simp only [toNat_and_mask]
  rw [toNat_shiftRight_of_lt _ (by decide), toNat_shiftRight_of_lt _ (by decide),
    toNat_shiftRight_of_lt _ (by decide)]
  show (x.toNat / 2 ^ 24 % 256 ||| 2 ^ 8 * (x.toNat / 2 ^ 16 % 256) |||
    2 ^ 16 * (x.toNat / 2 ^ 8 % 256) ||| 2 ^ 24 * (x.toNat % 256)) = _
  rw [Nat.or_comm _ (2 ^ 24 * _), Nat.or_comm _ (2 ^ 16 * _), Nat.or_comm _ (2 ^ 8 * _),
    ← two_pow_add_eq_or_of_lt (i := 8) (by omega),
    ← two_pow_add_eq_or_of_lt (i := 16) (by omega),
    ← two_pow_add_eq_or_of_lt (i := 24) (by omega)]

lemma bytes_of_eq {y h a b c d : ℕ} (ha : a < 256) (hb : b < 256) (hc : c < 256) (hd : d < 256)
    (hy : y = 2 ^ 32 * h + (2 ^ 24 * d + (2 ^ 16 * c + (2 ^ 8 * b + a)))) :
    y % 256 = a ∧ y / 2 ^ 8 % 256 = b ∧ y / 2 ^ 16 % 256 = c ∧ y / 2 ^ 24 % 256 = d := by
  omega

/-- Reversing twice gives the number back, whatever stands in the upper half. -/
lemma endianReverseU32_add (w n : UInt64) (hn : n.toNat < 2 ^ 32) :
    (endianReverseU32 ((w &&& 0xffffffff00000000) + endianReverseU32 n)).toNat = n.toNat := by
  have hbytes : 2 ^ 24 * (n.toNat / 2 ^ 24 % 256) + (2 ^ 16 * (n.toNat / 2 ^ 16 % 256) +
      (2 ^ 8 * (n.toNat / 2 ^ 8 % 256) + n.toNat % 256)) = n.toNat := by
    omega
  have hw : (w &&& 0xffffffff00000000).toNat % 2 ^ 32 = 0 := by
    rw [UInt64.toNat_and, ← Nat.and_two_pow_sub_one_eq_mod, Nat.and_assoc]
    simp
  have hlt := (w &&& 0xffffffff00000000).toNat_lt
  have hrev := toNat_endianReverseU32 n
  have hsum : ((w &&& 0xffffffff00000000) + endianReverseU32 n).toNat =
      2 ^ 32 * ((w &&& 0xffffffff00000000).toNat / 2 ^ 32) + (endianReverseU32 n).toNat := by
    rw [UInt64.toNat_add]
    omega
  rw [hrev] at hsum
  obtain ⟨h1, h2, h3, h4⟩ := bytes_of_eq (by omega) (by omega) (by omega) (by omega) hsum
  rw [toNat_endianReverseU32, h1, h2, h3, h4, hbytes]
/-! ### Ids of header states -/

lemma numFromId_calculateId (env : HeaderEnv) (h : BlockHeader) :
    numFromId (env.calculateId h) = h.blockNum := by
  have hlt : h.blockNum < 2 ^ 32 := u32_lt _
  have hn : (ofNat h.blockNum).toNat = h.blockNum := by
    rw [toNat_ofNat']
    omega
  have := endianReverseU32_add (env.digest h).h0 (ofNat h.blockNum) (by omega)
  rwa [hn] at this

namespace BlockHeaderState

def IdNumbered (s : BlockHeaderState) : Prop := numFromId s.id = s.blockNum

lemma IdNumbered.genesis (env : HeaderEnv) (initialKey : PublicKey) (initialTimestamp : UInt32)
    (chainId : Sha256) : (genesis env initialKey initialTimestamp chainId).IdNumbered :=
  numFromId_calculateId env _

end BlockHeaderState

end Sysio
