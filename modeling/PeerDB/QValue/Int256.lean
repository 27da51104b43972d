/-
256-bit integers as the 32 bytes ClickHouse reads (`model/qvalue/avro_converter.go`).

`big.Int.Bytes` gives the absolute value from the highest byte on, without leading zeros; the
bytes are copied from behind into an array of 32.

* `int256_exact` — an integer in range is read back from its bytes, one out of range is cleared
  and counted, and no index is out of bounds.
-/
import PeerDB.QRep.Partition
import PeerDB.QValue.AvroNumeric

namespace QValue

open QRep (Fault)

/-! ### The conversions -/

/-- `big.Int.Bytes`. -/
def bigIntBytes (n : ℤ) : List UInt8 :=
  ((Nat.digits 256 n.natAbs).map UInt8.ofNat).reverse

/-- One turn of the loop: `out[i] = b[len(b)-1-i]`. -/
def copyByte (b : List UInt8) (out : Vector UInt8 32) (i : ℕ) : Except Fault (Vector UInt8 32) :=
  match b[b.length - 1 - i]? with
  | none => .error (.panic "index out of range")
  | some byte => if h : i < 32 then .ok (out.set i byte h) else .error (.panic "index out of range")

def bigIntTo32Bytes (n : ℤ) : Except Fault (Vector UInt8 32) :=
  (List.range (bigIntBytes n).length).foldlM (copyByte (bigIntBytes n)) (.replicate 32 0)

/-- `c.Stat.BigInt256ClearedCount++`. -/
def countCleared : Option NumericStat → Except Fault NumericStat
  | none => .error (.panic "nil pointer dereference")
  | some stat => .ok { stat with bigInt256ClearedCount := stat.bigInt256ClearedCount + 1 }

namespace QValueAvroConverter

variable (c : QValueAvroConverter)

/-- An integer out of range is counted, and NULL or zero is sent for it. -/
def clearInt256 (stat : Option NumericStat) :
    Except Fault (Option (Vector UInt8 32) × Option NumericStat) := do
  let stat ← countCleared stat
  if c.nullable then return (none, some stat)
  return (some (← bigIntTo32Bytes 0), some stat)

def processInt256 (num : ℤ) (stat : Option NumericStat) :
    Except Fault (Option (Vector UInt8 32) × Option NumericStat) := do
  if num < -2 ^ 255 ∨ num > 2 ^ 255 - 1 then c.clearInt256 stat
  else
    let num := if num < 0 then num + 2 ^ 256 else num
    return (some (← bigIntTo32Bytes num), stat)

def processUInt256 (num : ℤ) (stat : Option NumericStat) :
    Except Fault (Option (Vector UInt8 32) × Option NumericStat) := do
  if num < 0 ∨ num ≥ 2 ^ 256 then c.clearInt256 stat
  else return (some (← bigIntTo32Bytes num), stat)

end QValueAvroConverter

/-! ### What ClickHouse reads -/

def readUInt256 (bytes : Vector UInt8 32) : ℤ :=
  (Nat.ofDigits 256 (bytes.toList.map UInt8.toNat) : ℕ)

/-- Two's complement: the highest bit is the sign. -/
def readInt256 (bytes : Vector UInt8 32) : ℤ :=
  if readUInt256 bytes < 2 ^ 255 then readUInt256 bytes else readUInt256 bytes - 2 ^ 256

/-- The loop after `k` turns: the lowest `k` bytes are in place. -/
theorem copyByte_run {l : List UInt8} (hl : l.length ≤ 32) {k : ℕ} (hk : k ≤ l.length) :
    ∃ out : Vector UInt8 32,
      (List.range k).foldlM (copyByte l.reverse) (.replicate 32 0) = .ok out ∧
        out.toList = l.take k ++ List.replicate (32 - k) 0 := by
  induction k with
  | zero => exact ⟨_, rfl, by simp⟩
  | succ k ih =>
    obtain ⟨out, hrun, hout⟩ := ih (by omega)
    have hbyte : l.reverse[l.reverse.length - 1 - k]? = some (l[k]) := by
      rw [List.getElem?_reverse (by simp; omega), List.length_reverse,
        show l.length - 1 - (l.length - 1 - k) = k by omega, List.getElem?_eq_getElem]
    refine ⟨out.set k l[k], ?_, ?_⟩
    · rw [List.range_succ, List.foldlM_append, hrun]
      change copyByte l.reverse out k >>= pure = _
      rw [copyByte, hbyte]
      simp [show k < 32 by omega]
    · have hrest : 32 - k = (32 - (k + 1)) + 1 := by omega
      rw [Vector.toList_set, hout, List.set_append_right _ _ (by simp), List.length_take,
        min_eq_left (by omega), Nat.sub_self, hrest, List.replicate_succ, List.set_cons_zero,
        List.take_succ_eq_append_getElem (by omega), List.append_assoc]
      rfl

/-- Below 2²⁵⁶ the bytes are there, and they are those of the number. -/
theorem bigIntTo32Bytes_ok {n : ℤ} (hn : 0 ≤ n) (hlt : n < 2 ^ 256) :
    ∃ bytes, bigIntTo32Bytes n = .ok bytes ∧ readUInt256 bytes = n := by
  obtain ⟨n, rfl⟩ := Int.eq_ofNat_of_zero_le hn
  have hlength : (Nat.digits 256 n).length ≤ 32 :=
    (Nat.digits_length_le_iff (by decide) n).mpr (by norm_num at hlt ⊢; exact_mod_cast hlt)
  obtain ⟨out, hrun, hout⟩ := copyByte_run
    (l := (Nat.digits 256 n).map UInt8.ofNat) (by simpa using hlength) le_rfl
  refine ⟨out, ?_, ?_⟩
  · rw [bigIntTo32Bytes, bigIntBytes, List.length_reverse]
    exact hrun
  · have hbytes : ((Nat.digits 256 n).map UInt8.ofNat).map UInt8.toNat = Nat.digits 256 n := by
      rw [List.map_map]
      refine (List.map_congr_left fun d hd => ?_).trans (List.map_id _)
      exact UInt8.toNat_ofNat_of_lt (Nat.digits_lt_base (by decide) hd)
    rw [readUInt256, hout, List.take_length, List.map_append, hbytes, List.map_replicate,
      Nat.ofDigits_append, UInt8.toNat_zero, Nat.ofDigits_replicate_zero, mul_zero, add_zero,
      Nat.ofDigits_digits]

/-- The number was taken out: counted, and NULL or zero in its place. -/
def Cleared (c : QValueAvroConverter) (stat : NumericStat)
    (r : Except Fault (Option (Vector UInt8 32) × Option NumericStat)) : Prop :=
  r = .ok (if c.nullable then none else some (.replicate 32 0),
    some { stat with bigInt256ClearedCount := stat.bigInt256ClearedCount + 1 })

theorem clearInt256_cleared (c : QValueAvroConverter) (stat : NumericStat) :
    Cleared c stat (c.clearInt256 (some stat)) := by
  have hzero : bigIntTo32Bytes 0 = .ok (.replicate 32 0) := by
    simp [bigIntTo32Bytes, bigIntBytes]
    rfl
  unfold Cleared QValueAvroConverter.clearInt256
  rw [countCleared, hzero]
  cases c.nullable <;> rfl

/-- **256-bit integers survive the encoding.** -/
theorem int256_exact (c : QValueAvroConverter) (stat : NumericStat) (n : ℤ) :
    (if -2 ^ 255 ≤ n ∧ n < 2 ^ 255 then
        ∃ bytes, c.processInt256 n (some stat) = .ok (some bytes, some stat) ∧
          readInt256 bytes = n
      else Cleared c stat (c.processInt256 n (some stat))) ∧
    (if 0 ≤ n ∧ n < 2 ^ 256 then
        ∃ bytes, c.processUInt256 n (some stat) = .ok (some bytes, some stat) ∧
          readUInt256 bytes = n
      else Cleared c stat (c.processUInt256 n (some stat))) := by
  have hsent {m : ℤ} (hm : 0 ≤ m ∧ m < 2 ^ 256) : ∃ bytes,
      (do return (some (← bigIntTo32Bytes m), some stat) :
        Except Fault (Option (Vector UInt8 32) × Option NumericStat)) =
          .ok (some bytes, some stat) ∧ readUInt256 bytes = m := by
    obtain ⟨bytes, hbytes, hread⟩ := bigIntTo32Bytes_ok hm.1 hm.2
    exact ⟨bytes, by rw [hbytes]; rfl, hread⟩
  constructor <;> split_ifs with hrange
  · rw [QValueAvroConverter.processInt256, if_neg (by omega)]
    -- a negative number is sent as its residue
    split_ifs
    · obtain ⟨bytes, hrun, hread⟩ := hsent (m := n + 2 ^ 256) (by omega)
      exact ⟨bytes, hrun, by rw [readInt256, hread, if_neg (by omega), add_sub_cancel_right]⟩
    · obtain ⟨bytes, hrun, hread⟩ := hsent (m := n) (by omega)
      exact ⟨bytes, hrun, by rw [readInt256, hread, if_pos hrange.2]⟩
  · rw [QValueAvroConverter.processInt256, if_pos (by omega)]
    exact clearInt256_cleared c stat
  · rw [QValueAvroConverter.processUInt256, if_neg (by omega)]
    exact hsent hrange
  · rw [QValueAvroConverter.processUInt256, if_pos (by omega)]
    exact clearInt256_cleared c stat

end QValue
