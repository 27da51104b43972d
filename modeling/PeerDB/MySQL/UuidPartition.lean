/-
Partitions of a column of UUIDs in text form (`buildUuidStringPartitions`).

The least and the greatest value are read as 128-bit numbers and the range between them
is split in uniform steps, but the partitions are compared as strings.  A canonical text
has 32 hexadecimal digits of one case with dashes at fixed places, so that

* `canonical_lt` — texts of one case are in the order of their numbers;
* `exists_canonical` — what the regular expressions accept is such a text;
* `buildUuidStringPartitions_exact` — the partitions have every string between the two
  values once, whether it is a UUID or not.

Parsing and formatting of UUIDs is the work of another package (`UuidPackage`); what its
documentation says of canonical texts is `UuidPackage.Documented`.
-/
import PeerDB.QRep.StringPartition
import PeerDB.QRep.Math
import Mathlib.Data.Nat.Size

open Intervals BigEndian

namespace QRep

open List

/-! ### Canonical texts -/

inductive HexCasing
  | unknown
  | lower
  | upper
deriving DecidableEq

/-- The byte `-`. -/
def dash : Fin 256 := 45

/-- `[0-9a-f]`. -/
def isHexLower (c : Fin 256) : Bool := (48 ≤ c && c ≤ 57) || (97 ≤ c && c ≤ 102)

/-- `[0-9A-F]`. -/
def isHexUpper (c : Fin 256) : Bool := (48 ≤ c && c ≤ 57) || (65 ≤ c && c ≤ 70)

/-- Groups of digits with a dash between them, and nothing after the last. -/
def matchGroups (digit : Fin 256 → Bool) : List ℕ → ByteString → Bool
  | [], s => s.isEmpty
  | [k], s => s.length == k && s.all digit
  | k :: ks, s =>
    (s.take k).length == k && (s.take k).all digit && s[k]? == some dash &&
      matchGroups digit ks (s.drop (k + 1))

def uuidGroups : List ℕ := [8, 4, 4, 4, 12]

def uuidLowerRe (s : ByteString) : Bool := matchGroups isHexLower uuidGroups s

def uuidUpperRe (s : ByteString) : Bool := matchGroups isHexUpper uuidGroups s

def detectUuidWithHexCasing (minVal maxVal : ByteString) : Bool × HexCasing :=
  if uuidLowerRe minVal && uuidLowerRe maxVal then (true, .lower)
  else if uuidUpperRe minVal && uuidUpperRe maxVal then (true, .upper)
  else (false, .unknown)

/-- The byte of a hexadecimal digit. -/
def hexByte (casing : HexCasing) (d : Fin 16) : Fin 256 :=
  if d.val < 10 then Fin.ofNat 256 (48 + d)
  else if casing = .upper then Fin.ofNat 256 (55 + d) else Fin.ofNat 256 (87 + d)

/-- The digits with a dash after each group but the last. -/
def dashed : List ℕ → ByteString → ByteString
  | [], ds => ds
  | [_], ds => ds
  | k :: ks, ds => ds.take k ++ dash :: dashed ks (ds.drop k)

/-- The canonical text of a number of 128 bits. -/
def canonical (casing : HexCasing) (n : ℕ) : ByteString :=
  dashed uuidGroups ((digits 16 32 n).map (hexByte casing))

/-! ### The model -/

structure UUID where
  bytes : List (Fin 256)
  length_eq : bytes.length = 16
deriving DecidableEq

/-- `SetBytes` of the bytes. -/
def UUID.value (u : UUID) : ℕ := BigEndian.value u.bytes

/-- `FillBytes` into 16 bytes. -/
def UUID.fill (n : ℕ) : UUID := ⟨digits 256 16 n, length_digits 16 n⟩

/-- The package that parses and formats UUIDs. -/
structure UuidPackage where
  parse : ByteString → Except String UUID
  string : UUID → ByteString

/-- Formatting gives the canonical text in lower case, and canonical texts of either case
are parsed. -/
structure UuidPackage.Documented (P : UuidPackage) : Prop where
  string_eq : ∀ u, P.string u = canonical .lower u.value
  parse_canonical : ∀ casing u, P.parse (canonical casing u.value) = .ok u

/-- `strings.ToUpper` on ASCII. -/
def toUpper (s : ByteString) : ByteString :=
  s.map fun c => if 97 ≤ c ∧ c ≤ 122 then c - 32 else c

section

variable (P : UuidPackage)

def uuidToBigInt (s : ByteString) : Except String ℤ := do
  let u ← P.parse s
  return u.value

def bigIntToUUID (n : ℤ) (casing : HexCasing) : Except String ByteString :=
  let bitLen := n.natAbs.size
  if bitLen > 128 then .error ("value does not fit in a UUID (" ++ toString bitLen ++ " bits)")
  else
    let s := P.string (UUID.fill n.natAbs)
    .ok (if casing = .upper then toUpper s else s)

/-- The loop, from the start of the next partition and the number of its end. -/
def uuidLoop (maxVal : ByteString) (maxInt step : ℤ) (casing : HexCasing) :
    ℕ → ByteString → ℤ → Except Fault (List (StringPartition ByteString))
  | 0, _, _ => .error .running
  | turns + 1, start, value =>
    if value < maxInt then do
      let stop ← (bigIntToUUID P value casing).mapError fun e =>
        .error ("failed to convert bigint to uuid: " ++ e)
      let partitions ← uuidLoop maxVal maxInt step casing turns stop (value + step)
      return createStringPartition start stop false :: partitions
    else .ok [createStringPartition start maxVal true]

def buildUuidStringPartitions (turns : ℕ) (minVal maxVal : ByteString) (casing : HexCasing)
    (numPartitions : Int64) : Except Fault (List (StringPartition ByteString)) := do
  let minInt ← (uuidToBigInt P minVal).mapError fun e =>
    .error ("failed to convert min uuid to bigint: " ++ e)
  let maxInt ← (uuidToBigInt P maxVal).mapError fun e =>
    .error ("failed to convert max uuid to bigint: " ++ e)
  if minInt > maxInt then
    throw (.error "min uuid greater than max uuid")
  if numPartitions.toInt = 0 then
    throw (.panic "division by zero")
  let step := bigIntDivCeil (maxInt - minInt) numPartitions.toInt
  uuidLoop P maxVal maxInt step casing turns minVal (minInt + step)

end

/-! ### Texts and numbers -/

theorem hexByte_strictMono (casing : HexCasing) : StrictMono (hexByte casing) := by
  intro a b hab
  revert a b
  cases casing <;> decide

theorem dashed_lt {gs : List ℕ} : ∀ {ds es : ByteString}, ds.length = es.length → ds < es →
    dashed gs ds < dashed gs es := by
  induction gs with
  | nil =>
    intro ds es _ h
    exact h
  | cons k ks ih =>
    intro ds es hlen h
    cases ks with
    | nil => exact h
    | cons k' ks =>
      have htake : (ds.take k).length = (es.take k).length := by
        rw [length_take, length_take, hlen]
      have hdrop : (ds.drop k).length = (es.drop k).length := by
        rw [length_drop, length_drop, hlen]
      rw [← take_append_drop k ds, ← take_append_drop k es,
        append_lt_append_iff htake] at h
      show _ ++ _ < _ ++ _
      rw [append_lt_append_iff htake]
      exact h.imp_right fun h => ⟨h.1, List.Lex.cons (ih hdrop h.2)⟩

/-- **Texts of one case are in the order of their numbers.** -/
theorem canonical_lt (casing : HexCasing) {m n : ℕ} (hmn : m < n) (hn : n < 16 ^ 32) :
    canonical casing m < canonical casing n := by
  have hlen : (digits 16 32 m).length = (digits 16 32 n).length := by
    rw [length_digits, length_digits]
  have hdigits : digits 16 32 m < digits 16 32 n := by
    rw [← value_lt_iff hlen, value_digits (hmn.trans hn), value_digits hn]
    exact hmn
  refine dashed_lt ?_ (map_lt_map (hexByte_strictMono casing) hdigits)
  rw [length_map, length_map, hlen]

/-- The digits of the two regular expressions. -/
def HexCasing.digit : HexCasing → Fin 256 → Bool
  | .upper => isHexUpper
  | _ => isHexLower

theorem exists_hexByte (casing : HexCasing) (c : Fin 256) (hc : casing.digit c = true) :
    ∃ d, hexByte casing d = c := by
  revert c
  cases casing <;> decide +kernel

theorem exists_digits {casing : HexCasing} : ∀ {s : ByteString}, s.all casing.digit = true →
    ∃ ds : List (Fin 16), ds.map (hexByte casing) = s := by
  intro s
  induction s with
  | nil =>
    intro _
    exact ⟨[], rfl⟩
  | cons c s ih =>
    intro h
    rw [all_cons, Bool.and_eq_true] at h
    obtain ⟨d, rfl⟩ := exists_hexByte casing c h.1
    obtain ⟨ds, rfl⟩ := ih h.2
    exact ⟨d :: ds, rfl⟩

theorem exists_dashed {casing : HexCasing} : ∀ {gs : List ℕ} {s : ByteString}, gs ≠ [] →
    matchGroups casing.digit gs s = true →
    ∃ ds : List (Fin 16), ds.length = gs.sum ∧ dashed gs (ds.map (hexByte casing)) = s := by
  intro gs
  induction gs with
  | nil =>
    intro s hne
    exact absurd rfl hne
  | cons k ks ih =>
    intro s _ h
    cases ks with
    | nil =>
      rw [matchGroups, Bool.and_eq_true, beq_iff_eq] at h
      obtain ⟨ds, rfl⟩ := exists_digits h.2
      refine ⟨ds, ?_, rfl⟩
      rw [← h.1, length_map, sum_singleton]
    | cons k' ks =>
      change ((s.take k).length == k && (s.take k).all casing.digit && s[k]? == some dash &&
        matchGroups casing.digit (k' :: ks) (s.drop (k + 1))) = true at h
      simp only [Bool.and_eq_true, beq_iff_eq] at h
      obtain ⟨⟨⟨hlen, hall⟩, hdash⟩, hrest⟩ := h
      obtain ⟨ds, hds⟩ := exists_digits hall
      obtain ⟨es, hes, hes'⟩ := ih (cons_ne_nil _ _) hrest
      have hk : (ds.map (hexByte casing)).length = k := by rw [hds, hlen]
      obtain ⟨hin, hget⟩ := List.getElem?_eq_some_iff.mp hdash
      have hdrop : s.drop k = dash :: s.drop (k + 1) := by
        rw [drop_eq_getElem_cons hin, hget]
      refine ⟨ds ++ es, ?_, ?_⟩
      · rw [length_append, hes, sum_cons (a := k), ← hk, length_map]
      · rw [map_append]
        show List.take k _ ++ dash :: dashed (k' :: ks) (List.drop k _) = s
        rw [take_left' hk, drop_left' hk, hes', hds, ← hdrop, take_append_drop]

/-- **What the regular expressions accept is a canonical text.** -/
theorem exists_canonical (casing : HexCasing) {s : ByteString}
    (h : matchGroups casing.digit uuidGroups s = true) :
    ∃ n < 16 ^ 32, canonical casing n = s := by
  obtain ⟨ds, hlen, rfl⟩ := exists_dashed (show uuidGroups ≠ [] by decide) h
  have hlen : ds.length = 32 := hlen
  refine ⟨BigEndian.value ds, hlen ▸ value_lt ds, ?_⟩
  rw [canonical, ← hlen, digits_value]

theorem detectUuid_canonical {minVal maxVal : ByteString} {casing : HexCasing}
    (h : detectUuidWithHexCasing minVal maxVal = (true, casing)) :
    ∃ a < 16 ^ 32, ∃ b < 16 ^ 32, canonical casing a = minVal ∧ canonical casing b = maxVal := by
  rw [detectUuidWithHexCasing] at h
  split_ifs at h with hlower hupper
  · rw [Bool.and_eq_true] at hlower
    obtain ⟨-, rfl⟩ := Prod.mk.inj h
    obtain ⟨a, ha, hmin⟩ := exists_canonical .lower hlower.1
    obtain ⟨b, hb, hmax⟩ := exists_canonical .lower hlower.2
    exact ⟨a, ha, b, hb, hmin, hmax⟩
  · rw [Bool.and_eq_true] at hupper
    obtain ⟨-, rfl⟩ := Prod.mk.inj h
    obtain ⟨a, ha, hmin⟩ := exists_canonical .upper hupper.1
    obtain ⟨b, hb, hmax⟩ := exists_canonical .upper hupper.2
    exact ⟨a, ha, b, hb, hmin, hmax⟩
  · cases (Prod.mk.inj h).1

/-! ### Conversions -/

theorem dashed_map {f : Fin 256 → Fin 256} (hf : f dash = dash) :
    ∀ (gs : List ℕ) (ds : ByteString), (dashed gs ds).map f = dashed gs (ds.map f) := by
  intro gs
  induction gs with
  | nil =>
    intro ds
    rfl
  | cons k ks ih =>
    intro ds
    cases ks with
    | nil => rfl
    | cons k' ks =>
      show (List.take k ds ++ dash :: dashed (k' :: ks) (List.drop k ds)).map f = _
      rw [map_append, map_cons, ih, hf, map_take, map_drop]
      rfl

theorem toUpper_canonical (n : ℕ) : toUpper (canonical .lower n) = canonical .upper n := by
  have hdigit : ∀ d : Fin 16, (if 97 ≤ hexByte .lower d ∧ hexByte .lower d ≤ 122
      then hexByte .lower d - 32 else hexByte .lower d) = hexByte .upper d := by decide
  rw [toUpper, canonical, dashed_map (by decide), map_map, canonical]
  congr 1
  exact map_congr_left fun d _ => hdigit d

theorem fill_value {n : ℕ} (hn : n < 16 ^ 32) : (UUID.fill n).value = n :=
  value_digits (by rwa [show (256 : ℕ) ^ 16 = 16 ^ 32 from rfl])

section

variable {P : UuidPackage} (hP : P.Documented) {n : ℕ} (hn : n < 16 ^ 32)
include hP hn

theorem uuidToBigInt_canonical (casing : HexCasing) :
    uuidToBigInt P (canonical casing n) = .ok (n : ℤ) := by
  have hparse := hP.parse_canonical casing (UUID.fill n)
  rw [fill_value hn] at hparse
  rw [uuidToBigInt, hparse]
  show Except.ok ((UUID.fill n).value : ℤ) = _
  rw [fill_value hn]

theorem bigIntToUUID_canonical (casing : HexCasing) :
    bigIntToUUID P n casing = .ok (canonical casing n) := by
  have hsize : ¬ n.size > 128 := by
    rw [not_lt, Nat.size_le, show (2 : ℕ) ^ 128 = 16 ^ 32 from rfl]
    exact hn
  rw [bigIntToUUID, Int.natAbs_natCast, if_neg hsize, hP.string_eq, fill_value hn]
  cases casing with
  | unknown => rfl
  | lower => rfl
  | upper => exact congrArg Except.ok (toUpper_canonical n)

end

/-! ### The partitions -/

/-- Ranges of numbers as partitions of texts. -/
def textPartitions (casing : HexCasing) (rs : List (ℕ × ℕ)) : List (StringPartition ByteString) :=
  (lastClosed (rs.map fun r => (canonical casing r.1, canonical casing r.2))).map
    fun p => createStringPartition p.1.1 p.1.2 p.2

theorem textPartitions_cons (casing : HexCasing) (r : ℕ × ℕ) {rs : List (ℕ × ℕ)} (hne : rs ≠ []) :
    textPartitions casing (r :: rs) =
      createStringPartition (canonical casing r.1) (canonical casing r.2) false ::
        textPartitions casing rs := by
  rw [textPartitions, map_cons, lastClosed_cons _ (by simpa using hne)]
  rfl

/-- If `m` steps reach the end, the loop leaves after at most `m` turns. -/
theorem uuidLoop_splits {P : UuidPackage} (hP : P.Documented) (casing : HexCasing) {b step : ℕ}
    (hb : b < 16 ^ 32) : ∀ {m a : ℕ}, 1 ≤ m → a ≤ b → b - a ≤ m * step →
      ∃ rs : List (ℕ × ℕ), (∀ turns, m ≤ turns →
          uuidLoop P (canonical casing b) b step casing turns (canonical casing a)
            ((a : ℤ) + step) = .ok (textPartitions casing rs)) ∧
        Joined a b rs ∧ (∀ r ∈ rs, r.1 ≤ r.2) ∧ (a < b → ∀ r ∈ rs, r.1 < r.2) ∧
        (∀ r ∈ rs, r.2 ≤ b) ∧ rs.length ≤ m := by
  intro m
  induction m with
  | zero =>
    intro a hm
    omega
  | succ m ih =>
    intro a _ hle hreach
    rcases le_or_gt b (a + step) with hlast | hmore
    · -- the last partition
      refine ⟨[(a, b)], ?_, .last a b, by simpa using hle, by simp, by simp, by simp⟩
      intro turns hturns
      obtain ⟨turns, rfl⟩ : ∃ t, turns = t + 1 := ⟨turns - 1, by omega⟩
      rw [uuidLoop, if_neg (by omega)]
      rfl
    · have hstep : 1 ≤ step := by
        rcases Nat.eq_zero_or_pos step with rfl | hpos
        · omega
        · exact hpos
      have hrest : b - (a + step) ≤ m * step := by
        rw [Nat.add_mul, one_mul] at hreach
        omega
      have hm : 1 ≤ m := by
        rcases Nat.eq_zero_or_pos m with rfl | hpos
        · omega
        · exact hpos
      obtain ⟨rs, hrun, hjoined, hrs, hlt, hbound, hlen⟩ := ih hm hmore.le hrest
      refine ⟨(a, a + step) :: rs, ?_, .cons a hjoined, ?_, ?_, ?_, ?_⟩
      · intro turns hturns
        obtain ⟨turns, rfl⟩ : ∃ t, turns = t + 1 := ⟨turns - 1, by omega⟩
        have hstop := bigIntToUUID_canonical hP (hmore.trans hb) casing
        rw [Nat.cast_add] at hstop
        rw [uuidLoop, if_pos (by omega), hstop, textPartitions_cons _ _ hjoined.ne_nil]
        show (uuidLoop P _ _ _ _ turns _ _ >>= _) = _
        have hcall := hrun turns (by omega)
        rw [Nat.cast_add] at hcall
        rw [hcall]
        rfl
      · intro r hr
        rcases mem_cons.mp hr with rfl | hr
        · exact Nat.le_add_right a step
        · exact hrs r hr
      · intro _ r hr
        rcases mem_cons.mp hr with rfl | hr
        · exact Nat.lt_add_of_pos_right hstep
        · exact hlt hmore r hr
      · intro r hr
        rcases mem_cons.mp hr with rfl | hr
        · exact hmore.le
        · exact hbound r hr
      · rw [length_cons]
        omega

/-- **UUID partitions have every string once.**  Between two canonical texts of one case
there are at most as many partitions as asked for; they lead from the least to the
greatest value, each starts where the one before it ends, and they have every string in
between, a UUID or not. -/
theorem buildUuidStringPartitions_exact {P : UuidPackage} (hP : P.Documented)
    {minVal maxVal : ByteString} {casing : HexCasing}
    (hdetect : detectUuidWithHexCasing minVal maxVal = (true, casing)) (hle : minVal ≤ maxVal)
    {numPartitions : Int64} (hn : 1 ≤ numPartitions.toInt) :
    ∃ parts, (∀ turns : ℕ, numPartitions.toInt ≤ turns →
        buildUuidStringPartitions P turns minVal maxVal casing numPartitions = .ok parts) ∧
      parts.length ≤ numPartitions.toInt ∧ StringCover minVal maxVal parts := by
  obtain ⟨a, ha, b, hb, rfl, rfl⟩ := detectUuid_canonical hdetect
  have hab : a ≤ b := by
    by_contra hlt
    exact absurd (canonical_lt casing (not_le.mp hlt) ha) (not_lt.mpr hle)
  obtain ⟨hstep, hreach⟩ := bigIntDivCeil_reaches (d := (b : ℤ) - a) (by omega) hn
  obtain ⟨step, hstep⟩ := Int.eq_ofNat_of_zero_le hstep
  obtain ⟨m, hm⟩ := Int.eq_ofNat_of_zero_le (by omega : 0 ≤ numPartitions.toInt)
  rw [hstep, hm, ← Nat.cast_mul] at hreach
  have hsteps : b - a ≤ m * step := by omega
  obtain ⟨rs, hrun, hjoined, hrs, hlt, hbound, hlen⟩ :=
    uuidLoop_splits hP casing hb (show 1 ≤ m by omega) hab hsteps
  refine ⟨textPartitions casing rs, ?_, ?_, ?_⟩
  · intro turns hturns
    have horder : ¬ (a : ℤ) > b := by omega
    have hzero : numPartitions.toInt ≠ 0 := by omega
    rw [buildUuidStringPartitions, uuidToBigInt_canonical hP ha, uuidToBigInt_canonical hP hb]
    show (if (a : ℤ) > b then _ else _) = _
    rw [if_neg horder]
    show (if numPartitions.toInt = 0 then _ else _) = _
    rw [if_neg hzero]
    show uuidLoop P _ _ (bigIntDivCeil _ _) _ _ _ (_ + bigIntDivCeil _ _) = _
    rw [hstep]
    exact hrun turns (by omega)
  · rw [textPartitions, length_map, lastClosed, length_mapIdx, length_map, hm]
    exact_mod_cast hlen
  · -- texts are in the order of the numbers, so the ranges stay in order
    have hmono : ∀ r ∈ rs, r.1 < r.2 → canonical casing r.1 < canonical casing r.2 :=
      fun r hr hrlt => canonical_lt casing hrlt ((hbound r hr).trans_lt hb)
    refine covers_of_joined (hjoined.map (canonical casing)) ?_ ?_
    · refine forall_mem_map.mpr fun r hr => ?_
      rcases (hrs r hr).lt_or_eq with hrlt | hreq
      · exact (hmono r hr hrlt).le
      · rw [hreq]
    · intro hlohi
      have hlohi' : a < b := by
        rcases hab.lt_or_eq with hlt | rfl
        · exact hlt
        · exact absurd hlohi (lt_irrefl _)
      exact forall_mem_map.mpr fun r hr => hmono r hr (hlt hlohi' r hr)

/-! ### A package as documented -/

/-- The digit of a byte, of either case. -/
def hexVal (c : Fin 256) : Fin 16 :=
  if c ≤ 57 then Fin.ofNat 16 (c - 48) else if c ≤ 70 then Fin.ofNat 16 (c - 55)
  else Fin.ofNat 16 (c - 87)

/-- Reads the digits between the dashes. -/
def hexPackage : UuidPackage where
  parse s :=
    let ds := (s.filter fun c => c != dash).map hexVal
    if ds.length = 32 then .ok (UUID.fill (BigEndian.value ds))
    else .error ("invalid UUID length: " ++ toString s.length)
  string u := canonical .lower u.value

theorem filter_dashed {ds : ByteString} (hds : ∀ c ∈ ds, (c != dash) = true) :
    ∀ gs : List ℕ, (dashed gs ds).filter (fun c => c != dash) = ds := by
  intro gs
  induction gs generalizing ds with
  | nil => exact filter_eq_self.mpr hds
  | cons k ks ih =>
    cases ks with
    | nil => exact filter_eq_self.mpr hds
    | cons k' ks =>
      show (ds.take k ++ dash :: dashed (k' :: ks) (ds.drop k)).filter _ = _
      rw [filter_append, filter_cons_of_neg (by decide),
        ih fun c hc => hds c (mem_of_mem_drop hc),
        filter_eq_self.mpr fun c hc => hds c (mem_of_mem_take hc),
        take_append_drop]

theorem hexPackage_documented : hexPackage.Documented where
  string_eq _ := rfl
  parse_canonical casing u := by
    have hbyte : ∀ d : Fin 16,
        (hexByte casing d != dash) = true ∧ hexVal (hexByte casing d) = d := by
      cases casing <;> decide
    have hread : ((canonical casing u.value).filter fun c => c != dash).map hexVal =
        digits 16 32 u.value := by
      rw [canonical, filter_dashed (forall_mem_map.mpr fun d _ => (hbyte d).1), map_map]
      refine Eq.trans ?_ (map_id _)
      exact map_congr_left fun d _ => (hbyte d).2
    have hvalue : u.value < 16 ^ 32 := by
      have hlt := value_lt u.bytes
      rwa [u.length_eq, show (256 : ℕ) ^ 16 = 16 ^ 32 from rfl] at hlt
    have hfill : UUID.fill u.value = u := by
      obtain ⟨bytes, hlen⟩ := u
      rw [UUID.mk.injEq]
      show digits 256 16 (BigEndian.value bytes) = bytes
      rw [← hlen, digits_value]
    show (if (List.map hexVal _).length = 32 then _ else _) = _
    rw [hread, if_pos (length_digits 32 _), value_digits hvalue, hfill]

/-- The bytes of an ASCII text. -/
def ascii (s : String) : ByteString := s.toList.map fun c => Fin.ofNat 256 c.toNat

theorem buildUuidStringPartitions_upper :
    ∃ parts, buildUuidStringPartitions hexPackage 7
        (ascii "0000000A-0000-0000-0000-000000000000")
        (ascii "FFFFFFFF-FFFF-4FFF-8FFF-FFFFFFFFFFFF") .upper 7 = .ok parts ∧
      parts.length ≤ (7 : ℤ) ∧
      StringCover (ascii "0000000A-0000-0000-0000-000000000000")
        (ascii "FFFFFFFF-FFFF-4FFF-8FFF-FFFFFFFFFFFF") parts := by
  obtain ⟨parts, hrun, hcount, hcover⟩ := buildUuidStringPartitions_exact hexPackage_documented
    (show detectUuidWithHexCasing (ascii "0000000A-0000-0000-0000-000000000000")
      (ascii "FFFFFFFF-FFFF-4FFF-8FFF-FFFFFFFFFFFF") = (true, .upper) by decide +kernel)
    (by decide +kernel) (show 1 ≤ (7 : Int64).toInt by decide)
  exact ⟨parts, hrun 7 (by decide), hcount, hcover⟩

end QRep
