/-
Numbers on their way to a warehouse (`model/qvalue/avro_converter.go`, `truncateNumerics` of
`connectors/utils/stream.go`).

A number that does not fit the destination column is cleared and one with too many decimals is
cut.  An initial load does so while it converts to Avro, CDC before it writes the raw table.

* `truncateNumeric_exact` — what is accepted, returned and counted;
* `numeric_delivery_agrees_iff` — both paths deliver the same value, unless the column is
  nullable and the number does not fit: then the initial load delivers NULL and CDC zero.

`decimal.Decimal` is a parameter with its documented operations, and so is the digit counter.  A
pointer to a value, the form of a nullable Avro field, stands for the value; sizes are left out.
-/
import Mathlib.Data.Nat.Digits.Lemmas
import Mathlib.Data.Rat.Floor
import Mathlib.Tactic.FieldSimp
import PeerDB.QValue.NumericType

namespace QValue

/-! ### Decimals -/

/-- The integer part of a number. -/
def towardZero (q : ℚ) : ℤ :=
  if 0 ≤ q then ⌊q⌋ else ⌈q⌉

theorem abs_towardZero (q : ℚ) : |towardZero q| = ⌊|q|⌋ := by
  rw [towardZero]
  split_ifs with h
  · rw [abs_of_nonneg h, abs_of_nonneg (Int.floor_nonneg.mpr h)]
  · have hneg := not_le.mp h
    rw [abs_of_neg hneg, Int.floor_neg, abs_of_nonpos (Int.ceil_le.mpr (by simpa using hneg.le))]

theorem abs_towardZero_lt {q : ℚ} {n : ℤ} : |towardZero q| < n ↔ |q| < n := by
  rw [abs_towardZero, Int.floor_lt]

theorem towardZero_intCast (n : ℤ) : towardZero n = n := by
  simp [towardZero]

structure Decimal where
  coefficient : ℤ
  exponent : Int32

def Decimal.value (d : Decimal) : ℚ :=
  d.coefficient * 10 ^ d.exponent.toInt

def Decimal.zero : Decimal := ⟨0, 1⟩

theorem Decimal.value_zero : Decimal.zero.value = 0 := by
  simp [Decimal.zero, Decimal.value]

/-- The operations of the package `decimal`; its `Rat` is `Decimal.value`. -/
structure DecimalPackage where
  bigInt : Decimal → ℤ
  truncate : Decimal → ℤ → Decimal
  string : Decimal → String

/-- Their documentation: `BigInt` is the integer component, and `Truncate` cuts off digits
without rounding. -/
structure DecimalPackage.Documented (pkg : DecimalPackage) : Prop where
  bigInt_eq : ∀ d, pkg.bigInt d = towardZero d.value
  truncate_value : ∀ d (places : ℕ),
    (pkg.truncate d places).value = towardZero (d.value * 10 ^ places) / 10 ^ places

/-- The digit counter is exact. -/
def ExactCount (countDigits : ℤ → ℤ) : Prop :=
  ∀ n, n ≠ 0 → countDigits n = (Nat.digits 10 n.natAbs).length

/-! ### Truncation -/

/-- `NumericStat`, without the names for its warnings. -/
structure NumericStat where
  truncatedCount : UInt64 := 0
  maxExponent : Int32 := 0
  longIntegersClearedCount : UInt64 := 0
  maxIntegerDigits : Int32 := 0
  bigInt256ClearedCount : UInt64 := 0
deriving DecidableEq

namespace NumericStat

variable (stat : NumericStat)

def cleared (digits : ℤ) : NumericStat :=
  { stat with
    longIntegersClearedCount := stat.longIntegersClearedCount + 1
    maxIntegerDigits := max (.ofInt digits) stat.maxIntegerDigits }

def truncated (exponent : Int32) : NumericStat :=
  { stat with
    truncatedCount := stat.truncatedCount + 1
    maxExponent := max (-exponent) stat.maxExponent }

end NumericStat

/-- The number, its integer digits and whether it was accepted; with the statistics after it. -/
structure Truncated where
  num : Decimal
  intDigits : ℤ
  ok : Bool
  stat : Option NumericStat

section

variable (pkg : DecimalPackage) (countDigits : ℤ → ℤ)

/-- The digits of the integer part; zero has none. -/
def integerDigits (num : Decimal) : ℤ :=
  if pkg.bigInt num = 0 then 0 else countDigits (pkg.bigInt num)

def truncateNumeric (num : Decimal) (targetPrecision targetScale : ℤ) (targetDWH : DBType)
    (stat : Option NumericStat) : Truncated :=
  if targetDWH = .other then ⟨num, 0, true, stat⟩
  else
    let bidigi := integerDigits pkg countDigits num
    if bidigi + targetScale > targetPrecision then ⟨.zero, 0, false, stat.map (·.cleared bidigi)⟩
    else if num.exponent.toInt < -targetScale then
      ⟨pkg.truncate num targetScale, bidigi, true, stat.map (·.truncated num.exponent)⟩
    else ⟨num, bidigi, true, stat⟩

/-- The number has a value in `Decimal(P, S)` once it is cut. -/
def Fits (P S : ℤ) (q : ℚ) : Prop :=
  S ≤ P ∧ |towardZero q| < 10 ^ (P - S).toNat

variable {pkg countDigits} (hpkg : pkg.Documented) (hcount : ExactCount countDigits)

include hpkg hcount

theorem integerDigits_le_iff (num : Decimal) (P S : ℤ) :
    integerDigits pkg countDigits num + S ≤ P ↔ Fits P S num.value := by
  rw [integerDigits, Fits, ← hpkg.bigInt_eq]
  split_ifs with hzero
  · simp [hzero]
  · have hpos : 0 < (Nat.digits 10 (pkg.bigInt num).natAbs).length := by
      simpa [Nat.digits_eq_nil_iff_eq_zero, List.length_pos_iff] using hzero
    have hlength := Nat.digits_length_le_iff (k := (P - S).toNat) (by decide : 1 < 10)
      (pkg.bigInt num).natAbs
    rw [hcount _ hzero, Int.abs_eq_natAbs, show (10 : ℤ) = ((10 : ℕ) : ℤ) from rfl,
      ← Nat.cast_pow, Nat.cast_lt, ← hlength]
    omega

/-- A number that does not fit is cleared, and one with too many decimals is cut. -/
theorem truncateNumeric_eq {dwh : DBType} (hdwh : dwh ≠ .other) (num : Decimal) (P S : ℤ)
    (stat : Option NumericStat) [Decidable (Fits P S num.value)] :
    truncateNumeric pkg countDigits num P S dwh stat =
      if Fits P S num.value then
        if num.exponent.toInt < -S then
          ⟨pkg.truncate num S, integerDigits pkg countDigits num, true,
            stat.map (·.truncated num.exponent)⟩
        else ⟨num, integerDigits pkg countDigits num, true, stat⟩
      else ⟨.zero, 0, false, stat.map (·.cleared (integerDigits pkg countDigits num))⟩ := by
  have hfits := integerDigits_le_iff hpkg hcount num P S
  rw [truncateNumeric, if_neg hdwh]
  by_cases hlong : integerDigits pkg countDigits num + S > P
  · rw [if_pos hlong, if_neg fun h => absurd (hfits.mpr h) (not_le.mpr hlong)]
  · rw [if_neg hlong, if_pos (hfits.mp (not_lt.mp hlong))]

omit hpkg hcount in
/-- A number without too many decimals is a whole number of units. -/
theorem scaled_eq_intCast {num : Decimal} {S : ℕ} (h : -(S : ℤ) ≤ num.exponent.toInt) :
    ∃ m : ℤ, num.value * 10 ^ S = m := by
  obtain ⟨k, hk⟩ := Int.eq_ofNat_of_zero_le (show 0 ≤ num.exponent.toInt + S by omega)
  refine ⟨num.coefficient * 10 ^ k, ?_⟩
  rw [Decimal.value, mul_assoc, ← zpow_natCast, ← zpow_add₀ (by norm_num), hk]
  push_cast
  rw [zpow_natCast]

/-- **Truncation is exact.** -/
theorem truncateNumeric_exact {P S : ℤ} (hS : 0 ≤ S) (hSP : S ≤ P) {dwh : DBType}
    (hdwh : dwh ≠ .other) (num : Decimal) (stat : Option NumericStat) :
    let r := truncateNumeric pkg countDigits num P S dwh stat
    (r.ok = true ↔ |towardZero num.value| < 10 ^ (P - S).toNat) ∧
      (r.ok = true → ∃ m : ℤ, m = towardZero (num.value * 10 ^ S.toNat) ∧
        r.num.value = m / 10 ^ S.toNat ∧ |m| < 10 ^ P.toNat) ∧
      (r.ok = false → r.stat = stat.map (·.cleared (integerDigits pkg countDigits num))) ∧
      (r.ok = true → r.num.value ≠ num.value →
        r.stat = stat.map (·.truncated num.exponent)) := by
  classical
  obtain ⟨S, rfl⟩ := Int.eq_ofNat_of_zero_le hS
  have hfits : Fits P S num.value ↔ |towardZero num.value| < 10 ^ (P - S).toNat :=
    ⟨fun h => h.2, fun h => ⟨hSP, h⟩⟩
  -- the units of an accepted number
  have hunits (h : Fits P S num.value) : |towardZero (num.value * 10 ^ S)| < 10 ^ P.toNat := by
    have hlt : |num.value| < ((10 ^ (P - S).toNat : ℤ) : ℚ) := abs_towardZero_lt.mp h.2
    have hpow : (10 : ℚ) ^ P.toNat = 10 ^ (P - S).toNat * 10 ^ S := by
      rw [← pow_add]
      congr 1
      omega
    refine abs_towardZero_lt.mpr ?_
    push_cast at hlt ⊢
    rw [hpow, abs_mul, abs_of_pos (by positivity : (0 : ℚ) < 10 ^ S)]
    exact mul_lt_mul_of_pos_right hlt (by positivity)
  simp only [truncateNumeric_eq hpkg hcount hdwh, Int.toNat_natCast, ← hfits]
  split_ifs with h hexp
  · exact ⟨by simpa using h, fun _ => ⟨_, rfl, hpkg.truncate_value num S, hunits h⟩, nofun,
      fun _ _ => rfl⟩
  · obtain ⟨m, hm⟩ := scaled_eq_intCast (not_lt.mp hexp)
    refine ⟨by simpa using h, fun _ => ⟨_, rfl, ?_, hunits h⟩, nofun, fun _ hne => absurd rfl hne⟩
    rw [hm, towardZero_intCast, ← hm]
    field_simp
  · exact ⟨by simpa using h, nofun, fun _ => rfl, nofun⟩

end

/-- Numbers in units of a power of ten, cut. -/
def Decimal.units (d : Decimal) (places : ℤ) : ℤ :=
  if 0 ≤ d.exponent.toInt + places then d.coefficient * 10 ^ (d.exponent.toInt + places).toNat
  else d.coefficient.tdiv (10 ^ (-(d.exponent.toInt + places)).toNat)

/-- A package and a counter as they are documented. -/
def plainDecimals : DecimalPackage where
  bigInt d := d.units 0
  truncate d places :=
    if d.exponent.toInt < -places then ⟨d.units places, .ofInt (-places)⟩ else d
  string d := s!"{d.coefficient}e{d.exponent.toInt}"

def plainCount (n : ℤ) : ℤ := (Nat.digits 10 n.natAbs).length

theorem towardZero_div (a : ℤ) {b : ℕ} (hb : 0 < b) : towardZero ((a : ℚ) / b) = a.tdiv b := by
  have hb' : (0 : ℚ) < b := by exact_mod_cast hb
  rw [towardZero]
  split_ifs with h
  · have ha : 0 ≤ a := by
      rw [le_div_iff₀ hb', zero_mul] at h
      exact_mod_cast h
    rw [Rat.floor_intCast_div_natCast, Int.tdiv_eq_ediv_of_nonneg ha]
  · have ha : a < 0 := by
      rw [le_div_iff₀ hb', zero_mul, not_le] at h
      exact_mod_cast h
    rw [← neg_neg (a : ℚ), neg_div, Int.ceil_neg, ← Int.cast_neg, Rat.floor_intCast_div_natCast,
      ← Int.tdiv_eq_ediv_of_nonneg (by omega), Int.neg_tdiv, neg_neg]

theorem units_eq (d : Decimal) (places : ℤ) :
    towardZero (d.value * 10 ^ places) = d.units places := by
  rw [Decimal.value, mul_assoc, ← zpow_add₀ (by norm_num), Decimal.units]
  split_ifs with h
  · obtain ⟨k, hk⟩ := Int.eq_ofNat_of_zero_le h
    rw [hk, zpow_natCast, Int.toNat_natCast]
    exact_mod_cast towardZero_intCast (d.coefficient * 10 ^ k)
  · obtain ⟨k, hk⟩ := Int.eq_ofNat_of_zero_le (show 0 ≤ -(d.exponent.toInt + places) by omega)
    rw [hk, Int.toNat_natCast, ← neg_neg (d.exponent.toInt + places), hk, zpow_neg, zpow_natCast,
      ← div_eq_mul_inv]
    exact_mod_cast towardZero_div d.coefficient (b := 10 ^ k) (by positivity)

theorem plainDecimals_documented : plainDecimals.Documented where
  bigInt_eq d := by
    rw [← mul_one d.value, ← zpow_zero (10 : ℚ), units_eq]
    rfl
  truncate_value d places := by
    have hunits := units_eq d places
    rw [zpow_natCast] at hunits
    simp only [plainDecimals]
    split_ifs with h
    · have hbound := d.exponent.le_toInt
      rw [Decimal.value, Int32.toInt_ofInt_of_le (by omega) (by omega), hunits, zpow_neg,
        zpow_natCast, div_eq_mul_inv]
    · obtain ⟨m, hm⟩ := scaled_eq_intCast (not_lt.mp h)
      rw [hm, towardZero_intCast, ← hm]
      field_simp

/-- 12345.678 in a `Decimal(7, 2)`. -/
theorem truncateNumeric_exact_cents :
    (truncateNumeric plainDecimals plainCount ⟨12345678, -3⟩ 7 2 .clickhouse none).ok = true := by
  refine (truncateNumeric_exact plainDecimals_documented (fun _ _ => rfl) (by decide) (by decide)
    (by decide) _ none).1.mpr ?_
  rw [← mul_one (Decimal.value _), ← zpow_zero (10 : ℚ), units_eq]
  decide

/-! ### The two paths -/

/-- What a column receives. -/
inductive Delivered
  | null
  | text (s : String)
  | number (q : ℚ)
  | texts (l : List String)
  | numbers (l : List ℚ)
deriving DecidableEq

/-- `QValueAvroConverter`; its `Stat` is passed on. -/
structure QValueAvroConverter where
  nullable : Bool
  precision : ℤ
  scale : ℤ
  targetDWH : DBType
  unboundedNumericAsString : Bool

/-- `QValueNumeric`, `QValueArrayNumeric` and the values of other kinds. -/
inductive Item
  | numeric (val : Decimal) (precision scale : ℤ)
  | arrayNumeric (val : List Decimal) (precision scale : ℤ)
  | other (kind : String)

def Item.isNumeric : Item → Bool
  | .other _ => false
  | _ => true

section

variable (pkg : DecimalPackage) (countDigits : ℤ → ℤ)

/-- The loop over an array: each number is truncated in turn and `elem` appended for it. -/
def truncateLoop {α : Type} (elem : Truncated → α) (nums : List Decimal) (P S : ℤ) (dwh : DBType)
    (stat : Option NumericStat) : List α × Option NumericStat :=
  nums.foldl (fun (out, stat) num =>
    let r := truncateNumeric pkg countDigits num P S dwh stat
    (out ++ [elem r], r.stat)) ([], stat)

namespace QValueAvroConverter

variable (c : QValueAvroConverter)

def destType : NumericDestinationType :=
  getNumericDestinationType c.precision c.scale c.targetDWH c.unboundedNumericAsString

def processNumeric (num : Decimal) (stat : Option NumericStat) :
    Delivered × Option NumericStat :=
  match c.destType with
  | .string => (.text (pkg.string num), stat)
  | .decimal P S =>
    let r := truncateNumeric pkg countDigits num P S c.targetDWH stat
    if !r.ok then (if c.nullable then .null else .number 0, r.stat)
    else (.number r.num.value, r.stat)

def processArrayNumeric (arrayNum : List Decimal) (stat : Option NumericStat) :
    Delivered × Option NumericStat :=
  match c.destType with
  | .string => (.texts (arrayNum.map pkg.string), stat)
  | .decimal P S =>
    let r := truncateLoop pkg countDigits (fun r => if r.ok then r.num.value else 0) arrayNum P S
      c.targetDWH stat
    (.numbers r.1, r.2)

end QValueAvroConverter

/-- The column's turn in `truncateNumerics`. -/
def truncateItem (dwh : DBType) (asString : Bool) (val : Item) (stat : Option NumericStat) :
    Item × Option NumericStat :=
  if stat.isNone then (val, stat)
  else
    match val with
    | .numeric num p s =>
      match getNumericDestinationType p s dwh asString with
      | .string => (val, stat)
      | .decimal P S =>
        let r := truncateNumeric pkg countDigits num P S dwh stat
        (.numeric (if r.ok then r.num else .zero) P S, r.stat)
    | .arrayNumeric nums p s =>
      match getNumericDestinationType p s dwh asString with
      | .string => (val, stat)
      | .decimal P S =>
        let r := truncateLoop pkg countDigits (fun r => if r.ok then r.num else .zero) nums P S dwh
          stat
        (.arrayNumeric r.1 P S, r.2)
    | .other _ => (val, stat)

/-- `truncateNumerics`: the columns with the statistics after them, `get` being `Get`. -/
def truncateNumerics (items : List (String × Item)) (dwh : DBType) (asString : Bool)
    (get : String → Option NumericStat) : List (String × Item × Option NumericStat) :=
  if items.any fun (col, val) => (get col).isSome && val.isNumeric then
    items.map fun (col, val) => (col, truncateItem pkg countDigits dwh asString val (get col))
  else items.map fun (col, val) => (col, val, get col)

/-- The raw table holds a number's `String`, and a column of type `dest` reads it from there. -/
def Item.delivered (dest : NumericDestinationType) : Item → Delivered
  | .numeric num _ _ =>
    match dest with
    | .string => .text (pkg.string num)
    | .decimal _ _ => .number num.value
  | .arrayNumeric nums _ _ =>
    match dest with
    | .string => .texts (nums.map pkg.string)
    | .decimal _ _ => .numbers (nums.map Decimal.value)
  | .other _ => .null

variable {pkg countDigits}

/-- The shortcut for a row without numbers changes nothing. -/
theorem truncateNumerics_eq (items : List (String × Item)) (dwh : DBType) (asString : Bool)
    (get : String → Option NumericStat) :
    truncateNumerics pkg countDigits items dwh asString get =
      items.map fun (col, val) =>
        (col, truncateItem pkg countDigits dwh asString val (get col)) := by
  rw [truncateNumerics]
  split_ifs with h
  · rfl
  · refine List.map_congr_left fun ⟨col, val⟩ hitem => ?_
    have hcol : ¬((get col).isSome && val.isNumeric) = true :=
      fun hnum => h (List.any_eq_true.mpr ⟨_, hitem, hnum⟩)
    cases val <;> simp_all [truncateItem, Item.isNumeric]

theorem truncateNumeric_stat (num : Decimal) (P S : ℤ) (dwh : DBType) (stat : Option NumericStat) :
    truncateNumeric pkg countDigits num P S dwh stat =
      { truncateNumeric pkg countDigits num P S dwh none with
        stat := (truncateNumeric pkg countDigits num P S dwh stat).stat } := by
  simp only [truncateNumeric]
  split_ifs <;> rfl

/-- The statistics do not decide what is appended. -/
theorem truncateLoop_fst {α : Type} {elem : Truncated → α}
    (helem : ∀ r stat, elem { r with stat := stat } = elem r) (nums : List Decimal) (P S : ℤ)
    (dwh : DBType) (stat : Option NumericStat) :
    (truncateLoop pkg countDigits elem nums P S dwh stat).1 =
      nums.map fun num => elem (truncateNumeric pkg countDigits num P S dwh none) := by
  -- along the loop, with what is there already
  suffices h : ∀ out, (nums.foldl (fun (p : List α × Option NumericStat) num =>
      let r := truncateNumeric pkg countDigits num P S dwh p.2
      (p.1 ++ [elem r], r.stat)) (out, stat)).1 =
        out ++ nums.map fun num => elem (truncateNumeric pkg countDigits num P S dwh none) from
    h []
  induction nums generalizing stat with
  | nil => simp
  | cons num nums ih =>
    intro out
    rw [List.foldl_cons, ih, List.map_cons, truncateNumeric_stat, helem, List.append_assoc]
    rfl

variable (hpkg : pkg.Documented) (hcount : ExactCount countDigits)

include hpkg hcount

/-- **When the two paths deliver one value.**  They always do for arrays. -/
theorem numeric_delivery_agrees_iff (c : QValueAvroConverter) (items : List (String × Item))
    (get : String → Option NumericStat) {col : String} (hstat : (get col).isSome) (i : ℕ)
    (stat : NumericStat) :
    let cdc := ((truncateNumerics pkg countDigits items c.targetDWH c.unboundedNumericAsString
      get)[i]?).map fun r => r.2.1.delivered pkg c.destType
    (∀ num, items[i]? = some (col, .numeric num c.precision c.scale) →
      (cdc = some (c.processNumeric pkg countDigits num (some stat)).1 ↔
        (c.nullable = true → c.targetDWH ≠ .other →
          ∀ P S, c.destType = .decimal P S → Fits P S num.value))) ∧
    ∀ nums, items[i]? = some (col, .arrayNumeric nums c.precision c.scale) →
      cdc = some (c.processArrayNumeric pkg countDigits nums (some stat)).1 := by
  classical
  have hzero := Decimal.value_zero
  have hnone : (get col).isNone = false := by simpa using hstat
  simp only [truncateNumerics_eq, List.getElem?_map]
  refine ⟨fun num hitem => ?_, fun nums hitem => ?_⟩ <;>
    simp only [hitem, Option.map_some, truncateItem, hnone, Bool.false_eq_true, if_false,
      Option.some.injEq] <;>
    rw [← QValueAvroConverter.destType]
  · rw [QValueAvroConverter.processNumeric]
    rcases hdest : c.destType with _ | ⟨P, S⟩
    · simp [Item.delivered]
    simp only [Item.delivered, NumericDestinationType.decimal.injEq, and_imp]
    by_cases hdwh : c.targetDWH = .other
    · simp [truncateNumeric, hdwh]
    · simp only [truncateNumeric_eq hpkg hcount hdwh]
      split_ifs with hfits <;> cases hnull : c.nullable <;> simp_all
  · rw [QValueAvroConverter.processArrayNumeric]
    rcases hdest : c.destType with _ | ⟨P, S⟩
    · simp [Item.delivered]
    · simp only [Item.delivered]
      rw [truncateLoop_fst (fun _ _ => rfl), truncateLoop_fst (fun _ _ => rfl), List.map_map]
      refine congrArg _ (List.map_congr_left fun num _ => ?_)
      simp only [Function.comp_apply]
      split_ifs with hok
      · rfl
      · exact hzero

end

/-- A row with a `numeric` column, and the column as the initial load converts it. -/
def numericColumn (nullable : Bool) : QValueAvroConverter :=
  ⟨nullable, 0, 0, .clickhouse, false⟩

def numericRow (num : Decimal) : List (String × Item) := [("n", .numeric num 0 0)]

/-- 10 is delivered as it is. -/
theorem numeric_delivery_agrees_ten :
    ((truncateNumerics plainDecimals plainCount (numericRow ⟨10, 0⟩) .clickhouse false
      fun _ => some {})[0]?).map (fun r => r.2.1.delivered plainDecimals (.decimal 76 38)) =
      some ((numericColumn true).processNumeric plainDecimals plainCount ⟨10, 0⟩ (some {})).1 := by
  refine ((numeric_delivery_agrees_iff plainDecimals_documented (fun _ _ => rfl)
    (numericColumn true) (numericRow ⟨10, 0⟩) (fun _ => some {}) rfl 0 {}).1 ⟨10, 0⟩ rfl).mpr ?_
  intro _ _ P S hdest
  obtain ⟨rfl, rfl⟩ : 76 = P ∧ 38 = S := by
    rw [show (numericColumn true).destType = .decimal 76 38 by decide] at hdest
    simpa using hdest
  rw [Fits, ← mul_one (Decimal.value _), ← zpow_zero (10 : ℚ), units_eq]
  decide

/-- 10³⁸ has 39 digits: the initial load delivers NULL and CDC zero. -/
theorem wide_number_null_or_zero :
    ((numericColumn true).processNumeric plainDecimals plainCount ⟨1, 38⟩ (some {})).1 = .null ∧
      ((truncateNumerics plainDecimals plainCount (numericRow ⟨1, 38⟩) .clickhouse false
        fun _ => some {})[0]?).map (fun r => r.2.1.delivered plainDecimals (.decimal 76 38)) =
        some (.number 0) := by
  exact ⟨by decide, congrArg (some <| Delivered.number ·) Decimal.value_zero⟩

end QValue
