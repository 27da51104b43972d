/-
The numeric type of a destination column (`shared/datatypes/numeric.go`,
`pkg/common/numeric.go`, `GetNumericDestinationType`).

Postgres stores precision and scale of a numeric column in its type modifier.  They are read
back with fifteen bits each, so a negative scale becomes one that is too large for every
warehouse, and the default type is chosen.  A scale above the precision is kept:

* `parse_makeNumericTypmod` — what is read back from a type modifier, and
  `numericTypmod_roundTrip_iff` — when that is what was stored;
* `numericType_valid_iff` — the chosen type is valid unless the scale is above the precision
  and not above the largest scale of the warehouse;
* `decimal_scale_above_precision` — a `numeric(3, 5)` becomes `Decimal(3, 5)`.
-/
import Mathlib.Tactic.IntervalCases
import Mathlib.Tactic.Common

namespace QValue

/-- `protos.DBType`; the code treats all others alike. -/
inductive DBType
  | bigquery
  | snowflake
  | clickhouse
  | other
deriving DecidableEq

structure WarehouseNumericCompatibility where
  maxPrecision : ℤ
  maxScale : ℤ
  defaultPrecisionAndScale : ℤ × ℤ

def clickHouseNumericCompatibility : WarehouseNumericCompatibility := ⟨76, 76, (76, 38)⟩

def snowflakeNumericCompatibility : WarehouseNumericCompatibility := ⟨38, 37, (38, 20)⟩

def bigQueryNumericCompatibility : WarehouseNumericCompatibility := ⟨38, 20, (38, 20)⟩

def defaultNumericCompatibility : WarehouseNumericCompatibility := ⟨38, 37, (38, 20)⟩

/-- The `switch` of `DetermineNumericSettingForDWH`. -/
def DBType.warehouseNumeric : DBType → WarehouseNumericCompatibility
  | .clickhouse => clickHouseNumericCompatibility
  | .snowflake => snowflakeNumericCompatibility
  | .bigquery => bigQueryNumericCompatibility
  | .other => defaultNumericCompatibility

/-! ### Type modifiers -/

/-- `MakeNumericTypmod`; a modifier that Postgres stores is made the same way. -/
def makeNumericTypmod (precision scale : Int32) : Int32 :=
  if precision = 0 ∧ scale = 0 then -1 else (precision <<< 16 ||| scale &&& 0x7ff) + 4

/-- `ParseNumericTypmod`; both numbers fit into an `int16`. -/
def parseNumericTypmod (typmod : Int32) : ℤ × ℤ :=
  if typmod = -1 then (0, 0)
  else
    let offsetMod := typmod - 4
    (((offsetMod >>> 16) &&& 0x7FFF).toInt, (offsetMod &&& 0x7FFF).toInt)

def isValidPrecision (precision : ℤ) (w : WarehouseNumericCompatibility) : Bool :=
  precision ≤ w.maxPrecision

def isValidPrecisionAndScale (precision scale : ℤ) (w : WarehouseNumericCompatibility) : Bool :=
  isValidPrecision precision w && scale ≤ w.maxScale

def getNumericTypeForWarehousePrecisionScale (precision scale : ℤ)
    (w : WarehouseNumericCompatibility) : ℤ × ℤ :=
  if precision = 0 ∧ scale = 0 then w.defaultPrecisionAndScale
  else
    let precision := if isValidPrecision precision w then precision else w.maxPrecision
    if isValidPrecisionAndScale precision scale w then (precision, scale)
    else w.defaultPrecisionAndScale

def getNumericTypeForWarehouse (typmod : Int32) (w : WarehouseNumericCompatibility) : ℤ × ℤ :=
  if typmod = -1 then w.defaultPrecisionAndScale
  else
    let (precision, scale) := parseNumericTypmod typmod
    getNumericTypeForWarehousePrecisionScale precision scale w

inductive NumericDestinationType
  | string
  | decimal (precision scale : ℤ)
deriving DecidableEq

def getNumericDestinationType (precision scale : ℤ) (targetDWH : DBType)
    (unboundedNumericAsString : Bool) : NumericDestinationType :=
  if targetDWH = .clickhouse ∧
      (precision = 0 ∧ scale = 0 ∧ unboundedNumericAsString = true ∨ precision > 76) then .string
  else
    let (precision, scale) :=
      getNumericTypeForWarehousePrecisionScale precision scale targetDWH.warehouseNumeric
    .decimal precision scale

/-- The setting `asString` is read from the environment of the mirror. -/
def getClickHouseTypeForNumericColumn (asString : Except String Bool) (typeModifier : Int32) :
    Except String String := do
  let (precision, scale) := parseNumericTypmod typeModifier
  match getNumericDestinationType precision scale .clickhouse (← asString) with
  | .string => .ok "String"
  | .decimal precision scale => .ok s!"Decimal({precision}, {scale})"

/-! ### What is chosen -/

/-- The warehouse accepts a column of this precision and scale. -/
structure WarehouseNumericCompatibility.Accepts (w : WarehouseNumericCompatibility)
    (precision scale : ℤ) : Prop where
  scale_nonneg : 0 ≤ scale
  scale_le_precision : scale ≤ precision
  precision_le : precision ≤ w.maxPrecision
  scale_le : scale ≤ w.maxScale

/-- The type of a column is accepted; any text fits into a string. -/
def NumericDestinationType.Accepted (w : WarehouseNumericCompatibility) :
    NumericDestinationType → Prop
  | .string => True
  | .decimal precision scale => w.Accepts precision scale

/-- The bits of the precision are above those of the scale. -/
theorem typmod_precision (a b : BitVec 32) :
    ((a <<< 16 ||| b &&& 0x7ff#32).sshiftRight 16) &&& 0x7FFF#32 = a &&& 0x7FFF#32 := by
  ext i hi
  simp only [BitVec.getElem_and, BitVec.getElem_sshiftRight]
  interval_cases i <;> simp

theorem typmod_scale (a b : BitVec 32) :
    (a <<< 16 ||| b &&& 0x7ff#32) &&& 0x7FFF#32 = b &&& 0x7FF#32 := by
  ext i hi
  simp only [BitVec.getElem_and, BitVec.getElem_or]
  interval_cases i <;> simp

/-- Both masks leave a number without a sign. -/
theorem toInt_and_mask (x : ℤ) {width : ℕ} (hwidth : width = 11 ∨ width = 15) :
    (BitVec.ofInt 32 x &&& BitVec.ofNat 32 (2 ^ width - 1)).toInt = x % 2 ^ width := by
  have hnat : (BitVec.ofInt 32 x &&& BitVec.ofNat 32 (2 ^ width - 1)).toNat =
      (x % 2 ^ 32).toNat % 2 ^ width := by
    rw [BitVec.toNat_and, BitVec.toNat_ofInt, ← Nat.and_two_pow_sub_one_eq_mod]
    rcases hwidth with rfl | rfl <;> rfl
  have hlt : (x % 2 ^ 32).toNat % 2 ^ width < 2 ^ width := Nat.mod_lt _ (Nat.two_pow_pos width)
  rw [BitVec.toInt_eq_toNat_cond, hnat]
  rcases hwidth with rfl | rfl <;> omega

/-- **A type modifier gives back the precision, and the scale modulo 2048.** -/
theorem parse_makeNumericTypmod {p : ℤ} (hp : 1 ≤ p) (hp' : p ≤ 1000) (s : ℤ) :
    makeNumericTypmod (.ofInt p) (.ofInt s) ≠ -1 ∧
      parseNumericTypmod (makeNumericTypmod (.ofInt p) (.ofInt s)) = (p, s % 2048) := by
  have hzero : ¬(Int32.ofInt p = 0 ∧ Int32.ofInt s = 0) := by
    rintro ⟨h, -⟩
    have := congrArg Int32.toInt h
    rw [Int32.toInt_ofInt_of_le (by omega) (by omega)] at this
    exact absurd this (by simp; omega)
  set x : Int32 := Int32.ofInt p <<< 16 ||| Int32.ofInt s &&& 0x7ff with hx
  have hprecision : ((x >>> 16) &&& 0x7FFF).toInt = p := by
    show (BitVec.sshiftRight _ 16 &&& 0x7FFF#32).toInt = p
    refine (congrArg BitVec.toInt (typmod_precision (BitVec.ofInt 32 p) _)).trans ?_
    rw [show (0x7FFF#32) = BitVec.ofNat 32 (2 ^ 15 - 1) from rfl, toInt_and_mask p (.inr rfl)]
    omega
  have hscale : (x &&& 0x7FFF).toInt = s % 2048 := by
    show (_ &&& 0x7FFF#32 : BitVec 32).toInt = _
    refine (congrArg BitVec.toInt (typmod_scale _ (BitVec.ofInt 32 s))).trans ?_
    exact toInt_and_mask s (.inl rfl)
  have hne : x + 4 ≠ -1 := by
    intro h
    have hminus : x = -5 := by
      rw [← Int32.add_sub_cancel x 4, h]
      rfl
    rw [hminus] at hprecision
    exact absurd hprecision (by change (32767 : ℤ) ≠ p; omega)
  rw [makeNumericTypmod, if_neg hzero, ← hx]
  refine ⟨hne, ?_⟩
  rw [parseNumericTypmod, if_neg hne]
  simp only [Int32.add_sub_cancel, hprecision, hscale]

/-- **Which type modifiers round-trip.**  `ParseNumericTypmod` gives back the precision and the
scale that Postgres stored exactly if the scale is not negative: it does not extend the sign of
the eleven bits that hold the scale. -/
theorem numericTypmod_roundTrip_iff {p s : ℤ} (hp : 1 ≤ p) (hp' : p ≤ 1000) (hs : -1000 ≤ s)
    (hs' : s ≤ 1000) :
    parseNumericTypmod (makeNumericTypmod (.ofInt p) (.ofInt s)) = (p, s) ↔ 0 ≤ s := by
  rw [(parse_makeNumericTypmod hp hp' s).2, Prod.mk.injEq]
  omega

theorem numericTypmod_roundTrip_money :
    parseNumericTypmod (makeNumericTypmod (.ofInt 10) (.ofInt 2)) = (10, 2) :=
  (numericTypmod_roundTrip_iff (by decide) (by decide) (by decide) (by decide)).mpr (by decide)

/-- A column rounded to hundreds, `numeric(3, -2)`, is read with the scale 2046. -/
theorem negative_scale_read_as_2046 :
    parseNumericTypmod (makeNumericTypmod (.ofInt 3) (.ofInt (-2))) = (3, 2046) ∧
      parseNumericTypmod (makeNumericTypmod (.ofInt 3) (.ofInt (-2))) ≠ (3, -2) := by
  decide

/-- What is chosen for a precision and a scale that are not negative. -/
theorem accepts_iff (dwh : DBType) {p s : ℤ} (hp : 1 ≤ p) (hs : 0 ≤ s) {chosen : ℤ × ℤ}
    (h : getNumericTypeForWarehousePrecisionScale p s dwh.warehouseNumeric = chosen) :
    dwh.warehouseNumeric.Accepts chosen.1 chosen.2 ↔
      s ≤ p ∨ dwh.warehouseNumeric.maxScale < s := by
  have hlimits : dwh.warehouseNumeric.maxScale ≤ dwh.warehouseNumeric.maxPrecision ∧
      dwh.warehouseNumeric.Accepts dwh.warehouseNumeric.defaultPrecisionAndScale.1
        dwh.warehouseNumeric.defaultPrecisionAndScale.2 := by
    cases dwh <;> exact ⟨by decide, by decide, by decide, by decide, by decide⟩
  obtain ⟨hmax, hdefault⟩ := hlimits
  simp only [getNumericTypeForWarehousePrecisionScale, isValidPrecisionAndScale, isValidPrecision,
    Bool.and_eq_true, decide_eq_true_eq] at h
  rw [if_neg (by omega)] at h
  split_ifs at h with hprecision hscale hscale <;> subst h
  · exact ⟨fun h => .inl h.scale_le_precision,
      fun h => ⟨hs, by simp only; omega, hscale.1, hscale.2⟩⟩
  · exact ⟨fun _ => .inr (by omega), fun _ => hdefault⟩
  · exact ⟨fun _ => .inl (by omega), fun _ => ⟨hs, by simp only; omega, hscale.1, hscale.2⟩⟩
  · exact ⟨fun _ => .inr (by omega), fun _ => hdefault⟩

/-- **Which numeric columns get a valid type.**  For every `numeric(p, s)` of Postgres and every
destination, the precision and scale chosen from the type modifier are within the limits of the
warehouse exactly if the scale is not above the precision or above the largest scale; so is the
type of the destination column, unless it is a string. -/
theorem numericType_valid_iff {p s : ℤ} (hp : 1 ≤ p) (hp' : p ≤ 1000) (hs : -1000 ≤ s)
    (hs' : s ≤ 1000) (dwh : DBType) (asString : Bool) :
    let typmod := makeNumericTypmod (.ofInt p) (.ofInt s)
    let parsed := parseNumericTypmod typmod
    let chosen := getNumericTypeForWarehouse typmod dwh.warehouseNumeric
    (dwh.warehouseNumeric.Accepts chosen.1 chosen.2 ↔
        s ≤ p ∨ dwh.warehouseNumeric.maxScale < s) ∧
      ((getNumericDestinationType parsed.1 parsed.2 dwh asString).Accepted dwh.warehouseNumeric ↔
        s ≤ p ∨ dwh.warehouseNumeric.maxScale < s) := by
  intro typmod parsed chosen
  obtain ⟨hne, hparse⟩ := parse_makeNumericTypmod hp hp' s
  have hmax : dwh.warehouseNumeric.maxScale ≤ 76 := by cases dwh <;> decide
  -- a negative scale is read as one from 1048
  have hwrap : s % 2048 ≤ p ∨ dwh.warehouseNumeric.maxScale < s % 2048 ↔
      s ≤ p ∨ dwh.warehouseNumeric.maxScale < s := by
    omega
  have hchosen : chosen = getNumericTypeForWarehousePrecisionScale p (s % 2048)
      dwh.warehouseNumeric := by
    simp only [chosen, getNumericTypeForWarehouse, if_neg hne, typmod, hparse]
  have haccepts := (accepts_iff dwh hp (Int.emod_nonneg s (by decide)) hchosen.symm).trans hwrap
  refine ⟨haccepts, ?_⟩
  simp only [parsed, typmod, hparse, getNumericDestinationType]
  split_ifs with hstring
  · -- only a precision above the limit of ClickHouse becomes a string
    exact iff_of_true trivial (by omega)
  · rwa [← hchosen]

theorem numericType_valid_money :
    getClickHouseTypeForNumericColumn (.ok false) (makeNumericTypmod 10 2) =
        .ok "Decimal(10, 2)" ∧
      clickHouseNumericCompatibility.Accepts 10 2 :=
  ⟨by decide +kernel, (numericType_valid_iff (p := 10) (s := 2) (by decide) (by decide) (by decide)
    (by decide) .clickhouse false).1.mpr (.inl (by decide))⟩

/-- Of a `numeric(3, 5)`, which holds numbers below a hundredth, the scale is kept together with
the precision, for every warehouse. -/
theorem decimal_scale_above_precision :
    getClickHouseTypeForNumericColumn (.ok false) (makeNumericTypmod 3 5) =
        .ok "Decimal(3, 5)" ∧
      ∀ dwh : DBType,
        getNumericTypeForWarehouse (makeNumericTypmod 3 5) dwh.warehouseNumeric = (3, 5) ∧
          ¬dwh.warehouseNumeric.Accepts 3 5 := by
  refine ⟨by decide +kernel, fun dwh => ⟨by cases dwh <;> decide +kernel, fun h => ?_⟩⟩
  exact absurd h.scale_le_precision (by decide)

end QValue
