/-
Values and how they are written to JSON (`types.QValue`, `RecordItems.toMap`,
`PgItems.MarshalJSON`).

A value is given by the text it is formatted as; the kinds are those `toMap` tells apart.
JSON has no NaN and no infinity, and texts beyond a threshold are not sent.
-/
import PeerDB.Model.Table

inductive FloatValue where
  | finite (text : String)
  | nan
  | infinity (negative : Bool)
  deriving DecidableEq, Repr

/-- `types.QValue`.  `plain` are the kinds that are only formatted: numbers, times, UUIDs and
so on. -/
inductive QValue where
  | string (val : String)
  | json (val : String)
  | float (val : FloatValue)
  | array (vals : List (Option String))
  | arrayFloat (vals : List FloatValue)
  | plain (text : String)
  deriving DecidableEq, Repr

def FloatValue.toMap : FloatValue → Option String
  | .finite text => some text
  | .nan | .infinity _ => none

/-- One value of `RecordItems.toMap`, without unnesting and with hstore as text: the text `->>`
has for it, `none` for null.  `marshal` is `json.Marshal` of a list. -/
def QValue.toMap (truncateThresholdBytes : ℕ) (marshal : List (Option String) → String) :
    QValue → Option String
  | .string val => if val.utf8ByteSize > truncateThresholdBytes then some "" else some val
  | .json val => if val.utf8ByteSize > truncateThresholdBytes then some "\x7b\x7d" else some val
  | .float val => val.toMap
  | .array vals => some (marshal vals)
  | .arrayFloat vals => some (marshal (vals.map FloatValue.toMap))
  | .plain text => some text

/-- The threshold of `NewRecordItems`. -/
def recordItemsThreshold : ℕ := 15 * 1024 * 1024

/-- `ToJSONWithOptions`, for items whose values are written by `toMap`. -/
def Items.toJSON {V : Type} (toMap : V → Option String) (items : Items V) : Items String :=
  ⟨fun c => (items.colToVal c).map fun v => v.bind toMap⟩

theorem Items.toJSON_value {V : Type} (toMap : V → Option String) (items : Items V) (c : String) :
    (items.toJSON toMap).value c = (items.value c).bind toMap := by
  show ((items.colToVal c).map fun v => v.bind toMap).join = (items.colToVal c).join.bind toMap
  cases items.colToVal c with
  | none => rfl
  | some v => rfl
