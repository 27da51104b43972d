/-
Document keys (`QValueStringFromId` in `connectors/mongo/qvalue_convert.go`).

The `_id` of a document becomes a string, which is the key of its row.  MongoDB compares
ids by their type and value (`key`); the string does not have the type, so ids of different
types can become the same key (`hexString_collides`).

* `key_eq_of_toJson` — values of the same types in the same places have the same JSON tree
  only if MongoDB takes them to be the same;
* `rawValueToJSON_eq_render` — the text of a value is that of its tree, whatever its types;
* `hexEncode_ne_text` — an ObjectID, which is written without quotes, is no JSON text that
  the converter writes;
* `documentKeys_distinct_iff` — so different ids keep distinct keys exactly if they are not one
  text with two types.
-/
import PeerDB.Mongo.Bson
import Mathlib.Order.Defs.LinearOrder

namespace Mongo

open Encoding

/-! ### Equality of keys in MongoDB -/

/-- A value as MongoDB compares it in an index: numbers by their value, symbols as strings,
and everything else by its type. -/
inductive Key where
  | minKey
  | undefined
  | null
  | num (n : Num)
  | str (s : GoString)
  | doc (fields : List (GoString × Key))
  | arr (items : List Key)
  | binary (subtype : UInt8) (data : List UInt8)
  | objectID (oid : ObjectID)
  | boolean (b : Bool)
  | dateTime (ms : Int64)
  | timestamp (t i : UInt32)
  | regex (pattern options : GoString)
  | dbPointer (ns : GoString) (oid : ObjectID)
  | code (code : GoString)
  | codeWithScope (code : GoString) (scope : List (GoString × Key))
  | maxKey

mutual
def key : Bson → Key
  | .double v => .num v.num
  | .string s => .str s
  | .document doc => .doc (keyFields doc)
  | .array arr => .arr (keyItems arr)
  | .binary subtype data => .binary subtype data
  | .undefined => .undefined
  | .objectID oid => .objectID oid
  | .boolean b => .boolean b
  | .dateTime ms => .dateTime ms
  | .null => .null
  | .regex pattern options => .regex pattern options
  | .dbPointer ns oid => .dbPointer ns oid
  | .javaScript code => .code code
  | .symbol s => .str s
  | .codeWithScope code scope => .codeWithScope code (keyFields scope)
  | .int32 n => .num (.rat n.toInt)
  | .timestamp t i => .timestamp t i
  | .int64 n => .num (.rat n.toInt)
  | .decimal128 h l => .num (decimalNum h l)
  | .minKey => .minKey
  | .maxKey => .maxKey
termination_by structural v => v

def keyFields : Elements → List (GoString × Key)
  | .nil => []
  | .cons name value rest => (name, key value) :: keyFields rest
termination_by structural doc => doc

def keyItems : Elements → List Key
  | .nil => []
  | .cons _ value rest => key value :: keyItems rest
termination_by structural arr => arr
end

/-- `InternalVersion_MongoDBIdWithoutRedundantQuotes`. -/
def mongoDBIdWithoutRedundantQuotes : UInt32 := 4

/-- `InternalVersion_Latest`. -/
def internalVersionLatest : UInt32 := 7

def qValueStringFromId (F : Formats) (version : UInt32) (id : Bson) : GoString :=
  let json := GoString.ofChars (rawValueToJSON F id)
  if mongoDBIdWithoutRedundantQuotes ≤ version then
    match id with
    | .objectID oid => GoString.ofChars (hexEncode oid.bytes)
    | .string s => s
    | _ => json
  else json

/-! ### Values that can be told apart -/

/-- The types of values, as far as MongoDB tells them apart; an integer is one type. -/
inductive Kind where
  | double | str | document | array | binary | undefined | objectID | boolean | dateTime
  | null | regex | dbPointer | javaScript | codeWithScope | int | timestamp | decimal128
  | minKey | maxKey
  deriving DecidableEq

def Bson.kind : Bson → Kind
  | .double _ => .double
  | .string _ => .str
  | .document _ => .document
  | .array _ => .array
  | .binary _ _ => .binary
  | .undefined => .undefined
  | .objectID _ => .objectID
  | .boolean _ => .boolean
  | .dateTime _ => .dateTime
  | .null => .null
  | .regex _ _ => .regex
  | .dbPointer _ _ => .dbPointer
  | .javaScript _ => .javaScript
  | .symbol _ => .str
  | .codeWithScope _ _ => .codeWithScope
  | .int32 _ => .int
  | .timestamp _ _ => .timestamp
  | .int64 _ => .int
  | .decimal128 _ _ => .decimal128
  | .minKey => .minKey
  | .maxKey => .maxKey

/-- What a reader of the text can tell about the type. -/
inductive Form where
  | null | bool | int | float | quoted | object | array
  deriving DecidableEq

def Bson.form : Bson → Form
  | .double v => if (specialName v).isSome then .quoted else .float
  | .int32 _ | .int64 _ => .int
  | .boolean _ => .bool
  | .null => .null
  | .array _ => .array
  | .string _ | .objectID _ | .dateTime _ | .javaScript _ | .symbol _ | .decimal128 _ _ => .quoted
  | .document _ | .binary _ _ | .undefined | .regex _ _ | .dbPointer _ _ | .codeWithScope _ _
  | .timestamp _ _ | .minKey | .maxKey => .object

mutual
/-- In the same place the two values do not have two types that are written alike. -/
def Alike : Bson → Bson → Prop
  | .document doc, .document doc' => AlikeFields doc doc'
  | .array arr, .array arr' => AlikeItems arr arr'
  | .codeWithScope _ scope, .codeWithScope _ scope' => AlikeFields scope scope'
  | v, w => v.form = w.form → v.kind = w.kind
termination_by structural v => v

def AlikeFields : Elements → Elements → Prop
  | .cons name value rest, .cons name' value' rest' =>
    (name = name' → Alike value value') ∧ AlikeFields rest rest'
  | _, _ => True
termination_by structural doc => doc

def AlikeItems : Elements → Elements → Prop
  | .cons _ value rest, .cons _ value' rest' => Alike value value' ∧ AlikeItems rest rest'
  | _, _ => True
termination_by structural arr => arr
end

mutual
/-- All strings of the value are valid UTF-8. -/
def Bson.Valid : Bson → Prop
  | .string s | .javaScript s | .symbol s => s.Valid
  | .document doc => doc.Valid
  | .array arr => arr.Valid
  | .regex pattern options => pattern.Valid ∧ options.Valid
  | .dbPointer ns _ => ns.Valid
  | .codeWithScope code scope => code.Valid ∧ scope.Valid
  | _ => True
termination_by structural v => v

def Elements.Valid : Elements → Prop
  | .nil => True
  | .cons name value rest => name.Valid ∧ value.Valid ∧ rest.Valid
termination_by structural doc => doc
end

/-! ### Numbers -/

section Keys

variable {F : Formats}

/-- The text of a finite float cannot be taken for an integer or for hexadecimal digits. -/
theorem finiteText_marked (hF : F.Faithful) {v : Double} (h : specialName v = none) :
    '.' ∈ finiteText F v ∨
      'e' ∈ finiteText F v ∧ ('+' ∈ finiteText F v ∨ '-' ∈ finiteText F v) := by
  obtain ⟨f, hf, -, htext, hsmall⟩ := finiteText_format F v
  rw [htext]
  refine hF.float_marked v h f hf ?_
  by_cases hshort : f = ('f', -1)
  · -- an integer in this format would be too large for it
    obtain ⟨hint, hlimit⟩ := hsmall hshort
    refine .inr fun hden => hint ?_
    have hpos : (0 : ℚ) < floatLimit := by decide +kernel
    rw [not_le] at hlimit
    refine ⟨?_, ?_, hden⟩
    · split at hlimit
      · rename_i hneg
        exact hneg.trans hpos
      · exact hlimit
    · split at hlimit
      · exact neg_lt.mp hlimit
      · rename_i hneg
        exact lt_of_lt_of_le (neg_lt_zero.mpr hpos) (not_lt.mp hneg)
  · exact .inl hshort

theorem finiteText_value (hF : F.Faithful) {v w : Double} (hv : specialName v = none)
    (hw : specialName w = none) (h : finiteText F v = finiteText F w) : v.value = w.value := by
  obtain ⟨f, hf, hexact, htext, -⟩ := finiteText_format F v
  obtain ⟨g, hg, hexact', htext', -⟩ := finiteText_format F w
  rw [htext, htext'] at h
  exact hF.float_value v w hv hw f hf g hg hexact hexact' h

/-- The names say what the float is. -/
theorem specialName_num {v : Double} {name : List Char} (h : specialName v = some name) :
    v.num = if name = "NaN".toList then .nan else .inf (decide (name = "-Inf".toList)) := by
  unfold specialName at h
  rw [Double.num]
  split at h
  · rename_i hnan
    cases h
    rw [if_pos hnan]
    rfl
  rename_i hnan
  rw [if_neg hnan]
  split at h
  · rename_i hinf
    rw [Bool.and_eq_true, Bool.not_eq_true'] at hinf
    cases h
    rw [if_pos hinf.1, hinf.2]
    rfl
  split at h
  · rename_i hinf
    rw [Bool.and_eq_true] at hinf
    cases h
    rw [if_pos hinf.1, hinf.2]
    rfl
  · cases h

theorem num_of_finite {v : Double} (h : specialName v = none) : v.num = .rat v.value := by
  unfold specialName at h
  rw [Double.num]
  split at h
  · cases h
  rename_i hnan
  rw [if_neg hnan]
  split at h
  · cases h
  rename_i hpos
  split at h
  · cases h
  rename_i hneg
  rw [if_neg]
  intro hinf
  rw [hinf, Bool.true_and] at hpos hneg
  cases hv : v.negative with
  | true => exact hneg hv
  | false => exact hpos (by rw [hv]; rfl)

theorem floatJson_num (hF : F.Faithful) {v w : Double} (h : floatJson F v = floatJson F w) :
    v.num = w.num := by
  rw [floatJson, floatJson] at h
  cases hv : specialName v with
  | some name =>
    rw [hv] at h
    cases hw : specialName w with
    | some name' =>
      rw [hw] at h
      rw [specialName_num hv, specialName_num hw, Json.str.inj h]
    | none =>
      rw [hw] at h
      cases h
  | none =>
    rw [hv] at h
    cases hw : specialName w with
    | some name' =>
      rw [hw] at h
      cases h
    | none =>
      rw [hw] at h
      rw [num_of_finite hv, num_of_finite hw, finiteText_value hF hv hw (Json.num.inj h)]

/-- A number in the tree is an integer or a finite float. -/
theorem toJson_eq_num {v : Bson} {t : List Char} (h : toJson F v = .num t) :
    (v.form = .int ∧ ∃ n : ℤ, n.natAbs ≤ 2 ^ 63 ∧ t = Json.ofInt n) ∨
      v.form = .float ∧ ∃ d, specialName d = none ∧ t = finiteText F d := by
  cases v with
  | int32 n => exact .inl ⟨rfl, n.toInt, by have := n.toInt_lt; have := n.le_toInt; omega,
      (Json.num.inj h).symm⟩
  | int64 n => exact .inl ⟨rfl, n.toInt, by have := n.toInt_lt; have := n.le_toInt; omega,
      (Json.num.inj h).symm⟩
  | double d =>
    right
    rw [toJson, floatJson] at h
    cases hd : specialName d with
    | some name =>
      rw [hd] at h
      cases h
    | none =>
      rw [hd] at h
      exact ⟨by rw [Bson.form, hd]; rfl, d, hd, (Json.num.inj h).symm⟩
  | _ => cases h

/-- The characters of an integer. -/
theorem ofInt_chars {n : ℤ} {c : Char} (h : c ∈ Json.ofInt n) : c.isDigit = true ∨ c = '-' := by
  rw [Json.ofInt, List.mem_append] at h
  rcases h with h | h
  · split at h
    · exact .inr (List.mem_singleton.mp h)
    · cases h
  · exact .inl ((Json.digits_toDigits _).2 c h)

theorem ofInt_ne_finiteText (hF : F.Faithful) (n : ℤ) {v : Double} (h : specialName v = none) :
    Json.ofInt n ≠ finiteText F v := by
  intro heq
  have hmark := finiteText_marked hF h
  rw [← heq] at hmark
  rcases hmark with hpoint | ⟨hexp, -⟩
  · rcases ofInt_chars hpoint with h | h <;> cases h
  · rcases ofInt_chars hexp with h | h <;> cases h

/-! ### Trees tell apart values that are alike -/

/-- The kind of JSON value of a form. -/
def Form.shape : Form → Json.Shape
  | .null => .null
  | .bool => .bool
  | .int | .float => .num
  | .quoted => .str
  | .object => .obj
  | .array => .arr

theorem shape_toJson (v : Bson) : (toJson F v).shape = v.form.shape := by
  cases v with
  | double d =>
    rw [toJson, floatJson, Bson.form]
    cases specialName d with
    | some | none => rfl
  | _ => rfl

/-- The form of a value can be read from its tree. -/
theorem form_eq_of_toJson (hF : F.Faithful) {v w : Bson} (h : toJson F v = toJson F w) :
    v.form = w.form := by
  have hshape : v.form.shape = w.form.shape := by rw [← shape_toJson, ← shape_toJson, h]
  by_cases hnum : v.form.shape = .num
  · -- integers and floats are both numbers
    obtain ⟨t, ht⟩ : ∃ t, toJson F v = .num t := by
      rw [← shape_toJson (F := F)] at hnum
      generalize toJson F v = j at hnum
      cases j with
      | num t => exact ⟨t, rfl⟩
      | _ => cases hnum
    rcases toJson_eq_num ht with ⟨hv, n, -, rfl⟩ | ⟨hv, d, hd, rfl⟩
    · rcases toJson_eq_num (h.symm.trans ht) with ⟨hw, -⟩ | ⟨-, d, hd, hn⟩
      · rw [hv, hw]
      · exact absurd hn (ofInt_ne_finiteText hF n hd)
    · rcases toJson_eq_num (h.symm.trans ht) with ⟨-, n, -, hn⟩ | ⟨hw, -⟩
      · exact absurd hn.symm (ofInt_ne_finiteText hF n hd)
      · rw [hv, hw]
  · cases hv : v.form <;> cases hw : w.form <;> rw [hv, hw] at hshape <;>
      first | rfl | exact absurd (by rw [hv]; rfl) hnum | cases hshape

theorem Alike.kind_eq {v w : Bson} (h : Alike v w) (hform : v.form = w.form) :
    v.kind = w.kind := by
  unfold Alike at h
  split at h
  · rfl
  · rfl
  · rfl
  · exact h hform

theorem objectID_eq {oid oid' : ObjectID} (h : hexEncode oid.bytes = hexEncode oid'.bytes) :
    oid = oid' := by
  cases oid
  cases oid'
  cases hexEncode_injective h
  rfl

theorem num_ofInt {m n : ℤ} (h : Json.ofInt m = Json.ofInt n) :
    Key.num (.rat m) = Key.num (.rat n) := by
  rw [Json.ofInt_injective h]

mutual
theorem key_eq_of_kind (hF : F.Faithful) : ∀ {v w : Bson}, v.kind = w.kind → Alike v w →
    v.Valid → w.Valid → toJson F v = toJson F w → key v = key w
  | .double d, w, hkind, _, _, _, htree => by
    cases w with
    | double d' => exact congrArg Key.num (floatJson_num hF htree)
    | _ => cases hkind
  | .string s, w, hkind, _, hv, hw, htree => by
    cases w with
    | string | symbol =>
      exact congrArg Key.str (GoString.chars_injective hv hw (Json.str.inj htree))
    | _ => cases hkind
  | .document doc, w, hkind, h, hv, hw, htree => by
    cases w with
    | document doc' =>
      exact congrArg Key.doc (keyFields_eq_of_members hF h hv hw (Json.obj.inj htree))
    | _ => cases hkind
  | .array arr, w, hkind, h, hv, hw, htree => by
    cases w with
    | array arr' =>
      exact congrArg Key.arr (keyItems_eq_of_elems hF h hv hw (Json.arr.inj htree))
    | _ => cases hkind
  | .binary subtype data, w, hkind, _, _, _, htree => by
    cases w with
    | binary subtype' data' =>
      simp only [toJson, Json.obj.injEq, List.cons.injEq, Prod.mk.injEq, Json.num.injEq,
        Json.str.injEq, true_and, and_true] at htree
      have hsub : subtype.toNat = subtype'.toNat := Int.ofNat.inj (Json.ofInt_injective htree.1)
      rw [UInt8.toNat_inj.mp hsub, base64_injective htree.2]
    | _ => cases hkind
  | .undefined, w, hkind, _, _, _, htree => by
    cases w with
    | undefined => rfl
    | _ => cases hkind
  | .objectID oid, w, hkind, _, _, _, htree => by
    cases w with
    | objectID oid' => exact congrArg Key.objectID (objectID_eq (Json.str.inj htree))
    | _ => cases hkind
  | .boolean b, w, hkind, _, _, _, htree => by
    cases w with
    | boolean b' => exact congrArg Key.boolean (Json.bool.inj htree)
    | _ => cases hkind
  | .dateTime ms, w, hkind, _, _, _, htree => by
    cases w with
    | dateTime ms' => exact congrArg Key.dateTime (hF.date_injective (Json.str.inj htree))
    | _ => cases hkind
  | .null, w, hkind, _, _, _, htree => by
    cases w with
    | null => rfl
    | _ => cases hkind
  | .regex pattern options, w, hkind, _, hv, hw, htree => by
    cases w with
    | regex pattern' options' =>
      simp only [toJson, Json.obj.injEq, List.cons.injEq, Prod.mk.injEq, Json.str.injEq,
        true_and, and_true] at htree
      rw [GoString.chars_injective hv.1 hw.1 htree.1, GoString.chars_injective hv.2 hw.2 htree.2]
    | _ => cases hkind
  | .dbPointer ns oid, w, hkind, _, hv, hw, htree => by
    cases w with
    | dbPointer ns' oid' =>
      simp only [toJson, Json.obj.injEq, List.cons.injEq, Prod.mk.injEq, Json.str.injEq,
        true_and, and_true] at htree
      rw [GoString.chars_injective hv hw htree.1, objectID_eq htree.2]
    | _ => cases hkind
  | .javaScript code, w, hkind, _, hv, hw, htree => by
    cases w with
    | javaScript code' =>
      exact congrArg Key.code (GoString.chars_injective hv hw (Json.str.inj htree))
    | _ => cases hkind
  | .symbol s, w, hkind, _, hv, hw, htree => by
    cases w with
    | string | symbol =>
      exact congrArg Key.str (GoString.chars_injective hv hw (Json.str.inj htree))
    | _ => cases hkind
  | .codeWithScope code scope, w, hkind, h, hv, hw, htree => by
    cases w with
    | codeWithScope code' scope' =>
      simp only [toJson, Json.obj.injEq, List.cons.injEq, Prod.mk.injEq, Json.str.injEq,
        true_and, and_true] at htree
      rw [key, key, GoString.chars_injective hv.1 hw.1 htree.1,
        keyFields_eq_of_members hF h hv.2 hw.2 htree.2]
    | _ => cases hkind
  | .int32 n, w, hkind, _, _, _, htree => by
    cases w with
    | int32 | int64 => exact num_ofInt (Json.num.inj htree)
    | _ => cases hkind
  | .timestamp t i, w, hkind, _, _, _, htree => by
    cases w with
    | timestamp t' i' =>
      simp only [toJson, Json.obj.injEq, List.cons.injEq, Prod.mk.injEq, Json.num.injEq,
        true_and, and_true] at htree
      have ht : t.toNat = t'.toNat := Int.ofNat.inj (Json.ofInt_injective htree.1)
      have hi : i.toNat = i'.toNat := Int.ofNat.inj (Json.ofInt_injective htree.2)
      rw [UInt32.toNat_inj.mp ht, UInt32.toNat_inj.mp hi]
    | _ => cases hkind
  | .int64 n, w, hkind, _, _, _, htree => by
    cases w with
    | int32 | int64 => exact num_ofInt (Json.num.inj htree)
    | _ => cases hkind
  | .decimal128 hi lo, w, hkind, _, _, _, htree => by
    cases w with
    | decimal128 hi' lo' =>
      exact congrArg Key.num (hF.decimal_num hi lo hi' lo' (Json.str.inj htree))
    | _ => cases hkind
  | .minKey, w, hkind, _, _, _, htree => by
    cases w with
    | minKey => rfl
    | _ => cases hkind
  | .maxKey, w, hkind, _, _, _, htree => by
    cases w with
    | maxKey => rfl
    | _ => cases hkind
termination_by structural v => v

theorem keyFields_eq_of_members (hF : F.Faithful) : ∀ {d e : Elements}, AlikeFields d e →
    d.Valid → e.Valid → members F d = members F e → keyFields d = keyFields e
  | .nil, .nil, _, _, _, _ => rfl
  | .nil, .cons _ _ _, _, _, _, htree => nomatch htree
  | .cons _ _ _, .nil, _, _, _, htree => nomatch htree
  | .cons name value rest, .cons name' value' rest', h, hd, he, htree => by
    simp only [members, List.cons.injEq, Prod.mk.injEq] at htree
    have hname : name = name' := GoString.chars_injective hd.1 he.1 htree.1.1
    have hkind := (h.1 hname).kind_eq (form_eq_of_toJson hF htree.1.2)
    rw [keyFields, keyFields, hname,
      key_eq_of_kind hF hkind (h.1 hname) hd.2.1 he.2.1 htree.1.2,
      keyFields_eq_of_members hF h.2 hd.2.2 he.2.2 htree.2]
termination_by structural d => d

theorem keyItems_eq_of_elems (hF : F.Faithful) : ∀ {d e : Elements}, AlikeItems d e →
    d.Valid → e.Valid → elems F d = elems F e → keyItems d = keyItems e
  | .nil, .nil, _, _, _, _ => rfl
  | .nil, .cons _ _ _, _, _, _, htree => nomatch htree
  | .cons _ _ _, .nil, _, _, _, htree => nomatch htree
  | .cons _ value rest, .cons _ value' rest', h, hd, he, htree => by
    simp only [elems, List.cons.injEq] at htree
    have hkind := h.1.kind_eq (form_eq_of_toJson hF htree.1)
    rw [keyItems, keyItems, key_eq_of_kind hF hkind h.1 hd.2.1 he.2.1 htree.1,
      keyItems_eq_of_elems hF h.2 hd.2.2 he.2.2 htree.2]
termination_by structural d => d
end

/-- **Trees separate keys**: alike values with the same tree are the same key. -/
theorem key_eq_of_toJson (hF : F.Faithful) {v w : Bson} (h : Alike v w) (hv : v.Valid)
    (hw : w.Valid) (htree : toJson F v = toJson F w) : key v = key w :=
  key_eq_of_kind hF (h.kind_eq (form_eq_of_toJson hF htree)) h hv hw htree

/-! ### The text of a tree -/

variable (F) in
mutual
/-- The text that the converter writes for the tree of a value. -/
def render : Json → List Char
  | .null => "null".toList
  | .bool b => if b then "true".toList else "false".toList
  | .num t => t
  | .str s => F.writeStringWithHTMLEscaped (GoString.ofChars s)
  | .arr xs => '[' :: (renderElems true xs ++ [']'])
  | .obj ms => '\x7b' :: (renderMembers true ms ++ ['\x7d'])
termination_by structural j => j

def renderElems : Bool → List Json → List Char
  | _, [] => []
  | first, x :: xs => Json.sep first ++ render x ++ renderElems false xs
termination_by structural _ xs => xs

def renderMembers : Bool → List (List Char × Json) → List Char
  | _, [] => []
  | first, (k, v) :: ms =>
    Json.sep first ++ (F.writeStringWithHTMLEscaped (GoString.ofChars k) ++ ':' :: render v) ++
      renderMembers false ms
termination_by structural _ ms => ms
end

/-- A string of whole characters. -/
theorem GoString.chars_ofChars (s : List Char) : (GoString.ofChars s).chars = s := by
  simp [GoString.chars, GoString.ofChars, Function.comp_def, Rune.toChar]

theorem GoString.ofChars_chars : ∀ {s : GoString}, s.Valid → GoString.ofChars s.chars = s := by
  intro s
  induction s with
  | nil => exact fun _ => rfl
  | cons r s ih =>
    intro h
    obtain ⟨c, rfl⟩ := h r List.mem_cons_self
    exact congrArg _ (ih fun r hr => h r (List.mem_cons_of_mem _ hr))

theorem render_string {s : GoString} (h : s.Valid) :
    F.writeStringWithHTMLEscaped s = render F (.str s.chars) := by
  rw [render, GoString.ofChars_chars h]

section Render

variable (hF : F.Faithful)

include hF

theorem render_quote {s : List Char} (h : ∀ c ∈ s, Safe c) : quote s = render F (.str s) :=
  (hF.string_safe s h).symm

theorem render_pair {k l : String} (hk : k.toList.all fun c => Safe c)
    (hl : l.toList.all fun c => Safe c) (x y : Json) :
    writePair k (render F x) l (render F y) = render F (.obj [(k.toList, x), (l.toList, y)]) := by
  simp [render, renderMembers, hF.string_safe _ (List.all_iff_forall_prop.mp hk),
    hF.string_safe _ (List.all_iff_forall_prop.mp hl), writePair, quote, Json.sep]

end Render

mutual
/-- **The text of a value is the text of its tree**: the types are not in it. -/
theorem rawValueToJSON_eq_render (hF : F.Faithful) :
    ∀ v : Bson, v.Valid → rawValueToJSON F v = render F (toJson F v)
  | .double v, _ => by
    rw [rawValueToJSON, writeFloat64JSON, toJson, floatJson]
    cases hname : specialName v with
    | some name => exact render_quote hF (specialName_safe hname)
    | none => rfl
  | .string s, h => render_string h
  | .document doc, h => by
    rw [rawValueToJSON, toJson, render, docElements_eq_render hF doc h]
  | .array arr, h => by
    rw [rawValueToJSON, toJson, render, arrayElements_eq_render hF arr h]
  | .binary subtype data, _ => by
    rw [rawValueToJSON,
      render_quote hF fun c hc => base64Char_safe (base64_chars data c hc)]
    exact render_pair hF (by decide) (by decide) (.num _) _
  | .undefined, _ => rfl
  | .objectID oid, _ => render_quote hF fun c hc => hexChar_safe (hexEncode_chars c hc)
  | .boolean _, _ => rfl
  | .dateTime ms, _ => render_quote hF (hF.date_safe ms)
  | .null, _ => rfl
  | .regex pattern options, h => by
    rw [rawValueToJSON, render_string h.1, render_string h.2]
    exact render_pair hF (by decide) (by decide) _ _
  | .dbPointer ns oid, h => by
    rw [rawValueToJSON, render_string h,
      render_quote hF fun c hc => hexChar_safe (hexEncode_chars c hc)]
    exact render_pair hF (by decide) (by decide) _ _
  | .javaScript code, h => render_string h
  | .symbol s, h => render_string h
  | .codeWithScope code scope, h => by
    rw [rawValueToJSON, render_string h.1, docElements_eq_render hF scope h.2]
    exact render_pair hF (by decide) (by decide) _ (.obj _)
  | .int32 _, _ => rfl
  | .timestamp t i, _ => render_pair hF (by decide) (by decide) (.num _) (.num _)
  | .int64 _, _ => rfl
  | .decimal128 h l, _ => by
    rw [rawValueToJSON, hF.writeString_safe _ (hF.decimal_safe h l)]
    exact render_quote hF (hF.decimal_safe h l)
  | .minKey, _ => rfl
  | .maxKey, _ => rfl
termination_by structural v => v

theorem docElements_eq_render (hF : F.Faithful) : ∀ (doc : Elements), doc.Valid →
    ∀ first, docElements F first doc = renderMembers F first (members F doc)
  | .nil, _, _ => rfl
  | .cons key value rest, h, first => by
    rw [docElements, members, renderMembers, rawValueToJSON_eq_render hF value h.2.1,
      docElements_eq_render hF rest h.2.2 false, GoString.ofChars_chars h.1]
termination_by structural doc => doc

theorem arrayElements_eq_render (hF : F.Faithful) : ∀ (arr : Elements), arr.Valid →
    ∀ first, arrayElements F first arr = renderElems F first (elems F arr)
  | .nil, _, _ => rfl
  | .cons _ value rest, h, first => by
    rw [arrayElements, elems, renderElems, rawValueToJSON_eq_render hF value h.2.1,
      arrayElements_eq_render hF rest h.2.2 false]
termination_by structural arr => arr
end

/-! ### Ids -/

theorem ofInt_length {n : ℤ} (h : n.natAbs ≤ 2 ^ 63) : (Json.ofInt n).length ≤ 20 := by
  have hdigits : (Nat.toDigits 10 n.natAbs).length ≤ 19 :=
    (Nat.length_toDigits_le_iff (by decide) (by decide)).mpr (by omega)
  rw [Json.ofInt, List.length_append]
  split
  · exact Nat.add_le_add (Nat.le_refl 1) hdigits
  · exact Nat.le_trans (Nat.add_le_add (Nat.le_refl 0) hdigits) (by decide)

theorem hexEncode_ne_text (hF : F.Faithful) (oid : ObjectID) (v : Bson) :
    hexEncode oid.bytes ≠ rawValueToJSON F v := by
  intro heq
  have htext := rawValueToJSON_text hF v
  have hchars : ∀ c ∈ hexEncode oid.bytes, HexChar c := hexEncode_chars
  have hlen : (hexEncode oid.bytes).length = 24 := by
    rw [hexEncode_length, oid.length_eq]
  rw [← heq] at htext
  generalize hexEncode oid.bytes = t at htext hchars hlen
  cases hj : toJson F v with
  | null =>
    rw [hj] at htext
    rw [show t = _ from htext] at hlen
    cases hlen
  | bool b =>
    rw [hj] at htext
    rw [show t = _ from htext] at hlen
    cases b <;> cases hlen
  | num n =>
    rw [hj] at htext
    obtain ⟨-, rfl⟩ := htext
    rcases toJson_eq_num hj with ⟨-, n, hn, rfl⟩ | ⟨-, d, hd, rfl⟩
    · have := ofInt_length hn
      omega
    · have hno : ¬ HexChar '.' ∧ ¬ HexChar '+' ∧ ¬ HexChar '-' := by
        unfold HexChar
        decide
      rcases finiteText_marked hF hd with h | ⟨-, h | h⟩
      · exact hno.1 (hchars _ h)
      · exact hno.2.1 (hchars _ h)
      · exact hno.2.2 (hchars _ h)
  | str s =>
    rw [hj] at htext
    obtain ⟨b, -, rfl⟩ := htext
    exact absurd (hchars '"' List.mem_cons_self) (by unfold HexChar; decide)
  | arr xs =>
    rw [hj] at htext
    obtain ⟨b, -, rfl⟩ := htext
    exact absurd (hchars '[' List.mem_cons_self) (by unfold HexChar; decide)
  | obj ms =>
    rw [hj] at htext
    obtain ⟨b, -, rfl⟩ := htext
    exact absurd (hchars '\x7b' List.mem_cons_self) (by unfold HexChar; decide)

/-- The id is neither a string nor an ObjectID. -/
def Bson.AsJson (v : Bson) : Prop := (∀ s, v ≠ .string s) ∧ ∀ oid, v ≠ .objectID oid

variable (F) in
/-- The three ways to show an id in the latest version. -/
inductive Shown : Bson → GoString → Prop
  | string (s : GoString) : Shown (.string s) s
  | objectID (oid : ObjectID) : Shown (.objectID oid) (GoString.ofChars (hexEncode oid.bytes))
  | json {v : Bson} (hv : v.AsJson) : Shown v (GoString.ofChars (rawValueToJSON F v))

theorem shown_qValueStringFromId (v : Bson) :
    Shown F v (qValueStringFromId F internalVersionLatest v) := by
  cases v with
  | string s => exact .string s
  | objectID oid => exact .objectID oid
  | _ => exact .json ⟨nofun, nofun⟩

theorem GoString.ofChars_injective : Function.Injective GoString.ofChars :=
  List.map_injective_iff.mpr fun _ _ h => Rune.char.inj h

variable (F) in
/-- Two ids that are one text with two types: a string that is the text of the other id, or two
values with the same JSON tree. -/
inductive Retyped : Bson → Bson → Prop
  | hexLeft (oid : ObjectID) :
    Retyped (.string (GoString.ofChars (hexEncode oid.bytes))) (.objectID oid)
  | hexRight (oid : ObjectID) :
    Retyped (.objectID oid) (.string (GoString.ofChars (hexEncode oid.bytes)))
  | textLeft {v : Bson} (hv : v.AsJson) :
    Retyped (.string (GoString.ofChars (rawValueToJSON F v))) v
  | textRight {v : Bson} (hv : v.AsJson) :
    Retyped v (.string (GoString.ofChars (rawValueToJSON F v)))
  | tree {v w : Bson} (hv : v.AsJson) (hw : w.AsJson) (htree : toJson F v = toJson F w) :
    Retyped v w

/-- The string is neither a JSON text nor the digits of an ObjectID. -/
def NoKeyText (s : GoString) : Prop :=
  (∀ j t, Json.Text j t → s ≠ GoString.ofChars t) ∧
    ∀ oid : ObjectID, s ≠ GoString.ofChars (hexEncode oid.bytes)

/-- A string next to an id of another type is no text of such an id, and two ids that are both
written as JSON have no two types that are written alike in the same place. -/
structure IdsAlike (v w : Bson) : Prop where
  left : ∀ s, v = .string s → (∀ t, w ≠ .string t) → NoKeyText s
  right : ∀ s, w = .string s → (∀ t, v ≠ .string t) → NoKeyText s
  json : v.AsJson → w.AsJson → Alike v w

theorem Bson.AsJson.shown {v : Bson} (h : v.AsJson) :
    qValueStringFromId F internalVersionLatest v = GoString.ofChars (rawValueToJSON F v) := by
  cases v with
  | string s => exact absurd rfl (h.1 s)
  | objectID oid => exact absurd rfl (h.2 oid)
  | _ => rfl

/-- One text is one string. -/
theorem Retyped.shown_eq (hF : F.Faithful) {v w : Bson} (hv : v.Valid) (hw : w.Valid)
    (h : Retyped F v w) : qValueStringFromId F internalVersionLatest v =
      qValueStringFromId F internalVersionLatest w := by
  cases h with
  | hexLeft | hexRight => rfl
  | textLeft h => exact h.shown.symm
  | textRight h => exact h.shown
  | tree h h' htree =>
    rw [h.shown, h'.shown, rawValueToJSON_eq_render hF v hv, rawValueToJSON_eq_render hF w hw,
      htree]

/-- Different ids with one string are one text with two types. -/
theorem retyped_of_shown_eq (hF : F.Faithful) {v w : Bson} (hne : key v ≠ key w)
    (heq : qValueStringFromId F internalVersionLatest v =
      qValueStringFromId F internalVersionLatest w) : Retyped F v w := by
  have hv := shown_qValueStringFromId (F := F) v
  have hw := shown_qValueStringFromId (F := F) w
  rw [heq] at hv
  generalize qValueStringFromId F internalVersionLatest w = shown at hv hw
  cases hv with
  | string s =>
    cases hw with
    | string _ => exact absurd rfl hne
    | objectID oid => exact .hexLeft oid
    | json hjson => exact .textLeft hjson
  | objectID oid =>
    generalize htext : GoString.ofChars (hexEncode oid.bytes) = shown at hw
    cases hw with
    | string s =>
      subst htext
      exact .hexRight oid
    | objectID oid' =>
      rw [objectID_eq (GoString.ofChars_injective htext)] at hne
      exact absurd rfl hne
    | json hjson => exact absurd (GoString.ofChars_injective htext) (hexEncode_ne_text hF oid w)
  | json hv =>
    generalize htext : GoString.ofChars (rawValueToJSON F v) = shown at hw
    cases hw with
    | string s =>
      subst htext
      exact .textRight hv
    | objectID oid =>
      exact absurd (GoString.ofChars_injective htext.symm) (hexEncode_ne_text hF oid v)
    | json hw =>
      have htext' := rawValueToJSON_text hF v
      rw [GoString.ofChars_injective htext] at htext'
      exact .tree hv hw (Json.text_injective htext' (rawValueToJSON_text hF w))

theorem IdsAlike.not_retyped (hF : F.Faithful) {v w : Bson} (hv : v.Valid) (hw : w.Valid)
    (hne : key v ≠ key w) (h : IdsAlike v w) : ¬ Retyped F v w := by
  intro hretyped
  cases hretyped with
  | hexLeft oid => exact (h.left _ rfl nofun).2 oid rfl
  | hexRight oid => exact (h.right _ rfl nofun).2 oid rfl
  | textLeft hjson => exact (h.left _ rfl hjson.1).1 _ _ (rawValueToJSON_text hF w) rfl
  | textRight hjson => exact (h.right _ rfl hjson.1).1 _ _ (rawValueToJSON_text hF v) rfl
  | tree hjson hjson' htree =>
    exact hne (key_eq_of_toJson hF (h.json hjson hjson') hv hw htree)

/-- **Document keys stay distinct exactly for ids that are not one text with two types**: two
ids that MongoDB takes to be different keys have different strings in the latest version if and
only if neither is a string that is the text of the other, and they do not have the same JSON
tree.  So it is for ids that are alike. -/
theorem documentKeys_distinct_iff (hF : F.Faithful) {v w : Bson} (hv : v.Valid) (hw : w.Valid)
    (hne : key v ≠ key w) :
    (qValueStringFromId F internalVersionLatest v ≠ qValueStringFromId F internalVersionLatest w ↔
      ¬ Retyped F v w) ∧ (IdsAlike v w → ¬ Retyped F v w) :=
  ⟨not_congr ⟨retyped_of_shown_eq hF hne, Retyped.shown_eq hF hv hw⟩,
    IdsAlike.not_retyped hF hv hw hne⟩

end Keys

/-- A string writer that escapes no more than it has to, by code. -/
def escapeChar (c : Char) : List Char :=
  if Json.Plain c then [c]
  else ['\\', 'u', '0', '0', hexDigit (c.toNat / 16), hexDigit (c.toNat % 16)]

theorem escapeChar_spells (c : Char) : Json.Spells (escapeChar c) c := by
  rw [escapeChar]
  split_ifs with hplain
  · exact Json.spells_plain hplain
  · have hsmall : c.toNat < 128 := by
      by_contra hlarge
      refine hplain ⟨?_, ?_, by omega⟩ <;>
      · rintro rfl
        exact hlarge (by decide)
    have hdigit : ∀ n < 16, Hex.digitValue (hexDigit n) = some n := by decide
    have hcode : 4096 * 0 + 256 * 0 + 16 * (c.toNat / 16) + c.toNat % 16 = c.toNat := by omega
    have hzero : Hex.digitValue '0' = some 0 := rfl
    have hspells := Json.spells_code hzero hzero (hdigit (c.toNat / 16) (by omega))
      (hdigit (c.toNat % 16) (by omega)) (by omega)
    rwa [hcode, Char.ofNat_toNat] at hspells

theorem chars_escape (s : List Char) : Json.Chars s (s.flatMap escapeChar) := by
  induction s with
  | nil => rfl
  | cons c s ih => exact ⟨_, _, escapeChar_spells c, ih, rfl⟩

/-- Texts in the manner of the libraries: an integer is written as a float with one digit after
the point; the others by their bits. -/
def sampleFormats : Formats where
  appendFloat v _ _ :=
    if v.value.den = 1 then Json.ofInt v.value.num ++ ['.', '0']
    else Json.ofInt v.bits.toNat ++ ['.', '5']
  rfc3339Nano ms := Json.ofInt ms.toInt
  decimal128String h l := Json.ofInt (h.toNat * 2 ^ 64 + l.toNat : ℕ)
  writeString s := quote (s.chars.flatMap escapeChar)
  writeStringWithHTMLEscaped s := quote (s.chars.flatMap escapeChar)

theorem number_point (n : ℤ) {d : Char} (hd : d.isDigit = true) :
    Json.Number (Json.ofInt n ++ ['.', d]) := by
  refine ⟨_, Nat.toDigits 10 n.natAbs, ['.', d], [], by rw [List.append_nil]; rfl, ?_,
    ⟨Json.digits_toDigits _, fun h => ?_⟩, .inr ⟨[d], ⟨by simp, by simpa using hd⟩, rfl⟩, .inl rfl⟩
  · by_cases hn : n < 0
    · exact .inr (if_pos hn)
    · exact .inl (if_neg hn)
  · rw [Json.toDigits_head _ h]
    rfl

theorem sampleFormats_faithful : sampleFormats.Faithful := by
  have hsafe : ∀ n : ℤ, ∀ c ∈ Json.ofInt n, Safe c := by
    intro n c hc
    rcases ofInt_chars hc with h | rfl
    · rw [Char.isDigit, Bool.and_eq_true, decide_eq_true_eq, decide_eq_true_eq] at h
      have hge : 48 ≤ c.toNat := h.1
      have hle : c.toNat ≤ 57 := h.2
      have hnone : ∀ d ∈ ['"', '\\', '<', '>', '&'], d.toNat < 48 ∨ 57 < d.toNat := by simp
      refine ⟨by omega, by omega, fun hmem => ?_⟩
      have := hnone c hmem
      omega
    · decide
  have hstring : ∀ s : List Char, (∀ c ∈ s, Safe c) →
      quote ((GoString.ofChars s).chars.flatMap escapeChar) = quote s := by
    intro s h
    have hplain : s.flatMap escapeChar = s.flatMap fun c => [c] :=
      List.flatMap_congr fun c hc => if_pos (h c hc).plain
    rw [GoString.chars_ofChars, hplain, List.flatMap_singleton']
  constructor
  · intro v _ f _
    show Json.Number (if _ then _ else _)
    split_ifs <;> exact number_point _ (by decide)
  · intro v _ f _ _
    left
    show '.' ∈ if _ then _ else _
    split_ifs <;> exact List.mem_append_right _ List.mem_cons_self
  · intro v w _ _ f _ g _ _ _ h
    replace h : (if v.value.den = 1 then Json.ofInt v.value.num ++ ['.', '0']
        else Json.ofInt v.bits.toNat ++ ['.', '5']) =
      if w.value.den = 1 then Json.ofInt w.value.num ++ ['.', '0']
        else Json.ofInt w.bits.toNat ++ ['.', '5'] := h
    split_ifs at h with hv hw hw
    · exact Rat.ext (Json.ofInt_injective (List.append_cancel_right h)) (hv.trans hw.symm)
    · cases (List.append_inj' h rfl).2
    · cases (List.append_inj' h rfl).2
    · have hbits := Json.ofInt_injective (List.append_cancel_right h)
      exact congrArg Double.value (congrArg Double.mk (UInt64.toNat_inj.mp (Int.ofNat.inj hbits)))
  · exact fun ms => hsafe _
  · exact fun ms ms' h => Int64.toInt_inj.mp (Json.ofInt_injective h)
  · exact fun h l => hsafe _
  · intro h l h' l' heq
    have hsum : h.toNat * 2 ^ 64 + l.toNat = h'.toNat * 2 ^ 64 + l'.toNat :=
      Int.ofNat.inj (Json.ofInt_injective heq)
    have hl : l.toNat < 2 ^ 64 := l.toNat_lt
    have hl' : l'.toNat < 2 ^ 64 := l'.toNat_lt
    have hhigh : h = h' := UInt64.toNat_inj.mp (by omega)
    have hlow : l = l' := UInt64.toNat_inj.mp (by omega)
    rw [hhigh, hlow]
  · exact fun s => ⟨_, chars_escape s.chars, rfl⟩
  · exact hstring
  · exact hstring

/-- The id `{n: n, name: name}`. -/
def namedId (n : Int32) (name : String) : Bson :=
  .document (.cons (GoString.ofChars "n".toList) (.int32 n)
    (.cons (GoString.ofChars "name".toList) (.string (GoString.ofChars name.toList)) .nil))

theorem documentKeys_distinct_namedId :
    key (namedId 1 "a") ≠ key (namedId 1 "b") ∧
      qValueStringFromId sampleFormats internalVersionLatest (namedId 1 "a") ≠
        qValueStringFromId sampleFormats internalVersionLatest (namedId 1 "b") := by
  have hne : key (namedId 1 "a") ≠ key (namedId 1 "b") := by
    intro h
    simp [namedId, key, keyFields, GoString.ofChars] at h
  have hchars : ∀ s : String, (GoString.ofChars s.toList).Valid := by
    intro s r hr
    obtain ⟨c, -, hc⟩ := List.mem_map.mp hr
    exact ⟨c, hc.symm⟩
  have hvalid : ∀ s, (namedId 1 s).Valid :=
    fun s => ⟨hchars "n", trivial, hchars "name", hchars s, trivial⟩
  obtain ⟨hiff, halike⟩ := documentKeys_distinct_iff sampleFormats_faithful (hvalid "a")
    (hvalid "b") hne
  exact ⟨hne, hiff.mpr (halike ⟨nofun, nofun, fun _ _ =>
    ⟨fun _ => fun _ => rfl, fun _ => fun _ => rfl, trivial⟩⟩)⟩

def exampleOID : ObjectID :=
  ⟨[0x50, 0x7f, 0x1f, 0x77, 0xbc, 0xf8, 0x6c, 0xd7, 0x99, 0x43, 0x90, 0x11], rfl⟩

/-- **Two ids share a key**: an ObjectID and the string of its digits, and the smallest and
the largest key, are different ids with the same string. -/
theorem hexString_collides :
    (key (.string (GoString.ofChars "507f1f77bcf86cd799439011".toList)) ≠
        key (.objectID exampleOID) ∧
      ∀ F, qValueStringFromId F internalVersionLatest
          (.string (GoString.ofChars "507f1f77bcf86cd799439011".toList)) =
        qValueStringFromId F internalVersionLatest (.objectID exampleOID)) ∧
    key .minKey ≠ key .maxKey ∧
      ∀ F, qValueStringFromId F internalVersionLatest .minKey =
        qValueStringFromId F internalVersionLatest .maxKey :=
  ⟨⟨nofun, fun _ => rfl⟩, nofun, fun _ => rfl⟩

end Mongo
