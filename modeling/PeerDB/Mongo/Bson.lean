/-
BSON values and their JSON texts (`connectors/mongo/qvalue_convert.go`).

A raw value is modelled as the tree that is read from its bytes.  The converter writes the
JSON text of a tree directly, branch by branch; `toJson` is the tree of that text:

* `rawValueToJSON_text` — what `rawValueToJSON` writes is a text of `toJson`.

The texts of strings, floats, dates and decimals come from libraries (`Formats`).
-/
import PeerDB.Lib.Json
import PeerDB.Lib.Encoding
import Mathlib.Data.Bool.AllAny
import Mathlib.Data.Rat.Defs

namespace Mongo

open Encoding

/-! ### Strings -/

/-- What Go reads next from a string: a character, or a byte that is not part of one. -/
inductive Rune where
  | char (c : Char)
  | bad (b : UInt8)
  deriving DecidableEq, Repr

/-- A Go string, as `utf8.DecodeRuneInString` reads it. -/
abbrev GoString := List Rune

def GoString.ofChars (s : List Char) : GoString := s.map Rune.char

def GoString.Valid (s : GoString) : Prop := ∀ r ∈ s, ∃ c, r = .char c

/-- A bad byte is read as the replacement character. -/
def Rune.toChar : Rune → Char
  | .char c => c
  | .bad _ => '\ufffd'

def GoString.chars (s : GoString) : List Char := s.map Rune.toChar

theorem GoString.chars_injective : ∀ {s s' : GoString}, s.Valid → s'.Valid →
    s.chars = s'.chars → s = s' := by
  intro s
  induction s with
  | nil =>
    intro s' _ _ h
    cases s' with
    | nil => rfl
    | cons r' s' => cases h
  | cons r s ih =>
    intro s' hs hs' h
    cases s' with
    | nil => cases h
    | cons r' s' =>
      obtain ⟨hr, hrest⟩ := List.cons.inj h
      obtain ⟨c, rfl⟩ := hs r List.mem_cons_self
      obtain ⟨c', rfl⟩ := hs' r' List.mem_cons_self
      rw [show c = c' from hr, ih (fun x hx => hs x (List.mem_cons_of_mem _ hx))
        (fun x hx => hs' x (List.mem_cons_of_mem _ hx)) hrest]

/-- A character of ASCII that stands for itself in every JSON string, in HTML too. -/
def Safe (c : Char) : Prop :=
  0x20 ≤ c.toNat ∧ c.toNat < 0x7f ∧ c ∉ ['"', '\\', '<', '>', '&']

instance (c : Char) : Decidable (Safe c) := inferInstanceAs (Decidable (_ ∧ _ ∧ _))

theorem Safe.plain {c : Char} (h : Safe c) : Json.Plain c := by
  refine ⟨?_, ?_, h.1⟩
  · rintro rfl
    exact h.2.2 (by decide)
  · rintro rfl
    exact h.2.2 (by decide)

/-- A text written between raw quotes. -/
def quote (s : List Char) : List Char := '"' :: (s ++ ['"'])

/-- An object with two fixed keys, as the branches for the types that are none in JSON write
it: the key `k` with the text `a`, and `l` with `b`. -/
def writePair (k : String) (a : List Char) (l : String) (b : List Char) : List Char :=
  '\x7b' :: '"' :: (k.toList ++ '"' :: ':' :: (a ++
    ',' :: '"' :: (l.toList ++ '"' :: ':' :: (b ++ ['\x7d']))))

/-! ### Numbers -/

/-- A number that MongoDB compares with others, whatever its type. -/
inductive Num where
  | nan
  | inf (negative : Bool)
  | rat (q : ℚ)
  deriving DecidableEq

/-- A `float64`, by its bits. -/
structure Double where
  bits : UInt64
  deriving DecidableEq, Repr

namespace Double

def negative (v : Double) : Bool := v.bits.toNat / 2 ^ 63 = 1
def exponent (v : Double) : ℕ := v.bits.toNat / 2 ^ 52 % 2 ^ 11
def fraction (v : Double) : ℕ := v.bits.toNat % 2 ^ 52

def isNaN (v : Double) : Bool := v.exponent = 2047 ∧ v.fraction ≠ 0
def isInf (v : Double) : Bool := v.exponent = 2047 ∧ v.fraction = 0

/-- The number that a finite float is. -/
def value (v : Double) : ℚ :=
  let mantissa : ℤ := if v.exponent = 0 then v.fraction else 2 ^ 52 + v.fraction
  let signed : ℤ := if v.negative then -mantissa else mantissa
  -- the exponent is biased, and subnormal numbers have the one of the smallest normal ones
  if 1075 ≤ v.exponent then (signed : ℚ) * 2 ^ (v.exponent - 1075)
  else (signed : ℚ) / 2 ^ (1075 - max v.exponent 1)

def num (v : Double) : Num :=
  if v.isNaN then .nan else if v.isInf then .inf v.negative else .rat v.value

end Double

/-- The number of a `Decimal128` with the given halves.  Coefficients out of range are
zero. -/
def decimalNum (h l : UInt64) : Num :=
  let negative : Bool := h.toNat / 2 ^ 63 = 1
  if h.toNat / 2 ^ 58 % 32 = 31 then .nan
  else if h.toNat / 2 ^ 58 % 32 = 30 then .inf negative
  else if h.toNat / 2 ^ 61 % 4 = 3 then .rat 0
  else
    let coefficient : ℕ := h.toNat % 2 ^ 49 * 2 ^ 64 + l.toNat
    let exponent : ℕ := h.toNat / 2 ^ 49 % 2 ^ 14
    let signed : ℤ := if negative then -(coefficient : ℤ) else coefficient
    if 10 ^ 34 ≤ coefficient then .rat 0
    else if 6176 ≤ exponent then .rat ((signed : ℚ) * 10 ^ (exponent - 6176))
    else .rat ((signed : ℚ) / 10 ^ (6176 - exponent))

/-- Texts from libraries: `strconv.AppendFloat` with a format and a precision, a date in
milliseconds as `RFC3339Nano`, `Decimal128.String`, and what a jsoniter stream writes for a
string. -/
structure Formats where
  appendFloat : Double → Char → ℤ → List Char
  rfc3339Nano : Int64 → List Char
  decimal128String : UInt64 → UInt64 → List Char
  writeString : GoString → List Char
  writeStringWithHTMLEscaped : GoString → List Char

def floatLimit : ℚ := 10 ^ 21

/-- The float nearest to `1e-6`. -/
def oneMillionth : Double := ⟨0x3eb0c6f7a0b5ed8d⟩

/-- The last two branches of `writeFloat64JSON`, for a float that is finite. -/
def finiteText (F : Formats) (v : Double) : List Char :=
  if v.value < floatLimit ∧ -floatLimit < v.value ∧ v.value.den = 1 then F.appendFloat v 'f' 1
  else
    let abs := if v.value < 0 then -v.value else v.value
    let format := if abs ≠ 0 ∧ (abs < oneMillionth.value ∨ floatLimit ≤ abs) then 'e' else 'f'
    F.appendFloat v format (-1)

/-- The name of a float that is not finite. -/
def specialName (v : Double) : Option (List Char) :=
  if v.isNaN then some "NaN".toList
  else if v.isInf && !v.negative then some "+Inf".toList
  else if v.isInf && v.negative then some "-Inf".toList
  else none

def writeFloat64JSON (F : Formats) (v : Double) : List Char :=
  match specialName v with
  | some name => quote name
  | none => finiteText F v

/-- The formats and precisions that `writeFloat64JSON` asks for. -/
def floatFormats : List (Char × ℤ) := [('f', 1), ('f', -1), ('e', -1)]

/-- A text that `AppendFloat` does not round: with the shortest precision, or of an integer. -/
def Double.Exact (v : Double) (prec : ℤ) : Prop := prec = -1 ∨ v.value.den = 1

/-- What the texts of the libraries have in common.  In the formats that are used a finite float
is a number that can be read back if it is not rounded, and has a point or a signed exponent if
it is written with a fraction or in scientific notation.  A date and a decimal can be read back,
and need no escaping.  A string is written as a JSON string, with the replacement character for
a bad byte, and characters that need no escaping are not escaped. -/
structure Formats.Faithful (F : Formats) : Prop where
  float_number : ∀ v, specialName v = none → ∀ f ∈ floatFormats,
    Json.Number (F.appendFloat v f.1 f.2)
  float_marked : ∀ v, specialName v = none → ∀ f ∈ floatFormats,
    f ≠ ('f', -1) ∨ v.value.den ≠ 1 → '.' ∈ F.appendFloat v f.1 f.2 ∨
      'e' ∈ F.appendFloat v f.1 f.2 ∧
        ('+' ∈ F.appendFloat v f.1 f.2 ∨ '-' ∈ F.appendFloat v f.1 f.2)
  float_value : ∀ v w, specialName v = none → specialName w = none → ∀ f ∈ floatFormats,
    ∀ g ∈ floatFormats, v.Exact f.2 → w.Exact g.2 →
      F.appendFloat v f.1 f.2 = F.appendFloat w g.1 g.2 → v.value = w.value
  date_safe : ∀ ms, ∀ c ∈ F.rfc3339Nano ms, Safe c
  date_injective : Function.Injective F.rfc3339Nano
  decimal_safe : ∀ h l, ∀ c ∈ F.decimal128String h l, Safe c
  decimal_num : ∀ h l h' l', F.decimal128String h l = F.decimal128String h' l' →
    decimalNum h l = decimalNum h' l'
  string_text : ∀ s, Json.Text (.str s.chars) (F.writeStringWithHTMLEscaped s)
  string_safe : ∀ s : List Char, (∀ c ∈ s, Safe c) →
    F.writeStringWithHTMLEscaped (GoString.ofChars s) = quote s
  writeString_safe : ∀ s : List Char, (∀ c ∈ s, Safe c) →
    F.writeString (GoString.ofChars s) = quote s

/-! ### Values -/

structure ObjectID where
  bytes : List UInt8
  length_eq : bytes.length = 12
  deriving DecidableEq

mutual
/-- `bsoncore.Value`, one constructor per type.  An array is a document whose keys are not
read. -/
inductive Bson where
  | double (v : Double)
  | string (s : GoString)
  | document (doc : Elements)
  | array (arr : Elements)
  | binary (subtype : UInt8) (data : List UInt8)
  | undefined
  | objectID (oid : ObjectID)
  | boolean (b : Bool)
  | dateTime (ms : Int64)
  | null
  | regex (pattern options : GoString)
  | dbPointer (ns : GoString) (oid : ObjectID)
  | javaScript (code : GoString)
  | symbol (s : GoString)
  | codeWithScope (code : GoString) (scope : Elements)
  | int32 (n : Int32)
  | timestamp (t i : UInt32)
  | int64 (n : Int64)
  | decimal128 (h l : UInt64)
  | minKey
  | maxKey

/-- `bsoncore.Document`: its elements in order. -/
inductive Elements where
  | nil
  | cons (key : GoString) (value : Bson) (rest : Elements)
end

section Writer

variable (F : Formats)

mutual
def rawValueToJSON : Bson → List Char
  | .double v => writeFloat64JSON F v
  | .string s => F.writeStringWithHTMLEscaped s
  | .document doc => '\x7b' :: (docElements true doc ++ ['\x7d'])
  | .array arr => '[' :: (arrayElements true arr ++ [']'])
  | .binary subtype data =>
    writePair "Subtype" (Json.ofInt subtype.toNat) "Data" (quote (base64 data))
  | .undefined => "\x7b\x7d".toList
  | .objectID oid => quote (hexEncode oid.bytes)
  | .boolean b => if b then "true".toList else "false".toList
  | .dateTime ms => quote (F.rfc3339Nano ms)
  | .null => "null".toList
  | .regex pattern options =>
    writePair "Pattern" (F.writeStringWithHTMLEscaped pattern)
      "Options" (F.writeStringWithHTMLEscaped options)
  | .dbPointer ns oid =>
    writePair "DB" (F.writeStringWithHTMLEscaped ns) "Pointer" (quote (hexEncode oid.bytes))
  | .javaScript code => F.writeStringWithHTMLEscaped code
  | .symbol s => F.writeStringWithHTMLEscaped s
  | .codeWithScope code scope =>
    writePair "Code" (F.writeStringWithHTMLEscaped code)
      "Scope" ('\x7b' :: (docElements true scope ++ ['\x7d']))
  | .int32 n => Json.ofInt n.toInt
  | .timestamp t i =>
    writePair "T" (Json.ofInt t.toNat) "I" (Json.ofInt i.toNat)
  | .int64 n => Json.ofInt n.toInt
  | .decimal128 h l => F.writeString (GoString.ofChars (F.decimal128String h l))
  | .minKey => "\x7b\x7d".toList
  | .maxKey => "\x7b\x7d".toList
termination_by structural v => v

/-- The loop of `rawDocToJSON`. -/
def docElements : Bool → Elements → List Char
  | _, .nil => []
  | first, .cons key value rest =>
    Json.sep first ++ (F.writeStringWithHTMLEscaped key ++ ':' :: rawValueToJSON value) ++
      docElements false rest
termination_by structural _ doc => doc

/-- The loop of `rawArrayToJSON`. -/
def arrayElements : Bool → Elements → List Char
  | _, .nil => []
  | first, .cons _ value rest =>
    Json.sep first ++ rawValueToJSON value ++ arrayElements false rest
termination_by structural _ arr => arr
end

def rawDocToJSON (doc : Elements) : List Char := '\x7b' :: (docElements F true doc ++ ['\x7d'])

/-! ### The tree of the text -/

def floatJson (v : Double) : Json :=
  match specialName v with
  | some name => .str name
  | none => .num (finiteText F v)

mutual
def toJson : Bson → Json
  | .double v => floatJson F v
  | .string s => .str s.chars
  | .document doc => .obj (members doc)
  | .array arr => .arr (elems arr)
  | .binary subtype data =>
    .obj [("Subtype".toList, .num (Json.ofInt subtype.toNat)),
      ("Data".toList, .str (base64 data))]
  | .undefined => .obj []
  | .objectID oid => .str (hexEncode oid.bytes)
  | .boolean b => .bool b
  | .dateTime ms => .str (F.rfc3339Nano ms)
  | .null => .null
  | .regex pattern options =>
    .obj [("Pattern".toList, .str pattern.chars), ("Options".toList, .str options.chars)]
  | .dbPointer ns oid =>
    .obj [("DB".toList, .str ns.chars), ("Pointer".toList, .str (hexEncode oid.bytes))]
  | .javaScript code => .str code.chars
  | .symbol s => .str s.chars
  | .codeWithScope code scope =>
    .obj [("Code".toList, .str code.chars), ("Scope".toList, .obj (members scope))]
  | .int32 n => .num (Json.ofInt n.toInt)
  | .timestamp t i =>
    .obj [("T".toList, .num (Json.ofInt t.toNat)), ("I".toList, .num (Json.ofInt i.toNat))]
  | .int64 n => .num (Json.ofInt n.toInt)
  | .decimal128 h l => .str (F.decimal128String h l)
  | .minKey => .obj []
  | .maxKey => .obj []
termination_by structural v => v

def members : Elements → List (List Char × Json)
  | .nil => []
  | .cons key value rest => (key.chars, toJson value) :: members rest
termination_by structural doc => doc

def elems : Elements → List Json
  | .nil => []
  | .cons _ value rest => toJson value :: elems rest
termination_by structural arr => arr
end

theorem hexChar_safe {c : Char} (h : HexChar c) : Safe c := by
  have hall : ∀ c ∈ "0123456789abcdef".toList, Safe c := List.all_iff_forall_prop.mp (by decide)
  exact hall c h

theorem base64Char_safe {c : Char} (h : Base64Char c) : Safe c := by
  have hall : ∀ c ∈ base64Alphabet, Safe c := List.all_iff_forall_prop.mp (by decide)
  rcases h with rfl | h
  · decide
  · exact hall c h

/-- A text without special characters between quotes. -/
theorem text_quote {s : List Char} (h : ∀ c ∈ s, Safe c) : Json.Text (.str s) (quote s) :=
  ⟨s, Json.chars_plain fun c hc => (h c hc).plain, rfl⟩

theorem text_hex (oid : ObjectID) :
    Json.Text (.str (hexEncode oid.bytes)) (quote (hexEncode oid.bytes)) :=
  text_quote fun c hc => hexChar_safe (hexEncode_chars c hc)

theorem text_ofInt (n : ℤ) : Json.Text (.num (Json.ofInt n)) (Json.ofInt n) :=
  Json.text_num (Json.number_ofInt n)

theorem text_writePair {k l : String} {a b : List Char} {v w : Json}
    (hk : k.toList.all fun c => Json.Plain c) (hl : l.toList.all fun c => Json.Plain c)
    (hv : Json.Text v a) (hw : Json.Text w b) :
    Json.Text (.obj [(k.toList, v), (l.toList, w)]) (writePair k a l b) := by
  have hlast : Json.Members false [(l.toList, w)]
      (',' :: '"' :: (l.toList ++ '"' :: ':' :: b)) :=
    ⟨_, b, [], Json.chars_plain (List.all_iff_forall_prop.mp hl), hw, rfl, by
      rw [List.append_nil]
      rfl⟩
  refine ⟨_, ⟨_, a, _, Json.chars_plain (List.all_iff_forall_prop.mp hk), hv, hlast, rfl⟩, ?_⟩
  simp [writePair, Json.sep]

variable {F}

theorem specialName_safe {v : Double} {name : List Char} (h : specialName v = some name) :
    ∀ c ∈ name, Safe c := by
  have hnames : ∀ c ∈ "NaN".toList ++ "+Inf".toList ++ "-Inf".toList, Safe c :=
    List.all_iff_forall_prop.mp (by decide)
  intro c hc
  refine hnames c ?_
  rw [List.mem_append, List.mem_append]
  unfold specialName at h
  split at h
  · cases h
    exact .inl (.inl hc)
  split at h
  · cases h
    exact .inl (.inr hc)
  split at h <;> cases h
  exact .inr hc

/-- The text of a finite float is in one of the formats, and not rounded. -/
theorem finiteText_format (F : Formats) (v : Double) :
    ∃ f ∈ floatFormats, v.Exact f.2 ∧ finiteText F v = F.appendFloat v f.1 f.2 ∧
      (f = ('f', -1) → ¬ (v.value < floatLimit ∧ -floatLimit < v.value ∧ v.value.den = 1) ∧
        ¬ floatLimit ≤ if v.value < 0 then -v.value else v.value) := by
  unfold finiteText
  split
  · rename_i hint
    exact ⟨('f', 1), by decide, .inr hint.2.2, rfl, nofun⟩
  · rename_i hint
    dsimp only
    generalize (if v.value < 0 then -v.value else v.value) = abs
    by_cases hformat : abs ≠ 0 ∧ (abs < oneMillionth.value ∨ floatLimit ≤ abs)
    · exact ⟨('e', -1), by decide, .inl rfl, by rw [if_pos hformat], nofun⟩
    · refine ⟨('f', -1), by decide, .inl rfl, by rw [if_neg hformat],
        fun _ => ⟨hint, fun hlarge => hformat ?_⟩⟩
      exact ⟨((by decide +kernel : (0 : ℚ) < floatLimit).trans_le hlarge).ne', .inr hlarge⟩

theorem number_finiteText (hF : F.Faithful) {v : Double} (h : specialName v = none) :
    Json.Number (finiteText F v) := by
  obtain ⟨f, hf, -, htext, -⟩ := finiteText_format F v
  rw [htext]
  exact hF.float_number v h f hf

theorem text_double (hF : F.Faithful) (v : Double) :
    Json.Text (floatJson F v) (writeFloat64JSON F v) := by
  rw [floatJson, writeFloat64JSON]
  cases hname : specialName v with
  | some name => exact text_quote (specialName_safe hname)
  | none => exact Json.text_num (number_finiteText hF hname)

mutual
/-- **The converter writes JSON**: its text is a text of the tree of the value. -/
theorem rawValueToJSON_text (hF : F.Faithful) :
    ∀ v : Bson, Json.Text (toJson F v) (rawValueToJSON F v)
  | .double v => text_double hF v
  | .string s => hF.string_text s
  | .document doc => ⟨_, docElements_text hF doc true, rfl⟩
  | .array arr => ⟨_, arrayElements_text hF arr true, rfl⟩
  | .binary subtype data =>
    text_writePair (by decide) (by decide) (text_ofInt subtype.toNat)
      (text_quote fun c hc => base64Char_safe (base64_chars data c hc))
  | .undefined => ⟨[], rfl, rfl⟩
  | .objectID oid => text_hex oid
  | .boolean b => by cases b <;> rfl
  | .dateTime ms => text_quote (hF.date_safe ms)
  | .null => rfl
  | .regex pattern options =>
    text_writePair (by decide) (by decide) (hF.string_text pattern) (hF.string_text options)
  | .dbPointer ns oid =>
    text_writePair (by decide) (by decide) (hF.string_text ns) (text_hex oid)
  | .javaScript code => hF.string_text code
  | .symbol s => hF.string_text s
  | .codeWithScope code scope =>
    text_writePair (by decide) (by decide) (hF.string_text code)
      ⟨_, docElements_text hF scope true, rfl⟩
  | .int32 n => text_ofInt n.toInt
  | .timestamp t i =>
    text_writePair (by decide) (by decide) (text_ofInt t.toNat) (text_ofInt i.toNat)
  | .int64 n => text_ofInt n.toInt
  | .decimal128 h l => by
    rw [rawValueToJSON, hF.writeString_safe _ (hF.decimal_safe h l)]
    exact text_quote (hF.decimal_safe h l)
  | .minKey => ⟨[], rfl, rfl⟩
  | .maxKey => ⟨[], rfl, rfl⟩
termination_by structural v => v

theorem docElements_text (hF : F.Faithful) :
    ∀ (doc : Elements) (first : Bool), Json.Members first (members F doc) (docElements F first doc)
  | .nil, _ => rfl
  | .cons key value rest, first => by
    obtain ⟨body, hbody, hkey⟩ := hF.string_text key
    refine ⟨body, _, _, hbody, rawValueToJSON_text hF value, docElements_text hF rest false, ?_⟩
    simp [docElements, hkey]
termination_by structural doc => doc

theorem arrayElements_text (hF : F.Faithful) :
    ∀ (arr : Elements) (first : Bool), Json.Elems first (elems F arr) (arrayElements F first arr)
  | .nil, _ => rfl
  | .cons _ value rest, _ =>
    ⟨_, _, rawValueToJSON_text hF value, arrayElements_text hF rest false, rfl⟩
termination_by structural arr => arr
end

end Writer

end Mongo
