/-
Texts of byte strings: hexadecimal and base64.

* `hexEncode_injective`, `base64_injective` — the bytes can be read back from both;
* `hexEncode_chars`, `base64_chars` — both use only characters of their alphabet.
-/
import Mathlib.Data.UInt
import Mathlib.Data.List.Basic

namespace Encoding

/-! ### Hexadecimal -/

/-- The digit of a number below 16. -/
def hexDigit (n : ℕ) : Char := "0123456789abcdef".toList.getD n '0'

/-- Two digits for each byte. -/
def hexEncode (bytes : List UInt8) : List Char :=
  bytes.flatMap fun b => [hexDigit (b.toNat / 16), hexDigit (b.toNat % 16)]

def HexChar (c : Char) : Prop := c ∈ "0123456789abcdef".toList

theorem hexDigit_injective : ∀ m < 16, ∀ n < 16, hexDigit m = hexDigit n → m = n := by decide

theorem hexDigit_hexChar : ∀ n < 16, HexChar (hexDigit n) := by
  unfold HexChar
  decide

theorem hexEncode_length (bytes : List UInt8) : (hexEncode bytes).length = 2 * bytes.length := by
  induction bytes with
  | nil => rfl
  | cons b bytes ih =>
    rw [hexEncode, List.flatMap_cons, List.length_append, ← hexEncode, ih]
    show 2 + 2 * bytes.length = 2 * (bytes.length + 1)
    omega

theorem hexEncode_chars {bytes : List UInt8} : ∀ c ∈ hexEncode bytes, HexChar c := by
  intro c hc
  obtain ⟨b, -, hb⟩ := List.mem_flatMap.mp hc
  have hlt : b.toNat < 256 := b.toNat_lt
  rw [List.mem_cons, List.mem_singleton] at hb
  rcases hb with rfl | rfl <;> exact hexDigit_hexChar _ (by omega)

theorem hexEncode_injective : ∀ {bytes bytes' : List UInt8},
    hexEncode bytes = hexEncode bytes' → bytes = bytes' := by
  intro bytes
  induction bytes with
  | nil =>
    intro bytes' h
    cases bytes' with
    | nil => rfl
    | cons b' bytes' => cases h
  | cons b bytes ih =>
    intro bytes' h
    cases bytes' with
    | nil => cases h
    | cons b' bytes' =>
      obtain ⟨hhigh, h⟩ := List.cons.inj h
      obtain ⟨hlow, hrest⟩ := List.cons.inj h
      have hb : b.toNat < 256 := b.toNat_lt
      have hb' : b'.toNat < 256 := b'.toNat_lt
      have hhigh := hexDigit_injective _ (by omega) _ (by omega) hhigh
      have hlow := hexDigit_injective _ (by omega) _ (by omega) hlow
      rw [ih hrest, UInt8.toNat_inj.mp (show b.toNat = b'.toNat by omega)]

/-! ### Base64 -/

def base64Alphabet : List Char :=
  "ABCDEFGHIJKLMNOPQRSTUVWXYZabcdefghijklmnopqrstuvwxyz0123456789+/".toList

/-- The character of a number below 64. -/
def sextet (n : ℕ) : Char := base64Alphabet.getD n 'A'

/-- Four characters for three bytes, the last group padded. -/
def base64 : List UInt8 → List Char
  | [] => []
  | [a] => [sextet (a.toNat / 4), sextet (a.toNat % 4 * 16), '=', '=']
  | [a, b] =>
    [sextet (a.toNat / 4), sextet (a.toNat % 4 * 16 + b.toNat / 16),
      sextet (b.toNat % 16 * 4), '=']
  | a :: b :: c :: rest =>
    sextet (a.toNat / 4) :: sextet (a.toNat % 4 * 16 + b.toNat / 16) ::
      sextet (b.toNat % 16 * 4 + c.toNat / 64) :: sextet (c.toNat % 64) :: base64 rest

def Base64Char (c : Char) : Prop := c = '=' ∨ c ∈ base64Alphabet

/-- The number of a character. -/
def sextetVal (c : Char) : ℕ := base64Alphabet.idxOf c

theorem sextetVal_sextet : ∀ n < 64, sextetVal (sextet n) = n := by decide +kernel

theorem sextet_mem : ∀ n < 64, sextet n ∈ base64Alphabet := by decide +kernel

theorem sextet_ne_pad {n : ℕ} (h : n < 64) : sextet n ≠ '=' := by
  intro heq
  have hmem := sextet_mem n h
  rw [heq] at hmem
  exact absurd hmem (by decide)

/-- The bytes of a base64 text. -/
def unbase64 : List Char → List UInt8
  | w :: x :: y :: z :: rest =>
    let a := UInt8.ofNat (sextetVal w * 4 + sextetVal x / 16)
    let b := UInt8.ofNat (sextetVal x % 16 * 16 + sextetVal y / 4)
    let c := UInt8.ofNat (sextetVal y % 4 * 64 + sextetVal z)
    if y = '=' then [a] else if z = '=' then [a, b] else a :: b :: c :: unbase64 rest
  | _ => []

theorem unbase64_base64 (bytes : List UInt8) : unbase64 (base64 bytes) = bytes := by
  have hval : ∀ n < 64, sextetVal (sextet n) = n := sextetVal_sextet
  have hbyte : ∀ (b : UInt8) (n : ℕ), n = b.toNat → UInt8.ofNat n = b := by
    rintro b n rfl
    exact UInt8.ofNat_toNat
  induction bytes using base64.induct with
  | case1 => rfl
  | case2 a =>
    have ha : a.toNat < 256 := a.toNat_lt
    rw [base64, unbase64, if_pos rfl, hval _ (by omega), hval _ (by omega),
      hbyte a _ (by omega)]
  | case3 a b =>
    have ha : a.toNat < 256 := a.toNat_lt
    have hb : b.toNat < 256 := b.toNat_lt
    rw [base64, unbase64, if_neg (sextet_ne_pad (by omega)), if_pos rfl, hval _ (by omega),
      hval _ (by omega), hval _ (by omega), hbyte a _ (by omega), hbyte b _ (by omega)]
  | case4 a b c rest ih =>
    have ha : a.toNat < 256 := a.toNat_lt
    have hb : b.toNat < 256 := b.toNat_lt
    have hc : c.toNat < 256 := c.toNat_lt
    rw [base64, unbase64, if_neg (sextet_ne_pad (by omega)), if_neg (sextet_ne_pad (by omega)),
      hval _ (by omega), hval _ (by omega), hval _ (by omega), hval _ (by omega),
      hbyte a _ (by omega), hbyte b _ (by omega), hbyte c _ (by omega), ih]

theorem base64_injective {bytes bytes' : List UInt8} (h : base64 bytes = base64 bytes') :
    bytes = bytes' := by
  rw [← unbase64_base64 bytes, h, unbase64_base64]

theorem base64_chars (bytes : List UInt8) : ∀ c ∈ base64 bytes, Base64Char c := by
  have hsextet : ∀ n < 64, Base64Char (sextet n) := fun n hn => .inr (sextet_mem n hn)
  induction bytes using base64.induct with
  | case1 => exact nofun
  | case2 a =>
    have ha : a.toNat < 256 := a.toNat_lt
    rw [base64, List.forall_mem_cons, List.forall_mem_cons]
    refine ⟨hsextet _ (by omega), hsextet _ (by omega), ?_⟩
    intro c hc
    rw [List.mem_cons, List.mem_singleton, or_self] at hc
    exact .inl hc
  | case3 a b =>
    have ha : a.toNat < 256 := a.toNat_lt
    have hb : b.toNat < 256 := b.toNat_lt
    rw [base64, List.forall_mem_cons, List.forall_mem_cons, List.forall_mem_cons]
    refine ⟨hsextet _ (by omega), hsextet _ (by omega), hsextet _ (by omega), ?_⟩
    intro c hc
    exact .inl (List.mem_singleton.mp hc)
  | case4 a b c rest ih =>
    have ha : a.toNat < 256 := a.toNat_lt
    have hb : b.toNat < 256 := b.toNat_lt
    have hc : c.toNat < 256 := c.toNat_lt
    rw [base64, List.forall_mem_cons, List.forall_mem_cons, List.forall_mem_cons,
      List.forall_mem_cons]
    exact ⟨hsextet _ (by omega), hsextet _ (by omega), hsextet _ (by omega),
      hsextet _ (by omega), ih⟩

end Encoding
