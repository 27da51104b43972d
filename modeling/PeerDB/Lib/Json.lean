/-
JSON texts.

A `Json` tree and its texts: `Json.Text j t` says that `t` is a text of `j`, for texts
without white space and without surrogate pairs.  A tree has many texts, since a character
of a string can be spelled in several ways, but a text has only one tree:

* `Json.Text.unique` — a text that starts at a given place is of one tree and ends at one
  place, as long as a number is followed by something that ends it;
* `Json.text_injective` — so equal texts are texts of the same tree.
-/
import PeerDB.Lib.Hex
import Mathlib.Data.Nat.Digits.Defs

/-- A JSON value: a number is its literal, a string the characters it stands for. -/
inductive Json where
  | null
  | bool (b : Bool)
  | num (literal : List Char)
  | str (s : List Char)
  | arr (elems : List Json)
  | obj (members : List (List Char × Json))

namespace Json

open List

/-! ### Numbers -/

def Digits (t : List Char) : Prop := t ≠ [] ∧ ∀ c ∈ t, c.isDigit = true

/-- The literals of numbers: a sign, an integer without leading zeros, a fraction and an
exponent. -/
def Number (t : List Char) : Prop :=
  ∃ sign int frac exp, t = sign ++ int ++ frac ++ exp ∧
    (sign = [] ∨ sign = ['-']) ∧
    (Digits int ∧ (int.head? = some '0' → int = ['0'])) ∧
    (frac = [] ∨ ∃ ds, Digits ds ∧ frac = '.' :: ds) ∧
    (exp = [] ∨ ∃ e s ds, (e = 'e' ∨ e = 'E') ∧ (s = [] ∨ s = ['+'] ∨ s = ['-']) ∧
      Digits ds ∧ exp = e :: s ++ ds)

/-- The characters that can stand in a number. -/
def numChar (c : Char) : Bool :=
  c.isDigit || c == '-' || c == '+' || c == '.' || c == 'e' || c == 'E'

/-- What follows ends a number. -/
def Stops (rest : List Char) : Prop := ∀ c ∈ rest.head?, numChar c = false

variable {t r r' t' s rest b : List Char}

theorem Digits.numChar (h : Digits t) : ∀ c ∈ t, numChar c = true := by
  intro c hc
  rw [Json.numChar, h.2 c hc]
  rfl

theorem Number.numChar (h : Number t) : ∀ c ∈ t, numChar c = true := by
  obtain ⟨sign, int, frac, exp, rfl, hsign, ⟨hint, -⟩, hfrac, hexp⟩ := h
  intro c hc
  rw [mem_append, mem_append, mem_append] at hc
  rcases hc with ((hc | hc) | hc) | hc
  · rcases hsign with rfl | rfl
    · cases hc
    · rw [mem_singleton.mp hc]
      rfl
  · exact hint.numChar c hc
  · rcases hfrac with rfl | ⟨ds, hds, rfl⟩
    · cases hc
    · rcases mem_cons.mp hc with rfl | hc
      · rfl
      · exact hds.numChar c hc
  · rcases hexp with rfl | ⟨e, s, ds, he, hs, hds, rfl⟩
    · cases hc
    · rw [mem_append, mem_cons] at hc
      rcases hc with (rfl | hc) | hc
      · rcases he with rfl | rfl <;> rfl
      · rcases hs with rfl | rfl | rfl
        · cases hc
        · rw [mem_singleton.mp hc]
          rfl
        · rw [mem_singleton.mp hc]
          rfl
      · exact hds.numChar c hc

theorem Number.start (h : Number t) :
    ∃ c rest, t = c :: rest ∧ (c.isDigit = true ∨ c = '-') := by
  obtain ⟨sign, int, frac, exp, rfl, hsign, ⟨hint, -⟩, -, -⟩ := h
  rcases hsign with rfl | rfl
  · obtain ⟨c, rest, rfl⟩ := exists_cons_of_ne_nil hint.1
    exact ⟨c, _, rfl, .inl (hint.2 c mem_cons_self)⟩
  · exact ⟨'-', _, rfl, .inr rfl⟩

/-- A number ends where its characters end. -/
theorem number_unique (ht : ∀ c ∈ t, numChar c = true) (ht' : ∀ c ∈ t', numChar c = true)
    (hr : Stops r) (hr' : Stops r') (heq : t ++ r = t' ++ r') : t = t' ∧ r = r' := by
  have hstop : ∀ s : List Char, Stops s → s.takeWhile numChar = [] := by
    intro s hs
    cases s with
    | nil => rfl
    | cons c s => exact takeWhile_cons_of_neg (by rw [hs c rfl]; decide)
  have htake := congrArg (List.takeWhile numChar) heq
  rw [takeWhile_append_of_pos ht, takeWhile_append_of_pos ht', hstop r hr,
    hstop r' hr', append_nil, append_nil] at htake
  subst htake
  exact ⟨rfl, append_cancel_left heq⟩

/-- The literal of an integer. -/
def ofInt (n : ℤ) : List Char :=
  (if n < 0 then ['-'] else []) ++ Nat.toDigits 10 n.natAbs

theorem digits_toDigits (n : ℕ) : Digits (Nat.toDigits 10 n) :=
  ⟨Nat.toDigits_ne_nil, fun _ hc => Nat.isDigit_of_mem_toDigits (by decide) (by decide) hc⟩

theorem toDigits_injective {m n : ℕ} (h : Nat.toDigits 10 m = Nat.toDigits 10 n) : m = n := by
  rw [← Nat.ofDigitChars_ten_toDigits (n := m), h, Nat.ofDigitChars_ten_toDigits]

/-- Only zero starts with the digit zero. -/
theorem toDigits_head : ∀ n : ℕ, (Nat.toDigits 10 n).head? = some '0' → n = 0 := by
  intro n
  induction n using Nat.strong_induction_on with
  | _ n ih =>
    intro h
    by_cases hn : n < 10
    · have hdigit : ∀ k < 10, k.digitChar = '0' → k = 0 := by decide
      rw [Nat.toDigits_of_lt_base hn] at h
      exact hdigit n hn (Option.some.inj h)
    · rw [Nat.toDigits_of_base_le (by decide) (Nat.not_lt.mp hn)] at h
      have hhead : (Nat.toDigits 10 (n / 10)).head? = some '0' := by
        obtain ⟨c, rest, hcons⟩ := exists_cons_of_ne_nil (digits_toDigits (n / 10)).1
        rw [hcons] at h ⊢
        exact h
      have := ih (n / 10) (by omega) hhead
      omega

theorem number_ofInt (n : ℤ) : Number (ofInt n) := by
  refine ⟨_, Nat.toDigits 10 n.natAbs, [], [], by rw [append_nil, append_nil]; rfl,
    ?_, ⟨digits_toDigits _, fun h => ?_⟩, .inl rfl, .inl rfl⟩
  · by_cases hn : n < 0
    · exact .inr (if_pos hn)
    · exact .inl (if_neg hn)
  · rw [toDigits_head _ h]
    rfl

theorem ofInt_injective {m n : ℤ} (h : ofInt m = ofInt n) : m = n := by
  have hminus : ∀ k : ℕ, (Nat.toDigits 10 k).head? ≠ some '-' := by
    intro k hk
    have hmem := mem_of_mem_head? hk
    exact absurd ((digits_toDigits k).2 '-' hmem) (by decide)
  have hhead : ∀ k : ℤ, (ofInt k).head? = some '-' ↔ k < 0 := by
    intro k
    by_cases hk : k < 0
    · rw [ofInt, if_pos hk]
      exact ⟨fun _ => hk, fun _ => rfl⟩
    · rw [ofInt, if_neg hk, nil_append]
      exact ⟨fun h => absurd h (hminus _), fun h => absurd h hk⟩
  have hsign : m < 0 ↔ n < 0 := by rw [← hhead m, ← hhead n, h]
  have habs : m.natAbs = n.natAbs := by
    apply toDigits_injective
    by_cases hm : m < 0
    · rw [ofInt, ofInt, if_pos hm, if_pos (hsign.mp hm)] at h
      exact append_cancel_left h
    · rw [ofInt, ofInt, if_neg hm, if_neg fun hn => hm (hsign.mpr hn)] at h
      exact h
  omega

/-! ### Strings -/

/-- The character of a code point; surrogates have none. -/
def charOf (code : ℕ) : Option Char :=
  if 0xD800 ≤ code ∧ code < 0xE000 then none else some (Char.ofNat code)

/-- What follows a backslash. -/
def readEscape : List Char → Option (Char × List Char)
  | 'u' :: a :: b :: c :: d :: rest => do
    let code := 4096 * (← Hex.digitValue a) + 256 * (← Hex.digitValue b) +
      16 * (← Hex.digitValue c) + (← Hex.digitValue d)
    return (← charOf code, rest)
  | '"' :: rest => some ('"', rest)
  | '\\' :: rest => some ('\\', rest)
  | '/' :: rest => some ('/', rest)
  | 'b' :: rest => some ('\x08', rest)
  | 'f' :: rest => some ('\x0c', rest)
  | 'n' :: rest => some ('\n', rest)
  | 'r' :: rest => some ('\r', rest)
  | 't' :: rest => some ('\t', rest)
  | _ => none

/-- One character of a string, and what follows it; none at the closing quote. -/
def readChar : List Char → Option (Char × List Char)
  | [] => none
  | c :: rest =>
    if c = '\\' then readEscape rest
    else if c = '"' ∨ c.toNat < 0x20 then none
    else some (c, rest)

/-- `e` is a spelling of the character `c` in a string. -/
def Spells (e : List Char) (c : Char) : Prop := ∀ rest, readChar (e ++ rest) = some (c, rest)

/-- A character that can stand for itself. -/
def Plain (c : Char) : Prop := c ≠ '\\' ∧ c ≠ '"' ∧ 0x20 ≤ c.toNat

instance (c : Char) : Decidable (Plain c) := inferInstanceAs (Decidable (_ ∧ _ ∧ _))

variable {c close : Char}

theorem spells_plain (h : Plain c) : Spells [c] c := by
  intro rest
  rw [singleton_append, readChar, if_neg h.1, if_neg]
  rintro (hc | hc)
  · exact h.2.1 hc
  · exact absurd h.2.2 (Nat.not_le.mpr hc)

/-- `\uwxyz` spells the character with the code `wxyz`. -/
theorem spells_code {a b c d : Char} {w x y z : ℕ} (ha : Hex.digitValue a = some w)
    (hb : Hex.digitValue b = some x) (hc : Hex.digitValue c = some y)
    (hd : Hex.digitValue d = some z)
    (hcode : ¬(0xD800 ≤ 4096 * w + 256 * x + 16 * y + z ∧
      4096 * w + 256 * x + 16 * y + z < 0xE000)) :
    Spells ['\\', 'u', a, b, c, d] (Char.ofNat (4096 * w + 256 * x + 16 * y + z)) := by
  intro rest
  show readEscape ('u' :: a :: b :: c :: d :: rest) = _
  simp only [readEscape, ha, hb, hc, hd]
  show (charOf (4096 * w + 256 * x + 16 * y + z)).bind _ = _
  rw [charOf, if_neg hcode]
  rfl

/-- `t` spells the characters `s`, one after the other. -/
def Chars : List Char → List Char → Prop
  | [], t => t = []
  | c :: s, t => ∃ e b, Spells e c ∧ Chars s b ∧ t = e ++ b

theorem chars_plain (h : ∀ c ∈ s, Plain c) : Chars s s := by
  induction s with
  | nil => rfl
  | cons c s ih =>
    exact ⟨[c], s, spells_plain (h c mem_cons_self),
      ih fun x hx => h x (mem_cons_of_mem c hx), rfl⟩

/-- A string ends at its first quote, and its spelling has one reading. -/
theorem Chars.unique : ∀ {s' t t' r r' : List Char}, Chars s t → Chars s' t' →
    t ++ '"' :: r = t' ++ '"' :: r' → s = s' ∧ r = r' := by
  have hquote : ∀ rest, readChar ('"' :: rest) = none := fun _ => rfl
  induction s with
  | nil =>
    intro s' t t' r r' ht ht' heq
    cases ht
    cases s' with
    | nil =>
      cases ht'
      exact ⟨rfl, (List.cons.inj heq).2⟩
    | cons c' s' =>
      obtain ⟨e', b', he', -, rfl⟩ := ht'
      have hread := hquote r
      rw [nil_append, append_assoc] at heq
      rw [heq, he'] at hread
      cases hread
  | cons c s ih =>
    intro s' t t' r r' ht ht' heq
    obtain ⟨e, b, he, hb, rfl⟩ := ht
    have hread := he (b ++ '"' :: r)
    rw [← append_assoc, heq] at hread
    cases s' with
    | nil =>
      cases ht'
      rw [nil_append, hquote] at hread
      cases hread
    | cons c' s' =>
      obtain ⟨e', b', he', hb', rfl⟩ := ht'
      rw [append_assoc, he'] at hread
      obtain ⟨hc, hrest⟩ := Prod.mk.inj (Option.some.inj hread)
      obtain ⟨hs, hr⟩ := ih hb hb' hrest.symm
      rw [hc, hs]
      exact ⟨rfl, hr⟩

/-! ### Texts -/

/-- The comma before an element that is not the first. -/
def sep (first : Bool) : List Char := if first then [] else [',']

mutual
/-- The text is a text of the tree. -/
def Text : Json → List Char → Prop
  | .null, t => t = ['n', 'u', 'l', 'l']
  | .bool b, t => t = if b then ['t', 'r', 'u', 'e'] else ['f', 'a', 'l', 's', 'e']
  | .num n, t => Number n ∧ t = n
  | .str s, t => ∃ b, Chars s b ∧ t = '"' :: (b ++ ['"'])
  | .arr xs, t => ∃ b, Elems true xs b ∧ t = '[' :: (b ++ [']'])
  | .obj ms, t => ∃ b, Members true ms b ∧ t = '\x7b' :: (b ++ ['\x7d'])
termination_by structural j => j

/-- The elements of an array, from the first or from a later one on. -/
def Elems : Bool → List Json → List Char → Prop
  | _, [], t => t = []
  | first, x :: xs, t => ∃ a b, Text x a ∧ Elems false xs b ∧ t = sep first ++ a ++ b
termination_by structural _ xs => xs

/-- The members of an object, from the first or from a later one on. -/
def Members : Bool → List (List Char × Json) → List Char → Prop
  | _, [], t => t = []
  | first, (k, v) :: ms, t => ∃ a b c, Chars k a ∧ Text v b ∧ Members false ms c ∧
      t = sep first ++ '"' :: (a ++ '"' :: ':' :: b) ++ c
termination_by structural _ ms => ms
end

theorem text_num {n : List Char} (h : Number n) : Text (.num n) n := ⟨h, rfl⟩

/-- The kinds of values that a text tells apart by its first character. -/
inductive Shape where
  | null | bool | num | str | arr | obj
  deriving DecidableEq

def shape : Json → Shape
  | .null => .null
  | .bool _ => .bool
  | .num _ => .num
  | .str _ => .str
  | .arr _ => .arr
  | .obj _ => .obj

def lead (c : Char) : Option Shape :=
  if c = 'n' then some .null
  else if c = 't' ∨ c = 'f' then some .bool
  else if c = '"' then some .str
  else if c = '[' then some .arr
  else if c = '\x7b' then some .obj
  else if c.isDigit ∨ c = '-' then some .num
  else none

theorem Text.start {j : Json} (h : Text j t) :
    ∃ c rest, t = c :: rest ∧ lead c = some j.shape := by
  cases j with
  | null =>
    cases h
    exact ⟨_, _, rfl, rfl⟩
  | bool b =>
    cases h
    cases b <;> exact ⟨_, _, rfl, rfl⟩
  | num n =>
    obtain ⟨hn, rfl⟩ := h
    obtain ⟨c, rest, ht, hc⟩ := hn.start
    refine ⟨c, rest, ht, ?_⟩
    rcases hc with hc | rfl
    · -- a digit is none of the other first characters
      have hne : ∀ x : Char, x.isDigit = false → c ≠ x := by
        rintro x hx rfl
        rw [hc] at hx
        cases hx
      rw [lead, if_neg (hne _ rfl), if_neg (not_or.mpr ⟨hne _ rfl, hne _ rfl⟩),
        if_neg (hne _ rfl), if_neg (hne _ rfl), if_neg (hne _ rfl), if_pos (.inl hc)]
      rfl
    · rfl
  | str | arr | obj =>
    obtain ⟨b, -, rfl⟩ := h
    exact ⟨_, _, rfl, rfl⟩

/-- Texts that start alike are of values of one kind. -/
theorem Text.shape_eq {j j' : Json} (h : Text j t) (h' : Text j' t') (heq : t ++ r = t' ++ r') :
    j.shape = j'.shape := by
  obtain ⟨c, rest, rfl, hc⟩ := h.start
  obtain ⟨c', rest', rfl, hc'⟩ := h'.start
  rw [(List.cons.inj heq).1, hc'] at hc
  exact (Option.some.inj hc).symm

/-- No text starts with a character that ends an array or an object. -/
theorem Text.ne_close {j : Json} (h : Text j t) (hclose : lead close = none) :
    close :: rest ≠ t ++ r := by
  intro heq
  obtain ⟨c, t', rfl, hc⟩ := h.start
  rw [← (List.cons.inj heq).1, hclose] at hc
  cases hc

/-- What follows an element is a comma or the closing bracket. -/
theorem Elems.stops {xs : List Json} (h : Elems false xs b) (hclose : numChar close = false) :
    Stops (b ++ close :: r) := by
  cases xs with
  | nil =>
    cases h
    rintro c ⟨⟩
    exact hclose
  | cons x xs =>
    obtain ⟨a, b', -, -, rfl⟩ := h
    rintro c ⟨⟩
    rfl

theorem Members.stops {ms : List (List Char × Json)} (h : Members false ms b)
    (hclose : numChar close = false) : Stops (b ++ close :: r) := by
  cases ms with
  | nil =>
    cases h
    rintro c ⟨⟩
    exact hclose
  | cons m ms =>
    obtain ⟨a, b', c', -, -, -, rfl⟩ := h
    rintro c ⟨⟩
    rfl

/-- Elements, or members, that are there do not start with the closing bracket. -/
theorem sep_ne_close {first : Bool} {a rest b : List Char} (hcomma : close ≠ ',')
    (ha : first = true → close :: rest ≠ a ++ b) :
    close :: rest ≠ sep first ++ a ++ b := by
  cases first with
  | true => exact ha rfl
  | false =>
    intro heq
    exact hcomma (List.cons.inj heq).1

mutual
/-- **Unique reading**: a text is of one tree, and ends at one place. -/
theorem Text.unique : ∀ {j j' : Json} {t t' r r' : List Char}, Text j t → Text j' t' →
    Stops r → Stops r' → t ++ r = t' ++ r' → j = j' ∧ r = r'
  | .null, j', t, t', r, r', h, h', _, _, heq => by
    have hshape := h.shape_eq h' heq
    cases j' with
    | null =>
      cases h
      cases h'
      exact ⟨rfl, append_cancel_left heq⟩
    | _ => cases hshape
  | .bool b, j', t, t', r, r', h, h', _, _, heq => by
    have hshape := h.shape_eq h' heq
    cases j' with
    | bool b' =>
      cases h
      cases h'
      cases b <;> cases b'
      · exact ⟨rfl, append_cancel_left heq⟩
      · cases (List.cons.inj heq).1
      · cases (List.cons.inj heq).1
      · exact ⟨rfl, append_cancel_left heq⟩
    | _ => cases hshape
  | .num n, j', t, t', r, r', h, h', hr, hr', heq => by
    have hshape := h.shape_eq h' heq
    cases j' with
    | num n' =>
      obtain ⟨hn, rfl⟩ := h
      obtain ⟨hn', rfl⟩ := h'
      obtain ⟨rfl, hrest⟩ := number_unique hn.numChar hn'.numChar hr hr' heq
      exact ⟨rfl, hrest⟩
    | _ => cases hshape
  | .str s, j', t, t', r, r', h, h', _, _, heq => by
    have hshape := h.shape_eq h' heq
    cases j' with
    | str s' =>
      obtain ⟨b, hb, rfl⟩ := h
      obtain ⟨b', hb', rfl⟩ := h'
      rw [cons_append, cons_append, append_assoc, append_assoc] at heq
      obtain ⟨rfl, hrest⟩ := hb.unique hb' (List.cons.inj heq).2
      exact ⟨rfl, hrest⟩
    | _ => cases hshape
  | .arr xs, j', t, t', r, r', h, h', _, _, heq => by
    have hshape := h.shape_eq h' heq
    cases j' with
    | arr xs' =>
      obtain ⟨b, hb, rfl⟩ := h
      obtain ⟨b', hb', rfl⟩ := h'
      rw [cons_append, cons_append, append_assoc, append_assoc] at heq
      obtain ⟨rfl, hrest⟩ := hb.unique hb' (List.cons.inj heq).2
      exact ⟨rfl, hrest⟩
    | _ => cases hshape
  | .obj ms, j', t, t', r, r', h, h', _, _, heq => by
    have hshape := h.shape_eq h' heq
    cases j' with
    | obj ms' =>
      obtain ⟨b, hb, rfl⟩ := h
      obtain ⟨b', hb', rfl⟩ := h'
      rw [cons_append, cons_append, append_assoc, append_assoc] at heq
      obtain ⟨rfl, hrest⟩ := hb.unique hb' (List.cons.inj heq).2
      exact ⟨rfl, hrest⟩
    | _ => cases hshape
termination_by structural j => j

theorem Elems.unique : ∀ {xs xs' : List Json} {first : Bool} {t t' r r' : List Char},
    Elems first xs t → Elems first xs' t' → t ++ ']' :: r = t' ++ ']' :: r' →
    xs = xs' ∧ r = r'
  | [], [], _, t, t', r, r', h, h', heq => by
    cases h
    cases h'
    exact ⟨rfl, (List.cons.inj heq).2⟩
  | [], x' :: xs', first, t, t', r, r', h, h', heq => by
    cases h
    obtain ⟨a', b', ha', -, rfl⟩ := h'
    rw [append_assoc] at heq
    exact absurd heq (sep_ne_close (by decide) fun _ => ha'.ne_close rfl)
  | x :: xs, [], first, t, t', r, r', h, h', heq => by
    cases h'
    obtain ⟨a, b, ha, -, rfl⟩ := h
    rw [append_assoc] at heq
    exact absurd heq.symm (sep_ne_close (by decide) fun _ => ha.ne_close rfl)
  | x :: xs, x' :: xs', first, t, t', r, r', h, h', heq => by
    obtain ⟨a, b, ha, hb, rfl⟩ := h
    obtain ⟨a', b', ha', hb', rfl⟩ := h'
    simp only [append_assoc] at heq
    obtain ⟨rfl, hrest⟩ := ha.unique ha' (hb.stops (by decide)) (hb'.stops (by decide))
      (append_cancel_left heq)
    obtain ⟨rfl, hr⟩ := hb.unique hb' hrest
    exact ⟨rfl, hr⟩
termination_by structural xs => xs

theorem Members.unique : ∀ {ms ms' : List (List Char × Json)} {first : Bool}
    {t t' r r' : List Char}, Members first ms t → Members first ms' t' →
    t ++ '\x7d' :: r = t' ++ '\x7d' :: r' → ms = ms' ∧ r = r'
  | [], [], _, t, t', r, r', h, h', heq => by
    cases h
    cases h'
    exact ⟨rfl, (List.cons.inj heq).2⟩
  | [], (k', v') :: ms', first, t, t', r, r', h, h', heq => by
    cases h
    obtain ⟨a', b', c', -, -, -, rfl⟩ := h'
    rw [append_assoc] at heq
    refine absurd heq (sep_ne_close (by decide) fun _ hq => ?_)
    cases (List.cons.inj hq).1
  | (k, v) :: ms, [], first, t, t', r, r', h, h', heq => by
    cases h'
    obtain ⟨a, b, c, -, -, -, rfl⟩ := h
    rw [append_assoc] at heq
    refine absurd heq.symm (sep_ne_close (by decide) fun _ hq => ?_)
    cases (List.cons.inj hq).1
  | (k, v) :: ms, (k', v') :: ms', first, t, t', r, r', h, h', heq => by
    obtain ⟨a, b, c, ha, hb, hc, rfl⟩ := h
    obtain ⟨a', b', c', ha', hb', hc', rfl⟩ := h'
    simp only [append_assoc, cons_append] at heq
    obtain ⟨rfl, hvalue⟩ := ha.unique ha' (List.cons.inj (append_cancel_left heq)).2
    obtain ⟨rfl, hrest⟩ := hb.unique hb' (hc.stops (by decide)) (hc'.stops (by decide))
      (List.cons.inj hvalue).2
    obtain ⟨rfl, hr⟩ := hc.unique hc' hrest
    exact ⟨rfl, hr⟩
termination_by structural ms => ms
end

theorem text_injective {j j' : Json} (h : Text j t) (h' : Text j' t) :
    j = j' := by
  have hstop : Stops [] := nofun
  exact (h.unique h' hstop hstop rfl).1

end Json
