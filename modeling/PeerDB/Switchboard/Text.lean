/-
Go's string functions, as the query checks of the Switchboard use them.

* `infix_trimSpace` — trimming keeps every part of a text that has no space in it;
* `firstField_append`, `trimPrefix_append`, `trimSpace_append` — a word, a space and another
  word, taken apart;
* `toLower_downcase`, `toUpper_downcase`, `isSpace_downcase` — the case of ASCII letters,
  which SQL does not see, does not matter to them.
-/
import Mathlib.Data.List.Basic
import Mathlib.Data.List.Infix

namespace Switchboard

open List

def isSpace (c : Char) : Bool :=
  c == ' ' || (9 ≤ c.toNat && c.toNat ≤ 13) || c.toNat == 0x85 || c.toNat == 0xa0 ||
    c.toNat == 0x1680 || (0x2000 ≤ c.toNat && c.toNat ≤ 0x200a) || c.toNat == 0x2028 ||
    c.toNat == 0x2029 || c.toNat == 0x202f || c.toNat == 0x205f || c.toNat == 0x3000

def trimSpace (s : List Char) : List Char :=
  ((s.dropWhile isSpace).reverse.dropWhile isSpace).reverse

/-- `unicode.ToLower`, as far as its results are ASCII: the letters `A` to `Z`, the Kelvin
sign and the dotted capital `I`. -/
def lowerChar (c : Char) : Char :=
  if 'A' ≤ c ∧ c ≤ 'Z' then Char.ofNat (c.toNat + 32)
  else if c.toNat = 0x212a then 'k'
  else if c.toNat = 0x130 then 'i'
  else c

def toLower (s : List Char) : List Char := s.map lowerChar

/-- `unicode.ToUpper`, as far as its results are ASCII: the letters `a` to `z`, the dotless
`i` and the long `s`. -/
def upperChar (c : Char) : Char :=
  if 'a' ≤ c ∧ c ≤ 'z' then Char.ofNat (c.toNat - 32)
  else if c.toNat = 0x131 then 'I'
  else if c.toNat = 0x17f then 'S'
  else c

def toUpper (s : List Char) : List Char := s.map upperChar

def contains (s sub : List Char) : Bool := s.tails.any sub.isPrefixOf

/-- The first of `strings.Fields`; empty if there are none. -/
def firstField (s : List Char) : List Char :=
  (s.dropWhile isSpace).takeWhile fun c => !isSpace c

def trimPrefix (s start : List Char) : List Char :=
  if start.isPrefixOf s then s.drop start.length else s

/-! ### Parts of a text -/

theorem contains_of_infix {s sub : List Char} (h : sub <:+: s) : contains s sub = true := by
  obtain ⟨a, b, rfl⟩ := h
  rw [contains, any_eq_true]
  refine ⟨sub ++ b, (mem_tails _ _).mpr ⟨a, ?_⟩, ?_⟩
  · rw [append_assoc]
  · exact isPrefixOf_iff_prefix.mpr (prefix_append sub b)

theorem infix_dropWhile {s x : List Char} {p : Char → Bool} (h : x <:+: s) (hne : x ≠ [])
    (hx : ∀ c ∈ x, p c = false) : x <:+: s.dropWhile p := by
  obtain ⟨a, b, rfl⟩ := h
  rw [append_assoc, dropWhile_append]
  split
  · obtain ⟨c, x, rfl⟩ := exists_cons_of_ne_nil hne
    rw [cons_append, dropWhile_cons_of_neg (by rw [hx c mem_cons_self]; decide)]
    exact ⟨[], b, rfl⟩
  · exact ⟨a.dropWhile p, b, by rw [append_assoc]⟩

theorem infix_trimSpace {s x : List Char} (h : x <:+: s) (hne : x ≠ [])
    (hx : ∀ c ∈ x, isSpace c = false) : x <:+: trimSpace s := by
  have hleft : x.reverse <:+: (s.dropWhile isSpace).reverse :=
    reverse_infix.mpr (infix_dropWhile h hne hx)
  have hright : x.reverse <:+: (s.dropWhile isSpace).reverse.dropWhile isSpace :=
    infix_dropWhile hleft (fun hnil => hne (reverse_eq_nil_iff.mp hnil))
      fun c hc => hx c (mem_reverse.mp hc)
  rw [trimSpace, ← reverse_infix, reverse_reverse]
  exact hright

/-! ### Words -/

theorem dropWhile_spaces {a s : List Char} (ha : ∀ c ∈ a, isSpace c = true) :
    (a ++ s).dropWhile isSpace = s.dropWhile isSpace :=
  dropWhile_append_of_pos ha

theorem dropWhile_word {w : List Char} (hw : ∀ c ∈ w, isSpace c = false) (s : List Char)
    (hne : w ≠ []) : (w ++ s).dropWhile isSpace = w ++ s := by
  obtain ⟨c, w, rfl⟩ := exists_cons_of_ne_nil hne
  rw [cons_append, dropWhile_cons_of_neg (by rw [hw c mem_cons_self]; decide)]

theorem firstField_append {w a s : List Char} (hne : w ≠ []) (hw : ∀ c ∈ w, isSpace c = false)
    (hane : a ≠ []) (ha : ∀ c ∈ a, isSpace c = true) : firstField (w ++ (a ++ s)) = w := by
  obtain ⟨c, a, rfl⟩ := exists_cons_of_ne_nil hane
  have hstop : ((c :: (a ++ s)).takeWhile fun c => !isSpace c) = [] := by
    rw [takeWhile_cons, ha c mem_cons_self]
    rfl
  have htake : ∀ c ∈ w, (!isSpace c) = true := fun c hc => by
    rw [hw c hc]
    rfl
  rw [firstField, dropWhile_word hw _ hne, takeWhile_append_of_pos htake, cons_append,
    hstop, append_nil]

theorem trimPrefix_append (w s : List Char) : trimPrefix (w ++ s) w = s := by
  rw [trimPrefix, if_pos (List.isPrefixOf_iff_prefix.mpr (prefix_append w s)),
    drop_left]

theorem trimSpace_append {w a : List Char} (hne : w ≠ []) (hw : ∀ c ∈ w, isSpace c = false)
    (ha : ∀ c ∈ a, isSpace c = true) : trimSpace (a ++ w) = w := by
  have hstart : (a ++ w).dropWhile isSpace = w := by
    have := dropWhile_word hw [] hne
    rwa [append_nil, ← dropWhile_spaces ha] at this
  have hend : w.reverse.dropWhile isSpace = w.reverse := by
    have := dropWhile_word (fun c hc => hw c (mem_reverse.mp hc)) []
      fun hnil => hne (reverse_eq_nil_iff.mp hnil)
    rwa [append_nil] at this
  rw [trimSpace, hstart, hend, reverse_reverse]

/-! ### Case -/

/-- The case folding of SQL keywords and names. -/
def downcase (c : Char) : Char := if 'A' ≤ c ∧ c ≤ 'Z' then Char.ofNat (c.toNat + 32) else c

/-- A property of the letters from `A` to `Z` and of all characters that `downcase` leaves
alone holds of all. -/
theorem downcase_cases {P : Char → Char → Prop} (hupper : ∀ n < 26, P (Char.ofNat (65 + n))
    (Char.ofNat (97 + n))) (hsame : ∀ c, P c c) (c : Char) : P c (downcase c) := by
  rw [downcase]
  split
  · rename_i h
    have hge : 65 ≤ c.toNat := h.1
    have hle : c.toNat ≤ 90 := h.2
    have hc : Char.ofNat (65 + (c.toNat - 65)) = c := by
      rw [show 65 + (c.toNat - 65) = c.toNat by omega, Char.ofNat_toNat]
    have h32 : c.toNat + 32 = 97 + (c.toNat - 65) := by omega
    have := hupper (c.toNat - 65) (by omega)
    rw [hc] at this
    rw [h32]
    exact this
  · exact hsame c

theorem toLower_downcase (s : List Char) : toLower (s.map downcase) = toLower s := by
  have hchar : ∀ c, lowerChar c = lowerChar (downcase c) :=
    downcase_cases (P := fun c d => lowerChar c = lowerChar d) (by decide) fun _ => rfl
  rw [toLower, map_map, toLower]
  exact map_congr_left fun c _ => (hchar c).symm

theorem toUpper_downcase (s : List Char) : toUpper (s.map downcase) = toUpper s := by
  have hchar : ∀ c, upperChar c = upperChar (downcase c) :=
    downcase_cases (P := fun c d => upperChar c = upperChar d) (by decide) fun _ => rfl
  rw [toUpper, map_map, toUpper]
  exact map_congr_left fun c _ => (hchar c).symm

theorem isSpace_downcase (c : Char) : isSpace c = isSpace (downcase c) :=
  downcase_cases (P := fun c d => isSpace c = isSpace d) (by decide) (fun _ => rfl) c

theorem isSpace_lowerChar (c : Char) : isSpace (lowerChar c) = isSpace c := by
  rw [lowerChar]
  split
  · rename_i h
    have hdown := isSpace_downcase c
    rw [downcase, if_pos h] at hdown
    exact hdown.symm
  split
  · rename_i h
    rw [← Char.ofNat_toNat c, h]
    rfl
  split
  · rename_i h
    rw [← Char.ofNat_toNat c, h]
    rfl
  · rfl

end Switchboard
