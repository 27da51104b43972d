/-
Midpoints of two strings (`stringMidpoint`).

The midpoint is sent to the database as a literal, so it has to be valid UTF-8.  The program
cuts the common beginning back with the bytes of one string only; for valid strings that is
the longest beginning the two have in common in whole characters (`backOff_shared`).  Behind
it stand eight digits in base 95, one for each printable ASCII character, whose order is that
of the numbers (`ofDigits95_le`):

* `stringMidpoint_usable` — a midpoint is valid, begins like both strings, and is between them.
-/
import PeerDB.MySQL.AdaptivePartition

namespace QRep

open List

/-! ### Characters and bytes -/

/-- The bytes of a character in UTF-8. -/
def utf8 (c : Char) : ByteString := (String.utf8EncodeChar c).map UInt8.toFin

/-- `utf8.ValidString`. -/
def ValidUTF8 (s : ByteString) : Prop := ∃ cs : List Char, s = cs.flatMap utf8

/-- Only the first byte of a character starts one. -/
theorem utf8_shape (c : Char) :
    ∃ b bs, utf8 c = b :: bs ∧ runeStart b = true ∧ ∀ x ∈ bs, runeStart x = false := by
  rw [utf8]
  fun_cases String.utf8EncodeChar c
  all_goals
    refine ⟨_, _, rfl, ?_, ?_⟩ <;>
      simp [runeStart, Fin.le_def, UInt8.toFin, UInt8.ofNat] <;> omega

/-- No character is the beginning of another. -/
theorem utf8_append_inj {c d : Char} {x y : ByteString} (h : utf8 c ++ x = utf8 d ++ y) :
    c = d := by
  have hback (e : Char) (z : ByteString) : ((utf8 e ++ z).map UInt8.ofFin).toByteArray =
      (String.utf8EncodeChar e).toByteArray ++ (z.map UInt8.ofFin).toByteArray := by
    simp [utf8, Function.comp_def]
  have hsame := congrArg (fun s => (s.map UInt8.ofFin).toByteArray.utf8DecodeChar? 0) h
  simp only [hback, ByteArray.utf8DecodeChar?_utf8EncodeChar_append] at hsame
  exact Option.some.inj hsame

theorem prefix_of_utf8 : ∀ {ds cs : List Char},
    ds.flatMap utf8 <+: cs.flatMap utf8 → ds <+: cs
  | [], _, _ => nil_prefix
  | d :: ds, [], h => by
    obtain ⟨b, bs, hd, -⟩ := utf8_shape d
    simp [hd] at h
  | d :: ds, c :: cs, h => by
    obtain ⟨x, hx⟩ := h
    rw [flatMap_cons, flatMap_cons, append_assoc] at hx
    obtain rfl := utf8_append_inj hx
    exact cons_prefix_cons.mpr
      ⟨rfl, prefix_of_utf8 ⟨x, append_cancel_left hx⟩⟩

/-- The longest common beginning. -/
theorem exists_common : ∀ cs₁ cs₂ : List Char, ∃ cs, cs <+: cs₁ ∧ cs <+: cs₂ ∧
    ∀ ds, ds <+: cs₁ → ds <+: cs₂ → ds <+: cs
  | [], _ => ⟨[], nil_prefix, nil_prefix, fun _ h _ => h⟩
  | _ :: _, [] => ⟨[], nil_prefix, nil_prefix, fun _ _ h => h⟩
  | c :: cs₁, d :: cs₂ => by
    by_cases hcd : c = d
    · subst hcd
      obtain ⟨cs, h₁, h₂, hmax⟩ := exists_common cs₁ cs₂
      refine ⟨c :: cs, by simpa using h₁, by simpa using h₂, fun ds hds₁ hds₂ => ?_⟩
      cases ds with
      | nil => exact nil_prefix
      | cons e ds =>
        rw [cons_prefix_cons] at hds₁ hds₂ ⊢
        exact ⟨hds₁.1, hmax ds hds₁.2 hds₂.2⟩
    · refine ⟨[], nil_prefix, nil_prefix, fun ds hds₁ hds₂ => ?_⟩
      cases ds with
      | nil => exact nil_prefix
      | cons e ds =>
        rw [cons_prefix_cons] at hds₁ hds₂
        exact absurd (hds₁.1.symm.trans hds₂.1) hcd

/-! ### The common beginning -/

theorem sharedLength_append (p a b : ByteString) :
    sharedLength (p ++ a) (p ++ b) = p.length + sharedLength a b := by
  induction p with
  | nil => simp
  | cons x p ih =>
    simp [sharedLength, ih]
    omega

theorem prefix_take_shared : ∀ a b : ByteString, a.take (sharedLength a b) <+: b
  | [], _ => by simp
  | _ :: _, [] => by simp [sharedLength]
  | x :: a, y :: b => by
    rw [sharedLength]
    split_ifs with hxy
    · simpa [hxy] using prefix_take_shared a b
    · simp

theorem backOff_stop {s : ByteString} {i : ℕ} (h : ∀ b, s[i]? = some b → runeStart b = true) :
    backOff s i = i := by
  cases i with
  | zero => rfl
  | succ i =>
    rw [backOff]
    split
    · rw [if_pos (h _ ‹_›)]
    · rfl

/-- Inside of a character the program goes back to its first byte. -/
theorem backOff_inside (p x : ByteString) (c : Char) {j : ℕ} (hj : j < (utf8 c).length) :
    backOff (p ++ (utf8 c ++ x)) (p.length + j) = p.length := by
  obtain ⟨b, bs, hc, hstart, hinside⟩ := utf8_shape c
  rw [hc] at hj ⊢
  induction j with
  | zero => exact backOff_stop fun b' hb' => by simp_all
  | succ j ih =>
    have hlt : j < bs.length := by simpa using hj
    have hget : (p ++ (b :: bs ++ x))[p.length + j + 1]? = some bs[j] := by
      rw [getElem?_append_right (by omega)]
      simp [Nat.add_assoc, getElem?_append_left hlt, hlt]
    rw [← Nat.add_assoc, backOff, hget]
    simpa [hinside _ (List.getElem_mem hlt)] using ih (by simp at hj ⊢; omega)

/-- The common beginning of two valid strings, cut back to whole characters. -/
theorem backOff_shared {s₁ s₂ : ByteString} (h₁ : ValidUTF8 s₁) (h₂ : ValidUTF8 s₂) :
    let p := s₁.take (backOff s₁ (sharedLength s₁ s₂))
    ValidUTF8 p ∧ p.length = backOff s₁ (sharedLength s₁ s₂) ∧ p <+: s₁ ∧ p <+: s₂ ∧
      ∀ q, ValidUTF8 q → q <+: s₁ → q <+: s₂ → q <+: p := by
  obtain ⟨cs₁, rfl⟩ := h₁
  obtain ⟨cs₂, rfl⟩ := h₂
  obtain ⟨cs, ⟨t₁, rfl⟩, ⟨t₂, rfl⟩, hmax⟩ := exists_common cs₁ cs₂
  have hback : backOff ((cs ++ t₁).flatMap utf8) (sharedLength ((cs ++ t₁).flatMap utf8)
      ((cs ++ t₂).flatMap utf8)) = (cs.flatMap utf8).length := by
    rw [flatMap_append, flatMap_append, sharedLength_append]
    cases t₁ with
    | nil => exact backOff_stop fun b hb => by simp [sharedLength] at hb
    | cons c t₁ =>
      -- the next characters differ, so not all bytes of the first are shared
      refine backOff_inside _ (t₁.flatMap utf8) c (not_le.mp fun hle => ?_)
      have hc : utf8 c <+: t₂.flatMap utf8 := by
        refine List.IsPrefix.trans ?_ (prefix_take_shared ((c :: t₁).flatMap utf8) _)
        rw [prefix_take_iff]
        exact ⟨⟨_, rfl⟩, hle⟩
      have hchar : [c] <+: t₂ := prefix_of_utf8 (by simpa using hc)
      have hlonger := hmax (cs ++ [c]) (by simp) (by simpa using hchar)
      simpa using hlonger.length_le
  intro p
  have hp : p = cs.flatMap utf8 := by
    show List.take _ _ = _
    rw [hback, flatMap_append, take_left]
  rw [hp, hback]
  refine ⟨⟨cs, rfl⟩, rfl, by simp, by simp, ?_⟩
  rintro _ ⟨ds, rfl⟩ hds₁ hds₂
  obtain ⟨x, rfl⟩ := hmax ds (prefix_of_utf8 hds₁) (prefix_of_utf8 hds₂)
  simp

/-! ### Eight digits -/

/-- The first eight bytes, with spaces behind them, clamped to printable ASCII. -/
def printable8 (s : ByteString) : ByteString :=
  (List.range 8).map fun i => max 32 (min 126 (s[i]?.getD 32))

/-- The value of `res` in `stringToBase95Integer` after `n` turns. -/
def base95Turns (s : ByteString) (n : ℕ) : ℕ :=
  (List.range n).foldl (fun res i => res * 95 + (s[i]?.map base95Digit).getD 0) 0

theorem base95Digit_lt (ch : Fin 256) : base95Digit ch < 95 := by
  rw [base95Digit]
  split_ifs <;> omega

theorem base95Turns_lt (s : ByteString) (n : ℕ) : base95Turns s n < 95 ^ n := by
  induction n with
  | zero => simp [base95Turns]
  | succ n ih =>
    have hdigit : (s[n]?.map base95Digit).getD 0 < 95 := by
      cases s[n]? with
      | none => simp
      | some ch => exact base95Digit_lt ch
    rw [base95Turns, range_succ, foldl_concat, pow_succ]
    rw [base95Turns] at ih
    omega

/-- The digits as bytes. -/
def ofDigits95 (ds : List (Fin 95)) : ByteString := ds.map fun d : Fin 95 => Fin.ofNat 256 (32 + d)

def digits95 (s : ByteString) : List (Fin 95) :=
  (List.range 8).map fun i => Fin.ofNat 95 ((s[i]?.map base95Digit).getD 0)

theorem printable8_eq (s : ByteString) : printable8 s = ofDigits95 (digits95 s) := by
  rw [printable8, ofDigits95, digits95, map_map]
  refine map_congr_left fun i _ => ?_
  simp only [Function.comp_apply]
  cases s[i]? with
  | none => rfl
  | some ch =>
    simp only [Option.getD_some, Option.map_some, Fin.ext_iff, Fin.val_ofNat, base95Digit]
    simp only [Fin.coe_max, Fin.coe_min]
    split_ifs <;> simp_all [Fin.lt_def] <;> omega

theorem value_digits95 (s : ByteString) :
    BigEndian.value (digits95 s) = stringToBase95Integer s := by
  have hdigit (o : Option (Fin 256)) : (Fin.ofNat 95 ((o.map base95Digit).getD 0) : ℕ) =
      (o.map base95Digit).getD 0 := by
    cases o with
    | none => rfl
    | some ch => exact Nat.mod_eq_of_lt (base95Digit_lt ch)
  simp only [digits95, stringToBase95Integer, List.range, List.range.loop, List.map, List.foldl,
    BigEndian.value, hdigit, List.length]
  omega

/-- The numbers are in the order of the bytes. -/
theorem ofDigits95_le {ds es : List (Fin 95)} (hlen : ds.length = es.length)
    (h : BigEndian.value ds ≤ BigEndian.value es) : ofDigits95 ds ≤ ofDigits95 es := by
  have hmono : StrictMono fun d : Fin 95 => (Fin.ofNat 256 (32 + d) : Fin 256) := by
    intro d e hde
    simp only [Fin.lt_def, Fin.val_ofNat]
    omega
  have hle : ds ≤ es := not_lt.mp fun hlt =>
    absurd h (not_le.mpr (BigEndian.value_lt_of_lt hlen.symm hlt))
  rcases lt_or_eq_of_le hle with hlt | rfl
  · exact le_of_lt (BigEndian.map_lt_map hmono hlt)
  · exact le_rfl

/-- What `strings.TrimRight` takes away. -/
theorem trimRight_append (s : ByteString) : ∃ k, trimRight s ++ List.replicate k 32 = s := by
  have hspaces : (s.reverse.takeWhile fun c => c == 32) = List.replicate _ 32 :=
    eq_replicate_iff.mpr ⟨rfl, fun b hb => by simpa using all_eq_true.mp all_takeWhile b hb⟩
  refine ⟨(s.reverse.takeWhile fun c => c == 32).length, ?_⟩
  rw [trimRight, ← reverse_replicate, ← hspaces, ← reverse_append,
    takeWhile_append_dropWhile, reverse_reverse]

theorem base95IntegerToString_eq (n : ℕ) :
    base95IntegerToString n = ofDigits95 (BigEndian.digits 95 8 n) := by
  simp [base95IntegerToString, ofDigits95, map_eq_flatMap, flatMap_assoc]

/-- Bytes that were trimmed count as spaces. -/
theorem digits95_trimmed (p : ByteString) {ds : List (Fin 95)} (hds : ds.length = 8) :
    digits95 ((trimRight (p ++ ofDigits95 ds)).drop p.length) = ds := by
  obtain ⟨k, hk⟩ := trimRight_append (p ++ ofDigits95 ds)
  refine ext_getElem (by simp [digits95, hds]) fun i hi hi' => ?_
  have hwhole : (p ++ ofDigits95 ds)[p.length + i]? = some (Fin.ofNat 256 (32 + ds[i])) := by
    simp [ofDigits95, hi']
  have hdigit : Fin.ofNat 95 (base95Digit (Fin.ofNat 256 (32 + ds[i]))) = ds[i] :=
    (by decide : ∀ d : Fin 95, Fin.ofNat 95 (base95Digit (Fin.ofNat 256 (32 + d))) = d) ds[i]
  simp only [digits95, getElem_map, getElem_range, getElem?_drop]
  rw [← hk] at hwhole
  by_cases hshort : p.length + i < (trimRight (p ++ ofDigits95 ds)).length
  · rw [getElem?_append_left hshort] at hwhole
    rw [hwhole]
    exact hdigit
  · rw [getElem?_append_right (not_lt.mp hshort)] at hwhole
    rw [getElem?_eq_none (not_lt.mp hshort), ← hdigit,
      eq_of_mem_replicate (mem_of_getElem? hwhole)]
    rfl

/-! ### Validity -/

theorem ValidUTF8.append {s t : ByteString} : ValidUTF8 s → ValidUTF8 t → ValidUTF8 (s ++ t)
  | ⟨cs, hs⟩, ⟨ds, ht⟩ => ⟨cs ++ ds, by rw [hs, ht, flatMap_append]⟩

theorem validUTF8_ofDigits95 (ds : List (Fin 95)) : ValidUTF8 (ofDigits95 ds) := by
  refine ⟨ds.map fun d : Fin 95 => Char.ofNat (32 + d), ?_⟩
  rw [flatMap_map, ofDigits95, map_eq_flatMap]
  refine flatMap_congr fun d _ => ?_
  exact (by decide : ∀ d : Fin 95, [Fin.ofNat 256 (32 + d)] = utf8 (Char.ofNat (32 + d))) d

/-- A space is a character of its own. -/
theorem ValidUTF8.of_space {s : ByteString} (h : ValidUTF8 (s ++ [32])) : ValidUTF8 s := by
  obtain ⟨cs, hcs⟩ := h
  rcases eq_nil_or_concat cs with rfl | ⟨ds, c, rfl⟩
  · simp at hcs
  · obtain ⟨b, bs, hc, -, hinside⟩ := utf8_shape c
    rw [concat_eq_append, flatMap_append, flatMap_singleton, hc] at hcs
    rcases eq_nil_or_concat bs with rfl | ⟨bs', x, rfl⟩
    · exact ⟨ds, (append_inj' hcs rfl).1⟩
    · -- the last byte of a longer character does not start one
      rw [concat_eq_append, ← cons_append, ← append_assoc] at hcs
      have hlast : (32 : Fin 256) = x := by simpa using (append_inj' hcs rfl).2
      have := hinside x (by simp)
      subst hlast
      cases this

theorem ValidUTF8.trimRight {s : ByteString} (h : ValidUTF8 s) : ValidUTF8 (trimRight s) := by
  obtain ⟨k, hk⟩ := trimRight_append s
  rw [← hk] at h
  clear hk
  induction k with
  | zero => simpa using h
  | succ k ih =>
    rw [replicate_succ', ← append_assoc] at h
    exact ih h.of_space

/-- **Midpoints are usable.**  For two valid strings that have a midpoint: it is valid, the
numbers fit into 64 bits, up to spaces at its end it begins with the longest beginning of whole
characters that both strings have, and the eight bytes behind it are between those of the two,
with spaces behind shorter ones and clamped to printable ASCII. -/
theorem stringMidpoint_usable {s₁ s₂ m : ByteString} (h₁ : ValidUTF8 s₁) (h₂ : ValidUTF8 s₂)
    (hmid : stringMidpoint s₁ s₂ = some m) :
    ValidUTF8 m ∧ ∃ p, ValidUTF8 p ∧ p <+: s₁ ∧ p <+: s₂ ∧
      (∀ q, ValidUTF8 q → q <+: s₁ → q <+: s₂ → q <+: p) ∧
      (∃ k, p <+: m ++ List.replicate k 32) ∧
      (∀ n ≤ 8, base95Turns (s₁.drop p.length) n < 2 ^ 64 ∧
        base95Turns (s₂.drop p.length) n < 2 ^ 64) ∧
      stringToBase95Integer (s₁.drop p.length) + stringToBase95Integer (s₂.drop p.length) < 2 ^ 64 ∧
      let window := fun s : ByteString => printable8 (s.drop p.length)
      (window s₁ ≤ window m ∧ window m ≤ window s₂) ∨
        (window s₂ ≤ window m ∧ window m ≤ window s₁) := by
  obtain ⟨hvalid, hlen, hp₁, hp₂, hmax⟩ := backOff_shared h₁ h₂
  simp only [stringMidpoint] at hmid
  split_ifs at hmid
  cases hmid
  generalize backOff s₁ (sharedLength s₁ s₂) = i at *
  generalize hp : s₁.take i = p at *
  subst hlen
  have hlt (s : ByteString) : stringToBase95Integer s < 95 ^ 8 := base95Turns_lt s 8
  have hturn (s : ByteString) (n : ℕ) (hn : n ≤ 8) : base95Turns s n < 2 ^ 64 := by
    have hpow : 95 ^ n ≤ 95 ^ 8 := Nat.pow_le_pow_right (by omega) hn
    have := base95Turns_lt s n
    omega
  have hlt₁ := hlt (s₁.drop p.length)
  have hlt₂ := hlt (s₂.drop p.length)
  rw [base95IntegerToString_eq]
  set mid := (stringToBase95Integer (s₁.drop p.length) +
    stringToBase95Integer (s₂.drop p.length)) / 2
  obtain ⟨k, hk⟩ := trimRight_append (p ++ ofDigits95 (BigEndian.digits 95 8 mid))
  refine ⟨(hvalid.append (validUTF8_ofDigits95 _)).trimRight, p, hvalid, hp₁, hp₂, hmax,
    ⟨k, by rw [hk]; exact prefix_append _ _⟩, fun n hn => ⟨hturn _ n hn, hturn _ n hn⟩,
    by omega, ?_⟩
  -- the bytes are in the order of the numbers, and `mid` is between them
  have hbetween {s t : ByteString}
      (h : BigEndian.value (digits95 s) ≤ BigEndian.value (digits95 t)) :
      printable8 s ≤ printable8 t := by
    rw [printable8_eq, printable8_eq]
    exact ofDigits95_le (by simp [digits95]) h
  have hvalue : BigEndian.value (digits95 ((trimRight (p ++ ofDigits95
      (BigEndian.digits 95 8 mid))).drop p.length)) = mid := by
    rw [digits95_trimmed p (BigEndian.length_digits 8 mid), BigEndian.value_digits (by omega)]
  rcases le_total (stringToBase95Integer (s₁.drop p.length))
    (stringToBase95Integer (s₂.drop p.length)) with hle | hle
  · exact .inl ⟨hbetween (by rw [hvalue, value_digits95]; omega),
      hbetween (by rw [hvalue, value_digits95]; omega)⟩
  · exact .inr ⟨hbetween (by rw [hvalue, value_digits95]; omega),
      hbetween (by rw [hvalue, value_digits95]; omega)⟩

theorem stringMidpoint_usable_accent :
    stringMidpoint [195, 169, 97] [195, 169, 99] = some [195, 169, 98] ∧
      ValidUTF8 [195, 169, 98] := by
  have hmid : stringMidpoint [195, 169, 97] [195, 169, 99] = some [195, 169, 98] := by decide
  exact ⟨hmid, (stringMidpoint_usable ⟨['é', 'a'], rfl⟩ ⟨['é', 'c'], rfl⟩ hmid).1⟩

end QRep
