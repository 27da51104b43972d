/-
Logs of keyed entries with increasing timestamps.

A log is read by key: `last key k l` is the last entry of key `k`.  Readers that do
not see the order of the log find it by timestamps: `newest` keeps the entries that no
entry of their key is newer than (a rank of one), and a maximum over any collection
that has the entries of the log in it, in any order and number, is the last one too
(`newestOf_last`).
-/
import Mathlib.Data.List.MinMax
import Mathlib.Data.List.Nodup

namespace KeyedLog

open List

variable {α β κ τ : Type*} [DecidableEq κ]

def last (key : α → κ) (k : κ) (l : List α) : Option α :=
  (l.filter fun a => decide (key a = k)).getLast?

theorem last_snoc (key : α → κ) (k : κ) (l : List α) (a : α) :
    last key k (l ++ [a]) = if key a = k then some a else last key k l := by
  rw [last, last, filter_append]
  by_cases hk : key a = k <;> simp [hk]

theorem last_filter_snoc (key : α → κ) (k : κ) (p : α → Bool) (l : List α) (a : α) :
    last key k ((l ++ [a]).filter p) =
      if p a = true ∧ key a = k then some a else last key k (l.filter p) := by
  rw [filter_append, filter_singleton]
  cases hp : p a with
  | true =>
    rw [cond_true, last_snoc]
    simp only [true_and]
  | false =>
    rw [cond_false, append_nil, if_neg fun h => Bool.false_ne_true h.1]

variable {key : α → κ} {l : List α}

theorem last_some {k : κ} {a : α} (h : last key k l = some a) :
    a ∈ l ∧ key a = k := by
  have hmem := mem_of_getLast? h
  rw [mem_filter, decide_eq_true_eq] at hmem
  exact hmem

theorem last_none {k : κ} (h : last key k l = none) :
    ∀ a ∈ l, key a ≠ k := by
  intro a ha hk
  rw [last, getLast?_eq_none_iff, filter_eq_nil_iff] at h
  exact h a ha (decide_eq_true hk)

theorem last_append (key : α → κ) (k : κ) (l m : List α) :
    last key k (l ++ m) = (last key k m).or (last key k l) := by
  rw [last, last, last, filter_append, getLast?_append]

/-- Nothing is left out if the last entry is kept. -/
theorem last_filter {k : κ} {p : α → Bool} (h : ∀ a, last key k l = some a → p a = true) :
    last key k (l.filter p) = last key k l := by
  have hcomm : (l.filter p).filter (fun a => decide (key a = k)) =
      (l.filter fun a => decide (key a = k)).filter p := filter_comm ..
  rw [last, hcomm]
  cases hlast : last key k l with
  | none =>
    rw [last, getLast?_eq_none_iff] at hlast
    rw [hlast]
    rfl
  | some a =>
    obtain ⟨pre, hpre⟩ := getLast?_eq_some_iff.mp hlast
    rw [hpre, filter_append, filter_singleton, h a hlast, cond_true,
      getLast?_concat]

/-- Where the last entry of a key stands among those that are kept. -/
theorem last_filter_split {k : κ} {p : α → Bool} {a : α} (h : last key k (l.filter p) = some a) :
    ∃ older newer, l = older ++ a :: newer ∧ p a = true ∧ key a = k ∧
      ∀ b ∈ newer, p b = true → key b ≠ k := by
  rw [last, filter_filter] at h
  obtain ⟨pre, hpre⟩ := getLast?_eq_some_iff.mp h
  obtain ⟨older, rest, rfl, -, hrest⟩ := filter_eq_append_iff.mp hpre
  obtain ⟨skipped, newer, rfl, -, ha, hnewer⟩ := filter_eq_cons_iff.mp hrest
  rw [Bool.and_eq_true, decide_eq_true_eq] at ha
  refine ⟨older ++ skipped, newer, (append_assoc ..).symm, ha.2, ha.1, fun b hb hkept hk => ?_⟩
  refine filter_eq_nil_iff.mp hnewer b hb ?_
  rw [hkept, decide_eq_true hk]
  rfl

/-- Only which entries have the key matters. -/
theorem last_congr {κ' : Type*} [DecidableEq κ'] {key' : α → κ'} {k : κ} {k' : κ'}
    (h : ∀ a ∈ l, key a = k ↔ key' a = k') : last key k l = last key' k' l := by
  rw [last, last]
  congr 1
  exact filter_congr fun a ha => decide_eq_decide.mpr (h a ha)

/-- A log read through a translation of its entries. -/
theorem last_map (key : β → κ) (k : κ) (f : α → β) (l : List α) :
    last key k (l.map f) = (last (key ∘ f) k l).map f := by
  rw [last, last, filter_map, getLast?_map]
  rfl

section Order

variable [LinearOrder τ] {key : α → κ} {ts : α → τ} {l : List α}

theorem last_newest (hsorted : l.Pairwise fun a b => ts a < ts b) {k : κ} {a : α}
    (h : last key k l = some a) : ∀ b ∈ l, key b = k → b = a ∨ ts b < ts a := by
  obtain ⟨pre, hpre⟩ := getLast?_eq_some_iff.mp h
  have hfilter := hsorted.filter fun a => decide (key a = k)
  rw [hpre, pairwise_append] at hfilter
  intro b hb hk
  have hmem : b ∈ pre ++ [a] := by
    rw [← hpre, mem_filter]
    exact ⟨hb, decide_eq_true hk⟩
  rcases mem_append.mp hmem with hbefore | hlast
  · exact Or.inr (hfilter.2.2 b hbefore a (mem_singleton_self a))
  · exact Or.inl (mem_singleton.mp hlast)

/-- The entries of rank one. -/
def newest (key : α → κ) (ts : α → τ) (l : List α) : List α :=
  l.filter fun a => decide (∀ b ∈ l, key b = key a → ts b ≤ ts a)

theorem mem_newest (hsorted : l.Pairwise fun a b => ts a < ts b) {a : α} :
    a ∈ newest key ts l ↔ last key (key a) l = some a := by
  rw [newest, mem_filter, decide_eq_true_eq]
  constructor
  · rintro ⟨ha, hmax⟩
    cases hlast : last key (key a) l with
    | none => exact absurd rfl (last_none hlast a ha)
    | some b =>
      obtain ⟨hb, hkey⟩ := last_some hlast
      rcases last_newest hsorted hlast a ha rfl with rfl | hlt
      · rfl
      · exact absurd hlt (not_lt_of_ge (hmax b hb hkey))
  · intro hlast
    refine ⟨(last_some hlast).1, fun b hb hkey => ?_⟩
    rcases last_newest hsorted hlast b hb hkey with rfl | hlt
    · exact le_refl _
    · exact le_of_lt hlt

/-- Only which entries share a key matters. -/
theorem newest_congr {κ' : Type*} [DecidableEq κ'] {key' : α → κ'}
    (h : ∀ a ∈ l, ∀ b ∈ l, key a = key b ↔ key' a = key' b) :
    newest key ts l = newest key' ts l := by
  refine filter_congr fun a ha => ?_
  rw [decide_eq_decide]
  constructor
  · intro hmax b hb hkey
    exact hmax b hb ((h b hb a ha).mpr hkey)
  · intro hmax b hb hkey
    exact hmax b hb ((h b hb a ha).mp hkey)

theorem newest_map (key : β → κ) (ts : β → τ) (f : α → β) (l : List α) :
    newest key ts (l.map f) = (newest (key ∘ f) (ts ∘ f) l).map f := by
  rw [newest, newest, filter_map]
  congr 1
  refine filter_congr fun a _ => ?_
  simp

/-- The entries of rank one, looked up by key. -/
theorem find_newest (hsorted : l.Pairwise fun a b => ts a < ts b) (k : κ) :
    (newest key ts l).find? (fun a => decide (key a = k)) = last key k l := by
  cases hfind : (newest key ts l).find? fun a => decide (key a = k) with
  | some a =>
    have hdec := find?_some hfind
    have hkey : key a = k := of_decide_eq_true hdec
    have hlast := (mem_newest hsorted).mp (mem_of_find?_eq_some hfind)
    rw [hkey] at hlast
    exact hlast.symm
  | none =>
    cases hlast : last key k l with
    | none => rfl
    | some a =>
      have hkey : key a = k := (last_some hlast).2
      have hmem : a ∈ newest key ts l := by
        rw [mem_newest hsorted, hkey]
        exact hlast
      have hne := find?_eq_none.mp hfind a hmem
      exact absurd (decide_eq_true hkey) hne

theorem newest_nodup (hsorted : l.Pairwise fun a b => ts a < ts b) :
    ((newest key ts l).map key).Nodup := by
  have hnodup : l.Nodup := hsorted.imp fun hlt => ne_of_apply_ne ts (ne_of_lt hlt)
  refine List.Nodup.map_on (fun a ha b hb hkey => ?_) (hnodup.filter _)
  have hlast := (mem_newest hsorted).mp ha
  rw [hkey, (mem_newest hsorted).mp hb] at hlast
  exact (Option.some.inj hlast).symm

/-- An entry with the largest timestamp. -/
def newestOf (ts : α → τ) (l : List α) : Option α := l.argmax ts

omit [DecidableEq κ] in
theorem newestOf_mem {m : List α} {a : α} (h : newestOf ts m = some a) : a ∈ m :=
  argmax_mem h

omit [DecidableEq κ] in
/-- A maximum that all other entries stay below. -/
theorem newestOf_eq {m : List α} {a : α} (ha : a ∈ m) (hmax : ∀ b ∈ m, b = a ∨ ts b < ts a) :
    newestOf ts m = some a := by
  cases harg : newestOf ts m with
  | none =>
    rw [newestOf, argmax_eq_none] at harg
    rw [harg] at ha
    cases ha
  | some b =>
    have hle : ts a ≤ ts b := le_of_mem_argmax ha harg
    rcases hmax b (newestOf_mem harg) with rfl | hlt
    · rfl
    · exact absurd hle (not_le_of_gt hlt)

/-- **Reading a log without its order.**  A collection that has all entries of the log,
and otherwise only entries older than those, has the last entry of a key as its
newest. -/
theorem newestOf_last (hsorted : l.Pairwise fun a b => ts a < ts b) {m : List α}
    (hall : ∀ a ∈ l, a ∈ m) (hold : ∀ b ∈ m, b ∈ l ∨ ∀ a ∈ l, ts b < ts a) {k : κ} {a : α}
    (h : last key k l = some a) :
    newestOf ts (m.filter fun b => decide (key b = k)) = some a := by
  obtain ⟨ha, hkey⟩ := last_some h
  refine newestOf_eq ?_ fun b hb => ?_
  · rw [mem_filter]
    exact ⟨hall a ha, decide_eq_true hkey⟩
  · rw [mem_filter, decide_eq_true_eq] at hb
    rcases hold b hb.1 with hin | holder
    · exact last_newest hsorted h b hin hb.2
    · exact Or.inr (holder a ha)

end Order

end KeyedLog
