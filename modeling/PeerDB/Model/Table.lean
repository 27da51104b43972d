/-
Tables and sequential replay: what a mirror is for.

A table with a primary key is a partial map from keys to rows.  `replay` applies one
record to a table the way the source did, and is undefined on a record that the table
could not have produced; replaying a batch is a run of `replay`.  The destinations are
compared with this.
-/
import PeerDB.Lib.KeyedLog
import PeerDB.Lib.Loop
import PeerDB.Model.Record
import Mathlib.Data.Option.Basic

open Loop KeyedLog

/-- A row: the value of each column, `none` for NULL. -/
abbrev Row (V : Type) := String → Option V

/-- A table, by the values of its key columns. -/
abbrev Table (V : Type) := List (Option V) → Option (Row V)

/-- The value of a column that is sent, NULL otherwise. -/
def Items.value {V : Type} (items : Items V) (c : String) : Option V := (items.colToVal c).join

theorem Items.colToVal_of_isSome {V : Type} {items : Items V} {c : String}
    (h : (items.colToVal c).isSome) : items.colToVal c = some (items.value c) := by
  obtain ⟨v, hv⟩ := Option.isSome_iff_exists.mp h
  rw [Items.value, hv, Option.join_some]

theorem Items.value_of_colToVal {V : Type} {items : Items V} {c : String} {v : Option V}
    (h : items.colToVal c = some v) : items.value c = v := by
  rw [Items.value, h, Option.join_some]

/-- A mirrored table: its name at the destination, its columns, and those of its
primary key. -/
structure TableShape where
  name : String
  columns : List String
  keyColumns : List String

namespace TableShape

variable {V : Type}

def key (sh : TableShape) (row : Row V) : List (Option V) := sh.keyColumns.map row

/-- The key of the row a record is about. -/
def recordKey (sh : TableShape) (rec : Record V) : List (Option V) := sh.key rec.getItems.value

/-- The key of every row is that it is stored under, and has no NULL. -/
structure Keyed (sh : TableShape) (t : Table V) : Prop where
  key : ∀ k row, t k = some row → sh.key row = k
  notNull : ∀ k row, t k = some row → ∀ c ∈ sh.keyColumns, (row c).isSome

/-- A record has the columns it needs: all of them, or those of the key for a delete. -/
structure Sent (sh : TableShape) (rec : Record V) : Prop where
  key : ∀ c ∈ sh.keyColumns, (rec.getItems.colToVal c).isSome
  columns : rec.kind ≠ .delete → ∀ c ∈ sh.columns, (rec.getItems.colToVal c).isSome

/-- The keys a batch is about: those of the table before it and of its records. -/
def Occurs (sh : TableShape) (before : Table V) (recs : List (Record V)) (k : List (Option V)) :
    Prop :=
  (∃ row, before k = some row) ∨
    ∃ rec ∈ recs, rec.getDestinationTableName = sh.name ∧ sh.recordKey rec = k

theorem Keyed.key_isSome {sh : TableShape} {t : Table V} (h : sh.Keyed t) {k : List (Option V)}
    {row : Row V} (hrow : t k = some row) : k.all Option.isSome = true := by
  rw [← h.key k row hrow, TableShape.key, List.all_map, List.all_eq_true]
  exact h.notNull k row hrow

end TableShape

namespace Table

variable {V : Type} [DecidableEq V]

def set (t : Table V) (k : List (Option V)) (row : Option (Row V)) : Table V :=
  fun k' => if k' = k then row else t k'

@[simp] theorem set_self (t : Table V) (k : List (Option V)) (row : Option (Row V)) :
    t.set k row k = row := if_pos rfl

theorem set_ne (t : Table V) {k k' : List (Option V)} (row : Option (Row V)) (h : k' ≠ k) :
    t.set k row k' = t k' := if_neg h

/-- One record, replayed.  An update keeps the columns that were not sent because they
are unchanged. -/
def replay (sh : TableShape) (t : Table V) (rec : Record V) : Option (Table V) :=
  if rec.getDestinationTableName ≠ sh.name then some t
  else
    match rec with
    | .insert _ items _ _ =>
      if (∀ c ∈ sh.columns, (items.colToVal c).isSome) ∧
          (∀ c ∈ sh.keyColumns, (items.value c).isSome) ∧ (t (sh.key items.value)).isNone then
        some (t.set (sh.key items.value) (some items.value))
      else none
    | .update _ _ newItems unchanged _ _ =>
      match t (sh.key newItems.value) with
      | none => none
      | some old =>
        if (∀ c ∈ sh.columns, (newItems.colToVal c).isSome ∨ c ∈ unchanged) ∧
            ∀ c ∈ unchanged, c ∈ sh.columns ∧ c ∉ sh.keyColumns ∧ (newItems.colToVal c).isNone then
          some (t.set (sh.key newItems.value)
            (some fun c => if c ∈ unchanged then old c else newItems.value c))
        else none
    | .delete _ items _ _ _ =>
      if (∀ c ∈ sh.keyColumns, (items.colToVal c).isSome) ∧ (t (sh.key items.value)).isSome then
        some (t.set (sh.key items.value) none)
      else none
    | .relation .. | .message .. => none

/-- What a replayed record does to the table. -/
inductive Change (sh : TableShape) (t : Table V) : Record V → Table V → Prop
  | other {rec : Record V} : rec.getDestinationTableName ≠ sh.name → Change sh t rec t
  | insert {base : BaseRecord} {items : Items V} {src : String} :
      (∀ c ∈ sh.columns, (items.colToVal c).isSome) →
      (∀ c ∈ sh.keyColumns, (items.value c).isSome) → t (sh.key items.value) = none →
      Change sh t (.insert base items src sh.name) (t.set (sh.key items.value) (some items.value))
  | update {base : BaseRecord} {oldItems newItems : Items V} {unchanged : List String}
      {src : String} {old : Row V} : t (sh.key newItems.value) = some old →
      (∀ c ∈ sh.columns, (newItems.colToVal c).isSome ∨ c ∈ unchanged) →
      (∀ c ∈ unchanged, c ∈ sh.columns ∧ c ∉ sh.keyColumns ∧ newItems.colToVal c = none) →
      Change sh t (.update base oldItems newItems unchanged src sh.name)
        (t.set (sh.key newItems.value)
          (some fun c => if c ∈ unchanged then old c else newItems.value c))
  | delete {base : BaseRecord} {items : Items V} {unchanged : List String} {src : String}
      {old : Row V} : (∀ c ∈ sh.keyColumns, (items.colToVal c).isSome) →
      t (sh.key items.value) = some old →
      Change sh t (.delete base items unchanged src sh.name) (t.set (sh.key items.value) none)

theorem replay_change {sh : TableShape} {t t' : Table V} {rec : Record V}
    (h : replay sh t rec = some t') : Change sh t rec t' := by
  rw [replay.eq_def] at h
  split_ifs at h with hname
  · cases h
    exact .other hname
  · have hdst : rec.getDestinationTableName = sh.name := not_not.mp hname
    cases rec with
    | insert base items src dst =>
      obtain rfl : dst = sh.name := hdst
      simp only [Option.ite_none_right_eq_some, Option.isNone_iff_eq_none] at h
      obtain ⟨⟨hall, hkey, hfree⟩, ht⟩ := h
      cases ht
      exact .insert hall hkey hfree
    | update base oldItems newItems unchanged src dst =>
      obtain rfl : dst = sh.name := hdst
      cases hold : t (sh.key newItems.value) with
      | none =>
        simp only [hold] at h
        cases h
      | some old =>
        simp only [hold, Option.ite_none_right_eq_some, Option.isNone_iff_eq_none] at h
        obtain ⟨⟨hall, hunchanged⟩, ht⟩ := h
        cases ht
        exact .update hold hall hunchanged
    | delete base items unchanged src dst =>
      obtain rfl : dst = sh.name := hdst
      simp only [Option.ite_none_right_eq_some, Option.isSome_iff_exists] at h
      obtain ⟨⟨hkey, old, hold⟩, ht⟩ := h
      cases ht
      exact .delete (fun c hc => Option.isSome_iff_exists.mpr (hkey c hc)) hold
    | relation | message => cases h

theorem replay_complete {sh : TableShape} {t t' : Table V} {rec : Record V}
    (hcomplete : rec.getDestinationTableName = sh.name → rec.unchangedColumns = [])
    (h : replay sh t rec = some t') (k : List (Option V)) :
    t' k = if rec.getDestinationTableName = sh.name ∧ sh.recordKey rec = k then
      (if rec.kind = .delete then none else some rec.getItems.value) else t k := by
  cases replay_change h with
  | other hname => rw [if_neg fun hc => hname hc.1]
  | @insert base items src hall hkey hfree =>
    by_cases hk : sh.key items.value = k
    · subst hk
      simp [Record.getDestinationTableName, TableShape.recordKey, Record.getItems, Record.kind]
    · rw [set_ne _ _ (Ne.symm hk), if_neg fun hc => hk hc.2]
  | @update base oldItems newItems unchanged src old hold hall hunchanged =>
    obtain rfl : unchanged = [] := hcomplete rfl
    by_cases hk : sh.key newItems.value = k
    · subst hk
      simp [Record.getDestinationTableName, TableShape.recordKey, Record.getItems, Record.kind]
    · rw [set_ne _ _ (Ne.symm hk), if_neg fun hc => hk hc.2]
  | @delete base items unchanged src old hsent hold =>
    by_cases hk : sh.key items.value = k
    · subst hk
      simp [Record.getDestinationTableName, TableShape.recordKey, Record.getItems, Record.kind]
    · rw [set_ne _ _ (Ne.symm hk), if_neg fun hc => hk hc.2]

theorem replay_sent {sh : TableShape} {t t' : Table V} {rec : Record V}
    (hkeys : ∀ c ∈ sh.keyColumns, c ∈ sh.columns) (h : replay sh t rec = some t')
    (hname : rec.getDestinationTableName = sh.name) (hcomplete : rec.unchangedColumns = []) :
    sh.Sent rec := by
  cases replay_change h with
  | other hne => exact absurd hname hne
  | insert hall hkey hfree => exact ⟨fun c hc => hall c (hkeys c hc), fun _ => hall⟩
  | @update base oldItems newItems unchanged src old hold hall hunchanged =>
    obtain rfl : unchanged = [] := hcomplete
    have hsent : ∀ c ∈ sh.columns, (newItems.colToVal c).isSome :=
      fun c hc => (hall c hc).resolve_right List.not_mem_nil
    exact ⟨fun c hc => hsent c (hkeys c hc), fun _ => hsent⟩
  | delete hsent hold => exact ⟨hsent, fun hkind => absurd rfl hkind⟩

/-- **Replay by key.**  With complete records the last record of a key alone decides its
row. -/
theorem replay_last {sh : TableShape} {before after : Table V} {recs : List (Record V)}
    (hcomplete : ∀ rec ∈ recs, rec.getDestinationTableName = sh.name → rec.unchangedColumns = [])
    (h : runs (replay sh) before recs = some after) (k : List (Option V)) :
    after k = match last sh.recordKey k (recs.filter fun rec =>
        decide (rec.getDestinationTableName = sh.name)) with
      | some rec => if rec.kind = .delete then none else some rec.getItems.value
      | none => before k := by
  refine runs_history (fun pre t => (∀ rec ∈ pre, rec.getDestinationTableName = sh.name →
    rec.unchangedColumns = []) → ∀ k, t k = match last sh.recordKey k (pre.filter fun rec =>
        decide (rec.getDestinationTableName = sh.name)) with
      | some rec => if rec.kind = .delete then none else some rec.getItems.value
      | none => before k) (fun _ k => rfl) ?_ h hcomplete k
  intro pre rec t t' hinv hstep hcomplete k
  have hpre := hinv (fun r hr => hcomplete r (List.mem_append_left [rec] hr)) k
  have hrec := hcomplete rec (List.mem_append_right pre (List.mem_singleton_self rec))
  rw [replay_complete hrec hstep k, last_filter_snoc]
  simp only [decide_eq_true_eq]
  by_cases hk : rec.getDestinationTableName = sh.name ∧ sh.recordKey rec = k
  · rw [if_pos hk, if_pos hk]
  · rw [if_neg hk, if_neg hk]
    exact hpre

end Table
