/-
Store keys and document ids of rows (`RecToTablePKey`, `documentID`).

The key of a row is a hash of its key columns, one after the other, with nothing between
them.  Two rows with different columns can have the same bytes: `("a", "bc")` and
`("ab", "c")` (`textKeys_collide`).

* `storeKey_separates_rows_iff` — rows are kept apart exactly if their key columns are not
  two cuts of one byte string;
* `flatten_injective` — which they are not if the columns that differ in length are at most
  one, as for a key of one column.
-/
import Mathlib.Algebra.GroupWithZero.Nat
import PeerDB.Elasticsearch.Sync
import PeerDB.Model.CDCStore
import Mathlib.Data.List.Flatten

open Loop

/-! ### Concatenation -/

/-- Numbers with the same sum that agree in all places but one agree in all. -/
theorem eq_of_sum_eq : ∀ {a b : List ℕ}, a.length = b.length → a.sum = b.sum →
    (∃ i : ℕ, ∀ j : ℕ, j ≠ i → a[j]? = b[j]?) → a = b := by
  intro a
  induction a with
  | nil =>
    intro b hlen _ _
    exact (List.length_eq_zero_iff.mp hlen.symm).symm
  | cons x a ih =>
    intro b hlen hsum hagree
    cases b with
    | nil => cases hlen
    | cons y b =>
      obtain ⟨i, hi⟩ := hagree
      rw [List.length_cons, List.length_cons, Nat.add_right_cancel_iff] at hlen
      rw [List.sum_cons, List.sum_cons] at hsum
      cases i with
      | zero =>
        -- the rest agrees everywhere, so the sum leaves no choice for the first
        have hrest : a = b := List.ext_getElem? fun j => hi (j + 1) (Nat.succ_ne_zero j)
        rw [hrest, Nat.add_right_cancel_iff] at hsum
        rw [hrest, hsum]
      | succ i =>
        have hfirst : x = y := Option.some.inj (hi 0 (Nat.succ_ne_zero i).symm)
        rw [hfirst, Nat.add_left_cancel_iff] at hsum
        rw [hfirst, ih hlen hsum ⟨i, fun j hj => hi (j + 1) (by omega)⟩]

/-- Two tuples of byte strings have the same lengths in all places but at most one. -/
def LengthsAgree (a b : List (List UInt8)) : Prop :=
  ∃ i : ℕ, ∀ j : ℕ, j ≠ i → (a[j]?.map List.length) = (b[j]?.map List.length)

/-- The tuples cut one byte string at different places. -/
def Recut (a b : List (List UInt8)) : Prop := a ≠ b ∧ a.flatten = b.flatten

/-- Tuples whose lengths agree can be told apart in their concatenation. -/
theorem flatten_injective {a b : List (List UInt8)} (hlen : a.length = b.length)
    (hagree : LengthsAgree a b) (hflat : a.flatten = b.flatten) : a = b := by
  obtain ⟨i, hi⟩ := hagree
  have hlengths : a.map List.length = b.map List.length := by
    refine eq_of_sum_eq (by rw [List.length_map, List.length_map, hlen]) ?_ ⟨i, fun j hj => ?_⟩
    · rw [← List.length_flatten, ← List.length_flatten, hflat]
    · rw [List.getElem?_map, List.getElem?_map]
      exact hi j hj
  exact List.eq_iff_flatten_eq.mpr ⟨hflat, hlengths⟩

/-! ### Keys of rows -/

section Keys

variable {V H : Type}

/-- The key columns of a record as bytes (`GetBytesByColName`), or the first column that it
lacks. -/
def pkeyColBytes (codec : KeyCodec V H) (primaryKeyColumns : List String) (rec : Record V) :
    Except String (List (List UInt8)) :=
  primaryKeyColumns.mapM fun pkeyCol =>
    match rec.getItems.colToVal pkeyCol with
    | none => .error pkeyCol
    | some val => .ok (codec.bytes val)

theorem recToTablePKey_eq {codec : KeyCodec V H} {pk : List String} {rec : Record V}
    {cols : List (List UInt8)} (h : pkeyColBytes codec pk rec = .ok cols) :
    recToTablePKey codec pk rec =
      .ok (some (rec.getDestinationTableName, codec.hash cols.flatten)) := by
  show (pkeyColBytes codec pk rec >>= _) = _
  rw [h]
  rfl

variable (cfg : Elasticsearch.Config V H)

theorem documentID_eq {schema : TableSchema} {x : Record V}
    (hschema : cfg.tableNameSchemaMapping x.getDestinationTableName = some schema)
    (hcols : schema.primaryKeyColumns.length ≠ 1) :
    Elasticsearch.documentID cfg x =
      (recToTablePKey cfg.codec schema.primaryKeyColumns x).map fun key =>
        (key.map fun k => cfg.encodeKey k.2).getD "" := by
  rw [Elasticsearch.documentID, hschema]
  dsimp only
  split
  · rename_i col hcol
    rw [hcol] at hcols
    exact absurd rfl hcols
  · rfl

variable [DecidableEq H]

/-- Two records are kept apart: they have different store keys, so that neither is found under
the key of the other, and different documents, unless the key is a single column. -/
def KeptApart (schema : TableSchema) (r s : Record V) : Prop :=
  ∃ k l, recToTablePKey cfg.codec schema.primaryKeyColumns r = .ok k ∧
    recToTablePKey cfg.codec schema.primaryKeyColumns s = .ok l ∧ k ≠ l ∧
    (∀ (store : CDCStore V H) (exceeded : Bool) (rec : Record V),
      (store.set exceeded k rec).get l = store.get l) ∧
    (schema.primaryKeyColumns.length ≠ 1 → ∃ d e, Elasticsearch.documentID cfg r = .ok d ∧
      Elasticsearch.documentID cfg s = .ok e ∧ d ≠ e)

/-- **Store keys separate rows exactly if their key columns are not two cuts of one byte
string**: with hashes that do not collide, two records of one table whose key columns differ
as bytes are kept apart if and only if the bytes of all columns together differ too.  They do
if the lengths differ in at most one column. -/
theorem storeKey_separates_rows_iff (hhash : Function.Injective cfg.codec.hash)
    (hencode : Function.Injective cfg.encodeKey) {schema : TableSchema} {r s : Record V}
    (htable : r.getDestinationTableName = s.getDestinationTableName)
    (hschema : cfg.tableNameSchemaMapping r.getDestinationTableName = some schema)
    {a b : List (List UInt8)} (ha : pkeyColBytes cfg.codec schema.primaryKeyColumns r = .ok a)
    (hb : pkeyColBytes cfg.codec schema.primaryKeyColumns s = .ok b) (hne : a ≠ b) :
    (KeptApart cfg schema r s ↔ ¬ Recut a b) ∧ (LengthsAgree a b → ¬ Recut a b) := by
  have hr := recToTablePKey_eq ha
  have hs := recToTablePKey_eq hb
  refine ⟨⟨fun hapart hrecut => ?_, fun hrecut => ?_⟩, fun hagree hrecut => ?_⟩
  · obtain ⟨k, l, hk, hl, hkl, -⟩ := hapart
    rw [hr, hrecut.2, htable, ← hs, hl] at hk
    exact hkl (Except.ok.inj hk).symm
  · have hdiff : cfg.codec.hash a.flatten ≠ cfg.codec.hash b.flatten := fun heq =>
      hrecut ⟨hne, hhash heq⟩
    have hkeys : (some (r.getDestinationTableName, cfg.codec.hash a.flatten) : TableWithPkey H) ≠
        some (s.getDestinationTableName, cfg.codec.hash b.flatten) := by
      intro heq
      exact hdiff (Prod.mk.inj (Option.some.inj heq)).2
    refine ⟨_, _, hr, hs, hkeys, fun store exceeded rec => ?_, fun hcols => ?_⟩
    · rw [CDCStore.get_eq, CDCStore.view_set, CDCStore.get_eq]
      exact Store.get_set_ne _ hkeys rec
    · refine ⟨_, _, by rw [documentID_eq cfg hschema hcols, hr]; rfl,
        by rw [documentID_eq cfg (htable ▸ hschema) hcols, hs]; rfl, ?_⟩
      exact fun heq => hdiff (hencode heq)
  · have hlen : a.length = b.length := (mapM_length ha).trans (mapM_length hb).symm
    exact hne (flatten_injective hlen hagree hrecut.2)

end Keys

/-! ### Two text columns -/

/-- Values are byte strings and are their own renderings. -/
def textSchema : TableSchema where
  columns := [⟨"tenant", "text", -1, false, "", none⟩, ⟨"name", "text", -1, false, "", none⟩]
  primaryKeyColumns := ["tenant", "name"]

/-- A destination whose hash is the identity. -/
def textIndex : Elasticsearch.Config (List UInt8) (List UInt8) where
  tableNameSchemaMapping name := if name = "users" then some textSchema else none
  codec := ⟨fun v => v.getD [], id⟩
  marshal _ := .ok ""
  sprint _ := ""
  encodeKey h := String.ofList (h.map Char.ofUInt8)

/-- The row with this key. -/
def textRecord (tenant name : List UInt8) : Record (List UInt8) :=
  .insert BaseRecord.zero ⟨fun c => if c = "tenant" then some (some tenant) else
    if c = "name" then some (some name) else none⟩ "public.users" "users"

theorem textIndex_encodeKey : Function.Injective textIndex.encodeKey := by
  have hchar : Function.Injective Char.ofUInt8 := by
    intro a b h
    have hval : a.toUInt32 = b.toUInt32 := congrArg Char.val h
    rw [← UInt32.toNat_inj, UInt8.toNat_toUInt32, UInt8.toNat_toUInt32] at hval
    exact UInt8.toNat_inj.mp hval
  intro g h heq
  exact List.map_injective_iff.mpr hchar (String.ofList_inj.mp heq)

/-- Tenant `a` with name `bcd` and tenant `xy` with name `z` are kept apart, although the
lengths of both columns differ. -/
theorem storeKey_separates_tenants :
    KeptApart textIndex textSchema (textRecord [97] [98, 99, 100])
      (textRecord [120, 121] [122]) := by
  have hrow : pkeyColBytes textIndex.codec textSchema.primaryKeyColumns
      (textRecord [97] [98, 99, 100]) = .ok [[97], [98, 99, 100]] := rfl
  have hother : pkeyColBytes textIndex.codec textSchema.primaryKeyColumns
      (textRecord [120, 121] [122]) = .ok [[120, 121], [122]] := rfl
  refine (storeKey_separates_rows_iff textIndex (fun _ _ h => h) textIndex_encodeKey (by rfl)
    (by rfl) hrow hother (by decide)).1.mpr ?_
  exact fun hrecut => by cases hrecut.2

/-- **Two rows share a key**: tenant `a` with name `bc` and tenant `ab` with name `c` have the
same store key and document, although the hash does not collide, and the one is found
under the key of the other. -/
theorem textKeys_collide :
    pkeyColBytes textIndex.codec textSchema.primaryKeyColumns (textRecord [97] [98, 99]) =
      .ok [[97], [98, 99]] ∧
    pkeyColBytes textIndex.codec textSchema.primaryKeyColumns (textRecord [97, 98] [99]) =
      .ok [[97, 98], [99]] ∧
    Function.Injective textIndex.codec.hash ∧
    recToTablePKey textIndex.codec textSchema.primaryKeyColumns (textRecord [97] [98, 99]) =
      recToTablePKey textIndex.codec textSchema.primaryKeyColumns (textRecord [97, 98] [99]) ∧
    Elasticsearch.documentID textIndex (textRecord [97] [98, 99]) =
      Elasticsearch.documentID textIndex (textRecord [97, 98] [99]) ∧
    ∃ k, recToTablePKey textIndex.codec textSchema.primaryKeyColumns (textRecord [97, 98] [99]) =
        .ok k ∧
      (CDCStore.new.set false k (textRecord [97] [98, 99])).get k =
        some (textRecord [97] [98, 99]) :=
  ⟨rfl, rfl, fun _ _ h => h, rfl, rfl, _, rfl, rfl⟩
