/-
The update clauses of the generated MERGE statements, and the marker of unchanged columns
(`generateUpdateStatements` of the Postgres, BigQuery and Snowflake destinations).

The raw row of an update names its unchanged TOAST columns in one text, `KeysToString`.  For
each such text that occurs in a batch a destination generates a clause: it splits the text
at commas and assigns all other columns.

* `updateClauses_exact` — a clause assigns the columns that are not in the set, if no name
  contains a comma and quoting does not identify names;
* `marker_roundTrip_iff` — for a table, all clauses are right and all markers different
  exactly then.

Postgres compares quoted names, so that they are quoted here; the backticks of BigQuery are
left out.
-/
import PeerDB.Postgres.Merge

open List

/-! ### The model -/

/-- A quoted identifier ends before the first zero byte. -/
def beforeZero (name : String) : List Char := name.toList.takeWhile fun c => c ≠ '\x00'

/-- A double quote is doubled. -/
def escapeQuotes (name : List Char) : List Char :=
  name.flatMap fun c => if c = '"' then ['"', '"'] else [c]

def quoteIdentifier (name : String) : String :=
  String.ofList ('"' :: (escapeQuotes (beforeZero name) ++ ['"']))

/-- What the generators of the destinations do differently. -/
structure Dialect where
  /-- how the names of all columns are given, and those of the marker written before they are
  compared with them -/
  quote : String → String
  /-- the column that is assigned -/
  target : String → String
  /-- the column of the source row -/
  source : String → String
  /-- the names of the columns that PeerDB adds -/
  added : String → String

namespace Dialect

variable (d : Dialect) (cols : PeerDBColumns)

/-- The assignments of a clause: other columns, synced-at and, last, soft delete. -/
def assignments (otherCols : List String) (deleted : Bool) : List (String × SqlValue) :=
  (otherCols.map fun c => (d.target c, .src (d.source c)))
    ++ (if cols.syncedAtColName ≠ "" then [(d.added cols.syncedAtColName, .currentTimestamp)]
        else [])
    ++ (if cols.softDeleteColName ≠ "" then [(d.added cols.softDeleteColName, .bool deleted)]
        else [])

def updateClauses (allCols unchangedToastColumns : List String) : List WhenClause :=
  unchangedToastColumns.flatMap fun unchanged =>
    let otherCols := arrayMinus allCols ((splitComma unchanged).map d.quote)
    ⟨true, false, some unchanged, .update (d.assignments cols otherCols false)⟩ ::
      -- updates and deletes in the same batch: the delete is an update and a soft delete
      if cols.softDeleteColName ≠ "" then
        [⟨true, true, some unchanged, .update (d.assignments cols otherCols true)⟩]
      else []

end Dialect

namespace Postgres

def dialect : Dialect where
  quote := quoteIdentifier
  target := id
  source := id
  added := quoteIdentifier

def generateUpdateStatements (cols : PeerDBColumns)
    (quotedCols unchangedToastColumns : List String) : List WhenClause :=
  dialect.updateClauses cols quotedCols unchangedToastColumns

end Postgres

namespace BigQuery

/-- `shortColumn` gives the names of the columns in the deduplicated raw rows. -/
def dialect (shortColumn : String → String) : Dialect where
  quote := id
  target := id
  source := shortColumn
  added := id

def generateUpdateStatements (shortColumn : String → String) (cols : PeerDBColumns)
    (allCols unchangedToastColumns : List String) : List WhenClause :=
  (dialect shortColumn).updateClauses cols allCols unchangedToastColumns

end BigQuery

namespace Snowflake

/-- Functions of the `unicode` and `strings` packages. -/
structure Unicode where
  isLower : Char → Bool
  isLetter : Char → Bool
  toUpper : String → String

variable (unicode : Unicode)

def isLower (s : String) : Bool := s.toList.all fun r => unicode.isLower r || !unicode.isLetter r

/-- `SnowflakeIdentifierNormalize` -/
def identifierNormalize (identifier : String) : String :=
  if isLower unicode identifier then "\"" ++ unicode.toUpper identifier ++ "\""
  else "\"" ++ identifier ++ "\""

def dialect : Dialect where
  quote := id
  target := identifierNormalize unicode
  source := identifierNormalize unicode
  added c := "\"" ++ c ++ "\""

def generateUpdateStatements (cols : PeerDBColumns)
    (allCols unchangedToastColumns : List String) : List WhenClause :=
  (dialect unicode).updateClauses cols allCols unchangedToastColumns

end Snowflake

/-! ### Quoting -/

theorem escapeQuotes_cons (c : Char) (s : List Char) :
    escapeQuotes (c :: s) =
      c :: if c = '"' then '"' :: escapeQuotes s else escapeQuotes s := by
  rw [escapeQuotes, flatMap_cons]
  split_ifs with hc
  · rw [hc]
    rfl
  · rfl

theorem escapeQuotes_injective : ∀ {s t : List Char}, escapeQuotes s = escapeQuotes t → s = t := by
  intro s
  induction s with
  | nil =>
    intro t h
    cases t with
    | nil => rfl
    | cons b t =>
      rw [escapeQuotes_cons] at h
      cases h
  | cons a s ih =>
    intro t h
    cases t with
    | nil =>
      rw [escapeQuotes_cons] at h
      cases h
    | cons b t =>
      rw [escapeQuotes_cons, escapeQuotes_cons, List.cons.injEq] at h
      obtain ⟨rfl, htail⟩ := h
      split_ifs at htail with ha
      · rw [ih (List.cons.inj htail).2]
      · rw [ih htail]

/-- Quoted names are equal if the names are, up to a zero byte. -/
theorem quoteIdentifier_inj {a b : String} :
    quoteIdentifier a = quoteIdentifier b ↔ beforeZero a = beforeZero b := by
  constructor
  · intro h
    rw [quoteIdentifier, quoteIdentifier, String.ofList_inj, List.cons.injEq] at h
    exact escapeQuotes_injective (append_cancel_right h.2)
  · intro h
    rw [quoteIdentifier, quoteIdentifier, h]

/-! ### Clauses and markers -/

/-- The clauses for a marker assign the columns that are not in the set and nothing else, but
for the columns that PeerDB adds. -/
def Dialect.AssignsExactly (d : Dialect) (cols : PeerDBColumns) (columns set : List String)
    (clauses : List WhenClause) : Prop :=
  clauses.map WhenClause.isDelete =
      (if cols.softDeleteColName ≠ "" then [false, true] else [false]) ∧
    ∀ w ∈ clauses, w.matched = true ∧ w.unchangedToastColumns = some (keysToString set) ∧
      w.action = .update
        (d.assignments cols ((columns.filter fun c => c ∉ set).map d.quote) w.isDelete)

/-- Quoting distinguishes the columns, from each other and from the empty name. -/
def Dialect.Distinguishes (d : Dialect) (columns : List String) : Prop :=
  ∀ c ∈ "" :: columns, ∀ c' ∈ "" :: columns, d.quote c = d.quote c' → c = c'

/-- Names can be subtracted before they are quoted, if quoting keeps apart those that are
subtracted. -/
theorem arrayMinus_map {f : String → String} {columns names subtracted : List String}
    (h : ∀ c ∈ columns, f c ∈ names ↔ c ∈ subtracted) :
    arrayMinus (columns.map f) names = (arrayMinus columns subtracted).map f := by
  rw [arrayMinus, filter_map]
  refine congrArg (List.map f) (filter_congr fun c hc => ?_)
  rw [Function.comp_apply, decide_eq_decide, not_iff_not]
  exact h c hc

section RoundTrip

variable {d : Dialect} {cols : PeerDBColumns} {columns set : List String}

/-- Two names of the table, or empty ones, are equal up to a zero byte only if they are
equal. -/
theorem postgres_distinguishes_iff : Postgres.dialect.Distinguishes columns ↔
    ∀ c ∈ "" :: columns, ∀ c' ∈ "" :: columns, beforeZero c = beforeZero c' → c = c' := by
  refine forall₄_congr fun c _ c' _ => ?_
  rw [← quoteIdentifier_inj]
  rfl

theorem mem_quoted_marker (hne : ∀ c ∈ columns, c ≠ "") (hcomma : ∀ c ∈ columns, ',' ∉ c.toList)
    (hquote : d.Distinguishes columns) (hset : set ⊆ columns) {c : String} (hc : c ∈ columns) :
    d.quote c ∈ (splitComma (keysToString set)).map d.quote ↔ c ∈ set := by
  have hsplit {name : String} (hname : name ≠ "") :
      name ∈ splitComma (keysToString set) ↔ name ∈ set :=
    mem_split_keysToString (fun key hkey => hcomma key (hset hkey)) hname
  rw [mem_map]
  constructor
  · rintro ⟨name, hmem, heq⟩
    by_cases hempty : name = ""
    · subst hempty
      have := hquote "" mem_cons_self c (mem_cons_of_mem _ hc) heq
      exact absurd this.symm (hne c hc)
    · have hmem' := (hsplit hempty).mp hmem
      rw [← hquote name (mem_cons_of_mem _ (hset hmem')) c (mem_cons_of_mem _ hc) heq]
      exact hmem'
  · intro hmem
    exact ⟨c, (hsplit (hne c hc)).mpr hmem, rfl⟩

/-- **A clause assigns the columns that are not in the set.** -/
theorem updateClauses_exact (hne : ∀ c ∈ columns, c ≠ "")
    (hcomma : ∀ c ∈ columns, ',' ∉ c.toList) (hquote : d.Distinguishes columns)
    (hset : set ⊆ columns) :
    d.AssignsExactly cols columns set
      (d.updateClauses cols (columns.map d.quote) [keysToString set]) := by
  have hother : arrayMinus (columns.map d.quote) ((splitComma (keysToString set)).map d.quote) =
      (columns.filter fun c => c ∉ set).map d.quote :=
    arrayMinus_map fun c hc => mem_quoted_marker hne hcomma hquote hset hc
  rw [Dialect.updateClauses, flatMap_singleton, hother]
  dsimp only
  split_ifs with hsoft
  · refine ⟨by rw [if_pos hsoft]; rfl, fun w hw => ?_⟩
    rw [mem_cons, mem_singleton] at hw
    rcases hw with rfl | rfl <;> exact ⟨rfl, rfl, rfl⟩
  · refine ⟨by rw [if_neg hsoft]; rfl, fun w hw => ?_⟩
    rw [mem_singleton.mp hw]
    exact ⟨rfl, rfl, rfl⟩

/-- What exact clauses say about the names that are left when those of the marker are
subtracted, for a destination that assigns the names it compares. -/
theorem subtracted_of_assignsExactly {allCols : List String} (htarget : d.target = id)
    (h : d.AssignsExactly cols columns set (d.updateClauses cols allCols [keysToString set])) :
    arrayMinus allCols ((splitComma (keysToString set)).map d.quote) =
      (columns.filter fun c => c ∉ set).map d.quote := by
  have hfirst := (h.2 _ (by
    rw [Dialect.updateClauses, flatMap_singleton]
    exact mem_cons_self)).2.2
  have hset := MergeAction.update.inj hfirst
  rw [Dialect.assignments, Dialect.assignments, htarget] at hset
  have hmap := congrArg (List.map Prod.fst)
    (append_cancel_right (append_cancel_right hset))
  rw [map_map, map_map] at hmap
  exact (map_id _).symm.trans (hmap.trans (map_id _))

end RoundTrip

/-- The marker of one column is its name. -/
theorem keysToString_singleton (c : String) : keysToString [c] = c := by
  have hsort : [c].dedup.insertionSort (fun a b => a ≤ b) = [c] := by simp
  rw [keysToString, hsort, joinComma]
  simp

theorem notMem_of_mem_splitOn {a : Char} {l part : List Char} (h : part ∈ l.splitOn a) :
    a ∉ part := by
  rw [List.splitOn] at h
  induction l generalizing part with
  | nil =>
    rw [splitOnP_nil, mem_singleton] at h
    simp [h]
  | cons x l ih =>
    rw [splitOnP_cons_eq_if_modifyHead] at h
    split_ifs at h with hx
    · rcases mem_cons.mp h with rfl | h
      · simp
      · exact ih h
    · have hne : a ≠ x := fun he => hx (by simp [he])
      -- the character is put in front of the first part
      cases hparts : l.splitOnP fun y => y == a with
      | nil => exact absurd hparts (splitOnP_ne_nil _ _)
      | cons first parts =>
        rw [hparts] at h ih
        rw [modifyHead_cons] at h
        rcases mem_cons.mp h with rfl | h
        · exact not_mem_cons_of_ne_of_not_mem hne (ih mem_cons_self)
        · exact ih (mem_cons_of_mem _ h)

/-- A name with a comma is not among the parts of its marker. -/
theorem notMem_split_self {c : String} (hc : ',' ∈ c.toList) : c ∉ splitComma c := by
  intro h
  obtain ⟨part, hpart, rfl⟩ := mem_map.mp h
  rw [String.toList_ofList] at hc
  exact notMem_of_mem_splitOn hpart hc

/-- A column with a comma in its name is assigned by the clause that should leave it out. -/
theorem noComma_of_exact {cols : PeerDBColumns} {shortColumn : String → String}
    {columns : List String} {c : String} (hc : c ∈ columns)
    (h : (BigQuery.dialect shortColumn).AssignsExactly cols columns [c]
      (BigQuery.generateUpdateStatements shortColumn cols columns [keysToString [c]])) :
    ',' ∉ c.toList := by
  intro hcomma
  have hexact : arrayMinus columns ((splitComma (keysToString [c])).map id) =
      (columns.filter fun c' => c' ∉ [c]).map id :=
    subtracted_of_assignsExactly (d := BigQuery.dialect shortColumn) rfl h
  rw [keysToString_singleton, map_id, map_id] at hexact
  have hmem : c ∈ arrayMinus columns (splitComma c) :=
    mem_filter.mpr ⟨hc, decide_eq_true (notMem_split_self hcomma)⟩
  rw [hexact] at hmem
  simp at hmem

/-- A column that is not in the set is not among the quoted names of the marker. -/
theorem beforeZero_ne_of_exact {cols : PeerDBColumns} {columns set : List String}
    (h : Postgres.dialect.AssignsExactly cols columns set
      (Postgres.generateUpdateStatements cols (columns.map quoteIdentifier) [keysToString set]))
    {c : String} (hc : c ∈ columns) (hnot : c ∉ set) {name : String}
    (hname : name ∈ splitComma (keysToString set)) : beforeZero name ≠ beforeZero c := by
  intro heq
  have hexact : arrayMinus (columns.map quoteIdentifier)
      ((splitComma (keysToString set)).map quoteIdentifier) =
      (columns.filter fun c' => c' ∉ set).map quoteIdentifier :=
    subtracted_of_assignsExactly (d := Postgres.dialect) rfl h
  have hmem : quoteIdentifier c ∈ (columns.filter fun c' => c' ∉ set).map quoteIdentifier :=
    mem_map_of_mem (mem_filter.mpr ⟨hc, decide_eq_true hnot⟩)
  rw [← hexact] at hmem
  refine of_decide_eq_true (mem_filter.mp hmem).2 ?_
  rw [← quoteIdentifier_inj.mpr heq]
  exact mem_map_of_mem hname

/-- Names that are not quoted are compared as they are. -/
theorem updateClauses_exact_of_unquoted {d : Dialect} (hd : d.quote = id) {cols : PeerDBColumns}
    {columns set : List String} (hne : ∀ c ∈ columns, c ≠ "")
    (hcomma : ∀ c ∈ columns, ',' ∉ c.toList) (hset : set ⊆ columns) :
    d.AssignsExactly cols columns set (d.updateClauses cols columns [keysToString set]) := by
  have hexact : d.AssignsExactly cols columns set
      (d.updateClauses cols (columns.map d.quote) [keysToString set]) :=
    updateClauses_exact hne hcomma (fun c _ c' _ heq => by rwa [hd] at heq) hset
  rw [hd, map_id] at hexact
  exact hexact

/-- Equal markers have the same columns. -/
theorem mem_iff_of_keysToString_eq {columns set set' : List String}
    (hne : ∀ c ∈ columns, c ≠ "") (hcomma : ∀ c ∈ columns, ',' ∉ c.toList)
    (hset : set ⊆ columns) (hset' : set' ⊆ columns) (heq : keysToString set = keysToString set')
    (c : String) : c ∈ set ↔ c ∈ set' := by
  by_cases hc : c = ""
  · subst hc
    exact ⟨fun h => absurd rfl (hne _ (hset h)), fun h => absurd rfl (hne _ (hset' h))⟩
  · rw [← mem_split_keysToString (fun key hkey => hcomma key (hset hkey)) hc, heq,
      mem_split_keysToString (fun key hkey => hcomma key (hset' hkey)) hc]

/-- **The marker round-trips exactly if no name contains a comma**, and Postgres can tell
the names apart when they are quoted: all clauses of the three destinations assign the
columns that are not in the set, and different sets have different markers. -/
theorem marker_roundTrip_iff (cols : PeerDBColumns) (shortColumn : String → String)
    (unicode : Snowflake.Unicode) (columns : List String) (hne : ∀ c ∈ columns, c ≠ "") :
    ((∀ set, set ⊆ columns →
        Postgres.dialect.AssignsExactly cols columns set
          (Postgres.generateUpdateStatements cols (columns.map quoteIdentifier)
            [keysToString set]) ∧
        (BigQuery.dialect shortColumn).AssignsExactly cols columns set
          (BigQuery.generateUpdateStatements shortColumn cols columns [keysToString set]) ∧
        (Snowflake.dialect unicode).AssignsExactly cols columns set
          (Snowflake.generateUpdateStatements unicode cols columns [keysToString set])) ∧
      (∀ set set', set ⊆ columns → set' ⊆ columns → keysToString set = keysToString set' →
        ∀ c, c ∈ set ↔ c ∈ set')) ↔
    (∀ c ∈ columns, ',' ∉ c.toList) ∧
      ∀ c ∈ "" :: columns, ∀ c' ∈ "" :: columns, beforeZero c = beforeZero c' → c = c' := by
  constructor
  · rintro ⟨hclauses, -⟩
    have hcomma : ∀ c ∈ columns, ',' ∉ c.toList := fun c hc =>
      noComma_of_exact hc (hclauses [c] (by simpa using hc)).2.1
    refine ⟨hcomma, ?_⟩
    -- the empty name is the one of the empty marker
    have hempty : ∀ c ∈ columns, beforeZero "" ≠ beforeZero c := fun c hc =>
      beforeZero_ne_of_exact (hclauses [] (nil_subset _)).1 hc not_mem_nil (by decide)
    intro c hc c' hc' heq
    rcases mem_cons.mp hc with rfl | hc
    · rcases mem_cons.mp hc' with rfl | hc'
      · rfl
      · exact absurd heq (hempty c' hc')
    · rcases mem_cons.mp hc' with rfl | hc'
      · exact absurd heq.symm (hempty c hc)
      · by_contra hdiff
        refine beforeZero_ne_of_exact (hclauses [c] (by simpa using hc)).1 hc' ?_ ?_ heq
        · exact fun h => hdiff (mem_singleton.mp h).symm
        · exact (mem_split_keysToString (by simpa using hcomma c hc) (hne c hc)).mpr
            mem_cons_self
  · rintro ⟨hcomma, hzero⟩
    refine ⟨fun set hset => ⟨?_, ?_, ?_⟩, ?_⟩
    · exact updateClauses_exact hne hcomma (postgres_distinguishes_iff.mpr hzero) hset
    · exact updateClauses_exact_of_unquoted rfl hne hcomma hset
    · exact updateClauses_exact_of_unquoted rfl hne hcomma hset
    · intro set set' hset hset' heq
      exact mem_iff_of_keysToString_eq hne hcomma hset hset' heq

def Snowflake.asciiLetters : Snowflake.Unicode := ⟨Char.isLower, Char.isAlpha, String.toUpper⟩

/-- A table with a column that has a quote in its name. -/
theorem quotedName_roundTrip :
    Postgres.dialect.AssignsExactly ⟨"deleted", "synced"⟩ ["id", "a\"b", "c"] ["a\"b"]
      (Postgres.generateUpdateStatements ⟨"deleted", "synced"⟩
        (["id", "a\"b", "c"].map quoteIdentifier) [keysToString ["a\"b"]]) ∧
    keysToString ["a\"b"] ≠ keysToString ["c"] := by
  have h := (marker_roundTrip_iff ⟨"deleted", "synced"⟩ id Snowflake.asciiLetters
    ["id", "a\"b", "c"] (by decide)).mpr ⟨by decide, by decide⟩
  refine ⟨(h.1 ["a\"b"] (by simp)).1, fun heq => ?_⟩
  have hmem := (h.2 ["a\"b"] ["c"] (by simp) (by simp) heq "c").mpr mem_cons_self
  revert hmem
  decide

/-- The column `a,b` is unchanged, and is the only one that is assigned; the columns `a` and
`b` have the same marker. -/
theorem commaName_assigned :
    Postgres.generateUpdateStatements {} (["a", "b", "a,b"].map quoteIdentifier)
        [keysToString ["a,b"]] =
      [⟨true, false, some "a,b", .update [("\"a,b\"", .src "\"a,b\"")]⟩] ∧
    BigQuery.generateUpdateStatements id {} ["a", "b", "a,b"] [keysToString ["a,b"]] =
      [⟨true, false, some "a,b", .update [("a,b", .src "a,b")]⟩] ∧
    Snowflake.generateUpdateStatements Snowflake.asciiLetters {} ["a", "b", "a,b"]
        [keysToString ["a,b"]] =
      [⟨true, false, some "a,b", .update [("\"A,B\"", .src "\"A,B\"")]⟩] ∧
    keysToString ["a,b"] = keysToString ["a", "b"] := by
  refine ⟨by decide, by decide, ?_, by decide⟩
  decide +kernel
