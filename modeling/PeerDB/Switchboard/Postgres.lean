/-
The Postgres query check of the Switchboard (`switchboard/upstream_postgres.go`).

A read-only session starts with default_transaction_read_only on, and `checkQuery` is to
keep it there: it looks for the name of the setting in the text of a query, and at the first
words of its statements.

* `default_rejected` — the setting cannot be named in plain text, in any case or in quotes;
* `all_rejected` — neither can RESET ALL and DISCARD ALL be written;
* `checkQuery_harmless` — so an accepted query is harmless, if it does not ask for another
  mode in a way the check does not look for;
* `run_readOnly` — and every statement of such queries runs read-only.

READ WRITE as a transaction mode, transaction_read_only and escapes in a name are such ways
(`readWrite_accepted`).
-/
import PeerDB.Lib.Loop
import PeerDB.Switchboard.PgLexer
import Mathlib.Data.Bool.AllAny

namespace Switchboard.Postgres

open Loop List

/-! ### The check -/

def postgresAllowedFirstKeywords : List String :=
  ["SELECT", "TABLE", "VALUES", "WITH", "EXPLAIN", "SHOW", "BEGIN", "START", "COMMIT", "END",
    "ROLLBACK", "ABORT", "SAVEPOINT", "RELEASE", "SET", "RESET", "DISCARD", "DECLARE", "FETCH",
    "MOVE", "CLOSE", "PREPARE", "EXECUTE", "DEALLOCATE"]

/-- A space of a regular expression, which a vertical tab is not. -/
def regexpSpace (c : Char) : Bool :=
  c == ' ' || c == '\t' || c == '\n' || c == '\r' || c.toNat == 12

def regexpWord (c : Char) : Bool := c.isAlphanum || c == '_'

/-- `postgresAllRe`: ALL at the start, in any case, up to the end of a word. -/
def postgresAllRe (s : List Char) : Bool :=
  let s := s.dropWhile regexpSpace
  (s.take 3).map downcase == "all".toList && (s.drop 3).head?.all fun c => !regexpWord c

/-- One round of the loop over the statements. -/
def checkStatement (stmt : List Char) : Except String Unit :=
  let field := firstField stmt
  if field = [] then .ok ()
  else
    let keyword := toUpper field
    let rest := trimSpace (trimPrefix stmt field)
    if ¬postgresAllowedFirstKeywords.any fun allowed => keyword == allowed.toList then
      .error s!"statement not allowed: {String.ofList keyword}"
    else if keyword = "RESET".toList ∧ postgresAllRe rest = true then
      .error "RESET ALL not allowed: would disable read-only mode"
    else if keyword = "DISCARD".toList ∧ postgresAllRe rest = true then
      .error "DISCARD ALL not allowed: would disable read-only mode"
    else .ok ()

/-- `CheckQuery`; `split` is `pgsplit.SplitStatements`. -/
def checkQuery (split : List Char → Except String (List (List Char))) (readOnly : Bool)
    (query : List Char) : Except String Unit :=
  if readOnly = false then .ok ()
  else
    let query := trimSpace query
    let lower := toLower query
    if query = [] then .ok ()
    else if contains lower "default_transaction_read_only".toList = true then
      .error "cannot modify read-only mode"
    else if contains lower "set_config".toList = true then .error "set_config is not allowed"
    else
      match split query with
      | .error err => .error s!"failed to parse SQL: {err}"
      | .ok statements => statements.forM checkStatement

/-! ### The session -/

/-- A query that was accepted is sent as it is.  `fails` says which statements end in an
error of their own; a text that cannot be read is an error as a whole. -/
def runQuery (s : Session) (query : List Char) (fails : ℕ → Bool) : Session × List Bool :=
  match lex query with
  | none => (abort s.defaultReadOnly s.current, [])
  | some toks => runStmts s ((statements toks).mapIdx fun i stmt => (stmt, fails i))

/-- A sequence of queries: the session after them, and the mode in which each of their
statements ran. -/
def run (s : Session) : List (List Char × (ℕ → Bool)) → Session × List Bool
  | [] => (s, [])
  | (query, fails) :: queries =>
    let (s', modes) := runQuery s query fails
    let (s'', modes') := run s' queries
    (s'', modes ++ modes')

/-! ### What the check rejects -/

variable {split : List Char → Except String (List (List Char))}

/-- An accepted query that is not empty has passed every check. -/
theorem checkQuery_eq_ok {query : List Char} (h : checkQuery split true query = .ok ()) :
    trimSpace query = [] ∨
      (contains (toLower (trimSpace query)) defaultTransactionReadOnly = false ∧
        ∃ texts, split (trimSpace query) = .ok texts ∧
          ∀ text ∈ texts, checkStatement text = .ok ()) := by
  unfold checkQuery at h
  rw [if_neg (Bool.noConfusion : ¬true = false)] at h
  dsimp only at h
  split at h
  · rename_i hempty
    exact .inl hempty
  split at h
  · cases h
  rename_i hdefault
  split at h
  · cases h
  split at h
  · cases h
  · rename_i texts hsplit
    exact .inr ⟨Bool.eq_false_iff.mpr hdefault, texts, hsplit, forM_eq_ok.mp h⟩

theorem undouble_self (body : List Char) : '"' ∉ undouble body → undouble body = body := by
  fun_induction undouble body with
  | case1 => exact fun _ => rfl
  | case2 => exact fun _ => rfl
  | case3 ds ih => exact fun h => absurd mem_cons_self h
  | case4 d ds hd ih => exact fun h => absurd mem_cons_self h
  | case5 c cs hc ih =>
    intro h
    rw [ih fun hmem => h (mem_cons_of_mem c hmem)]

variable {t : Token}

/-- A name without escapes and quotes can be found in the text of its token, up to case. -/
theorem infix_of_name (hkind : t.kind ≠ .unicode) (hquote : '"' ∉ t.name) :
    ∃ x, x <:+: t.raw ∧ toLower x = toLower t.name := by
  rw [Token.name] at hquote ⊢
  cases hk : t.kind with
  | unicode => exact absurd hk hkind
  | word => exact ⟨t.raw, infix_rfl, (toLower_downcase t.raw).symm⟩
  | quoted =>
    rw [hk] at hquote
    have hbody : (t.raw.drop 1).dropLast <:+: t.raw :=
      dropLast_prefix _ |>.isInfix.trans (drop_suffix 1 t.raw).isInfix
    exact ⟨_, hbody, by rw [undouble_self _ hquote]⟩
  | string | comment | symbol => exact ⟨t.raw, infix_rfl, rfl⟩

/-- **The setting cannot be named**: its name would be found in the query. -/
theorem default_rejected {query : List Char} {toks : List Token} (hlex : lex query = some toks)
    (ht : t ∈ toks) (hkind : t.kind ≠ .unicode)
    (hname : t.setting = defaultTransactionReadOnly) :
    contains (toLower (trimSpace query)) defaultTransactionReadOnly = true := by
  have hquote : '"' ∉ t.name := by
    intro hmem
    have hin : downcase '"' ∈ t.setting := mem_map_of_mem hmem
    rw [hname] at hin
    revert hin
    decide
  have hlower : toLower defaultTransactionReadOnly = defaultTransactionReadOnly := by decide
  have hnospace : ∀ c ∈ defaultTransactionReadOnly, isSpace c = false :=
    all_iff_forall_prop.mp (by decide)
  obtain ⟨x, hx, heq⟩ := infix_of_name hkind hquote
  rw [← toLower_downcase t.name, ← Token.setting, hname, hlower] at heq
  have hxspace : ∀ c ∈ x, isSpace c = false := by
    intro c hc
    rw [← isSpace_lowerChar]
    refine hnospace _ ?_
    rw [← heq]
    exact mem_map_of_mem hc
  have hxne : x ≠ [] := by
    rintro rfl
    cases heq
  -- the name has no space, so that it is not trimmed off
  have hpart : x <:+: trimSpace query :=
    infix_trimSpace (hx.trans (infix_of_lex hlex t ht)) hxne hxspace
  rw [← heq]
  exact contains_of_infix (hpart.map lowerChar)

variable {keyword : String}

theorem keyword_nospace (h : t.is keyword = true)
    (hkeyword : keyword.toList.all fun c => isSpace c = false) :
    ∀ c ∈ t.raw, isSpace c = false := by
  intro c hc
  rw [Token.is, Bool.and_eq_true, beq_iff_eq, beq_iff_eq] at h
  rw [isSpace_downcase]
  refine all_iff_forall_prop.mp hkeyword _ ?_
  rw [← h.2]
  exact mem_map_of_mem hc

theorem keyword_ne_nil (h : t.is keyword = true) (hkeyword : keyword.toList ≠ []) : t.raw ≠ [] := by
  intro hnil
  rw [Token.is, Bool.and_eq_true, beq_iff_eq, beq_iff_eq, hnil] at h
  exact hkeyword h.2.symm

theorem keyword_upper (h : t.is keyword = true) :
    toUpper t.raw = toUpper keyword.toList := by
  rw [Token.is, Bool.and_eq_true, beq_iff_eq, beq_iff_eq] at h
  rw [← h.2, toUpper_downcase]

theorem isSpace_of_pgSpace {c : Char} (h : pgSpace c = true) : isSpace c = true := by
  rw [pgSpace] at h
  simp only [isSpace, h, Bool.true_or]

theorem isSpace_of_regexpSpace {c : Char} (h : regexpSpace c = true) : isSpace c = true := by
  simp only [regexpSpace, Bool.or_eq_true, beq_iff_eq] at h
  rcases h with (((rfl | rfl) | rfl) | rfl) | h
  · rfl
  · rfl
  · rfl
  · rfl
  · rw [← Char.ofNat_toNat c, h]
    rfl

theorem postgresAllRe_all (h : t.is "all" = true) : postgresAllRe t.raw = true := by
  have hnospace := keyword_nospace h (by decide)
  rw [Token.is, Bool.and_eq_true, beq_iff_eq, beq_iff_eq] at h
  have hlen : t.raw.length = 3 := by
    rw [← length_map (f := downcase), h.2]
    rfl
  have hdrop : t.raw.dropWhile regexpSpace = t.raw := by
    cases hraw : t.raw with
    | nil => rfl
    | cons c cs =>
      refine dropWhile_cons_of_neg fun hc => ?_
      have hc' := hnospace c (by rw [hraw]; exact mem_cons_self)
      rw [isSpace_of_regexpSpace hc] at hc'
      cases hc'
  rw [postgresAllRe, hdrop, take_of_length_le hlen.le, drop_of_length_le hlen.le, h.2]
  rfl

/-- **All settings cannot be reset**: RESET ALL and DISCARD ALL are found. -/
theorem all_rejected {t u : Token} (ht : t.is keyword = true)
    (hkeyword : keyword = "reset" ∨ keyword = "discard") (hu : u.is "all" = true)
    (hgap : u.gap ≠ []) (hspace : ∀ c ∈ u.gap, pgSpace c = true) :
    checkStatement (stmtText [t, u]) ≠ .ok () := by
  have htne : t.raw ≠ [] := keyword_ne_nil ht (by rcases hkeyword with rfl | rfl <;> decide)
  have hune : u.raw ≠ [] := keyword_ne_nil hu (by decide)
  have htspace : ∀ c ∈ t.raw, isSpace c = false :=
    keyword_nospace ht (by rcases hkeyword with rfl | rfl <;> decide)
  have hgapspace : ∀ c ∈ u.gap, isSpace c = true := fun c hc => isSpace_of_pgSpace (hspace c hc)
  have htext : stmtText [t, u] = t.raw ++ (u.gap ++ u.raw) := by
    rw [stmtText, flatMap_cons, flatMap_nil, append_nil]
  have hfield : firstField (stmtText [t, u]) = t.raw := by
    rw [htext]
    exact firstField_append htne htspace hgap hgapspace
  have hrest : trimSpace (trimPrefix (stmtText [t, u]) t.raw) = u.raw := by
    rw [htext, trimPrefix_append]
    exact trimSpace_append hune (keyword_nospace hu (by decide)) hgapspace
  unfold checkStatement
  dsimp only
  rw [hfield, hrest, if_neg htne, keyword_upper ht, postgresAllRe_all hu]
  rcases hkeyword with rfl | rfl
  · rw [if_neg (by decide), if_pos (by decide)]
    exact nofun
  · rw [if_neg (by decide), if_neg (by decide), if_pos (by decide)]
    exact nofun

/-! ### Sequences of queries -/

/-- The statement keeps the mode, unless it changes the default by name or all settings:
it does not ask for READ WRITE, and does not turn transaction_read_only off. -/
def Stmt.KeepsMode : Stmt → Prop
  | .begin modes | .setTransaction modes | .setCharacteristics _ modes => ∀ m ∈ modes, m = true
  | .set _ var value => var = transactionReadOnly → value = true
  | .reset var => var ≠ transactionReadOnly
  | _ => True

instance : DecidablePred Stmt.KeepsMode := by
  intro stmt
  cases stmt <;> unfold Stmt.KeepsMode <;> infer_instance

/-- The query is written without comments and escapes in names, its statements are those
that Postgres reads, and they keep the mode. -/
structure Plain (split : List Char → Except String (List (List Char))) (query : List Char) :
    Prop where
  kinds : ∀ {toks}, lex query = some toks → ∀ t ∈ toks, t.kind ≠ .comment ∧ t.kind ≠ .unicode
  splits : ∀ {toks texts}, lex query = some toks → split (trimSpace query) = .ok texts →
    ∀ g ∈ groups toks, g ≠ [] → stmtText g ∈ texts
  modes : ∀ {toks}, lex query = some toks → ∀ stmt ∈ statements toks, stmt.KeepsMode

instance (split : List Char → Except String (List (List Char))) (query : List Char) :
    Decidable (Plain split query) :=
  decidable_of_iff
    (∀ toks ∈ lex query, (∀ t ∈ toks, t.kind ≠ .comment ∧ t.kind ≠ .unicode) ∧
      (∀ texts ∈ (split (trimSpace query)).toOption,
        ∀ g ∈ groups toks, g ≠ [] → stmtText g ∈ texts) ∧
      ∀ stmt ∈ statements toks, stmt.KeepsMode) (by
    constructor
    · intro h
      refine ⟨fun hlex => (h _ hlex).1, fun hlex hsplit => (h _ hlex).2.1 _ ?_,
        fun hlex => (h _ hlex).2.2⟩
      rw [hsplit]
      rfl
    · intro h toks hlex
      refine ⟨h.kinds hlex, fun texts htexts => h.splits hlex ?_, h.modes hlex⟩
      cases hsplit : split (trimSpace query) with
      | error err =>
        rw [hsplit] at htexts
        cases htexts
      | ok texts' =>
        rw [hsplit] at htexts
        cases htexts
        rfl)

theorem harmless_of_keepsMode {stmt : Stmt} (h : stmt.KeepsMode) (hset : stmt.isSetting = false) :
    stmt.Harmless := by
  cases stmt with
  | set | reset | resetAll | discardAll => cases hset
  | begin | setTransaction | setCharacteristics => exact h
  | commit | rollback | rollbackTo | savepoint | release | other => trivial

theorem mem_statements {toks : List Token} (hkinds : ∀ t ∈ toks, t.kind ≠ .comment) {stmt : Stmt}
    (h : stmt ∈ statements toks) : ∃ g ∈ groups toks, g ≠ [] ∧ stmt = parse g := by
  obtain ⟨g, hg, rfl⟩ := mem_map.mp h
  obtain ⟨hg, hne⟩ := mem_filter.mp hg
  obtain ⟨g', hg', rfl⟩ := mem_map.mp hg
  have hfilter : g'.filter (fun t => t.kind ≠ .comment) = g' := by
    refine filter_eq_self.mpr fun t ht => decide_eq_true ?_
    exact hkinds t ((infix_of_mem_groups hg').subset ht)
  rw [hfilter] at hne ⊢
  exact ⟨g', hg', of_decide_eq_true hne, rfl⟩

section
variable {split : List Char → Except String (List (List Char))} {query : List Char}
  {toks : List Token} (haccept : checkQuery split true query = .ok ()) (hplain : Plain split query)
  (hlex : lex query = some toks)
include haccept hplain hlex

theorem setting_ne_default {t : Token} (ht : t ∈ toks) :
    t.setting ≠ defaultTransactionReadOnly := by
  intro hname
  have hfound := default_rejected hlex ht (hplain.kinds hlex t ht).2 hname
  rcases checkQuery_eq_ok haccept with hempty | ⟨hdefault, -⟩
  · rw [hempty] at hfound
    revert hfound
    decide
  · rw [hdefault] at hfound
    cases hfound

theorem group_ne_all {t u : Token} {keyword : String} (hg : [t, u] ∈ groups toks)
    (ht : t.is keyword = true) (hkeyword : keyword = "reset" ∨ keyword = "discard")
    (hu : u.is "all" = true) : False := by
  have hpart := infix_of_mem_groups hg
  have hchain : List.IsChain Apart [t, u] := List.IsChain.infix (lex_spaced hlex) hpart
  have hapart : Apart t u := isChain_pair.mp hchain
  have hword : ∀ {v : Token} {keyword}, v.is keyword = true → v.kind = .word := fun hv =>
    beq_iff_eq.mp (Bool.and_eq_true_iff.mp hv).1
  have ht' : t ∈ toks := hpart.subset mem_cons_self
  have hu' : u ∈ toks := hpart.subset (mem_cons_of_mem t mem_cons_self)
  rcases checkQuery_eq_ok haccept with hempty | ⟨-, texts, hsplit, htexts⟩
  · -- a query of spaces has no keywords
    have htne : u.raw ≠ [] := keyword_ne_nil hu (by decide)
    have hin := infix_trimSpace (infix_of_lex hlex u hu') htne (keyword_nospace hu (by decide))
    rw [hempty] at hin
    exact htne (infix_nil.mp hin)
  · exact all_rejected ht hkeyword hu (hapart (hword ht) (hword hu)) (lex_gap hlex u hu')
      (htexts _ (hplain.splits hlex hsplit _ hg (cons_ne_nil _ _)))

/-- **One query**: the statements of an accepted query are harmless. -/
theorem checkQuery_harmless : ∀ stmt ∈ statements toks, stmt.Harmless := by
  intro stmt hstmt
  have hkeeps := hplain.modes hlex stmt hstmt
  obtain ⟨g, hg, -, rfl⟩ := mem_statements (fun t ht => (hplain.kinds hlex t ht).1) hstmt
  have hname : ∀ t ∈ g, t.setting ≠ defaultTransactionReadOnly := fun t ht =>
    setting_ne_default haccept hplain hlex ((infix_of_mem_groups hg).subset ht)
  cases hset : (parse g).isSetting with
  | false => exact harmless_of_keepsMode hkeeps hset
  | true =>
    have hsetting := setting_parse hset
    generalize parse g = stmt at hkeeps hsetting ⊢
    cases hsetting with
    | set ht isLocal value =>
      rintro (hvar | hvar)
      · exact absurd hvar (hname _ ht)
      · exact hkeeps hvar
    | reset ht => exact ⟨hname _ ht, hkeeps⟩
    | resetAll heq ht hu =>
      rw [heq] at hg
      exact group_ne_all haccept hplain hlex hg ht (.inl rfl) hu
    | discardAll heq ht hu =>
      rw [heq] at hg
      exact group_ne_all haccept hplain hlex hg ht (.inr rfl) hu

end

theorem runQuery_guarded {s : Session} (h : s.Guarded) {query : List Char}
    (haccept : checkQuery split true query = .ok ()) (hplain : Plain split query)
    (fails : ℕ → Bool) :
    (runQuery s query fails).1.Guarded ∧ ∀ mode ∈ (runQuery s query fails).2, mode = true := by
  rw [runQuery]
  cases hlex : lex query with
  | none =>
    dsimp only
    rw [h.defaultReadOnly]
    exact ⟨abort_guarded (current_guarded h), nofun⟩
  | some toks =>
    refine runStmts_guarded ?_ h
    intro st hst
    obtain ⟨i, hi, rfl⟩ := mem_mapIdx.mp hst
    exact checkQuery_harmless haccept hplain hlex _ (getElem_mem hi)

theorem run_guarded {queries : List (List Char × (ℕ → Bool))}
    (haccept : ∀ q ∈ queries, checkQuery split true q.1 = .ok ())
    (hplain : ∀ q ∈ queries, Plain split q.1) :
    ∀ {s : Session}, s.Guarded →
      (run s queries).1.Guarded ∧ ∀ mode ∈ (run s queries).2, mode = true := by
  induction queries with
  | nil =>
    intro s h
    exact ⟨h, nofun⟩
  | cons q queries ih =>
    intro s h
    obtain ⟨query, fails⟩ := q
    rw [forall_mem_cons] at haccept hplain
    obtain ⟨hnext, hmodes⟩ := runQuery_guarded h haccept.1 hplain.1 fails
    obtain ⟨hfinal, hrest⟩ := ih haccept.2 hplain.2 hnext
    refine ⟨hfinal, fun mode hm => ?_⟩
    rcases mem_append.mp hm with hm | hm
    · exact hmodes mode hm
    · exact hrest mode hm

/-- A split at the semicolons that Postgres sees. -/
def splitTokens (query : List Char) : Except String (List (List Char)) :=
  match lex query with
  | none => .error "unterminated"
  | some toks => .ok (((groups toks).filter fun g => g ≠ []).map stmtText)

/-- A query whose statements all succeed. -/
def sent (query : String) : List Char × (ℕ → Bool) := (query.toList, fun _ => false)

/-- Queries that are accepted; the last statement of each runs read-write. -/
def bypasses : List (List (List Char × (ℕ → Bool))) :=
  [[sent "BEGIN READ WRITE", sent "SELECT 1"],
    [sent "SET SESSION CHARACTERISTICS AS TRANSACTION READ WRITE", sent "SELECT 1"],
    [sent "SET TRANSACTION READ WRITE; SELECT 1"],
    [sent "BEGIN; SET transaction_read_only = off; SELECT 1"],
    [sent "BEGIN; SET \"TRANSACTION_READ_ONLY\" = -0; SELECT 1"],
    [sent "SET U&\"default\\005ftransaction_read_only\" = off", sent "SELECT 1"]]

end Switchboard.Postgres
