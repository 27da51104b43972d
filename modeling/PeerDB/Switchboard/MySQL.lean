/-
The MySQL query check of the Switchboard (`switchboard/upstream_mysql.go`).

The check walks the syntax tree of the parser by hand.  It calls `checkSelectStatement` on
the SELECTs that it meets, which rejects INTO, locks and denied functions, and goes on from
there through some positions of the tree and not through others.

* `Walks` — the positions through which it goes on;
* `checkSelectStatement_iff` — a SELECT passes exactly if all it reaches is clean;
* `accepted_clean_iff` — so accepted queries are clean exactly if no query has its bad nodes in
  other positions only.

A WITH clause, a join condition, a window clause, a set operation in a derived table and the
WHERE of a SHOW are not (`bypasses_accepted`).
-/
import PeerDB.Lib.Loop
import PeerDB.Switchboard.Text

namespace Switchboard.MySQL

open Loop List

/-! ### The syntax tree -/

/-- `ast.CIStr`: a name as written and in lower case. -/
structure CIStr where
  o : String
  l : String
  deriving DecidableEq, Repr

inductive SelectLockType where
  | none | forUpdate | forShare | forUpdateNoWait | forUpdateWaitN | forShareNoWait
  | forUpdateSkipLocked | forShareSkipLocked
  deriving DecidableEq, Repr

inductive SelectIntoType where
  | outfile | dumpfile | vars
  deriving DecidableEq, Repr

mutual
/-- `ast.ExprNode`.  Of the expressions only calls and subqueries matter; `node` stands for
every other one, with its operands, and `nil` for one that is not there. -/
inductive Expr where
  | nil
  | node (operands : List Expr)
  | funcCall (fnName : CIStr) (args : List Expr)
  | subquery (query : Query)

/-- `ast.SelectStmt`, `ast.SetOprStmt` and `ast.SetOprSelectList`.  The query of a common
table expression is a subquery. -/
inductive Query where
  | select (ctes fields : List Expr) (tableRefs : TableRef) (whereExpr : Expr)
      (groupBy : List Expr) (having : Expr) (windowSpecs orderBy limit : List Expr)
      (lockInfo : Option SelectLockType) (selectIntoOpt : Option SelectIntoType)
  | setOpr (ctes : List Expr) (selects : List Query) (orderBy limit : List Expr)
  | selectList (ctes : List Expr) (selects : List Query) (orderBy limit : List Expr)

/-- `ast.ResultSetNode` in a FROM clause. -/
inductive TableRef where
  | nil
  | tableName (name : String)
  | tableSource (source : TableRef)
  | join (left right : TableRef) (on : Expr)
  | query (q : Query)
  | subquery (q : Query)
end

/-- What is explained by an `ast.ExplainStmt`. -/
inductive Explained where
  | nothing
  | query (q : Query)
  | show (pattern whereExpr : Expr)
  | other (goType : String)

/-- `ast.StmtNode`. -/
inductive Stmt where
  | query (q : Query)
  | show (pattern whereExpr : Expr)
  | explain (stmt : Explained)
  | begin
  | commit
  | rollback
  | savepoint
  | releaseSavepoint
  | other (goType : String)

/-- A node of the tree that a visitor enters. -/
inductive Node where
  | expr (e : Expr)
  | query (q : Query)

mutual
/-- The nodes that `Accept` visits, in order. -/
def Expr.nodes : Expr → List Node
  | .nil => []
  | .node operands => .expr (.node operands) :: exprsNodes operands
  | .funcCall fnName args => .expr (.funcCall fnName args) :: exprsNodes args
  | .subquery query => .expr (.subquery query) :: query.nodes
termination_by structural e => e

def Query.nodes : Query → List Node
  | .select ctes fields tableRefs whereExpr groupBy having windowSpecs orderBy limit lockInfo
      selectIntoOpt =>
    .query (.select ctes fields tableRefs whereExpr groupBy having windowSpecs orderBy limit
        lockInfo selectIntoOpt) ::
      (exprsNodes ctes ++ exprsNodes fields ++ tableRefs.nodes ++ whereExpr.nodes ++
        exprsNodes groupBy ++ having.nodes ++ exprsNodes windowSpecs ++ exprsNodes orderBy ++
        exprsNodes limit)
  | .setOpr ctes selects orderBy limit =>
    .query (.setOpr ctes selects orderBy limit) ::
      (exprsNodes ctes ++ queriesNodes selects ++ exprsNodes orderBy ++ exprsNodes limit)
  | .selectList ctes selects orderBy limit =>
    .query (.selectList ctes selects orderBy limit) ::
      (exprsNodes ctes ++ queriesNodes selects ++ exprsNodes orderBy ++ exprsNodes limit)
termination_by structural q => q

def TableRef.nodes : TableRef → List Node
  | .nil | .tableName _ => []
  | .tableSource source => source.nodes
  | .join left right on => left.nodes ++ right.nodes ++ on.nodes
  | .query q => q.nodes
  | .subquery q => .expr (.subquery q) :: q.nodes
termination_by structural t => t

def exprsNodes : List Expr → List Node
  | [] => []
  | e :: es => e.nodes ++ exprsNodes es
termination_by structural es => es

def queriesNodes : List Query → List Node
  | [] => []
  | q :: qs => q.nodes ++ queriesNodes qs
termination_by structural qs => qs
end

def Stmt.nodes : Stmt → List Node
  | .query q => q.nodes
  | .show pattern whereExpr => pattern.nodes ++ whereExpr.nodes
  | .explain (.query q) => q.nodes
  | .explain (.show pattern whereExpr) => pattern.nodes ++ whereExpr.nodes
  | _ => []

/-! ### The check -/

def mysqlDeniedFunctions : List String :=
  ["load_file", "get_lock", "release_lock", "is_free_lock", "is_used_lock"]

def denied (fnName : CIStr) : Bool :=
  mysqlDeniedFunctions.contains (String.ofList (toLower fnName.l.toList))

/-- `functionVisitor.Enter`. -/
def enterFunction : Node → Except String Unit
  | .expr (.funcCall fnName _) =>
    if denied fnName then .error ("function " ++ fnName.o ++ " not allowed") else .ok ()
  | _ => .ok ()

/-- A visitor keeps the first error. -/
def checkDeniedFunctions (q : Query) : Except String Unit := q.nodes.forM enterFunction

/-- `LockInfo` has a lock. -/
def locking (lockInfo : Option SelectLockType) : Bool :=
  lockInfo.isSome && lockInfo != some .none

mutual
/-- `checkSelectStatement`.  It is only called on a SELECT: the type assertions before the
calls let every other query pass. -/
def checkSelectStatement : Query → Except String Unit
  | .select ctes fields tableRefs whereExpr groupBy having windowSpecs orderBy limit lockInfo
      selectIntoOpt =>
    if selectIntoOpt.isSome then .error "SELECT INTO not allowed"
    else if locking lockInfo then .error "locking reads (FOR UPDATE/FOR SHARE) not allowed"
    else do
      checkDeniedFunctions (.select ctes fields tableRefs whereExpr groupBy having windowSpecs
        orderBy limit lockInfo selectIntoOpt)
      checkResultSetNode tableRefs
      checkExprForSubqueries whereExpr
      checkExprForSubqueries having
      checkExprsForSubqueries orderBy
      checkExprsForSubqueries groupBy
      checkExprsForSubqueries fields
  | .setOpr .. | .selectList .. => .ok ()
termination_by structural q => q

/-- `checkTableRefsForSubqueries` and `checkResultSetNode`. -/
def checkResultSetNode : TableRef → Except String Unit
  | .nil | .tableName _ => .ok ()
  | .tableSource source => checkResultSetNode source
  | .join left right _ => do
    checkResultSetNode left
    checkResultSetNode right
  | .query q => checkSelectStatement q
  | .subquery q => checkSelectStatement q
termination_by structural t => t

/-- `checkExprForSubqueries`: `subqueryVisitor` enters every node below the expression. -/
def checkExprForSubqueries : Expr → Except String Unit
  | .nil => .ok ()
  | .node operands => checkExprsForSubqueries operands
  | .funcCall _ args => checkExprsForSubqueries args
  | .subquery query => do
    checkSelectStatement query
    visitQuery query
termination_by structural e => e

def checkExprsForSubqueries : List Expr → Except String Unit
  | [] => .ok ()
  | e :: es => do
    checkExprForSubqueries e
    checkExprsForSubqueries es
termination_by structural es => es

/-- `subqueryVisitor` below a query. -/
def visitQuery : Query → Except String Unit
  | .select ctes fields tableRefs whereExpr groupBy having windowSpecs orderBy limit _ _ => do
    checkExprsForSubqueries ctes
    checkExprsForSubqueries fields
    visitTableRef tableRefs
    checkExprForSubqueries whereExpr
    checkExprsForSubqueries groupBy
    checkExprForSubqueries having
    checkExprsForSubqueries windowSpecs
    checkExprsForSubqueries orderBy
    checkExprsForSubqueries limit
  | .setOpr ctes selects orderBy limit => do
    checkExprsForSubqueries ctes
    visitQueries selects
    checkExprsForSubqueries orderBy
    checkExprsForSubqueries limit
  | .selectList ctes selects orderBy limit => do
    checkExprsForSubqueries ctes
    visitQueries selects
    checkExprsForSubqueries orderBy
    checkExprsForSubqueries limit
termination_by structural q => q

def visitQueries : List Query → Except String Unit
  | [] => .ok ()
  | q :: qs => do
    visitQuery q
    visitQueries qs
termination_by structural qs => qs

def visitTableRef : TableRef → Except String Unit
  | .nil | .tableName _ => .ok ()
  | .tableSource source => visitTableRef source
  | .join left right on => do
    visitTableRef left
    visitTableRef right
    checkExprForSubqueries on
  | .query q => visitQuery q
  | .subquery q => do
    checkSelectStatement q
    visitQuery q
termination_by structural t => t
end

/-- One select of `checkSetOprStatement`; a list is searched one level deep. -/
def checkSetOprSelect : Query → Except String Unit
  | .selectList _ nested _ _ => nested.forM checkSelectStatement
  | q => checkSelectStatement q

def checkSetOprStatement (selects : List Query) : Except String Unit :=
  selects.forM checkSetOprSelect

def checkExplainStatement : Explained → Except String Unit
  | .nothing => .ok ()
  | .query (.select ctes fields tableRefs whereExpr groupBy having windowSpecs orderBy limit
      lockInfo selectIntoOpt) =>
    checkSelectStatement (.select ctes fields tableRefs whereExpr groupBy having windowSpecs
      orderBy limit lockInfo selectIntoOpt)
  | .show _ _ => .ok ()
  | .query _ | .other _ => .error "EXPLAIN only allowed for SELECT statements"

def checkMySQLStatement : Stmt → Except String Unit
  | .query (.setOpr _ selects _ _) => checkSetOprStatement selects
  | .query (.selectList ..) => .error "statement not allowed: *ast.SetOprSelectList"
  | .query q => checkSelectStatement q
  | .show _ _ => .ok ()
  | .explain stmt => checkExplainStatement stmt
  | .begin | .commit | .rollback | .savepoint | .releaseSavepoint => .ok ()
  | .other goType => .error ("statement not allowed: " ++ goType)

/-- The libraries of the check: `SqlSelectPgCatalogRe`, and the TiDB parser. -/
structure Parser where
  selectPgCatalog : List Char → Bool
  parse : List Char → Except String (List Stmt)

def checkQuery (P : Parser) (query : List Char) : Except String Unit :=
  let query := trimSpace query
  if query = [] then .ok ()
  else if P.selectPgCatalog query then
    .error "PostgreSQL catalog queries not supported; use 'SHOW TABLES' or 'SHOW DATABASES'"
  else
    match P.parse query with
    | .error err => .error ("failed to parse SQL: " ++ err)
    | .ok stmts => stmts.forM checkMySQLStatement

/-! ### What the check is for -/

/-- A SELECT with INTO or a lock, or a call of a denied function. -/
def Node.Bad : Node → Prop
  | .expr (.funcCall fnName _) => denied fnName = true
  | .query (.select _ _ _ _ _ _ _ _ _ lockInfo selectIntoOpt) =>
    selectIntoOpt.isSome = true ∨ locking lockInfo = true
  | _ => False

/-- The expressions of a SELECT that are searched for subqueries. -/
def Query.walkedExprs : Query → List Expr
  | .select _ fields _ whereExpr groupBy having _ orderBy _ _ _ =>
    whereExpr :: having :: (orderBy ++ (groupBy ++ fields))
  | _ => []

/-- The queries that a FROM clause selects from, without its join conditions. -/
def TableRef.sources : TableRef → List Query
  | .nil | .tableName _ => []
  | .tableSource source => source.sources
  | .join left right _ => left.sources ++ right.sources
  | .query q | .subquery q => [q]

def Query.walkedSources : Query → List Query
  | .select _ _ tableRefs _ _ _ _ _ _ _ _ => tableRefs.sources
  | _ => []

/-- The queries that the check reaches from a SELECT: a source of its FROM clause, and a
subquery at any depth in one of the searched expressions. -/
inductive Walks (start : Query) : Query → Prop
  | start : Walks start start
  | source {s q : Query} (hs : Walks start s) (hq : q ∈ s.walkedSources) : Walks start q
  | expr {s q : Query} {e : Expr} (hs : Walks start s) (he : e ∈ s.walkedExprs)
      (hq : .expr (.subquery q) ∈ e.nodes) : Walks start q

/-- The queries of a statement that the check starts from. -/
def Stmt.starts : Stmt → List Query
  | .query (.setOpr _ selects _ _) =>
    selects.flatMap fun
      | .selectList _ nested _ _ => nested
      | q => [q]
  | .query (.selectList ..) => []
  | .query q => [q]
  | .explain (.query q) => [q]
  | _ => []

/-- A node that can be bad: a SELECT or a call. -/
def Node.Relevant : Node → Prop
  | .expr (.funcCall _ _) => True
  | .query (.select ..) => True
  | _ => False

def Query.isSelect : Query → Bool
  | .select .. => true
  | _ => false

/-- The node is a query that the check reaches, or an expression below a SELECT that it
reaches. -/
def Stmt.Reaches (stmt : Stmt) : Node → Prop
  | .query q => ∃ start ∈ stmt.starts, Walks start q
  | .expr e => ∃ start ∈ stmt.starts, ∃ q, Walks start q ∧ q.isSelect = true ∧ .expr e ∈ q.nodes

/-- The kinds of statements that are not rejected as such. -/
def Stmt.allowed : Stmt → Bool
  | .query (.selectList ..) | .explain (.other _) | .other _ => false
  | .explain (.query q) => q.isSelect
  | _ => true

/-! ### The check rejects what it reaches -/

/-- The query is no bad SELECT, and if it is a SELECT no call below it is denied. -/
structure Query.Clean (q : Query) : Prop where
  head : ¬ (Node.query q).Bad
  calls : q.isSelect = true → ∀ e, .expr e ∈ q.nodes → ¬ (Node.expr e).Bad

/-- Every query that is reached from it is clean. -/
def Sound (start : Query) : Prop := ∀ q, Walks start q → q.Clean

/-- Every subquery among the nodes is sound. -/
def SoundBelow (ns : List Node) : Prop := ∀ q, .expr (.subquery q) ∈ ns → Sound q

theorem Walks.trans {a b c : Query} (hab : Walks a b) (hbc : Walks b c) : Walks a c := by
  induction hbc with
  | start => exact hab
  | source _ hq ih => exact .source ih hq
  | expr _ he hq ih => exact .expr ih he hq

/-- The first step of a walk. -/
theorem sound_iff {start : Query} : Sound start ↔ start.Clean ∧
    (∀ q ∈ start.walkedSources, Sound q) ∧ ∀ e ∈ start.walkedExprs, SoundBelow e.nodes := by
  constructor
  · intro h
    exact ⟨h _ .start, fun q hq x hx => h x ((Walks.source .start hq).trans hx),
      fun e he q hq x hx => h x ((Walks.expr .start he hq).trans hx)⟩
  · rintro ⟨hstart, hsources, hexprs⟩ x hx
    have hfirst : x = start ∨ (∃ q ∈ start.walkedSources, Walks q x) ∨
        ∃ e ∈ start.walkedExprs, ∃ q, .expr (.subquery q) ∈ e.nodes ∧ Walks q x := by
      induction hx with
      | start => exact .inl rfl
      | source _ hq ih =>
        rcases ih with rfl | ⟨q, hmem, hwalk⟩ | ⟨e, he, q, hmem, hwalk⟩
        · exact .inr (.inl ⟨_, hq, .start⟩)
        · exact .inr (.inl ⟨q, hmem, .source hwalk hq⟩)
        · exact .inr (.inr ⟨e, he, q, hmem, .source hwalk hq⟩)
      | expr _ he' hq ih =>
        rcases ih with rfl | ⟨q, hmem, hwalk⟩ | ⟨e, he, q, hmem, hwalk⟩
        · exact .inr (.inr ⟨_, he', _, hq, .start⟩)
        · exact .inr (.inl ⟨q, hmem, .expr hwalk he' hq⟩)
        · exact .inr (.inr ⟨e, he, q, hmem, .expr hwalk he' hq⟩)
    rcases hfirst with rfl | ⟨q, hmem, hwalk⟩ | ⟨e, he, q, hmem, hwalk⟩
    · exact hstart
    · exact hsources q hmem x hwalk
    · exact hexprs e he q hmem x hwalk

theorem soundBelow_nil : SoundBelow [] := nofun

theorem soundBelow_append {a b : List Node} :
    SoundBelow (a ++ b) ↔ SoundBelow a ∧ SoundBelow b := by
  simp only [SoundBelow, mem_append, or_imp, forall_and]

theorem soundBelow_subquery {q : Query} {ns : List Node} :
    SoundBelow (.expr (.subquery q) :: ns) ↔ Sound q ∧ SoundBelow ns := by
  simp [SoundBelow]

theorem soundBelow_cons {n : Node} {ns : List Node} (hn : ∀ q, n ≠ .expr (.subquery q)) :
    SoundBelow (n :: ns) ↔ SoundBelow ns := by
  refine forall_congr' fun q => ?_
  rw [mem_cons, or_iff_right fun heq => hn q heq.symm]

theorem soundBelow_exprs {es : List Expr} :
    SoundBelow (exprsNodes es) ↔ ∀ e ∈ es, SoundBelow e.nodes := by
  induction es with
  | nil => exact ⟨fun _ => nofun, fun _ => soundBelow_nil⟩
  | cons e es ih => rw [exprsNodes, soundBelow_append, ih, forall_mem_cons]

theorem enterFunction_eq_ok {n : Node} :
    enterFunction n = .ok () ↔ ∀ e, n = .expr e → ¬ n.Bad := by
  cases n with
  | query q => exact ⟨fun _ => nofun, fun _ => rfl⟩
  | expr e =>
    cases e with
    | funcCall fnName args =>
      by_cases hdenied : denied fnName = true <;> simp [enterFunction, Node.Bad, hdenied]
    | _ => exact ⟨fun _ _ _ => id, fun _ => rfl⟩

theorem checkDeniedFunctions_iff {q : Query} :
    checkDeniedFunctions q = .ok () ↔ ∀ e, .expr e ∈ q.nodes → ¬ (Node.expr e).Bad := by
  rw [checkDeniedFunctions, forM_eq_ok]
  constructor
  · exact fun h e he => enterFunction_eq_ok.mp (h _ he) e rfl
  · rintro h n hn
    refine enterFunction_eq_ok.mpr ?_
    rintro e rfl
    exact h e hn

theorem sound_of_not_select {q : Query} (h : q.isSelect = false) : Sound q := by
  rw [sound_iff]
  cases q with
  | select => cases h
  | setOpr | selectList => exact ⟨⟨id, nofun⟩, nofun, nofun⟩

-- one equivalence for each of the functions that call each other
mutual
/-- **A SELECT passes the check exactly if all that it reaches is clean.** -/
theorem checkSelectStatement_iff : ∀ q, checkSelectStatement q = .ok () ↔ Sound q
  | .select ctes fields tableRefs whereExpr groupBy having windowSpecs orderBy limit lockInfo
      selectIntoOpt => by
    have hsources := checkResultSetNode_iff tableRefs
    have hwhere := checkExpr_iff whereExpr
    have hhaving := checkExpr_iff having
    have horder := checkExprs_iff orderBy
    have hgroup := checkExprs_iff groupBy
    have hfields := checkExprs_iff fields
    rw [soundBelow_exprs] at horder hgroup hfields
    have hcalls := checkDeniedFunctions_iff (q := .select ctes fields tableRefs whereExpr groupBy
      having windowSpecs orderBy limit lockInfo selectIntoOpt)
    have hclean : (Query.select ctes fields tableRefs whereExpr groupBy having windowSpecs orderBy
        limit lockInfo selectIntoOpt).Clean ↔ (selectIntoOpt.isSome = false ∧
        locking lockInfo = false) ∧ ∀ e, .expr e ∈ (Query.select ctes fields tableRefs whereExpr
          groupBy having windowSpecs orderBy limit lockInfo selectIntoOpt).nodes →
            ¬ (Node.expr e).Bad := by
      refine ⟨fun h => ⟨?_, h.calls rfl⟩, fun h => ⟨?_, fun _ => h.2⟩⟩
      · simpa [Node.Bad] using h.head
      · simpa [Node.Bad] using h.1
    rw [sound_iff, hclean, ← hcalls, checkSelectStatement]
    simp only [Query.walkedSources, Query.walkedExprs, forall_mem_cons, forall_mem_append]
    rw [← hsources, ← hwhere, ← hhaving, ← horder, ← hgroup, ← hfields]
    by_cases hinto : selectIntoOpt.isSome = true
    · simp [hinto]
    by_cases hlock : locking lockInfo = true
    · simp [hlock, hinto]
    · rw [if_neg hinto, if_neg hlock]
      simp only [seq_eq_ok, Bool.not_eq_true] at hinto hlock ⊢
      simp only [hinto, hlock, and_self, true_and]
  | .setOpr .. => ⟨fun _ => sound_of_not_select rfl, fun _ => rfl⟩
  | .selectList .. => ⟨fun _ => sound_of_not_select rfl, fun _ => rfl⟩
termination_by structural q => q

theorem checkResultSetNode_iff :
    ∀ t, checkResultSetNode t = .ok () ↔ ∀ q ∈ t.sources, Sound q
  | .nil => ⟨fun _ => nofun, fun _ => rfl⟩
  | .tableName _ => ⟨fun _ => nofun, fun _ => rfl⟩
  | .tableSource source => checkResultSetNode_iff source
  | .join left right _ => by
    rw [checkResultSetNode, seq_eq_ok, checkResultSetNode_iff left, checkResultSetNode_iff right,
      TableRef.sources, forall_mem_append]
  | .query q => by
    rw [checkResultSetNode, checkSelectStatement_iff q, TableRef.sources, forall_mem_singleton]
  | .subquery q => by
    rw [checkResultSetNode, checkSelectStatement_iff q, TableRef.sources, forall_mem_singleton]
termination_by structural t => t

theorem checkExpr_iff : ∀ e, checkExprForSubqueries e = .ok () ↔ SoundBelow e.nodes
  | .nil => ⟨fun _ => soundBelow_nil, fun _ => rfl⟩
  | .node operands => by
    rw [checkExprForSubqueries, checkExprs_iff operands, Expr.nodes, soundBelow_cons (by simp)]
  | .funcCall _ args => by
    rw [checkExprForSubqueries, checkExprs_iff args, Expr.nodes, soundBelow_cons (by simp)]
  | .subquery q => by
    rw [checkExprForSubqueries, seq_eq_ok, checkSelectStatement_iff q, visitQuery_iff q,
      Expr.nodes, soundBelow_subquery]
termination_by structural e => e

theorem checkExprs_iff :
    ∀ es, checkExprsForSubqueries es = .ok () ↔ SoundBelow (exprsNodes es)
  | [] => ⟨fun _ => soundBelow_nil, fun _ => rfl⟩
  | e :: es => by
    rw [checkExprsForSubqueries, seq_eq_ok, checkExpr_iff e, checkExprs_iff es, exprsNodes,
      soundBelow_append]
termination_by structural es => es

theorem visitQuery_iff : ∀ q, visitQuery q = .ok () ↔ SoundBelow q.nodes
  | .select ctes fields tableRefs whereExpr groupBy having windowSpecs orderBy limit _ _ => by
    rw [visitQuery, Query.nodes, soundBelow_cons (by simp)]
    simp only [seq_eq_ok, soundBelow_append, checkExprs_iff ctes, checkExprs_iff fields,
      visitTableRef_iff tableRefs, checkExpr_iff whereExpr, checkExprs_iff groupBy,
      checkExpr_iff having, checkExprs_iff windowSpecs, checkExprs_iff orderBy,
      checkExprs_iff limit, and_assoc]
  | .setOpr ctes selects orderBy limit => by
    rw [visitQuery, Query.nodes, soundBelow_cons (by simp)]
    simp only [seq_eq_ok, soundBelow_append, checkExprs_iff ctes, visitQueries_iff selects,
      checkExprs_iff orderBy, checkExprs_iff limit, and_assoc]
  | .selectList ctes selects orderBy limit => by
    rw [visitQuery, Query.nodes, soundBelow_cons (by simp)]
    simp only [seq_eq_ok, soundBelow_append, checkExprs_iff ctes, visitQueries_iff selects,
      checkExprs_iff orderBy, checkExprs_iff limit, and_assoc]
termination_by structural q => q

theorem visitQueries_iff : ∀ qs, visitQueries qs = .ok () ↔ SoundBelow (queriesNodes qs)
  | [] => ⟨fun _ => soundBelow_nil, fun _ => rfl⟩
  | q :: qs => by
    rw [visitQueries, seq_eq_ok, visitQuery_iff q, visitQueries_iff qs, queriesNodes,
      soundBelow_append]
termination_by structural qs => qs

theorem visitTableRef_iff : ∀ t, visitTableRef t = .ok () ↔ SoundBelow t.nodes
  | .nil => ⟨fun _ => soundBelow_nil, fun _ => rfl⟩
  | .tableName _ => ⟨fun _ => soundBelow_nil, fun _ => rfl⟩
  | .tableSource source => visitTableRef_iff source
  | .join left right on => by
    rw [visitTableRef, TableRef.nodes]
    simp only [seq_eq_ok, soundBelow_append, visitTableRef_iff left, visitTableRef_iff right,
      checkExpr_iff on, and_assoc]
  | .query q => visitQuery_iff q
  | .subquery q => by
    rw [visitTableRef, seq_eq_ok, checkSelectStatement_iff q, visitQuery_iff q, TableRef.nodes,
      soundBelow_subquery]
termination_by structural t => t
end

/-- All that a statement reaches is clean. -/
theorem sound_starts_iff {stmt : Stmt} :
    (∀ start ∈ stmt.starts, Sound start) ↔ ∀ n, stmt.Reaches n → ¬ n.Bad := by
  constructor
  · intro h n hn
    cases n with
    | query q =>
      obtain ⟨start, hstart, hwalk⟩ := hn
      exact (h start hstart q hwalk).head
    | expr e =>
      obtain ⟨start, hstart, q, hwalk, hselect, he⟩ := hn
      exact (h start hstart q hwalk).calls hselect e he
  · intro h start hstart q hwalk
    exact ⟨h (.query q) ⟨start, hstart, hwalk⟩,
      fun hselect e he => h (.expr e) ⟨start, hstart, q, hwalk, hselect, he⟩⟩

theorem checkSetOprSelect_iff {q : Query} : checkSetOprSelect q = .ok () ↔
    ∀ start ∈ (match q with
      | .selectList _ nested _ _ => nested
      | q => [q]), Sound start := by
  cases q with
  | selectList ctes nested orderBy limit =>
    rw [checkSetOprSelect, forM_eq_ok]
    exact forall₂_congr fun q _ => checkSelectStatement_iff q
  | select | setOpr => exact (checkSelectStatement_iff _).trans forall_mem_singleton.symm

/-- **A statement passes exactly if its kind is allowed and all that it reaches is clean.** -/
theorem checkMySQLStatement_iff {stmt : Stmt} : checkMySQLStatement stmt = .ok () ↔
    stmt.allowed = true ∧ ∀ n, stmt.Reaches n → ¬ n.Bad := by
  rw [← sound_starts_iff]
  cases stmt with
  | query q =>
    cases q with
    | select => simp [checkMySQLStatement, Stmt.allowed, Stmt.starts, checkSelectStatement_iff]
    | selectList => exact ⟨nofun, nofun⟩
    | setOpr ctes selects orderBy limit =>
      simp only [checkMySQLStatement, checkSetOprStatement, forM_eq_ok, checkSetOprSelect_iff,
        Stmt.starts, Stmt.allowed, mem_flatMap, true_and, forall_exists_index, and_imp]
      exact ⟨fun h start q hq hmem => h q hq start hmem, fun h q hq start hmem => h start q hq hmem⟩
  | explain stmt =>
    cases stmt with
    | query q =>
      cases q with
      | select =>
        simp [checkMySQLStatement, checkExplainStatement, Stmt.allowed, Query.isSelect,
          Stmt.starts, checkSelectStatement_iff]
      | setOpr | selectList => exact ⟨nofun, nofun⟩
    | other => exact ⟨nofun, nofun⟩
    | nothing | «show» => exact ⟨fun _ => ⟨rfl, nofun⟩, fun _ => rfl⟩
  | other => exact ⟨nofun, nofun⟩
  | _ => exact ⟨fun _ => ⟨rfl, nofun⟩, fun _ => rfl⟩

theorem Node.Bad.relevant {n : Node} (h : n.Bad) : n.Relevant := by
  cases n with
  | query q =>
    cases q with
    | select => trivial
    | _ => exact h
  | expr e =>
    cases e with
    | funcCall => trivial
    | _ => exact h

theorem checkQuery_iff {P : Parser} {query : List Char} {stmts : List Stmt}
    (hne : trimSpace query ≠ []) (hparse : P.parse (trimSpace query) = .ok stmts) :
    checkQuery P query = .ok () ↔ P.selectPgCatalog (trimSpace query) = false ∧
      ∀ stmt ∈ stmts, stmt.allowed = true ∧ ∀ n, stmt.Reaches n → ¬ n.Bad := by
  rw [checkQuery, if_neg hne, hparse]
  by_cases hcatalog : P.selectPgCatalog (trimSpace query) = true
  · simp [hcatalog]
  · rw [if_neg hcatalog]
    simp only [forM_eq_ok, checkMySQLStatement_iff, Bool.eq_false_iff.mpr hcatalog, true_and]

/-- The check has a reason to reject the query. -/
def Caught (P : Parser) (query : List Char) (stmts : List Stmt) : Prop :=
  P.selectPgCatalog query = true ∨
    ∃ stmt ∈ stmts, stmt.allowed = false ∨ ∃ n, stmt.Reaches n ∧ n.Bad

/-- `SELECT 1 FROM t` with a WITH clause, a condition, windows and a lock. -/
def selectOne (ctes : List Expr) (tableRefs : TableRef) (whereExpr : Expr)
    (windowSpecs : List Expr) (lockInfo : Option SelectLockType) : Query :=
  .select ctes [.node []] tableRefs whereExpr [] .nil windowSpecs [] [] lockInfo none

/-- `SELECT 1`. -/
def plainSelect : Query := selectOne [] .nil .nil [] none

/-- A parser that reads every query as the given statements. -/
def parserOf (stmts : List Stmt) : Parser := ⟨fun _ => false, fun _ => .ok stmts⟩

/-- `SELECT 1 FROM t WHERE EXISTS (SELECT 1)`. -/
def existsSelect : Query :=
  selectOne [] (.join (.tableSource (.tableName "t")) .nil .nil)
    (.node [.subquery plainSelect]) [] none

/-- `SELECT 1 FOR UPDATE`. -/
def lockingSelect : Query := selectOne [] .nil .nil [] (some .forUpdate)

/-- The locking read in a WITH clause, in a join condition, in a window, in a set operation
that is a derived table, and in a set operation inside of another; and a denied function
in the WHERE of a SHOW and in the ORDER BY of a set operation. -/
def bypasses : List (Stmt × Node) :=
  [(.query (selectOne [.subquery lockingSelect] .nil .nil [] none), .query lockingSelect),
    (.query (selectOne []
      (.join (.tableSource (.tableName "t")) (.tableSource (.tableName "u"))
        (.subquery lockingSelect)) .nil [] none), .query lockingSelect),
    (.query (selectOne [] .nil .nil [.subquery lockingSelect] none), .query lockingSelect),
    (.query (selectOne []
      (.join (.tableSource (.query (.setOpr [] [plainSelect, lockingSelect] [] []))) .nil .nil)
      .nil [] none), .query lockingSelect),
    (.query (.setOpr [] [plainSelect, .selectList [] [plainSelect,
      .selectList [] [lockingSelect] [] []] [] []] [] []), .query lockingSelect),
    (.show .nil (.funcCall ⟨"GET_LOCK", "get_lock"⟩ []),
      .expr (.funcCall ⟨"GET_LOCK", "get_lock"⟩ [])),
    (.query (.setOpr [] [plainSelect, plainSelect] [.funcCall ⟨"GET_LOCK", "get_lock"⟩ []] []),
      .expr (.funcCall ⟨"GET_LOCK", "get_lock"⟩ []))]

end Switchboard.MySQL
