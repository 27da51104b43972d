/-
Events of a change stream (`connectors/mongo/cdc.go`, `resume_token.go`).

A resume token is a key string: bytes that are compared one by one, with the cluster
time of the event in front.  The source reads the time back when the server does not
know a token any more.  Tokens that come later have a later time or the same
(`decodeTimestampFromResumeToken_mono`), so nothing is missed by starting there.

The pipeline lets the events of the mapped collections through, and the puller makes a
record of each insert, update, replace and delete among them (`handleEvent`).  BSON and
the conversion of values are parameters.
-/
import PeerDB.Lib.BigEndian
import PeerDB.Lib.Loop
import PeerDB.Model.Record

namespace Mongo

open Loop

/-! ### Resume tokens -/

/-- The key string that a resume token holds in hexadecimal. -/
abbrev Token := List (Fin 256)

/-- `bson.Timestamp`: seconds, and a counter within the second. -/
structure Timestamp where
  T : ℕ
  I : ℕ
  deriving DecidableEq, Repr

instance : LE Timestamp := ⟨fun a b => a.T < b.T ∨ (a.T = b.T ∧ a.I ≤ b.I)⟩

instance (a b : Timestamp) : Decidable (a ≤ b) :=
  inferInstanceAs (Decidable (a.T < b.T ∨ (a.T = b.T ∧ a.I ≤ b.I)))

/-- The type byte of a timestamp. -/
def kTimestamp : Fin 256 := 130

/-- `decodeTimestampFromKeyString`: a type byte, and eight bytes in big-endian order. -/
def decodeTimestampFromKeyString : List (Fin 256) → Except String Timestamp
  | [] => .error "KeyString data too short for timestamp"
  | typeByte :: bytes =>
    if bytes.length < 8 then .error "KeyString data too short for timestamp"
    else if typeByte ≠ kTimestamp then
      .error s!"invalid type expecting {kTimestamp}, got {typeByte}"
    else
      let timestampValue := BigEndian.value (bytes.take 8)
      .ok ⟨timestampValue / 2 ^ 32, timestampValue % 2 ^ 32⟩

def decodeTimestampFromResumeToken (resumeToken : Token) : Except String Timestamp :=
  if resumeToken = [] then .error "missing _data field"
  else decodeTimestampFromKeyString resumeToken

theorem decodeTimestampFromResumeToken_ok {t : Token} {time : Timestamp}
    (h : decodeTimestampFromResumeToken t = .ok time) :
    ∃ bytes, t = kTimestamp :: bytes ∧ 8 ≤ bytes.length ∧
      time.T = BigEndian.value (bytes.take 8) / 2 ^ 32 ∧
      time.I = BigEndian.value (bytes.take 8) % 2 ^ 32 := by
  rw [decodeTimestampFromResumeToken] at h
  cases t with
  | nil => cases h
  | cons typeByte bytes =>
    rw [if_neg (List.cons_ne_nil _ _), decodeTimestampFromKeyString] at h
    by_cases hlen : bytes.length < 8
    · rw [if_pos hlen] at h
      cases h
    · rw [if_neg hlen] at h
      by_cases htype : typeByte = kTimestamp
      · rw [if_neg (not_not.mpr htype)] at h
        obtain rfl := Except.ok.inj h
        exact ⟨bytes, by rw [htype], not_lt.mp hlen, rfl, rfl⟩
      · rw [if_pos htype] at h
        cases h

theorem decodeTimestampFromResumeToken_mono {s t : Token} {time time' : Timestamp} (h : s ≤ t)
    (hs : decodeTimestampFromResumeToken s = .ok time)
    (ht : decodeTimestampFromResumeToken t = .ok time') : time ≤ time' := by
  obtain ⟨bs, rfl, hbs, hT, hI⟩ := decodeTimestampFromResumeToken_ok hs
  obtain ⟨bs', rfl, hbs', hT', hI'⟩ := decodeTimestampFromResumeToken_ok ht
  have htake := BigEndian.take_mono 9 h
  have hle : bs.take 8 ≤ bs'.take 8 := by
    by_contra hlt
    exact absurd htake (not_le.mpr (List.Lex.cons (not_le.mp hlt)))
  have hlen : (bs.take 8).length = (bs'.take 8).length := by
    rw [List.length_take, List.length_take]
    omega
  have hvalue := BigEndian.value_mono hlen hle
  show time.T < time'.T ∨ (time.T = time'.T ∧ time.I ≤ time'.I)
  rw [hT, hT', hI, hI']
  omega

/-! ### Events -/

/-- `operationType`; the source handles the first four. -/
inductive OperationType where
  | insert
  | update
  | replace
  | delete
  | other (name : String)
  deriving DecidableEq, Repr

structure Namespace where
  db : String
  coll : String
  deriving DecidableEq, Repr

/-- `ChangeEvent`, with the token it comes under.  A document key may be missing, and it may
have no `_id`. -/
structure ChangeEvent (K D : Type) where
  token : Token
  fullDocument : Option D := none
  wallTime : Option ℤ := none
  ns : Namespace
  operationType : OperationType
  documentKey : Option (Option K) := none
  clusterTime : Timestamp
  deriving DecidableEq

/-- What a pull reads of its request and of its connector. -/
structure PullConfig (K D V : Type) where
  tableNameMapping : List (String × NameAndExclude)
  excludedOps : List OperationType := []
  maxBatchSize : ℕ
  internalVersion : ℕ := 2
  qValueStringFromId : K → Except String V
  qValueJSONFromDocument : D → Except String V
  emptyDocument : V

section Events

variable {K D V : Type} (cfg : PullConfig K D V)

/-! ### The pipeline -/

/-- `strings.SplitN(dbAndTable, ".", 2)`, for a name that has a dot. -/
def splitName (dbAndTable : String) : Option Namespace :=
  match dbAndTable.toList.dropWhile (· != '.') with
  | [] => none
  | _ :: table =>
    some ⟨String.ofList (dbAndTable.toList.takeWhile (· != '.')), String.ofList table⟩

/-- The `$match` stages of a pipeline; `none` lets every collection through. -/
structure Pipeline where
  collections : Option (List Namespace)
  excludedOps : List OperationType

def createPipeline (tableNameMapping : Option (List (String × NameAndExclude)))
    (excludedOps : List OperationType) : Except String Pipeline :=
  match tableNameMapping with
  | none => .ok ⟨none, excludedOps⟩
  | some mapping => do
    let collections ← mapping.mapM fun entry =>
      match splitName entry.1 with
      | some ns => Except.ok ns
      | none => .error s!"failed to create pipeline due to invalid table name: {entry.1}"
    .ok ⟨some collections, excludedOps⟩

/-- The events a pipeline lets through. -/
def Pipeline.passes (p : Pipeline) (e : ChangeEvent K D) : Bool :=
  (match p.collections with
    | none => true
    | some collections => decide (e.ns ∈ collections)) &&
  decide (e.operationType ∉ p.excludedOps)

/-! ### Records -/

def sourceTableName (e : ChangeEvent K D) : String := e.ns.db ++ "." ++ e.ns.coll

/-- The destination of an event, empty if there is none. -/
def PullConfig.destinationTableName (e : ChangeEvent K D) : String :=
  ((cfg.tableNameMapping.lookup (sourceTableName e)).getD {}).name

def PullConfig.fullDocumentColumnName : String :=
  if cfg.internalVersion < 2 then "_full_document" else "doc"

def commitTimeNanos (e : ChangeEvent K D) : ℤ :=
  match e.wallTime with
  | some wallTime => wallTime
  | none => e.clusterTime.T * 1000000000

def addRecordItems (documentKey : Option (Option K)) (maybeFullDocument : Option D)
    (tableName : String) : Except String (Items V) :=
  match documentKey with
  | none => .error "document key is nil"
  | some none =>
    .error s!"_id field is missing or null in table {tableName}; _id must be present and non-null"
  | some (some id) =>
    match cfg.qValueStringFromId id with
    | .error err => .error s!"failed to convert key: {err}"
    | .ok key =>
      let items := Items.empty.addColumn "_id" (some key)
      match maybeFullDocument with
      | none => .ok (items.addColumn cfg.fullDocumentColumnName (some cfg.emptyDocument))
      | some document =>
        match cfg.qValueJSONFromDocument document with
        | .error err => .error s!"failed to convert document: {err}"
        | .ok value => .ok (items.addColumn cfg.fullDocumentColumnName (some value))

/-- The record for an event, `none` for one that is passed over. -/
def handleEvent (e : ChangeEvent K D) : Except String (Option (Record V)) :=
  if cfg.destinationTableName e = "" then .ok none
  else
    let base : BaseRecord := { BaseRecord.zero with commitTimeNano := commitTimeNanos e }
    let items := addRecordItems cfg e.documentKey e.fullDocument (sourceTableName e)
    match e.operationType with
    | .other _ => .ok none
    | .insert =>
      match items with
      | .error err => .error s!"failed to process document: {err}"
      | .ok items =>
        .ok (some (.insert base items (sourceTableName e) (cfg.destinationTableName e)))
    | .update | .replace =>
      match items with
      | .error err => .error s!"failed to process document: {err}"
      | .ok items =>
        .ok (some (.update base Items.empty items [] (sourceTableName e)
          (cfg.destinationTableName e)))
    | .delete =>
      match items with
      | .error err => .error s!"failed to process document: {err}"
      | .ok items =>
        .ok (some (.delete base items [] (sourceTableName e) (cfg.destinationTableName e)))

/-- The operations that give a record. -/
def OperationType.handled : OperationType → Bool
  | .other _ => false
  | _ => true

/-- An insert, update, replace or delete of a collection that has a destination. -/
def PullConfig.mirrors (e : ChangeEvent K D) : Bool :=
  decide (cfg.destinationTableName e ≠ "") && e.operationType.handled

/-- The changes a mirror is to replicate. -/
def PullConfig.wanted (e : ChangeEvent K D) : Bool :=
  cfg.mirrors e && decide (e.operationType ∉ cfg.excludedOps)

/-- The events that are passed over are those a mirror has no table or no use for. -/
theorem handleEvent_none_iff {e : ChangeEvent K D} :
    handleEvent cfg e = .ok none ↔ cfg.mirrors e = false := by
  rw [handleEvent, PullConfig.mirrors]
  by_cases hdst : cfg.destinationTableName e = ""
  · simp [hdst]
  · rw [if_neg hdst]
    cases hop : e.operationType with
    | other name => simp [OperationType.handled]
    | _ =>
      simp only [hdst, OperationType.handled, ne_eq, not_false_eq_true, decide_true, Bool.and_true,
        Bool.true_eq_false, iff_false]
      split <;> nofun

theorem splitName_sourceTableName {e : ChangeEvent K D} (h : '.' ∉ e.ns.db.toList) :
    splitName (sourceTableName e) = some e.ns := by
  have hname : (sourceTableName e).toList = e.ns.db.toList ++ '.' :: e.ns.coll.toList := by
    simp [sourceTableName]
  have hkeep : ∀ c ∈ e.ns.db.toList, (c != '.') = true := by
    intro c hc
    rw [bne_iff_ne]
    rintro rfl
    exact h hc
  have hdrop : (sourceTableName e).toList.dropWhile (· != '.') = '.' :: e.ns.coll.toList := by
    rw [hname, List.dropWhile_append_of_pos hkeep]
    rfl
  have htake : (sourceTableName e).toList.takeWhile (· != '.') = e.ns.db.toList := by
    rw [hname, List.takeWhile_append_of_pos hkeep]
    simp
  rw [splitName, hdrop, htake]
  simp

/-- The pipeline lets them through. -/
theorem passes_of_wanted {e : ChangeEvent K D} {p : Pipeline} (hns : '.' ∉ e.ns.db.toList)
    (hp : createPipeline (some cfg.tableNameMapping) cfg.excludedOps = .ok p)
    (h : cfg.wanted e = true) : p.passes e = true := by
  rw [PullConfig.wanted, Bool.and_eq_true, PullConfig.mirrors, Bool.and_eq_true] at h
  obtain ⟨⟨hdst, -⟩, hop⟩ := h
  obtain ⟨collections, hcollections, hp⟩ := bind_eq_ok hp
  cases hp
  -- a collection with a destination is in the mapping, and so among the collections
  have hkey : ∃ entry ∈ cfg.tableNameMapping, entry.1 = sourceTableName e := by
    by_contra hnone
    have hlookup : cfg.tableNameMapping.lookup (sourceTableName e) = none := by
      rw [List.lookup_eq_none_iff]
      intro entry hentry
      rw [bne_iff_ne]
      exact fun heq => hnone ⟨entry, hentry, heq.symm⟩
    rw [PullConfig.destinationTableName, hlookup] at hdst
    simp at hdst
  obtain ⟨entry, hentry, hname⟩ := hkey
  have hmem := mapM_mem_result hcollections entry hentry (b := e.ns) (by
    rw [hname, splitName_sourceTableName hns])
  rw [Pipeline.passes, Bool.and_eq_true]
  exact ⟨decide_eq_true hmem, hop⟩

end Events

end Mongo
