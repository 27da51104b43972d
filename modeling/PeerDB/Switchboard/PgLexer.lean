/-
Statements of a Postgres query string.

The string is read as tokens, the tokens are cut into statements at the semicolons, and a
statement is recognised by its keywords (`parse`).

* `infix_of_lex` — the text of a token is a part of the string;
* `lex_spaced` — two words that follow each other have a space between them;
* `setting_parse` — the tokens that the statements about settings come from.
-/
import PeerDB.Switchboard.PgSession
import PeerDB.Switchboard.Text
import PeerDB.Lib.Hex
import Mathlib.Data.List.Chain
import Mathlib.Data.List.TakeWhile

namespace Switchboard.Postgres

open List

/-! ### Tokens -/

inductive Kind where
  | word | quoted | unicode | string | comment | symbol
  deriving DecidableEq, Repr

/-- A token, with the space before it. -/
structure Token where
  gap : List Char
  kind : Kind
  raw : List Char
  deriving DecidableEq, Repr

def pgSpace (c : Char) : Bool := c == ' ' || (9 ≤ c.toNat && c.toNat ≤ 13)

def identStart (c : Char) : Bool := c.isAlpha || c == '_' || 128 ≤ c.toNat

def identChar (c : Char) : Bool := identStart c || c.isDigit || c == '$'

/-- What is left of a quoted text, with its closing quote, and what follows.  A quote inside
is doubled, or escaped by a backslash. -/
def readQuoted (quote : Char) (backslash : Bool) : List Char → Option (List Char × List Char)
  | [] => none
  | c :: cs =>
    if c = quote then
      match cs with
      | [] => some ([c], [])
      | d :: ds =>
        if d = quote then
          (readQuoted quote backslash ds).map fun (text, rest) => (c :: d :: text, rest)
        else some ([c], d :: ds)
    else if backslash && c == '\\' then
      match cs with
      | [] => none
      | d :: ds =>
        (readQuoted quote backslash ds).map fun (text, rest) => (c :: d :: text, rest)
    else (readQuoted quote backslash cs).map fun (text, rest) => (c :: text, rest)

/-- The rest of a comment, inside `depth` other ones. -/
def readComment : ℕ → List Char → Option (List Char × List Char)
  | _, [] => none
  | depth, c :: cs =>
    match cs with
    | [] => none
    | d :: ds =>
      if c = '*' ∧ d = '/' then
        match depth with
        | 0 => some ([c, d], ds)
        | depth + 1 => (readComment depth ds).map fun (text, rest) => (c :: d :: text, rest)
      else if c = '/' ∧ d = '*' then
        (readComment (depth + 1) ds).map fun (text, rest) => (c :: d :: text, rest)
      else (readComment depth (d :: ds)).map fun (text, rest) => (c :: text, rest)

/-- The text up to the closing tag of a dollar-quoted string. -/
def readUntil (close : List Char) : List Char → Option (List Char × List Char)
  | [] => none
  | c :: cs =>
    if close.isPrefixOf (c :: cs) then some (close, (c :: cs).drop close.length)
    else (readUntil close cs).map fun (text, rest) => (c :: text, rest)

/-- The rest of a token that starts with the given text. -/
def token (kind : Kind) (start : List Char) (rest : Option (List Char × List Char)) :
    Option (Kind × List Char × List Char) :=
  rest.map fun (text, rest) => (kind, start ++ text, rest)

/-- A word, unless it is the letter of a string constant or of a name with escapes. -/
def readWord (word rest : List Char) : Option (Kind × List Char × List Char) :=
  match word.map downcase, rest with
  | ['u'], '&' :: '"' :: cs => token .unicode (word ++ ['&', '"']) (readQuoted '"' false cs)
  | ['u'], '&' :: '\'' :: cs => token .string (word ++ ['&', '\'']) (readQuoted '\'' false cs)
  | ['e'], '\'' :: cs => token .string (word ++ ['\'']) (readQuoted '\'' true cs)
  | ['b'], '\'' :: cs => token .string (word ++ ['\'']) (readQuoted '\'' false cs)
  | ['x'], '\'' :: cs => token .string (word ++ ['\'']) (readQuoted '\'' false cs)
  | ['n'], '\'' :: cs => token .string (word ++ ['\'']) (readQuoted '\'' false cs)
  | _, _ => some (.word, word, rest)

/-- The first token of a text that does not start with a space, and what follows it. -/
def readToken : List Char → Option (Kind × List Char × List Char)
  | [] => none
  | c :: cs =>
    if identStart c then readWord (c :: cs.takeWhile identChar) (cs.dropWhile identChar)
    else if c = '"' then token .quoted [c] (readQuoted '"' false cs)
    else if c = '\'' then token .string [c] (readQuoted '\'' false cs)
    else if c = '-' ∧ cs.head? = some '-' then
      some (.comment, c :: cs.takeWhile (· ≠ '\n'), cs.dropWhile (· ≠ '\n'))
    else if c = '/' ∧ cs.head? = some '*' then
      token .comment [c, '*'] (readComment 0 cs.tail)
    else if c = '$' ∧ (cs.dropWhile identStart).head? = some '$' then
      let tag := c :: (cs.takeWhile identStart ++ ['$'])
      token .string tag (readUntil tag (cs.dropWhile identStart).tail)
    else some (.symbol, [c], cs)

/-- The tokens of a text; none if it ends inside of one.  Each token takes one unit of
fuel and at least one character, so that `lex` has enough of it. -/
def lexN : ℕ → List Char → Option (List Token)
  | 0, _ => none
  | n + 1, cs =>
    match cs.dropWhile pgSpace with
    | [] => some []
    | c :: rest => do
      let (kind, raw, rest) ← readToken (c :: rest)
      let toks ← lexN n rest
      return ⟨cs.takeWhile pgSpace, kind, raw⟩ :: toks

def lex (cs : List Char) : Option (List Token) := lexN (cs.length + 1) cs

/-! ### Statements -/

def Token.isSemicolon (t : Token) : Bool := t.kind == .symbol && t.raw == [';']

/-- The tokens between the semicolons. -/
def groups : List Token → List (List Token)
  | [] => [[]]
  | t :: ts =>
    if t.isSemicolon then [] :: groups ts
    else
      match groups ts with
      | [] => [[t]]
      | g :: gs => (t :: g) :: gs

/-- The text of a statement, without the space before it. -/
def stmtText : List Token → List Char
  | [] => []
  | t :: ts => t.raw ++ ts.flatMap fun u => u.gap ++ u.raw

def Token.is (t : Token) (keyword : String) : Bool :=
  t.kind == .word && t.raw.map downcase == keyword.toList

/-- Doubled quotes in a quoted name. -/
def undouble : List Char → List Char
  | [] => []
  | c :: cs =>
    if c = '"' then
      match cs with
      | [] => [c]
      | d :: ds => if d = '"' then c :: undouble ds else c :: undouble (d :: ds)
    else c :: undouble cs

/-- The escapes `\XXXX` of a name with escapes. -/
def unescape : List Char → List Char
  | '\\' :: a :: b :: c :: d :: rest =>
    match Hex.digitValue a, Hex.digitValue b, Hex.digitValue c, Hex.digitValue d with
    | some a', some b', some c', some d' =>
      Char.ofNat (4096 * a' + 256 * b' + 16 * c' + d') :: unescape rest
    | _, _, _, _ => '\\' :: unescape (a :: b :: c :: d :: rest)
  | c :: cs => c :: unescape cs
  | [] => []

def Token.name (t : Token) : List Char :=
  match t.kind with
  | .word => t.raw.map downcase
  | .quoted => undouble (t.raw.drop 1).dropLast
  | .unicode => unescape (undouble (t.raw.drop 3).dropLast)
  | _ => t.raw

/-- A name that is looked up as a setting: the case does not matter, in quotes neither. -/
def Token.setting (t : Token) : List Char := t.name.map downcase

def accessModes : List Token → List Bool
  | t :: u :: ts =>
    if t.is "read" && u.is "only" then true :: accessModes ts
    else if t.is "read" && u.is "write" then false :: accessModes ts
    else accessModes (u :: ts)
  | _ => []

/-- Without an optional WORK or TRANSACTION. -/
def dropWork : List Token → List Token
  | t :: ts => if t.is "work" || t.is "transaction" then ts else t :: ts
  | [] => []

def isChain : List Token → Bool
  | [t, u] => t.is "and" && u.is "chain"
  | _ => false

/-- The values of a Boolean setting that mean true; a value in quotes counts as well.  Whatever
is not plainly true is taken for off: DEFAULT, 00 and -0 among others. -/
def isTrue : List Token → Bool
  | [t] =>
    let text := (t.raw.filter fun c => c != '\'' && c != '"').map downcase
    ["on", "true", "tru", "tr", "t", "yes", "ye", "y", "1"].any fun s => text == s.toList
  | _ => false

def parseEnd (chained : Bool → Stmt) (ts : List Token) : Stmt :=
  match dropWork ts with
  | t :: u :: ts =>
    if t.is "to" then
      match (if u.is "savepoint" then ts else u :: ts) with
      | name :: _ => .rollbackTo name.name
      | [] => .other
    else chained (isChain (t :: u :: ts))
  | ts => chained (isChain ts)

def parseSetRest (isLocal : Bool) : List Token → Stmt
  | t :: u :: ts =>
    if t.is "transaction" then .setTransaction (accessModes (u :: ts))
    else if t.is "session" && u.is "characteristics" then
      .setCharacteristics isLocal (accessModes ts)
    else if u.raw = ['='] ∨ u.is "to" then .set isLocal t.setting (isTrue ts)
    else .other
  | _ => .other

def parseSet : List Token → Stmt
  | t :: u :: ts =>
    if t.is "local" then parseSetRest true (u :: ts)
    else if t.is "session" && !u.is "characteristics" then parseSetRest false (u :: ts)
    else parseSetRest false (t :: u :: ts)
  | _ => .other

/-- `RESET name` and `RESET ALL`. -/
def parseReset : List Token → Stmt
  | [t] => if t.is "all" then .resetAll else .reset t.setting
  | _ => .other

def parseDiscard : List Token → Stmt
  | [t] => if t.is "all" then .discardAll else .other
  | _ => .other

/-- The first name, for the savepoint statements. -/
def parseName (stmt : List Char → Stmt) : List Token → Stmt
  | t :: _ => stmt t.name
  | [] => .other

def parse : List Token → Stmt
  | [] => .other
  | t :: ts =>
    if t.is "begin" || t.is "start" then .begin (accessModes ts)
    else if t.is "commit" || t.is "end" then .commit (isChain (dropWork ts))
    else if t.is "rollback" || t.is "abort" then parseEnd .rollback ts
    else if t.is "savepoint" then parseName .savepoint ts
    else if t.is "release" then
      parseName .release (match ts with
        | u :: us => if u.is "savepoint" then us else u :: us
        | [] => [])
    else if t.is "set" then parseSet ts
    else if t.is "reset" then parseReset ts
    else if t.is "discard" then parseDiscard ts
    else .other

/-- The statements of the tokens; comments are no part of them, and empty statements are
passed over. -/
def statements (toks : List Token) : List Stmt :=
  (((groups toks).map fun g => g.filter fun t => t.kind ≠ .comment).filter fun g => g ≠ []).map
    parse

/-! ### Tokens are parts of the text -/

variable {a cs rest raw : List Char}

/-- A reader that takes a start of the text and then reads on. -/
theorem map_append {r : Option (List Char × List Char)} {text rest : List Char}
    (hr : ∀ {text rest}, r = some (text, rest) → cs = text ++ rest)
    (h : r.map (fun (text, rest) => (a ++ text, rest)) = some (text, rest)) :
    a ++ cs = text ++ rest := by
  obtain ⟨⟨text', rest'⟩, hread, heq⟩ := Option.map_eq_some_iff.mp h
  cases heq
  rw [hr hread, append_assoc]

theorem readQuoted_append {quote : Char} {backslash : Bool} (cs : List Char) :
    ∀ {text rest}, readQuoted quote backslash cs = some (text, rest) → cs = text ++ rest := by
  fun_induction readQuoted quote backslash cs with
  | case1 => exact nofun
  | case2 =>
    intro text rest h
    cases h
    rfl
  | case3 ds ih =>
    intro text rest h
    exact map_append (a := [_, _]) ih h
  | case4 =>
    intro text rest h
    cases h
    rfl
  | case5 => exact nofun
  | case6 c hc d ds hb ih =>
    intro text rest h
    exact map_append (a := [_, _]) ih h
  | case7 c cs hc hb ih =>
    intro text rest h
    exact map_append (a := [_]) ih h

theorem readComment_append (depth : ℕ) (cs : List Char) :
    ∀ {text rest}, readComment depth cs = some (text, rest) → cs = text ++ rest := by
  fun_induction readComment depth cs with
  | case1 => exact nofun
  | case2 => exact nofun
  | case3 =>
    intro text rest h
    cases h
    rfl
  | case4 c d ds hclose depth ih =>
    intro text rest h
    exact map_append (a := [_, _]) ih h
  | case5 depth c d ds hclose hopen ih =>
    intro text rest h
    exact map_append (a := [_, _]) ih h
  | case6 depth c d ds hclose hopen ih =>
    intro text rest h
    exact map_append (a := [_]) ih h

theorem readUntil_append (close cs : List Char) :
    ∀ {text rest}, readUntil close cs = some (text, rest) → cs = text ++ rest := by
  fun_induction readUntil close cs with
  | case1 => exact nofun
  | case2 c cs hclose =>
    intro text rest h
    cases h
    obtain ⟨rest, hrest⟩ := isPrefixOf_iff_prefix.mp hclose
    rw [← hrest, drop_left]
  | case3 c cs hclose ih =>
    intro text rest h
    exact map_append (a := [_]) ih h

/-- What `readToken` reads: a part at the start of the text that is not empty; and a word
starts with a letter and does not end before the next character that cannot continue it. -/
structure Reads (cs : List Char) (kind : Kind) (raw rest : List Char) : Prop where
  append : cs = raw ++ rest
  nonempty : raw ≠ []
  start : kind = .word → ∃ c, cs.head? = some c ∧ identStart c = true
  stop : kind = .word → ∀ c ∈ rest.head?, identChar c = false

theorem token_reads {kind k : Kind} {r : Option (List Char × List Char)}
    (h : token kind a r = some (k, raw, rest)) (hkind : kind ≠ .word) (hne : a ≠ [])
    (hr : ∀ {text rest}, r = some (text, rest) → cs = text ++ rest) :
    Reads (a ++ cs) k raw rest := by
  obtain ⟨⟨text, rest'⟩, hread, heq⟩ := Option.map_eq_some_iff.mp h
  cases heq
  refine ⟨?_, fun hnil => hne (append_eq_nil_iff.mp hnil).1, fun hk => absurd hk hkind,
    fun hk => absurd hk hkind⟩
  rw [hr hread, append_assoc]

theorem readWord_reads {c : Char} {k : Kind} (hc : identStart c = true)
    (h : readWord (c :: cs.takeWhile identChar) (cs.dropWhile identChar) = some (k, raw, rest)) :
    Reads (c :: cs) k raw rest := by
  have hcs : c :: cs = (c :: cs.takeWhile identChar) ++ cs.dropWhile identChar := by
    rw [cons_append, takeWhile_append_dropWhile]
  have hstop : ∀ c ∈ (cs.dropWhile identChar).head?, identChar c = false := by
    intro c hc
    have hhead := head?_dropWhile_not identChar cs
    rw [hc] at hhead
    exact hhead
  have hne : c :: cs.takeWhile identChar ≠ [] := cons_ne_nil _ _
  have hhead : ∃ x, (c :: cs).head? = some x ∧ identStart x = true := ⟨c, rfl, hc⟩
  rw [hcs] at hhead ⊢
  generalize c :: cs.takeWhile identChar = word at h hne hhead ⊢
  generalize cs.dropWhile identChar = after at h hstop hhead ⊢
  have hconst : ∀ {kind quote backslash} {a cs : List Char},
      token kind (word ++ a) (readQuoted quote backslash cs) = some (k, raw, rest) →
      kind ≠ .word → Reads (word ++ (a ++ cs)) k raw rest := by
    intro kind quote backslash a cs h hkind
    rw [← append_assoc]
    exact token_reads h hkind (append_ne_nil_of_left_ne_nil hne a) (readQuoted_append cs)
  -- the letter of a constant goes on with its quote, and everything else is the word itself
  unfold readWord at h
  split at h
  · exact hconst h nofun
  · exact hconst h nofun
  · exact hconst h nofun
  · exact hconst h nofun
  · exact hconst h nofun
  · exact hconst h nofun
  · cases h
    exact ⟨rfl, hne, fun _ => hhead, fun _ => hstop⟩

theorem readToken_reads {k : Kind} (h : readToken cs = some (k, raw, rest)) :
    Reads cs k raw rest := by
  cases cs with
  | nil => cases h
  | cons c cs =>
    rw [readToken] at h
    split at h
    · rename_i hc
      exact readWord_reads hc h
    split at h
    · exact token_reads h nofun nofun (readQuoted_append cs)
    split at h
    · exact token_reads h nofun nofun (readQuoted_append cs)
    split at h
    · cases h
      refine ⟨?_, cons_ne_nil _ _, nofun, nofun⟩
      rw [cons_append, takeWhile_append_dropWhile]
    split at h
    · rename_i hopen
      obtain ⟨d, ds, rfl⟩ : ∃ d ds, cs = d :: ds := by
        cases cs with
        | nil => cases hopen.2
        | cons d ds => exact ⟨d, ds, rfl⟩
      rw [Option.some.inj hopen.2] at h ⊢
      exact token_reads h nofun nofun (readComment_append 0 ds)
    split at h
    · rename_i hdollar
      have htag : c :: cs = (c :: (cs.takeWhile identStart ++ ['$'])) ++
          (cs.dropWhile identStart).tail := by
        have hcons : '$' :: (cs.dropWhile identStart).tail = cs.dropWhile identStart :=
          cons_head?_tail hdollar.2
        rw [cons_append, append_assoc, singleton_append, hcons,
          takeWhile_append_dropWhile]
      rw [htag]
      exact token_reads h nofun (cons_ne_nil _ _) (readUntil_append _ _)
    · cases h
      exact ⟨rfl, cons_ne_nil _ _, nofun, nofun⟩

variable {toks ts : List Token}

/-- One round of `lexN`. -/
theorem lexN_cons {n : ℕ} {t : Token} (h : lexN n cs = some (t :: toks)) :
    ∃ m rest, lexN m rest = some toks ∧ t.gap = cs.takeWhile pgSpace ∧
      Reads (cs.dropWhile pgSpace) t.kind t.raw rest := by
  cases n with
  | zero => cases h
  | succ n =>
    rw [lexN] at h
    cases hdrop : cs.dropWhile pgSpace with
    | nil =>
      rw [hdrop] at h
      cases h
    | cons c rest =>
      rw [hdrop] at h
      obtain ⟨⟨k, raw, rest'⟩, hread, h⟩ := Option.bind_eq_some_iff.mp h
      obtain ⟨toks', htoks, h⟩ := Option.bind_eq_some_iff.mp h
      cases h
      exact ⟨n, rest', htoks, rfl, readToken_reads hread⟩

/-- Induction over the tokens of a text, from the last one on. -/
theorem lexN_induction {P : List Char → List Token → Prop} (hnil : ∀ cs, P cs [])
    (hcons : ∀ {m : ℕ} {cs rest : List Char} {t : Token} {toks : List Token},
      lexN m rest = some toks → t.gap = cs.takeWhile pgSpace →
      Reads (cs.dropWhile pgSpace) t.kind t.raw rest → P rest toks → P cs (t :: toks)) :
    ∀ {n : ℕ} {cs : List Char}, lexN n cs = some toks → P cs toks := by
  induction toks with
  | nil =>
    intro n cs _
    exact hnil cs
  | cons t toks ih =>
    intro n cs h
    obtain ⟨m, rest, hrest, hgap, hreads⟩ := lexN_cons h
    exact hcons hrest hgap hreads (ih hrest)

/-- The text of a token is a part of the string. -/
theorem infix_of_lex (h : lex cs = some toks) :
    ∀ t ∈ toks, t.raw <:+: cs := by
  refine lexN_induction (P := fun cs toks => ∀ t ∈ toks, t.raw <:+: cs) (fun _ => nofun) ?_ h
  intro m cs rest u toks _ _ hreads ih t ht
  have hcs : cs = cs.takeWhile pgSpace ++ (u.raw ++ rest) := by
    rw [← hreads.append, takeWhile_append_dropWhile]
  rcases mem_cons.mp ht with rfl | ht
  · exact ⟨cs.takeWhile pgSpace, rest, by rw [append_assoc, ← hcs]⟩
  · have hsuffix : rest <:+: cs :=
      ⟨cs.takeWhile pgSpace ++ u.raw, [], by rw [append_nil, append_assoc, ← hcs]⟩
    exact (ih t ht).trans hsuffix

theorem lex_gap (h : lex cs = some toks) :
    ∀ t ∈ toks, ∀ c ∈ t.gap, pgSpace c = true := by
  refine lexN_induction (P := fun _ toks => ∀ t ∈ toks, ∀ c ∈ t.gap, pgSpace c = true)
    (fun _ => nofun) ?_ h
  intro m cs rest u toks _ hgap _ ih
  refine forall_mem_cons.mpr ⟨fun c hc => ?_, ih⟩
  rw [hgap] at hc
  exact mem_takeWhile_imp hc

/-- A space before the second of two words. -/
def Apart (t u : Token) : Prop := t.kind = .word → u.kind = .word → u.gap ≠ []

theorem lex_spaced (h : lex cs = some toks) :
    toks.IsChain Apart := by
  refine lexN_induction (P := fun _ toks => toks.IsChain Apart) (fun _ => .nil) ?_ h
  intro m cs rest t toks hrest _ hreads ih
  cases toks with
  | nil => exact .singleton t
  | cons u toks =>
    refine .cons_cons (fun ht hu hgap => ?_) ih
    -- without a space the second word would have been read as part of the first
    obtain ⟨m', rest', -, hgap', hreads'⟩ := lexN_cons hrest
    obtain ⟨c, hc, hstart⟩ := hreads'.start hu
    have hsame : rest.dropWhile pgSpace = rest := by
      have := takeWhile_append_dropWhile (p := pgSpace) (l := rest)
      rwa [← hgap', hgap, nil_append] at this
    rw [hsame] at hc
    have hstop := hreads.stop ht c hc
    rw [identChar, hstart] at hstop
    cases hstop

/-! ### Statements are parts of the tokens -/

theorem groups_eq_cons (toks : List Token) :
    ∃ g gs, groups toks = g :: gs ∧ g <+: toks ∧ ∀ h ∈ gs, h <:+: toks := by
  induction toks with
  | nil => exact ⟨[], [], rfl, prefix_rfl, nofun⟩
  | cons t ts ih =>
    obtain ⟨g, gs, heq, hg, hgs⟩ := ih
    have htail : ∀ h ∈ gs, h <:+: t :: ts := fun h hh =>
      (hgs h hh).trans (suffix_cons t ts).isInfix
    rw [groups, heq]
    split
    · refine ⟨[], g :: gs, rfl, nil_prefix, forall_mem_cons.mpr ⟨?_, htail⟩⟩
      exact hg.isInfix.trans (suffix_cons t ts).isInfix
    · exact ⟨t :: g, gs, rfl, cons_prefix_cons.mpr ⟨rfl, hg⟩, htail⟩

theorem infix_of_mem_groups {toks g : List Token} (h : g ∈ groups toks) : g <:+: toks := by
  obtain ⟨g', gs, heq, hg', hgs⟩ := groups_eq_cons toks
  rw [heq] at h
  rcases mem_cons.mp h with rfl | h
  · exact hg'.isInfix
  · exact hgs g h

/-- The statements that change settings by name or all at once. -/
def Stmt.isSetting : Stmt → Bool
  | .set _ _ _ | .reset _ | .resetAll | .discardAll => true
  | _ => false

theorem parseEnd_not_setting (ts : List Token) : (parseEnd .rollback ts).isSetting = false := by
  unfold parseEnd
  split
  · split
    · split <;> rfl
    · rfl
  · rfl

theorem parseName_not_setting {stmt : List Char → Stmt} (h : ∀ name, (stmt name).isSetting = false)
    (ts : List Token) : (parseName stmt ts).isSetting = false := by
  cases ts with
  | nil => rfl
  | cons t ts => exact h t.name

/-- A statement about settings starts with SET, RESET or DISCARD. -/
theorem parse_setting (h : (parse toks).isSetting = true) :
    ∃ t ts, toks = t :: ts ∧ (parse toks = parseSet ts ∨
      (t.is "reset" = true ∧ parse toks = parseReset ts) ∨
      (t.is "discard" = true ∧ parse toks = parseDiscard ts)) := by
  cases toks with
  | nil => cases h
  | cons t ts =>
    refine ⟨t, ts, rfl, ?_⟩
    rw [parse.eq_def] at h ⊢
    dsimp only at h ⊢
    split_ifs at h ⊢ with hbegin hcommit hrollback hsavepoint hrelease hset hreset hdiscard
    · cases h
    · cases h
    · rw [parseEnd_not_setting] at h
      cases h
    · rw [parseName_not_setting fun _ => rfl] at h
      cases h
    · rw [parseName_not_setting fun _ => rfl] at h
      cases h
    · exact .inl rfl
    · exact .inr (.inl ⟨hreset, rfl⟩)
    · exact .inr (.inr ⟨hdiscard, rfl⟩)
    · cases h

/-- A SET that is recognised names its variable. -/
theorem parseSetRest_setting {isLocal : Bool} (h : (parseSetRest isLocal ts).isSetting = true) :
    ∃ t ∈ ts, ∃ value, parseSetRest isLocal ts = .set isLocal t.setting value := by
  match ts with
  | [] => cases h
  | [_] => cases h
  | t :: u :: ts =>
    rw [parseSetRest.eq_def] at h ⊢
    dsimp only at h ⊢
    split_ifs at h ⊢ with htransaction hsession hassign
    · cases h
    · cases h
    · exact ⟨t, mem_cons_self, _, rfl⟩
    · cases h

theorem parseSet_setting (h : (parseSet ts).isSetting = true) :
    ∃ t ∈ ts, ∃ isLocal value, parseSet ts = .set isLocal t.setting value := by
  match ts with
  | [] => cases h
  | [_] => cases h
  | t :: u :: ts =>
    rw [parseSet] at h ⊢
    split_ifs at h ⊢ with hlocal hsession
    · obtain ⟨x, hx, value, heq⟩ := parseSetRest_setting h
      exact ⟨x, mem_cons_of_mem t hx, true, value, heq⟩
    · obtain ⟨x, hx, value, heq⟩ := parseSetRest_setting h
      exact ⟨x, mem_cons_of_mem t hx, false, value, heq⟩
    · obtain ⟨x, hx, value, heq⟩ := parseSetRest_setting h
      exact ⟨x, hx, false, value, heq⟩

/-- The four statements about settings, by their tokens. -/
inductive Setting (toks : List Token) : Stmt → Prop
  | set {t : Token} (ht : t ∈ toks) (isLocal value : Bool) :
      Setting toks (.set isLocal t.setting value)
  | reset {t : Token} (ht : t ∈ toks) : Setting toks (.reset t.setting)
  | resetAll {t u : Token} (heq : toks = [t, u]) (ht : t.is "reset" = true)
      (hu : u.is "all" = true) : Setting toks .resetAll
  | discardAll {t u : Token} (heq : toks = [t, u]) (ht : t.is "discard" = true)
      (hu : u.is "all" = true) : Setting toks .discardAll

theorem setting_parse (h : (parse toks).isSetting = true) :
    Setting toks (parse toks) := by
  obtain ⟨t, ts, rfl, hset | ⟨ht, hreset⟩ | ⟨ht, hdiscard⟩⟩ := parse_setting h
  · rw [hset] at h ⊢
    obtain ⟨x, hx, isLocal, value, heq⟩ := parseSet_setting h
    rw [heq]
    exact .set (mem_cons_of_mem t hx) isLocal value
  · rw [hreset] at h ⊢
    match ts with
    | [] => cases h
    | [u] =>
      rw [parseReset]
      split
      · rename_i hall
        exact .resetAll rfl ht hall
      · exact .reset (mem_cons_of_mem t mem_cons_self)
    | _ :: _ :: _ => cases h
  · rw [hdiscard] at h ⊢
    match ts with
    | [] => cases h
    | [u] =>
      rw [parseDiscard] at h ⊢
      split at h
      · rename_i hall
        rw [if_pos hall]
        exact .discardAll rfl ht hall
      · cases h
    | _ :: _ :: _ => cases h

end Switchboard.Postgres
