import QService.LogThreads
import QService.MySQLStatement

/-!
# The log in the database

`CDBLoger::Write` inserts each record into the table of the month, with a statement that is
compiled once and kept. When the month is over the table of the new one is made, and the
statement is compiled again; when an insertion fails, `Check` asks the database something,
and if it does not answer the link is closed and opened again.

`libmysqlclient` and the server are a parameter, and what the results rely on is said where it is
used. By `Inserts` nothing comes into the tables but by an execution of a statement, which adds
the row that it sends or none. So in every run the rows are the records whose execution has added
one, in their order and each once, and each row has the player, the type and the text of its
record and is in the table of the month, if that could be made (`rows_eq`).

But not all records need come there. The link renews itself when it has been lost
(`MYSQL_OPT_RECONNECT`), and a new session does not know the statements of the old one
(`Sessions`). An insertion then fails, `Check` says that all is well, and the statement stays. So
from then on every record of the month is lost (`inserted_iff`).
-/

open MySQLStatement

/-! ## The code -/

/-- `libmysqlclient` and the server behind it: what the calls of it do, which the code makes one
after the other, in a state that has all they depend on. `τ` are the statements it gives out. -/
structure MySQLClient (σ τ : Type*) where
  /-- how the parameters of a statement are read -/
  reads : ParamReads
  /-- `mysql_init`, `mysql_real_connect` and `mysql_select_db` -/
  connect : σ → Bool × σ
  /-- `mysql_close` -/
  close : σ → σ
  /-- `mysql_real_query` and `mysql_store_result` -/
  realQuery : List UInt8 → σ → Bool × σ
  /-- `mysql_stmt_init` and `mysql_stmt_prepare`, with the memory for a `CMySQLStatement` -/
  stmtPrepare : List UInt8 → σ → Option τ × σ
  /-- `mysql_stmt_reset`, `mysql_stmt_bind_param` and `mysql_stmt_execute`, with the values that
  are read for the parameters -/
  stmtExecute : τ → Option (List (FieldType × List UInt8)) → σ → Bool × σ
  /-- `mysql_stmt_close` -/
  stmtClose : τ → σ → σ

/-- `m_pStatement`: the statement of the library, and its parameters. -/
structure InsertStatement (τ : Type*) where
  pStmt : τ
  stmt : MySQLStatement 4

/-- A `CDBLoger`, whether `m_objLinker` is open, and the state of the library and the server. -/
structure DBLoger (σ τ : Type*) where
  strTable : List UInt8
  pStatement : Option (InsertStatement τ)
  objLinker : Bool
  db : σ

/-- A call of `Write` with a message of at least ten bytes: what `getTableNam` and `time` give,
and the memory for the parameters. -/
structure WriteCall where
  pszMsg : List UInt8
  strNewTable : List UInt8
  now : ℤ
  mem : Fin 4 → Allocator

namespace DBLoger

/-- The text of the statement. -/
def insertSql (strTable : List UInt8) : List UInt8 :=
  ascii "insert into " ++ strTable
    ++ ascii "(playerid,logtype, logtime, info) values (?,?,?,?);"

/-- What `createTable` asks for. -/
def createSql (strName : List UInt8) : List UInt8 :=
  ascii "CREATE TABLE IF NOT EXISTS " ++ strName ++ ascii " like log;"

/-- What `Check` asks. -/
def checkSql : List UInt8 := ascii "select id from log limit 1"

variable {σ τ : Type*} (D : MySQLClient σ τ)

/-- `execDML` of `m_objLinker`. `false` stands for an exception, here and below. -/
def query (sql : List UInt8) (L : DBLoger σ τ) : Bool × DBLoger σ τ :=
  if L.objLinker then ((D.realQuery sql L.db).1, { L with db := (D.realQuery sql L.db).2 })
  else (false, L)

/-- `Link`. -/
def link (L : DBLoger σ τ) : DBLoger σ τ :=
  { L with objLinker := (D.connect L.db).1, db := (D.connect L.db).2 }

/-- `close` of `m_objLinker`. -/
def close (L : DBLoger σ τ) : DBLoger σ τ :=
  if L.objLinker then { L with objLinker := false, db := D.close L.db } else L

/-- `finalize` of the statement, if there is one. -/
def finalize (L : DBLoger σ τ) : DBLoger σ τ :=
  match L.pStatement with
  | none => L
  | some P => { L with pStatement := none, db := D.stmtClose P.pStmt L.db }

/-- `createTable`. -/
def createTable (strName : List UInt8) (L : DBLoger σ τ) : Bool × DBLoger σ τ :=
  L.query D (createSql strName)

/-- `Check`. -/
def check (L : DBLoger σ τ) : Bool × DBLoger σ τ := L.query D checkSql

/-- The change of tables in `Write`. -/
def changeTable (c : WriteCall) (L : DBLoger σ τ) : DBLoger σ τ :=
  if c.strNewTable ≠ L.strTable then
    match L.createTable D c.strNewTable with
    | (true, L) => { L.finalize D with strTable := c.strNewTable }
    | (false, L) => L
  else L

/-- `compileStatement`, if there is no statement. -/
def compile (L : DBLoger σ τ) : Option (InsertStatement τ) × DBLoger σ τ :=
  match L.pStatement with
  | some P => (some P, L)
  | none =>
    if L.objLinker then
      match D.stmtPrepare (insertSql L.strTable) L.db with
      | (none, db) => (none, { L with db := db })
      | (some pStmt, db) =>
        let P : InsertStatement τ := ⟨pStmt, .create 4⟩
        (some P, { L with pStatement := some P, db := db })
    else (none, L)

/-- The values of a row. -/
def values (c : WriteCall) : List Value :=
  let (iPlayerID, sType, pszBuffer) := DBCall.write c.pszMsg
  [.int64 iPlayerID, .int sType, .int64 c.now, .blob pszBuffer]

/-- Values are bound to the parameters from one on, up to the first exception. -/
def bindValues {n : ℕ} : ℕ → List (Value × Allocator) → MySQLStatement n → Bool × MySQLStatement n
  | _, [], S => (true, S)
  | k, (v, mem) :: l, S =>
    match v.bind k mem S with
    | (false, S) => (false, S)
    | (true, S) => bindValues (k + 1) l S

/-- The `try` block of `Write`. -/
def insert (c : WriteCall) (L : DBLoger σ τ) : Bool × DBLoger σ τ :=
  match L.compile D with
  | (none, L) => (false, L)
  | (some P, L) =>
    let (ok, stmt) := bindValues 0 ((values c).zip (List.ofFn c.mem)) P.stmt
    let L := { L with pStatement := some { P with stmt := stmt } }
    if ok then
      let r := D.stmtExecute P.pStmt (stmt.execDML D.reads) L.db
      (r.1, { L with db := r.2 })
    else (false, L)

/-- `Write`. -/
def write (L : DBLoger σ τ) (c : WriteCall) : DBLoger σ τ :=
  match (L.changeTable D c).insert D c with
  | (true, L) => L
  | (false, L) =>
    match L.check D with
    | (true, L) => L
    | (false, L) => ((L.finalize D).close D).link D

/-- What the thread of the log does with a loger. `timerCB` calls `Check` every five minutes. -/
inductive Act
  | write (c : WriteCall)
  | check

def step (L : DBLoger σ τ) : Act → DBLoger σ τ
  | .write c => L.write D c
  | .check => (L.check D).2

/-! ## The values of a row -/

theorem bindValues_spec {n : ℕ} {Q : ParamReads} {S : MySQLStatement n} (h : S.Owned) (k : ℕ)
    (l : List (Value × Allocator)) (hk : k + l.length ≤ n) :
    (bindValues k l S).2.Owned
      ∧ ((bindValues k l S).1 = true →
        (∀ i : Fin n, ∀ p : Value × Allocator, k ≤ i → l[(i : ℕ) - k]? = some p →
          (bindValues k l S).2.Right Q i (.value p.1))
        ∧ ∀ (i : Fin n) (b : Bound), (i : ℕ) < k → S.Right Q i b →
          (bindValues k l S).2.Right Q i b) := by
  induction l generalizing k S with
  | nil => exact ⟨h, fun _ => ⟨fun _ _ _ hp => (Option.some_ne_none _ hp.symm).elim,
      fun _ _ _ hS => hS⟩⟩
  | cons p l ih =>
    obtain ⟨v, mem⟩ := p
    rw [List.length_cons] at hk
    let i : Fin n := ⟨k, by omega⟩
    unfold bindValues
    rcases bind_spec (Q := Q) h i v mem with ⟨hbind, -⟩ | ⟨S', hbind, hown, hv, hright⟩
    · rw [show v.bind (k : ℤ) mem S = (false, S.delMem i) from hbind]
      exact ⟨h.delMem i, fun hf => absurd hf Bool.false_ne_true⟩
    · rw [show v.bind (k : ℤ) mem S = (true, S') from hbind]
      obtain ⟨hown', hrest⟩ := ih hown (k + 1) (by omega)
      refine ⟨hown', fun hok => ?_⟩
      obtain ⟨hnew, hold⟩ := hrest hok
      refine ⟨fun j p hj hp => ?_, fun j b hj hb => ?_⟩
      · rcases Nat.eq_or_lt_of_le hj with hkj | hkj
        · rw [← hkj, Nat.sub_self] at hp
          cases Option.some.inj hp
          have hji : j = i := Fin.ext hkj.symm
          rw [hji]
          exact hold i _ (Nat.lt_succ_self k) hv
        · refine hnew j p hkj ?_
          rwa [show (j : ℕ) - k = (j - (k + 1)) + 1 by omega, List.getElem?_cons_succ] at hp
      · have hji : j ≠ i := fun he => Nat.ne_of_lt hj (congrArg Fin.val he)
        exact hold j b (Nat.lt_succ_of_lt hj) (hright j b hji hb)

/-- With memory for them the values are all bound. -/
theorem bindValues_ok {n : ℕ} {S : MySQLStatement n} (h : S.Owned) (k : ℕ)
    {l : List (Value × Allocator)} (hk : k + l.length ≤ n) (hmem : ∀ p ∈ l, ∀ H, p.2.new H ≠ none) :
    (bindValues k l S).1 = true := by
  induction l generalizing k S with
  | nil => rfl
  | cons p l ih =>
    obtain ⟨v, mem⟩ := p
    rw [List.length_cons] at hk
    rw [List.forall_mem_cons] at hmem
    let i : Fin n := ⟨k, by omega⟩
    unfold bindValues
    rcases bind_spec (Q := .documented) h i v mem with ⟨-, hnew⟩ | ⟨S', hbind, hown, -, -⟩
    · exact absurd hnew (hmem.1 _)
    · rw [show v.bind (k : ℤ) mem S = (true, S') from hbind]
      exact ih hown (k + 1) (by omega) hmem.2

/-- Values that are bound to all the parameters are what is sent, whatever the statement has
been used for. -/
theorem execDML_bindValues {n : ℕ} {Q : ParamReads} {S : MySQLStatement n} (h : S.Owned)
    {l : List (Value × Allocator)} (hl : l.length = n) (hok : (bindValues 0 l S).1 = true) :
    (bindValues 0 l S).2.execDML Q = some (l.map fun p => p.1.sent) := by
  obtain ⟨hnew, -⟩ := (bindValues_spec (Q := Q) h 0 l (by omega)).2 hok
  have hparam : (bindValues 0 l S).2.param Q
      = fun i => some (l.get (i.cast hl.symm)).1.sent := by
    funext i
    refine (hnew i (l.get (i.cast hl.symm)) (Nat.zero_le _) ?_).param (by simp)
    rw [Nat.sub_zero]
    exact List.getElem?_eq_getElem (by omega)
  rw [MySQLStatement.execDML, hparam]
  refine List.mapM_pure.trans (congrArg some ?_)
  subst hl
  have hget := congrArg (List.map fun p => p.1.sent) (List.map_get_finRange l)
  rw [List.map_map] at hget
  exact hget

/-- **What a row has in it.** -/
theorem execDML_values {Q : ParamReads} {S : MySQLStatement 4} (h : S.Owned) {c : WriteCall}
    (hok : (bindValues 0 ((values c).zip (List.ofFn c.mem)) S).1 = true) :
    (bindValues 0 ((values c).zip (List.ofFn c.mem)) S).2.execDML Q
      = some ((values c).map Value.sent) := by
  rw [execDML_bindValues h rfl hok]
  rfl

/-! ## Each message -/

/-- A row in the tables of the log: which table, and the values that were sent. -/
abbrev Row := List UInt8 × Option (List (FieldType × List UInt8))

/-- **What the log relies on.** The rows of its tables stay as they are, but for the execution of a
statement: it adds the row that is sent, to the table that the text of the statement has, or it
adds none. -/
structure Inserts (D : MySQLClient σ τ) (text : τ → List UInt8) (rows : σ → List Row) : Prop where
  connect : ∀ s, rows (D.connect s).2 = rows s
  close : ∀ s, rows (D.close s) = rows s
  createTable : ∀ strName s, rows (D.realQuery (createSql strName) s).2 = rows s
  check : ∀ s, rows (D.realQuery checkSql s).2 = rows s
  stmtPrepare : ∀ sql s, rows (D.stmtPrepare sql s).2 = rows s
  text_eq : ∀ sql s pStmt, (D.stmtPrepare sql s).1 = some pStmt → text pStmt = sql
  stmtClose : ∀ pStmt s, rows (D.stmtClose pStmt s) = rows s
  stmtExecute : ∀ pStmt strTable vals s, text pStmt = insertSql strTable →
    rows (D.stmtExecute pStmt vals s).2 = rows s
      ∨ rows (D.stmtExecute pStmt vals s).2 = rows s ++ [(strTable, vals)]

/-- The statement is for the table of the loger, and its parameters have their own memory. -/
def Inv (text : τ → List UInt8) (L : DBLoger σ τ) : Prop :=
  ∀ P, L.pStatement = some P → text P.pStmt = insertSql L.strTable ∧ P.stmt.Owned

/-- The row of a message. -/
def row (strTable : List UInt8) (c : WriteCall) : Row :=
  (strTable, some ((values c).map Value.sent))

/-- A step that inserts nothing and leaves the loger right. -/
structure Quiet (text : τ → List UInt8) (rows : σ → List Row) (L L' : DBLoger σ τ) : Prop where
  inv : L.Inv text → L'.Inv text
  rows_eq : rows L'.db = rows L.db

section Steps

variable {D} {text : τ → List UInt8} {rows : σ → List Row} {L : DBLoger σ τ} {c : WriteCall}

theorem Quiet.trans {L' L'' : DBLoger σ τ} (h : Quiet text rows L L')
    (h' : Quiet text rows L' L'') : Quiet text rows L L'' :=
  ⟨h'.inv ∘ h.inv, h'.rows_eq.trans h.rows_eq⟩

theorem quiet_query {sql : List UInt8} (hsql : ∀ s, rows (D.realQuery sql s).2 = rows s) :
    Quiet text rows L (L.query D sql).2 := by
  unfold query
  split_ifs
  · exact ⟨id, hsql L.db⟩
  · exact ⟨id, rfl⟩

theorem quiet_finalize (hD : Inserts D text rows) : Quiet text rows L (L.finalize D) := by
  unfold finalize
  cases hP : L.pStatement with
  | none => exact ⟨id, rfl⟩
  | some P =>
    exact ⟨fun _ P' hP' => (Option.some_ne_none P' hP'.symm).elim, hD.stmtClose P.pStmt L.db⟩

theorem pStatement_finalize : (L.finalize D).pStatement = none := by
  unfold finalize
  cases hP : L.pStatement with
  | none => exact hP
  | some P => rfl

theorem quiet_close (hD : Inserts D text rows) : Quiet text rows L (L.close D) := by
  unfold close
  split_ifs
  · exact ⟨id, hD.close L.db⟩
  · exact ⟨id, rfl⟩

theorem quiet_link (hD : Inserts D text rows) : Quiet text rows L (L.link D) :=
  ⟨id, hD.connect L.db⟩

theorem quiet_changeTable (hD : Inserts D text rows) :
    Quiet text rows L (L.changeTable D c) := by
  unfold changeTable
  split_ifs with hne
  · have hquery : Quiet text rows L (L.createTable D c.strNewTable).2 :=
      quiet_query (hD.createTable c.strNewTable)
    rcases hcreate : L.createTable D c.strNewTable with ⟨ok, L'⟩
    rw [hcreate] at hquery
    cases ok with
    | true =>
      have hfinal := hquery.trans (quiet_finalize hD)
      refine ⟨fun _ P hP => ?_, hfinal.rows_eq⟩
      exact absurd (pStatement_finalize.symm.trans hP) (Option.some_ne_none P).symm
    | false => exact hquery
  · exact ⟨id, rfl⟩

/-- **The table of a message** is that of the month, if it is the loger's or could be made. -/
theorem strTable_changeTable :
    (L.changeTable D c).strTable
      = if c.strNewTable = L.strTable ∨ (L.createTable D c.strNewTable).1 = true
        then c.strNewTable else L.strTable := by
  have hstay : (L.createTable D c.strNewTable).2.strTable = L.strTable := by
    unfold createTable query
    split_ifs
    · rfl
    · rfl
  unfold changeTable
  by_cases heq : c.strNewTable = L.strTable
  · rw [if_neg (not_not.mpr heq), if_pos (.inl heq), heq]
  · rw [if_pos heq]
    rcases hcreate : L.createTable D c.strNewTable with ⟨ok, L'⟩
    rw [hcreate] at hstay
    cases ok with
    | true => rw [if_pos (.inr rfl)]
    | false => rw [if_neg (not_or.mpr ⟨heq, Bool.false_ne_true⟩), ← hstay]

theorem quiet_compile (hD : Inserts D text rows) : Quiet text rows L (L.compile D).2 := by
  unfold compile
  cases hP : L.pStatement with
  | some P => exact ⟨id, rfl⟩
  | none =>
    dsimp only
    split_ifs
    · have hrows := hD.stmtPrepare (insertSql L.strTable) L.db
      have htext := hD.text_eq (insertSql L.strTable) L.db
      rcases hprep : D.stmtPrepare (insertSql L.strTable) L.db with ⟨pStmt?, db⟩
      rw [hprep] at hrows htext
      cases pStmt? with
      | none => exact ⟨fun _ P hP' => (Option.some_ne_none P hP'.symm).elim, hrows⟩
      | some pStmt =>
        refine ⟨fun _ P hP' => ?_, hrows⟩
        obtain rfl := Option.some.inj hP'
        exact ⟨htext pStmt rfl, (Tracked.inv_create (Q := D.reads) 4).owned⟩
    · exact ⟨id, rfl⟩

theorem compile_some {P : InsertStatement τ} (h : (L.compile D).1 = some P) :
    (L.compile D).2.pStatement = some P ∧ (L.compile D).2.strTable = L.strTable := by
  unfold compile at h ⊢
  cases hP : L.pStatement with
  | some P' =>
    rw [hP] at h
    exact ⟨hP.trans h, rfl⟩
  | none =>
    rw [hP] at h
    dsimp only at h ⊢
    split_ifs at h ⊢
    · rcases hprep : D.stmtPrepare (insertSql L.strTable) L.db with ⟨pStmt?, db⟩
      rw [hprep] at h
      cases pStmt? with
      | none => cases h
      | some pStmt => exact ⟨h, rfl⟩

/-- What `insert` does once there is a statement: with the values in place it is executed. -/
theorem insert_eq {L' : DBLoger σ τ} {P : InsertStatement τ}
    (hcompile : L.compile D = (some P, L')) (hown : P.stmt.Owned) :
    ∃ stmt : MySQLStatement 4, stmt.Owned
      ∧ (L.insert D c = (false, { L' with pStatement := some { P with stmt := stmt } })
          ∧ (¬ ∀ i H, (c.mem i).new H ≠ none)
        ∨ L.insert D c
          = ((D.stmtExecute P.pStmt (some ((values c).map Value.sent)) L'.db).1,
              { L' with
                pStatement := some { P with stmt := stmt }
                db := (D.stmtExecute P.pStmt (some ((values c).map Value.sent)) L'.db).2 })) := by
  have hvalues := execDML_values (Q := D.reads) hown (c := c)
  have hown' := (bindValues_spec (Q := D.reads) hown 0 ((values c).zip (List.ofFn c.mem))
    le_rfl).1
  have hmem : (∀ i H, (c.mem i).new H ≠ none) →
      (bindValues 0 ((values c).zip (List.ofFn c.mem)) P.stmt).1 = true := by
    refine fun hmem => bindValues_ok hown 0 le_rfl fun p hp H => ?_
    obtain ⟨i, hi⟩ := List.mem_ofFn.mp (List.of_mem_zip hp).2
    rw [← hi]
    exact hmem i H
  unfold insert
  rw [hcompile]
  dsimp only
  rcases hbind : bindValues 0 ((values c).zip (List.ofFn c.mem)) P.stmt with ⟨ok, stmt⟩
  rw [hbind] at hvalues hown' hmem
  refine ⟨stmt, hown', ?_⟩
  cases ok with
  | true =>
    right
    dsimp only
    rw [if_pos rfl, hvalues rfl]
  | false => exact .inl ⟨rfl, fun h => Bool.false_ne_true (hmem h)⟩

/-- **What `insert` does**: nothing is added, or the row of the message. -/
theorem insert_spec (hD : Inserts D text rows) (h : L.Inv text) :
    (L.insert D c).2.Inv text
      ∧ (rows (L.insert D c).2.db = rows L.db
        ∨ rows (L.insert D c).2.db = rows L.db ++ [row L.strTable c]) := by
  have hquiet := quiet_compile (L := L) hD
  have hsome := fun P => compile_some (D := D) (L := L) (P := P)
  rcases hcompile : L.compile D with ⟨P?, L'⟩
  rw [hcompile] at hquiet hsome
  have hinv := hquiet.inv h
  cases P? with
  | none =>
    rw [insert, hcompile]
    exact ⟨hinv, .inl hquiet.rows_eq⟩
  | some P =>
    obtain ⟨hP, htable⟩ := hsome P rfl
    obtain ⟨htext, hown⟩ := hinv P hP
    obtain ⟨stmt, hown', ⟨hinsert, -⟩ | hinsert⟩ := insert_eq (c := c) hcompile hown
    · rw [hinsert]
      refine ⟨fun P' hP' => ?_, .inl hquiet.rows_eq⟩
      obtain rfl := Option.some.inj hP'
      exact ⟨htext, hown'⟩
    · rw [hinsert]
      refine ⟨fun P' hP' => ?_, ?_⟩
      · obtain rfl := Option.some.inj hP'
        exact ⟨htext, hown'⟩
      · have hexec := hD.stmtExecute P.pStmt L'.strTable (some ((values c).map Value.sent)) L'.db
          htext
        rwa [hquiet.rows_eq, htable] at hexec

/-- `Check` and the link that is opened again insert nothing. -/
theorem quiet_write (hD : Inserts D text rows) :
    Quiet text rows ((L.changeTable D c).insert D c).2 (L.write D c) := by
  unfold write
  rcases hinsert : (L.changeTable D c).insert D c with ⟨ok, L'⟩
  cases ok with
  | true => exact ⟨id, rfl⟩
  | false =>
    have hcheck : Quiet text rows L' (L'.check D).2 := quiet_query hD.check
    dsimp only
    rcases hquery : L'.check D with ⟨ok, L''⟩
    rw [hquery] at hcheck
    cases ok with
    | true => exact hcheck
    | false =>
      exact hcheck.trans ((quiet_finalize hD).trans ((quiet_close hD).trans (quiet_link hD)))

/-- **What a message does**: nothing is added, or its row. -/
theorem write_spec (hD : Inserts D text rows) (h : L.Inv text) :
    (L.write D c).Inv text
      ∧ (rows (L.write D c).db = rows L.db
        ∨ rows (L.write D c).db = rows L.db ++ [row (L.changeTable D c).strTable c]) := by
  have hchange := quiet_changeTable (L := L) (c := c) hD
  obtain ⟨hinv, hrows⟩ := insert_spec (c := c) hD (hchange.inv h)
  have hquiet := quiet_write (L := L) (c := c) hD
  rw [hchange.rows_eq, ← hquiet.rows_eq] at hrows
  exact ⟨hquiet.inv hinv, hrows⟩

end Steps

/-! ## Runs -/

/-- The calls of `Write` in a run, each with the loger that it finds. -/
def writes : DBLoger σ τ → List Act → List (DBLoger σ τ × WriteCall)
  | _, [] => []
  | L, .write c :: acts => (L, c) :: writes (L.write D c) acts
  | L, .check :: acts => writes (L.check D).2 acts

/-- The call adds a row. -/
def Added (rows : σ → List Row) (p : DBLoger σ τ × WriteCall) : Prop :=
  rows (p.1.write D p.2).db ≠ rows p.1.db

instance (rows : σ → List Row) (p : DBLoger σ τ × WriteCall) : Decidable (Added D rows p) :=
  inferInstanceAs (Decidable (_ ≠ _))

section Runs

variable {D} {text : τ → List UInt8} {rows : σ → List Row} {L : DBLoger σ τ} {c : WriteCall}

theorem inv_step (hD : Inserts D text rows) (h : L.Inv text) (a : Act) :
    (L.step D a).Inv text := by
  cases a with
  | write c => exact (write_spec hD h).1
  | check =>
    have hquiet : Quiet text rows L (L.check D).2 := quiet_query hD.check
    exact hquiet.inv h

/-- The rows are those of the messages that have added one, in their order and each once. -/
theorem rows_of_run (hD : Inserts D text rows) (h : L.Inv text) (acts : List Act) :
    rows (acts.foldl (step D) L).db
      = rows L.db ++ ((writes D L acts).filter (Added D rows)).map
          fun p => row (p.1.changeTable D p.2).strTable p.2 := by
  induction acts generalizing L with
  | nil => exact (List.append_nil _).symm
  | cons a acts ih =>
    rw [List.foldl_cons, ih (inv_step hD h a)]
    cases a with
    | check =>
      have hquiet : Quiet text rows L (L.check D).2 := quiet_query hD.check
      exact congrArg (· ++ _) hquiet.rows_eq
    | write c =>
      show rows (L.write D c).db ++ _ = _
      rw [writes, List.filter_cons]
      by_cases hadd : Added D rows (L, c)
      · rw [if_pos (decide_eq_true hadd), List.map_cons, (write_spec hD h).2.resolve_left hadd,
          List.append_assoc, List.singleton_append]
        rfl
      · rw [if_neg fun hd => hadd (of_decide_eq_true hd), not_not.mp hadd]
        rfl

/-- What the row of a record has in it: the player, the type, the time and the text. -/
def record (d : DBCall) (c : WriteCall) : List (FieldType × List UInt8) :=
  [Value.int64 d.iPlayerID, .int d.sType, .int64 c.now, .blob d.info].map Value.sent

theorem row_body {d : DBCall} (h : c.pszMsg = d.body) (strTable : List UInt8) :
    row strTable c = (strTable, some (record d c)) := by
  rw [row, values, h, DBCall.write_body]
  rfl

theorem map_row_zip {calls : List DBCall} {sent : List (DBLoger σ τ × WriteCall)}
    (hbody : sent.map (fun p => p.2.pszMsg) = calls.map DBCall.body) :
    (sent.filter (Added D rows)).map (fun p => row (p.1.changeTable D p.2).strTable p.2)
      = ((calls.zip sent).filter fun p => Added D rows p.2).map
          fun p => ((p.2.1.changeTable D p.2.2).strTable, some (record p.1 p.2.2)) := by
  induction calls generalizing sent with
  | nil =>
    obtain rfl := List.map_eq_nil_iff.mp hbody
    rfl
  | cons d calls ih =>
    cases sent with
    | nil => cases hbody
    | cons p sent =>
      obtain ⟨hp, htail⟩ := List.cons.inj hbody
      rw [List.zip_cons_cons, List.filter_cons, List.filter_cons]
      by_cases hadd : Added D rows p
      · rw [if_pos (decide_eq_true hadd), if_pos (decide_eq_true hadd), List.map_cons,
          List.map_cons, ih htail, row_body hp]
      · rw [if_neg fun hd => hadd (of_decide_eq_true hd),
          if_neg fun hd => hadd (of_decide_eq_true hd), ih htail]

/-- **What is in the tables is what was logged.** When the frames of any records have come in any
chunks, and `Write` is called with each message that is found, among calls of `Check`, then
the rows are those of the records that have added one, in their order and each once. Each has
what its record has, and it is in the table of the month, if that is the one before or could be
made. -/
theorem rows_eq (hD : Inserts D text rows) {w : Width} {stray : List UInt8} {calls : List DBCall}
    {todo chunks : List (List UInt8)} {rest : List UInt8}
    (hlen : ∀ m ∈ calls.map DBCall.body ++ todo, (TcpParser.frame w m).length < 2 ^ 32)
    (hrest : (TcpParser.code w).Partial todo rest)
    (hbytes : chunks.flatten = (TcpParser.code w).encAll (calls.map DBCall.body) ++ rest)
    (h : L.Inv text) {acts : List Act}
    (hacts : (writes D L acts).map (fun p => p.2.pszMsg)
      = (LogReader.receive w stray chunks).written) :
    rows (acts.foldl (step D) L).db
      = rows L.db ++ ((calls.zip (writes D L acts)).filter fun p => Added D rows p.2).map
          fun p => (if p.2.2.strNewTable = p.2.1.strTable
              ∨ (p.2.1.createTable D p.2.2.strNewTable).1 = true
            then p.2.2.strNewTable else p.2.1.strTable, some (record p.1 p.2.2)) := by
  rw [LogReader.receive_eq hlen hrest hbytes] at hacts
  rw [rows_of_run hD h]
  rw [map_row_zip hacts]
  simp only [strTable_changeTable]

end Runs

/-! ## A server -/

/-- A server that runs what it is asked for: the rows of the log, the session, and at which of the
next calls the link turns out to be lost. -/
structure Server where
  rows : List Row
  session : ℕ
  lost : List Bool

namespace Server

/-- The link is renewed if it is lost. -/
def renew (s : Server) : Server :=
  ⟨s.rows, if s.lost.headD false then s.session + 1 else s.session, s.lost.tail⟩

/-- The table that a text inserts into. -/
def tableOf (sql : List UInt8) : List UInt8 :=
  (sql.drop 12).take (sql.length - (insertSql []).length)

/-- It has its link renewed by a query, which then succeeds, and by an execution, which fails. A
statement is known by its session and its text. -/
def client : MySQLClient Server (ℕ × List UInt8) where
  reads := .documented
  connect s := (true, { s with session := s.session + 1 })
  close s := s
  realQuery _ s := (true, s.renew)
  stmtPrepare sql s := (some (s.session, sql), s)
  stmtExecute pStmt vals s :=
    if pStmt.1 = s.session ∧ s.lost.headD false = false then
      (true, { s.renew with rows := s.rows ++ [(tableOf pStmt.2, vals)] })
    else (false, s.renew)
  stmtClose _ s := s

theorem tableOf_insertSql (strTable : List UInt8) : tableOf (insertSql strTable) = strTable := by
  have hlen : (insertSql strTable).length - (insertSql []).length = strTable.length := by
    simp only [insertSql, List.length_append, List.length_nil]
    omega
  have hdrop : (insertSql strTable).drop 12
      = strTable ++ ascii "(playerid,logtype, logtime, info) values (?,?,?,?);" := by
    rw [insertSql, List.append_assoc]
    exact List.drop_left' (by decide)
  rw [tableOf, hlen, hdrop, List.take_left]

theorem inserts_client : Inserts client Prod.snd Server.rows where
  connect _ := rfl
  close _ := rfl
  createTable _ _ := rfl
  check _ := rfl
  stmtPrepare _ _ := rfl
  text_eq _ _ _ h := congrArg Prod.snd (Option.some.inj h).symm
  stmtClose _ _ := rfl
  stmtExecute pStmt strTable vals s htext := by
    dsimp only [client]
    split_ifs
    · exact .inr (by rw [← tableOf_insertSql strTable, ← htext])
    · exact .inl rfl

end Server

/-- A loger that was just opened. -/
def opened (lost : List Bool) : DBLoger Server (ℕ × List UInt8) :=
  ⟨ascii "log_2016_3", none, true, ⟨[], 0, lost⟩⟩

/-- A call of `writeDBLog`. -/
def playerCall (pszPlayerID : List UInt8) (sType : ℤ) (hType : CInt.short.Fits sType)
    (msg : List UInt8) : DBCall where
  sock := some 5
  pszPlayerID := pszPlayerID
  sType := sType
  pszMsg := some msg
  iLens := msg.length
  fits_sType := hType
  length_pszMsg _ hp := congrArg List.length (Option.some.inj hp).symm

/-- Its message on its way to the table. -/
def playerWrite (d : DBCall) (strNewTable : List UInt8) (now : ℤ) : WriteCall :=
  ⟨d.body, strNewTable, now, fun _ => .first⟩

/-- Three records of one month, the second with a longer text, and one of the next. -/
def playerCalls : List DBCall :=
  [playerCall (ascii "77") 3 (by decide) (ascii "x"),
    playerCall (ascii "-5") (-1) (by decide) (ascii "hello"),
    playerCall (ascii "77") 4 (by decide) (ascii "?"),
    playerCall (ascii "12") 5 (by decide) []]

/-- What becomes of them. `Check` is called before the third. -/
def playerActs : List Act :=
  let sent := List.zipWith (fun d p => Act.write (playerWrite d p.1 p.2)) playerCalls
    [(ascii "log_2016_3", 1457000000), (ascii "log_2016_3", 1457000001),
      (ascii "log_2016_3", 1457000301), (ascii "log_2016_4", 1459500000)]
  sent.take 2 ++ .check :: sent.drop 2

/-- The stream of the frames. -/
def playerStream : List UInt8 := (TcpParser.code .bits64).encAll (playerCalls.map DBCall.body)

/-- The records come in two chunks, and the link turns out to be lost at the `Check`. The first two
are inserted with one statement, the third is not, and the last one with a new statement. -/
theorem rows_eq_playerCalls :
    (playerActs.foldl (step Server.client) (opened [false, false, true])).db.rows
      = [(ascii "log_2016_3", some [(.longlong, [77, 0, 0, 0, 0, 0, 0, 0]), (.long, [3, 0, 0, 0]),
        (.longlong, [64, 14, 216, 86, 0, 0, 0, 0]), (.blob, ascii "x")]),
        (ascii "log_2016_3", some [(.longlong, [251, 255, 255, 255, 255, 255, 255, 255]),
          (.long, [255, 255, 255, 255]),
        (.longlong, [65, 14, 216, 86, 0, 0, 0, 0]), (.blob, ascii "hello")]),
        (ascii "log_2016_4", some [(.longlong, [12, 0, 0, 0, 0, 0, 0, 0]), (.long, [5, 0, 0, 0]),
        (.longlong, [224, 51, 254, 86, 0, 0, 0, 0]), (.blob, [])])] :=
  (@rows_eq _ _ Server.client Prod.snd Server.rows (opened [false, false, true])
    Server.inserts_client .bits64 [] playerCalls [] [playerStream.take 3, playerStream.drop 3] []
    (by decide) rfl (by decide +kernel) (fun _ h => (Option.some_ne_none _ h.symm).elim) playerActs
    (by decide +kernel)).trans (by decide +kernel)

/-! ## Which messages are lost -/

/-- **Sessions.** A statement is one of the session it was prepared in, its `home`. When the library
renews a lost link, in whatever call, there is a new session, and an execution of a statement
of an old one adds nothing. In its own session it adds its row if the server `runs` it. -/
structure Sessions (D : MySQLClient σ τ) (text : τ → List UInt8) (rows : σ → List Row)
    (session : σ → ℕ) (home : τ → ℕ) (runs : Row → σ → Prop) : Prop where
  realQuery : ∀ sql s, session s ≤ session (D.realQuery sql s).2
  stmtExecute : ∀ pStmt vals s, session s ≤ session (D.stmtExecute pStmt vals s).2
  home_eq : ∀ sql s pStmt, (D.stmtPrepare sql s).1 = some pStmt →
    home pStmt = session (D.stmtPrepare sql s).2
  stale : ∀ pStmt vals s, home pStmt ≠ session s → rows (D.stmtExecute pStmt vals s).2 = rows s
  known : ∀ pStmt strTable vals s, text pStmt = insertSql strTable → home pStmt = session s →
    (rows (D.stmtExecute pStmt vals s).2 = rows s ++ [(strTable, vals)]
      ↔ runs (strTable, vals) s)

/-- The server answers what it is asked, and prepares what it is given. -/
structure Answers (D : MySQLClient σ τ) : Prop where
  realQuery : ∀ sql s, (D.realQuery sql s).1 = true
  stmtPrepare : ∀ sql s, (D.stmtPrepare sql s).1 ≠ none

/-- The message is one of the month, and there is memory for its values. -/
def InMonth (strTable : List UInt8) (c : WriteCall) : Prop :=
  c.strNewTable = strTable ∧ ∀ i H, (c.mem i).new H ≠ none

/-- The loger has its link and keeps the statement. -/
structure Keeps (text : τ → List UInt8) (strTable : List UInt8) (pStmt : τ) (L : DBLoger σ τ) :
    Prop where
  inv : L.Inv text
  strTable_eq : L.strTable = strTable
  objLinker_eq : L.objLinker = true
  pStatement_eq : ∃ stmt, L.pStatement = some ⟨pStmt, stmt⟩

section Sessions

variable {D} {text : τ → List UInt8} {rows : σ → List Row} {session : σ → ℕ} {home : τ → ℕ}
  {runs : Row → σ → Prop} {L : DBLoger σ τ} {c c₁ : WriteCall} {strTable : List UInt8} {pStmt : τ}
  {acts : List Act}

theorem check_eq (hA : Answers D) (hopen : L.objLinker = true) :
    L.check D = (true, { L with db := (D.realQuery checkSql L.db).2 }) := by
  rw [check, query, if_pos hopen, hA.realQuery]

/-- A message of the month, when there is a statement for it: the statement is executed and
stays, and `Check` is called if that has failed. -/
theorem write_of_compiled (hD : Inserts D text rows)
    (hS : Sessions D text rows session home runs) (hA : Answers D) (hc : InMonth L.strTable c)
    {L₁ : DBLoger σ τ} {stmt : MySQLStatement 4}
    (hcompile : L.compile D = (some ⟨pStmt, stmt⟩, L₁)) (hinv : L₁.Inv text)
    (hopen : L₁.objLinker = true) :
    Keeps text L.strTable pStmt (L.write D c) ∧ session L₁.db ≤ session (L.write D c).db
      ∧ rows (L.write D c).db
        = rows (D.stmtExecute pStmt (some ((values c).map Value.sent)) L₁.db).2 := by
  have hsome := compile_some (D := D) (L := L) (P := ⟨pStmt, stmt⟩) (by rw [hcompile])
  rw [hcompile] at hsome
  obtain ⟨hP, htable⟩ := hsome
  obtain ⟨htext, hown⟩ := hinv _ hP
  have hchange : L.changeTable D c = L := if_neg (not_not.mpr hc.1)
  obtain ⟨stmt', hown', ⟨-, hno⟩ | hinsert⟩ := insert_eq (c := c) hcompile hown
  · exact absurd hc.2 hno
  have hexec := hS.stmtExecute pStmt (some ((values c).map Value.sent)) L₁.db
  dsimp only at hinsert
  generalize D.stmtExecute pStmt (some ((values c).map Value.sent)) L₁.db = r at hinsert hexec ⊢
  have hkeeps (db : σ) : Keeps text L.strTable pStmt
      { L₁ with pStatement := some ⟨pStmt, stmt'⟩, db := db } := by
    refine ⟨fun P hP' => ?_, htable, hopen, stmt', rfl⟩
    obtain rfl := Option.some.inj hP'
    exact ⟨htext, hown'⟩
  rw [write, hchange, hinsert]
  obtain ⟨ok, s⟩ := r
  cases ok with
  | true => exact ⟨hkeeps s, hexec, rfl⟩
  | false =>
    have hcheck := check_eq hA
      (L := { L₁ with pStatement := some ⟨pStmt, stmt'⟩, db := s }) hopen
    dsimp only
    rw [hcheck]
    exact ⟨hkeeps _, hexec.trans (hS.realQuery checkSql s), hD.check s⟩

/-- The statement that is kept is the one that a message is executed with. -/
theorem Keeps.compile (h : Keeps text strTable pStmt L) :
    ∃ stmt, L.compile D = (some ⟨pStmt, stmt⟩, L) := by
  obtain ⟨stmt, hP⟩ := h.pStatement_eq
  refine ⟨stmt, ?_⟩
  rw [DBLoger.compile, hP]

theorem Keeps.step (hD : Inserts D text rows) (hS : Sessions D text rows session home runs)
    (hA : Answers D) (h : Keeps text strTable pStmt L) {a : Act}
    (ha : ∀ c, a = .write c → InMonth strTable c) :
    Keeps text strTable pStmt (L.step D a) ∧ session L.db ≤ session (L.step D a).db := by
  cases a with
  | check =>
    show Keeps _ _ _ (L.check D).2 ∧ session L.db ≤ session (L.check D).2.db
    rw [check_eq hA h.objLinker_eq]
    exact ⟨⟨h.inv, h.strTable_eq, h.objLinker_eq, h.pStatement_eq⟩, hS.realQuery checkSql L.db⟩
  | write c =>
    obtain ⟨stmt, hcompile⟩ := h.compile (D := D)
    have hwrite := write_of_compiled (c := c) hD hS hA (h.strTable_eq ▸ ha c rfl) hcompile h.inv
      h.objLinker_eq
    rw [h.strTable_eq] at hwrite
    exact ⟨hwrite.1, hwrite.2.1⟩

/-- **A month long the statement is kept**, and no session comes back. -/
theorem Keeps.run (hD : Inserts D text rows) (hS : Sessions D text rows session home runs)
    (hA : Answers D) (h : Keeps text strTable pStmt L)
    (hacts : ∀ c, Act.write c ∈ acts → InMonth strTable c) :
    Keeps text strTable pStmt (acts.foldl (DBLoger.step D) L)
      ∧ session L.db ≤ session (acts.foldl (DBLoger.step D) L).db := by
  induction acts generalizing L with
  | nil => exact ⟨h, le_rfl⟩
  | cons a acts ih =>
    obtain ⟨hkeeps, hle⟩ := h.step hD hS hA fun c hc => hacts c (hc ▸ List.mem_cons_self)
    obtain ⟨hrun, hle'⟩ := ih hkeeps fun c hc => hacts c (List.mem_cons_of_mem _ hc)
    exact ⟨hrun, hle.trans hle'⟩

/-- A message adds its row if the statement is one of the session, and the server runs it. -/
theorem Keeps.write_iff (hD : Inserts D text rows) (hS : Sessions D text rows session home runs)
    (hA : Answers D) (h : Keeps text strTable pStmt L) (hc : InMonth strTable c) :
    (rows (L.write D c).db = rows L.db ++ [row strTable c]
        ↔ home pStmt = session L.db ∧ runs (row strTable c) L.db)
      ∧ (rows (L.write D c).db = rows L.db
        ↔ ¬ (home pStmt = session L.db ∧ runs (row strTable c) L.db)) := by
  obtain ⟨stmt, hcompile⟩ := h.compile (D := D)
  obtain ⟨-, -, hrows⟩ := write_of_compiled (c := c) hD hS hA (h.strTable_eq ▸ hc) hcompile h.inv
    h.objLinker_eq
  obtain ⟨stmt', hP⟩ := h.pStatement_eq
  have htext : text pStmt = insertSql strTable := h.strTable_eq ▸ (h.inv _ hP).1
  have hadds := hD.stmtExecute pStmt strTable (some ((values c).map Value.sent)) L.db htext
  have hone : rows L.db ≠ rows L.db ++ [row strTable c] :=
    fun he => List.cons_ne_nil _ _ (List.append_right_eq_self.mp he.symm)
  have hiff : rows (L.write D c).db = rows L.db ++ [row strTable c]
      ↔ home pStmt = session L.db ∧ runs (row strTable c) L.db := by
    rw [hrows]
    by_cases hhome : home pStmt = session L.db
    · rw [and_iff_right hhome]
      exact hS.known pStmt strTable _ L.db htext hhome
    · rw [hS.stale pStmt _ L.db hhome]
      exact iff_of_false hone fun h => hhome h.1
  refine ⟨hiff, ?_⟩
  rw [← hiff]
  rcases hadds with hsame | hnew
  · exact iff_of_true (hrows.trans hsame) fun he => hone ((hrows.trans hsame).symm.trans he)
  · exact iff_of_false (fun he => hone (he.symm.trans (hrows.trans hnew)))
      (not_not.mpr (hrows.trans hnew))

/-- The first message compiles the statement. -/
theorem keeps_first (hD : Inserts D text rows) (hS : Sessions D text rows session home runs)
    (hA : Answers D) (hopen : L.objLinker = true) (hnew : L.pStatement = none)
    (hc : InMonth L.strTable c₁) :
    ∃ pStmt, Keeps text L.strTable pStmt (L.write D c₁)
      ∧ home pStmt = session (L.compile D).2.db
      ∧ session (L.compile D).2.db ≤ session (L.write D c₁).db := by
  obtain ⟨pStmt, hpStmt⟩ :=
    Option.ne_none_iff_exists'.mp (hA.stmtPrepare (insertSql L.strTable) L.db)
  have hprep : D.stmtPrepare (insertSql L.strTable) L.db
      = (some pStmt, (D.stmtPrepare (insertSql L.strTable) L.db).2) := by rw [← hpStmt]
  have hcompile : L.compile D = (some ⟨pStmt, .create 4⟩,
      { L with
        pStatement := some ⟨pStmt, .create 4⟩
        db := (D.stmtPrepare (insertSql L.strTable) L.db).2 }) := by
    rw [compile, hnew]
    dsimp only
    rw [if_pos hopen, hprep]
  have hinv : L.Inv text := fun P hP => (Option.some_ne_none P (hP.symm.trans hnew)).elim
  have hinv' := (quiet_compile (L := L) hD).inv hinv
  rw [hcompile] at hinv'
  obtain ⟨hkeeps, hle, -⟩ := write_of_compiled hD hS hA hc hcompile hinv' hopen
  refine ⟨pStmt, hkeeps, ?_⟩
  rw [hcompile]
  exact ⟨hS.home_eq _ _ _ hpStmt, hle⟩

/-- **Which messages of a month are lost**, as long as the server answers. A loger that has no
statement yet writes a first message, and then there are any more and calls of `Check`. The next
message adds its row if the server runs the insertion, and the session is still the one in which
the first message had its statement compiled; else it adds nothing. -/
theorem inserted_iff (hD : Inserts D text rows) (hS : Sessions D text rows session home runs)
    (hA : Answers D) (hopen : L.objLinker = true) (hnew : L.pStatement = none)
    (hfirst : InMonth L.strTable c₁) (hacts : ∀ c, Act.write c ∈ acts → InMonth L.strTable c)
    (hc : InMonth L.strTable c) :
    (rows (((Act.write c₁ :: acts).foldl (step D) L).write D c).db
          = rows ((Act.write c₁ :: acts).foldl (step D) L).db ++ [row L.strTable c]
        ↔ session (L.compile D).2.db = session ((Act.write c₁ :: acts).foldl (step D) L).db
          ∧ runs (row L.strTable c) ((Act.write c₁ :: acts).foldl (step D) L).db)
      ∧ (rows (((Act.write c₁ :: acts).foldl (step D) L).write D c).db
          = rows ((Act.write c₁ :: acts).foldl (step D) L).db
        ↔ ¬ (session (L.compile D).2.db = session ((Act.write c₁ :: acts).foldl (step D) L).db
          ∧ runs (row L.strTable c) ((Act.write c₁ :: acts).foldl (step D) L).db)) := by
  obtain ⟨pStmt, hkeeps, hhome, -⟩ := keeps_first hD hS hA hopen hnew hfirst
  obtain ⟨hrun, -⟩ := hkeeps.run hD hS hA hacts
  rw [← hhome]
  exact hrun.write_iff hD hS hA hc

/-- **Once the link was renewed, all of them are.** -/
theorem rows_of_renewed (hD : Inserts D text rows) (hS : Sessions D text rows session home runs)
    (hA : Answers D) (h : Keeps text strTable pStmt L) (hrenewed : home pStmt < session L.db)
    (hacts : ∀ c, Act.write c ∈ acts → InMonth strTable c) :
    rows (acts.foldl (step D) L).db = rows L.db := by
  induction acts generalizing L with
  | nil => rfl
  | cons a acts ih =>
    obtain ⟨hkeeps, hle⟩ := h.step hD hS hA fun c hc => hacts c (hc ▸ List.mem_cons_self)
    rw [List.foldl_cons, ih hkeeps (hrenewed.trans_le hle)
      fun c hc => hacts c (List.mem_cons_of_mem _ hc)]
    cases a with
    | check =>
      have hquiet : Quiet text rows L (L.check D).2 := quiet_query hD.check
      exact hquiet.rows_eq
    | write c =>
      exact (h.write_iff hD hS hA (hacts c List.mem_cons_self)).2.mpr fun hno =>
        hrenewed.ne hno.1

end Sessions

namespace Server

theorem le_session_renew (s : Server) : s.session ≤ s.renew.session := by
  unfold renew
  dsimp only
  split_ifs
  · exact Nat.le_succ _
  · exact le_rfl

/-- It runs the insertions for which the link holds. -/
theorem sessions_client :
    Sessions client Prod.snd Server.rows Server.session Prod.fst
      fun _ s => s.lost.headD false = false where
  realQuery _ s := le_session_renew s
  stmtExecute pStmt vals s := by
    dsimp only [client]
    split_ifs
    · exact le_session_renew s
    · exact le_session_renew s
  home_eq _ _ _ h := congrArg Prod.fst (Option.some.inj h).symm
  stale pStmt vals s hhome := by
    dsimp only [client]
    rw [if_neg fun h => hhome h.1]
    rfl
  known pStmt strTable vals s htext hhome := by
    dsimp only [client]
    split_ifs with h
    · refine iff_of_true ?_ h.2
      rw [← tableOf_insertSql strTable, ← htext]
    · refine iff_of_false (fun he => ?_) fun hlost => h ⟨hhome, hlost⟩
      exact List.cons_ne_nil _ _ (List.append_right_eq_self.mp he.symm)

theorem answers_client : Answers client := ⟨fun _ _ => rfl, fun _ _ => Option.some_ne_none _⟩

end Server

/-- A message of March. -/
def marchWrite : WriteCall :=
  playerWrite (playerCall (ascii "77") 3 (by decide) (ascii "x")) (ascii "log_2016_3") 1457000000

theorem inMonth_marchWrite (lost : List Bool) : InMonth (opened lost).strTable marchWrite :=
  ⟨rfl, fun _ _ => Option.some_ne_none _⟩

/-- The second message is inserted if the link holds. It is lost if `Check` has renewed the link
after the first one, and so is a third if the second one has come upon the lost link. -/
theorem inserted_iff_marchWrite :
    ([Act.write marchWrite, .check, .write marchWrite].foldl (step Server.client)
          (opened [])).db.rows
        = [row (ascii "log_2016_3") marchWrite, row (ascii "log_2016_3") marchWrite]
      ∧ ([Act.write marchWrite, .check, .write marchWrite].foldl (step Server.client)
          (opened [false, true])).db.rows = [row (ascii "log_2016_3") marchWrite]
      ∧ ([Act.write marchWrite, .write marchWrite, .write marchWrite].foldl (step Server.client)
          (opened [false, true])).db.rows = [row (ascii "log_2016_3") marchWrite] := by
  have hiff (lost : List Bool) (acts : List Act)
      (hacts : ∀ c, Act.write c ∈ acts → c = marchWrite) :=
    @inserted_iff _ _ Server.client Prod.snd Server.rows Server.session Prod.fst _ (opened lost)
      marchWrite marchWrite acts Server.inserts_client Server.sessions_client Server.answers_client
      rfl rfl (inMonth_marchWrite lost) (fun c hc => hacts c hc ▸ inMonth_marchWrite lost)
      (inMonth_marchWrite lost)
  have hcheck : ∀ c, Act.write c ∈ [Act.check] → c = marchWrite := by simp
  refine ⟨((hiff [] [.check] hcheck).1.mpr ⟨by decide +kernel, by decide +kernel⟩).trans
      (by decide +kernel), ((hiff [false, true] [.check] hcheck).2.mpr fun h => ?_).trans
      (by decide +kernel), ((hiff [false, true] [.write marchWrite] (by simp)).2.mpr
      fun h => ?_).trans (by decide +kernel)⟩
  · exact absurd h.1 (by decide +kernel)
  · exact absurd h.1 (by decide +kernel)

end DBLoger
