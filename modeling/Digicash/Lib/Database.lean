import Digicash.Lib.Table
import Digicash.Lib.Prog

/-!
# Transactions under READ COMMITTED

A database here is its committed contents and, for each session, at most one open
transaction. A transaction keeps what it wrote to itself until it commits; what other
sessions see of it before then is only which rows it has *locked*.

One statement is one atomic step:

* it sees the newest committed contents with its own transaction's writes on top
  (`Tx.view`) — each statement takes a new snapshot, which is what READ COMMITTED means;
* it waits while a row it writes, locks or would collide with on a unique key is locked by
  another session. A waiting statement is a step that is not enabled, so on wake-up it
  acts on the newest committed version of the row;
* a plain read locks nothing and waits for nothing;
* outside a transaction it commits on its own.

A statement that fails aborts its transaction: the writes and the locks are gone. The
connection can fail at any statement, before it took effect or after (`Fault`), and the
second is the interesting one: the effect is there and the caller is told it is not.

The engine keeps two ghosts. A transaction remembers the statements it ran with their
replies (`Tx.trace`), and the shared state remembers every commit (`Shared.hist`).
-/

namespace Lib

abbrev CallId := Nat

/-- Why a statement failed. -/
inductive SqlError where
  | connection
  | uniqueViolation
  | checkViolation
  | numericOverflow
deriving DecidableEq, Repr

def SqlError.toText : SqlError → String
  | .connection => "connection closed"
  | .uniqueViolation => "duplicate key value violates unique constraint"
  | .checkViolation => "new row violates check constraint"
  | .numericOverflow => "bigint out of range"

/-- What goes wrong with the connection at one command: nothing, a failure before the
    command took effect, or one after it. -/
inductive Fault where
  | none
  | before
  | after
deriving DecidableEq, Repr

/-- The value written to one row; `none` deletes it. -/
abbrev Write {Row : Type} (Cell : Row → Type) := Σ r : Row, Option (Cell r)

/-- What one statement does, given what it sees: the rows it must have to itself besides
    those it writes, and its reply with its writes, or its error. -/
structure Effect {Row : Type} (Cell : Row → Type) (ρ : Type) where
  waits : List Row
  result : Except SqlError (ρ × List (Write Cell))

/-- A database with the statements a program may run on it, and the program's other
    commands: the clock, the network, the process's own memory. -/
structure Database where
  Db : Type
  Row : Type
  Cell : Row → Type
  [decRow : DecidableEq Row]
  get : Db → (r : Row) → Option (Cell r)
  put : Db → (r : Row) → Option (Cell r) → Db
  get_put_self : ∀ db r v, get (put db r v) r = v
  get_put_ne : ∀ db r v r', r' ≠ r → get (put db r v) r' = get db r'
  Stmt : Type
  Res : Stmt → Type
  Oracle : Type
  exec : (s : Stmt) → Oracle → Db → Effect Cell (Res s)
  Mem : Type
  Ext : Type
  ExtRes : Ext → Type
  ext : CallId → (e : Ext) → Oracle → Mem → Option (ExtRes e × Mem)

attribute [instance] Database.decRow

namespace Effect

variable {Row : Type} {Cell : Row → Type} {ρ : Type}

/-- A plain read. -/
def read (a : ρ) : Effect Cell ρ := ⟨[], .ok (a, [])⟩

/-- Lock `rows`, write `ws`, reply `a`. -/
def write (rows : List Row) (a : ρ) (ws : List (Write Cell)) : Effect Cell ρ :=
  ⟨rows, .ok (a, ws)⟩

/-- Fail, after waiting for `rows`. -/
def fail (rows : List Row) (e : SqlError) : Effect Cell ρ := ⟨rows, .error e⟩

/-- No row the statement needs is locked by somebody else. -/
def enabled (eff : Effect Cell ρ) (free : Row → Bool) : Bool :=
  eff.waits.all free &&
    match eff.result with
    | .ok (_, ws) => ws.all fun w => free w.1
    | .error _ => true

end Effect

section Engine

variable {D : Database}

/-- The commands of a program over `D`. -/
inductive Cmd (D : Database) where
  | begin
  | commit
  | rollback
  | stmt (s : D.Stmt)
  | ext (e : D.Ext)

@[reducible] def Cmd.Reply : Cmd D → Type
  | .begin => Except SqlError Unit
  | .commit => Except SqlError Unit
  | .rollback => Unit
  | .stmt s => Except SqlError (D.Res s)
  | .ext e => D.ExtRes e

abbrev Code (D : Database) (α : Type) := Prog (Cmd.Reply (D := D)) α

/-! ## Writes -/

def applyWrites (db : D.Db) (ws : List (Write D.Cell)) : D.Db :=
  ws.foldl (fun d w => D.put d w.1 w.2) db

@[simp] theorem applyWrites_nil (db : D.Db) : applyWrites db [] = db := rfl

@[simp] theorem applyWrites_cons (db : D.Db) (w : Write D.Cell) (ws : List (Write D.Cell)) :
    applyWrites db (w :: ws) = applyWrites (D.put db w.1 w.2) ws := rfl

@[simp] theorem applyWrites_append (db : D.Db) (ws vs : List (Write D.Cell)) :
    applyWrites db (ws ++ vs) = applyWrites (applyWrites db ws) vs :=
  List.foldl_append

/-- A row nobody writes keeps its value. -/
theorem get_applyWrites_of_notMem {r : D.Row} : ∀ {ws : List (Write D.Cell)} {db : D.Db},
    r ∉ ws.map Sigma.fst → D.get (applyWrites db ws) r = D.get db r
  | [], _, _ => rfl
  | w :: ws, db, h => by
    simp only [List.map_cons, List.mem_cons, not_or] at h
    rw [applyWrites_cons, get_applyWrites_of_notMem h.2, D.get_put_ne _ _ _ _ h.1]

/-! ## Transactions -/

/-- An open transaction. -/
structure Tx (D : Database) where
  /-- Rows locked without being written. -/
  waited : List D.Row
  writes : List (Write D.Cell)
  /-- The statements run so far, with their replies. -/
  trace : List (Σ s : D.Stmt, D.Res s)

namespace Tx

def empty : Tx D := ⟨[], [], []⟩

/-- The contents a statement of this transaction sees. -/
def view (t : Tx D) (db : D.Db) : D.Db := applyWrites db t.writes

/-- The rows this transaction keeps from everybody else until it ends. -/
def locks (t : Tx D) : List D.Row := t.waited ++ t.writes.map Sigma.fst

/-- Record one more statement. -/
def push (t : Tx D) (s : D.Stmt) (r : D.Res s) (waits : List D.Row)
    (ws : List (Write D.Cell)) : Tx D :=
  ⟨t.waited ++ waits, t.writes ++ ws, ⟨s, r⟩ :: t.trace⟩

@[simp] theorem locks_empty : (empty : Tx D).locks = [] := rfl

@[simp] theorem view_empty (db : D.Db) : (empty : Tx D).view db = db := rfl

theorem mem_locks_push {t : Tx D} {s : D.Stmt} {r : D.Res s} {waits : List D.Row}
    {ws : List (Write D.Cell)} {row : D.Row} :
    row ∈ (t.push s r waits ws).locks ↔
      row ∈ t.locks ∨ row ∈ waits ∨ row ∈ ws.map Sigma.fst := by
  simp only [locks, push, List.map_append, List.mem_append]
  tauto

end Tx

/-- The locks of a session: none unless a transaction is open. -/
def locksOf (tx : Option (Tx D)) : List D.Row := tx.elim [] Tx.locks

@[simp] theorem locksOf_none : locksOf (none : Option (Tx D)) = [] := rfl

@[simp] theorem locksOf_some (t : Tx D) : locksOf (some t) = t.locks := rfl

/-! ## The shared state -/

/-- One committed transaction: whose it was, what it did, and the contents it met. -/
structure Commit (D : Database) (Op : Type) where
  call : CallId
  op : Op
  tx : Tx D
  before : D.Db

/-- The contents a commit leaves. -/
def Commit.after {Op : Type} (c : Commit D Op) : D.Db := applyWrites c.before c.tx.writes

/-- Whether one of its statements satisfies `p`. -/
def Commit.ran {Op : Type} (c : Commit D Op) (p : D.Stmt → Bool) : Bool :=
  c.tx.trace.any fun e => p e.1

/-- What all sessions share: the committed contents, the process's memory, and the ghost
    list of commits, newest first. -/
structure Shared (D : Database) (Op : Type) where
  db : D.Db
  mem : D.Mem
  hist : List (Commit D Op)

namespace Shared

variable {Op : Type}

def push (sh : Shared D Op) (c : Commit D Op) : Shared D Op :=
  { sh with db := c.after, hist := c :: sh.hist }

/-- Commit `t` on behalf of call `i`. -/
def commit (sh : Shared D Op) (i : CallId) (op : Op) (t : Tx D) : Shared D Op :=
  sh.push ⟨i, op, t, sh.db⟩

@[simp] theorem push_db (sh : Shared D Op) (c : Commit D Op) : (sh.push c).db = c.after := rfl

@[simp] theorem push_mem (sh : Shared D Op) (c : Commit D Op) : (sh.push c).mem = sh.mem := rfl

@[simp] theorem push_hist (sh : Shared D Op) (c : Commit D Op) :
    (sh.push c).hist = c :: sh.hist := rfl

end Shared

/-! ## One command -/

section Exec

variable {Op : Type}

/-- One statement, by a session whose transaction is `tx`. `free` says which rows no other
    session has locked; `none` means the statement waits. -/
def execStmt (free : D.Row → Bool) (i : CallId) (op : Op) (fault : Fault) (o : D.Oracle)
    (sh : Shared D Op) (tx : Option (Tx D)) (s : D.Stmt) :
    Option (Except SqlError (D.Res s) × Shared D Op × Option (Tx D)) :=
  match tx with
  | some t =>
    if fault ≠ .none then some (.error .connection, sh, none)
    else
      let eff := D.exec s o (t.view sh.db)
      if eff.enabled free then
        match eff.result with
        | .error e => some (.error e, sh, none)
        | .ok (r, ws) => some (.ok r, sh, some (t.push s r eff.waits ws))
      else none
  | none =>
    if fault = .before then some (.error .connection, sh, none)
    else
      let eff := D.exec s o sh.db
      if eff.enabled free then
        match eff.result with
        | .error e => some (.error e, sh, none)
        | .ok (r, ws) =>
          some (if fault = .after then .error .connection else .ok r,
            if ws.isEmpty then sh else sh.commit i op (Tx.empty.push s r eff.waits ws), none)
      else none

/-- One command. -/
def execCmd (free : D.Row → Bool) (i : CallId) (op : Op) (fault : Fault) (o : D.Oracle)
    (sh : Shared D Op) (tx : Option (Tx D)) :
    (c : Cmd D) → Option (c.Reply × Shared D Op × Option (Tx D))
  | .begin =>
    if fault = .none then some (.ok (), sh, some Tx.empty)
    else some (.error .connection, sh, none)
  | .commit =>
    match tx with
    | none => some (.error .connection, sh, none)
    | some t =>
      match fault with
      | .none => some (.ok (), sh.commit i op t, none)
      | .before => some (.error .connection, sh, none)
      | .after => some (.error .connection, sh.commit i op t, none)
  -- The server rolls back whether or not the message arrives.
  | .rollback => some ((), sh, none)
  | .stmt s => execStmt free i op fault o sh tx s
  | .ext e => (D.ext i e o sh.mem).map fun rm => (rm.1, { sh with mem := rm.2 }, tx)

/-- Only an `ext` command touches the process's memory. -/
theorem execCmd_mem {free : D.Row → Bool} {i : CallId} {op : Op} {fault : Fault} {o : D.Oracle}
    {sh sh' : Shared D Op} {tx tx' : Option (Tx D)} {c : Cmd D} {r : c.Reply}
    (h : execCmd free i op fault o sh tx c = some (r, sh', tx')) :
    sh'.mem = sh.mem ∨ ∃ e r', c = .ext e ∧ D.ext i e o sh.mem = some (r', sh'.mem) := by
  cases c with
  | begin =>
    refine Or.inl ?_
    simp only [execCmd] at h
    split at h <;> cases h <;> rfl
  | commit =>
    refine Or.inl ?_
    cases tx <;> cases fault <;> cases h <;> rfl
  | rollback =>
    cases h
    exact Or.inl rfl
  | ext e =>
    obtain ⟨⟨r', m⟩, hext, heq⟩ := Option.map_eq_some_iff.mp h
    cases heq
    exact Or.inr ⟨e, r', rfl, hext⟩
  | stmt s =>
    refine Or.inl ?_
    -- A statement may commit, but what it commits is not memory.
    cases tx <;> simp only [execCmd, execStmt] at h
    all_goals
      repeat' split at h
      all_goals cases h
      all_goals rfl

/-- The contents change where something is committed: the open transaction by a `commit`, or a
    statement that is its own transaction. -/
theorem execCmd_shared {free : D.Row → Bool} {i : CallId} {op : Op} {fault : Fault}
    {o : D.Oracle} {sh sh' : Shared D Op} {tx tx' : Option (Tx D)} {c : Cmd D} {r : c.Reply}
    (h : execCmd free i op fault o sh tx c = some (r, sh', tx')) :
    (sh'.db = sh.db ∧ sh'.hist = sh.hist) ∨ ∃ t, sh' = sh.commit i op t ∧
      ((c = .commit ∧ tx = some t) ∨ tx = none ∧ ∃ s a ws, c = .stmt s ∧
        (D.exec s o sh.db).result = .ok (a, ws) ∧
          t = Tx.empty.push s a (D.exec s o sh.db).waits ws) := by
  cases c with
  | begin =>
    refine Or.inl ?_
    simp only [execCmd] at h
    split at h <;> cases h <;> exact ⟨rfl, rfl⟩
  | commit =>
    cases tx with
    | none =>
      cases h
      exact Or.inl ⟨rfl, rfl⟩
    | some t =>
      cases fault <;> cases h
      · exact Or.inr ⟨t, rfl, Or.inl ⟨rfl, rfl⟩⟩
      · exact Or.inl ⟨rfl, rfl⟩
      · exact Or.inr ⟨t, rfl, Or.inl ⟨rfl, rfl⟩⟩
  | rollback =>
    cases h
    exact Or.inl ⟨rfl, rfl⟩
  | ext e =>
    obtain ⟨⟨r', m⟩, -, heq⟩ := Option.map_eq_some_iff.mp h
    cases heq
    exact Or.inl ⟨rfl, rfl⟩
  | stmt s =>
    cases tx with
    | some t =>
      refine Or.inl ?_
      simp only [execCmd, execStmt] at h
      repeat' split at h
      all_goals cases h
      all_goals exact ⟨rfl, rfl⟩
    | none =>
      simp only [execCmd, execStmt] at h
      split at h
      · cases h
        exact Or.inl ⟨rfl, rfl⟩
      split at h
      · split at h
        · cases h
          exact Or.inl ⟨rfl, rfl⟩
        · rename_i a ws hres
          cases h
          split
          · exact Or.inl ⟨rfl, rfl⟩
          · exact Or.inr ⟨_, rfl, Or.inr ⟨rfl, s, a, ws, rfl, hres, rfl⟩⟩
      · exact absurd h (by simp)

/-- A command makes at most one commit, in the name of its call. -/
theorem execCmd_hist {free : D.Row → Bool} {i : CallId} {op : Op} {fault : Fault} {o : D.Oracle}
    {sh sh' : Shared D Op} {tx tx' : Option (Tx D)} {c : Cmd D} {r : c.Reply}
    (h : execCmd free i op fault o sh tx c = some (r, sh', tx')) :
    sh'.hist = sh.hist ∨ ∃ t, sh'.hist = ⟨i, op, t, sh.db⟩ :: sh.hist := by
  rcases execCmd_shared h with ⟨-, heq⟩ | ⟨t, rfl, -⟩
  · exact Or.inl heq
  · exact Or.inr ⟨t, rfl⟩

/-- The transaction after a command: as it was, just begun, or one statement longer. -/
theorem execCmd_tx {free : D.Row → Bool} {i : CallId} {op : Op} {fault : Fault} {o : D.Oracle}
    {sh sh' : Shared D Op} {tx : Option (Tx D)} {t' : Tx D} {c : Cmd D} {r : c.Reply}
    (h : execCmd free i op fault o sh tx c = some (r, sh', some t')) :
    t' = .empty ∨ tx = some t' ∨ ∃ t s a ws, tx = some t ∧ c = .stmt s ∧
      (D.exec s o (t.view sh.db)).result = .ok (a, ws) ∧
        t' = t.push s a (D.exec s o (t.view sh.db)).waits ws := by
  cases c with
  | begin =>
    simp only [execCmd] at h
    split at h <;> cases h
    exact Or.inl rfl
  | commit =>
    cases tx with
    | none => cases h
    | some t => cases fault <;> cases h
  | rollback => cases h
  | ext e =>
    obtain ⟨⟨r', m⟩, -, heq⟩ := Option.map_eq_some_iff.mp h
    cases heq
    exact Or.inr (Or.inl rfl)
  | stmt s =>
    cases tx with
    | none =>
      simp only [execCmd, execStmt] at h
      repeat' split at h
      all_goals cases h
    | some t =>
      simp only [execCmd, execStmt] at h
      split at h
      · cases h
      split at h
      · split at h
        · cases h
        · rename_i a ws hres
          cases h
          exact Or.inr (Or.inr ⟨t, s, a, ws, rfl, rfl, hres, rfl⟩)
      · exact absurd h (by simp)

/-- Only `begin` opens a transaction. -/
theorem execCmd_tx_none {free : D.Row → Bool} {i : CallId} {op : Op} {fault : Fault} {o : D.Oracle}
    {sh sh' : Shared D Op} {tx' : Option (Tx D)} {c : Cmd D} {r : c.Reply}
    (h : execCmd free i op fault o sh none c = some (r, sh', tx')) (hc : c ≠ .begin) :
    tx' = none := by
  cases c with
  | begin => exact absurd rfl hc
  | commit =>
    cases h
    rfl
  | rollback =>
    cases h
    rfl
  | ext e =>
    obtain ⟨⟨r', m⟩, -, heq⟩ := Option.map_eq_some_iff.mp h
    cases heq
    rfl
  | stmt s =>
    simp only [execCmd, execStmt] at h
    repeat' split at h
    all_goals cases h
    all_goals rfl

/-- A statement on its own that only reads changes nothing, and gets an error or what is there. -/
theorem execCmd_read {free : D.Row → Bool} {i : CallId} {op : Op} {fault : Fault} {o : D.Oracle}
    {sh sh' : Shared D Op} {tx' : Option (Tx D)} {s : D.Stmt} {a : D.Res s}
    {reply : Except SqlError (D.Res s)} (hread : D.exec s o sh.db = .read a)
    (h : execCmd free i op fault o sh none (.stmt s) = some (reply, sh', tx')) :
    sh' = sh ∧ tx' = none ∧ ((∃ e, reply = .error e) ∨ reply = .ok a) := by
  simp only [execCmd, execStmt, hread] at h
  split at h
  · cases h
    exact ⟨rfl, rfl, Or.inl ⟨_, rfl⟩⟩
  split at h
  · simp only [Effect.read] at h
    cases h
    refine ⟨rfl, rfl, ?_⟩
    by_cases hf : fault = .after
    · exact Or.inl ⟨_, if_pos hf⟩
    · exact Or.inr (if_neg hf)
  · exact absurd h (by simp)

end Exec

end Engine

end Lib
