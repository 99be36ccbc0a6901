import M6.Lib.Sharing
import M6.Lib.Text
import Mathlib.Data.List.Lex
import Mathlib.Data.List.Sort

/-!
# Migrations of a database file

`migrate` of `sqlite.rs`: bring a file up to the last migration of a list, each in a transaction of
its own, while other processes do the same. Every call of SQLite may fail, and between two calls of
one process there may be any number of calls of the others.

What SQLite does is `Answers`. `BEGIN IMMEDIATE` excludes other writers, a transaction is seen by
nobody else until it is committed, `PRAGMA foreign_keys` belongs to the connection and does nothing
inside a transaction, and outside of one a statement commits itself. What a migration's SQL does to
the data is a parameter.

`migrated_once` is about any run of any number of processes.
-/

namespace M6.Sqlite

open Sharing

/-! ## The calls -/

/-- One step of a schema. -/
structure Migration where
  version : Nat
  sql : Str
  deriving DecidableEq

/-- Dangling references, for each child and parent table. -/
abbrev Violations : Type := List ((Str × Str) × Nat)

inductive Call where
  | userVersion
  | foreignKeys
  | setForeignKeys (on : Bool)
  | beginImmediate
  | foreignKeyCheck
  | execute (sql : Str)
  | setUserVersion (v : Nat)
  | commit
  /-- an open transaction is dropped -/
  | rollback

def Call.Result : Call → Type
  | .userVersion => Nat
  | .foreignKeys => Bool
  | .foreignKeyCheck => Violations
  | _ => Unit

variable {Fault : Type}

abbrev Call.Answer (Fault : Type) (c : Call) : Type := Except Fault c.Result

abbrev Program (Fault R : Type) : Type := Prog Call (Call.Answer Fault) R

/-- Why a file was not brought up. -/
inductive SqliteError (Fault : Type) where
  | migrationList (index version : Nat)
  | newerThanCode (db code : Nat)
  | migration (version : Nat) (source : Fault)
  | foreignKeyCheck (version : Nat) (table parent : Str)
  | sqlite (source : Fault)

/-- `?`: go on with what came back, or end with the error. -/
def andThen {A B : Type} (p : Program Fault (Except (SqliteError Fault) A))
    (f : A → Program Fault (Except (SqliteError Fault) B)) :
    Program Fault (Except (SqliteError Fault) B) :=
  p.bind fun
    | .ok a => f a
    | .error e => .ret (.error e)

def attempt (c : Call) (fail : Fault → SqliteError Fault) :
    Program Fault (Except (SqliteError Fault) c.Result) :=
  .call c fun a => .ret (a.mapError fail)

/-! ## The program -/

def countOf (v : Violations) (pair : Str × Str) : Nat := (v.lookup pair).getD 0

def pairLe (a b : Str × Str) : Bool := a.1 < b.1 ∨ a.1 = b.1 ∧ a.2 ≤ b.2

def grown (before after : Violations) : List (Str × Str) :=
  ((after.filter fun p => countOf before p.1 < p.2).map Prod.fst).insertionSort
    fun a b => pairLe a b

def violations (fkWasOn : Bool) (m : Migration) :
    Program Fault (Except (SqliteError Fault) Violations) :=
  if fkWasOn then attempt .foreignKeyCheck (.migration m.version) else .ret (.ok [])

def insideTransaction (code : Nat) (fkWasOn : Bool) (m : Migration) :
    Program Fault (Except (SqliteError Fault) Bool) :=
  andThen (attempt .userVersion (.migration m.version)) fun (now : Nat) =>
  if code < now then .ret (.error (.newerThanCode now code))
  else if m.version ≤ now then .ret (.ok false)
  else
    andThen (violations fkWasOn m) fun (before : Violations) =>
    andThen (attempt (.execute m.sql) (.migration m.version)) fun _ =>
    andThen (violations fkWasOn m) fun (after : Violations) =>
    match (grown before after).head? with
    | some (table, parent) => .ret (.error (.foreignKeyCheck m.version table parent))
    | none =>
      andThen (attempt (.setUserVersion m.version) (.migration m.version)) fun _ =>
      andThen (attempt .commit (.migration m.version)) fun _ => .ret (.ok true)

def runMigration (code : Nat) (fkWasOn : Bool) (m : Migration) :
    Program Fault (Except (SqliteError Fault) Unit) :=
  andThen (attempt (.setForeignKeys false) (.migration m.version)) fun _ =>
  andThen (attempt .beginImmediate (.migration m.version)) fun _ =>
  (insideTransaction code fkWasOn m).bind fun
    | .ok true => .ret (.ok ())
    | .ok false => .call .rollback fun _ => .ret (.ok ())
    | .error e => .call .rollback fun _ => .ret (.error e)

def runMigrations (code : Nat) (fkWasOn : Bool) :
    List Migration → Program Fault (Except (SqliteError Fault) Unit)
  | [] => .ret (.ok ())
  | m :: rest => andThen (runMigration code fkWasOn m) fun _ => runMigrations code fkWasOn rest

def misnumbered (migrations : List Migration) : Option (Migration × Nat) :=
  migrations.zipIdx.find? fun p => p.1.version ≠ p.2 + 1

def migrate (migrations : List Migration) : Program Fault (Except (SqliteError Fault) Nat) :=
  match misnumbered migrations with
  | some (m, index) => .ret (.error (.migrationList index m.version))
  | none =>
    let code := migrations.length
    andThen (attempt .userVersion .sqlite) fun (cur : Nat) =>
    if code < cur then .ret (.error (.newerThanCode cur code))
    else
      andThen (attempt .foreignKeys .sqlite) fun (fkWasOn : Bool) =>
      (runMigrations code fkWasOn (migrations.filter fun m => cur < m.version)).bind fun ran =>
      (attempt (.setForeignKeys fkWasOn) .sqlite).bind fun restored =>
      -- the error of a migration comes before that of putting the setting back
      match ran, restored with
      | .error e, _ => .ret (.error e)
      | .ok _, .error e => .ret (.error e)
      | .ok _, .ok _ =>
        andThen (attempt .userVersion .sqlite) fun (last : Nat) =>
        if code < last then .ret (.error (.newerThanCode last code)) else .ret (.ok last)

/-! ## SQLite -/

variable {ι D : Type}

/-- What is in a file. -/
structure Content (D : Type) where
  version : Nat
  data : D

/-- A connection. -/
structure Conn (D : Type) where
  foreignKeys : Bool
  /-- what a transaction has made of the file, if one is open -/
  tx : Option (Content D)
  /-- whether the last call to set `foreign_keys` failed -/
  pragmaFailed : Bool
  /-- whether a transaction could not be dropped -/
  rollbackFailed : Bool

/-- The file, the versions that were committed to it, and the connections of all processes. -/
structure World (ι D : Type) where
  file : Content D
  committed : List Nat
  conns : ι → Conn D

variable [DecidableEq ι]

def World.setConn (w : World ι D) (i : ι) (c : Conn D) : World ι D :=
  { w with conns := Function.update w.conns i c }

@[simp] theorem World.setConn_self (w : World ι D) (i : ι) (c : Conn D) :
    (w.setConn i c).conns i = c := Function.update_self ..

theorem World.setConn_other (w : World ι D) {i j : ι} (c : Conn D) (h : j ≠ i) :
    (w.setConn i c).conns j = w.conns j := Function.update_of_ne h ..

def World.setTx (w : World ι D) (i : ι) (tx : Option (Content D)) : World ι D :=
  w.setConn i { w.conns i with tx := tx }

@[simp] theorem World.setTx_self (w : World ι D) (i : ι) (tx : Option (Content D)) :
    ((w.setTx i tx).conns i).tx = tx := by
  rw [setTx, setConn_self]

def World.seen (w : World ι D) (i : ι) : Content D := (w.conns i).tx.getD w.file

/-- What a call that failed may leave of a transaction: it is as it was, or rolled back, or a batch
was run in part. -/
def LeftBy (c : Call) (tx tx' : Option (Content D)) : Prop :=
  tx' = tx ∨ tx' = none ∨
    ∃ sql content data, c = .execute sql ∧ tx = some content ∧
      tx' = some { content with data := data }

def afterFailure (c : Call) (conn : Conn D) (tx : Option (Content D)) : Conn D :=
  { conn with
    tx := tx
    pragmaFailed := match c with
      | .setForeignKeys _ => true
      | _ => conn.pragmaFailed
    rollbackFailed := match c with
      | .rollback => true
      | _ => conn.rollbackFailed }

variable (runs : Str → D → D → Prop)

inductive Answers (i : ι) :
    (c : Call) → World ι D → Call.Answer Fault c → World ι D → Prop where
  | userVersion (w : World ι D) : Answers i .userVersion w (.ok (w.seen i).version) w
  | foreignKeys (w : World ι D) : Answers i .foreignKeys w (.ok (w.conns i).foreignKeys) w
  | setForeignKeys {w : World ι D} {on : Bool} (free : (w.conns i).tx = none) :
      Answers i (.setForeignKeys on) w (.ok ())
        (w.setConn i { w.conns i with foreignKeys := on, pragmaFailed := false })
  /-- inside a transaction it does nothing, and says nothing -/
  | ignored {w : World ι D} {on : Bool} {c : Content D} (inside : (w.conns i).tx = some c) :
      Answers i (.setForeignKeys on) w (.ok ())
        (w.setConn i { w.conns i with pragmaFailed := false })
  | beginImmediate {w : World ι D} (free : ∀ j, (w.conns j).tx = none) :
      Answers i .beginImmediate w (.ok ()) (w.setTx i (some w.file))
  | foreignKeyCheck (w : World ι D) (counts : Violations) :
      Answers i .foreignKeyCheck w (.ok counts) w
  | execute {w : World ι D} {sql : Str} {c : Content D} {d : D} (inside : (w.conns i).tx = some c)
      (ran : runs sql c.data d) :
      Answers i (.execute sql) w (.ok ()) (w.setTx i (some ⟨c.version, d⟩))
  | executeAlone {w : World ι D} {sql : Str} {d : D} (free : ∀ j, (w.conns j).tx = none)
      (ran : runs sql w.file.data d) :
      Answers i (.execute sql) w (.ok ()) { w with file := ⟨w.file.version, d⟩ }
  | setUserVersion {w : World ι D} {v : Nat} {c : Content D} (inside : (w.conns i).tx = some c) :
      Answers i (.setUserVersion v) w (.ok ()) (w.setTx i (some ⟨v, c.data⟩))
  | setUserVersionAlone {w : World ι D} {v : Nat} (free : ∀ j, (w.conns j).tx = none) :
      Answers i (.setUserVersion v) w (.ok ()) { w with file := ⟨v, w.file.data⟩ }
  | commit {w : World ι D} {c : Content D} (inside : (w.conns i).tx = some c) :
      Answers i .commit w (.ok ())
        { w.setTx i none with file := c, committed := w.committed ++ [c.version] }
  | rollback (w : World ι D) : Answers i .rollback w (.ok ()) (w.setTx i none)
  | failed {w : World ι D} {c : Call} {tx : Option (Content D)} (e : Fault)
      (left : LeftBy c (w.conns i).tx tx) :
      Answers i c w (.error e) (w.setConn i (afterFailure c (w.conns i) tx))

end M6.Sqlite
