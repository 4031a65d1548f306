import IpfsGate.Schema
import IpfsGate.Lib.Script
import Mathlib.Data.Finset.Image
import Mathlib.Data.Finset.Lattice.Fold
import Mathlib.Order.Interval.Finset.Nat
import Mathlib.Order.Lattice.Nat

/-!
# The migration files and their runner

The database file as the migrations see it: the objects of its schema, and the rows of the
tables that some migration rewrites. A statement changes the schema or fails, and rewrites
rows. The runner executes the pending files outside any transaction, so every statement commits
on its own, except for the explicit transaction of file 006.
-/
namespace IpfsGate.Migrations

open Lib (Script.run)

inductive TableName where
  | schemaVersion
  | reservations
  | payments
  | pins
  | bannedAccounts
  | blockedCids
  | moderationLog
  | orders
  | claims
  | refunds
  | releaseConsents
  | receipts
  | whitelistedAccounts
  | claimsNew
deriving DecidableEq

/-- The columns that a migration adds to a table of an earlier one. -/
inductive Column where
  | reservationsMode
  | pinsMode
  | pinsMime
  | reservationsHoursRequested
  | reservationsCopies
  | reservationsQuotedAmount
  | ordersReceiptHash
deriving DecidableEq

def Column.table : Column → TableName
  | reservationsMode | reservationsHoursRequested | reservationsCopies
  | reservationsQuotedAmount => .reservations
  | pinsMode | pinsMime => .pins
  | ordersReceiptHash => .orders

def Column.name : Column → String
  | reservationsMode | pinsMode => "mode"
  | pinsMime => "mime"
  | reservationsHoursRequested => "hours_requested"
  | reservationsCopies => "copies"
  | reservationsQuotedAmount => "quoted_amount"
  | ordersReceiptHash => "receipt_hash"

inductive Index where
  | reservationsUploaderStatus
  | reservationsExpiresStatus
  | paymentsReservationId
  | paymentsUploaderStatus
  | paymentsStatus
  | pinsCidStatus
  | pinsUploaderStatus
  | pinsExpiresStatus
  | moderationLogTimestamp
  | moderationLogTarget
  | ordersCid
  | ordersOwner
  | claimsCidState
  | claimsOwnerState
  | claimsExpiryState
  | claimsPin
  | refundsClaim
  | refundsStatus
  | releaseConsentsOrder
  | receiptsOrder
  | whitelistedAccountsActive
deriving DecidableEq

def Index.table : Index → TableName
  | reservationsUploaderStatus | reservationsExpiresStatus => .reservations
  | paymentsReservationId | paymentsUploaderStatus | paymentsStatus => .payments
  | pinsCidStatus | pinsUploaderStatus | pinsExpiresStatus => .pins
  | moderationLogTimestamp | moderationLogTarget => .moderationLog
  | ordersCid | ordersOwner => .orders
  | claimsCidState | claimsOwnerState | claimsExpiryState | claimsPin => .claims
  | refundsClaim | refundsStatus => .refunds
  | releaseConsentsOrder => .releaseConsents
  | receiptsOrder => .receipts
  | whitelistedAccountsActive => .whitelistedAccounts

/-- The values of `claims.kind` at any version. -/
inductive HostKind where
  | original
  | ownCopy
  | backstop
  | guardian
deriving DecidableEq

/-- What the schema consists of. The two definitions of the claims table differ in the pledge
columns and in the kinds that the CHECK of `kind` lists. -/
inductive Obj where
  | table (t : TableName)
  | column (c : Column)
  | pledgeColumns (t : TableName)
  | kindCheck (t : TableName) (kinds : List HostKind)
  | index (i : Index)
deriving DecidableEq

namespace Obj

/-- Whether the object goes when the table is dropped. -/
def on (t : TableName) : Obj → Bool
  | table u => u = t
  | column c => c.table = t
  | pledgeColumns u => u = t
  | kindCheck u _ => u = t
  | index i => i.table = t

/-- `ALTER TABLE claims_new RENAME TO claims`. -/
def renamed : Obj → Obj
  | table .claimsNew => table .claims
  | pledgeColumns .claimsNew => pledgeColumns .claims
  | kindCheck .claimsNew kinds => kindCheck .claims kinds
  | o => o

end Obj

/-- What creating the table adds to the schema. -/
def TableName.definition : TableName → Finset Obj
  | .claims => {.table .claims, .kindCheck .claims [.original, .ownCopy, .backstop]}
  | .claimsNew =>
    {.table .claimsNew, .pledgeColumns .claimsNew,
      .kindCheck .claimsNew [.original, .ownCopy, .guardian]}
  | t => {.table t}

/-- A claims row of any version, under the rowid SQLite keeps it by. The pledge columns are null
while the table does not have them. -/
structure ClaimRow where
  rowid : Nat
  claimId : String
  orderId : Nat
  cid : Cid
  owner : Account
  hostGate : String
  pinId : Option Nat
  sizeBytes : Nat
  sizeMB : Int
  rateLocked : Coins
  paidHours : Int
  copiesRequested : Int
  kind : HostKind
  state : ClaimState
  amountPaid : Coins
  currency : String
  paymentId : Nat
  startTs : Int
  expiryTs : Int
  createdTs : Int
  pledgeOrder : Option Nat
  pledgeBudget : Option Coins
deriving DecidableEq

/-- The rows that migrations write, in rowid order; a column that is still to be added holds
nothing of meaning. -/
structure Data where
  versions : Finset Nat
  reservations : List Reservation
  pins : List Pin
  orders : List Order
  claims : List ClaimRow
  claimsNew : List ClaimRow
deriving DecidableEq

structure Store where
  schema : Finset Obj
  data : Data
deriving DecidableEq

/-- `COALESCE(MAX(version), 0)`. -/
def Data.current (d : Data) : Nat := d.versions.sup id

/-! ## Statements -/

inductive Stmt where
  | pragma
  /-- `CREATE TABLE IF NOT EXISTS`. -/
  | createTable (t : TableName)
  /-- `CREATE TABLE claims_new`. -/
  | createClaimsNew
  /-- `CREATE INDEX IF NOT EXISTS`. -/
  | createIndex (i : Index)
  | addColumn (c : Column)
  | copyClaims
  | dropClaims
  | renameClaimsNew
  | backfillPledgeOrder
  /-- `INSERT OR IGNORE INTO schema_version`. -/
  | recordVersion (version : Nat)
deriving DecidableEq

/-- `CASE kind WHEN 'backstop' THEN 'guardian' ELSE kind END`. -/
def HostKind.renamed : HostKind → HostKind
  | backstop => guardian
  | kind => kind

/-- A row as `INSERT INTO claims_new … SELECT … FROM claims` writes it. -/
def ClaimRow.copied (r : ClaimRow) (rowid : Nat) : ClaimRow :=
  { r with
    rowid, kind := r.kind.renamed, pledgeOrder := none
    pledgeBudget := if r.kind = .backstop then some r.amountPaid else none }

/-- The copies go into an empty table in rowid order, so their rowids count from one. -/
def copyRows (rows : List ClaimRow) : List ClaimRow :=
  rows.zipIdx.map (fun p => p.1.copied (p.2 + 1))

/-- `c2.created_ts < claims.created_ts OR (c2.created_ts = claims.created_ts AND c2.rowid <=
claims.rowid)`. -/
def PledgedBy (c2 r : ClaimRow) : Prop :=
  c2.createdTs < r.createdTs ∨ (c2.createdTs = r.createdTs ∧ c2.rowid ≤ r.rowid)

instance : DecidableRel PledgedBy := fun a b => by unfold PledgedBy; infer_instance

/-- The correlated count; the update rewrites no column that it reads. -/
def backfillRows (rows : List ClaimRow) : List ClaimRow :=
  rows.map (fun r =>
    if r.kind = .guardian then
      { r with pledgeOrder := some (rows.countP (fun c2 =>
          c2.cid = r.cid && c2.kind = .guardian && decide (PledgedBy c2 r))) }
    else r)

/-- The default that `ADD COLUMN` puts into the rows that are there. -/
def Column.fill : Column → Data → Data
  | reservationsMode, d =>
    { d with reservations := d.reservations.map (fun r => { r with mode := .encrypted }) }
  | pinsMode, d => { d with pins := d.pins.map (fun p => { p with mode := .encrypted }) }
  | pinsMime, d => { d with pins := d.pins.map (fun p => { p with mime := none }) }
  | reservationsHoursRequested, d =>
    { d with reservations := d.reservations.map (fun r => { r with hoursRequested := 0 }) }
  | reservationsCopies, d =>
    { d with reservations := d.reservations.map (fun r => { r with copies := 1 }) }
  | reservationsQuotedAmount, d =>
    { d with reservations := d.reservations.map (fun r => { r with quotedAmount := 0 }) }
  | ordersReceiptHash, d =>
    { d with orders := d.orders.map (fun o => { o with receiptHash := none }) }

namespace Stmt

/-- The schema after the statement, or its error. Copying violates no CHECK: every kind it
writes is one that the new table lists. -/
def alter : Stmt → Finset Obj → Except String (Finset Obj)
  | pragma, S => .ok S
  | createTable t, S => .ok (if .table t ∈ S then S else S ∪ t.definition)
  | createClaimsNew, S =>
    if .table .claimsNew ∈ S then .error "table claims_new already exists"
    else .ok (S ∪ TableName.claimsNew.definition)
  | createIndex i, S =>
    if .index i ∈ S then .ok S
    else if .table i.table ∈ S then .ok (insert (.index i) S)
    else .error "no such table"
  | addColumn c, S =>
    if .table c.table ∉ S then .error "no such table"
    else if .column c ∈ S then .error s!"duplicate column name: {c.name}"
    else .ok (insert (.column c) S)
  | copyClaims, S =>
    if .table .claims ∈ S ∧ .table .claimsNew ∈ S then .ok S else .error "no such table"
  | dropClaims, S =>
    if .table .claims ∈ S then .ok (S.filter (fun o => !o.on .claims))
    else .error "no such table: claims"
  | renameClaimsNew, S =>
    if .table .claimsNew ∉ S then .error "no such table: claims_new"
    else if .table .claims ∈ S then .error "there is already another table with this name: claims"
    else .ok (S.image Obj.renamed)
  | backfillPledgeOrder, S =>
    if .pledgeColumns .claims ∈ S then .ok S else .error "no such column: pledge_order"
  | recordVersion _, S =>
    if .table .schemaVersion ∈ S then .ok S else .error "no such table: schema_version"

/-- The rows after the statement. -/
def write : Stmt → Data → Data
  | createClaimsNew, d => { d with claimsNew := [] }
  | addColumn c, d => c.fill d
  | copyClaims, d => { d with claimsNew := copyRows d.claims }
  | dropClaims, d => { d with claims := [] }
  | renameClaimsNew, d => { d with claims := d.claimsNew, claimsNew := [] }
  | backfillPledgeOrder, d => { d with claims := backfillRows d.claims }
  | recordVersion version, d => { d with versions := insert version d.versions }
  | _, d => d

def exec (a : Stmt) (s : Store) : Except String Store :=
  match a.alter s.schema with
  | .ok schema => .ok { schema, data := a.write s.data }
  | .error e => .error e

end Stmt

/-- What commits at once: one statement, or a transaction, which an error rolls back. -/
inductive Step where
  | autocommit (a : Stmt)
  | transaction (body : List Stmt)
deriving DecidableEq

namespace Step

def stmts : Step → List Stmt
  | autocommit a => [a]
  | transaction body => body

def exec (a : Step) (s : Store) : Except String Store := Script.run Stmt.exec a.stmts s

end Step

/-! ## The files -/

/-- A file ends by recording its version. -/
structure Migration where
  version : Nat
  body : List Step

def Migration.steps (f : Migration) : List Step :=
  f.body ++ [.autocommit (.recordVersion f.version)]

def initial : Migration where
  version := 1
  body := [
    .pragma, .pragma, .pragma, .pragma,
    .createTable .reservations, .createIndex .reservationsUploaderStatus,
    .createIndex .reservationsExpiresStatus,
    .createTable .payments, .createIndex .paymentsReservationId,
    .createIndex .paymentsUploaderStatus, .createIndex .paymentsStatus,
    .createTable .pins, .createIndex .pinsCidStatus, .createIndex .pinsUploaderStatus,
    .createIndex .pinsExpiresStatus,
    .createTable .bannedAccounts, .createTable .blockedCids,
    .createTable .moderationLog, .createIndex .moderationLogTimestamp,
    .createIndex .moderationLogTarget,
    .createTable .schemaVersion].map .autocommit

def uploadsTab : Migration where
  version := 2
  body := [.addColumn .reservationsMode, .addColumn .pinsMode, .addColumn .pinsMime].map
    .autocommit

def claims : Migration where
  version := 3
  body := [
    .createTable .orders, .createIndex .ordersCid, .createIndex .ordersOwner,
    .createTable .claims, .createIndex .claimsCidState, .createIndex .claimsOwnerState,
    .createIndex .claimsExpiryState, .createIndex .claimsPin,
    .createTable .refunds, .createIndex .refundsClaim, .createIndex .refundsStatus,
    .addColumn .reservationsHoursRequested, .addColumn .reservationsCopies,
    .addColumn .reservationsQuotedAmount].map .autocommit

def releaseConsents : Migration where
  version := 4
  body := [.createTable .releaseConsents, .createIndex .releaseConsentsOrder].map .autocommit

def receipts : Migration where
  version := 5
  body := [.addColumn .ordersReceiptHash, .createTable .receipts,
    .createIndex .receiptsOrder].map .autocommit

/-- The rebuild of the claims table. -/
def rebuild : List Stmt :=
  [.createClaimsNew, .copyClaims, .dropClaims, .renameClaimsNew, .backfillPledgeOrder,
    .createIndex .claimsCidState, .createIndex .claimsOwnerState,
    .createIndex .claimsExpiryState, .createIndex .claimsPin]

def guardian : Migration where
  version := 6
  body := [.autocommit .pragma, .transaction rebuild, .autocommit .pragma]

def whitelist : Migration where
  version := 7
  body := [.createTable .whitelistedAccounts, .createIndex .whitelistedAccountsActive].map
    .autocommit

def migrations : List Migration :=
  [initial, uploadsTab, claims, releaseConsents, receipts, guardian, whitelist]

/-- The steps of the files above the version. -/
def pending (version : Nat) : List Step :=
  (migrations.filter (fun f => version < f.version)).flatMap Migration.steps

def createVersionTable : Step := .autocommit (.createTable .schemaVersion)

/-- What a start of the gate executes; creating the version table records no version. -/
def startup (s : Store) : List Step := createVersionTable :: pending s.data.current

def runMigrations (s : Store) : Except String Store := Script.run Step.exec (startup s) s

/-- The process dies after that many steps. -/
def crashed (s : Store) (k : Nat) : Except String Store :=
  Script.run Step.exec ((startup s).take k) s

end IpfsGate.Migrations
