import Digicash.Lib.Ledger
import Digicash.Registry.Server

/-!
# The registry's ledger

The transactions the registry can commit, as for the bank: seven entries, what each runs, does
and asks for. The entry of a settlement keeps apart the receivables its `SELECT` read and the
ones its `DELETE` found, because nothing in the code makes them the same.
-/

namespace Digicash.Registry

open Lib

variable {X : Crypto}

/-! ## Netting -/

/-- What `settle` claims for the receivables `amounts`: `settlePairs` without its statements. -/
def netting (amounts : List (Pair × Int)) : List (Pair × Int) → List Pair → List (Pair × Int)
  | [], _ => []
  | (pair, forward) :: todo, done =>
    if pair ∈ done then netting amounts todo done
    else
      match netOf pair forward ((amounts.lookup pair.swap).getD 0) with
      | none => netting amounts todo (pair.swap :: pair :: done)
      | some claim => claim :: netting amounts todo (pair.swap :: pair :: done)

/-- The row of a claim. -/
def claimRow (windowEnd : Int) (claim : Pair × Int) : ClaimRow :=
  ⟨claim.1, claim.2, windowEnd, windowEnd⟩

/-! ## Entries -/

/-- What the cap check of a submission read: the cap and the receivable, if there is a cap. -/
abbrev CapCheck := Option (Int × Option Int)

def CapCheck.passed : CapCheck → Prop
  | none => True
  | some (cap, amount) => amount.getD 0 < cap

/-- A committed transaction. A `row` or an amount is the one the transaction met; `id` is the
    key of the transcript it appended. -/
inductive Entry where
  | addMember (bankId : String) (row : MemberRow)
  | accept (check : CapCheck) (id : Nat) (pair : Pair) (key : SerialKey) (row : SerialRow)
      (outstanding : Option Int)
  | doubleSpend (check : CapCheck) (id : Nat) (pair : Pair) (key : SerialKey) (row : SerialRow)
      (seen : List TranscriptRow)
  | settle (read : List (Pair × Int)) (claims : List (Nat × ClaimRow))
      (cleared : List (Pair × Int))
  | setCap (pair : Pair) (cap : Int)
  | recordNonce (nonce : String) (expiry now : Int)
  | purge (now : Int) (expired : List String)

/-- The transcript that goes with a submission of the serial `key`. -/
def SerialRow.transcriptRow (row : SerialRow) (key : SerialKey) : TranscriptRow :=
  ⟨key, row.firstBankId, row.firstTranscript, row.firstSeenAt⟩

namespace Entry

/-- The transaction `t` after one more statement. -/
abbrev ran (t : Tx database) (s : Stmt) (r : s.Res) (waits : List Row)
    (ws : List (Write Cell)) : Tx database := t.push s r waits ws

/-- The transaction of a submission after its cap check. -/
def capTx (pair : Pair) : CapCheck → Tx database
  | none => ran .empty (.selectCap pair) none [] []
  | some (cap, amount) =>
    ran (ran .empty (.selectCap pair) (some cap) [] []) (.selectReceivable pair) amount [] []

/-- And after it appended its transcript. -/
def transcriptTx (check : CapCheck) (id : Nat) (pair : Pair) (row : TranscriptRow) :
    Tx database :=
  ran (capTx pair check) (.insertTranscript row) (1 : Nat) [] [⟨.transcript id, some row⟩]

/-- And after it inserted the serial, which was new (`n = 1`, with `ws` its row) or was not. -/
def serialTx (check : CapCheck) (id : Nat) (pair : Pair) (key : SerialKey) (row : SerialRow)
    (n : Nat) (ws : List (Write Cell)) : Tx database :=
  ran (transcriptTx check id pair (row.transcriptRow key)) (.insertSerial key row) n [] ws

/-- The transaction of a settlement up to its `DELETE`. -/
def claimsTx (read : List (Pair × Int)) (claims : List (Nat × ClaimRow)) : Tx database :=
  claims.foldl (fun t c => ran t (.insertClaim c.2) (1 : Nat) [] [⟨.claim c.1, some c.2⟩])
    (ran .empty .selectReceivables read [] [])

def tx : Entry → Tx database
  | addMember b row =>
    ran .empty (.insertMember b row.pubkey row.isAdmin) (1 : Nat) [] [⟨.member b, some row⟩]
  | accept check id pair key row outstanding =>
    let t := serialTx check id pair key row 1 [⟨.serial key, some row⟩]
    ran t (.addReceivable pair key.denominationCents) (1 : Nat) []
      [⟨.receivable pair, some (outstanding.getD 0 + key.denominationCents)⟩]
  | doubleSpend check id pair key row seen =>
    let t := serialTx check id pair key row 0 []
    ran t (.selectTranscripts key) seen [] []
  | settle read claims cleared =>
    ran (claimsTx read claims) .deleteReceivables cleared.length []
      (cleared.map fun r => ⟨.receivable r.1, none⟩)
  | setCap pair cap =>
    ran .empty (.upsertCap pair cap) (1 : Nat) [] [⟨.exposureCap pair, some cap⟩]
  | recordNonce n expiry now =>
    ran .empty (.upsertNonce n expiry now) (1 : Nat) [] [⟨.nonce n, some expiry⟩]
  | purge now expired =>
    ran .empty (.purgeNonces now) expired.length [] (expired.map fun n => ⟨.nonce n, none⟩)

/-- What an entry does to the tables. -/
def apply : Entry → Tables → Tables
  | addMember b row, db => { db with members := db.members.put b (some row) }
  | accept _ id pair key row outstanding, db =>
    { db with
      transcripts := db.transcripts.put id (some (row.transcriptRow key))
      serials := db.serials.put key (some row)
      receivables :=
        db.receivables.put pair (some (outstanding.getD 0 + key.denominationCents)) }
  | doubleSpend _ id _ key row _, db =>
    { db with transcripts := db.transcripts.put id (some (row.transcriptRow key)) }
  | settle _ claims cleared, db =>
    { db with
      settlementClaims := db.settlementClaims.insertAll claims
      receivables := db.receivables.eraseAll (cleared.map Prod.fst) }
  | setCap pair cap, db => { db with exposureCaps := db.exposureCaps.put pair (some cap) }
  | recordNonce n expiry _, db => { db with nonceStore := db.nonceStore.put n (some expiry) }
  | purge _ expired, db => { db with nonceStore := db.nonceStore.eraseAll expired }

/-- Many deletes of receivables at once. -/
theorem applyWrites_cleared : ∀ (l : List (Pair × Int)) (db : Tables),
    applyWrites (D := database) db (l.map fun r => ⟨.receivable r.1, none⟩) =
      { db with receivables := db.receivables.eraseAll (l.map Prod.fst) }
  | [], _ => rfl
  | _ :: l, _ => applyWrites_cleared l _

theorem applyWrites_expired : ∀ (l : List String) (db : Tables),
    applyWrites (D := database) db (l.map fun n => ⟨.nonce n, none⟩) =
      { db with nonceStore := db.nonceStore.eraseAll l }
  | [], _ => rfl
  | _ :: l, _ => applyWrites_expired l _

@[simp] theorem writes_capTx (pair : Pair) (check : CapCheck) :
    (capTx pair check).writes = [] := by
  cases check <;> rfl

/-- The claims a settlement has inserted so far are the rows it wrote. -/
@[simp] theorem writes_claimsTx (read : List (Pair × Int)) (claims : List (Nat × ClaimRow)) :
    (claimsTx read claims).writes = claims.map fun c => ⟨.claim c.1, some c.2⟩ := by
  have key : ∀ (l : List (Nat × ClaimRow)) (t : Tx database),
      (l.foldl (fun t c => ran t (.insertClaim c.2) (1 : Nat) [] [⟨.claim c.1, some c.2⟩])
        t).writes = t.writes ++ l.map fun c => ⟨.claim c.1, some c.2⟩ := by
    intro l
    induction l with
    | nil => exact fun t => (List.append_nil _).symm
    | cons c l ih =>
      intro t
      rw [List.foldl_cons, ih, List.map_cons, ran, Tx.push, List.append_assoc]
      rfl
  exact key claims _

theorem applyWrites_claims : ∀ (l : List (Nat × ClaimRow)) (db : Tables),
    applyWrites (D := database) db (l.map fun c => ⟨.claim c.1, some c.2⟩) =
      { db with settlementClaims := db.settlementClaims.insertAll l }
  | [], _ => rfl
  | _ :: l, _ => applyWrites_claims l _

/-- **The statements of an entry do to the tables what the entry does.** -/
theorem applyWrites_tx (e : Entry) (db : Tables) :
    applyWrites (D := database) db e.tx.writes = e.apply db := by
  cases e with
  | accept check id pair key row outstanding =>
    simp only [tx, serialTx, transcriptTx, ran, Tx.push, writes_capTx]
    rfl
  | doubleSpend check id pair key row seen =>
    simp only [tx, serialTx, transcriptTx, ran, Tx.push, writes_capTx]
    rfl
  | settle read claims cleared =>
    have hw : (settle read claims cleared).tx.writes = (claimsTx read claims).writes ++
        cleared.map fun r => ⟨.receivable r.1, none⟩ := rfl
    rw [hw, applyWrites_append, writes_claimsTx, applyWrites_claims, applyWrites_cleared]
    rfl
  | purge now expired => exact applyWrites_expired expired db
  | _ => rfl

end Entry

/-! ## When an entry may be committed -/

/-- What an entry asks of the tables it meets. -/
def Entry.Valid (db : Tables) : Entry → Prop
  | addMember b _ => db.members.lookup b = none
  | accept check id pair key _ outstanding =>
    check.passed ∧ db.transcripts.lookup id = none ∧ db.serials.lookup key = none ∧
      db.receivables.lookup pair = outstanding ∧ 0 ≤ key.denominationCents ∧
      outstanding.getD 0 + key.denominationCents ≤ i64Max
  | doubleSpend check id _ key _ _ =>
    check.passed ∧ db.transcripts.lookup id = none ∧
      ∃ first, db.serials.lookup key = some first
  | settle read claims cleared =>
    (read.map Prod.fst).Nodup ∧ (∀ r ∈ read, 0 < r.2 ∧ r.2 ≤ i64Max) ∧
      (∃ windowEnd, claims.map Prod.snd = (netting read read []).map (claimRow windowEnd)) ∧
      (claims.map Prod.fst).Nodup ∧
      (∀ c ∈ claims, db.settlementClaims.lookup c.1 = none) ∧
      (cleared.map Prod.fst).Nodup ∧
      ∀ r ∈ cleared, db.receivables.lookup r.1 = some r.2
  | setCap _ cap => 0 ≤ cap ∧ cap ≤ i64Max
  | recordNonce n _ now => ∀ expiresAt, db.nonceStore.lookup n = some expiresAt → expiresAt ≤ now
  | purge now expired =>
    ∀ n, n ∈ expired ↔ ∃ expiresAt ≤ now, db.nonceStore.lookup n = some expiresAt

/-- The serial and the depositor of a submission, as its transaction records them. -/
structure Records (caller : String) (submission : SerialSubmission) (pair : Pair)
    (key : SerialKey) (row : SerialRow) : Prop where
  pair : pair = submissionPair caller submission
  key : ∃ denom, i64TryFrom submission.denominationCents = some denom ∧
    key = serialKey submission denom
  firstBankId : row.firstBankId = caller
  firstTranscript : row.firstTranscript = submission.transcript

/-- The calls that may commit an entry. -/
def Entry.From : Op → Entry → Prop
  | .registerMember b k a, addMember b' row => b' = b ∧ row = ⟨k, a⟩
  | .postMember _ req, addMember b row => b = req.bankId ∧ row.isAdmin = false
  | .postSerial caller submission, accept _ _ pair key row _ =>
    Records caller submission pair key row
  | .postSerial caller submission, doubleSpend _ _ pair key row _ =>
    Records caller submission pair key row
  | .postSettle _, settle _ _ _ => True
  | .postCap _ req, setCap pair cap =>
    pair = ⟨req.issuingBankId, req.depositingBankId⟩ ∧ i64TryFrom req.capCents = some cap
  | .authenticate request, recordNonce n expiry now =>
    ∃ auth clock, readHeaders request = .ok auth ∧ auth.nonce = n ∧
      outsideWindow auth.timestamp clock = false ∧ i64TryFrom clock = some now ∧
      i64TryFrom (saturatingAdd clock nonceTtlSecs) = some expiry
  | .authenticate _, purge _ _ => True
  | .connect, purge _ _ => True
  | _, _ => False

/-! ## Well-formed tables -/

structure Tables.WellFormed (db : Tables) : Prop where
  receivable : ∀ p amount, db.receivables.lookup p = some amount → 0 ≤ amount ∧ amount ≤ i64Max

theorem Entry.wellFormed {db : Tables} {e : Entry} (hw : db.WellFormed) (h : e.Valid db) :
    (e.apply db).WellFormed := by
  cases e with
  | accept check id pair key row outstanding =>
    obtain ⟨-, -, -, hout, hdenom, hmax⟩ := h
    refine ⟨fun p amount hp => ?_⟩
    rw [apply, Table.lookup_put] at hp
    split at hp
    · obtain rfl := Option.some.inj hp
      refine ⟨?_, hmax⟩
      cases outstanding with
      | none => simpa using hdenom
      | some old => exact Int.add_nonneg (hw.receivable pair old hout).1 hdenom
    · exact hw.receivable p amount hp
  | settle read claims cleared =>
    refine ⟨fun p amount hp => ?_⟩
    rw [apply, Table.lookup_eraseAll] at hp
    split at hp
    · exact absurd hp (by simp)
    · exact hw.receivable p amount hp
  | _ => exact ⟨hw.receivable⟩

/-- A serial once recorded is never changed or removed. -/
theorem Entry.serial_stays {db : Tables} {e : Entry} (h : e.Valid db) {k : SerialKey}
    {row : SerialRow} (hk : db.serials.lookup k = some row) :
    (e.apply db).serials.lookup k = some row := by
  cases e with
  | accept check id pair key row' outstanding =>
    have hne : k ≠ key := fun he => by
      subst he
      rw [h.2.2.1] at hk
      exact absurd hk (by simp)
    rw [apply, Table.lookup_put_ne hne, hk]
  | _ => exact hk

/-! ## The protocol -/

abbrev State (X : Crypto) := Shared database (service X).Op

/-- The call recorded the nonce of its request. -/
def Recorded (call : CallId) (request : Request) (sh : State X) : Prop :=
  ∃ c ∈ sh.hist, c.call = call ∧ c.op = .authenticate request ∧
    ∃ n expiry now, c.tx = (Entry.recordNonce n expiry now).tx

/-- The call committed its submission as accepted. -/
def Accepted (call : CallId) (caller : String) (submission : SerialSubmission)
    (sh : State X) : Prop :=
  ∃ c ∈ sh.hist, c.call = call ∧ c.op = .postSerial caller submission ∧
    ∃ check id pair key row outstanding, Records caller submission pair key row ∧
      c.tx = (Entry.accept check id pair key row outstanding).tx

/-- The call committed its submission as a double-spend, and answers with what it read. -/
def DoubleSpent (call : CallId) (caller : String) (submission : SerialSubmission)
    (entries : List TranscriptEntry) (sh : State X) : Prop :=
  ∃ c ∈ sh.hist, c.call = call ∧ c.op = .postSerial caller submission ∧
    ∃ check id pair key row seen, Records caller submission pair key row ∧
      c.tx = (Entry.doubleSpend check id pair key row seen).tx ∧
      seen.mapM toEntry = .ok entries

/-- What a submission that answers `response` has left. -/
structure Submitted (call : CallId) (caller : String) (submission : SerialSubmission)
    (response : SerialResponse) (sh : State X) : Prop where
  accepted : response.outcome = .accepted → Accepted call caller submission sh
  doubleSpent : response.outcome = .doubleSpend →
    DoubleSpent call caller submission response.transcripts sh

/-- What an answer promises. -/
def Post (call : CallId) : Op → Ans → State X → Prop
  | .authenticate request, .authenticate (.ok _), sh => Recorded call request sh
  | .postSerial caller submission, .postSerial (.ok response), sh =>
    Submitted call caller submission response sh
  | _, _, _ => True

@[reducible] def ledger (X : Crypto) : Ledger (service X) where
  Entry := Entry
  tx := Entry.tx
  apply := Entry.apply
  applyWrites_tx := Entry.applyWrites_tx
  Valid _ db e := e.Valid db
  From _ _ _ op e := e.From op

@[reducible] def protocol (X : Crypto) : Protocol (service X) :=
  (ledger X).protocol Tables.WellFormed fun _ => Post

end Digicash.Registry
