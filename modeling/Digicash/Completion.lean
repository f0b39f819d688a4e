import Digicash.Bank.Refinement
import Digicash.NonceKeeping
import Digicash.Pooling
import Digicash.Registry.Refinement

/-!
# Every call gets its answer

The bank: a deposit locks its coin, then the account, then its record; a withdrawal locks the
account, then its record, and a reversal does the same. So the coins come first, the accounts
next and the records last.

The registry: a submission inserts a transcript under a drawn key and then locks the serial and
the receivable, in this order; settling inserts claims under drawn keys and then locks
receivables only.

So calls that wait for one another's rows never do so in a circle. What is left to wait for is a
connection. No call of the registry has one while it asks for another, so whatever is in flight,
in whatever order the calls are scheduled and whatever fails, every call is answered in the end.
Of the bank's calls those that withdraw, authenticate or start up may. They too are all answered
where fewer than sixteen of these are in flight, but sixteen withdrawals can take up the pool
and wait for each other for good (`sixteen_starve`).
-/

namespace Digicash

open Lib Relation

section

variable {D : Database} {ε : Type} {O : LockOrder D}

/-- Authentication runs no transaction of its own. -/
theorem climbs_authenticate {X : Crypto} {internal : ε → AuthRejection} {noKey : String}
    {pubkeyOf : String → Fallible D ε (Option Bytes)} {nowUnix : Fallible D ε UInt64}
    {checkAndRecordNonce : String → UInt64 → UInt64 → Fallible D ε Bool} {r : Request}
    (hkey : ∀ a, ClimbsAlone O (pubkeyOf a).run) (hnow : ClimbsAlone O nowUnix.run)
    (hnonce : ∀ n now ttl, ClimbsAlone O (checkAndRecordNonce n now ttl).run) :
    ClimbsAlone O (authenticate X internal noKey pubkeyOf nowUnix checkAndRecordNonce r).run := by
  refine ClimbsAlone.bind .orThrow fun auth => ?_
  refine ClimbsAlone.bind (ClimbsAlone.mapErr (hkey _)) fun found => ?_
  cases found with
  | none => exact .pure
  | some pubkey =>
    refine ClimbsAlone.bind (ClimbsAlone.mapErr hnow) fun now => ?_
    show ClimbsAlone O (ite _ _ _ : Fallible D AuthRejection String).run
    split
    · exact .pure
    refine ClimbsAlone.bind .orThrow fun signature => ?_
    split
    · exact .pure
    refine ClimbsAlone.bind (ClimbsAlone.mapErr (hnonce _ _ _)) fun fresh => ?_
    split <;> exact .pure

variable [FromSql ε] {K : NonceKeeping D ε}

theorem climbs_purge (now : UInt64) : ClimbsAlone O (K.purge now).run := by
  refine ClimbsAlone.bind .orThrow fun _ => ?_
  exact ClimbsAlone.bind .query fun _ => .pure

theorem climbs_check (nonce : String) (now ttl : UInt64) :
    ClimbsAlone O (K.check nonce now ttl).run := by
  refine ClimbsAlone.bind .orThrow fun _ => ?_
  refine ClimbsAlone.bind .orThrow fun _ => ?_
  refine ClimbsAlone.bind .query fun affected => ?_
  refine ClimbsAlone.bind .perform fun ops => ?_
  split
  · refine ClimbsAlone.bind .orThrow fun now => ?_
    exact ClimbsAlone.bind (climbs_purge now) fun _ => .pure
  · exact .pure

end

namespace Bank

variable {X : Crypto} {κ : Config X}

/-- Coins, then accounts, then everything else. -/
def lockOrder : LockOrder database where
  rank
    | .spent _ => 0
    | .account _ => 1
    | _ => 2
  drawn _ := False

/-- The rows a statement can need. -/
def Stmt.rows : Stmt → Set Row
  | .insertAccount a _ | .selectBalanceForUpdate a | .debit _ a | .credit _ a => {.account a}
  | .insertIdentity a _ => {.identity a}
  | .insertSpent c _ => {.spent c}
  | .setSigned r _ | .setState r _ | .insertPending r _ _ _ => {.withdrawal r}
  | .insertDeposit r _ _ => {.deposit r}
  | .upsertNonce n _ _ => {.nonce n}
  | .purgeNonces _ => Set.range .nonce
  | .selectInFlight | .selectBalance _ | .selectPubkey _ | .selectSpent _
  | .selectWithdrawal _ | .selectDeposit _ => ∅

theorem rows_addBalance (db : Tables) (accountId : String) (delta : Int) :
    ∀ r ∈ (addBalance db accountId delta).rows, r = .account accountId := by
  intro r hr
  unfold addBalance at hr
  split at hr
  · simp at hr
  · split at hr
    · simpa using hr
    · split at hr <;> simpa using hr

theorem rows_updateWithdrawal (db : Tables) (requestId : String)
    (f : WithdrawRow → WithdrawRow) :
    ∀ r ∈ (updateWithdrawal db requestId f).rows, r = .withdrawal requestId := by
  intro r hr
  unfold updateWithdrawal at hr
  split at hr
  · simp at hr
  · simpa using hr

/-- It needs no others. -/
theorem exec_rows (s : Stmt) (o : Oracle) (db : Tables) :
    ∀ r ∈ (exec s o db).rows, r ∈ s.rows := by
  intro r hr
  cases s with
  | debit denom a => exact rows_addBalance db a (-denom) r hr
  | credit denom a => exact rows_addBalance db a denom r hr
  | setSigned id signature => exact rows_updateWithdrawal db id _ r hr
  | setState id state => exact rows_updateWithdrawal db id _ r hr
  | purgeNonces now =>
    obtain ⟨w, hw, rfl⟩ := List.mem_map.mp (show r ∈ List.map Sigma.fst _ from hr)
    obtain ⟨e, -, rfl⟩ := List.mem_map.mp hw
    exact Set.mem_range_self e.1
  | insertAccount a balance =>
    simp only [exec] at hr
    repeat' split at hr
    all_goals simp_all [Stmt.rows]
  | upsertNonce n expiry now =>
    simp only [exec] at hr
    repeat' split at hr
    all_goals simp_all [Stmt.rows]
  | insertIdentity | selectBalanceForUpdate | insertPending | insertSpent | insertDeposit =>
    simp only [exec] at hr
    split at hr
    all_goals simp_all [Stmt.rows]
  | selectInFlight | selectBalance | selectPubkey | selectSpent | selectWithdrawal
  | selectDeposit => simp [exec] at hr

/-- A statement of a transaction that has `held`. -/
theorem climbs_sql {α : Type} {held held' : Set Row} {s : Stmt} {f : s.Res → BankM α}
    (habove : ∀ r ∈ s.rows, ∀ r' ∈ held, r' = r ∨ lockOrder.rank r' < lockOrder.rank r)
    (hf : ∀ a, ClimbsWith lockOrder (held ∪ s.rows) held' (f a)) :
    ClimbsWith lockOrder held held' (sql s >>= f) :=
  .bind (.query s.rows (exec_rows s)
    fun r hr => Or.inr fun r' hr' => (habove r hr r' hr').imp id Or.inr) hf

/-! ## The transactions -/

theorem climbs_commitDeposit (req : DepositRequest) :
    ClimbsAlone lockOrder (commitDeposit req).run := by
  refine ClimbsAlone.bind .orThrow fun denom => ClimbsWith.transaction ?_
  refine climbs_sql (by simp) fun prior => ?_
  match prior with
  | some prior =>
    show ClimbsWith _ _ _ (ite _ _ _ : BankM _)
    split <;> exact .pure (Set.subset_univ _)
  | none =>
    refine climbs_sql (by simp [Stmt.rows]) fun inserted => ?_
    split
    · exact .pure (Set.subset_univ _)
    refine climbs_sql (by simp [Stmt.rows, lockOrder]) fun credited => ?_
    split
    · exact .pure (Set.subset_univ _)
    exact climbs_sql (by simp [Stmt.rows, lockOrder]) fun _ => .pure (Set.subset_univ _)

theorem climbs_debitAndRecordPending (req : WithdrawRequest) :
    ClimbsAlone lockOrder (debitAndRecordPending req).run := by
  refine ClimbsAlone.bind .orThrow fun denom => ClimbsWith.transaction ?_
  refine climbs_sql (by simp) fun balance => ?_
  match balance with
  | none => exact .throw
  | some balance =>
    show ClimbsWith _ _ _ (ite _ _ _ : BankM _)
    split
    · exact .orThrow_bind fun _ => .throw
    -- The balance is locked already.
    refine climbs_sql (by simp [Stmt.rows]) fun _ => ?_
    exact climbs_sql (by simp [Stmt.rows, lockOrder]) fun _ => .pure (Set.subset_univ _)

theorem climbs_compensate (requestId accountId : String) (denominationCents : UInt64) :
    ClimbsAlone lockOrder (compensate requestId accountId denominationCents).run := by
  refine ClimbsAlone.bind .orThrow fun denom => ClimbsWith.transaction ?_
  refine climbs_sql (by simp) fun _ => ?_
  exact climbs_sql (by simp [Stmt.rows, lockOrder]) fun _ => .pure (Set.subset_univ _)

/-! ## The rest of the code -/

theorem climbs_setState (requestId : String) (state : WithdrawState) :
    ClimbsAlone lockOrder (setState requestId state).run :=
  ClimbsAlone.bind .query fun _ => .pure

theorem climbs_finalizeWithdraw (requestId accountId : String) (denominationCents : UInt64)
    (blindedMessage : Bytes) :
    ClimbsAlone lockOrder
      (finalizeWithdraw κ requestId accountId denominationCents blindedMessage).run := by
  unfold finalizeWithdraw
  split
  · exact .pure
  split
  · refine ClimbsAlone.bind .query fun _ => ?_
    exact ClimbsAlone.bind (climbs_setState _ _) fun _ => .pure
  · exact ClimbsAlone.bind (climbs_compensate _ _ _) fun _ => .pure

theorem climbs_resumeWithdraw (requestId : String) (record : WithdrawalRecord) :
    ClimbsAlone lockOrder (resumeWithdraw κ requestId record).run := by
  obtain ⟨state, accountId, denominationCents, blindedMessage, signature⟩ := record
  cases state with
  | pending => exact ClimbsAlone.bind (climbs_finalizeWithdraw _ _ _ _) fun _ => .pure
  | compensated => exact .pure
  | completed => cases signature <;> exact .pure
  | signed =>
    cases signature with
    | none => exact .pure
    | some signature => exact ClimbsAlone.bind (climbs_setState _ _) fun _ => .pure

theorem climbs_loadRecord (requestId : String) :
    ClimbsAlone lockOrder (loadRecord requestId).run := by
  refine ClimbsAlone.bind .query fun row => ?_
  cases row with
  | none => exact .pure
  | some row => exact ClimbsAlone.bind .orThrow fun _ => .pure

theorem climbs_withdraw (req : WithdrawRequest) :
    ClimbsAlone lockOrder (withdraw κ req).run := by
  refine ClimbsAlone.bind (climbs_loadRecord _) fun record => ?_
  cases record with
  | some record => exact climbs_resumeWithdraw _ record
  | none =>
    dsimp only
    split
    · exact .pure
    · refine ClimbsAlone.bind (climbs_debitAndRecordPending req) fun _ => ?_
      exact ClimbsAlone.bind (climbs_finalizeWithdraw _ _ _ _) fun _ => .pure

theorem climbs_recoverAll : ∀ rs : List ToResume,
    ClimbsAlone lockOrder (recoverAll κ rs).run := by
  intro rs
  induction rs with
  | nil => exact .pure
  | cons r rs ih =>
    refine ClimbsAlone.bind ?_ fun _ => ih
    unfold recoverOne
    split
    · refine ClimbsAlone.bind (ClimbsAlone.attempt ?_) fun _ => .pure
      exact climbs_finalizeWithdraw _ _ _ _
    · exact climbs_setState _ _
    · exact .pure
    · exact .pure

theorem climbs_connect : ClimbsAlone lockOrder (connect κ).run := by
  refine ClimbsAlone.bind ?_ fun _ => ?_
  · refine ClimbsAlone.bind .query fun rows => ?_
    exact ClimbsAlone.bind .orThrow fun todo => climbs_recoverAll todo
  refine ClimbsAlone.bind .perform fun now => ?_
  exact ClimbsAlone.bind (climbs_purge (K := nonces) now) fun _ => .perform

theorem climbs_identityPubkey (accountId : String) :
    ClimbsAlone lockOrder (identityPubkey X accountId).run := by
  refine ClimbsAlone.bind .query fun row => ?_
  cases row with
  | none => exact .pure
  | some bytes =>
    show ClimbsAlone _ (ite _ _ _ : BankM _).run
    split
    · exact ClimbsAlone.bind .orThrow fun _ => .pure
    · exact .pure

theorem climbs_depositLocally (req : DepositRequest) :
    ClimbsAlone lockOrder (depositLocally req).run :=
  ClimbsAlone.bind (climbs_commitDeposit req) fun _ => .pure

theorem climbs_deposit (req : DepositRequest) : ClimbsAlone lockOrder (deposit κ req).run := by
  simp only [deposit]
  split
  · exact .pure
  split
  · exact .pure
  split
  · exact .pure
  split
  · exact climbs_depositLocally req
  refine ClimbsAlone.bind .perform fun now => ?_
  refine ClimbsAlone.bind ?_ fun outcome => ?_
  · refine ClimbsAlone.bind .perform fun reply => ?_
    exact ClimbsAlone.bind .orThrow fun _ => .pure
  cases outcome with
  | accepted => exact climbs_depositLocally req
  | doubleSpend => exact .pure
  | exposureCapExceeded => exact .pure

theorem climbs_createAccount (accountId : String) (initialBalanceCents : UInt64) :
    ClimbsAlone lockOrder (createAccount accountId initialBalanceCents).run := by
  refine ClimbsAlone.bind .orThrow fun _ => ClimbsAlone.bind .query fun inserted => ?_
  split <;> exact .pure

theorem climbs_balance (accountId : String) : ClimbsAlone lockOrder (balance accountId).run := by
  refine ClimbsAlone.bind .query fun row => ?_
  cases row with
  | none => exact .pure
  | some n => exact ClimbsAlone.bind .orThrow fun _ => .pure

theorem climbs_registerIdentity (accountId : String) (pubkey : Bytes) :
    ClimbsAlone lockOrder (registerIdentity accountId pubkey).run := by
  refine ClimbsAlone.bind .query fun inserted => ?_
  split <;> exact .pure

theorem climbs_code (op : Op) : ClimbsAlone lockOrder (code κ op) := by
  cases op with
  | connect => exact ClimbsAlone.map climbs_connect
  | createAccount a b => exact ClimbsAlone.map (climbs_createAccount a b)
  | balance a => exact ClimbsAlone.map (climbs_balance a)
  | registerIdentity a k => exact ClimbsAlone.map (climbs_registerIdentity a k)
  | authenticate r =>
    exact ClimbsAlone.map
      (climbs_authenticate climbs_identityPubkey .perform (climbs_check (K := nonces)))
  | withdraw req => exact ClimbsAlone.map (climbs_withdraw req)
  | deposit req => exact ClimbsAlone.map (climbs_deposit req)

/-! ## Connections -/

namespace Pooled

theorem frugal_setState {n : ℕ} (hn : n < 2) (requestId : String) (state : WithdrawState) :
    FrugalAlone 2 n (setState requestId state).run :=
  .borrowing (climbs_setState requestId state).closes hn

theorem frugal_finalizeWithdraw (requestId accountId : String) (denominationCents : UInt64)
    (blindedMessage : Bytes) :
    FrugalAlone 2 0
      (finalizeWithdraw κ requestId accountId denominationCents blindedMessage).run := by
  unfold finalizeWithdraw
  split
  · exact .pure
  split
  · refine .holding (by decide) (.bind (.query (by decide)) fun _ => ?_)
    exact .bind (frugal_setState (by decide) _ _) fun _ => .pure
  · exact .bind (.borrowing (climbs_compensate _ _ _).closes (by decide)) fun _ => .pure

theorem frugal_resumeWithdraw (requestId : String) (record : WithdrawalRecord) :
    FrugalAlone 2 0 (resumeWithdraw κ requestId record).run := by
  obtain ⟨state, accountId, denominationCents, blindedMessage, signature⟩ := record
  cases state with
  | pending => exact .bind (frugal_finalizeWithdraw _ _ _ _) fun _ => .pure
  | compensated => exact .pure
  | completed => cases signature <;> exact .pure
  | signed =>
    cases signature with
    | none => exact .pure
    | some signature => exact .bind (frugal_setState (by decide) _ _) fun _ => .pure

theorem frugal_withdraw (req : WithdrawRequest) : FrugalAlone 2 0 (withdraw κ req).run := by
  refine .bind (.borrowing (climbs_loadRecord _).closes (by decide)) fun record => ?_
  cases record with
  | some record => exact frugal_resumeWithdraw _ record
  | none =>
    dsimp only
    split
    · exact .pure
    · refine .bind (.borrowing (climbs_debitAndRecordPending req).closes (by decide)) fun _ => ?_
      exact .bind (frugal_finalizeWithdraw _ _ _ _) fun _ => .pure

theorem frugal_recoverAll (rs : List ToResume) : FrugalAlone 2 0 (recoverAll κ rs).run := by
  induction rs with
  | nil => exact .pure
  | cons r rs ih =>
    refine .bind ?_ fun _ => ih
    unfold recoverOne
    split
    · exact .bind (.attempt (frugal_finalizeWithdraw _ _ _ _)) fun _ => .pure
    · exact frugal_setState (by decide) _ _
    · exact .pure
    · exact .pure

theorem frugal_purgeExpiredNonces {n : ℕ} (hn : n < 2) (now : UInt64) :
    FrugalAlone 2 n (purgeExpiredNonces now).run :=
  .borrowing (climbs_purge (O := lockOrder) (K := nonces) now).closes hn

theorem frugal_connect : FrugalAlone 2 0 (connect κ).run := by
  refine .bind ?_ fun _ => ?_
  · refine .bind (.borrowing (ClimbsAlone.query (O := lockOrder)).closes (by decide)) fun rows => ?_
    exact .bind .orThrow fun todo => frugal_recoverAll todo
  refine .bind .perform fun now => ?_
  exact .bind (frugal_purgeExpiredNonces (by decide) now) fun _ => .perform

theorem frugal_checkAndRecordNonce (nonce : String) (now ttlSecs : UInt64) :
    FrugalAlone 2 0 (checkAndRecordNonce nonce now ttlSecs).run := by
  refine .bind .orThrow fun _ => .bind .orThrow fun _ => .holding (by decide) ?_
  refine .bind (.query (by decide)) fun affected => .bind .perform fun ops => ?_
  split
  · refine .bind .orThrow fun now => ?_
    exact .bind (frugal_purgeExpiredNonces (by decide) now) fun _ => .pure
  · exact .pure

theorem frugal_authenticate (r : Request) : FrugalAlone 2 0 (authenticate X r).run := by
  refine .bind .orThrow fun auth => ?_
  refine .bind (.mapErr (.borrowing (climbs_identityPubkey _).closes (by decide))) fun found => ?_
  cases found with
  | none => exact .pure
  | some pubkey =>
    refine .bind (.mapErr .perform) fun now => ?_
    show FrugalAlone 2 0 (ite _ _ _ : Fallible database.pooled AuthRejection String).run
    split
    · exact .pure
    refine .bind .orThrow fun signature => ?_
    split
    · exact .pure
    refine .bind (.mapErr (frugal_checkAndRecordNonce _ _ _)) fun fresh => ?_
    split <;> exact .pure

end Pooled

/-- How many connections a call may have at once. -/
def Op.connections : Op → ℕ
  | .connect | .authenticate _ | .withdraw _ => 2
  | _ => 1

theorem Pooled.frugal_code (op : Op) : FrugalAlone op.connections 0 (code κ op) := by
  cases op with
  | connect => exact .map frugal_connect
  | authenticate r => exact .map (frugal_authenticate r)
  | withdraw req => exact .map (frugal_withdraw req)
  | createAccount a b => exact .map (.borrowing (climbs_createAccount a b).closes Nat.one_pos)
  | balance a => exact .map (.borrowing (climbs_balance a).closes Nat.one_pos)
  | registerIdentity a k => exact .map (.borrowing (climbs_registerIdentity a k).closes Nat.one_pos)
  | deposit req => exact .map (.borrowing (climbs_deposit req).closes Nat.one_pos)

/-! ## Completion -/

theorem exists_runExt (i : CallId) (e : Ext) (o : Oracle) (m : Memory) :
    ∃ r, runExt i e o m = some r := by
  cases e <;> exact ⟨_, rfl⟩

/-- **The bank never gets stuck, and answers every call**, where fewer than sixteen of those in
    flight may have two connections: in every state it gets to behind its pool, after any crashes
    and abandoned calls. -/
theorem all_calls_complete {s : Sys (Pooled.service X)}
    (h : Sys.Runs poolMaxSize (Pooled.start κ) s)
    (hspare : s.spare Op.connections < poolMaxSize) : s.Completes poolMaxSize lockOrder :=
  Sys.completes (fun _ => Pooled.frugal_code) Pooled.erase_code (fun _ => climbs_code) exists_runExt
    Sys.calls_init ⟨fun _ _ hl => (by cases hl), fun _ _ => rfl⟩ (fun _ => rfl) good
    (fun _ => ⟨fun _ => default, fun _ _ _ hd => False.elim hd⟩) h hspare

/-- Two withdrawals from one account: the second waits for the first. -/
theorem all_calls_complete_waiting : ∃ s : Sys (Pooled.service .toy), s.live 3 ≠ none ∧
    s.step (.step 3 .none default) = none ∧ s.Completes poolMaxSize lockOrder := by
  obtain ⟨s, hs, hp⟩ := Sys.exists_of_runWhile (s := Pooled.start .toy)
    (g := Sys.served poolMaxSize)
    (l := Pooled.opened 500 ++ Pooled.call (.withdraw ⟨"alice", "r1", 100, [1]⟩) :: Pooled.go 2 6 ++
      Pooled.call (.withdraw ⟨"alice", "r2", 100, [2]⟩) :: Pooled.go 3 5)
    (p := fun s => (s.live 3).isSome && (s.step (.step 3 .none default)).isNone &&
      decide (s.spare Op.connections < poolMaxSize)) (by decide +kernel)
  simp only [Bool.and_eq_true, decide_eq_true_eq, Option.isNone_iff_eq_none,
    Option.isSome_iff_ne_none] at hp
  exact ⟨s, hp.1.1, hp.1.2, all_calls_complete hs hp.2⟩

/-- A withdrawal, up to where its signature is stored. -/
def storing (i : CallId) : List (Event (Pooled.service .toy)) :=
  Pooled.call (.withdraw ⟨"alice", String.ofList (.replicate i 'r'), 100, [1]⟩) :: Pooled.go i 12

/-- **Sixteen withdrawals can wait for each other for good**: each has a connection, over which
    it stored its signature, and waits for another to set the state. Nothing but a crash, or that
    one of them is abandoned, takes them out of it. -/
theorem sixteen_starve : ∃ s : Sys (Pooled.service .toy),
    Sys.Runs poolMaxSize (Pooled.start .toy) s ∧ s.spare Op.connections = poolMaxSize ∧
      (∀ i, 2 ≤ i → i < 18 → s.live i ≠ none) ∧
      ∀ s', Sys.StepsIn (fun s e _ => s.served poolMaxSize e = true ∧ e.spares 18) s s' →
        ∀ i, i < 18 → s'.live i = s.live i := by
  obtain ⟨s, hs, hp⟩ := Sys.exists_of_runWhile (s := Pooled.start .toy)
    (g := Sys.served poolMaxSize)
    (l := Pooled.opened 2000 ++ (List.range' 2 16).flatMap storing)
    (p := fun s => decide (s.spare Op.connections = poolMaxSize) && decide (18 ≤ s.next) &&
      (List.range' 2 16).all (fun i => (s.live i).isSome) && s.starved poolMaxSize 18)
    (by decide +kernel)
  simp only [Bool.and_eq_true, decide_eq_true_eq, List.all_eq_true, Option.isSome_iff_ne_none] at hp
  obtain ⟨⟨⟨hspare, hnext⟩, hlive⟩, hstarved⟩ := hp
  exact ⟨s, hs, hspare, fun i hi hi' => hlive i (List.mem_range'_1.mpr ⟨hi, by omega⟩),
    fun _ => Sys.starved_steps hstarved hnext⟩

end Bank

namespace Registry

variable {X : Crypto}

/-- Serials, then receivables; transcripts and claims are drawn. -/
def lockOrder : LockOrder database where
  rank
    | .serial _ => 0
    | _ => 1
  drawn
    | .transcript _ | .claim _ => True
    | _ => False

/-! ## The rows of each statement -/

/-- The rows a statement can need. -/
def Stmt.rows : Stmt → Set Row
  | .insertMember b _ _ => {.member b}
  | .insertTranscript _ => Set.range .transcript
  | .insertSerial k _ => {.serial k}
  | .addReceivable p _ => {.receivable p}
  | .insertClaim _ => Set.range .claim
  | .deleteReceivables => Set.range .receivable
  | .upsertCap p _ => {.exposureCap p}
  | .upsertNonce n _ _ => {.nonce n}
  | .purgeNonces _ => Set.range .nonce
  | .selectMemberPubkey _ | .selectIsAdmin _ | .selectCap _ | .selectReceivable _
  | .selectTranscripts _ | .selectReceivables => ∅

/-- It needs no others. -/
theorem exec_rows (s : Stmt) (o : Oracle) (db : Tables) :
    ∀ r ∈ (exec s o db).rows, r ∈ s.rows := by
  intro r hr
  cases s with
  | insertTranscript row =>
    obtain rfl := List.mem_singleton.mp hr
    exact Set.mem_range_self _
  | insertClaim row =>
    obtain rfl := List.mem_singleton.mp hr
    exact Set.mem_range_self _
  | deleteReceivables =>
    obtain ⟨w, hw, rfl⟩ := List.mem_map.mp (show r ∈ List.map Sigma.fst _ from hr)
    obtain ⟨e, -, rfl⟩ := List.mem_map.mp hw
    exact Set.mem_range_self e.1
  | purgeNonces now =>
    obtain ⟨w, hw, rfl⟩ := List.mem_map.mp (show r ∈ List.map Sigma.fst _ from hr)
    obtain ⟨e, -, rfl⟩ := List.mem_map.mp hw
    exact Set.mem_range_self e.1
  | insertMember | insertSerial | upsertCap =>
    simp only [exec] at hr
    split at hr
    all_goals simp_all [Stmt.rows]
  | addReceivable | upsertNonce =>
    simp only [exec] at hr
    repeat' split at hr
    all_goals simp_all [Stmt.rows]
  | selectMemberPubkey | selectIsAdmin | selectCap | selectReceivable | selectTranscripts
  | selectReceivables => simp [exec] at hr

/-- A statement of a transaction that has `held`. -/
theorem climbs_sql {α : Type} {held held' : Set Row} {s : Stmt} {f : s.Res → RegistryM α}
    (habove : ∀ r ∈ s.rows, lockOrder.drawn r ∨
      ∀ r' ∈ held, r' = r ∨ lockOrder.drawn r' ∨ lockOrder.rank r' < lockOrder.rank r)
    (hf : ∀ a, ClimbsWith lockOrder (held ∪ s.rows) held' (f a)) :
    ClimbsWith lockOrder held held' (sql s >>= f) :=
  .bind (.query s.rows (exec_rows s) habove) hf

/-! ## The transactions -/

theorem climbs_capReached (pair : Pair) : ClimbsWith lockOrder ∅ ∅ (capReached pair) := by
  refine climbs_sql (by simp [Stmt.rows]) fun cap => ?_
  match cap with
  | none => exact .pure (by simp [Stmt.rows])
  | some cap => exact climbs_sql (by simp [Stmt.rows]) fun _ => .pure (by simp [Stmt.rows])

theorem climbs_submitSerial (depositingBankId : String) (submission : SerialSubmission)
    (now : UInt64) :
    ClimbsAlone lockOrder (submitSerial depositingBankId submission now).run := by
  refine ClimbsAlone.bind .orThrow fun denom => ?_
  refine ClimbsAlone.bind .orThrow fun seen => ?_
  refine ClimbsWith.transaction (.bind (climbs_capReached _) fun reached => ?_)
  split
  · exact .pure (Set.subset_univ _)
  refine climbs_sql (by simp [Stmt.rows, lockOrder]) fun _ => ?_
  refine climbs_sql (by simp [Stmt.rows, lockOrder]) fun inserted => ?_
  split
  · exact climbs_sql (by simp [Stmt.rows, lockOrder]) fun _ => .pure (Set.subset_univ _)
  · refine climbs_sql (by simp [Stmt.rows]) fun rows => ?_
    exact .orThrow_bind fun entries => .pure (Set.subset_univ _)

/-- The loop of `settle` takes nothing but drawn rows. -/
theorem climbs_settlePairs {amounts : List (Pair × Int)} {windowEnd : Int} {now : UInt64} :
    ∀ (todo : List (Pair × Int)) (done : List Pair),
      ClimbsWith lockOrder (Set.range .claim) (Set.range .claim)
        (settlePairs amounts windowEnd now todo done) := by
  intro todo
  induction todo with
  | nil => exact fun done => .pure (Set.Subset.refl _)
  | cons p todo ih =>
    intro done
    obtain ⟨pair, forward⟩ := p
    show ClimbsWith _ _ _ (ite _ _ _ : RegistryM _)
    split
    · exact ih done
    dsimp only
    split
    · exact ih _
    · refine climbs_sql (by simp [Stmt.rows, lockOrder]) fun _ => .orThrow_bind fun net => ?_
      refine .bind ((ih _).weaken ?_) fun claims => .pure (Set.Subset.refl _)
      simp [Stmt.rows]

theorem climbs_settle (now : UInt64) : ClimbsAlone lockOrder (settle now).run := by
  refine ClimbsAlone.bind .orThrow fun windowEnd => ?_
  refine ClimbsWith.transaction (climbs_sql (by simp) fun amounts => ?_)
  refine .bind ((climbs_settlePairs _ _).weaken (by simp [Stmt.rows])) fun claims => ?_
  exact climbs_sql (by simp [Stmt.rows, lockOrder]) fun _ => .pure (Set.subset_univ _)

/-! ## The rest of the code -/

theorem climbs_memberPubkey (bankId : String) :
    ClimbsAlone lockOrder (memberPubkey X bankId).run := by
  refine ClimbsAlone.bind .query fun row => ?_
  cases row with
  | none => exact .pure
  | some bytes =>
    show ClimbsAlone _ (ite _ _ _ : RegistryM _).run
    split
    · exact ClimbsAlone.bind .orThrow fun _ => .pure
    · exact .pure

theorem climbs_registerMember (bankId : String) (publicKey : Bytes) (isAdmin : Bool) :
    ClimbsAlone lockOrder (registerMember bankId publicKey isAdmin).run := by
  refine ClimbsAlone.bind .query fun inserted => ?_
  split <;> exact .pure

theorem climbs_ensureAdmin (caller : String) :
    ClimbsAlone lockOrder (Api.ensureAdmin caller).run := by
  refine ClimbsAlone.bind (ClimbsAlone.mapErr ?_) fun admin => ?_
  · exact ClimbsAlone.bind .query fun _ => .pure
  · split <;> exact .pure

theorem climbs_code (op : Op) : ClimbsAlone lockOrder (code X op) := by
  cases op with
  | connect =>
    refine ClimbsAlone.map (ClimbsAlone.bind .perform fun now => ?_)
    exact ClimbsAlone.bind (climbs_purge (K := nonces) now) fun _ => .perform
  | registerMember b k a => exact ClimbsAlone.map (climbs_registerMember b k a)
  | authenticate r =>
    exact ClimbsAlone.map
      (climbs_authenticate climbs_memberPubkey .perform (climbs_check (K := nonces)))
  | postMember caller req =>
    refine ClimbsAlone.map (ClimbsAlone.bind (climbs_ensureAdmin caller) fun _ => ?_)
    refine ClimbsAlone.bind .orThrow fun pubkey => ?_
    exact ClimbsAlone.mapErr (climbs_registerMember _ _ _)
  | postSerial caller submission =>
    refine ClimbsAlone.map (ClimbsAlone.bind (ClimbsAlone.mapErr .perform) fun now => ?_)
    exact ClimbsAlone.mapErr (climbs_submitSerial _ _ _)
  | postCap caller req =>
    refine ClimbsAlone.map (ClimbsAlone.bind (climbs_ensureAdmin caller) fun _ => ?_)
    refine ClimbsAlone.mapErr (ClimbsAlone.bind .orThrow fun cap => ?_)
    exact ClimbsAlone.bind .query fun _ => .pure
  | postSettle caller =>
    refine ClimbsAlone.map (ClimbsAlone.bind (climbs_ensureAdmin caller) fun _ => ?_)
    refine ClimbsAlone.bind (ClimbsAlone.mapErr .perform) fun now => ?_
    exact ClimbsAlone.mapErr (climbs_settle now)

/-! ## Completion -/

theorem exists_runExt (i : CallId) (e : Ext) (o : Oracle) (m : Memory) :
    ∃ r, runExt i e o m = some r := by
  cases e <;> exact ⟨_, rfl⟩

/-- The key of a drawn row. -/
def Row.id : Row → ℕ
  | .transcript id | .claim id => id
  | _ => 0

/-- A sequence can always give out a key nobody has. -/
theorem exists_draws (s : Sys (service X)) :
    ∃ o : CallId → Oracle, ∀ i, s.Draws lockOrder i (o i) := by
  let locked := (List.range s.next).flatMap fun j => locksOf (s.txOf j)
  let fresh := (locked.toFinset.sup Row.id) + 1
  have hfree : ∀ (i : CallId) (r : Row), fresh ≤ r.id → s.free i r = true := by
    intro i r hr
    refine List.all_eq_true.mpr fun j hj => ?_
    have hnot : r ∉ locksOf (s.txOf j) := by
      intro hmem
      have hin : r ∈ locked.toFinset := List.mem_toFinset.mpr (List.mem_flatMap.mpr ⟨j, hj, hmem⟩)
      have hle : r.id ≤ locked.toFinset.sup Row.id := Finset.le_sup hin
      omega
    simp [hnot]
  refine ⟨fun _ => { nextval := fresh }, fun i r hr hdrawn => hfree i r ?_⟩
  unfold Sys.needs at hr
  split at hr
  · rename_i op st k tx hl
    have hrows := exec_rows st _ _ r hr
    cases st with
    | insertTranscript row =>
      obtain rfl := List.mem_singleton.mp hr
      exact Table.le_nextKey _ fresh
    | insertClaim row =>
      obtain rfl := List.mem_singleton.mp hr
      exact Table.le_nextKey _ fresh
    | deleteReceivables =>
      obtain ⟨p, rfl⟩ := hrows
      exact False.elim hdrawn
    | purgeNonces now =>
      obtain ⟨n, rfl⟩ := hrows
      exact False.elim hdrawn
    | insertMember | insertSerial | addReceivable | upsertCap | upsertNonce =>
      obtain rfl := Set.mem_singleton_iff.mp hrows
      exact False.elim hdrawn
    | selectMemberPubkey | selectIsAdmin | selectCap | selectReceivable | selectTranscripts
    | selectReceivables => exact False.elim hrows
  · exact absurd hr (by simp)

/-- **The registry never gets stuck, and answers every call**, in every state it gets to behind
    its pool, provided that no sequence gives out a key twice. -/
theorem every_call_completes {s : Sys (Pooled.service X)}
    (h : Sys.Runs poolMaxSize (Pooled.start X) s) : s.Completes poolMaxSize lockOrder := by
  refine Sys.completes (fun _ op => .single (climbs_code op).closes Nat.one_pos)
    (fun _ => Pooled.erase_code) (fun _ => climbs_code) exists_runExt
    Sys.calls_init ⟨fun _ _ hl => (by cases hl), fun _ _ => rfl⟩ (fun _ => rfl) good
    (fun _ => exists_draws _) h ?_
  rw [s.spare_one]
  decide

/-- Two submissions of one serial: the second waits for the first. -/
theorem every_call_completes_waiting : ∃ s : Sys (Pooled.service .toy), s.live 2 ≠ none ∧
    s.step (.step 2 .none default) = none ∧ s.Completes poolMaxSize lockOrder := by
  obtain ⟨s, hs, hp⟩ := Sys.exists_of_runWhile (s := Pooled.start .toy)
    (g := Sys.served poolMaxSize)
    (l := Pooled.call .connect :: Pooled.go 0 6 ++
      Pooled.call (.postSerial "a" ⟨"b", 100, 0, "00", "t"⟩) :: Pooled.go 1 6 ++
        Pooled.call (.postSerial "c" ⟨"b", 100, 0, "00", "u"⟩) :: Pooled.go 2 4 ++
          [.step 2 .none { nextval := 1 }])
    (p := fun s => (s.live 2).isSome && (s.step (.step 2 .none default)).isNone)
    (by decide +kernel)
  simp only [Bool.and_eq_true, Option.isNone_iff_eq_none, Option.isSome_iff_ne_none] at hp
  exact ⟨s, hp.1, hp.2, every_call_completes hs⟩

end Registry

end Digicash
