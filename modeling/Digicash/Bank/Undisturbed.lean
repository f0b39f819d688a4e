import Digicash.Bank.Recovery
import Digicash.Lib.Handler

/-!
# What an undisturbed call does

A withdrawal that finds its money and a message that can be signed, a deposit of a coin that has
not been spent, and a deposit of one that has, each run by itself with nothing going wrong.
-/

namespace Digicash.Bank

open Lib

variable {X : Crypto} {κ : Config X} {i : CallId} {op : Op} {sh : State X}

/-! ## A withdrawal -/

/-- The account paid `denom` for the withdrawal of `req`, and nothing else has changed. -/
structure Withdrew (req : WithdrawRequest) (denom b : Int) (db db' : Tables) : Prop where
  accounts : db'.accounts = db.accounts.put req.accountId (some (b + -denom))
  withdrawStates : ∀ r, r ≠ req.requestId →
    db'.withdrawStates.lookup r = db.withdrawStates.lookup r
  spentSerials : db'.spentSerials = db.spentSerials
  deposits : db'.deposits = db.deposits
  wellFormed : db'.WellFormed

theorem withdraw_undisturbed {req : WithdrawRequest} {keypair : Keypair X} {denom b : Int}
    {signature : Bytes} (hw : sh.db.WellFormed)
    (hfresh : sh.db.withdrawStates.lookup req.requestId = none)
    (hk : κ.keys.get req.denominationCents schemeIdRsaDeterministic = some keypair)
    (hd : i64TryFrom req.denominationCents = some denom)
    (hb : sh.db.accounts.lookup req.accountId = some b) (hle : denom ≤ b)
    (hsign : signBlinded keypair.sk req.blindedMessage = .ok signature) :
    Alone.Spec Calm i op (fun _ => True)
      (fun response _ sh' => response = ⟨signature⟩ ∧ sh'.mem = sh.mem ∧
        Withdrew req denom b sh.db sh'.db)
      (fun _ _ _ => False) (withdraw κ req) none sh := by
  have hvalid : (debitOf req denom b).Valid κ sh.db :=
    ⟨hb, hfresh, i64TryFrom_nonneg hd, (i64TryFrom_eq_some hd).2, hle⟩
  have hdebited : Debited sh.db req ((debitOf req denom b).apply sh.db) := ⟨denom, b, hd, hb, hle, rfl⟩
  unfold withdraw
  refine loadRecord_bind trivial hw (fun _ => ?_)
    fun row record hl _ => absurd (hfresh.symm.trans hl) (by simp)
  simp only [hk]
  have hdebit : Alone.Spec Calm i op (fun _ => True) _ _ _ _ _ :=
    debitAndRecordPending_alone (κ := κ) trivial hfresh hw fun _ _ _ _ => trivial
  refine Alone.Spec.bind trivial (hdebit.mono trivial (fun _ _ _ _ h => h)
    fun _ _ _ _ h => h.2.2 _ hdebited) fun _ tx sh₁ _ h₁ => ?_
  obtain ⟨rfl, denom', b', hd', ⟨hb', -⟩, rfl, -⟩ := h₁
  obtain rfl := Option.some.inj (hd.symm.trans hd')
  obtain rfl := Option.some.inj (hb.symm.trans hb')
  have hdb : (sh.commit i op (debitOf req denom b).tx).db = (debitOf req denom b).apply sh.db :=
    Ledger.commit_db (L := ledger X) _ sh
  -- The row it recorded, signed and completed.
  have hl : (sh.commit i op (debitOf req denom b).tx).db.withdrawStates.lookup req.requestId =
      some (pendingRow req denom) := by
    rw [hdb]
    exact Table.lookup_put_self _ _ _
  have hmem : (sh.commit i op (debitOf req denom b).tx).mem = sh.mem := rfl
  generalize sh.commit i op (debitOf req denom b).tx = sh₁ at hdb hl hmem
  have hrow : κ.sign (pendingRow req denom) = some (.ok signature) := by
    rw [Config.sign, pendingRow, u64TryFrom_i64TryFrom hd, Option.bind_some, hk]
    exact congrArg some hsign
  have hsigned : (Entry.sign req.requestId (pendingRow req denom) signature).Valid κ sh₁.db :=
    ⟨hl, hrow, Or.inl rfl⟩
  have hdb₂ : (sh₁.commit i op (Entry.sign req.requestId (pendingRow req denom) signature).tx).db =
      (Entry.sign req.requestId (pendingRow req denom) signature).apply sh₁.db :=
    Ledger.commit_db (L := ledger X) _ sh₁
  have hl₂ : (sh₁.commit i op
      (Entry.sign req.requestId (pendingRow req denom) signature).tx).db.withdrawStates.lookup
        req.requestId = some { pendingRow req denom with
          state := .signed, blindSignature := some signature } := by
    rw [hdb₂]
    exact Table.lookup_put_self _ _ _
  simp only [finalizeWithdraw, hk, hsign]
  refine Alone.Spec.bind trivial (R := fun found tx sh' => found = signature ∧ sh'.mem = sh.mem ∧
    Withdrew req denom b sh.db sh'.db) ?_ fun found _ _ _ h => Alone.Spec.ok ⟨by rw [h.1], h.2⟩
  refine Alone.Spec.write_bind_calm (fun o => updateWithdrawal_some hl _) (by simp) trivial trivial ?_
  refine Alone.Spec.bind trivial (R := fun _ _ sh' => sh'.mem = sh.mem ∧
    Withdrew req denom b sh.db sh'.db) ?_ fun _ _ _ _ h => Alone.Spec.ok ⟨rfl, h⟩
  refine Alone.Spec.write_bind_calm (fun o => updateWithdrawal_some hl₂ _) (by simp) trivial trivial
    (Alone.Spec.ok ?_)
  have hdb₃ : (((sh₁.commit i op (Entry.sign req.requestId (pendingRow req denom) signature).tx).commit
      i op (Entry.complete req.requestId ⟨.signed, req.accountId, denom, req.blindedMessage,
        some signature⟩).tx).db) = _ := Ledger.commit_db (L := ledger X) _ _
  have hw₁ : sh₁.db.WellFormed := hdb ▸ Entry.wellFormed hw hvalid
  have hw₂ := Entry.wellFormed hw₁ hsigned
  have hw₃ := Entry.wellFormed (κ := κ) hw₂ (e := .complete req.requestId
    ⟨.signed, req.accountId, denom, req.blindedMessage, some signature⟩)
    ⟨Table.lookup_put_self _ _ _, signature, Or.inl rfl, rfl⟩
  rw [hdb₂] at hdb₃
  have hafter : Withdrew req denom b sh.db ((Entry.complete req.requestId
      ⟨.signed, req.accountId, denom, req.blindedMessage, some signature⟩).apply
      ((Entry.sign req.requestId (pendingRow req denom) signature).apply sh₁.db)) := by
    rw [hdb] at hw₃ ⊢
    refine ⟨rfl, fun r hr => ?_, rfl, rfl, hw₃⟩
    simp only [Entry.apply]
    rw [Table.lookup_put_ne hr, Table.lookup_put_ne hr, Table.lookup_put_ne hr]
  exact ⟨by rw [← hmem]; rfl, hdb₃ ▸ hafter⟩

/-! ## A deposit -/

/-- The deposit of `req`, whose coin is worth `denom`, met at balance `b`. -/
def depositOf (req : DepositRequest) (denom b : Int) : Entry :=
  .deposit req.requestId ⟨coinKey req.coin denom, req.accountId⟩ b

/-- The bank has a key for the coin, and the coin's signature verifies under it. -/
structure Genuine (κ : Config X) (coin : Coin) : Prop where
  scheme : coin.schemeId = schemeIdRsaDeterministic
  verifies : ∃ keypair, κ.keys.get coin.denominationCents schemeIdRsaDeterministic = some keypair ∧
    verify keypair.pk coin.serialNumber coin.signature = .ok ()

/-- The deposit of a genuine coin is decided by its transaction. -/
theorem deposit_genuine {req : DepositRequest} (h : Genuine κ req.coin)
    (hregistry : κ.registryClient = none) : deposit κ req = depositLocally req := by
  obtain ⟨keypair, hk, hv⟩ := h.verifies
  have hs : ensureSupportedScheme req.coin.schemeId = .ok () := by
    rw [ensureSupportedScheme, if_pos h.scheme]
  rw [← h.scheme] at hk
  simp only [deposit, hs, hk, hv, hregistry]

theorem deposit_undisturbed {req : DepositRequest} {denom b : Int} (h : Genuine κ req.coin)
    (hregistry : κ.registryClient = none) (hd : i64TryFrom req.coin.denominationCents = some denom)
    (hfresh : sh.db.deposits.lookup req.requestId = none)
    (hunspent : sh.db.spentSerials.lookup (coinKey req.coin denom) = none)
    (hb : sh.db.accounts.lookup req.accountId = some b) (hb0 : 0 ≤ b)
    (hmax : b + denom ≤ i64Max) :
    Alone.Spec Calm i op (fun _ => True)
      (fun response _ sh' => response = ⟨true, none⟩ ∧
        sh' = sh.commit i op (depositOf req denom b).tx)
      (fun _ _ _ => False) (deposit κ req) none sh := by
  have h0 := i64TryFrom_nonneg hd
  rw [deposit_genuine h hregistry, depositLocally]
  refine Alone.Spec.bind trivial (R := fun outcome _ sh' => outcome = .accepted ∧
    sh' = sh.commit i op (depositOf req denom b).tx) ?_
    fun outcome _ _ _ h => Alone.Spec.ok ⟨by rw [h.1]; rfl, h.2⟩
  unfold commitDeposit toI64
  simp only [hd]
  refine Alone.Spec.orThrow_bind (fun e he => absurd he (by simp)) fun n hn => ?_
  obtain rfl := Except.ok.inj hn
  refine Alone.Spec.transaction trivial ?_
  refine Alone.Spec.read_bind_tx (a := none) (fun o => ?_) trivial ?_
  · simp only [exec, Tx.view_empty, hfresh]
  refine Alone.Spec.write_bind_tx (fun o => insertSpent_of_none (o := o) hunspent) trivial ?_
  have hcredit : addBalance sh.db req.accountId denom =
      .write [] (1 : Nat) [⟨.account req.accountId, some (b + denom)⟩] :=
    addBalance_of_some hb (by omega) hmax
  refine Alone.Spec.write_bind_tx (fun o => hcredit) trivial ?_
  refine Alone.Spec.write_bind_tx (fun o => insertDeposit_of_none (o := o) hfresh) trivial ?_
  exact Alone.Spec.ok ⟨_, rfl, trivial, rfl, rfl⟩

theorem deposit_undisturbed_spent {req : DepositRequest} {denom : Int} {r : String}
    (h : Genuine κ req.coin) (hregistry : κ.registryClient = none)
    (hd : i64TryFrom req.coin.denominationCents = some denom)
    (hfresh : sh.db.deposits.lookup req.requestId = none)
    (hspent : sh.db.spentSerials.lookup (coinKey req.coin denom) = some r) :
    Alone.Spec Calm i op (fun _ => True)
      (fun response _ sh' => response = reject .doubleSpend ∧ sh' = sh)
      (fun _ _ _ => False) (deposit κ req) none sh := by
  rw [deposit_genuine h hregistry, depositLocally]
  refine Alone.Spec.bind trivial (R := fun outcome _ sh' => outcome = .doubleSpend ∧ sh' = sh) ?_
    fun outcome _ _ _ h => Alone.Spec.ok ⟨by rw [h.1]; rfl, h.2⟩
  unfold commitDeposit toI64
  simp only [hd]
  refine Alone.Spec.orThrow_bind (fun e he => absurd he (by simp)) fun n hn => ?_
  obtain rfl := Except.ok.inj hn
  refine Alone.Spec.transaction trivial ?_
  refine Alone.Spec.read_bind_tx (a := none) (fun o => ?_) trivial ?_
  · simp only [exec, Tx.view_empty, hfresh]
  refine Alone.Spec.read_bind_tx (a := (0 : Nat)) (fun o => ?_) trivial ?_
  · change exec (.insertSpent (coinKey req.coin denom) req.requestId) o sh.db = _
    simp only [exec, hspent]
  exact Alone.Spec.ok ⟨rfl, rfl⟩

/-! ## The same, served -/

theorem enter_up (op : Op) (hop : op ≠ .connect) {m : Memory} (h : m.phase = .up) :
    enter op m = some m := by
  cases op with
  | connect => exact absurd rfl hop
  | _ => exact if_pos h

/-- One call from its start to its answer, where nothing fails and no other call moves. -/
def serve (s : Sys (service X)) (op : Op) : Option (Ans × Sys (service X)) :=
  (Sys.serve (S := service X) (always (D := database) default) op () s).map fun r => (r.1, r.2.2)

variable {s : Sys (service X)}

theorem serve_steps {s' : Sys (service X)} {a : Ans} (hidle : s.Idle)
    (h : serve s op = some (a, s')) : Sys.Steps .any s s' ∧ s'.Idle := by
  obtain ⟨⟨a', u, s₁⟩, hserve, heq⟩ := Option.map_eq_some_iff.mp h
  obtain ⟨rfl, rfl⟩ := Prod.mk.inj heq
  obtain ⟨hsteps, hidle', -⟩ := Sys.serve_steps (R := fun _ _ => True)
    (fun _ _ _ _ _ => .refl) hidle hserve
  exact ⟨hsteps, hidle'⟩

/-- What a call promises alone, it does when it is served. -/
theorem serve_of_alone {C : State X → Prop} {Q : Ans → State X → Prop} (op : Op)
    (hop : op ≠ .connect) (hup : s.shared.mem.phase = .up)
    (h : Alone (S := service X) Calm s.next op C (fun a _ sh => Q a sh)
      (code s.conf op) none s.shared) :
    ∃ a s', serve s op = some (a, s') ∧ s'.conf = s.conf ∧ Q a s'.shared := by
  obtain ⟨a, sh, tx, hserve, hq⟩ := Sys.serve_of_alone (S := service X) (s := s) runExt_isSome
    default (fun _ _ => rfl) (enter_up op hop hup) h
  refine ⟨a, ⟨s.conf, sh, s.next + 1, s.live, ⟨s.next, op, a, s.conf⟩ :: s.answers⟩, ?_, rfl, hq⟩
  rw [serve, hserve]
  rfl

theorem withdraw_served (req : WithdrawRequest) {keypair : Keypair X} {denom b : Int}
    {signature : Bytes} (hup : s.shared.mem.phase = .up) (hw : s.shared.db.WellFormed)
    (hfresh : s.shared.db.withdrawStates.lookup req.requestId = none)
    (hk : s.conf.keys.get req.denominationCents schemeIdRsaDeterministic = some keypair)
    (hd : i64TryFrom req.denominationCents = some denom)
    (hb : s.shared.db.accounts.lookup req.accountId = some b) (hle : denom ≤ b)
    (hsign : signBlinded keypair.sk req.blindedMessage = .ok signature) :
    ∃ s', serve s (.withdraw req) = some (.withdraw (.ok ⟨signature⟩), s') ∧
      s'.conf = s.conf ∧ s'.shared.mem = s.shared.mem ∧
      Withdrew req denom b s.shared.db s'.shared.db := by
  obtain ⟨a, s', hserve, hconf, rfl, hmem, hdrew⟩ := serve_of_alone
    (Q := fun a sh' => a = .withdraw (.ok ⟨signature⟩) ∧ sh'.mem = s.shared.mem ∧
      Withdrew req denom b s.shared.db sh'.db) (.withdraw req) (by simp) hup
    (Alone.Spec.answer trivial (withdraw_undisturbed hw hfresh hk hd hb hle hsign)
      (fun _ _ _ _ hq => ⟨by rw [hq.1], hq.2⟩) fun _ _ _ _ he => he.elim)
  exact ⟨s', hserve, hconf, hmem, hdrew⟩

theorem deposit_served (req : DepositRequest) {denom b : Int} (hup : s.shared.mem.phase = .up)
    (h : Genuine s.conf req.coin) (hregistry : s.conf.registryClient = none)
    (hd : i64TryFrom req.coin.denominationCents = some denom)
    (hfresh : s.shared.db.deposits.lookup req.requestId = none)
    (hunspent : s.shared.db.spentSerials.lookup (coinKey req.coin denom) = none)
    (hb : s.shared.db.accounts.lookup req.accountId = some b) (hb0 : 0 ≤ b)
    (hmax : b + denom ≤ i64Max) :
    ∃ s', serve s (.deposit req) = some (.deposit (.ok ⟨true, none⟩), s') ∧
      s'.conf = s.conf ∧ s'.shared.mem = s.shared.mem ∧
      s'.shared.db = (depositOf req denom b).apply s.shared.db := by
  obtain ⟨a, s', hserve, hconf, rfl, hshared⟩ := serve_of_alone
    (Q := fun a sh' => a = .deposit (.ok ⟨true, none⟩) ∧
      sh' = s.shared.commit s.next (.deposit req) (depositOf req denom b).tx) (.deposit req)
    (by simp) hup
    (Alone.Spec.answer trivial (deposit_undisturbed h hregistry hd hfresh hunspent hb hb0 hmax)
      (fun _ _ _ _ hq => ⟨by rw [hq.1], hq.2⟩) fun _ _ _ _ he => he.elim)
  have hdb : (s.shared.commit s.next (.deposit req) (depositOf req denom b).tx).db =
      (depositOf req denom b).apply s.shared.db := Ledger.commit_db (L := ledger X) _ _
  exact ⟨s', hserve, hconf, by rw [hshared]; rfl, by rw [hshared, hdb]⟩

theorem deposit_served_spent (req : DepositRequest) {denom : Int} {r : String}
    (hup : s.shared.mem.phase = .up) (h : Genuine s.conf req.coin)
    (hregistry : s.conf.registryClient = none)
    (hd : i64TryFrom req.coin.denominationCents = some denom)
    (hfresh : s.shared.db.deposits.lookup req.requestId = none)
    (hspent : s.shared.db.spentSerials.lookup (coinKey req.coin denom) = some r) :
    ∃ s', serve s (.deposit req) = some (.deposit (.ok (reject .doubleSpend)), s') ∧
      s'.conf = s.conf ∧ s'.shared = s.shared := by
  obtain ⟨a, s', hserve, hconf, rfl, hshared⟩ := serve_of_alone
    (Q := fun a sh' => a = .deposit (.ok (reject .doubleSpend)) ∧ sh' = s.shared) (.deposit req)
    (by simp) hup
    (Alone.Spec.answer trivial (deposit_undisturbed_spent h hregistry hd hfresh hspent)
      (fun _ _ _ _ hq => ⟨by rw [hq.1], hq.2⟩) fun _ _ _ _ he => he.elim)
  exact ⟨s', hserve, hconf, hshared⟩

end Digicash.Bank
