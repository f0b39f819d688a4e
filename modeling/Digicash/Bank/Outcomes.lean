import Digicash.Bank.Retries

/-!
# The outcomes of a deposit

What a deposit is for: it makes its checks in order, answers what the first one that fails says,
and where none fails it spends the coin, records the request and credits the account. That is all
it does, and it does it in one piece: `deposit_refines` says that the code, run by itself on any
tables, is this operation. A bank with a registry asks it before the transaction; here there is
none.
-/

namespace Digicash.Bank

open Lib

variable {X : Crypto} {κ : Config X} {i : CallId} {op : Op} {sh : State X} {db : Tables}
  {req : DepositRequest}

/-! ## The operation -/

/-- The coin's denomination, as the number it is. -/
def worth (coin : Coin) : Int := coin.denominationCents.toNat

/-- The checks of the transaction, with their answers. -/
def localChecks (db : Tables) (req : DepositRequest) :
    List (Prop × Except BankError DepositResponse) :=
  [(worth req.coin ≤ i64Max, .error (.valueRange
      ("denomination " ++ toString req.coin.denominationCents ++ " exceeds the i64 column range"))),
    (∀ row, db.deposits.lookup req.requestId = some row → row.coin ≠ coinKeyOf req.coin,
      .ok ⟨true, none⟩),
    (db.deposits.lookup req.requestId = none, .ok (reject .requestIdReuse)),
    (db.spentSerials.lookup (coinKeyOf req.coin) = none, .ok (reject .doubleSpend)),
    (∃ b, db.accounts.lookup req.accountId = some b, .ok (reject .unknownAccount)),
    (∀ b, db.accounts.lookup req.accountId = some b → b + worth req.coin ≤ i64Max,
      .error (.db .numericOverflow))]

/-- All checks of a deposit in order. The second of `localChecks` is the one for a replay. -/
def depositChecks (κ : Config X) (db : Tables) (req : DepositRequest) :
    List (Prop × Except BankError DepositResponse) :=
  (req.coin.schemeId = schemeIdRsaDeterministic, .ok (reject .unknownScheme)) ::
  (∃ keypair, κ.keys.get req.coin.denominationCents req.coin.schemeId = some keypair,
    .ok (reject .unknownDenomination)) ::
  (Genuine κ req.coin, .ok (reject .invalidSignature)) :: localChecks db req

/-- One row in `spent_serials`, one in `deposits`, and the credit of one account. -/
def Tables.afterDeposit (db : Tables) (req : DepositRequest) : Tables :=
  { db with
    accounts := db.accounts.put req.accountId
      ((db.accounts.lookup req.accountId).map (· + worth req.coin))
    spentSerials := db.spentSerials.put (coinKeyOf req.coin) (some req.requestId)
    deposits := db.deposits.put req.requestId (some ⟨coinKeyOf req.coin, req.accountId⟩) }

/-- The checks decide the answer, and what the tables are afterwards. -/
def Settles (checks : List (Prop × Except BankError DepositResponse)) (db : Tables)
    (req : DepositRequest) (r : Except BankError DepositResponse) (db' : Tables) : Prop :=
  Decides (checks.map fun c => (c.1, c.2, db)) (.ok ⟨true, none⟩, db.afterDeposit req) (r, db')

/-! ## The code is this operation -/

theorem depositOf_apply {denom b : Int} (hd : i64TryFrom req.coin.denominationCents = some denom)
    (hb : db.accounts.lookup req.accountId = some b) :
    (depositOf req denom b).apply db = db.afterDeposit req := by
  obtain ⟨rfl, -⟩ := i64TryFrom_eq_some hd
  simp only [depositOf, Entry.apply, Tables.afterDeposit, coinKey_eq hd, hb, Option.map_some]
  rfl

variable {A : Outcomes (service X)} {F : Prop}

/-- `F` says that a command has failed. None that did had an effect. -/
theorem commitDeposit_alone (req : DepositRequest) (hw : sh.db.WellFormed)
    (hF : ∀ fault o sh', fault ≠ .none → A fault o sh sh' → F ∧ sh' = sh) :
    Alone.Spec A i op (fun _ => True)
      (fun outcome tx sh' => tx = none ∧
        Settles (localChecks sh.db req) sh.db req (.ok outcome.response) sh'.db)
      (fun e tx sh' => tx = none ∧
        (Settles (localChecks sh.db req) sh.db req (.error e) sh'.db ∨ F ∧ sh'.db = sh.db))
      (commitDeposit req) none sh := by
  unfold commitDeposit
  refine Alone.Spec.orThrow_bind (fun e he => ⟨rfl, Or.inl ?_⟩) fun denom hdenom => ?_
  · unfold toI64 i64TryFrom at he
    split at he
    · cases he
    · rename_i hrange
      cases he
      refine Decides.stop fun hle => ?_
      rw [if_pos (show (req.coin.denominationCents.toNat : Int) ≤ i64Max from hle)] at hrange
      cases hrange
  have hdenom := toI64_eq_ok hdenom
  obtain ⟨hworth, hmax⟩ := i64TryFrom_eq_some hdenom
  obtain rfl : denom = worth req.coin := hworth
  rw [coinKey_eq hdenom]
  have hlost : ∀ fault o, fault ≠ .none → A fault o sh sh → (none : Option (Tx database)) = none ∧
      (Settles (localChecks sh.db req) sh.db req (.error (fromSql .connection)) sh.db ∨
        F ∧ sh.db = sh.db) := fun fault o hne hA => ⟨rfl, Or.inr ⟨(hF fault o sh hne hA).1, rfl⟩⟩
  refine Alone.Spec.transaction_open trivial hlost ?_
  have hselect : ∀ o, exec (.selectDeposit req.requestId) o sh.db =
      .write [] (sh.db.deposits.lookup req.requestId) [] := fun o => rfl
  refine Alone.Spec.write_bind_open hselect trivial hlost ?_
  cases hl : sh.db.deposits.lookup req.requestId with
  | some prior =>
    dsimp only
    split
    · rename_i hcoin
      refine Alone.Spec.ok ⟨rfl, Decides.pass (Decides.stop fun hnot => ?_) hmax⟩
      exact hnot prior hl hcoin
    · rename_i hcoin
      refine Alone.Spec.ok ⟨rfl, Decides.pass (Decides.pass (Decides.stop fun hnone => ?_)
        fun row hrow => ?_) hmax⟩
      · exact absurd (hl.symm.trans hnone) (by simp)
      · obtain rfl := Option.some.inj (hl.symm.trans hrow)
        exact hcoin
  | none =>
    have hpass : ∀ {r db'}, Settles ((localChecks sh.db req).drop 3) sh.db req r db' →
        Settles (localChecks sh.db req) sh.db req r db' := fun h =>
      ((h.pass hl).pass fun row hrow => absurd (hl.symm.trans hrow) (by simp)).pass hmax
    dsimp only
    cases hspent : sh.db.spentSerials.lookup (coinKeyOf req.coin) with
    | some r =>
      have hinsert : ∀ o, exec (.insertSpent (coinKeyOf req.coin) req.requestId) o sh.db =
          .write [] (0 : Nat) [] := by
        intro o
        simp only [exec, hspent]
        rfl
      refine Alone.Spec.write_bind_open hinsert trivial hlost ?_
      refine Alone.Spec.ok ⟨rfl, hpass (Decides.stop fun hnone => ?_)⟩
      exact absurd (hspent.symm.trans hnone) (by simp)
    | none =>
      refine Alone.Spec.write_bind_open (fun o => insertSpent_of_none (o := o) hspent) trivial
        hlost ?_
      -- The credit finds the account as it was.
      have hpass : ∀ {r db'}, Settles ((localChecks sh.db req).drop 4) sh.db req r db' →
          Settles (localChecks sh.db req) sh.db req r db' := fun h => hpass (h.pass hspent)
      cases hb : sh.db.accounts.lookup req.accountId with
      | none =>
        have hread : addBalance sh.db req.accountId (worth req.coin) = .write [] (0 : Nat) [] := by
          simp only [addBalance, hb]
          rfl
        refine Alone.Spec.write_bind_open (fun o => hread) trivial hlost ?_
        refine Alone.Spec.ok ⟨rfl, hpass (Decides.stop ?_)⟩
        rintro ⟨b, hsome⟩
        exact absurd (hb.symm.trans hsome) (by simp)
      | some b =>
        have hpass : ∀ {r db'}, Settles ((localChecks sh.db req).drop 5) sh.db req r db' →
            Settles (localChecks sh.db req) sh.db req r db' := fun h => hpass (h.pass ⟨b, hb⟩)
        by_cases hfits : b + worth req.coin ≤ i64Max
        · have h0 := (hw.balance _ b hb).1
          have hnonneg := i64TryFrom_nonneg hdenom
          have hcredit := addBalance_of_some hb (by omega) hfits
          refine Alone.Spec.write_bind_open (fun o => hcredit) trivial hlost ?_
          refine Alone.Spec.write_bind_open (fun o => insertDeposit_of_none (o := o) hl) trivial
            hlost ?_
          refine Alone.Spec.ok ⟨_, rfl, trivial, ⟨rfl, hpass (Decides.pass ?_ fun b' hb' => ?_)⟩,
            fun o hA => hlost _ o (by simp) hA, fun o hA => ?_⟩
          · refine congrArg (Prod.mk _) ?_
            rw [← depositOf_apply hdenom hb]
            exact Ledger.commit_db (L := ledger X) (depositOf req (worth req.coin) b) sh
          · exact Option.some.inj (hb.symm.trans hb') ▸ hfits
          · exact absurd (hF _ o _ (by simp) hA).2 (sh.commit_ne i op _)
        · have hover := addBalance_overflow hb (Int.not_le.mp hfits)
          refine Alone.Spec.fail_bind_open (fun o => hover) trivial hlost ⟨rfl, Or.inl (hpass ?_)⟩
          exact Decides.stop fun hall => hfits (hall b hb)

theorem deposit_alone (req : DepositRequest) (hw : sh.db.WellFormed) (hregistry : κ.registryClient = none)
    (hF : ∀ fault o sh', fault ≠ .none → A fault o sh sh' → F ∧ sh' = sh) :
    Alone.Spec A i op (fun _ => True)
      (fun response tx sh' => tx = none ∧
        Settles (depositChecks κ sh.db req) sh.db req (.ok response) sh'.db)
      (fun e tx sh' => tx = none ∧
        (Settles (depositChecks κ sh.db req) sh.db req (.error e) sh'.db ∨ F ∧ sh'.db = sh.db))
      (deposit κ req) none sh := by
  by_cases hscheme : req.coin.schemeId = schemeIdRsaDeterministic
  swap
  · have hs : ensureSupportedScheme req.coin.schemeId ≠ .ok () := by
      rw [ensureSupportedScheme, if_neg hscheme]
      simp
    unfold deposit
    dsimp only
    split
    · exact Alone.Spec.ok ⟨rfl, Decides.stop hscheme⟩
    · exact absurd ‹_› hs
  cases hk : κ.keys.get req.coin.denominationCents req.coin.schemeId with
  | none =>
    have hs : ensureSupportedScheme req.coin.schemeId = .ok () := by
      rw [ensureSupportedScheme, if_pos hscheme]
    simp only [deposit, hs, hk]
    refine Alone.Spec.ok ⟨rfl, Decides.pass (Decides.stop ?_) hscheme⟩
    rintro ⟨keypair, hsome⟩
    exact absurd (hk.symm.trans hsome) (by simp)
  | some keypair =>
    have hkey : ∃ keypair, κ.keys.get req.coin.denominationCents req.coin.schemeId = some keypair :=
      ⟨keypair, hk⟩
    by_cases hgenuine : Genuine κ req.coin
    · have hpass : ∀ {r db'}, Settles (localChecks sh.db req) sh.db req r db' →
          Settles (depositChecks κ sh.db req) sh.db req r db' := fun h =>
        ((Decides.pass h hgenuine).pass hkey).pass hscheme
      rw [deposit_genuine hgenuine hregistry, depositLocally]
      have hspec : Alone.Spec A i op _ _ _ _ _ _ := commitDeposit_alone req hw hF
      refine Alone.Spec.bind trivial (hspec.mono trivial (fun _ _ _ _ h => h) fun e tx sh' _ h => ?_)
        fun outcome tx sh' _ h => Alone.Spec.ok ⟨h.1, hpass h.2⟩
      exact ⟨h.1, h.2.imp_left hpass⟩
    · have hs : ensureSupportedScheme req.coin.schemeId = .ok () := by
        rw [ensureSupportedScheme, if_pos hscheme]
      have hv : verify keypair.pk req.coin.serialNumber req.coin.signature ≠ .ok () := fun hv =>
        hgenuine ⟨hscheme, keypair, hscheme ▸ hk, hv⟩
      simp only [deposit, hs, hk]
      split
      · exact Alone.Spec.ok
          ⟨rfl, Decides.pass (Decides.pass (Decides.stop hgenuine) hkey) hscheme⟩
      · exact absurd ‹_› hv

/-- What an accepted deposit that is no replay needs. -/
structure Depositable (κ : Config X) (db : Tables) (req : DepositRequest) : Prop where
  genuine : Genuine κ req.coin
  unused : db.deposits.lookup req.requestId = none
  unspent : db.spentSerials.lookup (coinKeyOf req.coin) = none
  account : ∃ b, db.accounts.lookup req.accountId = some b ∧ b + worth req.coin ≤ i64Max

/-- It is what all checks together ask for. -/
theorem depositable_iff (hw : db.WellFormed) :
    Depositable κ db req ↔ ∀ c ∈ depositChecks κ db req, c.1 := by
  simp only [depositChecks, localChecks, List.forall_mem_cons, List.not_mem_nil, false_implies,
    implies_true, and_true]
  constructor
  · rintro ⟨hgenuine, hunused, hunspent, b, hb, hfits⟩
    obtain ⟨keypair, hk, -⟩ := hgenuine.verifies
    have h0 := (hw.balance _ b hb).1
    refine ⟨hgenuine.scheme, ⟨keypair, hgenuine.scheme ▸ hk⟩, hgenuine, by omega, fun row hrow => ?_,
      hunused, hunspent, ⟨b, hb⟩, fun b' hb' => ?_⟩
    · exact absurd (hunused.symm.trans hrow) (by simp)
    · exact Option.some.inj (hb.symm.trans hb') ▸ hfits
  · rintro ⟨-, -, hgenuine, -, -, hunused, hunspent, ⟨b, hb⟩, hfits⟩
    exact ⟨hgenuine, hunused, hunspent, b, hb, hfits b hb⟩

variable {r : Except BankError DepositResponse} {db' : Tables}

theorem settles_accepted (h : Settles (depositChecks κ db req) db req r db') (hw : db.WellFormed)
    (hd : Depositable κ db req) : r = .ok ⟨true, none⟩ ∧ db' = db.afterDeposit req :=
  Prod.mk.inj (Decides.of_forall (fun a => (a, db)) h ((depositable_iff hw).mp hd))

/-- The answer is that of the first check that fails, and nothing has changed. -/
def Refused (κ : Config X) (db : Tables) (req : DepositRequest)
    (r : Except BankError DepositResponse) (db' : Tables) : Prop :=
  db' = db ∧ ∃ before c after, depositChecks κ db req = before ++ c :: after ∧
    (∀ c ∈ before, c.1) ∧ ¬ c.1 ∧ r = c.2

theorem settles_refused (h : Settles (depositChecks κ db req) db req r db') (hw : db.WellFormed)
    (hd : ¬ Depositable κ db req) : Refused κ db req r db' := by
  rw [depositable_iff hw] at hd
  obtain ⟨before, c, after, hsplit, hbefore, hfails, heq⟩ := Decides.of_not_forall (fun a => (a, db)) h hd
  obtain ⟨rfl, rfl⟩ := Prod.mk.inj heq
  exact ⟨rfl, before, c, after, hsplit, hbefore, hfails, rfl⟩

/-- A refusal that says "accepted" is a replay. -/
theorem Refused.replay (h : Refused κ db req r db') (hr : r = .ok ⟨true, none⟩) :
    ∃ row, db.deposits.lookup req.requestId = some row ∧ row.coin = coinKeyOf req.coin := by
  obtain ⟨-, before, c, after, hsplit, -, hfails, rfl⟩ := h
  have hc : c ∈ depositChecks κ db req := by
    rw [hsplit]
    exact List.mem_append_right _ (List.mem_cons_self ..)
  simp only [depositChecks, localChecks, List.mem_cons, List.not_mem_nil, or_false] at hc
  rcases hc with rfl | rfl | rfl | rfl | rfl | rfl | rfl | rfl | rfl
  case inr.inr.inr.inr.inl => simpa using hfails
  all_goals cases hr

/-- **A deposit is one operation of the ledger.** From every reachable state of a bank without a
    registry, a deposit that runs by itself is accepted afresh exactly if it is `Depositable`, and
    then spends the coin, records the request, credits the account, and does nothing else; in
    every other case it changes nothing and is answered as the first check says that fails; and
    where a command fails on the way, it changes nothing either. -/
theorem deposit_refines {κ₀ : Config X} {s : Sys (service X)} (h : Sys.Steps .any (start κ₀) s)
    (hregistry : s.conf.registryClient = none) (req : DepositRequest) (i : CallId) :
    (∀ o, ∃ r sh', runAlone s.conf i (.deposit req) o s.shared =
        (some (.deposit r), sh', none) ∧
      (Depositable s.conf s.shared.db req ↔
        r = .ok ⟨true, none⟩ ∧ s.shared.db.deposits.lookup req.requestId = none) ∧
      (Depositable s.conf s.shared.db req → sh'.db = s.shared.db.afterDeposit req) ∧
      (¬ Depositable s.conf s.shared.db req → Refused s.conf s.shared.db req r sh'.db)) ∧
    Alone.Spec (S := service X) Visible i (.deposit req) (fun _ => True) (fun _ _ _ => True)
      (fun _ _ sh' => sh'.db = s.shared.db) (deposit s.conf req) none s.shared := by
  have hw := (good h).inv
  refine ⟨fun o => ?_, ?_⟩
  · have hspec : Alone.Spec (S := service X) Calm i (.deposit req) _ _ _ _ _ _ := deposit_alone (F := False)
      req hw hregistry fun _ _ _ hne hcalm => absurd hcalm hne
    obtain ⟨a, sh', tx, hrun, -, r, rfl, rfl, hsettles⟩ := runAlone_of_alone
      (Q := fun a tx sh' => ∃ r, a = .deposit r ∧ tx = none ∧
        Settles (depositChecks s.conf s.shared.db req) s.shared.db req r sh'.db) (.deposit req) o
      trivial (Alone.Spec.answer trivial hspec (fun response _ _ _ h => ⟨_, rfl, h⟩)
        fun e _ _ _ h => ⟨_, rfl, h.1, h.2.resolve_right fun h => h.1⟩)
    refine ⟨r, sh', hrun, ⟨fun hd => ?_, ?_⟩, fun hd => ?_, settles_refused hsettles hw⟩
    · exact ⟨(settles_accepted hsettles hw hd).1, hd.unused⟩
    · rintro ⟨hr, hunused⟩
      by_contra hd
      obtain ⟨row, hl, -⟩ := (settles_refused hsettles hw hd).replay hr
      exact absurd (hunused.symm.trans hl) (by simp)
    · exact (settles_accepted hsettles hw hd).2
  · have hspec : Alone.Spec (S := service X) Visible i (.deposit req) _ _ _ _ _ _ := deposit_alone (F := True)
      req hw hregistry fun _ _ _ hne hv => ⟨trivial, hv.resolve_left hne⟩
    refine hspec.mono trivial (fun _ _ _ _ _ => trivial) fun e _ sh' _ h => ?_
    rcases h.2 with hsettles | ⟨-, hsame⟩
    · by_cases hd : Depositable s.conf s.shared.db req
      · exact absurd (settles_accepted hsettles hw hd).1 (by simp)
      · exact (settles_refused hsettles hw hd).1
    · exact hsame

/-- A coin that is deposited for the first time. -/
theorem deposit_refines_fresh : ∃ s : Sys (service .toy), ∃ r sh',
    runAlone s.conf 2 (.deposit ⟨toyCoin 1, "alice", "p"⟩) default s.shared =
      (some (.deposit r), sh', none) ∧ r = .ok ⟨true, none⟩ ∧
        sh'.db = s.shared.db.afterDeposit ⟨toyCoin 1, "alice", "p"⟩ := by
  obtain ⟨s, hs, -, hconf, hp⟩ := exists_opened (p := fun s => decide (
    s.shared.db.deposits.lookup "p" = none ∧
      s.shared.db.spentSerials.lookup (coinKeyOf (toyCoin 1)) = none ∧
        s.shared.db.accounts.lookup "alice" = some 500)) (by decide)
  obtain ⟨hunused, hunspent, hacct⟩ := of_decide_eq_true hp
  have hd : Depositable s.conf s.shared.db ⟨toyCoin 1, "alice", "p"⟩ :=
    ⟨hconf ▸ genuine_toyCoin 1, hunused, hunspent, 500, hacct, by decide⟩
  obtain ⟨r, sh', hrun, hiff, hafter, -⟩ := (deposit_refines hs (hconf ▸ rfl)
    ⟨toyCoin 1, "alice", "p"⟩ 2).1 default
  exact ⟨s, r, sh', hrun, (hiff.mp hd).1, hafter hd⟩

end Digicash.Bank
