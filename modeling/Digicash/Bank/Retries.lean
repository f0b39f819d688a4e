import Digicash.Bank.Crediting
import Digicash.Bank.Undisturbed
import Digicash.Lib.Deeds

/-!
# Retries of a deposit

A deposit looks its request id up before it spends the coin, so that a retry is answered as the
first call was. The lookup compares the coin and not the account, and it is a statement of its
own: the call it should find may commit right after it. In the first case a retry for another
account is answered that it was accepted, in the second a retry is answered that its coin is
spent. These are the only two ways in which an answer is not what the tables say.
-/

namespace Digicash.Bank

open Lib Lib.Protocol

variable {X : Crypto} {κ : Config X} {s s' : Sys (service X)} {i : CallId}

/-! ## The deeds of a deposit -/

/-- A transaction was begun, and its first statement looked the request id up. -/
def looked (requestId : String) (found : Option DepositRow) (ds : Deeds database) :
    Deeds database :=
  ⟨.stmt (.selectDeposit requestId), .ok found⟩ :: ⟨.begin, .ok ()⟩ :: ds

/-- And the next one inserted the coin, `n` times. -/
def spent (req : DepositRequest) (n : Nat) (ds : Deeds database) : Deeds database :=
  ⟨.stmt (.insertSpent (coinKeyOf req.coin) req.requestId), .ok n⟩ :: looked req.requestId none ds

/-- What a transaction of a deposit has done that ends with `outcome`. -/
def Ended (req : DepositRequest) (ds : Deeds database) : DepositOutcome → Prop
  | .accepted => ∃ rest, ds = ⟨.commit, .ok ()⟩ :: rest
  | .replay => ∃ prior rest, prior.coin = coinKeyOf req.coin ∧
    ds = ⟨.rollback, ()⟩ :: looked req.requestId (some prior) rest
  | .requestIdReuse => ∃ prior rest, prior.coin ≠ coinKeyOf req.coin ∧
    ds = ⟨.rollback, ()⟩ :: looked req.requestId (some prior) rest
  | .doubleSpend => ∃ rest, ds = ⟨.rollback, ()⟩ :: spent req 0 rest
  | .unknownAccount => ∃ denom n rest, ds = ⟨.rollback, ()⟩ ::
    ⟨.stmt (.credit denom req.accountId), .ok (0 : Nat)⟩ :: spent req n rest

/-- Why a deposit is answered as it is: its transaction ended so, or the coin is none of this
    bank's, or there is a registry that was asked. -/
inductive Because (κ : Config X) (req : DepositRequest) (ds : Deeds database) :
    DepositResponse → Prop where
  | ended (outcome : DepositOutcome) (h : Ended req ds outcome) : Because κ req ds outcome.response
  | refused (reason : DepositRejection)
      (h : ¬ (Genuine κ req.coin ∧ κ.registryClient = none)) : Because κ req ds (reject reason)

/-- Any command. -/
abbrev anyCmd : Deeds database → Cmd database → Prop := fun _ _ => True

variable {req : DepositRequest} {ds : Deeds database}

theorem commitDeposit_along :
    Prog.Along anyCmd (fun ds r => ∀ outcome, r = .ok outcome → Ended req ds outcome) ds
      (commitDeposit req).run := by
  have herror : ∀ {ds : Deeds database} {e : BankError} (outcome : DepositOutcome),
      (.error e : Except BankError DepositOutcome) = .ok outcome → Ended req ds outcome :=
    fun outcome h => by cases h
  unfold commitDeposit
  refine Prog.Along.orThrow_bind (fun e _ => herror) fun denom hdenom => ?_
  rw [coinKey_eq (toI64_eq_ok hdenom)]
  refine Prog.Along.transaction trivial (fun e => herror) ?_
  refine Prog.Along.query_bind trivial (fun e => ⟨trivial, herror⟩) fun found => ?_
  cases found with
  | some prior =>
    dsimp only
    split
    · refine ⟨trivial, fun outcome h => ?_⟩
      cases h
      exact ⟨prior, ds, ‹_›, rfl⟩
    · refine ⟨trivial, fun outcome h => ?_⟩
      cases h
      exact ⟨prior, ds, ‹_›, rfl⟩
  | none =>
    dsimp only
    refine Prog.Along.query_bind trivial (fun e => ⟨trivial, herror⟩) fun inserted => ?_
    split
    · refine ⟨trivial, fun outcome h => ?_⟩
      cases h
      subst inserted
      exact ⟨ds, rfl⟩
    · refine Prog.Along.query_bind trivial (fun e => ⟨trivial, herror⟩) fun credited => ?_
      split
      · refine ⟨trivial, fun outcome h => ?_⟩
        cases h
        subst credited
        exact ⟨denom, inserted, ds, rfl⟩
      · refine Prog.Along.query_bind trivial (fun e => ⟨trivial, herror⟩) fun _ => ?_
        refine ⟨trivial, fun outcome h => ?_, fun e => herror⟩
        cases h
        exact ⟨_, rfl⟩

theorem depositLocally_along :
    Prog.Along anyCmd (fun ds r => ∀ response, r = .ok response → Because κ req ds response) ds
      (depositLocally req).run := by
  refine Prog.Along.bind_ok commitDeposit_along (fun ds outcome h response hr => ?_)
    fun ds e _ response hr => by cases hr
  cases hr
  exact .ended outcome (h outcome rfl)

theorem deposit_along :
    Prog.Along anyCmd (fun ds r => ∀ response, r = .ok response → Because κ req ds response) ds
      (deposit κ req).run := by
  have hrefuse : ∀ {ds : Deeds database} (reason : DepositRejection),
      ¬ (Genuine κ req.coin ∧ κ.registryClient = none) →
      Prog.Along anyCmd (fun ds r => ∀ response, r = .ok response → Because κ req ds response) ds
        (pure (reject reason) : BankM DepositResponse).run := by
    intro ds reason h response hr
    cases hr
    exact .refused reason h
  by_cases h : Genuine κ req.coin ∧ κ.registryClient = none
  · rw [deposit_genuine h.1 h.2]
    exact depositLocally_along
  · unfold deposit
    dsimp only
    split
    · exact hrefuse _ h
    split
    · exact hrefuse _ h
    split
    · exact hrefuse _ h
    split
    · exact depositLocally_along
    · refine Prog.Along.perform_bind trivial fun now => ?_
      have hsubmit : ∀ (x : BankM SerialOutcome) ds,
          Prog.Along anyCmd (fun _ _ => True) ds x.run := fun x ds =>
        Prog.Along.of_forall (fun _ _ => trivial) fun _ _ => trivial
      refine Prog.Along.bind_ok (hsubmit _ _) (fun ds outcome _ => ?_)
        fun ds e _ response hr => by cases hr
      cases outcome with
      | accepted => exact depositLocally_along
      | doubleSpend => exact hrefuse _ h
      | exposureCapExceeded => exact hrefuse _ h

/-- Why an answer was given. -/
def Explained (κ : Config X) : Op → Deeds database → Ans → Prop
  | .deposit req, ds, .deposit (.ok response) => Because κ req ds response
  | _, _, _ => True

theorem code_explained (op : Op) : Prog.Along anyCmd (Explained κ op) [] (code κ op) := by
  cases op with
  | deposit req =>
    refine Prog.Along.map (fun ds r h => ?_) deposit_along
    cases r with
    | ok response => exact h response rfl
    | error e => trivial
  | _ => exact Prog.Along.of_forall (fun _ _ => trivial) fun _ _ => trivial

/-! ## What the lookup found -/

variable {G : Sys (service X) → Event (service X) → Sys (service X) → Prop}
  {tx : Option (Tx database)} {op : Op} {r : String}

/-- Where the lookup was, and what it left. -/
theorem did_looked {s₀ : Sys (service X)} {found : Option DepositRow}
    (h : Sys.Did G s₀ i op (looked r found ds) tx s) : ∃ s₁ s₂, Sys.StepsIn G s₀ s₁ ∧
      Sys.Does G s₁ s₂ i op (some .empty) ⟨.stmt (.selectDeposit r), .ok found⟩ tx ∧
      s₁.shared.db.deposits.lookup r = found ∧ Relation.ReflTransGen (Sys.Rests G i) s₂ s ∧
      tx = some ((Tx.empty : Tx database).push (.selectDeposit r) found [] []) := by
  obtain ⟨s₁, s₂, h₁, hdoes, -, hrests, o, ws, hres, htx⟩ := h.first
  have heff : database.exec (.selectDeposit r) o s₁.shared.db =
      .read (s₁.shared.db.deposits.lookup r) := rfl
  rw [heff] at hres htx
  obtain ⟨hfound, rfl⟩ := Prod.mk.inj (Except.ok.inj hres)
  exact ⟨s₁, s₂, h₁, hdoes, hfound, hrests, htx⟩

/-- A row of `deposits` stands in every later state. -/
theorem deposit_stands {s₀ : Sys (service X)} {row : DepositRow}
    (h : Sys.Steps .any (start κ) s₀) (hl : s₀.shared.db.deposits.lookup r = some row)
    (hs : Sys.StepsIn G s₀ s) : s.shared.db.deposits.lookup r = some row :=
  db_keeps (J := fun db => db.deposits.lookup r = some row) h (Sys.steps_of_stepsIn hs)
    (fun hv hl => Entry.deposit_stays hv hl) hl

/-- What a deposit commits. -/
theorem did_commit {s₀ : Sys (service X)} (h₀ : Sys.Steps .any (start κ) s₀)
    (h : Sys.Did G s₀ i (.deposit req) (⟨.commit, .ok ()⟩ :: ds) tx s) :
    s.shared.db.deposits.lookup req.requestId = some ⟨coinKeyOf req.coin, req.accountId⟩ := by
  obtain ⟨s₁, s₂, tx₁, -, h₁, hdoes, hrests⟩ := h.last
  obtain ⟨fault, o, hs, -, hx⟩ := hdoes.exec
  have hg := good (h₀.trans (Sys.steps_of_stepsIn h₁))
  cases tx₁ with
  | none => exact absurd hx (by simp [execCmd])
  | some t =>
    have hshared : s₂.shared = s₁.shared.commit i (.deposit req) t := by
      cases fault <;> simp only [execCmd, Option.some.injEq, Prod.mk.injEq] at hx
      · exact hx.2.1.symm
      · exact absurd hx.1 (by simp)
      · exact absurd hx.1 (by simp)
    obtain ⟨⟨e, htx, hv, hfrom⟩, -, hdb⟩ := hg.legal sound hs (congrArg Shared.hist hshared)
    cases e with
    | deposit r row b =>
      obtain ⟨rfl, hacct, ⟨denom, hdenom, hcoin⟩, -⟩ := hfrom
      refine deposit_stands ((h₀.trans (Sys.steps_of_stepsIn h₁)).trans
        (Sys.steps_of_stepsIn hdoes.step)) ?_ (Sys.stepsIn_of_rests hrests)
      have hrow : row = ⟨coinKeyOf req.coin, req.accountId⟩ := by
        rw [← coinKey_eq hdenom, ← hcoin, ← hacct]
      subst hrow
      obtain rfl : t = _ := htx
      rw [hdb, Commit.after, Entry.applyWrites_tx]
      exact Table.lookup_put_self _ _ _
    | _ => exact hfrom.elim

/-! ## Accepted for its account -/

/-- **The condition under which an accepted deposit has credited the account it names**: a lookup
    that finds the coin of the request finds it deposited to the account of the request. -/
def findsAccount (s : Sys (service X)) : Event (service X) → Bool
  | .step i _ _ =>
    match s.live i with
    | some ⟨.deposit req, .cmd (.stmt (.selectDeposit r)) _, _⟩ =>
      (s.shared.db.deposits.lookup r).all fun row =>
        decide (row.coin = coinKeyOf req.coin → row.accountId = req.accountId)
    | _ => true
  | _ => true

/-- **Whoever hears that the deposit was accepted, for that account it was.** In every run whose
    steps meet the condition: where a deposit is answered that it is accepted, the row of its
    request id names its coin and its account, and the coin has credited that account once; and
    where the row of a request id names another coin or another account, the answer is a
    rejection. -/
theorem accepted_credits (h : Sys.StepsIn (fun s e _ => findsAccount s e = true) (start κ) s)
    {a : Answer (service X)} (ha : a ∈ s.answers) {req : DepositRequest}
    {response : DepositResponse} (hop : a.op = .deposit req)
    (hans : a.ans = .deposit (.ok response)) :
    (response.accepted = true →
      s.shared.db.deposits.lookup req.requestId = some ⟨coinKeyOf req.coin, req.accountId⟩ ∧
        CreditedTo s.shared req) ∧
    ∀ row, s.shared.db.deposits.lookup req.requestId = some row →
      row ≠ ⟨coinKeyOf req.coin, req.accountId⟩ →
        response.accepted = false ∧ response.reason.isSome = true := by
  have hsteps := Sys.steps_of_stepsIn h
  have hstands : response.accepted = true →
      s.shared.db.deposits.lookup req.requestId = some ⟨coinKeyOf req.coin, req.accountId⟩ := by
    intro hacc
    obtain ⟨s₁, ds, tx, h₁, hlater, hdid, -, -, hwhy⟩ := (Sys.deeds (P := fun _ _ => anyCmd)
      (Q := fun κ => Explained κ) (fun κ op => code_explained op) h Sys.calls_init).2 a ha
        (Nat.zero_le _)
    rw [hop, hans] at hwhy
    rw [hop] at hdid
    refine deposit_stands (Sys.steps_of_stepsIn h₁) ?_ hlater
    rcases hwhy with ⟨outcome, hended⟩ | ⟨reason, -⟩
    · cases outcome with
      | accepted =>
        obtain ⟨rest, rfl⟩ := hended
        exact did_commit .refl hdid
      | replay =>
        obtain ⟨prior, rest, hcoin, rfl⟩ := hended
        obtain ⟨s₂, s₃, tx', hdid', -, hrollback, hrests⟩ := hdid.last
        obtain ⟨s₄, s₅, h₄, hdoes, hl, hrests', -⟩ := did_looked hdid'
        obtain ⟨k, hlive⟩ := hdoes.live
        obtain ⟨fault, o, -, hfinds, -⟩ := hdoes.exec
        simp only [findsAccount, hlive, hl, Option.all_some, decide_eq_true_eq] at hfinds
        have hrow : prior = ⟨coinKeyOf req.coin, req.accountId⟩ := by
          rw [← hcoin, ← hfinds hcoin]
        have hlater' : Sys.StepsIn (fun s e _ => findsAccount s e = true) s₄ s₁ :=
          (hdoes.step.trans (Sys.stepsIn_of_rests hrests')).trans
            (hrollback.step.trans (Sys.stepsIn_of_rests hrests))
        exact deposit_stands (Sys.steps_of_stepsIn h₄) (hrow ▸ hl) hlater'
      | _ => exact absurd hacc (by decide)
    · exact absurd hacc (by simp [reject])
  refine ⟨fun hacc => ⟨hstands hacc, creditedTo_of_lookup hsteps (hstands hacc)⟩,
    fun row hl hne => ?_⟩
  have hrefused : response.accepted = false := by
    by_contra hacc
    exact hne (Option.some.inj (hl.symm.trans (hstands (by simpa using hacc))))
  refine ⟨hrefused, ?_⟩
  have hreason := reason_of_answer hsteps ha hans
  rw [hrefused] at hreason
  simpa [Option.isSome_iff_ne_none] using hreason.symm

/-- A deposit and its retry. -/
theorem accepted_credits_retry : ∃ s : Sys (service .toy), ∃ a ∈ s.answers, a.call = 3 ∧
    s.shared.db.deposits.lookup "p" = some ⟨coinKeyOf (toyCoin 1), "alice"⟩ ∧
      CreditedTo s.shared ⟨toyCoin 1, "alice", "p"⟩ := by
  obtain ⟨s, hs, hp⟩ := Sys.exists_of_runWhile (s := start Config.toy) (g := findsAccount)
    (l := opened ++ call (.deposit ⟨toyCoin 1, "alice", "p"⟩) :: go 2 7 ++
      call (.deposit ⟨toyCoin 1, "alice", "p"⟩) :: go 3 4)
    (p := fun s => decide (∃ a ∈ s.answers, a.call = 3 ∧
      a.op = .deposit ⟨toyCoin 1, "alice", "p"⟩ ∧ a.ans = .deposit (.ok ⟨true, none⟩))) (by decide)
  obtain ⟨a, ha, hcall, hop, hans⟩ := of_decide_eq_true hp
  obtain ⟨hl, hcredited⟩ := (accepted_credits hs ha hop hans).1 rfl
  exact ⟨s, a, ha, hcall, hl, hcredited⟩

/-- **Without the condition** "bob" hears that the deposit was accepted that credited "alice". -/
theorem accepted_for_another : ∃ s : Sys (service .toy), Sys.Steps .any (start Config.toy) s ∧
    (∃ a ∈ s.answers, a.op = .deposit ⟨toyCoin 1, "bob", "p"⟩ ∧
      a.ans = .deposit (.ok ⟨true, none⟩)) ∧
    s.shared.db.accounts.lookup "bob" = some 500 ∧
    s.shared.db.deposits.lookup "p" = some ⟨coinKeyOf (toyCoin 1), "alice"⟩ ∧
    ¬ CreditedTo s.shared ⟨toyCoin 1, "bob", "p"⟩ := by
  obtain ⟨s, hs, hp⟩ := Sys.exists_of_run (s := start Config.toy)
    (l := opened ++ call (.createAccount "bob" 500) :: go 2 2 ++
      call (.deposit ⟨toyCoin 1, "alice", "p"⟩) :: go 3 7 ++
        call (.deposit ⟨toyCoin 1, "bob", "p"⟩) :: go 4 4)
    (p := fun s => decide ((∃ a ∈ s.answers, a.op = .deposit ⟨toyCoin 1, "bob", "p"⟩ ∧
      a.ans = .deposit (.ok ⟨true, none⟩)) ∧ s.shared.db.accounts.lookup "bob" = some 500 ∧
      s.shared.db.deposits.lookup "p" = some ⟨coinKeyOf (toyCoin 1), "alice"⟩ ∧
      s.shared.hist.all fun c => crediting "bob" c = 0)) (by decide)
  obtain ⟨hans, hacct, hrow, hnone⟩ := of_decide_eq_true hp
  refine ⟨s, hs, hans, hacct, hrow, ?_⟩
  rintro ⟨c, req', hfilter, -, -, hcredit⟩
  have hmem : c ∈ s.shared.hist.filter fun c => spends c = some (coinKeyOf (toyCoin 1)) := by
    rw [hfilter]
    exact List.mem_singleton_self c
  have hzero := of_decide_eq_true (List.all_eq_true.mp hnone c (List.mem_filter.mp hmem).1)
  rw [hcredit "bob"] at hzero
  exact absurd hzero (by decide)

/-! ## Retries at a time -/

/-- The deposit is one of this coin, or under this request id. -/
def Concerned (req req' : DepositRequest) : Prop :=
  req'.requestId = req.requestId ∨ coinKeyOf req'.coin = coinKeyOf req.coin

/-- **The condition under which no retry is refused**: no deposit inserts the coin where it is
    spent already. -/
def insertsUnspent (coin : CoinKey) (s : Sys (service X)) : Event (service X) → Bool
  | .step i .none _ =>
    match s.live i with
    | some ⟨.deposit _, .cmd (.stmt (.insertSpent coin' _)) _, _⟩ =>
      decide (coin' = coin → s.shared.db.spentSerials.lookup coin = none)
    | _ => true
  | _ => true

/-- A step under the condition, where only retries of `req` concern it, and its coin stays
    genuine. -/
structure Retries (req : DepositRequest) (s : Sys (service X)) (e : Event (service X))
    (_ : Sys (service X)) : Prop where
  calls : ∀ req', e = .start (.deposit req') → Concerned req req' → req' = req
  conf : ∀ κ, e = .crash κ → Genuine κ req.coin ∧ κ.registryClient = none
  inserts : insertsUnspent (coinKeyOf req.coin) s e = true

/-- What is true between the steps of such a run. -/
structure Retrying (req : DepositRequest) (s : Sys (service X)) : Prop where
  conf : Genuine s.conf req.coin ∧ s.conf.registryClient = none
  live : ∀ i ss req', s.live i = some ss → ss.op = .deposit req' → Concerned req req' → req' = req
  account : ∃ b, s.shared.db.accounts.lookup req.accountId = some b
  row : ∀ row, s.shared.db.deposits.lookup req.requestId = some row →
    row = ⟨coinKeyOf req.coin, req.accountId⟩

theorem Retrying.step (h : Retrying req s) (hg : s.Good (protocol X)) {e : Event (service X)}
    (he : s.step e = some s') (hG : Retries req s e s') : Retrying req s' := by
  refine ⟨?_, fun i ss req' hl hop hc => ?_, ?_, fun row hl => ?_⟩
  · rcases Sys.conf_step he with hconf | hcrash
    · rw [hconf]
      exact h.conf
    · exact hG.conf _ hcrash
  · rcases Sys.live_step he hl with ⟨-, op, hstart, rfl⟩ | hold | ⟨_, _, _, _, _, _, hold, rfl⟩
    · obtain rfl : op = .deposit req' := hop
      exact hG.calls req' hstart hc
    · exact h.live i ss req' hold hop hc
    · exact h.live i _ req' hold hop hc
  · rcases Ledger.step_cases (L := ledger X) sound hg he with hdb | ⟨_, _, e, -, hv, -, hdb⟩
    · rw [hdb]
      exact h.account
    · rw [hdb]
      exact Entry.account_stays hv h.account
  · rcases Ledger.step_cases (L := ledger X) sound hg he with hdb | ⟨j, ss, e, hj, hv, hfrom, hdb⟩
    · exact h.row row (hdb ▸ hl)
    · rw [hdb] at hl
      cases e with
      | deposit r row' b =>
        obtain ⟨op, x, tx⟩ := ss
        cases op with
        | deposit req' =>
          obtain ⟨rfl, hacct, ⟨denom, hdenom, hcoin⟩, -⟩ := hfrom
          change (s.shared.db.deposits.put req'.requestId (some row')).lookup req.requestId =
            some row at hl
          rw [Table.lookup_put] at hl
          split at hl
          · rename_i hid
            obtain rfl := Option.some.inj hl
            obtain rfl := h.live j _ req' hj rfl (Or.inl hid.symm)
            rw [← coinKey_eq hdenom, ← hcoin, ← hacct]
          · exact h.row row hl
        | _ => exact hfrom.elim
      | _ => exact h.row row hl

theorem Retrying.steps {s₀ : Sys (service X)} (h₀ : Sys.Steps .any (start κ) s₀)
    (h : Retrying req s₀) (hs : Sys.StepsIn (Retries req) s₀ s) : Retrying req s := by
  induction hs with
  | refl => exact h
  | tail hrun hstep ih =>
    obtain ⟨e, he, hG⟩ := hstep
    exact ih.step (good (h₀.trans (Sys.steps_of_stepsIn hrun))) he hG

/-- The transaction of a deposit after its insert has the accounts as they are. -/
theorem did_spent {s₀ : Sys (service X)} {n : Nat} (h : Sys.Did G s₀ i op (spent req n ds) tx s) :
    ∃ s₁ s₂ t, Sys.StepsIn G s₀ s₁ ∧
      Sys.Does G s₁ s₂ i op (some t)
        ⟨.stmt (.insertSpent (coinKeyOf req.coin) req.requestId), .ok n⟩ tx ∧
      (n = 0 → ∃ r, s₁.shared.db.spentSerials.lookup (coinKeyOf req.coin) = some r) ∧
      ∃ t', tx = some t' ∧ ∀ db a, (t'.view db).accounts.lookup a = db.accounts.lookup a := by
  obtain ⟨s₁, s₂, t, h₁, rfl, hdoes, o, ws, hres, htx⟩ := h.next
    (T := fun t => t = (Tx.empty : Tx database).push (.selectDeposit req.requestId) none [] [])
    fun h => by
      obtain ⟨-, -, -, -, -, -, htx⟩ := did_looked h
      exact ⟨_, htx, rfl⟩
  refine ⟨s₁, s₂, _, h₁, hdoes, ?_⟩
  change (exec (.insertSpent (coinKeyOf req.coin) req.requestId) o s₁.shared.db).result =
    .ok (n, ws) at hres
  subst htx
  cases hl : s₁.shared.db.spentSerials.lookup (coinKeyOf req.coin) with
  | some r =>
    simp only [exec, hl, Effect.read, Except.ok.injEq, Prod.mk.injEq] at hres
    obtain ⟨-, rfl⟩ := hres
    exact ⟨fun _ => ⟨r, rfl⟩, _, rfl, fun _ _ => rfl⟩
  | none =>
    simp only [exec, hl, Effect.write, Except.ok.injEq, Prod.mk.injEq] at hres
    obtain ⟨rfl, rfl⟩ := hres
    exact ⟨fun h => absurd h (by decide), _, rfl, fun _ _ => rfl⟩

/-- **Retries at a time agree.** Take any reachable state in which the coin is genuine, the account
    is there, and nobody has deposited under the request id or is about to, nor deposits the coin,
    and any run from it whose steps meet the condition: every deposit of the request that is
    answered at all, and not with an error, is answered that it is accepted; and the coin credits
    once. -/
theorem retries_accepted {s₀ : Sys (service X)} (h₀ : Sys.Steps .any (start κ) s₀)
    (hgenuine : Genuine s₀.conf req.coin ∧ s₀.conf.registryClient = none)
    (hfresh : s₀.shared.db.deposits.lookup req.requestId = none)
    (haccount : ∃ b, s₀.shared.db.accounts.lookup req.accountId = some b)
    (hnobody : ∀ i ss req', s₀.live i = some ss → ss.op = .deposit req' → ¬ Concerned req req')
    (h : Sys.StepsIn (Retries req) s₀ s) :
    (s.shared.hist.filter fun c => spends c = some (coinKeyOf req.coin)).length ≤ 1 ∧
    ∀ a ∈ s.answers, s₀.next ≤ a.call → a.op = .deposit req → ∀ response,
      a.ans = .deposit (.ok response) → response = ⟨true, none⟩ ∧ CreditedTo s.shared req := by
  have hsteps := h₀.trans (Sys.steps_of_stepsIn h)
  have hretrying : Retrying req s₀ :=
    ⟨hgenuine, fun i ss req' hl hop hc => absurd hc (hnobody i ss req' hl hop), haccount,
      fun row hl => absurd (hfresh.symm.trans hl) (by simp)⟩
  refine ⟨?_, fun a ha hnew hop response hans => ?_⟩
  · have honce := creditedOnce hsteps
    cases hl : s.shared.db.spentSerials.lookup (coinKeyOf req.coin) with
    | none =>
      rw [honce.unspent _ hl]
      exact Nat.zero_le 1
    | some r =>
      obtain ⟨c, -, hfilter, -⟩ := honce.spent _ _ hl
      rw [hfilter]
      exact Nat.le_refl 1
  obtain ⟨s₁, ds, tx, h₁, hlater, hdid, -, hconf, hwhy⟩ := (Sys.deeds (P := fun _ _ => anyCmd)
    (Q := fun κ => Explained κ) (fun κ op => code_explained op) h
      (Sys.calls_init.steps h₀)).2 a ha hnew
  rw [hop, hans] at hwhy
  rw [hop] at hdid
  have hcredited : s₁.shared.db.deposits.lookup req.requestId =
      some ⟨coinKeyOf req.coin, req.accountId⟩ → CreditedTo s.shared req := fun hl =>
    creditedTo_of_lookup hsteps
      (deposit_stands (h₀.trans (Sys.steps_of_stepsIn h₁)) hl hlater)
  rcases hwhy with ⟨outcome, hended⟩ | ⟨reason, hrefused⟩
  · cases outcome with
    | accepted =>
      obtain ⟨rest, rfl⟩ := hended
      exact ⟨rfl, hcredited (did_commit h₀ hdid)⟩
    | replay =>
      obtain ⟨prior, rest, -, rfl⟩ := hended
      obtain ⟨s₂, s₃, tx', hdid', -, hrollback, hrests⟩ := hdid.last
      obtain ⟨s₄, s₅, h₄, hdoes, hl, hrests', -⟩ := did_looked hdid'
      obtain rfl := (hretrying.steps h₀ h₄).row prior hl
      have hlater' : Sys.StepsIn (Retries req) s₄ s₁ :=
        (hdoes.step.trans (Sys.stepsIn_of_rests hrests')).trans
          (hrollback.step.trans (Sys.stepsIn_of_rests hrests))
      exact ⟨rfl, hcredited (deposit_stands (h₀.trans (Sys.steps_of_stepsIn h₄)) hl hlater')⟩
    | requestIdReuse =>
      obtain ⟨prior, rest, hcoin, rfl⟩ := hended
      obtain ⟨s₂, s₃, tx', hdid', -⟩ := hdid.last
      obtain ⟨s₄, s₅, h₄, -, hl, -⟩ := did_looked hdid'
      have hrow := (hretrying.steps h₀ h₄).row prior hl
      exact absurd (congrArg DepositRow.coin hrow) hcoin
    | doubleSpend =>
      obtain ⟨rest, rfl⟩ := hended
      obtain ⟨s₂, s₃, tx', hdid', -⟩ := hdid.last
      obtain ⟨s₄, s₅, t, h₄, hdoes, hspent, -⟩ := did_spent hdid'
      obtain ⟨r, hl⟩ := hspent rfl
      obtain ⟨k, hlive⟩ := hdoes.live
      obtain ⟨o, -, hG⟩ := hdoes.calm
      have hinserts := hG.inserts
      simp only [insertsUnspent, hlive, hl] at hinserts
      exact absurd hinserts (by simp)
    | unknownAccount =>
      obtain ⟨denom, n, rest, rfl⟩ := hended
      obtain ⟨s₂, s₃, tx', hdid', -⟩ := hdid.last
      obtain ⟨s₄, s₅, t, h₄, hview, -, o, ws, hres, -⟩ := hdid'.next
        (T := fun t : Tx database =>
          ∀ db a, (t.view db).accounts.lookup a = db.accounts.lookup a)
        fun h => by
          obtain ⟨-, -, -, -, -, -, hview⟩ := did_spent h
          exact hview
      -- The account is there, so the update found it.
      obtain ⟨b, hb⟩ := (hretrying.steps h₀ h₄).account
      change (addBalance (t.view s₄.shared.db) req.accountId denom).result = .ok (0, ws) at hres
      rcases addBalance_ok hres with ⟨hnone, -⟩ | ⟨b', -, -, -, heff⟩
      · rw [hview, hb] at hnone
        exact absurd hnone (by simp)
      · rw [heff] at hres
        exact absurd (Prod.mk.inj (Except.ok.inj hres)).1 (by decide)
  · rw [← hconf] at hrefused
    exact absurd (hretrying.steps h₀ h₁).conf hrefused

/-- An event of a run in which nothing fails and nobody but the retries of `req` begins. -/
def onlyRetries (req : DepositRequest) : Event (service X) → Bool
  | .start op => op = .deposit req
  | .step _ fault _ => fault = .none
  | .drop _ | .crash _ => false

theorem retries_of_only {s₀ : Sys (service X)} (h : Sys.StepsIn (fun s e _ =>
    (onlyRetries req e && insertsUnspent (coinKeyOf req.coin) s e) = true) s₀ s) :
    Sys.StepsIn (Retries req) s₀ s := by
  refine Relation.ReflTransGen.mono (fun s₁ s₂ hstep => ?_) _ _ h
  obtain ⟨e, he, hg⟩ := hstep
  obtain ⟨honly, hinserts⟩ := (Bool.and_eq_true ..).mp hg
  refine ⟨e, he, fun req' hstart _ => ?_, fun κ hcrash => ?_, hinserts⟩
  · subst hstart
    exact Op.deposit.inj (of_decide_eq_true honly)
  · subst hcrash
    exact absurd honly (by simp [onlyRetries])

/-- A bank that is left with nobody calling. -/
theorem exists_idle {l : List (Event (service .toy))} {p : Sys (service .toy) → Bool}
    (hconf : ∀ κ, Event.crash κ ∉ l)
    (h : ((start Config.toy).run l).any (fun s =>
      decide (∀ i < s.next, (s.live i).isNone = true) && p s) = true) :
    ∃ s₀ : Sys (service .toy), Sys.Steps .any (start Config.toy) s₀ ∧ s₀.Idle ∧
      s₀.conf = Config.toy ∧ p s₀ = true := by
  obtain ⟨s₀, hs₀, hp⟩ := (Option.any_eq_true _ _).mp h
  obtain ⟨hnone, hp⟩ := (Bool.and_eq_true ..).mp hp
  have hsteps := Sys.steps_of_run hs₀
  exact ⟨s₀, hsteps, (Sys.calls_init.steps hsteps).idle (of_decide_eq_true hnone),
    Sys.conf_of_run hs₀ hconf, hp⟩

/-- A bank that has opened an account. -/
theorem exists_opened {p : Sys (service .toy) → Bool}
    (h : ((start Config.toy).run opened).any (fun s =>
      decide (∀ i < s.next, (s.live i).isNone = true) && p s) = true) :
    ∃ s₀ : Sys (service .toy), Sys.Steps .any (start Config.toy) s₀ ∧ s₀.Idle ∧
      s₀.conf = Config.toy ∧ p s₀ = true :=
  exists_idle (by simp [opened, call, go, Event.steps]) h

theorem genuine_toyCoin (serial : UInt8) : Genuine Config.toy (toyCoin serial) :=
  ⟨rfl, ⟨(), ()⟩, rfl, rfl⟩

/-- The second call has begun when the first commits, and looks after that. -/
theorem retries_accepted_two : ∃ s : Sys (service .toy), ∃ a ∈ s.answers, a.call = 3 ∧
    a.ans = .deposit (.ok ⟨true, none⟩) ∧ CreditedTo s.shared ⟨toyCoin 1, "alice", "p"⟩ := by
  obtain ⟨s₀, h₀, hidle, hconf, hp⟩ := exists_opened (p := fun s₀ =>
    decide (s₀.next = 2 ∧ s₀.shared.db.deposits.lookup "p" = none ∧
      s₀.shared.db.accounts.lookup "alice" = some 500) &&
    (s₀.runWhile (fun s e => onlyRetries ⟨toyCoin 1, "alice", "p"⟩ e &&
        insertsUnspent (coinKeyOf (toyCoin 1)) s e)
      (call (.deposit ⟨toyCoin 1, "alice", "p"⟩) :: go 2 3 ++
        call (.deposit ⟨toyCoin 1, "alice", "p"⟩) :: go 3 1 ++ go 2 4 ++
          go 3 3)).any fun s : Sys (service .toy) =>
      decide (∃ a ∈ s.answers, a.call = 3 ∧ a.op = .deposit ⟨toyCoin 1, "alice", "p"⟩ ∧
        a.ans = .deposit (.ok ⟨true, none⟩))) (by decide)
  obtain ⟨hstate, hrun⟩ := (Bool.and_eq_true ..).mp hp
  obtain ⟨hnext, hfresh, haccount⟩ := of_decide_eq_true hstate
  obtain ⟨s, hs, hans⟩ := Sys.exists_of_runWhile hrun
  obtain ⟨a, ha, hcall, hop, hans⟩ := of_decide_eq_true hans
  refine ⟨s, a, ha, hcall, hans, ((retries_accepted h₀ ⟨hconf ▸ genuine_toyCoin 1, hconf ▸ rfl⟩
    hfresh ⟨_, haccount⟩ (fun i ss req' hl => absurd hl (by simp [hidle i]))
    (retries_of_only hs)).2 a ha ?_ hop _ hans).2⟩
  rw [hnext, hcall]
  decide

/-- **Without the condition** the coin of a retry is spent, by the call it is a retry of: it has
    looked before that call committed. -/
theorem retry_refused : ∃ s₀ s : Sys (service .toy), Sys.Steps .any (start Config.toy) s₀ ∧
    s₀.Idle ∧ Genuine s₀.conf (toyCoin 1) ∧ s₀.conf.registryClient = none ∧
    s₀.shared.db.spentSerials.lookup (coinKeyOf (toyCoin 1)) = none ∧
    s₀.shared.db.accounts.lookup "alice" = some 500 ∧
    Sys.StepsIn (fun _ e _ => onlyRetries ⟨toyCoin 1, "alice", "p"⟩ e = true) s₀ s ∧
    ∃ a ∈ s.answers, a.op = .deposit ⟨toyCoin 1, "alice", "p"⟩ ∧
      a.ans = .deposit (.ok (reject .doubleSpend)) := by
  obtain ⟨s₀, h₀, hidle, hconf, hp⟩ := exists_opened (p := fun s₀ =>
    decide (s₀.shared.db.spentSerials.lookup (coinKeyOf (toyCoin 1)) = none ∧
      s₀.shared.db.accounts.lookup "alice" = some 500) &&
    (s₀.runWhile (fun _ e => onlyRetries ⟨toyCoin 1, "alice", "p"⟩ e)
      (call (.deposit ⟨toyCoin 1, "alice", "p"⟩) :: go 2 3 ++
        call (.deposit ⟨toyCoin 1, "alice", "p"⟩) :: go 3 2 ++ go 2 4 ++
          go 3 3)).any fun s : Sys (service .toy) =>
      decide (∃ a ∈ s.answers, a.op = .deposit ⟨toyCoin 1, "alice", "p"⟩ ∧
        a.ans = .deposit (.ok (reject .doubleSpend)))) (by decide)
  obtain ⟨hstate, hrun⟩ := (Bool.and_eq_true ..).mp hp
  obtain ⟨hunspent, haccount⟩ := of_decide_eq_true hstate
  obtain ⟨s, hs, hans⟩ := Sys.exists_of_runWhile hrun
  exact ⟨s₀, s, h₀, hidle, hconf ▸ genuine_toyCoin 1, hconf ▸ rfl, hunspent, haccount, hs,
    of_decide_eq_true hans⟩

end Digicash.Bank
