import Digicash.Bank.Deposits
import Digicash.Lib.Progress

/-!
# What a coin has credited

A coin credits once, in the commit of the deposit it is recorded under. And the answers fit: a
deposit that has committed is answered that its coin is accepted, unless it is answered an error,
and one that is answered so stands in the tables.
-/

namespace Digicash.Bank

open Lib

variable {X : Crypto} {κ : Config X} {s : Sys (service X)} {π : Policy (service X)}

/-! ## The credits of one coin -/

/-- The coin as the tables name it. -/
def coinKeyOf (coin : Coin) : CoinKey := coinKey coin coin.denominationCents.toNat

theorem coinKey_eq {coin : Coin} {denom : Int}
    (h : i64TryFrom coin.denominationCents = some denom) : coinKey coin denom = coinKeyOf coin := by
  rw [coinKeyOf, (i64TryFrom_eq_some h).1]

/-- The coin that a committed deposit spent. -/
def spends (c : Commit database Op) : Option CoinKey :=
  match c.op with
  | .deposit req => some (coinKeyOf req.coin)
  | _ => none

/-- What the deposits of `coin` among these commits credited to `a`. -/
def creditedFor (a : String) (coin : CoinKey) (hist : List (Commit database Op)) : Int :=
  ((hist.filter fun c => spends c = some coin).map (crediting a)).sum

/-- One commit spent each coin that is spent, for the request it is recorded under. -/
structure CreditedOnce (sh : State X) : Prop where
  unspent : ∀ coin, sh.db.spentSerials.lookup coin = none →
    (sh.hist.filter fun c => spends c = some coin) = []
  spent : ∀ coin r, sh.db.spentSerials.lookup coin = some r → ∃ c req,
    (sh.hist.filter fun c => spends c = some coin) = [c] ∧ c.op = .deposit req ∧
      req.requestId = r ∧
      ∀ a, crediting a c = if req.accountId = a then coin.denominationCents else 0

/-- A commit that spends no coin. -/
theorem CreditedOnce.other {sh : State X} (h : CreditedOnce sh) {db : Tables} {mem : Memory}
    {c : Commit database Op} (hspent : db.spentSerials = sh.db.spentSerials)
    (hc : spends c = none) : CreditedOnce (⟨db, mem, c :: sh.hist⟩ : State X) := by
  have hfilter : ∀ coin, ((c :: sh.hist).filter fun c => spends c = some coin) =
      sh.hist.filter fun c => spends c = some coin :=
    fun coin => List.filter_cons_of_neg (by simp [hc])
  refine ⟨fun coin hl => ?_, fun coin r hl => ?_⟩
  · rw [hfilter]
    exact h.unspent coin (hspent ▸ hl)
  · rw [hfilter]
    exact h.spent coin r (hspent ▸ hl)

theorem creditedOnce (h : Sys.Steps π (start κ) s) : CreditedOnce s.shared := by
  refine invariant (J := fun _ sh => CreditedOnce sh) h
    ⟨fun _ _ => rfl, fun _ _ hl => absurd hl (by simp [Tables.empty])⟩ ?_
    (fun h _ => ⟨h.unspent, h.spent⟩) fun h _ => ⟨h.unspent, h.spent⟩
  intro κ sh call op e _ hj hv hfrom _
  cases e with
  | deposit r row b =>
    cases op with
    | deposit req =>
      have hcredit := Entry.crediting_eq hv hfrom
      obtain ⟨rfl, hacct, ⟨denom, hdenom, hcoin⟩, -⟩ := hfrom
      obtain ⟨-, hfresh, -⟩ := hv
      have hkey : row.coin = coinKeyOf req.coin := hcoin.trans (coinKey_eq hdenom)
      refine ⟨fun coin hl => ?_, fun coin r' hl => ?_⟩
      · have hne : coin ≠ row.coin := fun he => by
          subst he
          exact absurd ((Table.lookup_put_self ..).symm.trans hl) (by simp)
        rw [List.filter_cons_of_neg (by simpa [spends, ← hkey] using fun he => hne he.symm)]
        exact hj.unspent coin ((Table.lookup_put_ne hne).symm.trans hl)
      · by_cases he : coin = row.coin
        · subst he
          obtain rfl : req.requestId = r' :=
            Option.some.inj ((Table.lookup_put_self ..).symm.trans hl)
          refine ⟨⟨call, .deposit req, (Entry.deposit req.requestId row b).tx, sh.db⟩, req, ?_, rfl,
            rfl, fun a => ?_⟩
          · rw [List.filter_cons_of_pos (by simp [spends, hkey]), hj.unspent _ hfresh]
          · rw [hcredit, Entry.deposits, hacct]
        · rw [List.filter_cons_of_neg (by simpa [spends, ← hkey] using fun h => he h.symm)]
          exact hj.spent coin r' ((Table.lookup_put_ne he).symm.trans hl)
    | _ => exact hfrom.elim
  | _ =>
    refine hj.other rfl ?_
    cases op <;> first | exact hfrom.elim | rfl

/-- Every deposit that stands was committed by a request for it. -/
theorem recorded_by (h : Sys.Steps π (start κ) s) : ∀ r row,
    s.shared.db.deposits.lookup r = some row → ∃ c ∈ s.shared.hist, ∃ req, c.op = .deposit req ∧
      req.requestId = r ∧ row = ⟨coinKeyOf req.coin, req.accountId⟩ := by
  refine invariant (J := fun _ sh => ∀ r row, sh.db.deposits.lookup r = some row →
    ∃ c ∈ sh.hist, ∃ req, c.op = .deposit req ∧ req.requestId = r ∧
      row = ⟨coinKeyOf req.coin, req.accountId⟩) h
    (fun _ _ hl => absurd hl (by simp [Tables.empty])) ?_ (fun h _ => h) fun h _ => h
  intro κ sh call op e _ hj hv hfrom _ r row hl
  have hold : sh.db.deposits.lookup r = some row → ∃ c ∈ ⟨call, op, e.tx, sh.db⟩ :: sh.hist,
      ∃ req, c.op = .deposit req ∧ req.requestId = r ∧
        row = ⟨coinKeyOf req.coin, req.accountId⟩ := fun hl => by
    obtain ⟨c, hc, hrest⟩ := hj r row hl
    exact ⟨c, List.mem_cons_of_mem _ hc, hrest⟩
  cases e with
  | deposit r' row' b =>
    cases op with
    | deposit req =>
      obtain ⟨rfl, hacct, ⟨denom, hdenom, hcoin⟩, -⟩ := hfrom
      rw [Entry.apply, Table.lookup_put] at hl
      split at hl
      · obtain rfl := Option.some.inj hl
        refine ⟨_, List.mem_cons_self .., req, rfl, Eq.symm ‹_›, ?_⟩
        rw [← coinKey_eq hdenom, ← hcoin, ← hacct]
      · exact hold hl
    | _ => exact hfrom.elim
  | _ => exact hold hl

/-- The coin of the request has credited its account, once, and under its request id. -/
def CreditedTo (sh : State X) (req : DepositRequest) : Prop :=
  ∃ c req', (sh.hist.filter fun c => spends c = some (coinKeyOf req.coin)) = [c] ∧
    c.op = .deposit req' ∧ req'.requestId = req.requestId ∧
    ∀ a, crediting a c =
      if req.accountId = a then (coinKeyOf req.coin).denominationCents else 0

/-- A deposit that stands has credited its account, once. -/
theorem creditedTo_of_lookup (h : Sys.Steps π (start κ) s) {req : DepositRequest}
    (hl : s.shared.db.deposits.lookup req.requestId = some ⟨coinKeyOf req.coin, req.accountId⟩) :
    CreditedTo s.shared req := by
  have hspent := (spentByDeposit h (coinKeyOf req.coin) req.requestId).mpr ⟨_, hl⟩
  obtain ⟨c, req₁, hfilter, hop, hid, hcredit⟩ := (creditedOnce h).spent _ _ hspent
  obtain ⟨c', hc', req', hop', -, hrow⟩ := recorded_by h _ _ hl
  obtain ⟨hcoin, hacct⟩ := DepositRow.mk.inj hrow
  -- One commit only has spent the coin, and the row was recorded by one that did.
  have hmem : c' ∈ s.shared.hist.filter fun c => spends c = some (coinKeyOf req.coin) :=
    List.mem_filter.mpr ⟨hc', decide_eq_true (by rw [spends, hop', hcoin])⟩
  rw [hfilter] at hmem
  obtain rfl := List.mem_singleton.mp hmem
  obtain rfl : req' = req₁ := Op.deposit.inj (hop'.symm.trans hop)
  exact ⟨c', req', hfilter, hop, hid, fun a => by rw [hcredit a, hacct]⟩

/-- What a coin has credited among the commits that satisfy `p`. -/
theorem CreditedOnce.creditedFor {sh : State X} (h : CreditedOnce sh) (a : String)
    (coin : CoinKey) (p : Commit database Op → Bool) :
    (sh.db.spentSerials.lookup coin = none ∧ creditedFor a coin (sh.hist.filter p) = 0) ∨
    ∃ c req, c ∈ sh.hist ∧ c.op = .deposit req ∧ coinKeyOf req.coin = coin ∧
      sh.db.spentSerials.lookup coin = some req.requestId ∧
      (∀ c' ∈ sh.hist, spends c' = some coin → c' = c) ∧
      creditedFor a coin (sh.hist.filter p) =
        if p c = true ∧ req.accountId = a then coin.denominationCents else 0 := by
  have hswap : ((sh.hist.filter p).filter fun c => spends c = some coin) =
      (sh.hist.filter fun c => spends c = some coin).filter p := by
    rw [List.filter_filter, List.filter_filter]
    exact List.filter_congr fun c _ => Bool.and_comm ..
  cases hl : sh.db.spentSerials.lookup coin with
  | none =>
    refine Or.inl ⟨rfl, ?_⟩
    rw [Bank.creditedFor, hswap, h.unspent coin hl]
    rfl
  | some r =>
    obtain ⟨c, req, hfilter, hop, rfl, hcredit⟩ := h.spent coin r hl
    have hc : c ∈ sh.hist.filter fun c => spends c = some coin := by
      rw [hfilter]
      exact List.mem_singleton_self c
    obtain ⟨hmem, hspends⟩ := List.mem_filter.mp hc
    have hspends := of_decide_eq_true hspends
    rw [spends, hop] at hspends
    refine Or.inr ⟨c, req, hmem, hop, Option.some.inj hspends, rfl, fun c' hc' hs => ?_, ?_⟩
    · have hmem' : c' ∈ sh.hist.filter fun c => spends c = some coin :=
        List.mem_filter.mpr ⟨hc', decide_eq_true hs⟩
      rw [hfilter] at hmem'
      exact List.mem_singleton.mp hmem'
    · rw [Bank.creditedFor, hswap, hfilter]
      by_cases hp : p c = true
      · simp [hp, hcredit a]
      · simp [hp]

/-- Commits that did not spend the coin have not credited it. -/
theorem creditedFor_filter {a : String} {coin : CoinKey} {hist : List (Commit database Op)}
    {p : Commit database Op → Bool} (h : ∀ c ∈ hist, spends c = some coin → p c = true) :
    creditedFor a coin (hist.filter p) = creditedFor a coin hist := by
  have hfilter : ((hist.filter p).filter fun c => spends c = some coin) =
      hist.filter fun c => spends c = some coin := by
    rw [List.filter_filter]
    refine List.filter_congr fun c hc => ?_
    by_cases hs : spends c = some coin
    · simp [hs, h c hc hs]
    · simp [hs]
  rw [creditedFor, hfilter, creditedFor]

/-! ## What is answered -/

/-- An answer that does not refuse the coin. -/
def Grants (a : Ans) : Prop := ∀ response, a = .deposit (.ok response) → response.accepted = true

/-- A transaction of a deposit that has committed ends in an answer that grants, or in an error. -/
theorem commitDeposit_committed (req : DepositRequest) :
    Committed (fun _ => True) (fun r => ∀ outcome, r = .ok outcome → outcome.response.accepted = true)
      (commitDeposit req).run := by
  have hsql : ∀ s : Stmt, (sql s).run.Only (· ≠ .commit) :=
    fun s => only_query (fun h => by cases h)
  unfold commitDeposit
  refine .bind_ok trivial fun denom => .transaction ?_ ?_
    fun e _ _ h => by cases h
  · refine only_bind (hsql _) fun prior => ?_
    cases prior with
    | some prior =>
      dsimp only
      split <;> trivial
    | none =>
      refine only_bind (hsql _) fun inserted => ?_
      split
      · trivial
      · refine only_bind (hsql _) fun credited => ?_
        split
        · trivial
        · exact only_bind (hsql _) fun _ => trivial
  · refine results_bind (fun _ _ h => by cases h) fun prior => ?_
    cases prior with
    | some prior =>
      dsimp only
      split <;> exact fun _ h => by cases h
    | none =>
      refine results_bind (fun _ _ h => by cases h) fun inserted => ?_
      split
      · exact fun _ h => by cases h
      · refine results_bind (fun _ _ h => by cases h) fun credited => ?_
        split
        · exact fun _ h => by cases h
        · refine results_bind (fun _ _ h => by cases h) fun _ a h _ outcome ho => ?_
          cases h
          cases ho
          rfl

theorem depositLocally_committed (req : DepositRequest) :
    Committed (fun _ => True) (fun r => ∀ response, r = .ok response → response.accepted = true)
      (depositLocally req).run := by
  refine .bind_error (fun _ _ _ h => by cases h) (fun outcome h response hr => ?_)
    (fun _ => .of_only trivial) (commitDeposit_committed req)
  cases hr
  exact h outcome rfl

theorem deposit_committed (req : DepositRequest) :
    Committed (fun _ => True) Grants (code κ (.deposit req)) := by
  have hpure : ∀ {r : DepositResponse}, Committed (fun _ => True)
      (fun r => ∀ response, r = .ok response → response.accepted = true)
        (pure r : BankM DepositResponse).run := .of_only trivial
  refine .map (R := fun r => ∀ response, r = .ok response → response.accepted = true)
    (fun r hr response h => hr response (Ans.deposit.inj h)) ?_
  unfold deposit
  dsimp only
  split
  · exact hpure
  split
  · exact hpure
  split
  · exact hpure
  split
  · exact depositLocally_committed req
  · rename_i client _
    refine .bind_ok ⟨fun h => (by cases h), fun _ => trivial⟩ fun now => ?_
    refine .bind_ok ?_ fun outcome => ?_
    · refine only_bind ⟨fun h => (by cases h), fun _ => trivial⟩ fun reply => ?_
      exact only_bind trivial fun _ => trivial
    · cases outcome with
      | accepted => exact depositLocally_committed req
      | doubleSpend => exact hpure
      | exposureCapExceeded => exact hpure

/-- **Whoever has committed a deposit hears that it was accepted, or an error.** -/
theorem accepted_of_commit (h : Sys.Steps π (start κ) s) {c : Commit database Op}
    (hc : c ∈ s.shared.hist) (hdeposit : c.op.isDeposit = true) {a : Answer (service X)}
    (ha : a ∈ s.answers) (hcall : a.call = c.call) {response : DepositResponse}
    (hans : a.ans = .deposit (.ok response)) : response.accepted = true := by
  refine Sys.answered_of_commit (S := service X) (G := fun op => op.isDeposit = true) (Q := Grants)
    (fun κ op hop => ?_) h Sys.calls_init (fun _ => rfl) rfl ?_ c hc hdeposit a ha hcall response
    hans
  · cases op with
    | deposit req => exact deposit_committed req
    | _ => cases hop
  · -- The transaction of a deposit has four statements.
    intro s₁ h₁
    refine of_commits (P := fun c => c.op.isDeposit = true → c.tx.trace.length ≠ 1) h₁ ?_
    intro κ db mem call op e _ hfrom hop
    cases op with
    | deposit req =>
      cases e with
      | deposit r row b => simp [Entry.tx, Entry.ran, Tx.push, Tx.empty]
      | _ => exact hfrom.elim
    | _ => cases hop

/-- A coin is refused exactly with a reason. -/
def Reasoned (r : Except BankError DepositResponse) : Prop :=
  ∀ response, r = .ok response → response.accepted = response.reason.isNone

theorem Reasoned.error (e : BankError) : Reasoned (.error e) := fun _ h => by cases h

theorem depositLocally_reasoned (req : DepositRequest) : (depositLocally req).run.Results Reasoned := by
  refine results_bind Reasoned.error fun outcome response h => ?_
  cases h
  cases outcome <;> rfl

theorem deposit_reasoned (req : DepositRequest) : (deposit κ req).run.Results Reasoned := by
  have hreject : ∀ reason, (pure (reject reason) : BankM DepositResponse).run.Results Reasoned := by
    intro reason response h
    cases h
    rfl
  unfold deposit
  dsimp only
  split
  · exact hreject _
  split
  · exact hreject _
  split
  · exact hreject _
  split
  · exact depositLocally_reasoned req
  · refine results_bind Reasoned.error fun now => results_bind Reasoned.error fun outcome => ?_
    cases outcome with
    | accepted => exact depositLocally_reasoned req
    | doubleSpend => exact hreject _
    | exposureCapExceeded => exact hreject _

theorem reason_of_answer (h : Sys.Steps π (start κ) s) {a : Answer (service X)}
    (ha : a ∈ s.answers) {response : DepositResponse} (hans : a.ans = .deposit (.ok response)) :
    response.accepted = response.reason.isNone := by
  have hmap : ∀ {α : Type} {x : Code database α} {f : α → Ans} {Q : Ans → Prop},
      x.Results (fun a => Q (f a)) → (f <$> x).Results Q := fun hx =>
    Prog.Results.bind (f := fun a => .pure (_ : Ans)) (fun _ h => h) hx
  have hcode : ∀ (κ : Config X) op, (code κ op).Results fun a =>
      ∀ r, a = .deposit r → Reasoned r := by
    intro κ op
    cases op with
    | deposit req => exact hmap ((deposit_reasoned req).mono fun r hr r' h => Ans.deposit.inj h ▸ hr)
    | _ => exact hmap (Prog.Results.mono (fun _ _ _ h => by cases h) .trivial)
  rcases Sys.answers_of_code (S := service X)
    (C := fun _ x => x.Results fun a => ∀ r, a = Ans.deposit r → Reasoned r) hcode (fun _ _ _ h => h) h (fun _ _ hl => absurd hl (by simp [start, Sys.init])) a ha with
    hold | hdone
  · exact absurd hold (by simp [start, Sys.init])
  · exact hdone _ hans response rfl

end Digicash.Bank
