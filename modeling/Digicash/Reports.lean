import Digicash.Bank.Crediting
import Digicash.Market

/-!
# What a deposit reports

A payee deposits a bundle, perhaps more than once, and reads the report of its last call. What the
report says about a coin is what the bank answered to the one request this call made for it. So
the coins it says were accepted are credited, and those that this call's requests credited are
among them.

Each call makes requests of its own. A coin that a request of an earlier call has credited, whose
answer was lost, is spent by the time the next call asks: `reported_spent` is such a run.
-/

namespace Digicash

open Lib

variable {X : Crypto} {W : Type}

namespace Wallet

/-! ## The requests of one call -/

/-- One coin of a deposit that came through: the request made for it, and the answer. -/
structure Turn where
  coin : Coin
  requestId : String
  response : DepositResponse

def Turn.request (accountId : String) (t : Turn) : DepositRequest :=
  ⟨t.coin, accountId, t.requestId⟩

def Turn.outcome (t : Turn) : DepositOutcome :=
  ⟨t.coin.denominationCents, t.response.accepted, t.response.reason⟩

def Turn.tendered (i : CallId) (accountId : String) (t : Turn) : Tendered :=
  ⟨i, t.request accountId, .ok t.response⟩

def Turn.exchange (i : CallId) (accountId : String) (t : Turn) : Exchange :=
  ⟨i, .deposit (t.request accountId), some (.deposit (.ok t.response))⟩

/-- The report of call `i` is made of these turns, and they are all it asked. -/
structure Reports (i : CallId) (accountId : String) (bundle : List Coin)
    (outcomes : List DepositOutcome) (ts : List Turn) (m : Memory) : Prop where
  coins : bundle = ts.map Turn.coin
  outcomes : outcomes = ts.map Turn.outcome
  asked : ∀ t ∈ ts, t.exchange i accountId ∈ m.log (.deposit (t.request accountId))
  only : ∀ request, ∀ e ∈ m.log (.deposit request), e.call = i →
    ∃ t ∈ ts, e = t.exchange i accountId

variable {A : Outcomes (service X)} {i : CallId} {op : Op} {sh : State X}

theorem depositCoins_turns {accountId : String} : ∀ {coins : List Coin} {sh : State X},
    Alone.Spec A i op (fun _ => True)
      (fun outcomes tx (sh' : State X) => tx = none ∧ ∃ ts : List Turn,
        coins = ts.map Turn.coin ∧ outcomes = ts.map Turn.outcome ∧
        sh'.mem.tendered = (ts.map (Turn.tendered i accountId)).reverse ++ sh.mem.tendered)
      Whatever (depositCoins accountId coins) none sh
  | [], _ => Alone.Spec.ok ⟨rfl, [], rfl, rfl, rfl⟩
  | coin :: coins, sh => by
    refine Alone.Spec.bind (R := fun outcome tx (sh' : State X) => tx = none ∧ ∃ t : Turn,
      coin = t.coin ∧ outcome = t.outcome ∧
        sh'.mem.tendered = t.tendered i accountId :: sh.mem.tendered) trivial
      (depositCoin_spec trivial (fun _ => trivial) ?_) fun outcome tx sh₁ _ h₁ => ?_
    · intro requestId reply fault o _
      refine ⟨trivial, fun _ _ => trivial, fun response hreply => ⟨rfl, ?_⟩⟩
      subst hreply
      exact ⟨⟨coin, requestId, response⟩, rfl, rfl, rfl⟩
    · obtain ⟨rfl, t, rfl, rfl, htendered⟩ := h₁
      refine Alone.Spec.bind trivial depositCoins_turns fun outcomes tx sh₂ _ h₂ => ?_
      obtain ⟨rfl, ts, rfl, rfl, htendered₂⟩ := h₂
      refine Alone.Spec.ok ⟨rfl, t :: ts, rfl, rfl, ?_⟩
      rw [htendered₂, htendered, List.map_cons, List.reverse_cons, List.append_assoc]
      rfl

/-- A deposit of the bundle at `path` that had not asked for anything before. -/
theorem deposit_turns {path : String} {accountId : String} {bundle : List Coin}
    (hid : sh.db.accountId = some accountId) (hfile : sh.db.files.lookup path = some (.ok bundle))
    (hnew : ∀ e ∈ sh.mem.tendered, e.call ≠ i) :
    Alone A i op (fun _ => True) (fun ans _ (sh' : State X) => ∀ outcomes,
      ans = .deposit (.ok outcomes) → ∃ ts, Reports i accountId bundle outcomes ts sh'.mem)
      (code X (.deposit path)) none sh := by
  refine Alone.Spec.answer (Q := fun outcomes _ (sh' : State X) =>
    ∃ ts, Reports i accountId bundle outcomes ts sh'.mem) (E := Whatever) trivial ?_ ?_ ?_
  · refine client_bind trivial (fun _ => trivial) fun accountId' hid' => ?_
    obtain rfl : accountId = accountId' := Option.some.inj (hid.symm.trans hid')
    refine read_bind (fun _ d => d.files.lookup path) (fun _ _ => rfl) trivial (fun _ => trivial)
      fun _ => ?_
    rw [hfile]
    refine Alone.Spec.mono trivial depositCoins_turns (fun outcomes tx sh' _ hr => ?_)
      fun _ _ _ _ _ => trivial
    obtain ⟨-, ts, hcoins, houtcomes, htendered⟩ := hr
    refine ⟨ts, hcoins, houtcomes, fun t ht => ?_, fun request e he hcall => ?_⟩
    · refine List.mem_map.mpr ⟨t.tendered i accountId, ?_, rfl⟩
      rw [htendered]
      exact List.mem_append_left _ (List.mem_reverse.mpr (List.mem_map_of_mem ht))
    · obtain ⟨d, hd, rfl⟩ := List.mem_map.mp he
      rw [htendered] at hd
      rcases List.mem_append.mp hd with hd | hd
      · obtain ⟨t, ht, rfl⟩ := List.mem_map.mp (List.mem_reverse.mp hd)
        exact ⟨t, ht, rfl⟩
      · exact absurd hcall (hnew d hd)
  · intro outcomes tx sh' _ hr outcomes' heq
    obtain rfl := Except.ok.inj (Ans.deposit.inj heq)
    exact hr
  · intro e tx sh' _ _ outcomes heq
    cases heq

variable {accountId : Option String} {files : Table String File} {s s' s₁ s₂ : Sys (service X)}

/-- What was heard, was heard by a call that has begun. -/
theorem heard_lt (h : Sys.Steps .any (start X accountId files) s) :
    ∀ request, ∀ e ∈ s.shared.mem.log request, e.call < s.next := by
  induction h with
  | refl =>
    intro request e he
    cases request <;> exact absurd he (by simp [start, Sys.init, Memory.log, Memory.fresh])
  | @tail s₁ s₂ hrun hstep ih =>
    obtain ⟨ev, hev, -⟩ := hstep
    have hle := Sys.next_le hev
    intro request e he
    rcases log_step hev with ⟨hlog, -⟩ | ⟨i, fault, o, request', -, hw, hnew, hlog⟩
    · exact Nat.lt_of_lt_of_le (ih request e (hlog ▸ he)) hle
    · rcases hlog request with heq | ⟨hsame, heq⟩
      · exact Nat.lt_of_lt_of_le (ih request e (heq ▸ he)) hle
      · rw [heq, hnew, ← hsame] at he
        rcases List.mem_cons.mp he with rfl | he
        · obtain ⟨ss, hss⟩ := Option.ne_none_iff_exists'.mp (live_of_waiting hw)
          exact Nat.lt_of_lt_of_le ((Sys.calls_init.steps hrun).live i ss hss) hle
        · exact Nat.lt_of_lt_of_le (ih request e he) hle

/-- Once its call is over, a report stays one. -/
theorem Reports.step {a : String} {bundle : List Coin} {outcomes : List DepositOutcome}
    {ts : List Turn} {e : Event (service X)} (h : Reports i a bundle outcomes ts s.shared.mem)
    (hs : s.step e = some s') (hi : s.live i = none) :
    Reports i a bundle outcomes ts s'.shared.mem := by
  rcases log_step hs with ⟨hlog, -⟩ | ⟨j, fault, o, request, -, hw, hnew, hlog⟩
  · exact ⟨h.coins, h.outcomes, hlog ▸ h.asked, hlog ▸ h.only⟩
  · refine ⟨h.coins, h.outcomes, fun t ht => ?_, fun r e he hcall => ?_⟩
    · rcases hlog (.deposit (t.request a)) with heq | ⟨hsame, heq⟩
      · exact heq ▸ h.asked t ht
      · rw [heq, hnew, ← hsame]
        exact List.mem_cons_of_mem _ (h.asked t ht)
    · rcases hlog (.deposit r) with heq | ⟨hsame, heq⟩
      · exact h.only r e (heq ▸ he) hcall
      · rw [heq, hnew, ← hsame] at he
        rcases List.mem_cons.mp he with rfl | he
        · exact absurd hi (hcall ▸ live_of_waiting hw)
        · exact h.only r e he hcall

/-- **What a deposit reports** is what its requests were answered. -/
theorem deposit_reports {path : String} {a : String} {bundle : List Coin}
    (h₁ : Sys.Steps .any (start X (some a) files) s₁)
    (hstart : s₁.step (.start (.deposit path)) = some s₂)
    (hfile : s₁.shared.db.files.lookup path = some (.ok bundle)) (hrun : Sys.Steps .any s₂ s)
    {ans : Answer (service X)} (hmem : ans ∈ s.answers) (hcall : ans.call = s₁.next)
    {outcomes : List DepositOutcome} (hans : ans.ans = .deposit (.ok outcomes)) :
    ∃ ts, Reports s₁.next a bundle outcomes ts s.shared.mem := by
  have hfree := (Sys.tended (A := fun _ _ _ _ => True) (C := fun _ => True)
    (Q := fun _ _ _ _ _ => True) exclusive h₁ (fun _ => rfl) trivial (fun _ => trivial)
    (fun _ _ => trivial) fun _ => Alone.trivial).2
  have hstep : Sys.Steps .any s₁ s₂ := .single ⟨_, hstart, Policy.any_allows _ _ _⟩
  have hcalls := Sys.calls_init.steps h₁
  obtain ⟨m, hm, rfl⟩ := Option.map_eq_some_iff.mp hstart
  obtain ⟨hrunning, hm⟩ := Option.ite_none_left_eq_some.mp hm
  obtain rfl := Option.some.inj hm
  have hidle : s₁.Idle := hfree (Bool.eq_false_iff.mpr hrunning)
  -- From here on the call promises its report, and no other call has its number.
  let Q : CallId → Op → Ans → Option (Tx database) → State X → Prop := fun j _ ans _ sh =>
    j = s₁.next → ∀ outcomes, ans = .deposit (.ok outcomes) →
      ∃ ts, Reports s₁.next a bundle outcomes ts sh.mem
  have htended := (hidle.tended (A := fun _ _ _ _ => True) (C := fun _ => True) (Q := Q)
    trivial).step hstart (fun _ _ _ _ => trivial) (fun op heq => ?_) fun _ _ => trivial
  · rcases htended.answered exclusive (fun hf => absurd hf (by simp)) (hcalls.step hstart) hrun
      (i := s₁.next) (K := fun ans sh => ∀ outcomes, ans = .deposit (.ok outcomes) →
        ∃ ts, Reports s₁.next a bundle outcomes ts sh.mem) (Nat.lt_succ_self _)
      (fun _ => trivial) (fun _ _ => trivial) (fun _ => trivial)
      (fun {j _ _ _} hj _ => Alone.mono (fun _ _ _ _ _ (he : j = s₁.next) =>
        absurd (he ▸ hj) (Nat.lt_irrefl _)) trivial Alone.trivial) (fun hQ => hQ rfl)
      (fun hs hi hK outcomes heq => (hK outcomes heq).imp fun _ hr => hr.step hs hi) ans hmem hcall
      with hold | hK
    · exact absurd (hcalls.answered ans hold).1 (by simp [hcall])
    · exact hK outcomes hans
  · cases heq
    refine ⟨hidle, trivial, Alone.mono (fun _ _ _ _ hr _ => hr) trivial (deposit_turns
      (own_tended h₁).now.identity hfile fun e he hlast => ?_)⟩
    have hlog := heard_lt h₁ (.deposit e.request) _ (List.mem_map_of_mem he)
    exact absurd hlog (by simp [hlast])

end Wallet

namespace Market

/-! ## What a coin has credited, and for which call -/

/-- The commit was made for a request of call `i` of wallet `w`. -/
def madeFor [DecidableEq W] (s : Market X W) (w : W) (i : CallId)
    (c : Commit Bank.database Bank.Op) : Bool :=
  (s.about c.call).any fun m => decide (m.wallet = w ∧ m.call = i)

/-- What the coins of the bundle have credited to `a` by these commits. -/
def credited (a : String) (bundle : List Coin) (hist : List (Commit Bank.database Bank.Op)) : Int :=
  (bundle.map fun coin => Bank.creditedFor a (Bank.coinKeyOf coin) hist).sum

/-- Nobody else deposits these coins: each deposit of one that has committed was asked for by this
    wallet. -/
def OnlyBy [DecidableEq W] (s : Market X W) (w : W) (bundle : List Coin) : Prop :=
  ∀ c ∈ s.bank.shared.hist, ∀ coin ∈ bundle, Bank.spends c = some (Bank.coinKeyOf coin) →
    (s.about c.call).any (fun m => decide (m.wallet = w)) = true

instance [DecidableEq W] (s : Market X W) (w : W) (bundle : List Coin) :
    Decidable (s.OnlyBy w bundle) :=
  inferInstanceAs (Decidable (∀ c ∈ s.bank.shared.hist, ∀ coin ∈ bundle,
    Bank.spends c = some (Bank.coinKeyOf coin) →
      (s.about c.call).any (fun m => decide (m.wallet = w)) = true))

/-- What the report says was accepted. -/
def accepted (outcomes : List Wallet.DepositOutcome) : Int :=
  ((outcomes.filter fun o => o.accepted).map fun o => (o.denominationCents.toNat : Int)).sum

variable [DecidableEq W] {π : MarketPolicy X W} {κ : Bank.Config X} {accountId : W → Option String}
  {files : W → Table String Wallet.File} {s s' : Market X W}

/-- A commit for a letter is of the letter's request. -/
theorem op_of_about (h : Steps π (start κ accountId files) s) :
    ∀ c ∈ s.bank.shared.hist, ∀ m, s.about c.call = some m → c.op = m.request.op := by
  induction h with
  | refl => exact fun _ hc => absurd hc (by simp [Market.start, Bank.start, Sys.init])
  | @tail s₁ s₂ hrun hstep ih =>
    have hlinked := linked hrun
    have hlt := Sys.lt_of_mem_hist (steps_bank hrun) Sys.calls_init
      fun _ hc => absurd hc (by simp [Market.start, Bank.start, Sys.init])
    -- A commit of this step is of a call that was in flight.
    have hbank : ∀ {e t}, s₁.bank.step e = some t → ∀ c ∈ t.shared.hist, ∀ m,
        s₁.about c.call = some m → c.op = m.request.op := by
      intro e t ht c hc m hm
      rcases Sys.hist_step ht with heq | ⟨c', ss, hl, hop, heq⟩
      · exact ih c (heq ▸ hc) m hm
      · rw [heq] at hc
        rcases List.mem_cons.mp hc with rfl | hc
        · exact hop.trans ((hlinked.about _ m hm).2.live ss hl)
        · exact ih c hc m hm
    obtain ⟨e, he, -⟩ := hstep
    cases stepped he with
    | bank ht => exact hbank ht
    | wallet _ _ => exact ih
    | post _ _ => exact ih
    | @deliver n m t hm hnew ht =>
      intro c hc m' hm'
      have hsame : t.shared.hist = s₁.bank.shared.hist := by
        obtain ⟨mem, -, rfl⟩ := Option.map_eq_some_iff.mp ht
        rfl
      have hne : c.call ≠ s₁.bank.next := Nat.ne_of_lt (hlt c (hsame ▸ hc))
      change Function.update s₁.about s₁.bank.next (some m) c.call = some m' at hm'
      rw [Function.update_of_ne hne] at hm'
      exact hbank ht c hc m' hm'

/-! ## One coin of a report -/

variable {w : W} {i : CallId} {a : String} {bundle : List Coin}
  {outcomes : List Wallet.DepositOutcome} {ts : List Wallet.Turn}

/-- The answer a turn reports is one the bank gave to a letter of its request. -/
theorem answered_of_asked (h : Steps π (start κ accountId files) s) {t : Wallet.Turn}
    (ht : t.exchange i a ∈ (s.wallet w).shared.mem.log (.deposit (t.request a))) :
    ∃ b ∈ s.bank.answers, b.op = .deposit (t.request a) ∧ b.ans = .deposit (.ok t.response) := by
  have hlinked := linked h
  obtain ⟨n, hn⟩ := List.getElem?_of_mem (List.mem_reverse.mpr ht)
  obtain ⟨b, hb, hans, habout⟩ := hlinked.heard w _ n _ hn _ rfl
  exact ⟨b, hb, (hlinked.about _ _ habout).2.answered b hb rfl, hans⟩

/-- A coin that is reported accepted has credited its payee. -/
theorem credited_of_accepted (h : Steps π (start κ accountId files) s)
    (haccount : accountId w = some a) (honly : s.OnlyBy w bundle) {t : Wallet.Turn}
    (hmem : t.coin ∈ bundle)
    (ht : t.exchange i a ∈ (s.wallet w).shared.mem.log (.deposit (t.request a)))
    (hacc : t.response.accepted = true) :
    Bank.creditedFor a (Bank.coinKeyOf t.coin) s.bank.shared.hist =
      t.coin.denominationCents.toNat := by
  obtain ⟨b, hb, hop, hans⟩ := answered_of_asked h ht
  have hbank := steps_bank h
  have hpost := (Bank.good hbank).answers b hb
  change Bank.Post b.conf b.call b.op b.ans s.bank.shared at hpost
  rw [hop, hans] at hpost
  obtain ⟨⟨row, denom, hrow, hdenom, hcoin⟩, -⟩ := hpost hacc
  have hkey : row.coin = Bank.coinKeyOf t.coin := hcoin.trans (Bank.coinKey_eq hdenom)
  have hspent := (Bank.spentByDeposit hbank row.coin _).mpr ⟨row.accountId, hrow⟩
  rw [hkey] at hspent
  have hcases := (Bank.creditedOnce hbank).creditedFor a (Bank.coinKeyOf t.coin) fun _ => true
  rw [List.filter_true] at hcases
  rcases hcases with ⟨hnone, -⟩ | ⟨c, req, hc, hcop, hreq, -, -, hsum⟩
  · exact absurd (hnone.symm.trans hspent) (by simp)
  · -- The deposit that spent it was this wallet's, so it was for this account.
    have hspends : Bank.spends c = some (Bank.coinKeyOf t.coin) := by
      rw [Bank.spends, hcop, ← hreq]
    obtain ⟨m, habout, hm⟩ := (Option.any_eq_true _ _).mp (honly c hc _ hmem hspends)
    obtain rfl := of_decide_eq_true hm
    have hmop := (op_of_about h c hc m habout).symm.trans hcop
    have hown := posted_own h m ((linked h).about _ m habout).1
    have hacct : req.accountId = a := by
      cases hr : m.request with
      | withdraw _ => exact absurd (hr ▸ hmop) (by simp [Wallet.Request.op])
      | deposit req' =>
        rw [hr] at hmop hown
        obtain rfl := Bank.Op.deposit.inj hmop
        exact Option.some.inj (hown.symm.trans haccount)
    rw [hsum, if_pos ⟨rfl, hacct⟩]
    rfl

/-- A coin that a request of this call has credited is reported accepted. -/
theorem accepted_of_credited (h : Steps π (start κ accountId files) s)
    (hdistinct : (bundle.map Bank.coinKeyOf).Nodup)
    (hreports : Wallet.Reports i a bundle outcomes ts (s.wallet w).shared.mem)
    {ans : Answer (Wallet.service X)} (hans : ans ∈ (s.wallet w).answers) (hcall : ans.call = i)
    {t : Wallet.Turn} (ht : t ∈ ts) {c : Commit Bank.database Bank.Op}
    (hc : c ∈ s.bank.shared.hist) (hspends : Bank.spends c = some (Bank.coinKeyOf t.coin))
    (hmade : s.madeFor w i c = true) : t.response.accepted = true := by
  have hlinked := linked h
  have hbank := steps_bank h
  obtain ⟨m, habout, hm⟩ := (Option.any_eq_true _ _).mp hmade
  obtain ⟨rfl, rfl⟩ := of_decide_eq_true hm
  have hlive := ((Sys.calls_init.steps (steps_wallet h m.wallet)).answered ans hans).2
  -- Its call has been answered, so the letter is one the wallet has finished with.
  rcases hlinked.posted m (hlinked.about _ m habout).1 with ⟨heard, hrec⟩ | hawait | habandoned
  · have hop := op_of_about h c hc m habout
    cases hr : m.request with
    | withdraw request =>
      rw [hr] at hop
      rw [Bank.spends, hop] at hspends
      exact absurd hspends (by simp [Wallet.Request.op])
    | deposit req =>
      rw [hr] at hop hrec
      obtain ⟨t', ht', hexchange⟩ := hreports.only req _
        (List.mem_reverse.mp (List.mem_of_getElem? hrec)) rfl
      obtain ⟨-, hreq, rfl⟩ := Wallet.Exchange.mk.inj hexchange
      obtain rfl := Wallet.Request.deposit.inj hreq
      rw [Bank.spends, hop] at hspends
      have hsame : t' = t := by
        have hnodup : (ts.map fun t => Bank.coinKeyOf t.coin).Nodup := by
          rw [hreports.coins, List.map_map] at hdistinct
          exact hdistinct
        exact List.inj_on_of_nodup_map hnodup ht' ht (Option.some.inj hspends)
      subst hsame
      obtain ⟨b, hb, hbans, hbabout⟩ := hlinked.heard m.wallet _ _ _ hrec _ rfl
      have hletter : (⟨m.wallet, m.call, m.number, .deposit (t'.request a)⟩ : Letter W) = m := by
        rw [← hr]
      have hcalls : b.call = c.call := hlinked.once _ _ m (hletter ▸ hbabout) habout
      refine Bank.accepted_of_commit hbank hc ?_ hb hcalls hbans
      rw [hop]
      rfl
  · exact absurd (hcall ▸ hlive) (Wallet.live_of_waiting hawait.1)
  · exact absurd hcall (habandoned.2.2 ans hans)

/-! ## The report -/

theorem accepted_turns (ts : List Wallet.Turn) : accepted (ts.map Wallet.Turn.outcome) =
    (ts.map fun t => if t.response.accepted = true then
      (t.coin.denominationCents.toNat : Int) else 0).sum := by
  induction ts with
  | nil => rfl
  | cons t ts ih =>
    rw [List.map_cons, List.map_cons, List.sum_cons, ← ih]
    by_cases hacc : t.response.accepted = true
    · simp [accepted, Wallet.Turn.outcome, hacc]
    · simp [accepted, Wallet.Turn.outcome, hacc]

theorem credited_turns (ts : List Wallet.Turn) (hist : List (Commit Bank.database Bank.Op)) :
    credited a (ts.map Wallet.Turn.coin) hist =
      (ts.map fun t => Bank.creditedFor a (Bank.coinKeyOf t.coin) hist).sum := by
  rw [credited, List.map_map]
  rfl

/-- **Deposits are reported truthfully, call by call.** The last report of a payee who alone
    deposits a bundle accepts at least what the requests of this call have credited, and at most
    what the bundle has credited; so exactly that where no other call's request has credited one
    of its coins. And no coin that a request of this call has credited is reported as spent. -/
theorem reported {s₁ s₂ : Market X W} {path : String}
    (h₁ : Steps .any (start κ accountId files) s₁) (haccount : accountId w = some a)
    (hfile : (s₁.wallet w).shared.db.files.lookup path = some (.ok bundle))
    (hdistinct : (bundle.map Bank.coinKeyOf).Nodup)
    (hstart : s₁.step (.wallet w (.start (.deposit path))) = some s₂) (hrun : Steps .any s₂ s)
    (honly : s.OnlyBy w bundle) {ans : Answer (Wallet.service X)}
    (hans : ans ∈ (s.wallet w).answers) (hcall : ans.call = (s₁.wallet w).next)
    (hok : ans.ans = .deposit (.ok outcomes)) :
    credited a bundle (s.bank.shared.hist.filter (s.madeFor w ans.call)) ≤ accepted outcomes ∧
    accepted outcomes ≤ credited a bundle s.bank.shared.hist ∧
    ((∀ c ∈ s.bank.shared.hist, ∀ coin ∈ bundle, Bank.spends c = some (Bank.coinKeyOf coin) →
      s.madeFor w ans.call c = true) →
        accepted outcomes = credited a bundle s.bank.shared.hist) ∧
    ∀ (n : Nat) coin outcome, bundle[n]? = some coin → outcomes[n]? = some outcome →
      (∃ c ∈ s.bank.shared.hist, Bank.spends c = some (Bank.coinKeyOf coin) ∧
        s.madeFor w ans.call c = true) → outcome.accepted = true ∧ outcome.reason = none := by
  have hsteps : Steps .any (start κ accountId files) s := (h₁.tail ⟨_, hstart, trivial⟩).trans hrun
  have hbank := steps_bank hsteps
  have hwallet : Sys.Steps .any (Wallet.start X (accountId w) (files w)) (s₁.wallet w) :=
    steps_wallet h₁ w
  rw [haccount] at hwallet
  have hbegin : (s₁.wallet w).step (.start (.deposit path)) = some (s₂.wallet w) := by
    simp only [Market.step] at hstart
    split at hstart
    · obtain ⟨t, ht, rfl⟩ := Option.map_eq_some_iff.mp hstart
      change _ = some (Function.update s₁.wallet w t w)
      rw [ht, Function.update_self]
    · exact absurd hstart (by simp)
  obtain ⟨ts, hreports⟩ := Wallet.deposit_reports hwallet hbegin hfile (steps_wallet hrun w) hans
    hcall hok
  have hcoins := hreports.coins
  have hin : ∀ t ∈ ts, t.coin ∈ bundle := fun t ht => by
    rw [hcoins]
    exact List.mem_map_of_mem ht
  have honce := Bank.creditedOnce hbank
  have haccepts : ∀ t ∈ ts, ∀ c ∈ s.bank.shared.hist,
      Bank.spends c = some (Bank.coinKeyOf t.coin) → s.madeFor w ans.call c = true →
        t.response.accepted = true := fun t ht c hc hspends hmade =>
    accepted_of_credited hsteps hdistinct hreports hans hcall ht hc hspends (hcall ▸ hmade)
  have hlower : credited a bundle (s.bank.shared.hist.filter (s.madeFor w ans.call)) ≤
      accepted outcomes := by
    rw [hreports.outcomes, hcoins, accepted_turns, credited_turns]
    refine List.sum_le_sum fun t ht => ?_
    rcases honce.creditedFor a (Bank.coinKeyOf t.coin) (s.madeFor w ans.call) with
      ⟨-, hsum⟩ | ⟨c, req, hc, hop, hreq, -, -, hsum⟩
    · rw [hsum]
      split <;> simp
    · rw [hsum]
      split
      · rename_i hmade
        rw [if_pos (haccepts t ht c hc (by rw [Bank.spends, hop, ← hreq]) hmade.1)]
        exact Int.le_refl _
      · split <;> simp
  have hupper : accepted outcomes ≤ credited a bundle s.bank.shared.hist := by
    rw [hreports.outcomes, hcoins, accepted_turns, credited_turns]
    refine List.sum_le_sum fun t ht => ?_
    split
    · rename_i hacc
      rw [credited_of_accepted hsteps haccount honly (hin t ht) (hreports.asked t ht) hacc]
    · have hcases := honce.creditedFor a (Bank.coinKeyOf t.coin) fun _ => true
      rw [List.filter_true] at hcases
      rcases hcases with ⟨-, hsum⟩ | ⟨c, req, -, -, -, -, -, hsum⟩
      · rw [hsum]
      · rw [hsum]
        split
        · exact Int.natCast_nonneg _
        · exact Int.le_refl _
  refine ⟨hlower, hupper, fun hall => Int.le_antisymm hupper ?_, ?_⟩
  · have hsame : credited a bundle (s.bank.shared.hist.filter (s.madeFor w ans.call)) =
        credited a bundle s.bank.shared.hist := by
      unfold credited
      congr 1
      exact List.map_congr_left fun coin hcoin =>
        Bank.creditedFor_filter fun c hc hspends => hall c hc coin hcoin hspends
    exact hsame ▸ hlower
  · rintro n coin outcome hcoin houtcome ⟨c, hc, hspends, hmade⟩
    rw [hcoins, List.getElem?_map] at hcoin
    rw [hreports.outcomes, List.getElem?_map] at houtcome
    obtain ⟨t, ht, rfl⟩ := Option.map_eq_some_iff.mp hcoin
    rw [ht] at houtcome
    obtain rfl := Option.some.inj houtcome
    have hmem := List.mem_of_getElem? ht
    have hacc := haccepts t hmem c hc hspends hmade
    obtain ⟨b, hb, -, hbans⟩ := answered_of_asked hsteps (hreports.asked t hmem)
    have hreason := Bank.reason_of_answer hbank hb hbans
    rw [hacc] at hreason
    exact ⟨hacc, Option.isNone_iff_eq_none.mp hreason.symm⟩

/-! ## Two runs -/

/-- A payee with one coin to deposit. -/
def payee : Market .toy Unit :=
  start .toy (fun _ => some "alice") fun _ =>
    (∅ : Table String Wallet.File).put "bundle" (some (.ok [Bank.toyCoin 1]))

/-- A call of the wallet, until its request is on its way. -/
def asks (i : CallId) : List (MarketEvent .toy Unit) :=
  List.replicate 4 (.wallet () (.step i .none
    { requestId := .ok ⟨List.replicate 16 (UInt8.ofNat i), List.length_replicate⟩ })) ++ [.post () i]

/-- The wallet's call hears `reply` and ends, and with it the process. -/
def hears (i : CallId) (reply : Except Wallet.WalletError DepositResponse) :
    List (MarketEvent .toy Unit) :=
  List.replicate 2 (.wallet () (.step i .none { deposit := reply })) ++ [.wallet () (.crash ())]

/-- One call, answered. -/
theorem reported_once : ∃ s outcomes, Steps .any payee s ∧ accepted outcomes = 100 ∧
    accepted outcomes = credited "alice" [Bank.toyCoin 1] s.bank.shared.hist := by
  have hrun : (payee.run .any (Bank.opened.map .bank)).any (fun s₁ =>
      (s₁.step (.wallet () (.start (.deposit "bundle")))).any fun s₂ =>
        (s₂.run .any (asks 0 ++ .deliver 0 :: (Bank.go 2 7).map .bank ++
          hears 0 (.ok ⟨true, none⟩))).any fun s =>
          decide ((s₁.wallet ()).shared.db.files.lookup "bundle" = some (.ok [Bank.toyCoin 1])) &&
          decide (s.OnlyBy () [Bank.toyCoin 1] ∧ ∀ c ∈ s.bank.shared.hist,
            ∀ coin ∈ [Bank.toyCoin 1], Bank.spends c = some (Bank.coinKeyOf coin) →
              s.madeFor () 0 c = true) &&
          (s.wallet ()).answers.any fun a => decide (a.call = 0 ∧ (s₁.wallet ()).next = 0 ∧
            a.ans = .deposit (.ok [⟨100, true, none⟩]))) = true := by decide +kernel
  obtain ⟨s₁, h₁, hrun⟩ := exists_of_run hrun
  obtain ⟨s₂, hstart, hrun⟩ := (Option.any_eq_true _ _).mp hrun
  obtain ⟨s, h₂, hp⟩ := exists_of_run hrun
  obtain ⟨hfacts, hans⟩ := (Bool.and_eq_true ..).mp hp
  obtain ⟨hfile, honly⟩ := (Bool.and_eq_true ..).mp hfacts
  obtain ⟨honly, hmade⟩ := of_decide_eq_true honly
  obtain ⟨a, ha, hp⟩ := List.any_eq_true.mp hans
  obtain ⟨hcall, hnext, hok⟩ := of_decide_eq_true hp
  obtain ⟨-, -, hequal, -⟩ := reported h₁ rfl (of_decide_eq_true hfile) (by decide) hstart h₂ honly
    ha (hcall.trans hnext.symm) hok
  exact ⟨s, _, (h₁.tail ⟨_, hstart, trivial⟩).trans h₂, rfl, hequal fun c hc coin hcoin hs =>
    hcall ▸ hmade c hc coin hcoin hs⟩

/-- **A coin that an earlier call has credited is reported as spent.** The answer to the first call
    is lost; the second call reports the coin as a double spend and nothing as accepted, and the
    coin has credited its 100 cents. -/
theorem reported_spent : ∃ s₁ s₂ s, ∃ a ∈ (s.wallet ()).answers, ∃ outcomes,
    Steps .any payee s₁ ∧
    (s₁.wallet ()).shared.db.files.lookup "bundle" = some (.ok [Bank.toyCoin 1]) ∧
    s₁.step (.wallet () (.start (.deposit "bundle"))) = some s₂ ∧ Steps .any s₂ s ∧
    (s.wallet ()).next = (s₂.wallet ()).next ∧ s.OnlyBy () [Bank.toyCoin 1] ∧
    a.call = (s₁.wallet ()).next ∧ a.ans = .deposit (.ok outcomes) ∧
    accepted outcomes ≠ credited "alice" [Bank.toyCoin 1] s.bank.shared.hist ∧
    ∃ o ∈ outcomes, o.reason = some .doubleSpend := by
  have hrun : (payee.run .any (Bank.opened.map .bank ++
      .wallet () (.start (.deposit "bundle")) :: asks 0 ++ .deliver 0 :: (Bank.go 2 7).map .bank ++
        hears 0 (.error (connectionReset "/deposit")))).any (fun s₁ =>
      (s₁.step (.wallet () (.start (.deposit "bundle")))).any fun s₂ =>
        (s₂.run .any (asks 1 ++ .deliver 0 :: (Bank.go 3 5).map .bank ++
          hears 1 (.ok ⟨false, some .doubleSpend⟩))).any fun s =>
          decide ((s₁.wallet ()).shared.db.files.lookup "bundle" = some (.ok [Bank.toyCoin 1])) &&
          decide ((s.wallet ()).next = (s₂.wallet ()).next ∧ s.OnlyBy () [Bank.toyCoin 1] ∧
            credited "alice" [Bank.toyCoin 1] s.bank.shared.hist = 100) &&
          (s.wallet ()).answers.any fun a => decide (a.call = (s₁.wallet ()).next ∧
            a.ans = .deposit (.ok [⟨100, false, some .doubleSpend⟩]))) = true := by decide +kernel
  obtain ⟨s₁, h₁, hrun⟩ := exists_of_run hrun
  obtain ⟨s₂, hstart, hrun⟩ := (Option.any_eq_true _ _).mp hrun
  obtain ⟨s, h₂, hp⟩ := exists_of_run hrun
  obtain ⟨hfacts, hans⟩ := (Bool.and_eq_true ..).mp hp
  obtain ⟨hfile, hstate⟩ := (Bool.and_eq_true ..).mp hfacts
  obtain ⟨hnext, honly, hcredited⟩ := of_decide_eq_true hstate
  obtain ⟨a, ha, hp⟩ := List.any_eq_true.mp hans
  obtain ⟨hcall, hok⟩ := of_decide_eq_true hp
  refine ⟨s₁, s₂, s, a, ha, _, h₁, of_decide_eq_true hfile, hstart, h₂, hnext, honly, hcall, hok, ?_,
    _, List.mem_singleton_self _, rfl⟩
  rw [hcredited]
  decide

end Market

end Digicash
