import Digicash.Market
import Digicash.Wallet.Blinding

/-!
# Which withdrawal a coin is from

The wallets of a market and their bank, in two runs. In the second run the coins are dealt out to
the withdrawals in another way, and the bank sees the same: what it is sent, when and in which
order, and so what it stores and answers.
-/

namespace Digicash

open Lib

variable {X : Crypto} {W : Type}

namespace Wallet

/-! ## A wallet in two runs -/

/-- Neither call is there, or the second goes on as the first does, which has made `n` coins. -/
def Together (U : BlindScheme X) (keys : Table UInt64 X.PublicKey) (plan : Nat → Option Coin)
    (n : Nat) (x y : Option (Session (service X))) : Prop :=
  (x = none ∧ y = none) ∨ ∃ op p q, x = some ⟨op, p, none⟩ ∧ y = some ⟨op, q, none⟩ ∧
    Coupled (coupling U keys plan) (fun _ _ _ => True) (fun n _ => plan n ≠ none) n p q

/-- The second wallet does what the first one does, and makes the planned coins. -/
structure Twin (U : BlindScheme X) (keys : Table UInt64 X.PublicKey)
    (plan : CallId → Nat → Option Coin) (s t : Sys (service X)) : Prop where
  next : t.next = s.next
  shared : Recast plan s.shared t.shared
  made : ∀ i, ∀ coin ∈ minted s.shared i, Made U keys coin
  live : ∀ i, Together U keys (plan i) (minted s.shared i).length (s.live i) (t.live i)

/-- What is decided outside is the same, but for what the generators give. -/
def Redrawn (e e' : Event (service X)) : Prop :=
  e' = e ∨ ∃ i fault o serial rng, e = .step i fault o ∧ e' = .step i fault (redraw o serial rng)

section

variable {U : BlindScheme X} {keys : Table UInt64 X.PublicKey} {plan : CallId → Nat → Option Coin}
  {s t s' : Sys (service X)}

theorem together_update {f g : CallId → Option (Session (service X))} {n : CallId → Nat} {i : CallId}
    {x y : Option (Session (service X))} (hi : Together U keys (plan i) (n i) x y)
    (h : ∀ j, j ≠ i → Together U keys (plan j) (n j) (f j) (g j)) (j : CallId) :
    Together U keys (plan j) (n j) (Function.update f i x j) (Function.update g i y j) := by
  by_cases hj : j = i
  · subst hj
    rw [Function.update_self, Function.update_self]
    exact hi
  · rw [Function.update_of_ne hj, Function.update_of_ne hj]
    exact h j hj

theorem Twin.free (h : Twin U keys plan s t) (i : CallId) (row : Row) :
    s.free i row = true ∧ t.free i row = true := by
  have hnone : ∀ j, s.txOf j = none ∧ t.txOf j = none := by
    intro j
    rcases h.live j with ⟨hs, ht⟩ | ⟨op, p, q, hs, ht, -⟩
    · rw [Sys.txOf, Sys.txOf, hs, ht]
      exact ⟨rfl, rfl⟩
    · rw [Sys.txOf, Sys.txOf, hs, ht]
      exact ⟨rfl, rfl⟩
  constructor
  · refine List.all_eq_true.mpr fun j _ => ?_
    rw [(hnone j).1]
    simp
  · refine List.all_eq_true.mpr fun j _ => ?_
    rw [(hnone j).2]
    simp

/-- What the call does next, the second one does too. -/
theorem Twin.step_call {i : CallId} {fault : Fault} {o : Oracle} (h : Twin U keys plan s t)
    (hheard : waitingForKeys s i = true → ∀ published table, o.denominations = .ok published →
      parseKeys X published = .ok table → table = keys)
    (hgoes : ∀ op a tx, s.live i = some ⟨op, .pure a, tx⟩ →
      plan i (minted s.shared i).length = none)
    (hs : s.step (.step i fault o) = some s') :
    ∃ serial rng t', t.step (.step i fault (redraw o serial rng)) = some t' ∧
      Twin U keys plan s' t' := by
  rcases h.live i with ⟨hl, -⟩ | ⟨op, p, q, hl, hl', hcoupled⟩
  · simp only [Sys.step, hl] at hs
    cases hs
  · cases p with
    | pure a =>
      rcases hcoupled with ⟨b, rfl, -⟩ | hdead
      · simp only [Sys.step, hl, Option.some.injEq] at hs
        subst hs
        have ht : t.step (.step i fault (redraw o o.serial o.rng)) = some { t.setLive i none with
            answers := ⟨i, op, b, t.conf⟩ :: t.answers } := by simp only [Sys.step, hl']
        refine ⟨o.serial, o.rng, _, ht, h.next, h.shared, h.made, ?_⟩
        exact together_update (n := fun i => (minted s.shared i).length) (.inl ⟨rfl, rfl⟩)
          fun j _ => h.live j
      · exact absurd (hgoes op a none hl) hdead
    | cmd c k =>
      obtain ⟨c', k', rfl, hpairs, hnext⟩ := hcoupled
      simp only [Sys.step, hl] at hs
      obtain ⟨⟨r, sh', tx'⟩, hx, rfl⟩ := Option.map_eq_some_iff.mp hs
      have hkeys : c = .ext .denominations → ∀ published table, o.denominations = .ok published →
          parseKeys X published = .ok table → table = keys := by
        rintro rfl
        exact hheard (by rw [waitingForKeys, hl])
      obtain ⟨rfl, hexec⟩ := executed hpairs h.shared (fun row => (h.free i row).1)
        (fun row => (h.free i row).2) hkeys hx
      obtain ⟨r', hanswers, hk⟩ := hnext r _ hexec.next
      obtain ⟨serial, rng, sh₂', hx₂, hrecast⟩ := hexec.second r' hanswers
      have ht : t.step (.step i fault (redraw o serial rng)) = some { t.setLive i
          (some ⟨op, k' r', none⟩) with shared := sh₂' } := by
        simp only [Sys.step, hl', hx₂]
        rfl
      refine ⟨serial, rng, _, ht, h.next, hrecast, fun j => ?_, ?_⟩
      · by_cases hj : j = i
        · subst hj
          exact hexec.made (h.made j)
        · show ∀ coin ∈ minted sh' j, _
          rw [hexec.others j hj]
          exact h.made j
      · refine together_update (n := fun j => (minted sh' j).length)
          (.inr ⟨op, _, _, rfl, rfl, hk⟩) fun j hj => ?_
        show Together U keys (plan j) (minted sh' j).length (s.live j) (t.live j)
        rw [hexec.others j hj]
        exact h.live j

theorem Twin.step {e : Event (service X)} (h : Twin U keys plan s t)
    (hplan : ∀ i n coin, plan i n = some coin → Made U keys coin)
    (hop : ∀ op, e = .start op → (∃ amount, op = .withdraw amount) ∨ ∃ path, op = .deposit path)
    (hheard : ∀ i fault o, e = .step i fault o → waitingForKeys s i = true →
      ∀ published table, o.denominations = .ok published → parseKeys X published = .ok table →
        table = keys)
    (hgoes : ∀ i op a tx, s.live i = some ⟨op, .pure a, tx⟩ →
      plan i (minted s.shared i).length = none)
    (hs : s.step e = some s') :
    ∃ e' t', Redrawn e e' ∧ t.step e' = some t' ∧ Twin U keys plan s' t' := by
  cases e with
  | start op =>
    obtain ⟨m, hm, rfl⟩ := Option.map_eq_some_iff.mp hs
    have hm' : (service X).enter op t.shared.mem = some m := by rw [h.shared.mem, hm]
    refine ⟨.start op, _, .inl rfl, by rw [Sys.step, hm']; rfl, ?_⟩
    refine ⟨congrArg (· + 1) h.next, ⟨rfl, h.shared.accountId, h.shared.files, h.shared.minted⟩,
      h.made, ?_⟩
    dsimp only
    rw [h.next]
    refine together_update (n := fun i => (minted s.shared i).length) ?_ fun j _ => h.live j
    exact .inr ⟨op, _, _, rfl, rfl, code_follows (hplan _) (hop op rfl)⟩
  | drop i =>
    obtain rfl := Option.some.inj hs
    refine ⟨.drop i, _, .inl rfl, rfl, h.next, h.shared, h.made, ?_⟩
    exact together_update (n := fun i => (minted s.shared i).length) (.inl ⟨rfl, rfl⟩)
      fun j _ => h.live j
  | crash κ =>
    obtain rfl := Option.some.inj hs
    have hmem : t.shared.mem = s.shared.mem := h.shared.mem
    exact ⟨.crash κ, _, .inl rfl, rfl, h.next,
      ⟨congrArg reboot hmem, h.shared.accountId, h.shared.files, h.shared.minted⟩, h.made,
      fun _ => .inl ⟨rfl, rfl⟩⟩
  | step i fault o =>
    obtain ⟨serial, rng, t', ht, htwin⟩ := h.step_call (hheard i fault o rfl) (hgoes i) hs
    exact ⟨_, t', .inr ⟨i, fault, o, serial, rng, rfl, rfl⟩, ht, htwin⟩

/-- What the second wallet waits for, where the first one's call is not over too early. -/
theorem Twin.waiting {i : CallId} (h : Twin U keys plan s t)
    (hgoes : ∀ op a tx, s.live i = some ⟨op, .pure a, tx⟩ →
      plan i (minted s.shared i).length = none) :
    Wallet.waiting t i = Wallet.waiting s i ∧ waitingForKeys t i = waitingForKeys s i := by
  unfold Wallet.waiting waitingForKeys
  rcases h.live i with ⟨hl, hl'⟩ | ⟨op, p, q, hl, hl', hcoupled⟩
  · rw [hl, hl']
    exact ⟨rfl, rfl⟩
  · rw [hl, hl']
    cases p with
    | pure a =>
      obtain ⟨b, rfl, -⟩ := hcoupled.resolve_right (not_not.mpr (hgoes op a none hl))
      exact ⟨rfl, rfl⟩
    | cmd c k =>
      obtain ⟨c', k', rfl, hpairs, -⟩ := hcoupled
      cases hpairs with
      | ext e => cases e <;> exact ⟨rfl, rfl⟩
      | _ => exact ⟨rfl, rfl⟩

/-! ## Calls that are over -/

/-- Call `i` has begun, and makes nothing any more. -/
def Over (s : Sys (service X)) (i : CallId) : Prop :=
  i < s.next ∧ ∀ op p tx, s.live i = some ⟨op, p, tx⟩ → ∃ a, p = .pure a

theorem Over.step {i : CallId} {e : Event (service X)} (h : Over s i) (hs : s.step e = some s') :
    Over s' i ∧ minted s'.shared i = minted s.shared i := by
  refine ⟨⟨Nat.lt_of_lt_of_le h.1 (Sys.next_le hs), fun op p tx hl => ?_⟩, ?_⟩
  · rcases Sys.live_step hs hl with ⟨hi, -⟩ | hold | ⟨op', c, k, tx', -, -, hold, -⟩
    · exact absurd h.1 (by simp [hi])
    · exact h.2 op p tx hold
    · obtain ⟨a, ha⟩ := h.2 op' _ tx' hold
      cases ha
  · cases e with
    | start op =>
      obtain ⟨m, -, rfl⟩ := Option.map_eq_some_iff.mp hs
      rfl
    | drop j =>
      obtain rfl := Option.some.inj hs
      rfl
    | crash κ =>
      obtain rfl := Option.some.inj hs
      rfl
    | step j fault o =>
      simp only [Sys.step] at hs
      split at hs
      · cases hs
      · obtain rfl := Option.some.inj hs
        rfl
      · rename_i op c k tx hl
        obtain ⟨⟨r, sh', tx'⟩, hx, rfl⟩ := Option.map_eq_some_iff.mp hs
        have hji : j ≠ i := by
          rintro rfl
          obtain ⟨a, ha⟩ := h.2 op _ tx hl
          cases ha
        show minted sh' i = _
        rcases execCmd_shared hx with ⟨-, hhist⟩ | ⟨t, rfl, -⟩
        · rw [minted_of_hist hhist]
        · rw [minted_commit, if_neg hji, List.append_nil]

end

end Wallet

/-! ## The market in two runs -/

/-- A withdrawal of one coin: the `number`th coin that a call of a wallet made. -/
structure Withdrawal (W : Type) where
  wallet : W
  call : CallId
  number : Nat
deriving DecidableEq

/-- The coin that a withdrawal made, if it has. -/
def Market.coin (s : Market X W) (x : Withdrawal W) : Option Coin :=
  (Wallet.minted (s.wallet x.wallet).shared x.call)[x.number]?

namespace MarketEvent

/-- Wallets withdraw and deposit, and the bank keeps its configuration. -/
def Trades (κ : Bank.Config X) : MarketEvent X W → Prop
  | .bank (.crash κ') => κ' = κ
  | .wallet _ (.start op) => (∃ amount, op = .withdraw amount) ∨ ∃ path, op = .deposit path
  | _ => True

/-- The same event, but for the serial and the randomness that a wallet draws. -/
def Redrawn (e e' : MarketEvent X W) : Prop :=
  e' = e ∨ ∃ w f f', e = .wallet w f ∧ e' = .wallet w f' ∧ Wallet.Redrawn f f'

end MarketEvent

namespace Market

/-- Each wallet makes the planned coins, and the bank is the same. -/
structure Twin (U : Wallet.BlindScheme X) (keys : Table UInt64 X.PublicKey)
    (plan : Withdrawal W → Option Coin) (s t : Market X W) : Prop where
  bank : t.bank = s.bank
  posted : t.posted = s.posted
  about : t.about = s.about
  wallet : ∀ w, Wallet.Twin U keys (fun i n => plan ⟨w, i, n⟩) (s.wallet w) (t.wallet w)

variable [DecidableEq W] {U : Wallet.BlindScheme X} {keys : Table UInt64 X.PublicKey}
  {plan : Withdrawal W → Option Coin} {κ : Bank.Config X} {s s' t : Market X W}

/-- No call is over whose next coin is planned. -/
def Goes (plan : Withdrawal W → Option Coin) (s : Market X W) : Prop :=
  ∀ w i op a tx, (s.wallet w).live i = some ⟨op, .pure a, tx⟩ →
    plan ⟨w, i, (Wallet.minted (s.wallet w).shared i).length⟩ = none

omit [DecidableEq W] in
theorem Twin.letter (h : Twin U keys plan s t) (w : W) (i : CallId) (request : Wallet.Request) :
    t.letter w i request = s.letter w i request := by
  rw [Market.letter, Market.letter, (h.wallet w).shared.mem]

theorem Twin.replied (h : Twin U keys plan s t) (m : Letter W) (ans : Bank.Ans) :
    t.replied m ans = s.replied m ans := by
  rw [Market.replied, Market.replied, h.bank, h.about]

/-- What the first wallet may be told, the second may be told. -/
theorem Twin.permits_step (h : Twin U keys plan s t) (hgoes : Goes plan s) {w : W} {i : CallId}
    {fault : Fault} {o : Wallet.Oracle} {serial : Except CoreError Serial} {rng : Nat} :
    t.permits w (.step i fault (Wallet.redraw o serial rng)) = s.permits w (.step i fault o) := by
  obtain ⟨hwaiting, hforKeys⟩ := (h.wallet w).waiting fun op a tx => hgoes w i op a tx
  simp only [Market.permits, hwaiting, hforKeys, h.bank]
  cases Wallet.waiting (s.wallet w) i with
  | none => rfl
  | some request =>
    simp only [h.letter, h.replied]
    cases request <;> rfl

theorem Twin.permits (h : Twin U keys plan s t) (hgoes : Goes plan s) {w : W}
    {f f' : Event (Wallet.service X)} (hf : Wallet.Redrawn f f') :
    t.permits w f' = s.permits w f := by
  rcases hf with rfl | ⟨i, fault, o, serial, rng, rfl, rfl⟩
  · cases f' with
    | step i fault o =>
      show t.permits w (.step i fault (Wallet.redraw o o.serial o.rng)) = _
      exact h.permits_step hgoes
    | _ => rfl
  · exact h.permits_step hgoes

/-- The keys a wallet may be told are those the bank publishes. -/
theorem heard_of_permits {w : W} {i : CallId} {fault : Fault} {o : Wallet.Oracle}
    {published : List DenominationKey} (h : s.permits w (.step i fault o) = true)
    (hwaits : Wallet.waitingForKeys (s.wallet w) i = true) (ho : o.denominations = .ok published) :
    Bank.publishedKeys s.bank.conf = .ok published := by
  have hnone : Wallet.waiting (s.wallet w) i = none := by
    unfold Wallet.waitingForKeys at hwaits
    unfold Wallet.waiting
    split at hwaits
    · rename_i hl
      rw [hl]
    · cases hwaits
  simp only [Market.permits, hnone, ho, hwaits, Bool.not_true, Bool.false_or,
    decide_eq_true_eq] at h
  exact h

theorem Twin.step {e : MarketEvent X W} (h : Twin U keys plan s t)
    (hplan : ∀ x coin, plan x = some coin → Wallet.Made U keys coin) (he : e.Trades κ)
    (hconf : s.bank.conf = κ) (hkeys : ∀ published table, Bank.publishedKeys κ = .ok published →
      Wallet.parseKeys X published = .ok table → table = keys)
    (hgoes : Goes plan s) (hs : s.step e = some s') :
    ∃ e' t', e.Redrawn e' ∧ t.step e' = some t' ∧ Twin U keys plan s' t' := by
  cases stepped hs with
  | @bank e b hb =>
    have ht : t.Stepped (.bank e) { t with bank := b } := .bank (h.bank ▸ hb)
    exact ⟨_, _, .inl rfl, ht.step_eq, rfl, h.posted, h.about, h.wallet⟩
  | @wallet w f v hpermits hv =>
    obtain ⟨f', v', hf, hv', htwin⟩ := (h.wallet w).step (fun i n => hplan ⟨w, i, n⟩)
      (fun op hop => by subst hop; exact he)
      (fun i fault o hf hwaits published table ho => by
        subst hf
        exact hkeys published table (hconf ▸ heard_of_permits hpermits hwaits ho))
      (hgoes w) hv
    have ht : t.Stepped (.wallet w f') { t with wallet := Function.update t.wallet w v' } :=
      .wallet ((h.permits hgoes hf).trans hpermits) hv'
    refine ⟨_, _, .inr ⟨w, f, f', rfl, rfl, hf⟩, ht.step_eq, h.bank, h.posted, h.about,
      fun w' => ?_⟩
    show Wallet.Twin U keys _ (Function.update s.wallet w v w') (Function.update t.wallet w v' w')
    by_cases hw : w' = w
    · subst hw
      rw [Function.update_self, Function.update_self]
      exact htwin
    · rw [Function.update_of_ne hw, Function.update_of_ne hw]
      exact h.wallet w'
  | @post w i request hwait hnew =>
    obtain ⟨hwaiting, -⟩ := (h.wallet w).waiting fun op a tx => hgoes w i op a tx
    have ht : t.Stepped (.post w i) { t with posted := t.letter w i request :: t.posted } :=
      .post (hwaiting.trans hwait) (by rw [h.letter, h.posted]; exact hnew)
    refine ⟨_, _, .inl rfl, ht.step_eq, h.bank, ?_, h.about, h.wallet⟩
    show t.letter w i request :: t.posted = _
    rw [h.letter, h.posted]
  | @deliver n m b hm hnew hb =>
    have hdelivered : t.delivered m = s.delivered m := by
      rw [Market.delivered, Market.delivered, h.bank, h.about]
    have ht : t.Stepped (.deliver n)
        { t with bank := b, about := Function.update t.about t.bank.next (some m) } :=
      .deliver (h.posted ▸ hm) (hdelivered ▸ hnew) (h.bank ▸ hb)
    refine ⟨_, _, .inl rfl, ht.step_eq, rfl, h.posted, ?_, h.wallet⟩
    show Function.update t.about t.bank.next (some m) = _
    rw [h.about, h.bank]

/-! ## Runs -/

/-- The calls there are were begun. -/
def Calls (s : Market X W) : Prop := ∀ w, (s.wallet w).Calls

theorem over_run : ∀ {es : List (MarketEvent X W)} {s s' : Market X W} {w : W} {i : CallId},
    s.run .any es = some s' → Wallet.Over (s.wallet w) i →
      Wallet.minted (s'.wallet w).shared i = Wallet.minted (s.wallet w).shared i
  | [], s, s', w, i, hrun, _ => by
    obtain rfl := Option.some.inj hrun
    rfl
  | e :: es, s, s', w, i, hrun, hover => by
    obtain ⟨s₁, hs₁, hrun⟩ := Option.bind_eq_some_iff.mp hrun
    rw [if_pos trivial] at hrun
    rcases wallet_step hs₁ w with heq | ⟨f, -, hf⟩
    · rw [over_run hrun (by rw [heq]; exact hover), heq]
    · obtain ⟨hover₁, hminted⟩ := hover.step hf
      rw [over_run hrun hover₁, hminted]

/-- Where the run makes every coin that is planned, no call is over too early. -/
theorem goes_of_run {es : List (MarketEvent X W)} (hrun : s.run .any es = some s')
    (hcalls : s.Calls) (hend : ∀ x, plan x ≠ none → s'.coin x ≠ none) : Goes plan s := by
  intro w i op a tx hl
  by_contra hplan
  have hover : Wallet.Over (s.wallet w) i := by
    refine ⟨(hcalls w).live i _ hl, fun op' p tx' hl' => ?_⟩
    obtain rfl := congrArg Session.code (Option.some.inj (hl'.symm.trans hl))
    exact ⟨a, rfl⟩
  refine hend _ hplan ?_
  rw [Market.coin, over_run hrun hover]
  exact List.getElem?_eq_none (Nat.le_refl _)

theorem conf_of_trades {e : MarketEvent X W} (he : e.Trades κ) (hconf : s.bank.conf = κ)
    (hs : s.step e = some s') : s'.bank.conf = κ := by
  cases stepped hs with
  | bank hb =>
    rcases Sys.conf_step hb with hsame | rfl
    · exact hsame.trans hconf
    · exact he
  | deliver _ _ hb =>
    rcases Sys.conf_step hb with hsame | hcrash
    · exact hsame.trans hconf
    · cases hcrash
  | _ => exact hconf

/-- **A run decides one with the planned coins.** -/
theorem Twin.run (hplan : ∀ x coin, plan x = some coin → Wallet.Made U keys coin)
    (hkeys : ∀ published table, Bank.publishedKeys κ = .ok published →
      Wallet.parseKeys X published = .ok table → table = keys) :
    ∀ {es : List (MarketEvent X W)} {s s' t : Market X W}, s.run .any es = some s' →
      Twin U keys plan s t → (∀ e ∈ es, e.Trades κ) → s.bank.conf = κ → s.Calls →
      (∀ x, plan x ≠ none → s'.coin x ≠ none) →
      ∃ es' t', t.run .any es' = some t' ∧ List.Forall₂ MarketEvent.Redrawn es es' ∧
        Twin U keys plan s' t'
  | [], s, s', t, hrun, h, _, _, _, _ => by
    obtain rfl := Option.some.inj hrun
    exact ⟨[], t, rfl, .nil, h⟩
  | e :: es, s, s', t, hrun, h, hes, hconf, hcalls, hend => by
    have hgoes := goes_of_run hrun hcalls hend
    obtain ⟨s₁, hs₁, hrun⟩ := Option.bind_eq_some_iff.mp hrun
    rw [if_pos trivial] at hrun
    obtain ⟨he, hes⟩ := List.forall_mem_cons.mp hes
    obtain ⟨e', t₁, hredrawn, ht₁, htwin⟩ := h.step hplan he hconf hkeys hgoes hs₁
    have hconf₁ := conf_of_trades he hconf hs₁
    have hcalls₁ : s₁.Calls := by
      intro w
      rcases wallet_step hs₁ w with heq | ⟨f, -, hf⟩
      · exact heq ▸ hcalls w
      · exact (hcalls w).step hf
    obtain ⟨es', t', ht', hall, htwin'⟩ := Twin.run hplan hkeys hrun htwin hes hconf₁ hcalls₁ hend
    refine ⟨e' :: es', t', ?_, .cons hredrawn hall, htwin'⟩
    rw [Market.run, ht₁]
    exact ht'

/-- The keys that wallets read from what the bank publishes. -/
def keysOf (κ : Bank.Config X) : Table UInt64 X.PublicKey :=
  match Bank.publishedKeys κ with
  | .ok published => ((Wallet.parseKeys X published).toOption).getD ∅
  | .error _ => ∅

theorem keysOf_eq {published : List DenominationKey} {table : Table UInt64 X.PublicKey}
    (h : Bank.publishedKeys κ = .ok published) (htable : Wallet.parseKeys X published = .ok table) :
    table = keysOf κ := by
  rw [keysOf, h]
  dsimp only
  rw [htable]
  rfl

variable {accountId : W → Option String} {files : W → Table String Wallet.File}

omit [DecidableEq W] in
theorem twin_start : Twin U keys plan (start κ accountId files) (start κ accountId files) where
  bank := rfl
  posted := rfl
  about := rfl
  wallet w :=
    { next := rfl
      shared := ⟨rfl, rfl, rfl, fun _ => rfl⟩
      made := fun _ _ hcoin => by (cases hcoin)
      live := fun _ => .inl ⟨rfl, rfl⟩ }

omit [DecidableEq W] in
theorem Twin.coin (h : Twin U keys plan s t) (x : Withdrawal W) :
    t.coin x = (s.coin x).map (Wallet.recast (plan x)) := by
  rw [Market.coin, (h.wallet x.wallet).shared.minted, List.getElem?_mapIdx]
  rfl

theorem made_of_run {es : List (MarketEvent X W)}
    (hrun : (start κ accountId files).run .any es = some s) (hes : ∀ e ∈ es, e.Trades κ)
    {x : Withdrawal W} {c : Coin} (hcoin : s.coin x = some c) : Wallet.Made U (keysOf κ) c := by
  have hstart : Twin U (keysOf κ) (fun _ => none) (start κ accountId files)
      (start κ accountId files) := twin_start
  obtain ⟨-, t, -, -, htwin⟩ := Twin.run (fun _ _ h => by (cases h)) (fun _ _ => keysOf_eq) hrun
    hstart hes rfl (fun _ => Sys.calls_init) fun _ h => absurd rfl h
  exact (htwin.wallet x.wallet).made x.call c (List.mem_of_getElem? hcoin)

/-- **Nothing tells which withdrawal a coin is from.** However the coins of one denomination are
    dealt out anew to the withdrawals that made them, there is randomness under which the run has
    them so: everything posted to the bank is the same, in the same order, and so is the bank. -/
theorem unlinkable (U : Wallet.BlindScheme X) {es : List (MarketEvent X W)}
    (hrun : (start κ accountId files).run .any es = some s) (hes : ∀ e ∈ es, e.Trades κ)
    (d : UInt64) (π : Equiv.Perm (Withdrawal W))
    (hπ : ∀ x, π x ≠ x → ∃ c, s.coin x = some c ∧ c.denominationCents = d) :
    ∃ es' t, (start κ accountId files).run .any es' = some t ∧
      List.Forall₂ MarketEvent.Redrawn es es' ∧ t.posted = s.posted ∧ t.about = s.about ∧
      t.bank = s.bank ∧ ∀ x, t.coin x = s.coin (π x) := by
  have hplan : ∀ x c, (if π x = x then none else s.coin (π x)) = some c →
      Wallet.Made U (keysOf κ) c := by
    intro x c hc
    split at hc
    · cases hc
    · exact made_of_run hrun hes hc
  have hend : ∀ x, (if π x = x then none else s.coin (π x)) ≠ none → s.coin x ≠ none := by
    intro x hx
    split at hx
    · exact absurd rfl hx
    · rename_i hmoved
      obtain ⟨c, hc, -⟩ := hπ x hmoved
      simp [hc]
  obtain ⟨es', t, ht, hall, htwin⟩ := Twin.run hplan (fun _ _ => keysOf_eq) hrun twin_start hes rfl
    (fun _ => Sys.calls_init) hend
  refine ⟨es', t, ht, hall, htwin.posted, htwin.about, htwin.bank, fun x => ?_⟩
  rw [htwin.coin]
  by_cases hfixed : π x = x
  · rw [if_pos hfixed, hfixed]
    cases s.coin x <;> rfl
  · rw [if_neg hfixed]
    obtain ⟨c, hc, hd⟩ := hπ x hfixed
    obtain ⟨c', hc', hd'⟩ := hπ (π x) fun h => hfixed (π.injective h)
    rw [hc, hc', Option.map_some, Wallet.recast, Option.filter_some,
      if_pos (by simp [hd, hd']), Option.getD_some]

/-- A coin of one cent. -/
def veiledCoin (b : UInt8) : Coin := ⟨0, 1, toySerial b, (toySerial b).1⟩

/-- `alice` and `bob` at a bank that serves one cent. -/
def mint : Market Wallet.veiled Bool :=
  start ⟨⟨(∅ : Table (UInt64 × UInt8) (Keypair Wallet.veiled)).put (1, 0) (some ⟨(), ()⟩)⟩, none⟩
    (fun w => some (cond w "alice" "bob"))
    fun _ => (∅ : Table String Wallet.File).put "bundle" (some (.ok [veiledCoin 1]))

/-- The bank starts, and opens both accounts. -/
def opening : List (MarketEvent Wallet.veiled Bool) :=
  (Bank.call .connect :: Bank.go 0 5 ++ Bank.call (.createAccount "alice" 500) :: Bank.go 1 2 ++
    Bank.call (.createAccount "bob" 500) :: Bank.go 2 2).map .bank

def toyRequestId (b : UInt8) : { id : Bytes // id.length = 16 } := ⟨(toySerial b).1.take 16, rfl⟩

/-- A wallet withdraws a coin with this serial; the bank's call for it is number `j`. -/
def draws (w : Bool) (b : UInt8) (j : CallId) : List (MarketEvent Wallet.veiled Bool) :=
  .wallet w (.start (.withdraw 1)) :: List.replicate 6 (.wallet w (.step 0 .none
    { denominations := .ok [⟨1, 0, []⟩], serial := .ok (toySerial b), rng := b.toNat,
      requestId := .ok (toyRequestId b) })) ++
  .post w 0 :: .deliver 0 :: (Bank.go j 9).map .bank ++
  List.replicate 3 (.wallet w (.step 0 .none { withdraw := .ok ⟨[b]⟩ })) ++ [.wallet w (.crash ())]

/-- `bob` is paid with the coin of `alice`, and deposits it. -/
def pays : List (MarketEvent Wallet.veiled Bool) :=
  .wallet false (.start (.deposit "bundle")) :: List.replicate 4 (.wallet false (.step 1 .none
    { requestId := .ok (toyRequestId 3) })) ++
  .post false 1 :: .deliver 0 :: (Bank.go 5 7).map .bank ++
  List.replicate 2 (.wallet false (.step 1 .none { deposit := .ok ⟨true, none⟩ }))

/-- Both withdraw a coin, and then `bob` deposits. -/
def payment : List (MarketEvent Wallet.veiled Bool) :=
  opening ++ draws true 1 3 ++ draws false 2 4 ++ pays

theorem payment_trades {κ : Bank.Config Wallet.veiled} : ∀ e ∈ payment, e.Trades κ := by
  simp [payment, opening, draws, pays, MarketEvent.Trades, Event.steps, or_imp, forall_and]

/-- `alice` and `bob` could have each other's coin. -/
theorem unlinkable_swapped : ∃ es s t, mint.run .any payment = some s ∧
    mint.run .any es = some t ∧ List.Forall₂ MarketEvent.Redrawn payment es ∧
    t.posted = s.posted ∧ t.bank = s.bank ∧
    s.bank.shared.db.deposits.entries.length = 1 ∧
    s.coin ⟨true, 0, 0⟩ = some (veiledCoin 1) ∧ t.coin ⟨true, 0, 0⟩ = some (veiledCoin 2) ∧
    s.coin ⟨false, 0, 0⟩ = some (veiledCoin 2) ∧ t.coin ⟨false, 0, 0⟩ = some (veiledCoin 1) := by
  have hrun : (mint.run .any payment).any (fun s => decide
      (s.coin ⟨true, 0, 0⟩ = some (veiledCoin 1) ∧ s.coin ⟨false, 0, 0⟩ = some (veiledCoin 2) ∧
        s.bank.shared.db.deposits.entries.length = 1)) = true := by decide +kernel
  obtain ⟨s, hrun, hp⟩ := (Option.any_eq_true _ _).mp hrun
  obtain ⟨halice, hbob, hdeposits⟩ := of_decide_eq_true hp
  obtain ⟨es, t, ht, hall, hposted, -, hbank, hcoins⟩ := unlinkable .veiled hrun payment_trades 1
    (Equiv.swap ⟨true, 0, 0⟩ ⟨false, 0, 0⟩) fun x hx => by
      rcases Equiv.swap_apply_ne_self_iff.mp hx with ⟨-, rfl | rfl⟩
      · exact ⟨_, halice, rfl⟩
      · exact ⟨_, hbob, rfl⟩
  refine ⟨es, s, t, hrun, ht, hall, hposted, hbank, hdeposits, halice, ?_, hbob, ?_⟩
  · rw [hcoins, Equiv.swap_apply_left, hbob]
  · rw [hcoins, Equiv.swap_apply_right, halice]

end Market

end Digicash
