import Digicash.Bank.Deposits
import Digicash.Wallet.Account

/-!
# Wallets and their bank

Several wallets, each with its own store, and the one bank they use. Nothing joins them but
messages: a wallet's call that waits at `POST /withdraw` or `POST /deposit` posts its request, a
posted request is delivered late, once or never, and the wallet hears an answer the bank gave to
it, or an error. A crash of either side, a dropped call and a lost answer are steps like any other.

The bank hears from others too: `MarketEvent.bank` begins any call there. Requests are
authenticated before they begin a call, so what a wallet posts arrives under its own name.
-/

namespace Digicash

open Lib

variable {X : Crypto} {W : Type}

/-! ## What wallets ask for -/

/-- A request that changes something at the bank. -/
inductive Wallet.Request where
  | withdraw (request : WithdrawRequest)
  | deposit (request : DepositRequest)
deriving DecidableEq

/-- The call it begins there. -/
def Wallet.Request.op : Request → Bank.Op
  | .withdraw request => .withdraw request
  | .deposit request => .deposit request

/-- The account it names. -/
def Wallet.Request.accountId : Request → String
  | .withdraw request => request.accountId
  | .deposit request => request.accountId

/-- The request a call is waiting with. -/
def Wallet.waiting (s : Sys (Wallet.service X)) (i : CallId) : Option Request :=
  match s.live i with
  | some ⟨_, .cmd (.ext (.withdraw request)) _, _⟩ => some (.withdraw request)
  | some ⟨_, .cmd (.ext (.deposit request)) _, _⟩ => some (.deposit request)
  | _ => none

/-- A call is waiting for the bank's keys. -/
def Wallet.waitingForKeys (s : Sys (Wallet.service X)) (i : CallId) : Bool :=
  match s.live i with
  | some ⟨_, .cmd (.ext .denominations) _, _⟩ => true
  | _ => false

/-- What the bank answered, as far as it got through to the wallet. -/
def Wallet.Oracle.heard (o : Oracle) : Request → Option Bank.Ans
  | .withdraw _ => o.withdraw.toOption.map fun response => .withdraw (.ok response)
  | .deposit _ => o.deposit.toOption.map fun response => .deposit (.ok response)

/-- A request and what was heard. -/
structure Wallet.Exchange where
  call : CallId
  request : Request
  heard : Option Bank.Ans

/-- The exchanges of the kind of this request, newest first. -/
def Wallet.Memory.log (m : Memory) : Request → List Exchange
  | .withdraw _ => m.drawn.map fun d => ⟨d.call, .withdraw d.request,
      d.reply.toOption.map fun response => .withdraw (.ok response)⟩
  | .deposit _ => m.tendered.map fun d => ⟨d.call, .deposit d.request,
      d.reply.toOption.map fun response => .deposit (.ok response)⟩

/-! ## The market -/

/-- A request on its way: whose call posted it, and how many of its kind that wallet had finished
    with by then. -/
structure Letter (W : Type) where
  wallet : W
  call : CallId
  number : Nat
  request : Wallet.Request
deriving DecidableEq

structure Market (X : Crypto) (W : Type) where
  bank : Sys (Bank.service X)
  wallet : W → Sys (Wallet.service X)
  /-- Everything ever posted, newest first. -/
  posted : List (Letter W)
  /-- The letter that began a call of the bank. -/
  about : CallId → Option (Letter W)

inductive MarketEvent (X : Crypto) (W : Type) where
  | bank (e : Event (Bank.service X))
  | wallet (w : W) (e : Event (Wallet.service X))
  | post (w : W) (i : CallId)
  | deliver (n : Nat)

namespace Market

variable [DecidableEq W]

/-- The letter of a call that waits with `request`. -/
def letter (s : Market X W) (w : W) (i : CallId) (request : Wallet.Request) : Letter W :=
  ⟨w, i, ((s.wallet w).shared.mem.log request).length, request⟩

/-- The bank answered `ans` to the letter. -/
def replied (s : Market X W) (m : Letter W) (ans : Bank.Ans) : Bool :=
  s.bank.answers.any fun a => decide (a.ans = ans) && decide (s.about a.call = some m)

/-- What the market asks of a wallet's step: an answer it hears was given, and keys it hears are
    those the bank publishes. -/
def permits (s : Market X W) (w : W) : Event (Wallet.service X) → Bool
  | .step i _ o =>
    match Wallet.waiting (s.wallet w) i with
    | some request => (o.heard request).all fun ans => s.replied (s.letter w i request) ans
    | none =>
      match o.denominations with
      | .ok keys => !Wallet.waitingForKeys (s.wallet w) i ||
          decide (Bank.publishedKeys s.bank.conf = .ok keys)
      | .error _ => true
  | _ => true

/-- A letter is delivered once. -/
def delivered (s : Market X W) (m : Letter W) : Bool :=
  (List.range s.bank.next).any fun k => decide (s.about k = some m)

def step (s : Market X W) : MarketEvent X W → Option (Market X W)
  | .bank e => (s.bank.step e).map fun t => { s with bank := t }
  | .wallet w e =>
    if s.permits w e then
      ((s.wallet w).step e).map fun t => { s with wallet := Function.update s.wallet w t }
    else none
  | .post w i =>
    match Wallet.waiting (s.wallet w) i with
    | some request =>
      if s.letter w i request ∈ s.posted then none
      else some { s with posted := s.letter w i request :: s.posted }
    | none => none
  | .deliver n =>
    s.posted[n]?.bind fun m =>
      if s.delivered m then none
      else (s.bank.step (.start m.request.op)).map fun t =>
        { s with bank := t, about := Function.update s.about s.bank.next (some m) }

/-- A bank that has never run, and wallets with empty stores beside the files they are going to be
    handed. -/
def start (κ : Bank.Config X) (accountId : W → Option String)
    (files : W → Table String Wallet.File) : Market X W :=
  ⟨Bank.start κ, fun w => Wallet.start X (accountId w) (files w), [], fun _ => none⟩

end Market

/-! ## Runs -/

/-- Which steps the runs considered take. -/
abbrev MarketPolicy (X : Crypto) (W : Type) := Market X W → MarketEvent X W → Market X W → Prop

/-- Every run. -/
@[reducible] def MarketPolicy.any : MarketPolicy X W := fun _ _ _ => True

namespace Market

variable [DecidableEq W]

def Step (π : MarketPolicy X W) (s s' : Market X W) : Prop := ∃ e, s.step e = some s' ∧ π s e s'

abbrev Steps (π : MarketPolicy X W) : Market X W → Market X W → Prop :=
  Relation.ReflTransGen (Step π)

/-- Run a list of events; `none` as soon as one is not enabled or not in the policy. -/
def run (π : MarketPolicy X W) [∀ s e s', Decidable (π s e s')] (s : Market X W) :
    List (MarketEvent X W) → Option (Market X W)
  | [] => some s
  | e :: es => (s.step e).bind fun s' => if π s e s' then s'.run π es else none

theorem steps_of_run {π : MarketPolicy X W} [∀ s e s', Decidable (π s e s')] :
    ∀ {es : List (MarketEvent X W)} {s s' : Market X W}, s.run π es = some s' → Steps π s s'
  | [], s, s', h => by
    obtain rfl : s = s' := Option.some.inj h
    exact .refl
  | e :: es, s, s', h => by
    obtain ⟨s₁, h₁, h₂⟩ := Option.bind_eq_some_iff.mp h
    split at h₂
    · rename_i hπ
      exact .head ⟨e, h₁, hπ⟩ (steps_of_run h₂)
    · exact absurd h₂ (by simp)

/-- A run that is computed: it gets through, and ends where `p` holds. -/
theorem exists_of_run {π : MarketPolicy X W} [∀ s e s', Decidable (π s e s')] {s : Market X W}
    {l : List (MarketEvent X W)} {p : Market X W → Bool} (h : (s.run π l).any p = true) :
    ∃ s', Steps π s s' ∧ p s' = true := by
  obtain ⟨s', hs', hp⟩ := (Option.any_eq_true _ _).mp h
  exact ⟨s', steps_of_run hs', hp⟩

/-- What a call hears whose connection is reset before the answer has come. -/
def connectionReset (path : String) : Wallet.WalletError :=
  .http ("https://127.0.0.1:3000" ++ path) ("https://127.0.0.1:3000" ++ path ++
    ": Network Error: Connection reset by peer (os error 104)")

/-! ## What a step does -/

/-- A step, by the kind of its event. -/
inductive Stepped (s : Market X W) : MarketEvent X W → Market X W → Prop
  | bank {e t} (ht : s.bank.step e = some t) : Stepped s (.bank e) { s with bank := t }
  | wallet {w e t} (hp : s.permits w e = true) (ht : (s.wallet w).step e = some t) :
    Stepped s (.wallet w e) { s with wallet := Function.update s.wallet w t }
  | post {w i request} (hwait : Wallet.waiting (s.wallet w) i = some request)
    (hnew : s.letter w i request ∉ s.posted) :
    Stepped s (.post w i) { s with posted := s.letter w i request :: s.posted }
  | deliver {n m t} (hm : s.posted[n]? = some m) (hnew : ¬ s.delivered m = true)
    (ht : s.bank.step (.start m.request.op) = some t) :
    Stepped s (.deliver n)
      { s with bank := t, about := Function.update s.about s.bank.next (some m) }

theorem stepped {s s' : Market X W} {e : MarketEvent X W} (hs : s.step e = some s') :
    s.Stepped e s' := by
  cases e with
  | bank e =>
    obtain ⟨t, ht, rfl⟩ := Option.map_eq_some_iff.mp hs
    exact .bank ht
  | wallet w e =>
    simp only [step] at hs
    split at hs
    · rename_i hp
      obtain ⟨t, ht, rfl⟩ := Option.map_eq_some_iff.mp hs
      exact .wallet hp ht
    · exact absurd hs (by simp)
  | post w i =>
    simp only [step] at hs
    split at hs
    · rename_i hwait
      split at hs
      · exact absurd hs (by simp)
      · rename_i hnew
        obtain rfl := Option.some.inj hs
        exact .post hwait hnew
    · exact absurd hs (by simp)
  | deliver n =>
    obtain ⟨m, hm, hs⟩ := Option.bind_eq_some_iff.mp hs
    split at hs
    · exact absurd hs (by simp)
    · rename_i hnew
      obtain ⟨t, ht, rfl⟩ := Option.map_eq_some_iff.mp hs
      exact .deliver hm hnew ht

theorem Stepped.step_eq {s s' : Market X W} {e : MarketEvent X W} (h : s.Stepped e s') :
    s.step e = some s' := by
  cases h with
  | bank ht => rw [step, ht, Option.map_some]
  | wallet hp ht => rw [step, if_pos hp, ht, Option.map_some]
  | post hwait hnew => simp only [step, hwait, if_neg hnew]
  | deliver hm hnew ht => rw [step, hm, Option.bind_some, if_neg hnew, ht, Option.map_some]

/-! ## Each party's own run -/

variable {π : MarketPolicy X W} {κ : Bank.Config X} {accountId : W → Option String}
  {files : W → Table String Wallet.File} {s s' : Market X W}

/-- A step is a step of the bank or leaves it alone. -/
theorem bank_step {e : MarketEvent X W} (hs : s.step e = some s') :
    s'.bank = s.bank ∨ ∃ e', s.bank.step e' = some s'.bank := by
  cases stepped hs with
  | bank ht => exact Or.inr ⟨_, ht⟩
  | wallet _ _ => exact Or.inl rfl
  | post _ _ => exact Or.inl rfl
  | deliver _ _ ht => exact Or.inr ⟨_, ht⟩

/-- A step is a step of this wallet or leaves it alone. -/
theorem wallet_step {e : MarketEvent X W} (hs : s.step e = some s') (w : W) :
    s'.wallet w = s.wallet w ∨
      ∃ e', e = .wallet w e' ∧ (s.wallet w).step e' = some (s'.wallet w) := by
  cases stepped hs with
  | @wallet w' e t _ ht =>
    by_cases hw : w = w'
    · subst hw
      refine Or.inr ⟨e, rfl, ?_⟩
      show (s.wallet w).step e = some (Function.update s.wallet w t w)
      rw [ht, Function.update_self]
    · exact Or.inl (Function.update_of_ne hw ..)
  | _ => exact Or.inl rfl

/-- What the bank does in the market is a run of that bank. -/
theorem steps_bank (h : Steps π s s') : Sys.Steps .any s.bank s'.bank := by
  induction h with
  | refl => exact .refl
  | tail _ hstep ih =>
    obtain ⟨e, he, -⟩ := hstep
    rcases bank_step he with heq | ⟨e', he'⟩
    · rw [heq]
      exact ih
    · exact ih.tail ⟨e', he', Policy.any_allows _ _ _⟩

/-- What a wallet does in the market is a run of that wallet. -/
theorem steps_wallet (h : Steps π s s') (w : W) :
    Sys.Steps .any (s.wallet w) (s'.wallet w) := by
  induction h with
  | refl => exact .refl
  | tail _ hstep ih =>
    obtain ⟨e, he, -⟩ := hstep
    rcases wallet_step he w with heq | ⟨e', -, he'⟩
    · rw [heq]
      exact ih
    · exact ih.tail ⟨e', he', Policy.any_allows _ _ _⟩

end Market

/-! ## What a wallet has heard -/

/-- A wallet does one thing at a time. -/
theorem Wallet.one_live {accountId : Option String} {files : Table String File}
    {s : Sys (Wallet.service X)} (h : Sys.Steps .any (Wallet.start X accountId files) s) :
    ∀ i j, s.live i ≠ none → s.live j ≠ none → i = j :=
  (Sys.tended (A := fun _ _ _ _ => True) (C := fun _ => True) (Q := fun _ _ _ _ _ => True)
    Wallet.exclusive h (fun _ => rfl) trivial (fun _ => trivial) (fun _ _ => trivial)
    fun _ => Alone.trivial).1.only

theorem Wallet.waiting_own {accountId : Option String} {files : Table String File}
    {s : Sys (Wallet.service X)} (h : Sys.Steps .any (Wallet.start X accountId files) s) {i : CallId}
    {request : Request} (hw : waiting s i = some request) : accountId = some request.accountId := by
  unfold waiting at hw
  split at hw
  · rename_i hl
    obtain rfl := Option.some.inj hw
    exact withdraw_own h hl rfl
  · rename_i hl
    obtain rfl := Option.some.inj hw
    exact deposit_own h hl rfl
  · cases hw

theorem Wallet.live_of_waiting {s : Sys (Wallet.service X)} {i : CallId} {request : Request}
    (hw : waiting s i = some request) : s.live i ≠ none := by
  intro hl
  rw [waiting, hl] at hw
  cases hw

/-- Only a call that waits adds to what was heard. -/
theorem Wallet.log_step {s s' : Sys (Wallet.service X)} {e : Event (Wallet.service X)}
    (hs : s.step e = some s') :
    (s'.shared.mem.log = s.shared.mem.log ∧ ∀ i fault o, e = .step i fault o →
      waiting s i = none) ∨ ∃ i fault o request, e = .step i fault o ∧
      waiting s i = some request ∧
      s'.shared.mem.log request =
        ⟨i, request, o.heard request⟩ :: s.shared.mem.log request ∧
      ∀ request', s'.shared.mem.log request' = s.shared.mem.log request' ∨
        s.shared.mem.log request' = s.shared.mem.log request ∧
          s'.shared.mem.log request' = s'.shared.mem.log request := by
  have hsame : ∀ {m m' : Memory}, m'.drawn = m.drawn → m'.tendered = m.tendered →
      m'.log = m.log := by
    intro m m' hdrawn htendered
    funext request
    cases request with
    | withdraw _ => simp only [Memory.log, hdrawn]
    | deposit _ => simp only [Memory.log, htendered]
  cases e with
  | start op =>
    obtain ⟨m, hm, rfl⟩ := Option.map_eq_some_iff.mp hs
    refine Or.inl ⟨?_, fun _ _ _ h => by cases h⟩
    change (if s.shared.mem.running then none else _) = some m at hm
    split at hm
    · exact absurd hm (by simp)
    · obtain rfl := Option.some.inj hm
      exact hsame rfl rfl
  | drop i =>
    obtain rfl := Option.some.inj hs
    exact Or.inl ⟨rfl, fun _ _ _ h => by cases h⟩
  | crash κ =>
    obtain rfl := Option.some.inj hs
    exact Or.inl ⟨hsame rfl rfl, fun _ _ _ h => by cases h⟩
  | step i fault o =>
    have hnot : waiting s i = none → ∀ i' fault' o',
        (Event.step i fault o : Event (Wallet.service X)) = .step i' fault' o' →
          waiting s i' = none := by
      intro hw i' fault' o' he
      cases he
      exact hw
    simp only [Sys.step] at hs
    split at hs
    · exact absurd hs (by simp)
    · rename_i hl
      obtain rfl := Option.some.inj hs
      exact Or.inl ⟨rfl, hnot (by simp [waiting, hl])⟩
    · rename_i op c k tx hl
      obtain ⟨⟨r, sh, tx'⟩, hx, rfl⟩ := Option.map_eq_some_iff.mp hs
      change (sh.mem.log = _ ∧ _) ∨ ∃ i' fault' o' request, _ ∧ _ ∧ sh.mem.log request = _ ∧
        ∀ request', sh.mem.log request' = _ ∨ _ ∧ sh.mem.log request' = sh.mem.log request
      cases c with
      | ext ext =>
        obtain ⟨⟨r', m⟩, hext, heq⟩ := Option.map_eq_some_iff.mp hx
        obtain ⟨-, hlast⟩ := Prod.mk.inj heq
        obtain ⟨rfl, -⟩ := Prod.mk.inj hlast
        change (m.log = _ ∧ _) ∨ ∃ i' fault' o' request, _ ∧ _ ∧ m.log request = _ ∧
          ∀ request', m.log request' = _ ∨ _ ∧ m.log request' = m.log request
        cases ext with
        | withdraw request =>
          cases hext
          refine Or.inr ⟨i, fault, o, .withdraw request, rfl, by rw [waiting, hl], rfl, fun r => ?_⟩
          cases r with
          | withdraw _ => exact Or.inr ⟨rfl, rfl⟩
          | deposit _ => exact Or.inl rfl
        | deposit request =>
          cases hext
          refine Or.inr ⟨i, fault, o, .deposit request, rfl, by rw [waiting, hl], rfl, fun r => ?_⟩
          cases r with
          | withdraw _ => exact Or.inl rfl
          | deposit _ => exact Or.inr ⟨rfl, rfl⟩
        | _ =>
          cases hext
          exact Or.inl ⟨rfl, hnot (by simp [waiting, hl])⟩
      | _ =>
        rcases execCmd_mem hx with heq | ⟨ext, r', hc, -⟩
        · exact Or.inl ⟨congrArg Memory.log heq, hnot (by simp [waiting, hl])⟩
        · cases hc

/-! ## Letters and answers -/

/-- The wallet has finished with this letter's request. -/
def Letter.Recorded (m : Letter W) (t : Sys (Wallet.service X)) : Prop :=
  ∃ heard, (t.shared.mem.log m.request).reverse[m.number]? = some ⟨m.call, m.request, heard⟩

/-- The wallet is waiting for an answer to this letter. -/
def Letter.Awaited (m : Letter W) (t : Sys (Wallet.service X)) : Prop :=
  Wallet.waiting t m.call = some m.request ∧ m.number = (t.shared.mem.log m.request).length

/-- The call that posted this letter was dropped, or lost in a crash. -/
def Letter.Abandoned (m : Letter W) (t : Sys (Wallet.service X)) : Prop :=
  m.call < t.next ∧ t.live m.call = none ∧ ∀ a ∈ t.answers, a.call ≠ m.call

theorem getElem?_reverse_cons {α : Type} {x y : α} {l : List α} {n : Nat}
    (h : l.reverse[n]? = some x) : (y :: l).reverse[n]? = some x := by
  have hlt : n < l.reverse.length := (List.getElem?_eq_some_iff.mp h).1
  rw [List.reverse_cons, List.getElem?_append_left hlt, h]

theorem getElem?_concat_some {α : Type} {x y : α} {l : List α} {n : Nat}
    (h : (l ++ [y])[n]? = some x) : l[n]? = some x ∨ n = l.length ∧ x = y := by
  rcases Nat.lt_trichotomy n l.length with hlt | rfl | hgt
  · exact Or.inl (List.getElem?_append_left hlt ▸ h)
  · rw [List.getElem?_concat_length] at h
    exact Or.inr ⟨rfl, (Option.some.inj h).symm⟩
  · rw [List.getElem?_eq_none (by simp; omega)] at h
    cases h

theorem Letter.Recorded.step {m : Letter W} {t t' : Sys (Wallet.service X)}
    {e : Event (Wallet.service X)} (h : m.Recorded t) (hs : t.step e = some t') :
    m.Recorded t' := by
  obtain ⟨heard, hm⟩ := h
  rcases Wallet.log_step hs with ⟨hlog, -⟩ | ⟨i, fault, o, request, -, -, hnew, hlog⟩
  · exact ⟨heard, hlog ▸ hm⟩
  · refine ⟨heard, ?_⟩
    rcases hlog m.request with heq | ⟨hsame, heq⟩
    · rw [heq, hm]
    · rw [heq, hnew, ← hsame]
      exact getElem?_reverse_cons hm

theorem Letter.Abandoned.step {m : Letter W} {t t' : Sys (Wallet.service X)}
    {e : Event (Wallet.service X)} (h : m.Abandoned t) (hs : t.step e = some t') :
    m.Abandoned t' := by
  obtain ⟨hlt, hnone, hans⟩ := h
  refine ⟨Nat.lt_of_lt_of_le hlt (Sys.next_le hs), ?_, fun a ha hcall => ?_⟩
  · cases hl : t'.live m.call with
    | none => rfl
    | some ss =>
      rcases Sys.live_step hs hl with ⟨hnew, -⟩ | hold | ⟨_, _, _, _, _, _, hold, -⟩
      · exact absurd hlt (by simp [hnew])
      · exact absurd hold (by simp [hnone])
      · exact absurd hold (by simp [hnone])
  · rcases Sys.live_of_answer hs ha with hold | ⟨tx, hl⟩
    · exact hans a hold hcall
    · exact absurd hl (by simp [hcall, hnone])

theorem Letter.Awaited.step {m : Letter W} {t t' : Sys (Wallet.service X)}
    {e : Event (Wallet.service X)} (h : m.Awaited t) (hc : t.Calls)
    (hone : ∀ i j, t.live i ≠ none → t.live j ≠ none → i = j) (hs : t.step e = some t') :
    m.Recorded t' ∨ m.Awaited t' ∨ m.Abandoned t' := by
  obtain ⟨hw, hn⟩ := h
  rcases Wallet.log_step hs with ⟨hlog, hnot⟩ | ⟨i, fault, o, request, rfl, hw', hlog, -⟩
  · obtain ⟨ss, hss⟩ := Option.ne_none_iff_exists'.mp (Wallet.live_of_waiting hw)
    have hanswers : ∀ a ∈ t.answers, a.call ≠ m.call := fun a ha hcall =>
      Wallet.live_of_waiting hw (hcall ▸ (hc.answered a ha).2)
    rcases Sys.live_next hc hs hss with hsame | rfl | ⟨κ, rfl⟩ | ⟨fault, o, rfl, -⟩
    · refine Or.inr (Or.inl ⟨?_, hn.trans (by rw [hlog])⟩)
      rw [Wallet.waiting, hss] at hw
      rw [Wallet.waiting, hsame]
      exact hw
    · obtain rfl := Option.some.inj hs
      exact Or.inr (Or.inr ⟨hc.live _ ss hss, Function.update_self .., hanswers⟩)
    · obtain rfl := Option.some.inj hs
      exact Or.inr (Or.inr ⟨hc.live _ ss hss, rfl, hanswers⟩)
    · exact absurd ((hnot _ fault o rfl).symm.trans hw) (by simp)
  · -- The one call there is has heard something.
    obtain rfl : i = m.call := hone _ _ (Wallet.live_of_waiting hw') (Wallet.live_of_waiting hw)
    obtain rfl : request = m.request := Option.some.inj (hw'.symm.trans hw)
    refine Or.inl ⟨o.heard m.request, ?_⟩
    rw [hlog, hn, List.reverse_cons, ← List.length_reverse]
    exact List.getElem?_concat_length

namespace Market

variable [DecidableEq W] {π : MarketPolicy X W} {κ : Bank.Config X} {accountId : W → Option String}
  {files : W → Table String Wallet.File} {s s' : Market X W}

/-- An answer of the bank is on record that says `ans` to this letter. -/
def Answered (s : Market X W) (m : Letter W) (ans : Bank.Ans) : Prop :=
  ∃ a ∈ s.bank.answers, a.ans = ans ∧ s.about a.call = some m

/-- What the parties have of each other: a call of the bank that a letter began is that letter's
    and no other's, every answer a wallet heard is one the bank gave to its letter, and a letter is
    one its wallet has finished with, waits for, or has lost. -/
structure Linked (s : Market X W) : Prop where
  about : ∀ j m, s.about j = some m → m ∈ s.posted ∧ s.bank.Begun j m.request.op
  once : ∀ j k m, s.about j = some m → s.about k = some m → j = k
  heard : ∀ w request n e, ((s.wallet w).shared.mem.log request).reverse[n]? = some e →
    ∀ ans, e.heard = some ans → s.Answered ⟨w, e.call, n, e.request⟩ ans
  posted : ∀ m ∈ s.posted, m.Recorded (s.wallet m.wallet) ∨ m.Awaited (s.wallet m.wallet) ∨
    m.Abandoned (s.wallet m.wallet)

omit [DecidableEq W] in
theorem Linked.start : (start κ accountId files).Linked :=
  ⟨fun _ _ h => absurd h (by simp [Market.start]), fun _ _ _ h => absurd h (by simp [Market.start]),
    fun w request n e h => absurd h (by
      cases request <;> simp [Market.start, Wallet.start, Sys.init, Wallet.Memory.log,
        Wallet.Memory.fresh]), fun _ h => absurd h (by simp [Market.start])⟩

omit [DecidableEq W] in
/-- A step of the bank, which may begin the call of a letter. -/
theorem Linked.bank {e : Event (Bank.service X)} {t : Sys (Bank.service X)}
    {f : CallId → Option (Letter W)} (h : s.Linked) (ht : s.bank.step e = some t)
    (hc : s.bank.Calls) (hf : ∀ j m, f j = some m → s.about j = some m ∨
      m ∈ s.posted ∧ t.Begun j m.request.op ∧ (∀ k, s.about k ≠ some m) ∧ s.bank.next ≤ j)
    (hold : ∀ j < s.bank.next, f j = s.about j)
    (hlast : ∀ j k m m', f j = some m → f k = some m' → s.bank.next ≤ j → s.bank.next ≤ k → j = k) :
    ({ s with bank := t, about := f } : Market X W).Linked := by
  have hlt : ∀ j m, s.about j = some m → j < s.bank.next := fun j m hj => (h.about j m hj).2.lt
  refine ⟨fun j m hj => ?_, fun j k m hj hk => ?_, fun w request n e he ans hans => ?_, h.posted⟩
  · rcases hf j m hj with hj' | ⟨hm, hb, -⟩
    · exact ⟨(h.about j m hj').1, (h.about j m hj').2.step ht⟩
    · exact ⟨hm, hb⟩
  · rcases hf j m hj with hj' | ⟨-, -, hnew, hjn⟩
    · rcases hf k m hk with hk' | ⟨-, -, hnew, -⟩
      · exact h.once j k m hj' hk'
      · exact absurd hj' (hnew j)
    · rcases hf k m hk with hk' | ⟨-, -, -, hkn⟩
      · exact absurd hk' (hnew k)
      · exact hlast j k m m hj hk hjn hkn
  · obtain ⟨a, ha, heq, hm⟩ := h.heard w request n e he ans hans
    refine ⟨a, Sys.mem_answers_step ht ha, heq, ?_⟩
    change f a.call = _
    rw [hold _ (hc.answered a ha).1, hm]

theorem answered_of_replied {m : Letter W} {ans : Bank.Ans} (h : s.replied m ans = true) :
    s.Answered m ans := by
  obtain ⟨a, ha, hboth⟩ := List.any_eq_true.mp h
  obtain ⟨hans, habout⟩ := Bool.and_eq_true .. |>.mp hboth
  exact ⟨a, ha, of_decide_eq_true hans, of_decide_eq_true habout⟩

/-- A step of a wallet: what it hears was answered. -/
theorem Linked.wallet {w : W} {e : Event (Wallet.service X)} {t : Sys (Wallet.service X)}
    (h : s.Linked) (hp : s.permits w e = true) (ht : (s.wallet w).step e = some t)
    (hc : (s.wallet w).Calls)
    (hone : ∀ i j, (s.wallet w).live i ≠ none → (s.wallet w).live j ≠ none → i = j) :
    ({ s with wallet := Function.update s.wallet w t } : Market X W).Linked := by
  refine ⟨h.about, h.once, fun w' request n e' he ans hans => ?_, fun m hm => ?_⟩
  · change ((Function.update s.wallet w t w').shared.mem.log request).reverse[n]? = some e' at he
    by_cases hw : w' = w
    · subst hw
      rw [Function.update_self] at he
      rcases Wallet.log_step ht with ⟨hlog, -⟩ | ⟨i, fault, o, request', rfl, hwait, hnew, hlog⟩
      · exact h.heard w' request n e' (hlog ▸ he) ans hans
      · rcases hlog request with heq | ⟨hsame, heq⟩
        · exact h.heard w' request n e' (heq ▸ he) ans hans
        · -- The newest entry is what this step heard; the others were there before.
          rw [heq, hnew, ← hsame, List.reverse_cons] at he
          rcases getElem?_concat_some he with hold | ⟨rfl, rfl⟩
          · exact h.heard w' request n e' hold ans hans
          · simp only [permits, hwait] at hp
            have hrep := (Option.all_eq_true _ _).mp hp ans hans
            rw [letter, ← hsame] at hrep
            rw [List.length_reverse]
            exact answered_of_replied hrep
    · rw [Function.update_of_ne hw] at he
      exact h.heard w' request n e' he ans hans
  · change m.Recorded (Function.update s.wallet w t m.wallet) ∨
      m.Awaited (Function.update s.wallet w t m.wallet) ∨
      m.Abandoned (Function.update s.wallet w t m.wallet)
    have hposted := h.posted m hm
    by_cases hw : m.wallet = w
    · rw [hw] at hposted ⊢
      rw [Function.update_self]
      rcases hposted with hr | ha | hd
      · exact Or.inl (hr.step ht)
      · exact ha.step hc hone ht
      · exact Or.inr (Or.inr (hd.step ht))
    · rw [Function.update_of_ne hw]
      exact hposted

omit [DecidableEq W] in
/-- A letter that is posted is awaited. -/
theorem Linked.post {m : Letter W} (h : s.Linked) (hm : m.Awaited (s.wallet m.wallet)) :
    ({ s with posted := m :: s.posted } : Market X W).Linked := by
  refine ⟨fun j m' hj => ?_, h.once, h.heard, fun m' hm' => ?_⟩
  · obtain ⟨hposted, hbegun⟩ := h.about j m' hj
    exact ⟨List.mem_cons_of_mem _ hposted, hbegun⟩
  · rcases List.mem_cons.mp hm' with rfl | hm'
    · exact Or.inr (Or.inl hm)
    · exact h.posted m' hm'

/-- A letter that is delivered was not delivered before. -/
theorem Linked.deliver {m : Letter W} {t : Sys (Bank.service X)} (h : s.Linked)
    (hm : m ∈ s.posted) (hnew : ¬ s.delivered m = true) (hc : s.bank.Calls)
    (ht : s.bank.step (.start m.request.op) = some t) :
    ({ s with bank := t, about := Function.update s.about s.bank.next (some m) } :
      Market X W).Linked := by
  have hfirst : ∀ k, s.about k ≠ some m := fun k hk => hnew (List.any_eq_true.mpr
    ⟨k, List.mem_range.mpr (h.about k m hk).2.lt, decide_eq_true hk⟩)
  have hge : ∀ {j m'}, Function.update s.about s.bank.next (some m) j = some m' →
      s.bank.next ≤ j → j = s.bank.next := by
    intro j m' hj hn
    by_contra hne
    rw [Function.update_of_ne hne] at hj
    exact absurd (h.about j m' hj).2.lt (Nat.not_lt.mpr hn)
  refine h.bank ht hc (fun j m' hj => ?_) (fun j hj => Function.update_of_ne (Nat.ne_of_lt hj) ..)
    fun j k m₁ m₂ hj hk hjn hkn => (hge hj hjn).trans (hge hk hkn).symm
  by_cases hjn : j = s.bank.next
  · subst hjn
    rw [Function.update_self] at hj
    obtain rfl := Option.some.inj hj
    exact Or.inr ⟨hm, Sys.begun_start hc ht, hfirst, Nat.le_refl _⟩
  · rw [Function.update_of_ne hjn] at hj
    exact Or.inl hj

theorem Linked.step {e : MarketEvent X W} (h : s.Linked) (hbank : s.bank.Calls)
    (hwallet : ∀ w, (s.wallet w).Calls)
    (hone : ∀ w i j, (s.wallet w).live i ≠ none → (s.wallet w).live j ≠ none → i = j)
    (hs : s.step e = some s') : s'.Linked := by
  cases stepped hs with
  | bank ht =>
    exact h.bank ht hbank (fun j m hj => Or.inl hj) (fun _ _ => rfl)
      fun j k m _ hj _ hjn _ => absurd (h.about j m hj).2.lt (Nat.not_lt.mpr hjn)
  | @wallet w _ _ hp ht => exact h.wallet hp ht (hwallet w) (hone w)
  | post hwait _ => exact h.post ⟨hwait, rfl⟩
  | deliver hm hnew ht => exact h.deliver (List.mem_of_getElem? hm) hnew hbank ht

/-- **What a wallet has heard, the bank has said**, in every state of every run. -/
theorem linked (h : Steps π (start κ accountId files) s) : s.Linked := by
  induction h with
  | refl => exact .start
  | tail hrun hstep ih =>
    obtain ⟨e, he, -⟩ := hstep
    exact ih.step (Sys.calls_init.steps (steps_bank hrun))
      (fun w => Sys.calls_init.steps (steps_wallet hrun w))
      (fun w => Wallet.one_live (steps_wallet hrun w)) he

/-- A letter names the account of the wallet that posted it. -/
theorem posted_own (h : Steps π (start κ accountId files) s) :
    ∀ m ∈ s.posted, accountId m.wallet = some m.request.accountId := by
  induction h with
  | refl => exact fun _ hm => absurd hm (by simp [Market.start])
  | @tail s₁ s₂ hrun hstep ih =>
    obtain ⟨e, he, -⟩ := hstep
    cases stepped he with
    | @post w i request hwait _ =>
      intro m hm
      rcases List.mem_cons.mp hm with rfl | hm
      · exact Wallet.waiting_own (steps_wallet hrun w) hwait
      · exact ih m hm
    | _ => exact ih

end Market

end Digicash
