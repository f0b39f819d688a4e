import Digicash.Bank.Deposits
import Digicash.Network

/-!
# A coin at many banks

A bank credits a coin only for a call that heard the registry accept it, and the registry
accepts a serial for one call ever. So a coin is credited once in the whole network, and for the
same reason a deposit that was accepted cannot be repeated: the registry is asked first, and it
has seen the serial.
-/

namespace Digicash

open Lib

variable {X : Crypto} {B : Type} [DecidableEq B] {π : NetPolicy X B} {κ : B → Member X}
  {s : Net X B}

/-! ## Coins and serials -/

/-- The key under which the registry holds a coin. -/
def Bank.CoinKey.serialKey (coin : Bank.CoinKey) : Registry.SerialKey :=
  ⟨coin.denominationCents, coin.schemeId, Hex.encode coin.serialNumber⟩

/-- Call `i` of a bank heard the registry accept this serial. -/
def Bank.Heard (mem : Bank.Memory) (i : CallId) (key : Registry.SerialKey) : Prop :=
  ∃ submission denom response, ⟨i, submission, .ok response⟩ ∈ mem.asked ∧
    response.outcome = .accepted ∧ i64TryFrom submission.denominationCents = some denom ∧
    Registry.serialKey submission denom = key

theorem Bank.Cleared.heard {κ : Bank.Config X} {mem : Bank.Memory} {i : CallId}
    {req : DepositRequest} (h : Bank.Cleared κ mem i req) (hκ : κ.registryClient.isSome = true)
    {denom : Int} (hd : i64TryFrom req.coin.denominationCents = some denom) :
    Bank.Heard mem i (Bank.coinKey req.coin denom).serialKey := by
  obtain ⟨client, hclient⟩ := Option.isSome_iff_exists.mp hκ
  obtain ⟨now, response, hasked, hacc⟩ := h client hclient
  exact ⟨_, denom, response, hasked, hacc, hd, rfl⟩

/-- Every deposit of a member was heard to be accepted. -/
theorem Bank.deposit_heard {κ₀ : Bank.Config X} (hκ : κ₀.registryClient.isSome = true)
    {t : Sys (Bank.service X)} (h : Sys.Steps Net.membership (Bank.start κ₀) t) {r : String}
    {row : Bank.DepositRow} (hr : t.shared.db.deposits.lookup r = some row) :
    ∃ i, Bank.Heard t.shared.mem i row.coin.serialKey := by
  have hinv : t.conf.registryClient.isSome = true ∧
      ∀ r row, t.shared.db.deposits.lookup r = some row →
        ∃ i, Bank.Heard t.shared.mem i row.coin.serialKey := by
    refine Bank.invariant (J := fun κ sh => κ.registryClient.isSome = true ∧
      ∀ r row, sh.db.deposits.lookup r = some row → ∃ i, Bank.Heard sh.mem i row.coin.serialKey)
      h ?_ ?_ ?_ ?_
    · exact ⟨hκ, fun r row hr => absurd hr (by simp [Bank.Tables.empty])⟩
    · intro κ sh call op e _ hj hv hfrom _
      refine ⟨hj.1, fun r row hr => ?_⟩
      cases e with
      | deposit r' row' b =>
        rw [Bank.Entry.apply, Table.lookup_put] at hr
        split at hr
        · obtain rfl := Option.some.inj hr
          cases op with
          | deposit req =>
            obtain ⟨-, -, ⟨denom, hd, hcoin⟩, hcl⟩ := hfrom
            rw [hcoin]
            exact ⟨call, hcl.heard hj.1 hd⟩
          | _ => exact False.elim hfrom
        · exact hj.2 r row hr
      | _ => exact hj.2 r row hr
    · intro κ sh m hj hm
      refine ⟨hj.1, fun r row hr => ?_⟩
      obtain ⟨i, submission, denom, response, hasked, hrest⟩ := hj.2 r row hr
      exact ⟨i, submission, denom, response, Bank.memStep_asked hm hasked, hrest⟩
    · exact fun hj hp => ⟨hp, hj.2⟩
  exact hinv.2 r row hr

namespace Net

/-! ## One acceptance a coin -/

/-- What a bank heard accepted, the registry accepted for that call of that bank. -/
theorem exists_accepted (h : Steps π (start κ) s) {b : B} {i : CallId}
    {key : Registry.SerialKey} (hheard : Bank.Heard (s.bank b).shared.mem i key) :
    ∃ c ∈ s.registry.shared.hist, Registry.acceptedKey c = some key ∧
      ∃ m, s.about c.call = some m ∧ m.bank = b ∧ m.call = i := by
  obtain ⟨submission, denom, response, hasked, hacc, hd, hkey⟩ := hheard
  obtain ⟨a, ha, hans, caller, hm⟩ := (linked h).heard b _ hasked response rfl
  have hpost := (Registry.good (steps_registry h)).answers a ha
  have hop : a.op = .postSerial caller submission :=
    ((linked h).about a.call _ hm).answered a ha rfl
  rw [hop, hans] at hpost
  obtain ⟨c, hc, hcall, hck⟩ := Registry.Accepted.exists_commit (hpost.accepted hacc) hd
  exact ⟨c, hc, hkey ▸ hck, _, hcall ▸ hm, rfl, rfl⟩

/-- **A coin is heard to be accepted by one call of one bank.** -/
theorem heard_once (h : Steps π (start κ) s) {b b' : B} {i i' : CallId}
    {key : Registry.SerialKey} (hb : Bank.Heard (s.bank b).shared.mem i key)
    (hb' : Bank.Heard (s.bank b').shared.mem i' key) : b = b' ∧ i = i' := by
  obtain ⟨c, hc, hk, m, hm, rfl, rfl⟩ := exists_accepted h hb
  obtain ⟨c', hc', hk', m', hm', rfl, rfl⟩ := exists_accepted h hb'
  obtain rfl := Registry.accepted_call_unique (steps_registry h) hc hc' hk hk'
  obtain rfl : m = m' := Option.some.inj (hm.symm.trans hm')
  exact ⟨rfl, rfl⟩

/-! ## No double credit -/

/-- **No coin is credited twice in the network.** However calls, messages, losses and crashes
    interleave: two deposits of one coin, at whichever banks, are one deposit, and what deposits
    have ever credited to an account of a bank is the sum of its deposits. -/
theorem credited_once (h : Steps π (start κ) s) :
    (∀ b b' r r' row row', (s.bank b).shared.db.deposits.lookup r = some row →
      (s.bank b').shared.db.deposits.lookup r' = some row' → row.coin = row'.coin →
        b = b' ∧ r = r' ∧ row = row') ∧
      ∀ b a, Bank.totalCredited a (s.bank b).shared.hist =
        (s.bank b).shared.db.deposited a := by
  refine ⟨fun b b' r r' row row' hr hr' hcoin => ?_, fun b =>
    Bank.totalCredited_eq (steps_bank h b)⟩
  obtain ⟨i, hi⟩ := Bank.deposit_heard (κ b).2 (steps_bank h b) hr
  obtain ⟨i', hi'⟩ := Bank.deposit_heard (κ b').2 (steps_bank h b') hr'
  obtain ⟨rfl, -⟩ := heard_once h hi (hcoin ▸ hi')
  obtain rfl := (Bank.spentByDeposit (steps_bank h b)).unique hr hr' hcoin
  exact ⟨rfl, rfl, Option.some.inj (hr.symm.trans hr')⟩

/-- Two members over the toy primitives with a key for 100 cents. -/
def members (b : Bool) : Member .toy :=
  ⟨{ Bank.Config.toy with
      registryClient := some (if b then ⟨"bank-b", "bank-a"⟩ else ⟨"bank-a", "bank-a"⟩) }, rfl⟩

/-- Both banks and the registry start, and "alice" has an account at each bank. The next call of
    a bank is number 2, and of the registry number 1. -/
def opened : List (NetEvent .toy Bool) :=
  (Registry.call .connect :: Registry.go 0 4).map .registry ++ Bank.opened.map (.bank true) ++
    Bank.opened.map (.bank false)

/-- Bank `b` begins to deposit the coin as its call `i`, and the registry answers the submission
    as its call `j` in eight steps. -/
def asks (b : Bool) (i : CallId) (req : DepositRequest) (j : CallId) :
    List (NetEvent .toy Bool) :=
  [.bank b (Bank.call (.deposit req)), .bank b (.step i .none default), .post b i, .deliver 0] ++
    (Registry.go j 8).map .registry

/-- Call `i` of bank `b` hears what the registry answered, and goes on for `n` steps. -/
def hears (b : Bool) (i : CallId) (outcome : SerialOutcome) (transcripts : List TranscriptEntry)
    (n : Nat) : List (NetEvent .toy Bool) :=
  .bank b (.step i .none { reply := .ok ⟨outcome, transcripts⟩ }) ::
    (Bank.go i n).map (.bank b)

/-- What the registry keeps of a submission of the toy coin number 1 by `bankId`. -/
def seenFrom (bankId : String) : TranscriptEntry :=
  let client : Bank.RegistryClient := ⟨bankId, "bank-a"⟩
  ⟨bankId, client.transcript .toy (Hex.encode (Bank.toyCoin 1).serialNumber.1) 0, 0⟩

/-- The toy coin number 1 for "alice". -/
def toyDeposit : DepositRequest := ⟨Bank.toyCoin 1, "alice", "p"⟩

/-- Both banks deposit one coin at a time; one is told that it is spent. -/
theorem credited_once_race : ∃ s : Net .toy Bool,
    (s.bank true).shared.db.deposits.entries.length = 1 ∧
      ∀ r row, (s.bank true).shared.db.deposits.lookup r = some row →
        ∀ r' row', (s.bank false).shared.db.deposits.lookup r' = some row' →
          row.coin ≠ row'.coin := by
  obtain ⟨s, hs, hp⟩ := exists_of_run (π := .any) (s := start members)
    (l := opened ++ asks true 2 toyDeposit 1 ++ asks false 2 toyDeposit 2 ++
      hears true 2 .accepted [] 7 ++
      hears false 2 .doubleSpend [seenFrom "bank-b", seenFrom "bank-a"] 1)
    (p := fun s => (s.bank true).shared.db.deposits.entries.length == 1 &&
      (s.bank false).answers.length == 3) (by decide +kernel)
  rw [Bool.and_eq_true, beq_iff_eq] at hp
  refine ⟨s, hp.1, fun r row hr r' row' hr' hcoin => ?_⟩
  exact absurd ((credited_once hs).1 _ _ _ _ _ _ hr hr' hcoin).1 (by decide)

/-! ## A deposit cannot be repeated -/

/-- The answer accepts a deposit. -/
def accepts : Bank.Ans → Bool
  | .deposit (.ok response) => response.accepted
  | _ => false

theorem heard_of_accepts (h : Steps π (start κ) s) {b : B} {a : Answer (Bank.service X)}
    (ha : a ∈ (s.bank b).answers) {req : DepositRequest} (hop : a.op = .deposit req)
    (hacc : accepts a.ans = true) : ∃ denom, i64TryFrom req.coin.denominationCents = some denom ∧
      Bank.Heard (s.bank b).shared.mem a.call (Bank.coinKey req.coin denom).serialKey := by
  have hpost := (Bank.good (steps_bank h b)).answers a ha
  have hconf := (Sys.conf_of_steps (p := fun κ : Bank.Config X => κ.registryClient.isSome = true)
    (fun _ _ hp => hp) (steps_bank h b) ⟨(κ b).2, fun _ h => absurd h (by
      simp [Bank.start, Sys.init])⟩).2 a ha
  obtain ⟨call, op, ans, conf⟩ := a
  obtain rfl : op = .deposit req := hop
  change accepts ans = true at hacc
  unfold accepts at hacc
  split at hacc
  · rename_i response
    have hpromise : response.accepted = true → (s.bank b).shared.db.Credited req ∧
        Bank.Cleared conf (s.bank b).shared.mem call req := hpost
    obtain ⟨⟨row, denom, -, hd, -⟩, hcl⟩ := hpromise hacc
    exact ⟨denom, hd, hcl.heard hconf hd⟩
  · exact absurd hacc (by simp)

/-- **A member accepts a deposit request once.** After a deposit was accepted, no other call
    with the same request is: not the next one, and not after any number of other deposits,
    caps, settlements and restarts. -/
theorem retry_not_accepted (h : Steps π (start κ) s) {b : B} {a a' : Answer (Bank.service X)}
    (ha : a ∈ (s.bank b).answers) (ha' : a' ∈ (s.bank b).answers) {req : DepositRequest}
    (hop : a.op = .deposit req) (hop' : a'.op = .deposit req) (hacc : accepts a.ans = true)
    (hne : a'.call ≠ a.call) : accepts a'.ans = false := by
  by_contra hacc'
  obtain ⟨denom, hd, hheard⟩ := heard_of_accepts h ha hop hacc
  obtain ⟨denom', hd', hheard'⟩ :=
    heard_of_accepts h ha' hop' (Bool.not_eq_false _ |>.mp hacc')
  obtain rfl : denom = denom' := Option.some.inj (hd.symm.trans hd')
  exact hne (heard_once h hheard' hheard).2

/-- The run of a deposit and its retry. -/
def retried : List (NetEvent .toy Bool) :=
  opened ++ asks true 2 toyDeposit 1 ++ hears true 2 .accepted [] 7 ++
    asks true 3 toyDeposit 2 ++
    hears true 3 .doubleSpend [seenFrom "bank-b", seenFrom "bank-b"] 1

theorem retry_not_accepted_at_once : ∃ s : Net .toy Bool, ∃ a ∈ (s.bank true).answers,
    a.op = .deposit toyDeposit ∧ accepts a.ans = true ∧
      ∀ a' ∈ (s.bank true).answers, a'.op = .deposit toyDeposit → a'.call ≠ a.call →
        accepts a'.ans = false := by
  obtain ⟨s, hs, hp⟩ := exists_of_run (π := .any) (s := start members) (l := retried)
    (p := fun s => (s.bank true).answers.any fun a =>
      decide (a.op = .deposit toyDeposit) && accepts a.ans) (by decide +kernel)
  obtain ⟨a, ha, hp⟩ := List.any_eq_true.mp hp
  rw [Bool.and_eq_true, decide_eq_true_eq] at hp
  exact ⟨s, a, ha, hp.1, hp.2, fun a' ha' hop' hne =>
    retry_not_accepted hs ha ha' hp.1 hop' hp.2 hne⟩

/-- The retry of an accepted deposit is answered as a double spend. -/
theorem retry_rejected : ∃ s : Net .toy Bool, Steps .any (start members) s ∧
    ∃ a ∈ (s.bank true).answers, ∃ a' ∈ (s.bank true).answers, a.call < a'.call ∧
      a.op = .deposit toyDeposit ∧ a'.op = .deposit toyDeposit ∧
        a.ans = .deposit (.ok ⟨true, none⟩) ∧
        a'.ans = .deposit (.ok (Bank.reject .registryDoubleSpend)) := by
  obtain ⟨s, hs, hp⟩ := exists_of_run (π := .any) (s := start members) (l := retried)
    (p := fun s => decide (∃ a ∈ (s.bank true).answers, ∃ a' ∈ (s.bank true).answers,
      a.call < a'.call ∧ a.op = .deposit toyDeposit ∧ a'.op = .deposit toyDeposit ∧
        a.ans = .deposit (.ok ⟨true, none⟩) ∧
        a'.ans = .deposit (.ok (Bank.reject .registryDoubleSpend)))) (by decide +kernel)
  exact ⟨s, hs, of_decide_eq_true hp⟩

end Net

end Digicash
