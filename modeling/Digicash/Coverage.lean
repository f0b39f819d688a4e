import Digicash.Registry.Settlement
import Digicash.Solvency

/-!
# Credits are on the books

A member credits a coin after it heard the registry accept it, and no acceptance serves two
coins. So what the members of one name ever credited is at most what the registry accepted in
that name. What it accepted is in its claims and its receivables, or a settlement deleted it
that had not read it (`Registry.missed`).
-/

namespace Digicash

open Lib

variable {X : Crypto}

/-! ## The books of the registry -/

namespace Registry

variable {π : Policy (service X)} {s : Sys (service X)}

/-- The receivables that a commit read. -/
def readReceivables (c : Commit database Op) : Option (List (Pair × Int)) :=
  c.tx.trace.findSome? fun e =>
    match e with
    | ⟨.selectReceivables, read⟩ => some read
    | _ => none

/-- What a settlement deletes of the balance of `p` beyond what it read, and so beyond what it
    claims. It is negative where it claims again what another one had claimed. -/
def missed (p : Pair) (c : Commit database Op) : Int :=
  match readReceivables c with
  | some read => balance (clearedCents c) p - balance (amountIn read) p
  | none => 0

/-- What settlements ever missed. -/
def missedTotal (hist : List (Commit database Op)) (p : Pair) : Int := (hist.map (missed p)).sum

theorem Entry.readReceivables_settle {call : CallId} {op : Op} {db : Tables}
    (read : List (Pair × Int)) (claims : List (Nat × ClaimRow)) (cleared : List (Pair × Int)) :
    readReceivables ⟨call, op, (settle read claims cleared).tx, db⟩ = some read := by
  have hclaims : ∀ (l : List (Nat × ClaimRow)) (t : Tx database),
      readReceivables ⟨call, op, t, db⟩ = some read →
        readReceivables ⟨call, op, l.foldl (fun t c => ran t (.insertClaim c.2) (1 : Nat) []
          [⟨.claim c.1, some c.2⟩]) t, db⟩ = some read := by
    intro l
    induction l with
    | nil => exact fun t ht => ht
    | cons c l ih => exact fun t ht => ih _ ht
  exact hclaims claims (ran .empty .selectReceivables read [] []) rfl

/-- What a settlement missed is what it left wrong. -/
theorem Entry.missed_tx {call : CallId} {op : Op} {db : Tables} {e : Entry} (hv : e.Valid db)
    (p : Pair) : missed p ⟨call, op, e.tx, db⟩ = -e.slip p := by
  cases e with
  | settle read claims cleared =>
    have hcleared : ∀ q, clearedCents ⟨call, op, (settle read claims cleared).tx, db⟩ q =
        amountIn cleared q := by
      intro q
      have hafter : (⟨call, op, (settle read claims cleared).tx, db⟩ :
          Commit database Op).after = (settle read claims cleared).apply db :=
        applyWrites_tx _ db
      rw [clearedCents, hafter, receivable_apply hv]
      simp only [accepts]
      omega
    simp only [missed, readReceivables_settle, slip, balance, hcleared]
    omega
  | doubleSpend check id pair key row seen => cases check <;> rfl
  | accept check id pair key row outstanding =>
    cases check <;> cases outstanding <;> rfl
  | _ => rfl

/-- **What was accepted is on the books, or was missed.** -/
theorem accepted_on_books (h : Sys.Steps π (start X) s) (p : Pair) :
    acceptedTotal s.shared.hist p - acceptedTotal s.shared.hist p.swap =
      s.shared.db.position p + missedTotal s.shared.hist p := by
  refine invariant (J := fun sh => acceptedTotal sh.hist p - acceptedTotal sh.hist p.swap =
    Tables.position sh.db p + missedTotal sh.hist p) h ?_ ?_ (fun h => h)
  · simp [acceptedTotal, missedTotal, Tables.position, balance, Tables.claimed,
      Tables.receivable, Tables.empty]
  · intro sh call op e _ hj hv hfrom _
    rw [Entry.position_apply hv]
    simp only [acceptedTotal, missedTotal, List.map_cons, List.sum_cons,
      Entry.acceptedCents_tx hfrom, Entry.missed_tx hv, balance] at hj ⊢
    omega

theorem acceptedCents_nonneg (p : Pair) (c : Commit database Op) : 0 ≤ acceptedCents p c := by
  unfold acceptedCents
  split
  · split
    · exact Int.natCast_nonneg _
    · exact Int.le_refl 0
  · exact Int.le_refl 0

/-- An accepted submission, by its serial and its pair. -/
theorem Accepted.exists_cents {call : CallId} {caller : String} {submission : SerialSubmission}
    {sh : State X} (h : Accepted call caller submission sh) {denom : Int}
    (hd : i64TryFrom submission.denominationCents = some denom) :
    ∃ c ∈ sh.hist, acceptedKey c = some (serialKey submission denom) ∧
      acceptedCents (submissionPair caller submission) c = submission.denominationCents.toNat := by
  obtain ⟨⟨call', op, tx, before⟩, hc, -, hop, check, id, pair, key, row, outstanding, hrec,
    htx⟩ := h
  obtain rfl : op = .postSerial caller submission := hop
  obtain rfl : tx = _ := htx
  obtain ⟨denom', hd', hkey⟩ := hrec.key
  obtain rfl : denom' = denom := Option.some.inj (hd'.symm.trans hd)
  refine ⟨_, hc, by rw [acceptedKey_accept, hkey], ?_⟩
  simp only [acceptedCents, inserted_accept, and_true, if_true]

end Registry

/-! ## What a bank heard of its coins -/

namespace Bank

/-- Whom the deposits of a bank are between, as it tells the registry. -/
def Config.pair (κ : Config X) : Option Registry.Pair :=
  κ.registryClient.map fun client => ⟨client.issuerId, client.bankId⟩

/-- The runs in which a restart keeps the names that the bank goes by. -/
@[reducible] def sameNames : Policy (service X) :=
  .reboots fun κ κ' => κ'.registryClient = κ.registryClient

/-- The bank heard the registry accept this coin. -/
def HeardOf (client : RegistryClient) (mem : Memory) (coin : Coin) : Prop :=
  ∃ i now response denom, ⟨i, client.submission X coin.denominationCents coin.schemeId
      coin.serialNumber now, .ok response⟩ ∈ mem.asked ∧ response.outcome = .accepted ∧
    i64TryFrom coin.denominationCents = some denom

theorem coinKeyOf_serialKey {client : RegistryClient} {coin : Coin} {now : UInt64} {denom : Int}
    (hd : i64TryFrom coin.denominationCents = some denom) :
    Registry.serialKey (client.submission X coin.denominationCents coin.schemeId
      coin.serialNumber now) denom = (coinKeyOf coin).serialKey := by
  rw [← coinKey_eq hd]
  rfl

theorem CoinKey.serialKey_injective : Function.Injective CoinKey.serialKey := by
  intro coin coin' h
  obtain ⟨hcents, hscheme, hserial⟩ := Registry.SerialKey.mk.inj h
  obtain ⟨scheme, cents, serial⟩ := coin
  obtain rfl := Hex.encode_injective hserial
  subst hcents hscheme
  rfl

/-- Every coin that came back was heard to be accepted. -/
theorem coins_heard {κ : Config X} {client : RegistryClient} {t : Sys (service X)}
    (hκ : κ.registryClient = some client) (h : Sys.Steps sameNames (start κ) t) :
    t.conf.registryClient = some client ∧
      ∀ coin ∈ coins t.shared.hist, HeardOf (X := X) client t.shared.mem coin := by
  refine invariant (J := fun κ sh => κ.registryClient = some client ∧
    ∀ coin ∈ coins sh.hist, HeardOf (X := X) client sh.mem coin) h
      ⟨hκ, fun coin hc => absurd hc (by simp [coins])⟩ ?_ ?_ ?_
  · intro κ sh call op e _ hj hv hfrom _
    refine ⟨hj.1, fun coin hcoin => ?_⟩
    rw [coins, List.filterMap_cons] at hcoin
    cases op with
    | deposit req =>
      cases e with
      | deposit r row b =>
        obtain ⟨-, -, ⟨denom, hd, -⟩, hcleared⟩ := hfrom
        rcases List.mem_cons.mp hcoin with rfl | hold
        · obtain ⟨now, response, hasked, hacc⟩ := hcleared client hj.1
          exact ⟨call, now, response, denom, hasked, hacc, hd⟩
        · exact hj.2 coin hold
      | _ => exact hfrom.elim
    | _ => exact hj.2 coin hcoin
  · intro κ sh m hj hm
    refine ⟨hj.1, fun coin hcoin => ?_⟩
    obtain ⟨i, now, response, denom, hasked, hrest⟩ := hj.2 coin hcoin
    exact ⟨i, now, response, denom, memStep_asked hm hasked, hrest⟩
  · intro κ κ' sh hj hp
    exact ⟨hp.trans hj.1, hj.2⟩

end Bank

namespace Net

variable {B : Type} [DecidableEq B] {κ : B → Member X} {s s' : Net X B}

/-- The runs in which every member keeps its names. -/
@[reducible] def sameNames : NetPolicy X B := each Bank.sameNames

/-- A message bears the name of whoever posted it. -/
def Envelope.Named (κ : B → Member X) (m : Envelope B) : Prop :=
  ∃ client, (κ m.bank).1.registryClient = some client ∧ m.caller = client.bankId

theorem client_kept (h : Steps sameNames (start κ) s) (b : B) :
    (s.bank b).conf.registryClient = (κ b).1.registryClient := by
  obtain ⟨client, hclient⟩ := Option.isSome_iff_exists.mp (κ b).2
  rw [(Bank.coins_heard hclient (bank_each h b)).1, hclient]

/-- **Every submission arrives under its bank's name.** -/
theorem named (h : Steps sameNames (start κ) s) :
    (∀ m ∈ s.posted, Envelope.Named κ m) ∧ ∀ j m, s.about j = some m → Envelope.Named κ m := by
  induction h with
  | refl => exact ⟨fun _ hm => absurd hm (by simp [start]), fun _ _ hj => absurd hj (by
      simp [start])⟩
  | @tail s₁ _ hrun hstep ih =>
    obtain ⟨e, he, -⟩ := hstep
    cases stepped he with
    | @post b i submission client hwait hclient =>
      refine ⟨fun m hm => ?_, ih.2⟩
      rcases List.mem_cons.mp hm with rfl | hm
      · exact ⟨client, (client_kept hrun b).symm.trans hclient, rfl⟩
      · exact ih.1 m hm
    | @deliver n m t hm ht =>
      refine ⟨ih.1, fun j m' hj => ?_⟩
      change Function.update s₁.about s₁.registry.next (some m) j = some m' at hj
      rw [Function.update_apply] at hj
      split at hj
      · obtain rfl := Option.some.inj hj
        exact ih.1 _ (List.mem_of_getElem? hm)
      · exact ih.2 j m' hj
    | _ => exact ih

/-- A coin that came back to a member stands at the registry as accepted for its pair. -/
theorem accepted_of_coin (h : Steps sameNames (start κ) s) {b : B} {p : Registry.Pair}
    (hp : (κ b).1.pair = some p) {coin : Coin}
    (hcoin : coin ∈ Bank.coins (s.bank b).shared.hist) :
    ∃ c ∈ s.registry.shared.hist,
      Registry.acceptedKey c = some (Bank.coinKeyOf coin).serialKey ∧
        Registry.acceptedCents p c = Bank.faceValue coin := by
  obtain ⟨client, hclient, rfl⟩ := Option.map_eq_some_iff.mp hp
  obtain ⟨i, now, response, denom, hasked, hacc, hd⟩ :=
    (Bank.coins_heard hclient (bank_each h b)).2 coin hcoin
  obtain ⟨a, ha, hans, caller, hm⟩ := (linked h).heard b _ hasked response rfl
  obtain ⟨client', hclient', rfl⟩ := (named h).2 a.call _ hm
  obtain rfl : client' = client := Option.some.inj (hclient'.symm.trans hclient)
  have hpost := (Registry.good (steps_registry h)).answers a ha
  rw [((linked h).about a.call _ hm).answered a ha rfl, hans] at hpost
  obtain ⟨c, hc, hkey, hcents⟩ := Registry.Accepted.exists_cents (hpost.accepted hacc) hd
  exact ⟨c, hc, hkey.trans (congrArg some (Bank.coinKeyOf_serialKey hd)), hcents⟩

/-- The coins that came back to a member, if it is of this pair. -/
def coinsOf (κ : B → Member X) (s : Net X B) (p : Registry.Pair) (b : B) : List Coin :=
  if (κ b).1.pair = some p then Bank.coins (s.bank b).shared.hist else []

omit [DecidableEq B] in
theorem mem_coinsOf {p : Registry.Pair} {b : B} {coin : Coin} (h : coin ∈ coinsOf κ s p b) :
    (κ b).1.pair = some p ∧ coin ∈ Bank.coins (s.bank b).shared.hist := by
  unfold coinsOf at h
  split at h
  · exact ⟨‹_›, h⟩
  · exact absurd h (by simp)

theorem nodup_coinsOf [Fintype B] {π : NetPolicy X B} (h : Steps π (start κ) s)
    (p : Registry.Pair) :
    ((gather (coinsOf κ s p)).map fun x => Bank.coinKeyOf x.2).Nodup := by
  refine nodup_map_gather (fun b => ?_) fun b b' coin coin' hcoin hcoin' hkey =>
    coins_apart h (mem_coinsOf hcoin).2 (mem_coinsOf hcoin').2 hkey
  unfold coinsOf
  split
  · exact Bank.nodup_coins (steps_bank h b)
  · exact .nil

omit [DecidableEq B] in
/-- What the members of a pair credited, coin by coin. -/
theorem sum_coinsOf [Fintype B] (p : Registry.Pair) :
    ((gather (coinsOf κ s p)).map fun x => (Bank.faceValue x.2 : Int)).sum =
      ∑ b with (κ b).1.pair = some p, (Bank.returned (s.bank b).shared.hist : Int) := by
  have hcast : ((gather (coinsOf κ s p)).map fun x => (Bank.faceValue x.2 : Int)).sum =
      (((gather (coinsOf κ s p)).map fun x => Bank.faceValue x.2).sum : Nat) := by
    rw [Nat.cast_list_sum, List.map_map]
    rfl
  rw [hcast, sum_gather fun _ => Bank.faceValue, Nat.cast_sum, Finset.sum_filter]
  refine Finset.sum_congr rfl fun b _ => ?_
  unfold coinsOf
  split
  · rfl
  · rfl

/-- What the members of a pair credited is at most what the registry accepted for it. -/
theorem credited_le_accepted [Fintype B] (h : Steps sameNames (start κ) s) (p : Registry.Pair) :
    ∑ b with (κ b).1.pair = some p, (Bank.returned (s.bank b).shared.hist : Int) ≤
      Registry.acceptedTotal s.registry.shared.hist p := by
  rw [← sum_coinsOf p]
  -- Each coin has its acceptance, and no two coins have the same.
  refine sum_le_of_matched
    (M := fun x c => Registry.acceptedKey c = some (Bank.coinKeyOf x.2).serialKey)
    (List.Nodup.of_map _ (nodup_coinsOf h p)) (fun x hx => ?_) (fun x hx y hy c hc hc' => ?_)
    fun c _ => Registry.acceptedCents_nonneg p c
  · obtain ⟨hp, hcoin⟩ := mem_coinsOf (mem_gather.mp hx)
    obtain ⟨c, hc, hkey, hcents⟩ := accepted_of_coin h hp hcoin
    exact ⟨c, hc, hkey, hcents.ge⟩
  · refine List.inj_on_of_nodup_map (nodup_coinsOf h p) hx hy ?_
    exact Bank.CoinKey.serialKey_injective (Option.some.inj (hc.symm.trans hc'))

/-- **Every credit is on the books.** However calls, messages, losses, crashes and settlements
    interleave, and however many banks go by one name: what the members that report coins of one
    bank under the name of another ever credited is at most what the registry accepted for that
    pair, and so at most what its claims and receivables say the pair owes, what settlements
    missed, and what was accepted the other way. -/
theorem credits_on_books [Fintype B] (h : Steps sameNames (start κ) s) (p : Registry.Pair) :
    ∑ b with (κ b).1.pair = some p, (Bank.returned (s.bank b).shared.hist : Int) ≤
        Registry.acceptedTotal s.registry.shared.hist p ∧
      ∑ b with (κ b).1.pair = some p, (Bank.returned (s.bank b).shared.hist : Int) ≤
        s.registry.shared.db.position p + Registry.missedTotal s.registry.shared.hist p +
          Registry.acceptedTotal s.registry.shared.hist p.swap := by
  have hle := credited_le_accepted h p
  have hbooks := Registry.accepted_on_books (steps_registry h) p
  refine ⟨hle, ?_⟩
  omega

/-- A settlement has read no receivable yet when the toy coin of "bank-a" is deposited at
    "bank-b", and deletes the deposit's. -/
def outrun : List (NetEvent .toy Bool) :=
  opened ++ (Registry.call (.registerMember "admin" (.replicate 32 0) true) :: Registry.go 1 2 ++
      Registry.call (.postSettle "admin") :: Registry.go 2 4).map .registry ++
    asks true 2 toyDeposit 3 ++ hears true 2 .accepted [] 7 ++
    (Registry.go 2 3).map .registry

/-- No member restarts. -/
theorem sameNames_of_steadily (h : Steps steadily s s') : Steps sameNames s s' := by
  refine Relation.ReflTransGen.mono (fun s₁ s₂ hstep => ?_) _ _ h
  obtain ⟨e, he, hsteady⟩ := hstep
  refine ⟨e, he, ?_⟩
  rintro b be rfl
  refine ⟨fun κ hκ => ?_, fun _ _ => trivial⟩
  subst hκ
  exact hsteady.elim

theorem credits_on_books_outrun : ∃ s : Net .toy Bool,
    Bank.returned (s.bank true).shared.hist = 100 ∧
      s.registry.shared.db.position ⟨"bank-a", "bank-b"⟩ = 0 ∧
      ∑ b with (members b).1.pair = some ⟨"bank-a", "bank-b"⟩,
        (Bank.returned (s.bank b).shared.hist : Int) ≤
          0 + Registry.missedTotal s.registry.shared.hist ⟨"bank-a", "bank-b"⟩ +
            Registry.acceptedTotal s.registry.shared.hist ⟨"bank-b", "bank-a"⟩ := by
  obtain ⟨s, hs, hp⟩ := exists_of_run (π := steadily) (s := start members) (l := outrun)
    (p := fun s => decide (Bank.returned (s.bank true).shared.hist = 100 ∧
      s.registry.shared.db.position ⟨"bank-a", "bank-b"⟩ = 0)) (by decide +kernel)
  obtain ⟨hreturned, hposition⟩ := of_decide_eq_true hp
  have hcovered := credits_on_books (sameNames_of_steadily hs) ⟨"bank-a", "bank-b"⟩
  rw [hposition] at hcovered
  exact ⟨s, hreturned, hposition, hcovered.2⟩

end Net

end Digicash
