import Digicash.Bank.Undisturbed
import Digicash.Wallet.Spending

/-!
# A trade

A payer withdraws an amount, puts it in a file and hands the file over; the payee deposits it.
Each command runs against the bank, which answers each request at once, and nothing fails.
-/

namespace Digicash

open Lib

variable {X : Crypto}

/-! ## A wallet and its bank -/

/-- What a client makes of the bank's answer to a request for `path`. -/
def received {α : Type} (baseUrl path : String) (r : Except Bank.BankError α) :
    Except Wallet.WalletError α :=
  r.mapError fun e => .http (baseUrl ++ path)
    (baseUrl ++ path ++ ": status code " ++ toString e.status)

/-- What is around a wallet: the bank, and what chance has in store. -/
structure Surroundings (X : Crypto) where
  bank : Sys (Bank.service X)
  /-- The serials `Serial::generate` is going to return. -/
  serials : List Serial
  /-- The bytes the next request ids are going to be made of. -/
  requestIds : List { b : Bytes // b.length = 16 }
  /-- Everything else, command by command. -/
  chance : Nat → Wallet.Oracle

/-- How the surroundings decide a command of the wallet. -/
def outside (baseUrl : String) : Outside Wallet.database (Surroundings X)
  | .ext .client, t => some ({ client := .ok () }, t)
  | .ext .denominations, t =>
    some ({ denominations := received baseUrl "/denominations" (Bank.publishedKeys t.bank.conf) }, t)
  | .ext .serial, t =>
    match t.serials with
    | [] => none
    | serial :: serials => some ({ serial := .ok serial }, { t with serials := serials })
  | .ext .requestId, t =>
    match t.requestIds with
    | [] => none
    | bytes :: requestIds => some ({ requestId := .ok bytes }, { t with requestIds := requestIds })
  | .ext (.withdraw request), t =>
    match Bank.serve t.bank (.withdraw request) with
    | some (.withdraw r, bank) =>
      some ({ withdraw := received baseUrl "/withdraw" r }, { t with bank := bank })
    | _ => none
  | .ext (.deposit request), t =>
    match Bank.serve t.bank (.deposit request) with
    | some (.deposit r, bank) =>
      some ({ deposit := received baseUrl "/deposit" r }, { t with bank := bank })
    | _ => none
  | _, t => some (t.chance 0, { t with chance := fun n => t.chance (n + 1) })

/-- One command of a wallet, from the start of its process to the end. -/
def command (baseUrl : String) (op : Wallet.Op) (t : Surroundings X)
    (wallet : Sys (Wallet.service X)) :
    Option (Wallet.Ans × Surroundings X × Sys (Wallet.service X)) :=
  (wallet.serve (outside baseUrl) op t).bind fun r =>
    (r.2.2.step Wallet.exit).map fun wallet' => (r.1, r.2.1, wallet')

/-! ## What is assumed of the bank and the primitives -/

/-- What is blinded and signed and unblinded verifies. -/
def Keypair.Signs (keypair : Keypair X) : Prop :=
  ∀ rng serial, ∃ blinding blindSig sig,
    blind keypair.pk rng serial = .ok blinding ∧
    signBlinded keypair.sk (X.blindMessage blinding) = .ok blindSig ∧
    unblind keypair.pk blindSig blinding serial = .ok sig ∧
    verify keypair.pk serial sig = .ok ()

/-- The bank serves every denomination, and its keys can be published and used. -/
structure Bank.Serves (κ : Bank.Config X) : Prop where
  denominations : ∀ d ∈ denominations, ∃ keypair,
    κ.keys.get d schemeIdRsaDeterministic = some keypair
  published : ∀ key keypair, κ.keys.keys.lookup key = some keypair →
    ∃ spki, X.toSpki keypair.pk = .ok spki ∧ X.fromSpki spki = .ok keypair.pk
  signs : ∀ d keypair, κ.keys.get d schemeIdRsaDeterministic = some keypair → keypair.Signs

/-! ## The keys a wallet gets -/

/-- Published keys are parsed back to the keys they are of. -/
theorem parseKeys_of_published : ∀ {keys : List ((UInt64 × UInt8) × Keypair X)}
    {f : (UInt64 × UInt8) × Keypair X → Except Bank.BankError DenominationKey},
    (keys.map Prod.fst).Nodup →
    (∀ key ∈ keys, ∃ spki, f key = .ok ⟨key.1.1, key.1.2, spki⟩ ∧ X.fromSpki spki = .ok key.2.pk) →
    ∃ published, keys.mapM f = .ok published ∧ ∀ table : Table UInt64 X.PublicKey,
      ∃ table', published.foldlM (fun table key =>
          if key.schemeId = schemeIdRsaDeterministic then
            ((X.fromSpki key.publicKeySpki).mapError Wallet.WalletError.keyParse).map fun pk =>
              table.put key.denominationCents (some pk)
          else .ok table) table = .ok table' ∧
        ∀ d, (∀ keypair, ((d, schemeIdRsaDeterministic), keypair) ∈ keys →
            table'.lookup d = some keypair.pk) ∧
          ((d, schemeIdRsaDeterministic) ∉ keys.map Prod.fst → table'.lookup d = table.lookup d)
  | [], f, _, _ => ⟨[], rfl, fun table => ⟨table, rfl, fun d => ⟨fun _ h => absurd h (by simp),
      fun _ => rfl⟩⟩⟩
  | ((d₀, scheme), keypair) :: keys, f, hnodup, hf => by
    rw [List.map_cons, List.nodup_cons] at hnodup
    obtain ⟨spki, hspki, hfrom⟩ := hf _ (List.mem_cons_self ..)
    obtain ⟨published, hpub, hparse⟩ := parseKeys_of_published hnodup.2
      fun key hkey => hf key (List.mem_cons_of_mem _ hkey)
    refine ⟨⟨d₀, scheme, spki⟩ :: published, ?_, fun table => ?_⟩
    · rw [List.mapM_cons, hspki, hpub]
      rfl
    by_cases hs : scheme = schemeIdRsaDeterministic
    · subst hs
      obtain ⟨table', hrun, htable'⟩ := hparse (table.put d₀ (some keypair.pk))
      refine ⟨table', ?_, fun d => ⟨fun keypair' hmem => ?_, fun hnot => ?_⟩⟩
      · rw [List.foldlM_cons]
        simp only [if_true, hfrom]
        exact hrun
      · rcases List.mem_cons.mp hmem with heq | hmem
        · obtain ⟨hd, rfl⟩ := Prod.mk.inj heq
          obtain ⟨rfl, -⟩ := Prod.mk.inj hd
          rw [(htable' d).2 hnodup.1, Table.lookup_put_self]
        · exact (htable' d).1 keypair' hmem
      · rw [List.map_cons, List.mem_cons, not_or] at hnot
        rw [(htable' d).2 hnot.2, Table.lookup_put_ne fun heq => hnot.1 (by rw [heq])]
    · obtain ⟨table', hrun, htable'⟩ := hparse table
      refine ⟨table', ?_, fun d => ⟨fun keypair' hmem => ?_, fun hnot => ?_⟩⟩
      · rw [List.foldlM_cons]
        simp only [hs, if_false]
        exact hrun
      · rcases List.mem_cons.mp hmem with heq | hmem
        · exact absurd (Prod.mk.inj (Prod.mk.inj heq).1).2.symm hs
        · exact (htable' d).1 keypair' hmem
      · rw [List.map_cons, List.mem_cons, not_or] at hnot
        exact (htable' d).2 hnot.2

/-- **A wallet gets the key of every denomination the bank serves.** -/
theorem Bank.Serves.parseKeys {κ : Bank.Config X} (h : Bank.Serves κ) :
    ∃ published keys, Bank.publishedKeys κ = .ok published ∧
      Wallet.parseKeys X published = .ok keys ∧
      ∀ d keypair, κ.keys.get d schemeIdRsaDeterministic = some keypair →
        keys.lookup d = some keypair.pk := by
  have hperm : κ.keys.publicKeys.Perm κ.keys.keys.rows := List.perm_insertionSort _ _
  have hnodup : (κ.keys.publicKeys.map Prod.fst).Nodup :=
    (hperm.map Prod.fst).nodup_iff.mpr κ.keys.keys.nodup_rows
  obtain ⟨published, hpub, hparse⟩ : ∃ published, Bank.publishedKeys κ = .ok published ∧ _ := by
    unfold Bank.publishedKeys
    refine parseKeys_of_published hnodup fun key hkey => ?_
    obtain ⟨spki, hto, hfrom⟩ := h.published key.1 key.2 (Table.mem_rows.mp (hperm.mem_iff.mp hkey))
    exact ⟨spki, by rw [hto], hfrom⟩
  obtain ⟨keys, hkeys, hlookup⟩ := hparse ∅
  exact ⟨published, keys, hpub, hkeys, fun d keypair hget =>
    (hlookup d).1 keypair (hperm.mem_iff.mpr (Table.mem_rows.mpr hget))⟩

/-! ## What a trade rests on -/

/-- The bank serves, and without a registry. -/
structure Bank.Open (bank : Sys (Bank.service X)) : Prop where
  up : bank.shared.mem.phase = .up
  wellFormed : bank.shared.db.WellFormed
  registry : bank.conf.registryClient = none
  serves : Bank.Serves bank.conf

/-- Nothing that chance has in store has been used at the bank, or is there twice. -/
structure Surroundings.Fresh (t : Surroundings X) : Prop where
  serials : t.serials.Nodup
  requestIds : t.requestIds.Nodup
  unspent : ∀ serial ∈ t.serials, ∀ coin : Bank.CoinKey, coin.serialNumber = serial.1 →
    t.bank.shared.db.spentSerials.lookup coin = none
  withdrawal : ∀ bytes ∈ t.requestIds,
    t.bank.shared.db.withdrawStates.lookup (Hex.encode bytes.1) = none
  deposit : ∀ bytes ∈ t.requestIds, t.bank.shared.db.deposits.lookup (Hex.encode bytes.1) = none

/-- A coin of the bank that has not been deposited. -/
structure Bank.Undeposited (bank : Sys (Bank.service X)) (coin : Coin) : Prop where
  denomination : coin.denominationCents ∈ denominations
  genuine : Bank.Genuine bank.conf coin
  unspent : ∀ denom, bank.shared.db.spentSerials.lookup (Bank.coinKey coin denom) = none

/-- A store of undeposited coins of the bank, none under a serial still to be drawn. -/
structure Stocked (t : Surroundings X) (store : Table Serial Coin) : Prop where
  keyed : ∀ serial coin, store.lookup serial = some coin → coin.serialNumber = serial
  undeposited : ∀ serial coin, store.lookup serial = some coin → Bank.Undeposited t.bank coin
  undrawn : ∀ serial ∈ t.serials, store.lookup serial = none

/-- What holds of the bank and a payer before and after each coin of a withdrawal. -/
structure Standing (t : Surroundings X) (sh : Wallet.State X) : Prop where
  bank : Bank.Open t.bank
  fresh : t.Fresh
  stocked : Stocked t sh.db.coins

theorem i64TryFrom_denomination {d : UInt64} (h : d ∈ denominations) :
    i64TryFrom d = some (d.toNat : Int) := by
  have hall : denominations.all (fun d => decide ((d.toNat : Int) ≤ i64Max)) = true := by decide
  rw [i64TryFrom, if_pos (of_decide_eq_true (List.all_eq_true.mp hall d h))]

/-! ## Withdrawing -/

/-- From here to there the account has paid for these coins and the store has gained them. -/
structure Withdrawn (accountId : String) (coins : List Coin) (t : Surroundings X)
    (sh : Wallet.State X) (t' : Surroundings X) (sh' : Wallet.State X) : Prop where
  standing : Standing t' sh'
  conf : t'.bank.conf = t.bank.conf
  serials : t'.serials = t.serials.drop coins.length
  requestIds : t'.requestIds = t.requestIds.drop coins.length
  accounts : ∀ a, t'.bank.shared.db.accounts.lookup a =
    if a = accountId then
      (t.bank.shared.db.accounts.lookup a).map fun b => b - (Wallet.worth coins : Int)
    else t.bank.shared.db.accounts.lookup a
  held : sh'.db.held.Perm (coins ++ sh.db.held)
  files : sh'.db.files = sh.db.files

variable {t t' t'' : Surroundings X} {sh sh' sh'' : Wallet.State X} {accountId : String}

theorem Withdrawn.refl (h : Standing t sh) : Withdrawn accountId [] t sh t sh :=
  ⟨h, rfl, rfl, rfl, fun a => by simp, .refl _, rfl⟩

theorem Withdrawn.cons {coin : Coin} {coins : List Coin}
    (h : Withdrawn accountId [coin] t sh t' sh') (h' : Withdrawn accountId coins t' sh' t'' sh'') :
    Withdrawn accountId (coin :: coins) t sh t'' sh'' := by
  refine ⟨h'.standing, h'.conf.trans h.conf, ?_, ?_, fun a => ?_, ?_, h'.files.trans h.files⟩
  · rw [h'.serials, h.serials, List.drop_drop, Nat.add_comm]
    rfl
  · rw [h'.requestIds, h.requestIds, List.drop_drop, Nat.add_comm]
    rfl
  · rw [h'.accounts, h.accounts]
    split
    · rw [Option.map_map]
      congr 1
      funext b
      simp only [Function.comp, Wallet.worth_cons, Wallet.worth_nil]
      omega
    · rfl
  · refine h'.held.trans ((h.held.append_left coins).trans ?_)
    exact List.perm_middle

/-- One coin put in a store of others. -/
theorem Stocked.put {store : Table Serial Coin} {coin : Coin} {serials : List Serial}
    (h : Stocked t store) (hserials : t.serials = coin.serialNumber :: serials)
    (hnodup : t.serials.Nodup) (hnew : Bank.Undeposited t'.bank coin)
    (hconf : t'.bank.conf = t.bank.conf)
    (hspent : t'.bank.shared.db.spentSerials = t.bank.shared.db.spentSerials)
    (hserials' : t'.serials = serials) :
    Stocked t' (store.put coin.serialNumber (some coin)) := by
  have hlookup : ∀ serial, (store.put coin.serialNumber (some coin)).lookup serial =
      if serial = coin.serialNumber then some coin else store.lookup serial := fun serial =>
    Table.lookup_put _ _ _ _
  refine ⟨fun serial c hc => ?_, fun serial c hc => ?_, fun serial hs => ?_⟩
  · rw [hlookup] at hc
    split at hc
    · rename_i heq
      obtain rfl := Option.some.inj hc
      exact heq.symm
    · exact h.keyed serial c hc
  · rw [hlookup] at hc
    split at hc
    · obtain rfl := Option.some.inj hc
      exact hnew
    · obtain ⟨hd, hg, hu⟩ := h.undeposited serial c hc
      exact ⟨hd, hconf ▸ hg, fun denom => hspent ▸ hu denom⟩
  · rw [hserials'] at hs
    rw [hserials, List.nodup_cons] at hnodup
    have hne : serial ≠ coin.serialNumber := fun heq => hnodup.1 (heq ▸ hs)
    rw [hlookup, if_neg hne]
    exact h.undrawn serial (hserials ▸ List.mem_cons_of_mem _ hs)

variable {baseUrl : String} {i : CallId} {op : Wallet.Op}

/-- The handler of one command of a wallet. -/
abbrev handler (baseUrl : String) (i : CallId) (op : Wallet.Op) :
    Handler Wallet.database (Surroundings X × Wallet.State X × Option (Tx Wallet.database)) :=
  answering (S := Wallet.service X) (outside baseUrl) i op

theorem handler_serial {serial : Serial} {serials : List Serial} (h : t.serials = serial :: serials) :
    handler baseUrl i op (.ext .serial) (t, sh, none) =
      some (.ok serial, { t with serials := serials }, sh, none) := by
  simp only [handler, answering, outside, h]
  rfl

theorem handler_requestId {bytes : { b : Bytes // b.length = 16 }}
    {requestIds : List { b : Bytes // b.length = 16 }} (h : t.requestIds = bytes :: requestIds) :
    handler baseUrl i op (.ext .requestId) (t, sh, none) =
      some (.ok bytes, { t with requestIds := requestIds }, sh, none) := by
  simp only [handler, answering, outside, h]
  rfl

theorem handler_withdraw {request : WithdrawRequest} {response : WithdrawResponse}
    {bank : Sys (Bank.service X)}
    (h : Bank.serve t.bank (.withdraw request) = some (.withdraw (.ok response), bank)) :
    handler baseUrl i op (.ext (.withdraw request)) (t, sh, none) =
      some (.ok response, { t with bank := bank }, Wallet.drew sh i request (.ok response), none) := by
  simp only [handler, answering, outside, h]
  rfl

theorem handler_deposit {request : DepositRequest} {response : DepositResponse}
    {bank : Sys (Bank.service X)}
    (h : Bank.serve t.bank (.deposit request) = some (.deposit (.ok response), bank)) :
    handler baseUrl i op (.ext (.deposit request)) (t, sh, none) =
      some (.ok response, { t with bank := bank }, Wallet.tendered sh i request (.ok response),
        none) := by
  simp only [handler, answering, outside, h]
  rfl

theorem withdrawCoin_succeeds {keys : Table UInt64 X.PublicKey} {d : UInt64} {b : Int}
    (h : Standing t sh) (hd : d ∈ denominations)
    (hkeys : ∀ d keypair, t.bank.conf.keys.get d schemeIdRsaDeterministic = some keypair →
      keys.lookup d = some keypair.pk)
    (hserials : t.serials ≠ []) (hids : t.requestIds ≠ [])
    (hb : t.bank.shared.db.accounts.lookup accountId = some b) (hle : (d.toNat : Int) ≤ b) :
    Succeeds (handler baseUrl i op)
      (fun coin s => coin.denominationCents = d ∧ s.2.2 = none ∧
        Withdrawn accountId [coin] t sh s.1 s.2.1)
      (Wallet.withdrawCoin accountId keys d) (t, sh, none) := by
  obtain ⟨keypair, hget⟩ := h.bank.serves.denominations d hd
  obtain ⟨serial, serials, hserials⟩ := List.exists_cons_of_ne_nil hserials
  obtain ⟨bytes, requestIds, hids⟩ := List.exists_cons_of_ne_nil hids
  obtain ⟨blinding, blindSig, sig, hblind, hsign, hunblind, hverify⟩ :=
    h.bank.serves.signs d keypair hget (t.chance 0).rng serial
  have hbytes : bytes ∈ t.requestIds := hids ▸ List.mem_cons_self ..
  have hserial : serial ∈ t.serials := hserials ▸ List.mem_cons_self ..
  obtain ⟨bank, hserve, hconf, hmem, hdrew⟩ := Bank.withdraw_served
    ⟨accountId, Hex.encode bytes.1, d, X.blindMessage blinding⟩ h.bank.up
    h.bank.wellFormed (h.fresh.withdrawal bytes hbytes) hget (i64TryFrom_denomination hd) hb hle hsign
  unfold Wallet.withdrawCoin
  rw [hkeys d keypair hget]
  refine Succeeds.perform_bind (handler_serial hserials) ?_
  refine Succeeds.orThrow_bind rfl ?_
  refine Succeeds.perform_bind (r := (t.chance 0).rng) rfl ?_
  refine Succeeds.orThrow_bind (a := blinding) (by rw [hblind]; rfl) ?_
  refine Succeeds.bind (R := fun requestId s => requestId = Hex.encode bytes.1 ∧
    s = ({ t with serials := serials, requestIds := requestIds
                  chance := fun n => t.chance (n + 1) }, sh, none)) ?_ ?_
  · refine Succeeds.perform_bind (handler_requestId hids) ?_
    exact Succeeds.orThrow_bind rfl (Succeeds.ok ⟨rfl, rfl⟩)
  rintro requestId s ⟨rfl, rfl⟩
  refine Succeeds.perform_bind (handler_withdraw hserve) ?_
  refine Succeeds.orThrow_bind rfl ?_
  refine Succeeds.orThrow_bind (a := sig) (by rw [hunblind]; rfl) ?_
  refine Succeeds.orThrow_bind (a := ()) (by rw [hverify]; rfl) ?_
  refine Succeeds.query_bind (r := ()) rfl (Succeeds.ok ⟨rfl, rfl, ?_⟩)
  have hnodup := h.fresh.serials
  have hnodup' := h.fresh.requestIds
  rw [hserials, List.nodup_cons] at hnodup
  rw [hids, List.nodup_cons] at hnodup'
  have hcoin : Bank.Undeposited bank ⟨schemeIdRsaDeterministic, d, serial, sig⟩ :=
    ⟨hd, ⟨rfl, keypair, hconf ▸ hget, hverify⟩, fun denom =>
      hdrew.spentSerials ▸ h.fresh.unspent serial hserial _ rfl⟩
  have hrest : ∀ bytes' ∈ requestIds, Hex.encode bytes'.1 ≠ Hex.encode bytes.1 := by
    intro bytes' hmem heq
    have : bytes' = bytes := Subtype.ext (Hex.encode_injective heq)
    exact hnodup'.1 (this ▸ hmem)
  refine ⟨⟨?_, ?_, ?_⟩, hconf, ?_, ?_, fun a => ?_, ?_, rfl⟩
  · exact ⟨hmem ▸ h.bank.up, hdrew.wellFormed, hconf ▸ h.bank.registry, hconf ▸ h.bank.serves⟩
  · refine ⟨hnodup.2, hnodup'.2, fun s hs coin hk => ?_, fun r hr => ?_, fun r hr => ?_⟩
    · exact hdrew.spentSerials ▸ h.fresh.unspent s (hserials ▸ List.mem_cons_of_mem _ hs) coin hk
    · exact (hdrew.withdrawStates _ (hrest r hr)).trans
        (h.fresh.withdrawal r (hids ▸ List.mem_cons_of_mem _ hr))
    · exact hdrew.deposits ▸ h.fresh.deposit r (hids ▸ List.mem_cons_of_mem _ hr)
  · exact h.stocked.put hserials h.fresh.serials hcoin hconf hdrew.spentSerials rfl
  · rw [hserials]
    rfl
  · rw [hids]
    rfl
  · change bank.shared.db.accounts.lookup a = _
    rw [hdrew.accounts, Table.lookup_put]
    split
    · rename_i heq
      rw [heq, hb]
      simp [Wallet.worth, Wallet.cents, sub_eq_add_neg]
    · rfl
  · exact (Table.perm_rows_put_some (h.stocked.undrawn serial hserial)).map Prod.snd

theorem withdrawCoins_succeeds {keys : Table UInt64 X.PublicKey} : ∀ {ds : List UInt64} {b : Int}
    {t : Surroundings X} {sh : Wallet.State X}, Standing t sh → (∀ d ∈ ds, d ∈ denominations) →
    (∀ d keypair, t.bank.conf.keys.get d schemeIdRsaDeterministic = some keypair →
      keys.lookup d = some keypair.pk) →
    ds.length ≤ t.serials.length → ds.length ≤ t.requestIds.length →
    t.bank.shared.db.accounts.lookup accountId = some b →
    (((ds.map UInt64.toNat).sum : Nat) : Int) ≤ b →
    Succeeds (handler baseUrl i op)
      (fun coins s => coins.map Coin.denominationCents = ds ∧ s.2.2 = none ∧
        Withdrawn accountId coins t sh s.1 s.2.1)
      (Wallet.withdrawCoins accountId keys ds) (t, sh, none)
  | [], _, _, _, h, _, _, _, _, _, _ => Succeeds.ok ⟨rfl, rfl, .refl h⟩
  | d :: ds, b, t, sh, h, hds, hkeys, hserials, hids, hb, hle => by
    rw [List.map_cons, List.sum_cons] at hle
    have hne : t.serials ≠ [] := fun heq => by simp [heq] at hserials
    have hne' : t.requestIds ≠ [] := fun heq => by simp [heq] at hids
    refine Succeeds.bind (withdrawCoin_succeeds h (hds d (List.mem_cons_self ..)) hkeys hne hne' hb
      (by omega)) ?_
    rintro coin ⟨t₁, sh₁, tx⟩ ⟨hd, rfl, hone⟩
    dsimp only at hone
    have hb₁ : t₁.bank.shared.db.accounts.lookup accountId = some (b - d.toNat) := by
      rw [hone.accounts, if_pos rfl, hb]
      simp [Wallet.worth, Wallet.cents, hd]
    have hserials₁ : ds.length ≤ t₁.serials.length := by
      rw [hone.serials, List.length_drop]
      exact Nat.le_sub_of_add_le hserials
    have hids₁ : ds.length ≤ t₁.requestIds.length := by
      rw [hone.requestIds, List.length_drop]
      exact Nat.le_sub_of_add_le hids
    refine Succeeds.bind (withdrawCoins_succeeds hone.standing
      (fun d' hd' => hds d' (List.mem_cons_of_mem _ hd')) (hone.conf ▸ hkeys) hserials₁ hids₁ hb₁
      (by omega)) ?_
    rintro coins ⟨t₂, sh₂, tx⟩ ⟨hmap, rfl, hrest⟩
    exact Succeeds.ok ⟨by rw [List.map_cons, hd, hmap], rfl, hone.cons hrest⟩

/-- The client is built and knows its account. -/
theorem client_succeeds (hid : sh.db.accountId = some accountId) :
    Succeeds (handler baseUrl i op)
      (fun a s => a = accountId ∧ s = ({ t with chance := fun n => t.chance (n + 1) }, sh, none))
      Wallet.client (t, sh, none) := by
  refine Succeeds.query_bind (r := some accountId) (t :=
    ({ t with chance := fun n => t.chance (n + 1) }, sh, none)) ?_ ?_
  · rw [← hid]
    rfl
  · refine Succeeds.perform_bind (r := .ok ()) rfl ?_
    exact Succeeds.orThrow_bind rfl (Succeeds.ok ⟨rfl, rfl⟩)

theorem bankPublicKeys_succeeds (h : Bank.Serves t.bank.conf) :
    Succeeds (handler baseUrl i op)
      (fun keys s => s = (t, sh, none) ∧
        ∀ d keypair, t.bank.conf.keys.get d schemeIdRsaDeterministic = some keypair →
          keys.lookup d = some keypair.pk)
      (Wallet.bankPublicKeys X) (t, sh, none) := by
  obtain ⟨published, keys, hpub, hparse, hlookup⟩ := h.parseKeys
  refine Succeeds.perform_bind (r := .ok published) (t := (t, sh, none)) ?_ ?_
  · simp only [handler, answering, outside, hpub]
    rfl
  · refine Succeeds.orThrow_bind rfl ?_
    exact Succeeds.orThrow hparse ⟨rfl, hlookup⟩

theorem withdraw_succeeds {amount : UInt64} {b : Int} (h : Standing t sh)
    (hid : sh.db.accountId = some accountId)
    (hserials : (Wallet.decompose amount).length ≤ t.serials.length)
    (hids : (Wallet.decompose amount).length ≤ t.requestIds.length)
    (hb : t.bank.shared.db.accounts.lookup accountId = some b) (hle : (amount.toNat : Int) ≤ b) :
    Succeeds (handler baseUrl i op)
      (fun coins s => coins.map Coin.denominationCents = Wallet.decompose amount ∧ s.2.2 = none ∧
        Withdrawn accountId coins t sh s.1 s.2.1)
      (Wallet.withdraw X amount) (t, sh, none) := by
  refine Succeeds.bind (client_succeeds hid) ?_
  rintro a s ⟨rfl, rfl⟩
  refine Succeeds.bind (bankPublicKeys_succeeds (t := { t with chance := fun n => t.chance (n + 1) })
    h.bank.serves) ?_
  rintro keys s ⟨rfl, hkeys⟩
  have hstanding : Standing ({ t with chance := fun n => t.chance (n + 1) }) sh :=
    ⟨h.bank, ⟨h.fresh.serials, h.fresh.requestIds, h.fresh.unspent, h.fresh.withdrawal,
      h.fresh.deposit⟩, ⟨h.stocked.keyed, h.stocked.undeposited, h.stocked.undrawn⟩⟩
  refine Succeeds.mono (withdrawCoins_succeeds hstanding (fun d hd => Wallet.mem_decompose hd) hkeys
    hserials hids hb ?_) ?_
  · rwa [Wallet.sum_decompose]
  · rintro coins s ⟨hmap, htx, hw⟩
    exact ⟨hmap, htx, ⟨hw.standing, hw.conf, hw.serials, hw.requestIds, hw.accounts, hw.held,
      hw.files⟩⟩

/-! ## Spending -/

/-- Nothing but chance has moved. -/
structure Surroundings.Same (t t' : Surroundings X) : Prop where
  bank : t'.bank = t.bank
  requestIds : t'.requestIds = t.requestIds

/-- A held coin is under its own serial. -/
theorem lookup_of_held {d : Wallet.Disk} {coin : Coin}
    (hkeyed : ∀ serial c, d.coins.lookup serial = some c → c.serialNumber = serial)
    (h : coin ∈ d.held) : d.coins.lookup coin.serialNumber = some coin := by
  obtain ⟨⟨serial, c⟩, hmem, rfl⟩ := List.mem_map.mp h
  have hl := Table.mem_rows.mp hmem
  rw [hkeyed serial c hl]
  exact hl

/-- Held coins have different serials. -/
theorem nodup_held {d : Wallet.Disk}
    (hkeyed : ∀ serial c, d.coins.lookup serial = some c → c.serialNumber = serial) :
    (d.held.map Coin.serialNumber).Nodup := by
  have hserials : d.held.map Coin.serialNumber = d.coins.rows.map Prod.fst := by
    rw [Wallet.Disk.held, List.map_map]
    refine List.map_congr_left fun row hrow => ?_
    exact hkeyed row.1 row.2 (Table.mem_rows.mp hrow)
  rw [hserials]
  exact d.coins.nodup_rows

theorem removeCoins_succeeds (rest : List Coin) : ∀ {coins : List Coin} {t : Surroundings X}
    (sh : Wallet.State X),
    (∀ serial c, sh.db.coins.lookup serial = some c → c.serialNumber = serial) →
    sh.db.held.Perm (coins ++ rest) →
    Succeeds (handler baseUrl i op)
      (fun _ s => s.2.2 = none ∧ t.Same s.1 ∧ s.2.1.db.files = sh.db.files ∧
        s.2.1.db.held.Perm rest)
      (Wallet.removeCoins coins) (t, sh, none)
  | [], _, _, _, hheld => Succeeds.ok ⟨rfl, ⟨rfl, rfl⟩, rfl, hheld⟩
  | coin :: coins, t, sh, hkeyed, hheld => by
    have hl : sh.db.coins.lookup coin.serialNumber = some coin :=
      lookup_of_held hkeyed (hheld.mem_iff.mpr (List.mem_cons_self ..))
    refine Succeeds.query_bind (r := true) (t :=
      ({ t with chance := fun n => t.chance (n + 1) },
        Wallet.removed sh i op coin.serialNumber, none)) ?_ ?_
    · have hexec : Wallet.exec (.removeCoin coin.serialNumber) (t.chance 0) sh.db =
          .write [] true [⟨.coin coin.serialNumber, none⟩] := by
        simp only [Wallet.exec, hl]
      simp only [handler, answering, outside, calmly, execCmd, execStmt, Option.bind_some]
      rw [hexec]
      rfl
    · have hkeyed' : ∀ serial c, (sh.db.coins.put coin.serialNumber none).lookup serial = some c →
          c.serialNumber = serial := by
        intro serial c hc
        rw [Table.lookup_put] at hc
        split at hc
        · exact absurd hc (by simp)
        · exact hkeyed serial c hc
      have hperm : (coin :: (sh.db.coins.put coin.serialNumber none).rows.map Prod.snd).Perm
          sh.db.held := (Table.perm_rows_put_none hl).map Prod.snd
      refine Succeeds.mono (removeCoins_succeeds rest (Wallet.removed sh i op coin.serialNumber)
        hkeyed' (List.Perm.cons_inv (hperm.trans hheld))) ?_
      rintro - s ⟨htx, ⟨hbank, hids⟩, hfiles, hrest⟩
      exact ⟨htx, ⟨hbank, hids⟩, hfiles, hrest⟩

theorem spend_succeeds {amount : UInt64} {path : String} {coins : List Coin}
    (h : Stocked t sh.db.coins) (hsub : coins.Subperm sh.db.held)
    (hworth : Wallet.worth coins = amount.toNat) :
    Succeeds (handler baseUrl i op)
      (fun bundle s => s.2.2 = none ∧ t.Same s.1 ∧ Wallet.worth bundle = amount.toNat ∧
        sh.db.held.Perm (bundle ++ s.2.1.db.held) ∧
        s.2.1.db.files.lookup path = some (.ok bundle))
      (Wallet.spend amount path) (t, sh, none) := by
  have hperm := arrange_perm sh.db.held (t.chance 0).order
  have hdenominations : ∀ coin ∈ arrange sh.db.held (t.chance 0).order,
      coin.denominationCents ∈ denominations := fun coin hc =>
    (h.undeposited _ coin (lookup_of_held h.keyed (hperm.mem_iff.mp hc))).denomination
  obtain ⟨bundle, hselect, hbundle⟩ := Wallet.selectExact_complete hdenominations
    (hsub.trans hperm.symm.subperm) hworth
  obtain ⟨l, hl, hsublist⟩ := Wallet.selectExact_subperm hselect
  obtain ⟨rest, hrest⟩ := hsublist.exists_perm_append
  have hheld : sh.db.held.Perm (bundle ++ rest) :=
    hperm.symm.trans (hrest.trans (hl.append_right rest))
  refine Succeeds.query_bind (r := arrange sh.db.held (t.chance 0).order) (t :=
    ({ t with chance := fun n => t.chance (n + 1) }, sh, none)) rfl ?_
  simp only [hselect]
  refine Succeeds.query_bind (r := ()) rfl ?_
  refine Succeeds.bind (removeCoins_succeeds rest _ h.keyed hheld) ?_
  rintro - s ⟨htx, ⟨hbank, hids⟩, hfiles, hleft⟩
  refine Succeeds.ok ⟨htx, ⟨hbank, hids⟩, hbundle, hheld.trans (hleft.symm.append_left bundle), ?_⟩
  rw [hfiles]
  exact Table.lookup_put_self _ _ _

/-! ## Depositing -/

/-- No request id that chance has in store has been used for a deposit, or is there twice. -/
structure Surroundings.Untendered (t : Surroundings X) : Prop where
  requestIds : t.requestIds.Nodup
  deposit : ∀ bytes ∈ t.requestIds, t.bank.shared.db.deposits.lookup (Hex.encode bytes.1) = none

/-- From here to there the account was credited with these coins. -/
structure Deposited (accountId : String) (coins : List Coin) (t t' : Surroundings X) : Prop where
  bank : Bank.Open t'.bank
  untendered : t'.Untendered
  conf : t'.bank.conf = t.bank.conf
  requestIds : t'.requestIds = t.requestIds.drop coins.length
  accounts : ∀ a, t'.bank.shared.db.accounts.lookup a =
    if a = accountId then
      (t.bank.shared.db.accounts.lookup a).map fun b => b + (Wallet.worth coins : Int)
    else t.bank.shared.db.accounts.lookup a
  spent : ∀ coin ∈ coins, ∃ r, t'.bank.shared.db.spentSerials.lookup
    (Bank.coinKey coin coin.denominationCents.toNat) = some r
  stays : ∀ key r, t.bank.shared.db.spentSerials.lookup key = some r →
    t'.bank.shared.db.spentSerials.lookup key = some r

theorem Deposited.refl (h : Bank.Open t.bank) (h' : t.Untendered) : Deposited accountId [] t t :=
  ⟨h, h', rfl, rfl, fun a => by simp, fun _ hc => absurd hc (by simp), fun _ _ hr => hr⟩

theorem Deposited.cons {coin : Coin} {coins : List Coin} (h : Deposited accountId [coin] t t')
    (h' : Deposited accountId coins t' t'') : Deposited accountId (coin :: coins) t t'' := by
  refine ⟨h'.bank, h'.untendered, h'.conf.trans h.conf, ?_, fun a => ?_, fun c hc => ?_,
    fun key r hr => h'.stays key r (h.stays key r hr)⟩
  · rw [h'.requestIds, h.requestIds, List.drop_drop, Nat.add_comm]
    rfl
  · rw [h'.accounts, h.accounts]
    split
    · rw [Option.map_map]
      congr 1
      funext b
      simp only [Function.comp, Wallet.worth_cons, Wallet.worth_nil]
      omega
    · rfl
  · rcases List.mem_cons.mp hc with rfl | hc
    · obtain ⟨r, hr⟩ := h.spent c (List.mem_cons_self ..)
      exact ⟨r, h'.stays _ r hr⟩
    · exact h'.spent c hc

/-- What the wallet makes of one response to a deposit. -/
def outcomeOf (accepted : Bool) (reason : Option DepositRejection) (coin : Coin) :
    Wallet.DepositOutcome :=
  ⟨coin.denominationCents, accepted, reason⟩

/-- One coin is sent in, and `response` comes back. -/
theorem depositCoin_succeeds {coin : Coin} {bytes : { b : Bytes // b.length = 16 }}
    {requestIds : List { b : Bytes // b.length = 16 }} {response : DepositResponse}
    {bank : Sys (Bank.service X)} (hids : t.requestIds = bytes :: requestIds)
    (hserve : Bank.serve t.bank (.deposit ⟨coin, accountId, Hex.encode bytes.1⟩) =
      some (.deposit (.ok response), bank)) :
    Succeeds (handler baseUrl i op)
      (fun outcome s => outcome = outcomeOf response.accepted response.reason coin ∧
        s.1 = { t with bank := bank, requestIds := requestIds } ∧ s.2.1.db = sh.db ∧ s.2.2 = none)
      (Wallet.depositCoin accountId coin) (t, sh, none) := by
  refine Succeeds.bind (R := fun requestId s => requestId = Hex.encode bytes.1 ∧
    s = ({ t with requestIds := requestIds }, sh, none)) ?_ ?_
  · refine Succeeds.perform_bind (handler_requestId hids) ?_
    exact Succeeds.orThrow_bind rfl (Succeeds.ok ⟨rfl, rfl⟩)
  rintro requestId s ⟨rfl, rfl⟩
  refine Succeeds.perform_bind (handler_deposit hserve) ?_
  exact Succeeds.orThrow_bind rfl (Succeeds.ok ⟨rfl, rfl, rfl, rfl⟩)

/-- An undeposited coin is accepted. -/
theorem depositCoin_accepted {coin : Coin} {b : Int} (h : Bank.Open t.bank) (h' : t.Untendered)
    (hcoin : Bank.Undeposited t.bank coin) (hids : t.requestIds ≠ [])
    (hb : t.bank.shared.db.accounts.lookup accountId = some b)
    (hmax : b + Wallet.cents coin ≤ i64Max) :
    Succeeds (handler baseUrl i op)
      (fun outcome s => outcome = outcomeOf true none coin ∧ Deposited accountId [coin] t s.1 ∧
        (∀ key, key ≠ Bank.coinKey coin coin.denominationCents.toNat →
          s.1.bank.shared.db.spentSerials.lookup key = t.bank.shared.db.spentSerials.lookup key) ∧
        s.2.1.db = sh.db ∧ s.2.2 = none)
      (Wallet.depositCoin accountId coin) (t, sh, none) := by
  obtain ⟨bytes, requestIds, hids⟩ := List.exists_cons_of_ne_nil hids
  have hbytes : bytes ∈ t.requestIds := hids ▸ List.mem_cons_self ..
  have hd := i64TryFrom_denomination hcoin.denomination
  have hnodup := h'.requestIds
  rw [hids, List.nodup_cons] at hnodup
  have hb0 := (h.wellFormed.balance _ b hb).1
  obtain ⟨bank, hserve, hconf, hmem, hdb⟩ := Bank.deposit_served
    ⟨coin, accountId, Hex.encode bytes.1⟩ h.up hcoin.genuine h.registry hd
    (h'.deposit bytes hbytes) (hcoin.unspent _) hb hb0 hmax
  refine Succeeds.mono (depositCoin_succeeds hids hserve) ?_
  rintro outcome s ⟨rfl, hs, hsh, htx⟩
  rw [hs]
  have hvalid : (Bank.depositOf ⟨coin, accountId, Hex.encode bytes.1⟩
      (coin.denominationCents.toNat : Int) b).Valid t.bank.conf t.bank.shared.db :=
    ⟨h'.deposit bytes hbytes, hcoin.unspent _, hb, Int.natCast_nonneg _, hmax⟩
  refine ⟨rfl, ⟨?_, ?_, hconf, ?_, fun a => ?_, fun c hc => ?_, fun key r hr => ?_⟩,
    fun key hkey => ?_, hsh, htx⟩
  · exact ⟨hmem ▸ h.up, hdb ▸ Bank.Entry.wellFormed h.wellFormed hvalid, hconf ▸ h.registry,
      hconf ▸ h.serves⟩
  · refine ⟨hnodup.2, fun r hr => ?_⟩
    change bank.shared.db.deposits.lookup _ = none
    have hne : Hex.encode r.1 ≠ Hex.encode bytes.1 := by
      intro heq
      have : r = bytes := Subtype.ext (Hex.encode_injective heq)
      exact hnodup.1 (this ▸ hr)
    rw [hdb]
    exact (Table.lookup_put_ne hne).trans (h'.deposit r (hids ▸ List.mem_cons_of_mem _ hr))
  · rw [hids]
    rfl
  · change bank.shared.db.accounts.lookup a = _
    rw [hdb]
    refine (Table.lookup_put _ _ _ _).trans ?_
    split
    · rename_i heq
      rw [heq, hb]
      simp [Wallet.worth, Bank.coinKey]
    · rfl
  · obtain rfl := List.mem_singleton.mp hc
    refine ⟨Hex.encode bytes.1, ?_⟩
    change bank.shared.db.spentSerials.lookup _ = _
    rw [hdb]
    exact Table.lookup_put_self _ _ _
  · change bank.shared.db.spentSerials.lookup key = some r
    rw [hdb]
    have hne : key ≠ Bank.coinKey coin coin.denominationCents.toNat := by
      rintro rfl
      exact absurd (hr.symm.trans (hcoin.unspent _)) (by simp)
    exact (Table.lookup_put_ne hne).trans hr
  · change bank.shared.db.spentSerials.lookup key = _
    rw [hdb]
    exact Table.lookup_put_ne hkey

theorem depositCoins_accepted : ∀ {coins : List Coin} {b : Int} {t : Surroundings X}
    {sh : Wallet.State X}, Bank.Open t.bank → t.Untendered →
    (coins.map Coin.serialNumber).Nodup → (∀ coin ∈ coins, Bank.Undeposited t.bank coin) →
    coins.length ≤ t.requestIds.length → t.bank.shared.db.accounts.lookup accountId = some b →
    b + (Wallet.worth coins : Int) ≤ i64Max →
    Succeeds (handler baseUrl i op)
      (fun outcomes s => outcomes = coins.map (outcomeOf true none) ∧
        Deposited accountId coins t s.1 ∧ s.2.1.db = sh.db ∧ s.2.2 = none)
      (Wallet.depositCoins accountId coins) (t, sh, none)
  | [], _, _, _, h, h', _, _, _, _, _ => Succeeds.ok ⟨rfl, .refl h h', rfl, rfl⟩
  | coin :: coins, b, t, sh, h, h', hnodup, hcoins, hids, hb, hmax => by
    rw [List.map_cons, List.nodup_cons] at hnodup
    rw [Wallet.worth_cons] at hmax
    have hne : t.requestIds ≠ [] := fun heq => by simp [heq] at hids
    have hcoin := hcoins coin (List.mem_cons_self ..)
    refine Succeeds.bind (depositCoin_accepted h h' hcoin hne hb (by omega)) ?_
    rintro outcome ⟨t₁, sh₁, tx⟩ ⟨rfl, hone, hspent, hsh, rfl⟩
    dsimp only at hone hspent hsh
    have hb₁ : t₁.bank.shared.db.accounts.lookup accountId = some (b + Wallet.cents coin) := by
      rw [hone.accounts, if_pos rfl, hb]
      simp [Wallet.worth]
    have hids₁ : coins.length ≤ t₁.requestIds.length := by
      rw [hone.requestIds, List.length_drop]
      exact Nat.le_sub_of_add_le hids
    -- Another serial is another coin at the bank.
    have hcoins₁ : ∀ c ∈ coins, Bank.Undeposited t₁.bank c := by
      intro c hc
      obtain ⟨hd, hg, hu⟩ := hcoins c (List.mem_cons_of_mem _ hc)
      refine ⟨hd, hone.conf ▸ hg, fun denom => (hspent _ fun heq => ?_).trans (hu denom)⟩
      have hserial : c.serialNumber = coin.serialNumber :=
        Subtype.ext (congrArg Bank.CoinKey.serialNumber heq)
      exact hnodup.1 (hserial ▸ List.mem_map_of_mem hc)
    refine Succeeds.bind (depositCoins_accepted hone.bank hone.untendered hnodup.2 hcoins₁ hids₁ hb₁
      (by push_cast at hmax; omega)) ?_
    rintro outcomes ⟨t₂, sh₂, tx⟩ ⟨rfl, hrest, hsh₂, rfl⟩
    exact Succeeds.ok ⟨rfl, hone.cons hrest, hsh₂.trans hsh, rfl⟩

/-- Coins that are spent are not accepted, and nothing changes. -/
theorem depositCoins_spent : ∀ {coins : List Coin} {t : Surroundings X} {sh : Wallet.State X},
    Bank.Open t.bank → t.Untendered →
    (∀ coin ∈ coins, coin.denominationCents ∈ denominations ∧ Bank.Genuine t.bank.conf coin ∧
      ∃ r, t.bank.shared.db.spentSerials.lookup
        (Bank.coinKey coin coin.denominationCents.toNat) = some r) →
    coins.length ≤ t.requestIds.length →
    Succeeds (handler baseUrl i op)
      (fun outcomes s => outcomes = coins.map (outcomeOf false (some .doubleSpend)) ∧
        s.1.bank.shared = t.bank.shared ∧ s.2.2 = none)
      (Wallet.depositCoins accountId coins) (t, sh, none)
  | [], _, _, _, _, _, _ => Succeeds.ok ⟨rfl, rfl, rfl⟩
  | coin :: coins, t, sh, h, h', hcoins, hids => by
    have hne : t.requestIds ≠ [] := fun heq => by simp [heq] at hids
    obtain ⟨bytes, requestIds, heq⟩ := List.exists_cons_of_ne_nil hne
    have hbytes : bytes ∈ t.requestIds := heq ▸ List.mem_cons_self ..
    have hnodup := h'.requestIds
    rw [heq, List.nodup_cons] at hnodup
    obtain ⟨hd, hg, r, hr⟩ := hcoins coin (List.mem_cons_self ..)
    obtain ⟨bank, hserve, hconf, hshared⟩ := Bank.deposit_served_spent
      ⟨coin, accountId, Hex.encode bytes.1⟩ h.up hg h.registry
      (i64TryFrom_denomination hd) (h'.deposit bytes hbytes) hr
    refine Succeeds.bind (depositCoin_succeeds heq hserve) ?_
    rintro outcome ⟨t₁, sh₁, tx⟩ ⟨rfl, rfl, -, rfl⟩
    have hopen : Bank.Open bank := by
      refine ⟨hshared ▸ h.up, hshared ▸ h.wellFormed, hconf ▸ h.registry, hconf ▸ h.serves⟩
    have huntendered : Surroundings.Untendered
        { t with bank := bank, requestIds := requestIds } :=
      ⟨hnodup.2, fun r hr => hshared ▸ h'.deposit r (heq ▸ List.mem_cons_of_mem _ hr)⟩
    refine Succeeds.bind (depositCoins_spent hopen huntendered (fun c hc => ?_) ?_) ?_
    · exact hshared ▸ hconf ▸ hcoins c (List.mem_cons_of_mem _ hc)
    · rw [heq] at hids
      exact Nat.le_of_succ_le_succ hids
    · rintro outcomes ⟨t₂, sh₂, tx⟩ ⟨rfl, hrest, rfl⟩
      exact Succeeds.ok ⟨rfl, hrest.trans hshared, rfl⟩

/-! ## Commands -/

/-- What the code does under the handler, a command does. -/
theorem command_of_succeeds {α : Type} {x : Wallet.WalletM α}
    {Q : α → Surroundings X → Wallet.Disk → Prop} (baseUrl : String) (op : Wallet.Op)
    (wallet : Sys (Wallet.service X)) (g : Except Wallet.WalletError α → Wallet.Ans)
    (hfree : wallet.shared.mem.running = false) (hcode : Wallet.code X op = g <$> x.run)
    (h : ∀ sh : Wallet.State X, sh.db = wallet.shared.db →
      Succeeds (handler baseUrl wallet.next op) (fun a s => Q a s.1 s.2.1.db) x (t, sh, none)) :
    ∃ a t' wallet', command baseUrl op t wallet = some (g (.ok a), t', wallet') ∧
      wallet'.shared.mem.running = false ∧ Q a t' wallet'.shared.db := by
  have henter : Wallet.enter op wallet.shared.mem = some { wallet.shared.mem with running := true } := by
    rw [Wallet.enter, hfree]
    rfl
  obtain ⟨a, t', sh, tx, hserve, hq⟩ := Sys.serve_of_succeeds (S := Wallet.service X)
    (w := outside baseUrl) hcode henter (h { wallet.shared with
      mem := { wallet.shared.mem with running := true } } rfl)
  exact ⟨a, t', _, by rw [command, hserve]; rfl, rfl, hq⟩

/-- A command of a wallet leaves the bank alone or is one call there. -/
theorem outside_bank {c : Cmd Wallet.database} {o : Wallet.Oracle}
    (h : outside baseUrl c t = some (o, t')) :
    t'.bank = t.bank ∨ ∃ op a, Bank.serve t.bank op = some (a, t'.bank) := by
  have hsame : ∀ {o' : Wallet.Oracle} {u : Surroundings X}, some (o', u) = some (o, t') →
      u.bank = t.bank → t'.bank = t.bank := fun heq hu =>
    (Prod.mk.inj (Option.some.inj heq)).2 ▸ hu
  unfold outside at h
  split at h
  · exact Or.inl (hsame h rfl)
  · exact Or.inl (hsame h rfl)
  · split at h
    · cases h
    · exact Or.inl (hsame h rfl)
  · split at h
    · cases h
    · exact Or.inl (hsame h rfl)
  · split at h
    · rename_i hserve
      obtain ⟨-, rfl⟩ := Prod.mk.inj (Option.some.inj h)
      exact Or.inr ⟨_, _, hserve⟩
    · cases h
  · split at h
    · rename_i hserve
      obtain ⟨-, rfl⟩ := Prod.mk.inj (Option.some.inj h)
      exact Or.inr ⟨_, _, hserve⟩
    · cases h
  · exact Or.inl (hsame h rfl)

/-- **A command is a run of the wallet and a run of its bank.** -/
theorem command_steps {wallet wallet' : Sys (Wallet.service X)} {a : Wallet.Ans}
    (hidle : wallet.Idle) (hbank : t.bank.Idle)
    (h : command baseUrl op t wallet = some (a, t', wallet')) :
    Sys.Steps .any wallet wallet' ∧ wallet'.Idle ∧ Sys.Steps .any t.bank t'.bank ∧ t'.bank.Idle := by
  obtain ⟨⟨a', t₁, wallet₁⟩, hserve, hexit⟩ := Option.bind_eq_some_iff.mp h
  obtain ⟨wallet₂, hstep, heq⟩ := Option.map_eq_some_iff.mp hexit
  obtain ⟨rfl, hlast⟩ := Prod.mk.inj heq
  obtain ⟨rfl, rfl⟩ := Prod.mk.inj hlast
  obtain ⟨hsteps, -, henv⟩ := Sys.serve_steps (R := fun t t' : Surroundings X =>
      t.bank.Idle → Sys.Steps .any t.bank t'.bank ∧ t'.bank.Idle) (fun c u o u' hc => by
    refine .single fun hu => ?_
    rcases outside_bank hc with heq | ⟨op, a, hcall⟩
    · rw [heq]
      exact ⟨.refl, hu⟩
    · exact Bank.serve_steps hu hcall) hidle hserve
  have hrun : Sys.Steps .any t.bank t₁.bank ∧ t₁.bank.Idle := by
    clear * - henv hbank
    induction henv with
    | refl => exact ⟨.refl, hbank⟩
    | tail _ hR ih => exact ⟨ih.1.trans (hR ih.2).1, (hR ih.2).2⟩
  have hidle' : wallet₂.Idle := by
    obtain rfl := Option.some.inj hstep
    exact fun _ => rfl
  exact ⟨hsteps.tail ⟨_, hstep, Policy.any_allows _ _ _⟩, hidle', hrun⟩

/-! ## The trade -/

/-- The file at `path` of one wallet, copied beside another. -/
def handOver (path : String) (payer payee : Sys (Wallet.service X)) : Sys (Wallet.service X) :=
  { payee with shared := { payee.shared with db := { payee.shared.db with
    files := payee.shared.db.files.put path (payer.shared.db.files.lookup path) } } }

theorem deposit_succeeds {path : String} {bundle : List Coin}
    {Q : List Wallet.DepositOutcome → Surroundings X × Wallet.State X × Option (Tx Wallet.database) →
      Prop} (hid : sh.db.accountId = some accountId)
    (hfile : sh.db.files.lookup path = some (.ok bundle))
    (h : Succeeds (handler baseUrl i op) Q (Wallet.depositCoins accountId bundle)
      ({ t with chance := fun n => t.chance (n + 1 + 1) }, sh, none)) :
    Succeeds (handler baseUrl i op) Q (Wallet.deposit path) (t, sh, none) := by
  refine Succeeds.bind (client_succeeds hid) ?_
  rintro a s ⟨rfl, rfl⟩
  refine Succeeds.query_bind (r := some (.ok bundle)) (t :=
    ({ t with chance := fun n => t.chance (n + 1 + 1) }, sh, none)) ?_ ?_
  · rw [← hfile]
    rfl
  · exact Succeeds.orThrow_bind rfl h

theorem Withdrawn.coins_subperm {coins : List Coin} (h : Withdrawn accountId coins t sh t' sh') :
    coins.Subperm sh'.db.held :=
  (List.sublist_append_left coins sh.db.held).subperm.trans h.held.symm.subperm

theorem Withdrawn.worth_held {coins : List Coin} (h : Withdrawn accountId coins t sh t' sh') :
    Wallet.worth sh'.db.held = Wallet.worth coins + Wallet.worth sh.db.held := by
  have hsum := (h.held.map Wallet.cents).sum_eq
  rw [List.map_append, List.sum_append] at hsum
  exact hsum

/-- What a trade begins with: an open bank, a payer with a stock of coins and `b` cents at the
    bank, another payee with `b'`, and enough in store of what has to be fresh. -/
structure Terms (t : Surroundings X) (payer payee : Sys (Wallet.service X)) (a a' : String)
    (amount : UInt64) (b b' : Int) : Prop where
  up : t.bank.shared.mem.phase = .up
  registry : t.bank.conf.registryClient = none
  serves : Bank.Serves t.bank.conf
  fresh : t.Fresh
  stocked : Stocked t payer.shared.db.coins
  serials : (Wallet.decompose amount).length ≤ t.serials.length
  requestIds : 3 * (Wallet.decompose amount).length + 2 * payer.shared.db.held.length ≤
    t.requestIds.length
  payerId : payer.shared.db.accountId = some a
  payeeId : payee.shared.db.accountId = some a'
  payerFree : payer.shared.mem.running = false
  payeeFree : payee.shared.mem.running = false
  other : a' ≠ a
  payerBalance : t.bank.shared.db.accounts.lookup a = some b
  payeeBalance : t.bank.shared.db.accounts.lookup a' = some b'
  enough : (amount.toNat : Int) ≤ b
  fits : b' + (amount.toNat : Int) ≤ i64Max

/-- **A trade moves the amount.** Withdrawn, put in a file, handed over and deposited, it has left
    the payer's account and arrived in the payee's, and nothing else has changed: no other account,
    and not what the payer's store is worth. The file is then worth nothing. -/
theorem traded {κ : Bank.Config X} {payer payee : Sys (Wallet.service X)} {a a' : String}
    {amount : UInt64} {b b' : Int} (baseUrl path : String)
    (hbank : Sys.Steps .any (Bank.start κ) t.bank) (h : Terms t payer payee a a' amount b b') :
    ∃ coins bundle t₁ t₂ t₃ t₄ payer₁ payer₂ payee₁ payee₂,
      command baseUrl (.withdraw amount) t payer =
        some (.withdraw (.ok coins), t₁, payer₁) ∧
      command baseUrl (.spend amount path) t₁ payer₁ =
        some (.spend (.ok bundle), t₂, payer₂) ∧
      command baseUrl (.deposit path) t₂ (handOver path payer₂ payee) =
        some (.deposit (.ok (bundle.map (outcomeOf true none))), t₃, payee₁) ∧
      command baseUrl (.deposit path) t₃ payee₁ =
        some (.deposit (.ok (bundle.map (outcomeOf false (some .doubleSpend)))), t₄, payee₂) ∧
      Wallet.worth bundle = amount.toNat ∧
      Wallet.worth payer₂.shared.db.held = Wallet.worth payer.shared.db.held ∧
      (∀ x, t₃.bank.shared.db.accounts.lookup x =
        if x = a then some (b - amount.toNat)
        else if x = a' then some (b' + amount.toNat)
        else t.bank.shared.db.accounts.lookup x) ∧
      ∀ x, t₄.bank.shared.db.accounts.lookup x = t₃.bank.shared.db.accounts.lookup x := by
  have hopen : Bank.Open t.bank := ⟨h.up, (Bank.good hbank).inv, h.registry, h.serves⟩
  -- The withdrawal.
  obtain ⟨coins, t₁, payer₁, hwithdraw, hfree₁, hdenoms, sh₀, sh₁, hsh₀, hsh₁, hw⟩ :=
    command_of_succeeds (t := t)
      (Q := fun coins t' d => coins.map Coin.denominationCents = Wallet.decompose amount ∧
        ∃ sh₀ sh₁ : Wallet.State X, sh₀.db = payer.shared.db ∧ sh₁.db = d ∧
          Withdrawn a coins t sh₀ t' sh₁)
      baseUrl (.withdraw amount) payer Wallet.Ans.withdraw h.payerFree rfl fun sh hsh =>
        Succeeds.mono (withdraw_succeeds ⟨hopen, h.fresh, hsh ▸ h.stocked⟩ (hsh ▸ h.payerId) h.serials
          (by have := h.requestIds; omega) h.payerBalance h.enough)
          fun coins s hs => ⟨hs.1, sh, s.2.1, hsh, rfl, hs.2.2⟩
  have hworth : Wallet.worth coins = amount.toNat := by
    rw [← Wallet.sum_decompose amount, ← hdenoms, List.map_map]
    rfl
  have hlength : coins.length = (Wallet.decompose amount).length := by
    rw [← hdenoms, List.length_map]
  -- The spend.
  obtain ⟨bundle, t₂, payer₂, hspend, -, hsame, hbundle, hheld, hfile⟩ :=
    command_of_succeeds (t := t₁)
      (Q := fun bundle t' d => t₁.Same t' ∧ Wallet.worth bundle = amount.toNat ∧
        payer₁.shared.db.held.Perm (bundle ++ d.held) ∧ d.files.lookup path = some (.ok bundle))
      baseUrl (.spend amount path) payer₁ Wallet.Ans.spend hfree₁ rfl fun sh hsh =>
        Succeeds.mono (spend_succeeds
          (hsh ▸ hsh₁ ▸ hw.standing.stocked) (hsh ▸ hsh₁ ▸ hw.coins_subperm) hworth)
          fun bundle s hs => ⟨hs.2.1, hs.2.2.1, hsh ▸ hs.2.2.2.1, hs.2.2.2.2⟩
  have hstocked : Stocked t₁ payer₁.shared.db.coins := hsh₁ ▸ hw.standing.stocked
  have hnodup : (bundle.map Coin.serialNumber).Nodup := by
    have hall := (hheld.map Coin.serialNumber).nodup_iff.mp (nodup_held hstocked.keyed)
    rw [List.map_append] at hall
    exact hall.of_append_left
  have hcoins : ∀ coin ∈ bundle, Bank.Undeposited t₂.bank coin := by
    intro coin hc
    have hmem := hheld.mem_iff.mpr (List.mem_append_left _ hc)
    exact hsame.bank ▸ hstocked.undeposited _ coin (lookup_of_held hstocked.keyed hmem)
  have hlengths : 2 * bundle.length ≤ t₂.requestIds.length := by
    have h₁ := hheld.length_eq
    have h₂ := hw.held.length_eq
    rw [hsh₁, hsh₀, List.length_append] at h₂
    rw [List.length_append] at h₁
    rw [hsame.requestIds, hw.requestIds, List.length_drop]
    have := h.requestIds
    omega
  have hopen₂ : Bank.Open t₂.bank := hsame.bank ▸ hw.standing.bank
  have huntendered : t₂.Untendered :=
    ⟨hsame.requestIds ▸ hw.standing.fresh.requestIds, fun bytes hb =>
      hsame.bank ▸ hw.standing.fresh.deposit bytes (hsame.requestIds ▸ hb)⟩
  have hb' : t₂.bank.shared.db.accounts.lookup a' = some b' := by
    rw [hsame.bank, hw.accounts, if_neg h.other, h.payeeBalance]
  -- The deposit.
  obtain ⟨outcomes, t₃, payee₁, hdeposit, hfree₃, rfl, hdeposited, hdb⟩ :=
    command_of_succeeds (t := t₂)
      (Q := fun outcomes t' d => outcomes = bundle.map (outcomeOf true none) ∧
        Deposited a' bundle t₂ t' ∧ d = (handOver path payer₂ payee).shared.db)
      baseUrl (.deposit path) (handOver path payer₂ payee) Wallet.Ans.deposit h.payeeFree rfl
      fun sh hsh => by
        have hid : sh.db.accountId = some a' := hsh ▸ h.payeeId
        have hfile' : sh.db.files.lookup path = some (.ok bundle) := by
          rw [hsh, ← hfile]
          exact Table.lookup_put_self _ _ _
        refine deposit_succeeds hid hfile' (Succeeds.mono (depositCoins_accepted hopen₂
          ⟨huntendered.requestIds, huntendered.deposit⟩ hnodup hcoins
          (show bundle.length ≤ t₂.requestIds.length by omega) hb' ?_) ?_)
        · rw [hbundle]
          exact h.fits
        · rintro outcomes s ⟨houtcomes, hd, hsh', -⟩
          exact ⟨houtcomes, ⟨hd.bank, hd.untendered, hd.conf, hd.requestIds, hd.accounts, hd.spent,
            hd.stays⟩, hsh'.trans hsh⟩
  -- And once more.
  obtain ⟨outcomes, t₄, payee₂, hagain, -, rfl, hshared⟩ :=
    command_of_succeeds (t := t₃)
      (Q := fun outcomes t' _ => outcomes = bundle.map (outcomeOf false (some .doubleSpend)) ∧
        t'.bank.shared = t₃.bank.shared)
      baseUrl (.deposit path) payee₁ Wallet.Ans.deposit hfree₃ rfl fun sh hsh => by
        have hid : sh.db.accountId = some a' := by
          rw [hsh, hdb]
          exact h.payeeId
        have hfile' : sh.db.files.lookup path = some (.ok bundle) := by
          rw [hsh, hdb, ← hfile]
          exact Table.lookup_put_self _ _ _
        refine deposit_succeeds hid hfile' (Succeeds.mono (depositCoins_spent hdeposited.bank
          ⟨hdeposited.untendered.requestIds, hdeposited.untendered.deposit⟩ (fun coin hc => ?_) ?_) ?_)
        · exact ⟨(hcoins coin hc).denomination, hdeposited.conf ▸ (hcoins coin hc).genuine,
            hdeposited.spent coin hc⟩
        · rw [hdeposited.requestIds, List.length_drop]
          omega
        · rintro outcomes s ⟨houtcomes, hshared, -⟩
          exact ⟨houtcomes, hshared⟩
  refine ⟨coins, bundle, t₁, t₂, t₃, t₄, payer₁, payer₂, payee₁, payee₂, hwithdraw, hspend,
    hdeposit, hagain, hbundle, ?_, fun x => ?_, fun x => by rw [hshared]⟩
  · have h₁ := hw.worth_held
    have h₂ := (hheld.map Wallet.cents).sum_eq
    rw [hsh₁, hsh₀, hworth] at h₁
    rw [List.map_append, List.sum_append] at h₂
    change Wallet.worth payer₁.shared.db.held = Wallet.worth bundle + Wallet.worth _ at h₂
    omega
  · rw [hdeposited.accounts, hsame.bank, hw.accounts, hworth, hbundle]
    by_cases hx : x = a
    · rw [if_neg (hx ▸ h.other.symm), if_pos hx, if_pos hx, hx, h.payerBalance]
      rfl
    · by_cases hx' : x = a'
      · rw [if_pos hx', if_neg hx, if_neg hx, if_pos hx', hx', h.payeeBalance]
        rfl
      · rw [if_neg hx', if_neg hx, if_neg hx, if_neg hx']

/-- A bank over the toy primitives with a key for every denomination, where `alice` has 500 cents
    and `bob` none. -/
def opened : List (Event (Bank.service .toy)) :=
  Bank.opened ++ Bank.call (.createAccount "bob" 0) :: Bank.go 2 2

def Bank.Config.toyAll : Bank.Config .toy :=
  ⟨⟨denominations.foldl (fun keys d => keys.put (d, 0) (some ⟨(), ()⟩)) ∅⟩, none⟩

def serialOf (b : UInt8) : Serial := ⟨List.replicate 32 b, List.length_replicate⟩

def twoSerials : List Serial := [serialOf 0, serialOf 1]

def sixIds : List { b : Bytes // b.length = 16 } :=
  [0, 1, 2, 3, 4, 5].map fun n : UInt8 => ⟨List.replicate 16 n, List.length_replicate⟩

theorem Keypair.signs_toy (keypair : Keypair .toy) : keypair.Signs := by
  intro rng serial
  have hne : serial.1 ≠ [] := fun h => by simpa [h] using serial.2
  refine ⟨serial.1, serial.1, serial.1, rfl, ?_, rfl, rfl⟩
  change (Crypto.toy.rsaBlindSign keypair.sk serial.1).mapError CoreError.signing = _
  simp only [Crypto.toy, if_neg hne]
  rfl

/-- Three cents from `alice` to `bob`. -/
theorem traded_three : ∃ (t t₁ t₂ t₃ : Surroundings .toy)
    (payer payer₁ payer₂ payee payee₁ : Sys (Wallet.service .toy)) (coins bundle : List Coin),
    command "" (.withdraw 3) t payer = some (.withdraw (.ok coins), t₁, payer₁) ∧
    command "" (.spend 3 "f") t₁ payer₁ = some (.spend (.ok bundle), t₂, payer₂) ∧
    command "" (.deposit "f") t₂ (handOver "f" payer₂ payee) =
      some (.deposit (.ok (bundle.map (outcomeOf true none))), t₃, payee₁) ∧
    t₃.bank.shared.db.accounts.lookup "alice" = some 497 ∧
    t₃.bank.shared.db.accounts.lookup "bob" = some 3 := by
  obtain ⟨bank, hbank, hp⟩ := Sys.exists_of_run (s := Bank.start Bank.Config.toyAll) (l := opened)
    (p := fun s => decide (s.shared.mem.phase = .up) && decide (s.conf.registryClient = none) &&
      (denominations.all fun d => (s.conf.keys.get d schemeIdRsaDeterministic).isSome) &&
      s.shared.db.spentSerials.entries.isEmpty && s.shared.db.withdrawStates.entries.isEmpty &&
      s.shared.db.deposits.entries.isEmpty &&
      decide (s.shared.db.accounts.lookup "alice" = some 500) &&
      decide (s.shared.db.accounts.lookup "bob" = some 0)) (by decide)
  simp only [Bool.and_eq_true, decide_eq_true_eq, List.isEmpty_iff, List.all_eq_true] at hp
  obtain ⟨⟨⟨⟨⟨⟨⟨hup, hregistry⟩, hkeys⟩, hspent⟩, hwithdrawals⟩, hdeposits⟩, halice⟩, hbob⟩ := hp
  have hnone : ∀ {K V : Type} [DecidableEq K] {table : Table K V}, table.entries = [] →
      ∀ k, table.lookup k = none := by
    intro K V _ table h k
    rw [AList.lookup, h]
    rfl
  have hfresh : Surroundings.Fresh ⟨bank, twoSerials, sixIds, fun _ => {}⟩ :=
    ⟨show twoSerials.Nodup by decide, show sixIds.Nodup by decide, fun _ _ _ _ => hnone hspent _,
      fun _ _ => hnone hwithdrawals _, fun _ _ => hnone hdeposits _⟩
  have hserves : Bank.Serves bank.conf :=
    ⟨fun d hd => Option.isSome_iff_exists.mp (hkeys d hd), fun _ _ _ => ⟨[], rfl, rfl⟩,
      fun _ keypair _ => keypair.signs_toy⟩
  have hterms : Terms ⟨bank, twoSerials, sixIds, fun _ => {}⟩ (Wallet.start .toy (some "alice") ∅)
      (Wallet.start .toy (some "bob") ∅) "alice" "bob" 3 500 0 :=
    ⟨hup, hregistry, hserves, hfresh, ⟨fun _ _ h => absurd h (by simp [Wallet.start, Sys.init]),
      fun _ _ h => absurd h (by simp [Wallet.start, Sys.init]), fun _ _ => rfl⟩,
      show (Wallet.decompose 3).length ≤ twoSerials.length by decide,
      show 3 * (Wallet.decompose 3).length ≤ sixIds.length by decide,
      rfl, rfl, rfl, rfl, by decide, halice, hbob, by decide, by decide⟩
  obtain ⟨coins, bundle, t₁, t₂, t₃, t₄, payer₁, payer₂, payee₁, payee₂, hwithdraw, hspend, hdeposit,
    -, -, -, haccounts, -⟩ := traded "" "f" hbank hterms
  exact ⟨_, t₁, t₂, t₃, _, payer₁, payer₂, _, payee₁, coins, bundle, hwithdraw, hspend, hdeposit,
    haccounts "alice", haccounts "bob"⟩

end Digicash
