import Digicash.Wallet.Code

/-!
# What the wallet's operations do

One lemma for each operation, in the logic of programs that run alone. They are stated for every
`C` and `E`: what has to be kept is up to the property that uses them, and each lemma says in
which states it has to be kept.
-/

namespace Digicash.Wallet

open Lib

variable {X : Crypto}

abbrev State (X : Crypto) := Shared database (service X).Op

/-- The state once a withdrawal was asked for and `reply` came back. -/
def drew (sh : State X) (i : CallId) (request : WithdrawRequest)
    (reply : Except WalletError WithdrawResponse) : State X :=
  { sh with mem := { sh.mem with drawn := ⟨i, request, reply⟩ :: sh.mem.drawn } }

/-- The state once a deposit was asked for and `reply` came back. -/
def tendered (sh : State X) (i : CallId) (request : DepositRequest)
    (reply : Except WalletError DepositResponse) : State X :=
  { sh with mem := { sh.mem with tendered := ⟨i, request, reply⟩ :: sh.mem.tendered } }

/-- The transaction of a statement that writes one row. -/
def written (s : Stmt) (r : s.Res) (row : Row) (v : Option (Cell row)) : Tx database :=
  Tx.empty.push s r [] [⟨row, v⟩]

/-- The state once `coin` is in the store. -/
def stored (sh : State X) (i : CallId) (op : Op) (coin : Coin) : State X :=
  sh.commit i op (written (.putCoin coin) () (.coin coin.serialNumber) (some coin))

/-- The state once the bundle is at `path`. -/
def bundled (sh : State X) (i : CallId) (op : Op) (path : String) (bundle : List Coin) : State X :=
  sh.commit i op (written (.writeFile path bundle) () (.file path) (some (.ok bundle)))

/-- The state once the coin with this serial is no longer in the store. -/
def removed (sh : State X) (i : CallId) (op : Op) (serial : Serial) : State X :=
  sh.commit i op (written (.removeCoin serial) true (.coin serial) none)

@[simp] theorem drew_db (sh : State X) (i : CallId) (request : WithdrawRequest)
    (reply : Except WalletError WithdrawResponse) : (drew sh i request reply).db = sh.db := rfl

@[simp] theorem drew_hist (sh : State X) (i : CallId) (request : WithdrawRequest)
    (reply : Except WalletError WithdrawResponse) : (drew sh i request reply).hist = sh.hist := rfl

@[simp] theorem stored_db (sh : State X) (i : CallId) (op : Op) (coin : Coin) :
    (stored sh i op coin).db =
      { sh.db with coins := sh.db.coins.put coin.serialNumber (some coin) } := rfl

@[simp] theorem stored_mem (sh : State X) (i : CallId) (op : Op) (coin : Coin) :
    (stored sh i op coin).mem = sh.mem := rfl

@[simp] theorem bundled_db (sh : State X) (i : CallId) (op : Op) (path : String)
    (bundle : List Coin) : (bundled sh i op path bundle).db =
      { sh.db with files := sh.db.files.put path (some (.ok bundle)) } := rfl

@[simp] theorem removed_db (sh : State X) (i : CallId) (op : Op) (serial : Serial) :
    (removed sh i op serial).db = { sh.db with coins := sh.db.coins.put serial none } := rfl

/-- No error of an operation promises anything. -/
abbrev Whatever (_ : WalletError) (_ : Option (Tx database)) (_ : State X) : Prop := True

variable {A : Outcomes (service X)} {i : CallId} {op : Op} {C : State X → Prop}
  {E : WalletError → Option (Tx database) → State X → Prop} {sh : State X} {α : Type}

/-- Ask the outside for something that leaves no trace. -/
theorem ask_bind {e : Ext} {f : e.Res → WalletM α}
    {Q : α → Option (Tx database) → State X → Prop} (hc : C sh)
    (hquiet : ∀ o r m, runExt i e o sh.mem = some (r, m) → m = sh.mem)
    (h : ∀ r, Alone.Spec A i op C Q E (f r) none sh) :
    Alone.Spec A i op C Q E (ask e >>= f) none sh := by
  refine Alone.Spec.perform_bind fun fault o r m hx _ => ?_
  have hm := hquiet o r m hx
  subst hm
  exact ⟨hc, h r⟩

/-- A statement that only reads. -/
theorem read_bind {s : Stmt} {f : s.Res → WalletM α}
    {Q : α → Option (Tx database) → State X → Prop} (get : Oracle → Disk → s.Res)
    (hexec : ∀ o d, exec s o d = .read (get o d)) (hc : C sh) (he : ∀ e, E e none sh)
    (h : ∀ o, Alone.Spec A i op C Q E (f (get o sh.db)) none sh) :
    Alone.Spec A i op C Q E (sql s >>= f) none sh := by
  have hres : ∀ o, (exec s o sh.db).result = .ok (get o sh.db, []) := fun o => by rw [hexec]; rfl
  refine Alone.Spec.query_bind hc (fun _ _ _ _ => he _) (fun _ _ _ => he _) (fun o r hr => ?_)
    fun fault o r ws hws hr _ => ?_
  · obtain ⟨rfl, -⟩ := Prod.mk.inj (Except.ok.inj ((hres o).symm.trans hr))
    exact h o
  · exact absurd (Prod.mk.inj (Except.ok.inj ((hres o).symm.trans hr))).2.symm hws

/-- A statement that writes one row. -/
theorem write_bind {s : Stmt} {f : s.Res → WalletM α}
    {Q : α → Option (Tx database) → State X → Prop} {a : s.Res} {row : Row}
    {v : Option (Cell row)} (hexec : ∀ o, exec s o sh.db = .write [] a [⟨row, v⟩]) (hc : C sh)
    (he : ∀ e, E e none sh)
    (h : ∀ fault o, A fault o sh (sh.commit i op (written s a row v)) →
      C (sh.commit i op (written s a row v)) ∧
      (fault ≠ .none → E (.store .connection) none (sh.commit i op (written s a row v))) ∧
      Alone.Spec A i op C Q E (f a) none (sh.commit i op (written s a row v))) :
    Alone.Spec A i op C Q E (sql s >>= f) none sh := by
  have hres : ∀ o, (exec s o sh.db).result = .ok (a, [⟨row, v⟩]) := fun o => by rw [hexec]; rfl
  have hwaits : ∀ o, (exec s o sh.db).waits = [] := fun o => by rw [hexec]; rfl
  refine Alone.Spec.query_bind hc (fun _ _ _ _ => he _) (fun _ _ _ => he _) (fun o r hr => ?_)
    fun fault o r ws hws hr hA => ?_
  · exact absurd (Prod.mk.inj (Except.ok.inj ((hres o).symm.trans hr))).2 (by simp)
  · obtain ⟨rfl, rfl⟩ := Prod.mk.inj (Except.ok.inj ((hres o).symm.trans hr))
    change A fault o sh (sh.commit i op
      (Tx.empty.push s a (exec s o sh.db).waits [⟨row, v⟩])) at hA
    change C (sh.commit i op (Tx.empty.push s a (exec s o sh.db).waits [⟨row, v⟩])) ∧ _
    rw [hwaits] at hA ⊢
    exact h fault o hA

theorem mapError_ok {ε ε' : Type} {f : ε → ε'} {x : Except ε α} {a : α}
    (h : x.mapError f = .ok a) : x = .ok a := by
  cases x with
  | ok b => exact congrArg Except.ok (Except.ok.inj h)
  | error e => exact absurd h (by simp [Except.mapError])

/-! ## Reading -/

theorem client_bind {f : String → WalletM α} {Q : α → Option (Tx database) → State X → Prop}
    (hc : C sh) (he : ∀ e, E e none sh)
    (h : ∀ accountId, sh.db.accountId = some accountId →
      Alone.Spec A i op C Q E (f accountId) none sh) :
    Alone.Spec A i op C Q E (client >>= f) none sh := by
  refine Alone.Spec.bind (R := fun a tx sh' => sh.db.accountId = some a ∧ tx = none ∧ sh' = sh)
    hc ?_ fun a tx sh' _ hr => by
      obtain ⟨ha, rfl, rfl⟩ := hr
      exact h a ha
  refine read_bind (fun _ d => d.accountId) (fun _ _ => rfl) hc he fun _ => ?_
  cases ha : sh.db.accountId with
  | none => exact Alone.Spec.throw (he _)
  | some accountId =>
    refine ask_bind hc (fun _ _ _ hx => ?_) fun r => ?_
    · exact (congrArg Prod.snd (Option.some.inj hx)).symm
    · exact Alone.Spec.orThrow_bind (fun _ _ => he _) fun _ _ => Alone.Spec.ok ⟨rfl, rfl, rfl⟩

theorem bankPublicKeys_bind {f : Table UInt64 X.PublicKey → WalletM α}
    {Q : α → Option (Tx database) → State X → Prop} (hc : C sh) (he : ∀ e, E e none sh)
    (h : ∀ published keys, parseKeys X published = .ok keys →
      Alone.Spec A i op C Q E (f keys) none sh) :
    Alone.Spec A i op C Q E (bankPublicKeys X >>= f) none sh := by
  refine Alone.Spec.bind
    (R := fun keys tx sh' => (∃ published, parseKeys X published = .ok keys) ∧ tx = none ∧ sh' = sh)
    hc ?_ fun keys tx sh' _ hr => by
      obtain ⟨⟨published, hkeys⟩, rfl, rfl⟩ := hr
      exact h published keys hkeys
  refine ask_bind hc (fun _ _ _ hx => (congrArg Prod.snd (Option.some.inj hx)).symm) fun r => ?_
  refine Alone.Spec.orThrow_bind (fun _ _ => he _) fun published _ => ?_
  exact Alone.Spec.orThrow (fun _ _ => he _) fun keys hkeys => ⟨⟨published, hkeys⟩, rfl, rfl⟩

theorem newRequestId_bind {f : String → WalletM α} {Q : α → Option (Tx database) → State X → Prop}
    (hc : C sh) (he : ∀ e, E e none sh) (h : ∀ r, Alone.Spec A i op C Q E (f r) none sh) :
    Alone.Spec A i op C Q E (newRequestId >>= f) none sh := by
  refine Alone.Spec.bind (R := fun _ tx sh' => tx = none ∧ sh' = sh) hc ?_ fun r tx sh' _ hr => by
    obtain ⟨rfl, rfl⟩ := hr
    exact h r
  refine ask_bind hc (fun _ _ _ hx => (congrArg Prod.snd (Option.some.inj hx)).symm) fun r => ?_
  exact Alone.Spec.orThrow_bind (fun _ _ => he _) fun _ _ => Alone.Spec.ok ⟨rfl, rfl⟩

/-! ## Withdrawing -/

/-- The request asks for a coin with this serial. -/
structure Asks (accountId : String) (keys : Table UInt64 X.PublicKey) (denominationCents : UInt64)
    (pk : X.PublicKey) (serial : Serial) (blinding : X.Blinding) (request : WithdrawRequest) :
    Prop where
  key : keys.lookup denominationCents = some pk
  blind : ∃ rng, blind pk rng serial = .ok blinding
  request : ∃ requestId,
    request = ⟨accountId, requestId, denominationCents, X.blindMessage blinding⟩

/-- The coin is what the response is unblinded to. -/
structure Unblinds (pk : X.PublicKey) (serial : Serial) (blinding : X.Blinding)
    (denominationCents : UInt64) (response : WithdrawResponse) (coin : Coin) : Prop where
  unblind : unblind pk response.blindSignature blinding serial = .ok coin.signature
  verify : verify pk serial coin.signature = .ok ()
  coin : coin = ⟨schemeIdRsaDeterministic, denominationCents, serial, coin.signature⟩

/-- A coin is asked for, and where the answer is good, stored. -/
theorem withdrawCoin_spec {accountId : String} {keys : Table UInt64 X.PublicKey}
    {denominationCents : UInt64} {Q : Coin → Option (Tx database) → State X → Prop} (hc : C sh)
    (he : ∀ e, E e none sh)
    (h : ∀ pk serial blinding request reply fault o,
      Asks accountId keys denominationCents pk serial blinding request →
      A fault o sh (drew sh i request reply) → C (drew sh i request reply) ∧
      (∀ e, E e none (drew sh i request reply)) ∧
      ∀ response coin, reply = .ok response →
        Unblinds pk serial blinding denominationCents response coin →
        ∀ fault o, A fault o (drew sh i request reply)
            (stored (drew sh i request reply) i op coin) →
          C (stored (drew sh i request reply) i op coin) ∧
          E (.store .connection) none (stored (drew sh i request reply) i op coin) ∧
          Q coin none (stored (drew sh i request reply) i op coin)) :
    Alone.Spec A i op C Q E (withdrawCoin accountId keys denominationCents) none sh := by
  unfold withdrawCoin
  cases hkey : keys.lookup denominationCents with
  | none => exact Alone.Spec.throw (he _)
  | some pk =>
    refine ask_bind hc (fun _ _ _ hx => (congrArg Prod.snd (Option.some.inj hx)).symm) fun r => ?_
    refine Alone.Spec.orThrow_bind (fun _ _ => he _) fun serial _ => ?_
    refine ask_bind hc (fun _ _ _ hx => (congrArg Prod.snd (Option.some.inj hx)).symm) fun rng => ?_
    refine Alone.Spec.orThrow_bind (fun _ _ => he _) fun blinding hblinding => ?_
    refine newRequestId_bind hc he fun requestId => ?_
    have hasks : Asks accountId keys denominationCents pk serial blinding
        ⟨accountId, requestId, denominationCents, X.blindMessage blinding⟩ :=
      ⟨hkey, ⟨rng, mapError_ok hblinding⟩, requestId, rfl⟩
    refine Alone.Spec.perform_bind fun fault o reply m hx hA => ?_
    obtain ⟨rfl, rfl⟩ := Prod.mk.inj (Option.some.inj hx)
    obtain ⟨hc₁, he₁, hk⟩ := h pk serial blinding _ o.withdraw fault o hasks hA
    refine ⟨hc₁, Alone.Spec.orThrow_bind (fun _ _ => he₁ _) fun response hresponse => ?_⟩
    refine Alone.Spec.orThrow_bind (fun _ _ => he₁ _) fun signature hsignature => ?_
    refine Alone.Spec.orThrow_bind (fun _ _ => he₁ _) fun _ hverify => ?_
    have hcoin : Unblinds pk serial blinding denominationCents response
        ⟨schemeIdRsaDeterministic, denominationCents, serial, signature⟩ :=
      ⟨mapError_ok hsignature, mapError_ok hverify, rfl⟩
    refine write_bind (fun _ => rfl) hc₁ he₁ fun fault o hA => ?_
    obtain ⟨hc₂, he₂, hq⟩ := hk response _ hresponse hcoin fault o hA
    exact ⟨hc₂, fun _ => he₂, Alone.Spec.ok hq⟩

/-! ## Spending -/

/-- One coin is taken out of the store, if it is there. -/
theorem removeCoin_bind {serial : Serial} {f : Bool → WalletM α}
    {Q : α → Option (Tx database) → State X → Prop} (hc : C sh) (he : ∀ e, E e none sh)
    (hnone : sh.db.coins.lookup serial = none → Alone.Spec A i op C Q E (f false) none sh)
    (hsome : ∀ coin, sh.db.coins.lookup serial = some coin →
      ∀ fault o, A fault o sh (removed sh i op serial) → C (removed sh i op serial) ∧
        E (.store .connection) none (removed sh i op serial) ∧
        Alone.Spec A i op C Q E (f true) none (removed sh i op serial)) :
    Alone.Spec A i op C Q E (sql (.removeCoin serial) >>= f) none sh := by
  cases hl : sh.db.coins.lookup serial with
  | none =>
    have hexec : ∀ o, (exec (.removeCoin serial) o sh.db).result = .ok (false, []) := fun o => by
      simp [exec, hl, Effect.read]
    refine Alone.Spec.query_bind hc (fun _ _ _ _ => he _) (fun _ _ _ => he _) (fun o r hr => ?_)
      fun fault o r ws hws hr _ => ?_
    · obtain ⟨rfl, -⟩ := Prod.mk.inj (Except.ok.inj ((hexec o).symm.trans hr))
      exact hnone hl
    · exact absurd (Prod.mk.inj (Except.ok.inj ((hexec o).symm.trans hr))).2.symm hws
  | some coin =>
    refine write_bind (a := true) (v := none) (fun o => by simp only [exec, hl]; rfl) hc he
      fun fault o hA => ?_
    · obtain ⟨hc₁, he₁, hk⟩ := hsome coin hl fault o hA
      exact ⟨hc₁, fun _ => he₁, hk⟩

/-! ## Depositing -/

/-- A deposit is asked for, and the answer is the outcome. -/
theorem depositCoin_spec {accountId : String} {coin : Coin}
    {Q : DepositOutcome → Option (Tx database) → State X → Prop} (hc : C sh)
    (he : ∀ e, E e none sh)
    (h : ∀ requestId reply fault o, A fault o sh (tendered sh i ⟨coin, accountId, requestId⟩ reply) →
      C (tendered sh i ⟨coin, accountId, requestId⟩ reply) ∧
      (∀ e, reply = .error e → E e none (tendered sh i ⟨coin, accountId, requestId⟩ reply)) ∧
      ∀ response, reply = .ok response → Q ⟨coin.denominationCents, response.accepted,
        response.reason⟩ none (tendered sh i ⟨coin, accountId, requestId⟩ reply)) :
    Alone.Spec A i op C Q E (depositCoin accountId coin) none sh := by
  refine newRequestId_bind hc he fun requestId => ?_
  refine Alone.Spec.perform_bind fun fault o reply m hx hA => ?_
  obtain ⟨rfl, rfl⟩ := Prod.mk.inj (Option.some.inj hx)
  obtain ⟨hc₁, he₁, hq⟩ := h requestId o.deposit fault o hA
  exact ⟨hc₁, Alone.Spec.orThrow_bind he₁ fun response hresponse =>
    Alone.Spec.ok (hq response hresponse)⟩

end Digicash.Wallet
