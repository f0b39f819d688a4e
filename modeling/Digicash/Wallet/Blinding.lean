import Digicash.Lib.Coupled
import Digicash.Lib.Progress
import Digicash.Wallet.Operations

/-!
# Behind a blinded message

A blinded message says nothing about the serial in it: any other serial, blinded suitably, gives
the same message. So a withdrawal whose coin is to be another one can be given another serial and
other randomness, and the bank is asked for the same and answers the same.

`BlindScheme` is what is promised of the primitive. `withdraw_follows` is the wallet's code in two
runs: in the second its coins are those of `plan`, and everything that leaves it is as in the
first.
-/

namespace Digicash.Wallet

open Lib

variable {X : Crypto}

/-- RSABSSA, as far as it hides: a coin's signature is determined by its serial, the salt of its
    encoding and the key, and unblinding yields it if the blinded message was signed. -/
structure BlindScheme (X : Crypto) where
  Salt : Type
  salt : X.Blinding → Salt
  signs : X.PublicKey → Bytes → Bytes → Prop
  coinSignature : X.PublicKey → Serial → Salt → Bytes
  /-- Any serial may be behind any blinded message. -/
  hides : ∀ {pk serial rng b serial' rng' b'}, X.rsaBlind pk serial rng = .ok b →
    X.rsaBlind pk serial' rng' = .ok b' → ∃ rng'' b'', X.rsaBlind pk serial rng'' = .ok b'' ∧
      X.blindMessage b'' = X.blindMessage b' ∧ salt b'' = salt b
  unblinds : ∀ {pk serial rng b}, X.rsaBlind pk serial rng = .ok b → ∀ blindSig sig,
    X.rsaFinalize pk blindSig b serial = .ok sig ↔
      signs pk (X.blindMessage b) blindSig ∧ sig = coinSignature pk serial (salt b)

/-- Primitives that hide: the blinded message is what the generator gives. -/
def veiled : Crypto :=
  { Crypto.toy with
    Blinding := Serial × Bytes
    blindMessage := Prod.snd
    rsaBlind := fun _ serial rng => .ok (serial, [UInt8.ofNat rng])
    rsaFinalize := fun _ sig b _ => if sig = b.2 then .ok b.1.1 else .error "invalid signature"
    rsaVerify := fun _ sig serial => if sig = serial.1 then .ok () else .error "invalid signature" }

def BlindScheme.veiled : BlindScheme Wallet.veiled where
  Salt := Unit
  salt _ := ()
  signs _ m sig := sig = m
  coinSignature _ serial _ := serial.1
  hides := by
    rintro pk serial rng b serial' rng' b' - hb'
    obtain rfl := Except.ok.inj hb'
    exact ⟨rng', _, rfl, rfl, rfl⟩
  unblinds := by
    rintro pk serial rng b hb blindSig sig
    obtain rfl := Except.ok.inj hb
    show (if blindSig = [UInt8.ofNat rng] then Except.ok serial.1 else .error "invalid signature") =
      .ok sig ↔ blindSig = [UInt8.ofNat rng] ∧ sig = serial.1
    by_cases h : blindSig = [UInt8.ofNat rng]
    · simp [h, eq_comm]
    · simp [h]

/-- How a coin was made. -/
structure MadeWith (U : BlindScheme X) (keys : Table UInt64 X.PublicKey) (coin : Coin)
    (pk : X.PublicKey) (b : X.Blinding) : Prop where
  scheme : coin.schemeId = schemeIdRsaDeterministic
  key : keys.lookup coin.denominationCents = some pk
  blinded : ∃ rng, X.rsaBlind pk coin.serialNumber rng = .ok b
  signature : coin.signature = U.coinSignature pk coin.serialNumber (U.salt b)
  verified : X.rsaVerify pk coin.signature coin.serialNumber = .ok ()

/-- A wallet made it under these keys. -/
def Made (U : BlindScheme X) (keys : Table UInt64 X.PublicKey) (coin : Coin) : Prop :=
  ∃ pk b, MadeWith U keys coin pk b

/-- The coin that is made instead of `coin`: the one planned, if it is of its denomination. -/
def recast (planned : Option Coin) (coin : Coin) : Coin :=
  (planned.filter fun c => c.denominationCents = coin.denominationCents).getD coin

/-! ## The two runs -/

/-- Commands that are issued together. The ghost is how many coins were made. -/
inductive Pairs (made : Coin → Prop) (plan : Nat → Option Coin) :
    Nat → Cmd database → Cmd database → Prop
  | identity {n} : Pairs made plan n (.stmt .identity) (.stmt .identity)
  | readFile {n} (path) : Pairs made plan n (.stmt (.readFile path)) (.stmt (.readFile path))
  | putCoin {n coin} (h : made coin) :
    Pairs made plan n (.stmt (.putCoin coin)) (.stmt (.putCoin (recast (plan n) coin)))
  | ext {n} (e) : Pairs made plan n (.ext e) (.ext e)

/-- Answers that are given together: the same, but for what the generators give. -/
inductive Answers : (c c' : Cmd database) → c.Reply → c'.Reply → Prop
  | same (c r) : Answers c c r r
  | serial (r r') : Answers (.ext .serial) (.ext .serial) r r'
  | rng (r r') : Answers (.ext .rng) (.ext .rng) r r'
  | putCoin (coin coin' r) : Answers (.stmt (.putCoin coin)) (.stmt (.putCoin coin')) r r

/-- How many coins were made after a command. The keys that are heard are the same each time. -/
def Next (keys : Table UInt64 X.PublicKey) : Nat → (c : Cmd database) → c.Reply → Nat → Prop
  | n, .ext .denominations, r, n' => n' = n ∧
      ∀ published table, r = .ok published → parseKeys X published = .ok table → table = keys
  | n, .stmt (.putCoin _), r, n' => r = .ok () → n' = n + 1
  | n, _, _, n' => n' = n

def coupling (U : BlindScheme X) (keys : Table UInt64 X.PublicKey) (plan : Nat → Option Coin) :
    Coupling (Cmd.Reply (D := database)) Nat :=
  ⟨Pairs (Made U keys) plan, Next keys, Answers⟩

/-- A call whose next coin was planned may not be over. -/
abbrev Follows (U : BlindScheme X) (keys : Table UInt64 X.PublicKey) (plan : Nat → Option Coin)
    {α β : Type} (n : Nat) (x : WalletM α) (y : WalletM β) : Prop :=
  Coupled.Spec (coupling U keys plan) (fun n => plan n ≠ none) (fun _ _ _ => True) n x y

section

variable {U : BlindScheme X} {keys : Table UInt64 X.PublicKey} {plan : Nat → Option Coin}
  {α β : Type} {n : Nat}

/-- A question to which both get the same answer. -/
theorem ask_follows {e : Ext} {f : e.Res → WalletM α} {g : e.Res → WalletM β}
    (h : ∀ r n', Next keys n (.ext e) r n' → Follows U keys plan n' (f r) (g r)) :
    Follows U keys plan n (ask e >>= f) (ask e >>= g) :=
  Coupled.Spec.perform_bind (.ext e) fun r n' hn => ⟨r, Answers.same (.ext e) r, h r n' hn⟩

theorem newRequestId_follows {f : String → WalletM α} {g : String → WalletM β}
    (h : ∀ requestId, Follows U keys plan n (f requestId) (g requestId)) :
    Follows U keys plan n (newRequestId >>= f) (newRequestId >>= g) := by
  refine ask_follows fun r n' hn => ?_
  obtain rfl : n' = n := hn
  cases r with
  | ok bytes => exact h _
  | error e => exact Coupled.Spec.fail

theorem putCoin_follows {coin : Coin} (hmade : Made U keys coin) :
    Follows U keys plan n (do let _ ← sql (.putCoin coin); pure coin)
      (do let _ ← sql (.putCoin (recast (plan n) coin)); pure (recast (plan n) coin)) := by
  refine Coupled.Spec.query_bind (.putCoin hmade) (fun r n' _ => ⟨r, ?_, Coupled.Spec.ok trivial⟩)
    fun e => Answers.putCoin _ _ _
  exact Answers.putCoin coin _ (.ok r)

/-- The coin's signature, verified. -/
def coinSignature (pk : X.PublicKey) (blindSig : Bytes) (blinding : X.Blinding) (serial : Serial) :
    Except CoreError Bytes := do
  let signature ← unblind pk blindSig blinding serial
  verify pk serial signature
  pure signature

/-- What is left of `withdrawCoin` once the serial is blinded. -/
def signCoin (pk : X.PublicKey) (accountId : String) (denominationCents : UInt64) (serial : Serial)
    (blinding : X.Blinding) : WalletM Coin := do
  let requestId ← newRequestId
  let reply ← ask (.withdraw ⟨accountId, requestId, denominationCents, X.blindMessage blinding⟩)
  let response ← orThrow reply
  let signature ← orThrow ((coinSignature pk response.blindSignature blinding serial).mapError .core)
  let _ ← sql (.putCoin ⟨schemeIdRsaDeterministic, denominationCents, serial, signature⟩)
  pure ⟨schemeIdRsaDeterministic, denominationCents, serial, signature⟩

theorem orThrow_coinSignature {pk : X.PublicKey} {blindSig : Bytes} {b : X.Blinding}
    {serial : Serial} {f : Bytes → WalletM α} :
    (orThrow ((coinSignature pk blindSig b serial).mapError .core) >>= f) =
      (do
        let signature ← orThrow ((unblind pk blindSig b serial).mapError .core)
        orThrow ((verify pk serial signature).mapError .core)
        f signature) := by
  unfold coinSignature
  cases unblind pk blindSig b serial with
  | error e => rfl
  | ok sig =>
    show (orThrow ((verify pk serial sig >>= fun _ => pure sig).mapError .core) >>= f) =
      (orThrow ((verify pk serial sig).mapError .core) >>= fun _ => f sig)
    cases verify pk serial sig <;> rfl

theorem withdrawCoin_eq {pk : X.PublicKey} {accountId : String} {d : UInt64}
    (hkey : keys.lookup d = some pk) :
    withdrawCoin accountId keys d = (do
      let serial ← ask .serial
      let serial ← orThrow (serial.mapError .core)
      let rng ← ask .rng
      let blinding ← orThrow ((blind pk rng serial).mapError .core)
      signCoin pk accountId d serial blinding) := by
  unfold withdrawCoin signCoin
  rw [hkey]
  simp only [orThrow_coinSignature]

/-- In the second run it is another coin, behind the same message. -/
theorem signCoin_follows {pk : X.PublicKey} {accountId : String} {d : UInt64}
    {serial serial' : Serial} {b b' : X.Blinding} (hmessage : X.blindMessage b' = X.blindMessage b)
    (hok : ∀ blindSig sig, coinSignature pk blindSig b serial = .ok sig →
      Made U keys ⟨schemeIdRsaDeterministic, d, serial, sig⟩ ∧
        ∃ sig', coinSignature pk blindSig b' serial' = .ok sig' ∧
          recast (plan n) ⟨schemeIdRsaDeterministic, d, serial, sig⟩ =
            ⟨schemeIdRsaDeterministic, d, serial', sig'⟩)
    (hfail : plan n ≠ none ∨ b' = b ∧ serial' = serial) :
    Follows U keys plan n (signCoin pk accountId d serial b) (signCoin pk accountId d serial' b') := by
  refine newRequestId_follows fun requestId => ?_
  rw [hmessage]
  refine ask_follows fun reply n' hn => ?_
  obtain rfl : n' = n := hn
  refine Coupled.Spec.orThrow_self fun response _ => ?_
  refine Coupled.Spec.orThrow_bind (fun sig hsig => ?_) fun e he => ?_
  · obtain ⟨hmade, sig', hsig', hrecast⟩ := hok response.blindSignature sig (mapError_ok hsig)
    refine ⟨sig', by rw [hsig']; rfl, ?_⟩
    rw [← hrecast]
    exact putCoin_follows hmade
  · rcases hfail with hplanned | ⟨rfl, rfl⟩
    · exact .inl hplanned
    · exact .inr ⟨e, he⟩

theorem coinSignature_eq_ok {pk : X.PublicKey} {blindSig sig : Bytes} {b : X.Blinding}
    {serial : Serial} : coinSignature pk blindSig b serial = .ok sig ↔
      X.rsaFinalize pk blindSig b serial = .ok sig ∧ X.rsaVerify pk sig serial = .ok () := by
  unfold coinSignature unblind verify
  cases X.rsaFinalize pk blindSig b serial with
  | error e => exact ⟨fun h => by (cases h), fun h => by (cases h.1)⟩
  | ok sig' =>
    show ((X.rsaVerify pk sig' serial).mapError CoreError.verification >>= fun _ => pure sig') =
      .ok sig ↔ _
    cases hverify : X.rsaVerify pk sig' serial with
    | error e =>
      refine ⟨fun h => by (cases h), fun ⟨hsig, h⟩ => ?_⟩
      obtain rfl := Except.ok.inj hsig
      exact absurd (hverify.symm.trans h) (by simp)
    | ok =>
      refine ⟨fun h => ?_, fun h => congrArg Except.ok (Except.ok.inj h.1)⟩
      obtain rfl := Except.ok.inj h
      exact ⟨rfl, hverify⟩

theorem made_of_signature {pk : X.PublicKey} {rng : Nat} {blindSig sig : Bytes} {b : X.Blinding}
    {serial : Serial} {d : UInt64} (hkey : keys.lookup d = some pk)
    (hb : X.rsaBlind pk serial rng = .ok b) (h : coinSignature pk blindSig b serial = .ok sig) :
    MadeWith U keys ⟨schemeIdRsaDeterministic, d, serial, sig⟩ pk b ∧
      U.signs pk (X.blindMessage b) blindSig := by
  obtain ⟨hfinalize, hverify⟩ := coinSignature_eq_ok.mp h
  obtain ⟨hsigns, hsig⟩ := (U.unblinds hb blindSig sig).mp hfinalize
  exact ⟨⟨rfl, hkey, ⟨rng, hb⟩, hsig, hverify⟩, hsigns⟩

/-- A signature on the message behind which a coin is makes that coin. -/
theorem signature_of_made {coin : Coin} {pk : X.PublicKey} {b b' : X.Blinding} {rng : Nat}
    {blindSig : Bytes} (h : MadeWith U keys coin pk b)
    (hb' : X.rsaBlind pk coin.serialNumber rng = .ok b') (hsalt : U.salt b' = U.salt b)
    (hsigns : U.signs pk (X.blindMessage b') blindSig) :
    coinSignature pk blindSig b' coin.serialNumber = .ok coin.signature := by
  refine coinSignature_eq_ok.mpr ⟨(U.unblinds hb' _ _).mpr ⟨hsigns, ?_⟩, h.verified⟩
  rw [hsalt, ← h.signature]

theorem blind_eq_ok {pk : X.PublicKey} {rng : Nat} {serial : Serial} {b : X.Blinding} :
    blind pk rng serial = .ok b ↔ X.rsaBlind pk serial rng = .ok b := by
  unfold blind
  cases X.rsaBlind pk serial rng with
  | ok b' => exact ⟨fun h => congrArg _ (Except.ok.inj h), fun h => congrArg _ (Except.ok.inj h)⟩
  | error e => exact ⟨fun h => by (cases h), fun h => by (cases h)⟩

/-- The coin that was drawn is the coin that is made. -/
theorem drawn_follows {pk : X.PublicKey} {accountId : String} {d : UInt64} {serial : Serial}
    (hkey : keys.lookup d = some pk)
    (hplanned : (plan n).filter (fun c => decide (c.denominationCents = d)) = none) :
    Follows U keys plan n
      (do
        let rng ← ask .rng
        let blinding ← orThrow ((blind pk rng serial).mapError .core)
        signCoin pk accountId d serial blinding)
      (do
        let rng ← ask .rng
        let blinding ← orThrow ((blind pk rng serial).mapError .core)
        signCoin pk accountId d serial blinding) := by
  refine ask_follows fun rng n' hn => ?_
  obtain rfl : n' = n := hn
  refine Coupled.Spec.orThrow_self fun b hb => ?_
  refine signCoin_follows rfl (fun blindSig sig hsig => ?_) (.inr ⟨rfl, rfl⟩)
  obtain ⟨hmade, -⟩ := made_of_signature (U := U) hkey (blind_eq_ok.mp (mapError_ok hb)) hsig
  exact ⟨⟨pk, b, hmade⟩, sig, hsig, by rw [recast, hplanned]; rfl⟩

/-- Another coin is made than the one that was drawn. -/
theorem planned_follows {pk : X.PublicKey} {accountId : String} {d : UInt64} {serial : Serial}
    {coin : Coin} (hkey : keys.lookup d = some pk)
    (hplanned : (plan n).filter (fun c => decide (c.denominationCents = d)) = some coin)
    (hcoin : Made U keys coin) :
    Follows U keys plan n
      (do
        let rng ← ask .rng
        let blinding ← orThrow ((blind pk rng serial).mapError .core)
        signCoin pk accountId d serial blinding)
      (do
        let rng ← ask .rng
        let blinding ← orThrow ((blind pk rng coin.serialNumber).mapError .core)
        signCoin pk accountId d coin.serialNumber blinding) := by
  obtain ⟨hplan, hdenom⟩ := Option.filter_eq_some_iff.mp hplanned
  obtain rfl := of_decide_eq_true hdenom
  obtain ⟨pk', b₀, hmade₀⟩ := hcoin
  obtain rfl := Option.some.inj (hmade₀.key.symm.trans hkey)
  have hdead : plan n ≠ none := by simp [hplan]
  refine Coupled.Spec.perform_bind (.ext .rng) fun rng n' hn => ?_
  obtain rfl : n' = n := hn
  cases hblind : blind pk' rng serial with
  | error e => exact ⟨rng, .same _ _, Coupled.Spec.lost hdead⟩
  | ok b =>
    obtain ⟨rng₀, hb₀⟩ := hmade₀.blinded
    have hb := blind_eq_ok.mp hblind
    obtain ⟨rng', b', hb', hmessage, hsalt⟩ := U.hides hb₀ hb
    refine ⟨rng', .rng _ _, ?_⟩
    rw [blind_eq_ok.mpr hb']
    refine signCoin_follows hmessage (fun blindSig sig hsig => ?_) (.inl hdead)
    obtain ⟨hmade, hsigns⟩ := made_of_signature (U := U) hkey hb hsig
    refine ⟨⟨pk', b, hmade⟩, coin.signature,
      signature_of_made hmade₀ hb' hsalt (hmessage ▸ hsigns), ?_⟩
    rw [recast, hplanned, Option.getD_some, ← hmade₀.scheme]

variable (hplan : ∀ n coin, plan n = some coin → Made U keys coin) {accountId : String}

include hplan in
theorem withdrawCoin_follows {d : UInt64} :
    Follows U keys plan n (withdrawCoin accountId keys d) (withdrawCoin accountId keys d) := by
  cases hkey : keys.lookup d with
  | none =>
    have hfail : withdrawCoin accountId keys d = throw (.unknownDenomination d) := by
      rw [withdrawCoin, hkey]
    rw [hfail]
    exact Coupled.Spec.fail
  | some pk =>
    rw [withdrawCoin_eq hkey]
    refine Coupled.Spec.perform_bind (.ext .serial) fun r n' hn => ?_
    obtain rfl : n' = n := hn
    cases r with
    | error e => exact ⟨.error e, .same _ _, Coupled.Spec.fail⟩
    | ok serial =>
      cases hplanned : (plan n').filter (fun c => decide (c.denominationCents = d)) with
      | none => exact ⟨.ok serial, .same _ _, drawn_follows hkey hplanned⟩
      | some coin =>
        refine ⟨.ok coin.serialNumber, .serial _ _, planned_follows hkey hplanned ?_⟩
        exact hplan n' coin (Option.filter_eq_some_iff.mp hplanned).1

include hplan in
theorem withdrawCoins_follows : ∀ {ds : List UInt64} {n : Nat},
    Follows U keys plan n (withdrawCoins accountId keys ds) (withdrawCoins accountId keys ds)
  | [], _ => Coupled.Spec.ok trivial
  | _ :: _, _ =>
    Coupled.Spec.bind (withdrawCoin_follows hplan) fun _ _ _ _ =>
      Coupled.Spec.bind withdrawCoins_follows fun _ _ _ _ => Coupled.Spec.ok trivial

/-- Commands that are answered alike. -/
def plain : Cmd database → Prop
  | .stmt .identity => True
  | .stmt (.readFile _) => True
  | .ext _ => True
  | _ => False

theorem plain_sql {s : Stmt} (h : plain (.stmt s)) : (sql s).run.Only plain := only_query h

theorem plain_ask (e : Ext) : (ask e).run.Only plain := ⟨trivial, fun _ => trivial⟩

theorem plain_client : client.run.Only plain := by
  refine only_bind (plain_sql (s := .identity) trivial) fun found => ?_
  cases found with
  | none => trivial
  | some accountId => exact only_bind (plain_ask .client) fun _ => only_bind trivial fun _ => trivial

theorem plain_newRequestId : newRequestId.run.Only plain :=
  only_bind (plain_ask .requestId) fun _ => only_bind trivial fun _ => trivial

theorem plain_depositCoins : ∀ {coins : List Coin}, (depositCoins accountId coins).run.Only plain
  | [] => trivial
  | coin :: coins => by
    have hcoin : (depositCoin accountId coin).run.Only plain :=
      only_bind plain_newRequestId fun _ => only_bind (plain_ask (.deposit _)) fun _ =>
        only_bind trivial fun _ => trivial
    exact only_bind hcoin fun _ => only_bind plain_depositCoins fun _ => trivial

theorem plain_deposit {path : String} : (deposit path).run.Only plain := by
  refine only_bind plain_client fun accountId => ?_
  refine only_bind (plain_sql (s := .readFile path) trivial) fun found => ?_
  cases found with
  | none => trivial
  | some file => exact only_bind trivial fun _ => plain_depositCoins

/-- What both are answered alike they do alike. -/
theorem plain_self {α : Type} {Q : Nat → α → α → Prop} {L : Nat → α → Prop} {p : Code database α}
    (hp : p.Only plain) (hend : ∀ n a, Q n a a) : Coupled (coupling U keys plan) Q L n p p := by
  refine Coupled.self plain (fun n c hc => ?_) (fun c r _ => Answers.same c r) hend hp
  cases c with
  | stmt s =>
    cases s with
    | identity => exact Pairs.identity
    | readFile path => exact Pairs.readFile path
    | _ => exact hc.elim
  | ext e => exact Pairs.ext e
  | _ => exact hc.elim

theorem client_follows {f : String → WalletM α} {g : String → WalletM β}
    (h : ∀ n accountId, Follows U keys plan n (f accountId) (g accountId)) :
    Follows U keys plan n (client >>= f) (client >>= g) := by
  have hclient : Coupled.Spec (coupling U keys plan) (fun n => plan n ≠ none) (fun _ a b => a = b) n
      client client := by
    refine plain_self plain_client fun n r => ?_
    cases r with
    | ok a => exact .ok rfl
    | error e => exact .error e e
  refine hclient.bind fun n a b hab => ?_
  obtain rfl := hab
  exact h n a

theorem bankPublicKeys_follows {f : Table UInt64 X.PublicKey → WalletM α}
    {g : Table UInt64 X.PublicKey → WalletM β} (h : Follows U keys plan n (f keys) (g keys)) :
    Follows U keys plan n (bankPublicKeys X >>= f) (bankPublicKeys X >>= g) := by
  refine ask_follows fun reply n' hn => ?_
  obtain ⟨rfl, hkeys⟩ := hn
  cases reply with
  | error e => exact Coupled.Spec.fail
  | ok published =>
    refine Coupled.Spec.orThrow_self (r := parseKeys X published) fun table htable => ?_
    obtain rfl := hkeys published table rfl htable
    exact h

include hplan in
theorem withdraw_follows {amount : UInt64} :
    Follows U keys plan n (withdraw X amount) (withdraw X amount) :=
  client_follows fun _ _ => bankPublicKeys_follows (withdrawCoins_follows hplan)

include hplan in
/-- **Every withdrawal and every deposit can be followed.** -/
theorem code_follows {op : Op}
    (hop : (∃ amount, op = .withdraw amount) ∨ ∃ path, op = .deposit path) :
    Coupled (coupling U keys plan) (fun _ _ _ => True) (fun n _ => plan n ≠ none) n (code X op)
      (code X op) := by
  rcases hop with ⟨amount, rfl⟩ | ⟨path, rfl⟩
  · exact (withdraw_follows hplan).answer (fun _ _ _ _ => trivial) fun _ _ h => h
  · have hcode : (code X (.deposit path)).Only plain :=
      Prog.Only.bind (f := fun r => Prog.pure (Ans.deposit r)) (fun _ => trivial) plain_deposit
    exact plain_self hcode fun _ _ => trivial

end

/-! ## What was made -/

/-- The coin that a statement stores. -/
def Stmt.coin? : Stmt → Option Coin
  | .putCoin coin => some coin
  | _ => none

/-- The coins that call `i` stored, oldest first. -/
def minted (sh : State X) (i : CallId) : List Coin :=
  (sh.hist.reverse.filter fun c => c.call = i).flatMap fun c => c.tx.trace.filterMap fun e => e.1.coin?

theorem minted_of_hist {sh sh' : State X} (h : sh'.hist = sh.hist) : minted sh' = minted sh := by
  funext i
  rw [minted, h, minted]

theorem minted_commit {sh : State X} {i j : CallId} {op : Op} {t : Tx database} :
    minted (sh.commit i op t) j =
      minted sh j ++ if i = j then t.trace.filterMap fun e => e.1.coin? else [] := by
  show (((⟨i, op, t, sh.db⟩ : Commit database Op) :: sh.hist).reverse.filter _).flatMap _ = _
  rw [List.reverse_cons, List.filter_append, List.flatMap_append, minted]
  congr 1
  by_cases h : i = j
  · simp [h]
  · simp [h]

/-- The second run has the planned coins, and everything else is as in the first. -/
structure Recast (plan : CallId → Nat → Option Coin) (sh sh' : State X) : Prop where
  mem : sh'.mem = sh.mem
  accountId : sh'.db.accountId = sh.db.accountId
  files : sh'.db.files = sh.db.files
  minted : ∀ i, minted sh' i = (minted sh i).mapIdx fun k coin => recast (plan i k) coin

section

variable {U : BlindScheme X} {keys : Table UInt64 X.PublicKey} {plan : CallId → Nat → Option Coin}
  {made : Coin → Prop} {sh sh' sh₂ : State X} {i : CallId} {op : Op} {fault : Fault} {o : Oracle}
  {free free₂ : Row → Bool} {tx : Option (Tx database)}

/-- What a question of the second run is answered. -/
def redraw (o : Oracle) (serial : Except CoreError Serial) (rng : Nat) : Oracle :=
  { o with serial := serial, rng := rng }

/-- One command in both runs. -/
structure Executed (keys : Table UInt64 X.PublicKey) (plan : CallId → Nat → Option Coin)
    (made : Coin → Prop) (i : CallId) (op : Op) (fault : Fault) (o : Oracle) (free₂ : Row → Bool)
    (sh sh₂ : State X) (c c' : Cmd database) (r : c.Reply) (sh' : State X) : Prop where
  next : Next keys (minted sh i).length c r (minted sh' i).length
  others : ∀ j, j ≠ i → minted sh' j = minted sh j
  made : (∀ coin ∈ minted sh i, made coin) → ∀ coin ∈ minted sh' i, made coin
  second : ∀ r', Answers c c' r r' → ∃ serial rng sh₂',
    execCmd free₂ i op fault (redraw o serial rng) sh₂ none c' = some (r', sh₂', none) ∧
      Recast plan sh' sh₂'

theorem executed_ext {e : Ext} {r : e.Res} (hsame : Recast plan sh sh₂)
    (hheard : e = .denominations → ∀ published table, o.denominations = .ok published →
      parseKeys X published = .ok table → table = keys)
    (hx : execCmd free i op fault o sh none (.ext e) = some (r, sh', tx)) :
    tx = none ∧ Executed keys plan made i op fault o free₂ sh sh₂ (.ext e) (.ext e) r sh' := by
  obtain ⟨⟨r₁, m⟩, hext, heq⟩ := Option.map_eq_some_iff.mp hx
  obtain ⟨rfl, hrest⟩ := Prod.mk.inj heq
  obtain ⟨rfl, rfl⟩ := Prod.mk.inj hrest
  have hminted : minted ({ sh with mem := m } : State X) = minted sh := minted_of_hist rfl
  have hrecast : Recast plan { sh with mem := m } { sh₂ with mem := m } :=
    ⟨rfl, hsame.accountId, hsame.files, fun j => by rw [hminted]; exact hsame.minted j⟩
  refine ⟨rfl, ?_, fun j _ => by rw [hminted], fun h => by rw [hminted]; exact h, ?_⟩
  · rw [hminted]
    cases e with
    | denominations =>
      obtain ⟨rfl, -⟩ := Prod.mk.inj (Option.some.inj hext)
      exact ⟨rfl, hheard rfl⟩
    | _ => exact rfl
  · intro r' hanswers
    have hmem : ∀ o', runExt i e o' sh₂.mem = runExt i e o' sh.mem := fun o' => by rw [hsame.mem]
    cases hanswers with
    | same =>
      refine ⟨o.serial, o.rng, _, ?_, hrecast⟩
      have hext : runExt i e o sh.mem = some (r₁, m) := hext
      show (runExt i e o sh₂.mem).map _ = _
      rw [hmem, hext]
      rfl
    | serial _ r' =>
      obtain ⟨-, rfl⟩ := Prod.mk.inj (Option.some.inj hext)
      refine ⟨r', o.rng, _, ?_, hrecast⟩
      rw [← hsame.mem]
      rfl
    | rng _ r' =>
      obtain ⟨-, rfl⟩ := Prod.mk.inj (Option.some.inj hext)
      refine ⟨o.serial, r', _, ?_, hrecast⟩
      rw [← hsame.mem]
      rfl

theorem executed_read {s : Stmt} {r : Except SqlError s.Res} (get : Disk → s.Res)
    (hexec : ∀ o d, exec s o d = .read (get d)) (hget : get sh₂.db = get sh.db)
    (hnext : ∀ r, Next keys (minted sh i).length (.stmt s) r (minted sh i).length)
    (hanswers : ∀ r', Answers (.stmt s) (.stmt s) r r' → r' = r) (hsame : Recast plan sh sh₂)
    (hx : execCmd free i op fault o sh none (.stmt s) = some (r, sh', tx)) :
    tx = none ∧ Executed keys plan made i op fault o free₂ sh sh₂ (.stmt s) (.stmt s) r sh' := by
  have hsecond : ∀ sh₂ : State X, ∀ free o, execCmd free i op fault o sh₂ none (.stmt s) =
      some (if fault = .none then .ok (get sh₂.db) else .error .connection, sh₂, none) := by
    intro sh₂ free o
    show execStmt free i op fault o sh₂ none s = _
    unfold execStmt
    have hdb : database.exec s o sh₂.db = Effect.read (get sh₂.db) := hexec o sh₂.db
    rw [hdb]
    cases fault <;> rfl
  rw [hsecond] at hx
  obtain ⟨rfl, hrest⟩ := Prod.mk.inj (Option.some.inj hx)
  obtain ⟨rfl, rfl⟩ := Prod.mk.inj hrest
  refine ⟨rfl, hnext _, fun _ _ => rfl, id, fun r' hr' => ?_⟩
  obtain rfl := hanswers r' hr'
  exact ⟨o.serial, o.rng, sh₂, by rw [hsecond, hget], hsame⟩

theorem exec_putCoin {sh : State X} {coin : Coin} (hfree : ∀ row, free row = true) :
    execCmd free i op fault o sh none (.stmt (.putCoin coin)) =
      if fault = .before then some (.error .connection, sh, none)
      else some (if fault = .after then .error .connection else .ok (), stored sh i op coin, none) := by
  have heff : (database.exec (.putCoin coin) o sh.db).enabled free = true := by
    show (true && [free (.coin coin.serialNumber)].all id) = true
    simp [hfree]
  show execStmt free i op fault o sh none (.putCoin coin) = _
  unfold execStmt
  cases fault with
  | before => rfl
  | _ =>
    dsimp only
    rw [if_neg (by simp), if_pos heff]
    rfl

theorem minted_stored {sh : State X} {coin : Coin} {j : CallId} :
    minted (stored sh i op coin) j = minted sh j ++ if i = j then [coin] else [] :=
  minted_commit

theorem executed_put {coin : Coin} {r : Except SqlError Unit} (hmade : made coin)
    (hsame : Recast plan sh sh₂) (hfree : ∀ row, free row = true) (hfree₂ : ∀ row, free₂ row = true)
    (hx : execCmd free i op fault o sh none (.stmt (.putCoin coin)) = some (r, sh', tx)) :
    tx = none ∧ Executed keys plan made i op fault o free₂ sh sh₂ (.stmt (.putCoin coin))
      (.stmt (.putCoin (recast (plan i (minted sh i).length) coin))) r sh' := by
  have hanswers : ∀ {coin' r'}, Answers (.stmt (.putCoin coin)) (.stmt (.putCoin coin')) r r' →
      r' = r := by
    intro coin' r' h
    cases h <;> rfl
  rw [exec_putCoin hfree] at hx
  split at hx
  · rename_i hfault
    obtain ⟨rfl, hrest⟩ := Prod.mk.inj (Option.some.inj hx)
    obtain ⟨rfl, rfl⟩ := Prod.mk.inj hrest
    refine ⟨rfl, fun h => by (cases h), fun _ _ => rfl, id, fun r' hr' => ?_⟩
    obtain rfl := hanswers hr'
    exact ⟨o.serial, o.rng, sh₂, by rw [exec_putCoin hfree₂, if_pos hfault], hsame⟩
  · rename_i hfault
    obtain ⟨rfl, hrest⟩ := Prod.mk.inj (Option.some.inj hx)
    obtain ⟨rfl, rfl⟩ := Prod.mk.inj hrest
    refine ⟨rfl, fun _ => ?_, fun j hj => ?_, fun h c hc => ?_, fun r' hr' => ?_⟩
    · rw [minted_stored, if_pos rfl, List.length_append]
      rfl
    · rw [minted_stored, if_neg hj.symm, List.append_nil]
    · rw [minted_stored, if_pos rfl] at hc
      rcases List.mem_append.mp hc with hc | hc
      · exact h c hc
      · exact List.mem_singleton.mp hc ▸ hmade
    · obtain rfl := hanswers hr'
      refine ⟨o.serial, o.rng, _, by rw [exec_putCoin hfree₂, if_neg hfault], ?_⟩
      refine ⟨hsame.mem, hsame.accountId, hsame.files, fun j => ?_⟩
      rw [minted_stored, minted_stored, hsame.minted]
      by_cases hj : i = j
      · subst hj
        rw [if_pos rfl, if_pos rfl, List.mapIdx_append]
        simp
      · rw [if_neg hj, if_neg hj, List.append_nil, List.append_nil]

theorem executed {c c' : Cmd database} {r : c.Reply}
    (hpairs : Pairs made (plan i) (minted sh i).length c c') (hsame : Recast plan sh sh₂)
    (hfree : ∀ row, free row = true) (hfree₂ : ∀ row, free₂ row = true)
    (hheard : c = .ext .denominations → ∀ published table, o.denominations = .ok published →
      parseKeys X published = .ok table → table = keys)
    (hx : execCmd free i op fault o sh none c = some (r, sh', tx)) :
    tx = none ∧ Executed keys plan made i op fault o free₂ sh sh₂ c c' r sh' := by
  cases hpairs with
  | identity =>
    refine executed_read (fun d => d.accountId) (fun _ _ => rfl) hsame.accountId (fun _ => rfl)
      (fun r' h => ?_) hsame hx
    cases h
    rfl
  | readFile path =>
    refine executed_read (fun d => d.files.lookup path) (fun _ _ => rfl) ?_ (fun _ => rfl)
      (fun r' h => ?_) hsame hx
    · rw [hsame.files]
    · cases h
      rfl
  | putCoin hmade => exact executed_put hmade hsame hfree hfree₂ hx
  | ext e => exact executed_ext hsame (fun he => hheard (he ▸ rfl)) hx

end

end Digicash.Wallet
