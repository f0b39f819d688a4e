import Digicash.Wallet.Operations

/-!
# A wallet asks for its own account

What a wallet does to the world are the requests it makes and the rows it writes. `Keeps` says
that these keep a property of the state, and `code_keeps` that every operation then does, wherever
it is stopped.

The first thing kept in this way is that every request names the account of the wallet's identity,
which no operation writes.
-/

namespace Digicash.Wallet

open Lib

variable {X : Crypto} {A : Outcomes (service X)} {i : CallId} {op : Op} {C : State X → Prop}
  {sh : State X}

/-- What call `i` asks for, and what it writes, keeps `C`. -/
structure Keeps (A : Outcomes (service X)) (i : CallId) (op : Op) (C : State X → Prop) : Prop where
  drew : ∀ {sh request reply fault o}, C sh → sh.db.accountId = some request.accountId →
    A fault o sh (drew sh i request reply) → C (drew sh i request reply)
  tendered : ∀ {sh request reply fault o}, C sh → sh.db.accountId = some request.accountId →
    A fault o sh (tendered sh i request reply) → C (tendered sh i request reply)
  write : ∀ {sh s r row v fault o}, C sh → row ≠ .identity →
    A fault o sh (sh.commit i op (written s r row v)) → C (sh.commit i op (written s r row v))

theorem withdrawCoins_keeps (hC : Keeps A i op C) {accountId : String}
    {keys : Table UInt64 X.PublicKey} : ∀ {amounts : List UInt64} {sh : State X}, C sh →
      sh.db.accountId = some accountId →
      Alone.Spec A i op C (fun _ tx _ => tx = none) Whatever
        (withdrawCoins accountId keys amounts) none sh
  | [], _, _, _ => Alone.Spec.ok rfl
  | d :: ds, sh, h, hid => by
    refine Alone.Spec.bind (R := fun _ tx (sh' : State X) => tx = none ∧
        sh'.db.accountId = some accountId) h
      (withdrawCoin_spec h (fun _ => trivial) ?_) fun coin tx sh₁ h₁ hr => ?_
    · intro pk serial blinding request reply fault o hasks hA
      have hown : sh.db.accountId = some request.accountId := by
        obtain ⟨requestId, rfl⟩ := hasks.request
        exact hid
      have hdrew := hC.drew h hown hA
      refine ⟨hdrew, fun _ => trivial, fun response coin _ _ fault o hA => ?_⟩
      exact ⟨hC.write hdrew (by simp) hA, trivial, rfl, hid⟩
    · obtain ⟨rfl, hid₁⟩ := hr
      refine Alone.Spec.bind h₁ (withdrawCoins_keeps hC h₁ hid₁) fun coins tx _ _ htx => ?_
      exact Alone.Spec.ok htx

theorem depositCoins_keeps (hC : Keeps A i op C) {accountId : String} :
    ∀ {coins : List Coin} {sh : State X}, C sh → sh.db.accountId = some accountId →
      Alone.Spec A i op C (fun _ tx _ => tx = none) Whatever (depositCoins accountId coins) none sh
  | [], _, _, _ => Alone.Spec.ok rfl
  | coin :: coins, sh, h, hid => by
    refine Alone.Spec.bind (R := fun _ tx (sh' : State X) => tx = none ∧
        sh'.db.accountId = some accountId) h
      (depositCoin_spec h (fun _ => trivial) ?_) fun _ tx sh₁ h₁ hr => ?_
    · intro requestId reply fault o hA
      exact ⟨hC.tendered h hid hA, fun _ _ => trivial, fun _ _ => ⟨rfl, hid⟩⟩
    · obtain ⟨rfl, hid₁⟩ := hr
      refine Alone.Spec.bind h₁ (depositCoins_keeps hC h₁ hid₁) fun _ tx _ _ htx => ?_
      exact Alone.Spec.ok htx

theorem removeCoins_keeps (hC : Keeps A i op C) : ∀ {coins : List Coin} {sh : State X}, C sh →
    Alone.Spec A i op C (fun _ tx _ => tx = none) Whatever (removeCoins coins) none sh
  | [], _, _ => Alone.Spec.ok rfl
  | coin :: coins, sh, h => by
    refine removeCoin_bind h (fun _ => trivial) (fun _ => removeCoins_keeps hC h) ?_
    intro old _ fault o hA
    have h₁ := hC.write h (by simp) hA
    exact ⟨h₁, trivial, removeCoins_keeps hC h₁⟩

/-- **What every request and every write keeps, every operation keeps.** -/
theorem code_keeps (hC : Keeps A i op C) (op' : Op) (h : C sh) :
    Alone A i op C (fun _ _ _ => True) (code X op') none sh := by
  have hanswer : ∀ {α : Type} {x : WalletM α} {g : Except WalletError α → Ans},
      Alone.Spec A i op C (fun _ _ _ => True) Whatever x none sh →
        Alone A i op C (fun _ _ _ => True) (g <$> x.run) none sh := fun hx =>
    Alone.Spec.answer h hx (fun _ _ _ _ _ => trivial) fun _ _ _ _ _ => trivial
  have hdone : ∀ {α : Type} {x : WalletM α} {sh : State X}, C sh →
      Alone.Spec A i op C (fun _ tx _ => tx = none) Whatever x none sh →
        Alone.Spec A i op C (fun _ _ _ => True) Whatever x none sh := fun hc hx =>
    Alone.Spec.mono hc hx (fun _ _ _ _ _ => trivial) fun _ _ _ _ _ => trivial
  cases op' with
  | withdraw amount =>
    refine hanswer (client_bind h (fun _ => trivial) fun accountId hid => ?_)
    refine bankPublicKeys_bind h (fun _ => trivial) fun _ keys _ => ?_
    exact hdone h (withdrawCoins_keeps hC h hid)
  | storedCoins =>
    refine hanswer ?_
    have hpure : (sql .listCoins >>= pure : WalletM (List Coin)) = Wallet.storedCoins :=
      query_bind_pure (D := database) Stmt.listCoins
    rw [← hpure]
    exact read_bind (fun o d => arrange (d.coins.rows.map Prod.snd) o.order) (fun _ _ => rfl) h
      (fun _ => trivial) fun _ => Alone.Spec.ok trivial
  | spend amount path =>
    refine hanswer (read_bind (fun o d => arrange (d.coins.rows.map Prod.snd) o.order)
      (fun _ _ => rfl) h (fun _ => trivial) fun o => ?_)
    cases selectExact (arrange (sh.db.coins.rows.map Prod.snd) o.order) amount with
    | none => exact Alone.Spec.throw trivial
    | some bundle =>
      refine write_bind (fun _ => rfl) h (fun _ => trivial) fun fault o hA => ?_
      have h₁ := hC.write h (by simp) hA
      refine ⟨h₁, fun _ => trivial, ?_⟩
      exact Alone.Spec.bind h₁ (removeCoins_keeps hC h₁) fun _ _ _ _ _ => Alone.Spec.ok trivial
  | deposit path =>
    refine hanswer (client_bind h (fun _ => trivial) fun accountId hid => ?_)
    refine read_bind (fun _ d => d.files.lookup path) (fun _ _ => rfl) h (fun _ => trivial) fun _ => ?_
    cases sh.db.files.lookup path with
    | none => exact Alone.Spec.throw trivial
    | some file =>
      refine Alone.Spec.orThrow_bind (fun _ _ => trivial) fun coins _ => ?_
      exact hdone h (depositCoins_keeps hC h hid)
  | putCoin coin =>
    refine hanswer (write_bind (fun _ => rfl) h (fun _ => trivial) fun _ _ hA => ?_)
    exact ⟨hC.write h (by simp) hA, fun _ => trivial, Alone.Spec.ok trivial⟩

variable {accountId : Option String} {files : Table String File} {s : Sys (service X)}

/-- What every call keeps holds in every run. -/
theorem tended_of_keeps (hC : ∀ i op, Keeps (fun _ _ _ _ => True) i op C)
    (h : Sys.Steps .any (start X accountId files) s) (h0 : C (start X accountId files).shared)
    (hrunning : ∀ {sh : State X} (b : Bool), C sh →
      C { sh with mem := { sh.mem with running := b } }) :
    s.Tended (fun _ _ _ _ => True) C fun _ _ _ _ _ => True := by
  refine (Sys.tended_memory exclusive h (fun _ => rfl) h0 (fun _ => trivial) (fun hc hm => ?_)
    (fun hc => hrunning false hc) fun hc => code_keeps (hC _ _) _ hc).1
  obtain ⟨-, hm⟩ := Option.ite_none_left_eq_some.mp hm
  obtain rfl := Option.some.inj hm
  exact hrunning true hc

/-! ## Whose account is named -/

/-- Every request there was names the wallet's account. -/
structure Own (accountId : Option String) (sh : State X) : Prop where
  identity : sh.db.accountId = accountId
  drawn : ∀ d ∈ sh.mem.drawn, accountId = some d.request.accountId
  tendered : ∀ d ∈ sh.mem.tendered, accountId = some d.request.accountId

theorem own_keeps (i : CallId) (op : Op) :
    Keeps (X := X) (fun _ _ _ _ => True) i op (Own accountId) where
  drew h hown _ := by
    refine ⟨h.identity, fun d hd => ?_, h.tendered⟩
    rcases List.mem_cons.mp hd with rfl | hd
    · exact h.identity.symm.trans hown
    · exact h.drawn d hd
  tendered h hown _ := by
    refine ⟨h.identity, h.drawn, fun d hd => ?_⟩
    rcases List.mem_cons.mp hd with rfl | hd
    · exact h.identity.symm.trans hown
    · exact h.tendered d hd
  write {sh s r row v fault o} h hrow _ := by
    have hid : (sh.db.put row v).accountId = sh.db.accountId := by
      cases row with
      | identity => exact absurd rfl hrow
      | coin serial => rfl
      | file path => rfl
    exact ⟨hid.trans h.identity, h.drawn, h.tendered⟩

theorem own_tended (h : Sys.Steps .any (start X accountId files) s) :
    s.Tended (fun _ _ _ _ => True) (Own accountId) fun _ _ _ _ _ => True :=
  tended_of_keeps own_keeps h ⟨rfl, fun _ hd => absurd hd (by simp [start, Sys.init, Memory.fresh]),
    fun _ hd => absurd hd (by simp [start, Sys.init, Memory.fresh])⟩
    fun _ hc => ⟨hc.identity, hc.drawn, hc.tendered⟩

/-- A request that is about to be made names the wallet's account. -/
theorem withdraw_own (h : Sys.Steps .any (start X accountId files) s) {ss : Session (service X)}
    {request : WithdrawRequest} {k : (Cmd.ext (D := database) (.withdraw request)).Reply →
      Code database Ans} (hl : s.live i = some ss) (hcode : ss.code = .cmd (.ext (.withdraw request)) k) :
    accountId = some request.accountId := by
  have halone := (own_tended h).live i ss hl
  rw [hcode] at halone
  exact (halone (fun _ => true) .none default _ _ _ rfl trivial).1.drawn _ (List.mem_cons_self ..)

theorem deposit_own (h : Sys.Steps .any (start X accountId files) s) {ss : Session (service X)}
    {request : DepositRequest} {k : (Cmd.ext (D := database) (.deposit request)).Reply →
      Code database Ans} (hl : s.live i = some ss) (hcode : ss.code = .cmd (.ext (.deposit request)) k) :
    accountId = some request.accountId := by
  have halone := (own_tended h).live i ss hl
  rw [hcode] at halone
  exact (halone (fun _ => true) .none default _ _ _ rfl trivial).1.tendered _ (List.mem_cons_self ..)

end Digicash.Wallet
