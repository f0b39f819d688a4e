import Digicash.Bank.Requests
import Digicash.Lib.Deeds
import Digicash.Market

/-!
# What becomes of a withdrawal

A withdrawal takes its denomination from the account, and the coin comes to the wallet's store.
Between the two the wallet has only itself to remember it by: the request id, the serial and the
blinding are in memory and nowhere else, so a call that ends without its coin leaves nothing behind
to ask for it with. `InHand` is what a wallet has in hand that is not in its store.

Nothing keeps a call from ending so: `withdrawal_lost` is a run in which one answer is lost. Where
no step loses what is in hand, the store has received all that was withdrawn and stands.
-/

namespace Digicash

open Lib

variable {X : Crypto} {W : Type}

/-! ## At the bank -/

namespace Bank

variable {κ : Config X} {db : Tables} {a : String} {asked : Option WithdrawRequest}

/-- What the withdrawal under this request id keeps from `a`. -/
def Tables.keptUnder (db : Tables) (a requestId : String) : Int :=
  (db.withdrawStates.lookup requestId).elim 0 fun row => row.keeps a

/-- There is a withdrawal under this request id, and it was not given back. -/
def Tables.stands (db : Tables) (requestId : String) : Bool :=
  (db.withdrawStates.lookup requestId).any fun row => row.state != .compensated

/-- What is withdrawn from `a` and stands, but for the withdrawal that was asked for. -/
def Tables.withdrawnBefore (db : Tables) (a : String) (asked : Option WithdrawRequest) : Int :=
  db.withdrawn a - asked.elim 0 fun req => db.keptUnder a req.requestId

/-- Nothing is pending on `a` but the withdrawal that was asked for, and that is the one of its
    request. -/
structure Tables.Attended (db : Tables) (a : String) (asked : Option WithdrawRequest) : Prop where
  pending : ∀ r row, db.withdrawStates.lookup r = some row → row.accountId = a →
    row.state = .pending → ∃ req, asked = some req ∧ r = req.requestId
  own : ∀ req, asked = some req → ∀ row, db.withdrawStates.lookup req.requestId = some row →
    row.accountId = a ∧ i64TryFrom req.denominationCents = some row.denominationCents

/-- A debit of `a`, or under the request id that was asked for, is the one that was asked for. -/
def Entry.Wanted (a : String) (asked : Option WithdrawRequest) : Entry → Prop
  | debit r a' denom _ _ => a' = a ∨ asked.map WithdrawRequest.requestId = some r →
      ∃ req, asked = some req ∧ r = req.requestId ∧ a' = a ∧
        i64TryFrom req.denominationCents = some denom
  | _ => True

theorem Tables.keptUnder_of_not_stands {r : String} (h : db.stands r = false) (a : String) :
    db.keptUnder a r = 0 := by
  unfold Tables.keptUnder
  cases hl : db.withdrawStates.lookup r with
  | none => rfl
  | some row =>
    have hcomp : row.state = .compensated := by simpa [Tables.stands, hl] using h
    exact if_neg fun hk => hk.2 hcomp

/-- What is withdrawn moves with the row under `r` only. -/
theorem withdrawnBefore_put {r : String} {old : Option WithdrawRow} (new : WithdrawRow)
    (accounts : Table String Int) (hl : db.withdrawStates.lookup r = old)
    (h : asked.map WithdrawRequest.requestId = some r ∨
      new.keeps a = old.elim 0 fun row => row.keeps a) :
    Tables.withdrawnBefore
      { db with accounts, withdrawStates := db.withdrawStates.put r (some new) } a asked =
        db.withdrawnBefore a asked := by
  have htotal : Tables.withdrawn
      { db with accounts, withdrawStates := db.withdrawStates.put r (some new) } a =
        db.withdrawn a - (old.elim 0 fun row => row.keeps a) + new.keeps a := by
    rw [Tables.withdrawn, Table.total_put, hl]
    rfl
  unfold Tables.withdrawnBefore
  rw [htotal]
  cases asked with
  | none =>
    have hsame := h.resolve_left (by simp)
    simp only [Option.elim_none]
    omega
  | some req =>
    simp only [Option.elim_some, Tables.keptUnder, Table.lookup_put]
    by_cases hr : req.requestId = r
    · subst hr
      rw [if_pos rfl, hl, Option.elim_some]
      omega
    · have hsame := h.resolve_left (by simpa using hr)
      rw [if_neg hr]
      omega

/-- An entry changes what is withdrawn only where it is asked for. -/
theorem Entry.withdrawnBefore_apply {e : Entry} (hv : e.Valid κ db) (h : db.Attended a asked)
    (hw : e.Wanted a asked) : (e.apply db).withdrawnBefore a asked = db.withdrawnBefore a asked := by
  cases e with
  | debit r a' denom m b =>
    refine withdrawnBefore_put _ _ hv.2.1 ?_
    by_cases hany : a' = a ∨ asked.map WithdrawRequest.requestId = some r
    · obtain ⟨req, rfl, rfl, -⟩ := hw hany
      exact Or.inl rfl
    · exact Or.inr (if_neg fun hk => hany (Or.inl hk.1))
  | sign r row signature =>
    refine withdrawnBefore_put _ db.accounts hv.1 (Or.inr ?_)
    simp [WithdrawRow.keeps, hv.2.2.not_compensated hv.2.1]
  | complete r row =>
    obtain ⟨hr, signature, hs⟩ := hv
    refine withdrawnBefore_put _ db.accounts hr (Or.inr ?_)
    simp [WithdrawRow.keeps, hs.not_compensated]
  | compensate r row b =>
    obtain ⟨hr, ⟨err, hs⟩, hf, -⟩ := hv
    refine withdrawnBefore_put _ _ hr ?_
    have hgone : WithdrawRow.keeps { row with state := .compensated } a = 0 :=
      if_neg fun hk => hk.2 rfl
    rw [hgone, Option.elim_some]
    by_cases hk : row.accountId = a ∧ row.state ≠ .compensated
    · -- Only a pending withdrawal is given back, and the pending one was asked for.
      have hp : row.state = .pending := by
        unfold Finalizing at hf
        rw [hs] at hf
        exact hf.resolve_right hk.2
      obtain ⟨req, rfl, rfl⟩ := h.pending r row hr hk.1 hp
      exact Or.inl rfl
    · exact Or.inr (if_neg hk).symm
  | _ => rfl

theorem Entry.attended {e : Entry} (hv : e.Valid κ db) (h : db.Attended a asked)
    (hw : e.Wanted a asked) : (e.apply db).Attended a asked := by
  have hmove := fun r => e.rowMove hv r
  constructor
  · intro r row hl hacc hstate
    cases hold : db.withdrawStates.lookup r with
    | none =>
      obtain ⟨a', denom, m, b, rfl, rfl⟩ := Entry.new_row hv hold hl
      obtain ⟨req, hasked, hr, -⟩ := hw (Or.inl hacc)
      exact ⟨req, hasked, hr⟩
    | some old =>
      have hrow := hmove r
      rw [hold, hl] at hrow
      cases hrow with
      | stay => exact h.pending r row hold hacc hstate
      | sign _ _ => exact absurd hstate (by simp)
      | complete _ => exact absurd hstate (by simp)
      | compensate _ _ => exact absurd hstate (by simp)
  · intro req hasked row hl
    cases hold : db.withdrawStates.lookup req.requestId with
    | none =>
      obtain ⟨a', denom, m, b, rfl, rfl⟩ := Entry.new_row hv hold hl
      obtain ⟨req', hasked', -, hacc, hdenom⟩ := hw (Or.inr (by rw [hasked]; rfl))
      obtain rfl := Option.some.inj (hasked.symm.trans hasked')
      exact ⟨hacc, hdenom⟩
    | some old =>
      have hrow := hmove req.requestId
      rw [hold] at hrow
      obtain ⟨row', hl', hsame⟩ := hrow.sameRequest
      obtain rfl := Option.some.inj (hl.symm.trans hl')
      obtain ⟨hacc, hdenom⟩ := h.own req hasked old hold
      exact ⟨hsame.accountId.trans hacc, by rw [hsame.denominationCents, hdenom]⟩

/-- Nothing else is pending once the withdrawal that was asked for is not. -/
theorem Tables.Attended.forget (h : db.Attended a asked) (hnone : ∀ req, asked = some req →
      ∀ row, db.withdrawStates.lookup req.requestId = some row → row.state ≠ .pending) :
    db.Attended a none := by
  refine ⟨fun r row hl hacc hstate => ?_, fun _ hreq => absurd hreq (by simp)⟩
  obtain ⟨req, hasked, rfl⟩ := h.pending r row hl hacc hstate
  exact absurd hstate (hnone req hasked row hl)

theorem Tables.Attended.ask {req : WithdrawRequest} (h : db.Attended a none)
    (hnew : db.withdrawStates.lookup req.requestId = none) : db.Attended a (some req) := by
  refine ⟨fun r row hl hacc hstate => ?_, fun req' hreq row hl => ?_⟩
  · obtain ⟨req, hasked, -⟩ := h.pending r row hl hacc hstate
    cases hasked
  · obtain rfl := Option.some.inj hreq
    exact absurd (hnew.symm.trans hl) (by simp)

end Bank

/-! ## What a wallet has in hand -/

namespace Wallet

/-- The request a withdrawal waits at `POST /withdraw` with. -/
def asks : Op → Code database Ans → Option WithdrawRequest
  | .withdraw _, .cmd (.ext (.withdraw req)) _ => some req
  | _, _ => none

/-- The coin a withdrawal is about to store. -/
def stores : Op → Code database Ans → Option Coin
  | .withdraw _, .cmd (.stmt (.putCoin coin)) _ => some coin
  | _, _ => none

/-- What a wallet has of a withdrawal that is not in its store. -/
inductive InHand where
  | nothing
  | asking (call : CallId) (request : WithdrawRequest)
  | storing (coin : Coin)

def inHandOf (i : CallId) (op : Op) (x : Code database Ans) : InHand :=
  match asks op x, stores op x with
  | some req, _ => .asking i req
  | none, some coin => .storing coin
  | none, none => .nothing

def inHand (t : Sys (service X)) : InHand :=
  match t.current with
  | some (i, ss) => inHandOf i ss.op ss.code
  | none => .nothing

/-- What a withdrawal put in the store with this commit. -/
def storing (c : Commit database Op) : Int :=
  match c.op with
  | .withdraw _ => (c.tx.trace.map fun e =>
      match e.1 with
      | .putCoin coin => (coin.denominationCents.toNat : Int)
      | _ => 0).sum
  | _ => 0

/-- What withdrawals have ever put in the store. -/
def totalStored (hist : List (Commit database Op)) : Int := (hist.map storing).sum

/-- What an event does to call `i`, if anything: it makes one command, with this outcome, or it
    ends. -/
def turn (i : CallId) : Event (service X) → Option (Option (Fault × Oracle))
  | .start _ => none
  | .step j fault o => if j = i then some (some (fault, o)) else none
  | .drop j => if j = i then some none else none
  | .crash _ => some none

/-- A call that is here does not lose what it has in hand, or may come to have: a request that
    stands at the bank is answered with what a coin is made of, a coin gets into the store, and a
    request id is not drawn again. -/
def keepsAt (db : Bank.Tables) (op : Op) (x : Code database Ans)
    (outcome : Option (Fault × Oracle)) : Bool :=
  match op, x with
  | .withdraw amount, .cmd (.ext (.withdraw req)) k =>
    !db.stands req.requestId || outcome.any fun o => (stores (.withdraw amount) (k o.2.withdraw)).isSome
  | .withdraw _, .cmd (.stmt (.putCoin _)) _ => outcome.any fun o => decide (o.1 ≠ .before)
  | .withdraw amount, .cmd (.ext .requestId) k => outcome.all fun o =>
    (asks (.withdraw amount) (k o.2.requestId)).all fun req =>
      (db.withdrawStates.lookup req.requestId).isNone
  | _, _ => true

def keeps (db : Bank.Tables) (t : Sys (service X)) (e : Event (service X)) : Bool :=
  match t.current with
  | some (i, ss) => (turn i e).all (keepsAt db ss.op ss.code)
  | none => true

/-! ## The course of a withdrawal -/

/-- A request is made right after its id is drawn, and a coin stored right after the answer it was
    made of. -/
def Course (ds : Deeds database) : Cmd database → Prop
  | .begin => False
  | .ext (.withdraw _) => ∃ r ds', ds = ⟨.ext .requestId, r⟩ :: ds'
  | .stmt (.putCoin coin) => ∃ req response ds', ds = ⟨.ext (.withdraw req), .ok response⟩ :: ds' ∧
      coin.denominationCents = req.denominationCents
  | _ => True

theorem withdrawCoin_along {accountId : String} {keys : Table UInt64 X.PublicKey} {d : UInt64}
    {ds : Deeds database} : Prog.Along Course (fun _ _ => True) ds
      (withdrawCoin accountId keys d).run := by
  unfold withdrawCoin
  cases keys.lookup d with
  | none => exact trivial
  | some pk =>
    refine Prog.Along.perform_bind trivial fun serial => ?_
    refine Prog.Along.orThrow_bind (fun _ _ => trivial) fun serial _ => ?_
    refine Prog.Along.perform_bind trivial fun rng => ?_
    refine Prog.Along.orThrow_bind (fun _ _ => trivial) fun blinding _ => ?_
    refine Prog.Along.bind_ok (M := fun ds r => ∀ requestId, r = .ok requestId →
      ∃ bytes ds', ds = ⟨.ext Ext.requestId, bytes⟩ :: ds') ?_ (fun ds requestId hr => ?_)
      fun _ _ _ => trivial
    · refine Prog.Along.perform_bind trivial fun bytes => ?_
      refine Prog.Along.orThrow_bind (fun _ _ _ he => by cases he) fun _ _ => ?_
      exact fun _ _ => ⟨_, _, rfl⟩
    · refine Prog.Along.perform_bind (hr _ rfl) fun reply => ?_
      refine Prog.Along.orThrow_bind (fun _ _ => trivial) fun response hreply => ?_
      subst hreply
      refine Prog.Along.orThrow_bind (fun _ _ => trivial) fun signature _ => ?_
      refine Prog.Along.orThrow_bind (fun _ _ => trivial) fun _ _ => ?_
      refine ⟨⟨_, _, _, rfl, rfl⟩, fun r => ?_⟩
      cases r <;> exact trivial

theorem withdrawCoins_along {accountId : String} {keys : Table UInt64 X.PublicKey} :
    ∀ {amounts : List UInt64} {ds : Deeds database}, Prog.Along Course (fun _ _ => True) ds
      (withdrawCoins accountId keys amounts).run
  | [], _ => trivial
  | _ :: _, _ => by
    refine Prog.Along.bind_ok withdrawCoin_along (fun _ _ _ => ?_) fun _ _ _ => trivial
    exact Prog.Along.bind_ok withdrawCoins_along (fun _ _ _ => trivial) fun _ _ _ => trivial

theorem withdraw_along (amount : UInt64) :
    Prog.Along Course (fun _ _ => True) [] (code X (.withdraw amount)) := by
  refine Prog.Along.map (M := fun _ _ => True) (fun _ _ _ => trivial) ?_
  refine Prog.Along.bind_ok (M := fun _ _ => True) ?_ (fun ds accountId _ => ?_)
    fun _ _ _ => trivial
  · refine Prog.Along.query_bind trivial (fun _ => trivial) fun accountId => ?_
    cases accountId with
    | none => exact trivial
    | some accountId =>
      refine Prog.Along.perform_bind trivial fun built => ?_
      exact Prog.Along.orThrow_bind (fun _ _ => trivial) fun _ _ => trivial
  · refine Prog.Along.bind_ok (M := fun _ _ => True) ?_ (fun _ keys _ => withdrawCoins_along)
      fun _ _ _ => trivial
    refine Prog.Along.perform_bind trivial fun reply => ?_
    refine Prog.Along.orThrow_bind (fun _ _ => trivial) fun published _ => ?_
    cases parseKeys X published <;> exact trivial

/-- A withdrawal that follows its course. -/
def OnCourse (op : Op) (x : Code database Ans) : Prop :=
  ∀ amount, op = .withdraw amount → ∃ ds, Prog.Along Course (fun _ _ => True) ds x

variable {accountId : Option String} {files : Table String File} {t t' : Sys (service X)}
  {e : Event (service X)} {i : CallId}

theorem onCourse (h : Sys.Steps .any (start X accountId files) t) :
    ∀ i ss, t.live i = some ss → OnCourse ss.op ss.code := by
  refine Sys.code_of_steps (fun _ op amount hop => ?_) (fun op c k hx r amount hop => ?_) h
    fun i ss hl => by cases hl
  · subst hop
    exact ⟨[], withdraw_along amount⟩
  · obtain ⟨ds, -, hnext⟩ := hx amount hop
    exact ⟨_, hnext r⟩

/-- A withdrawal never has a transaction open. -/
theorem no_tx (h : Sys.Steps .any (start X accountId files) t) :
    ∀ i ss amount, t.live i = some ss → ss.op = .withdraw amount → ss.tx = none := by
  induction h with
  | refl => exact fun _ _ _ hl => by cases hl
  | @tail t₁ t₂ hrun hstep ih =>
    obtain ⟨e, he, -⟩ := hstep
    intro i ss amount hl hop
    cases hold : t₁.live i with
    | none =>
      rcases Sys.live_step he hl with ⟨-, op, -, rfl⟩ | hl' | ⟨_, _, _, _, _, _, hl', -⟩
      · rfl
      · exact absurd (hold.symm.trans hl') (by simp)
      · exact absurd (hold.symm.trans hl') (by simp)
    | some ss₁ =>
      rcases Sys.live_next (Sys.calls_init.steps hrun) he hold with hsame | rfl | ⟨κ, rfl⟩ |
        ⟨fault, o, rfl, hnext⟩
      · obtain rfl := Option.some.inj (hl.symm.trans hsame)
        exact ih i ss amount hold hop
      · obtain rfl := Option.some.inj he
        exact absurd hl (by simp [Sys.setLive])
      · obtain rfl := Option.some.inj he
        exact absurd hl (by simp)
      · obtain ⟨op, x, tx⟩ := ss₁
        cases x with
        | pure a =>
          simp only [Sys.step, hold] at he
          obtain rfl := Option.some.inj he
          exact absurd hl (by simp [Sys.setLive])
        | cmd c k =>
          obtain ⟨r, tx', hl', hx⟩ := hnext c k rfl
          obtain rfl := Option.some.inj (hl'.symm.trans hl)
          obtain rfl : tx = none := ih i _ amount hold hop
          obtain ⟨ds, hcourse, -⟩ := onCourse hrun i _ hold amount hop
          exact execCmd_tx_none hx fun hc => by
            subst hc
            exact hcourse

/-! ## One step of a wallet -/

/-- What a step does to what is in hand, and what it stores: a request is made, answered, given up
    where nothing stands under its id, or the coin made of the answer gets into the store. -/
inductive Moves (db : Bank.Tables) (e : Event (service X)) : InHand → InHand → Int → Prop where
  | rest (hand : InHand) : Moves db e hand hand 0
  | ask {i : CallId} {req : WithdrawRequest} (hnew : db.withdrawStates.lookup req.requestId = none) :
      Moves db e .nothing (.asking i req) 0
  | draw {i : CallId} {req : WithdrawRequest} {coin : Coin} {fault : Fault} {o : Oracle}
      {response : WithdrawResponse} (event : e = .step i fault o)
      (reply : o.withdraw = .ok response) (denom : coin.denominationCents = req.denominationCents) :
      Moves db e (.asking i req) (.storing coin) 0
  | giveUp {i : CallId} {req : WithdrawRequest} (hstands : db.stands req.requestId = false) :
      Moves db e (.asking i req) .nothing 0
  | store (coin : Coin) : Moves db e (.storing coin) .nothing coin.denominationCents.toNat

theorem storing_of_ne {c : Commit database Op} (h : ∀ amount, c.op ≠ .withdraw amount) :
    storing c = 0 := by
  unfold storing
  cases hop : c.op with
  | withdraw amount => exact absurd hop (h amount)
  | _ => rfl

theorem inHandOf_of_ne {op : Op} (h : ∀ amount, op ≠ .withdraw amount) (i : CallId)
    (x : Code database Ans) : inHandOf i op x = .nothing := by
  cases op with
  | withdraw amount => exact absurd rfl (h amount)
  | _ => rfl

theorem totalStored_step {hist hist' : List (Commit database Op)}
    (h : hist' = hist ∨ ∃ c, hist' = c :: hist ∧ storing c = 0) :
    totalStored hist' = 0 + totalStored hist := by
  rcases h with rfl | ⟨c, rfl, hc⟩
  · exact (zero_add _).symm
  · rw [totalStored, List.map_cons, List.sum_cons, hc]
    rfl

theorem asks_eq_some {op : Op} {x : Code database Ans} {req : WithdrawRequest}
    (h : asks op x = some req) : ∃ k, x = .cmd (.ext (.withdraw req)) k := by
  unfold asks at h
  split at h
  · obtain rfl := Option.some.inj h
    exact ⟨_, rfl⟩
  · cases h

theorem stores_eq_some {op : Op} {x : Code database Ans} {coin : Coin}
    (h : stores op x = some coin) : ∃ k, x = .cmd (.stmt (.putCoin coin)) k := by
  unfold stores at h
  split at h
  · obtain rfl := Option.some.inj h
    exact ⟨_, rfl⟩
  · cases h

theorem storing_single {i : CallId} {op : Op} {st : Stmt} {a : st.Res} {waits : List Row}
    {ws : List (Write Cell)} {d : Disk} (h : ∀ coin, st ≠ .putCoin coin) :
    storing ⟨i, op, Tx.empty.push st a waits ws, d⟩ = 0 := by
  cases op with
  | withdraw amount =>
    cases st with
    | putCoin coin => exact absurd rfl (h coin)
    | _ => rfl
  | _ => rfl

/-- One command of a withdrawal. -/
theorem moves_withdraw {db : Bank.Tables} {amount : UInt64} {c : Cmd database}
    {k : c.Reply → Code database Ans} {r : c.Reply} {free : Row → Bool} {fault : Fault}
    {o : Oracle} {sh sh' : State X} {tx' : Option (Tx database)}
    (hcourse : OnCourse (.withdraw amount) (.cmd c k))
    (hx : execCmd free i (.withdraw amount) fault o sh none c = some (r, sh', tx'))
    (hkeeps : keepsAt db (.withdraw amount) (.cmd c k) (some (fault, o)) = true) :
    ∃ n, Moves (X := X) db (.step i fault o) (inHandOf i (.withdraw amount) (.cmd c k))
      (inHandOf i (.withdraw amount) (k r)) n ∧
        totalStored sh'.hist = n + totalStored sh.hist := by
  obtain ⟨ds, hc, hnext⟩ := hcourse amount rfl
  have halong := hnext r
  have hasks : ∀ req, asks (.withdraw amount) (k r) = some req → c = .ext Ext.requestId := by
    intro req h
    obtain ⟨k', hk'⟩ := asks_eq_some h
    rw [hk'] at halong
    obtain ⟨r', ds', heq⟩ := halong.1
    exact congrArg Sigma.fst (List.cons.inj heq).1
  have hstores : ∀ coin, stores (.withdraw amount) (k r) = some coin → ∃ req response,
      (⟨c, r⟩ : Deed (Cmd.Reply (D := database))) = ⟨.ext (.withdraw req), .ok response⟩ ∧
        coin.denominationCents = req.denominationCents := by
    intro coin h
    obtain ⟨k', hk'⟩ := stores_eq_some h
    rw [hk'] at halong
    obtain ⟨req, response, ds', heq, hdenom⟩ := halong.1
    exact ⟨req, response, (List.cons.inj heq).1, hdenom⟩
  -- Any other command leaves nothing in hand.
  have hquiet : c ≠ .ext Ext.requestId → (∀ req, c ≠ .ext (Ext.withdraw req)) →
      inHandOf i (.withdraw amount) (k r) = .nothing := by
    intro hid hreq
    unfold inHandOf
    cases ha : asks (.withdraw amount) (k r) with
    | some req => exact absurd (hasks req ha) hid
    | none =>
      cases hst : stores (.withdraw amount) (k r) with
      | some coin =>
        obtain ⟨req, response, heq, -⟩ := hstores coin hst
        exact absurd (congrArg Sigma.fst heq) (hreq req)
      | none => rfl
  cases c with
  | begin => exact hc.elim
  | commit =>
    refine ⟨0, ?_, totalStored_step (Or.inl ?_)⟩
    · rw [hquiet (by simp) (by simp)]
      exact .rest _
    · cases hx
      rfl
  | rollback =>
    refine ⟨0, ?_, totalStored_step (Or.inl ?_)⟩
    · rw [hquiet (by simp) (by simp)]
      exact .rest _
    · cases hx
      rfl
  | stmt st =>
    have hafter := hquiet (by simp) (by simp)
    by_cases hput : ∃ coin, st = .putCoin coin
    · obtain ⟨coin, rfl⟩ := hput
      have hfault : fault ≠ .before := of_decide_eq_true hkeeps
      refine ⟨_, by rw [hafter]; exact .store coin, ?_⟩
      simp only [execCmd, execStmt, if_neg hfault] at hx
      split at hx
      · cases hx
        rfl
      · cases hx
    · have hnot : ∀ coin, st ≠ .putCoin coin := fun coin heq => hput ⟨coin, heq⟩
      have hbefore : inHandOf i (.withdraw amount) (.cmd (.stmt st) k) = .nothing := by
        cases st with
        | putCoin coin => exact absurd rfl (hnot coin)
        | _ => rfl
      refine ⟨0, by rw [hafter, hbefore]; exact .rest _, totalStored_step ?_⟩
      rcases execCmd_shared hx with ⟨-, hsame⟩ | ⟨t, rfl, ⟨hcommit, -⟩ | ⟨-, s, a, ws, heq, -, rfl⟩⟩
      · exact Or.inl hsame
      · cases hcommit
      · cases heq
        exact Or.inr ⟨_, rfl, storing_single hnot⟩
  | ext ext =>
    obtain ⟨⟨r', m⟩, hext, heq⟩ := Option.map_eq_some_iff.mp hx
    obtain ⟨rfl, hrest⟩ := Prod.mk.inj heq
    obtain ⟨rfl, -⟩ := Prod.mk.inj hrest
    cases ext with
    | withdraw req =>
      obtain ⟨rfl, rfl⟩ := Prod.mk.inj (Option.some.inj hext)
      have hnone : asks (.withdraw amount) (k o.withdraw) = none := by
        cases ha : asks (.withdraw amount) (k o.withdraw) with
        | none => rfl
        | some req' => cases hasks req' ha
      refine ⟨0, ?_, (zero_add _).symm⟩
      cases hst : stores (.withdraw amount) (k o.withdraw) with
      | some coin =>
        obtain ⟨req', response, heq, hdenom⟩ := hstores coin hst
        obtain ⟨hcmd, hreply⟩ := Sigma.mk.inj heq
        cases hcmd
        have hafter : inHandOf i (.withdraw amount) (k o.withdraw) = .storing coin := by
          rw [inHandOf, hnone, hst]
        rw [hafter]
        exact .draw rfl (eq_of_heq hreply) hdenom
      | none =>
        have hafter : inHandOf i (.withdraw amount) (k o.withdraw) = .nothing := by
          rw [inHandOf, hnone, hst]
        have hstands : db.stands req.requestId = false := by
          simpa [keepsAt, hst] using hkeeps
        rw [hafter]
        exact .giveUp hstands
    | requestId =>
      obtain ⟨rfl, rfl⟩ := Prod.mk.inj (Option.some.inj hext)
      refine ⟨0, ?_, (zero_add _).symm⟩
      cases ha : asks (.withdraw amount) (k o.requestId) with
      | some req =>
        have hnew : db.withdrawStates.lookup req.requestId = none := by
          simpa [keepsAt, ha] using hkeeps
        have hafter : inHandOf i (.withdraw amount) (k o.requestId) = .asking i req := by
          rw [inHandOf, ha]
        rw [hafter]
        exact .ask hnew
      | none =>
        have hafter : inHandOf i (.withdraw amount) (k o.requestId) = .nothing := by
          unfold inHandOf
          rw [ha]
          cases hst : stores (.withdraw amount) (k o.requestId) with
          | none => rfl
          | some coin =>
            obtain ⟨req', response, heq, -⟩ := hstores coin hst
            cases congrArg Sigma.fst heq
        rw [hafter]
        exact .rest _
    | _ =>
      refine ⟨0, ?_, (zero_add _).symm⟩
      rw [hquiet (by simp) (by simp)]
      exact .rest _

/-- A call that ends. -/
theorem moves_end {db : Bank.Tables} {op : Op} {x : Code database Ans}
    (h : (∃ a, x = .pure a) ∨ keepsAt db op x none = true) :
    Moves db e (inHandOf i op x) .nothing 0 := by
  unfold inHandOf
  cases ha : asks op x with
  | some req =>
    unfold asks at ha
    split at ha
    · obtain rfl := (Option.some.inj ha).symm
      rcases h with ⟨a, hpure⟩ | hkeeps
      · cases hpure
      · have hstands : db.stands req.requestId = false := by simpa [keepsAt] using hkeeps
        exact .giveUp hstands
    · cases ha
  | none =>
    cases hst : stores op x with
    | none => exact .rest _
    | some coin =>
      unfold stores at hst
      split at hst
      · rcases h with ⟨a, hpure⟩ | hkeeps
        · cases hpure
        · cases hkeeps
      · cases hst

/-- **One step of a wallet that keeps what it has in hand.** -/
theorem moves_step {db : Bank.Tables} (h : Sys.Steps .any (start X accountId files) t)
    (hs : t.step e = some t') (hkeeps : keeps db t e = true) :
    ∃ n, Moves db e (inHand t) (inHand t') n ∧
      totalStored t'.shared.hist = n + totalStored t.shared.hist := by
  have h' := h.tail ⟨e, hs, Policy.any_allows _ _ _⟩
  rcases Sys.current_step (Sys.calls_init.steps h) (one_live h) (one_live h') hs with
    ⟨hsame, hhist⟩ | ⟨hcur, hcur', hhist⟩ | ⟨rfl, hcur, hcur', hx⟩ | ⟨hconcerns, hcur, hcur', hhist, hlast⟩
  · refine ⟨0, ?_, totalStored_step (Or.inl hhist)⟩
    rw [inHand, inHand, hsame]
    exact .rest _
  · rename_i i op
    refine ⟨0, ?_, totalStored_step (Or.inl hhist)⟩
    have hstart : inHandOf i op (code X op) = .nothing := by
      cases op <;> rfl
    rw [inHand, inHand, hcur, hcur']
    dsimp only
    rw [hstart]
    exact .rest _
  · rename_i i op c k tx tx' r fault o
    have hl := Sys.live_of_current hcur
    rw [inHand, inHand, hcur, hcur']
    dsimp only
    by_cases hop : ∃ amount, op = .withdraw amount
    · obtain ⟨amount, rfl⟩ := hop
      obtain rfl : tx = none := no_tx h i _ amount hl rfl
      refine moves_withdraw (onCourse h i _ hl) hx ?_
      simpa [keeps, hcur, turn] using hkeeps
    · have hne : ∀ amount, op ≠ .withdraw amount := fun amount heq => hop ⟨amount, heq⟩
      rw [inHandOf_of_ne hne, inHandOf_of_ne hne]
      refine ⟨0, .rest _, totalStored_step ?_⟩
      rcases execCmd_hist hx with hsame | ⟨tx, hpush⟩
      · exact Or.inl hsame
      · exact Or.inr ⟨_, hpush, storing_of_ne hne⟩
  · rename_i i ss
    refine ⟨0, ?_, totalStored_step (Or.inl hhist)⟩
    rw [inHand, inHand, hcur, hcur']
    dsimp only
    obtain ⟨op, x, tx⟩ := ss
    have hend : (∃ a, x = .pure a) ∨ keepsAt db op x none = true := by
      cases e with
      | start op' => exact hconcerns.elim
      | step j fault o =>
        obtain rfl : j = i := hconcerns
        exact Or.inl (hlast fault o rfl)
      | drop j =>
        obtain rfl : j = i := hconcerns
        exact Or.inr (by simpa [keeps, hcur, turn] using hkeeps)
      | crash κ => exact Or.inr (by simpa [keeps, hcur, turn] using hkeeps)
    exact moves_end hend

theorem waiting_of_asking {req : WithdrawRequest} (h : inHand t = .asking i req) :
    waiting t i = some (.withdraw req) := by
  unfold inHand at h
  cases hcur : t.current with
  | none =>
    rw [hcur] at h
    cases h
  | some p =>
    obtain ⟨j, op, x, tx⟩ := p
    rw [hcur] at h
    dsimp only [inHandOf] at h
    cases ha : asks op x with
    | some req' =>
      rw [ha] at h
      obtain ⟨rfl, rfl⟩ := InHand.asking.inj h
      obtain ⟨k, rfl⟩ := asks_eq_some ha
      rw [waiting, Sys.live_of_current hcur]
    | none =>
      rw [ha] at h
      cases hst : stores op x <;> rw [hst] at h <;> cases h

/-! ## Nothing is lost -/

/-- The request there is no answer to yet. -/
def InHand.asked : InHand → Option WithdrawRequest
  | .asking _ req => some req
  | _ => none

/-- What was drawn and is not stored yet. -/
def InHand.drawn : InHand → Int
  | .storing coin => coin.denominationCents.toNat
  | _ => 0

/-- What is withdrawn from `a` and stands is in the store of the wallet, or in its hand. -/
structure Accounted (db : Bank.Tables) (a : String) (t : Sys (service X)) : Prop where
  attended : db.Attended a (inHand t).asked
  total : db.withdrawnBefore a (inHand t).asked = totalStored t.shared.hist + (inHand t).drawn

/-- What is accounted for stays so, where an answer is one the bank has given. -/
theorem Moves.accounted {db : Bank.Tables} {a : String} {hand hand' : InHand} {n total : Int}
    (h : Moves db e hand hand' n) (hattended : db.Attended a hand.asked)
    (htotal : db.withdrawnBefore a hand.asked = total + hand.drawn)
    (hreply : ∀ i req fault o response, hand = .asking i req → e = .step i fault o →
      o.withdraw = .ok response → db.Released req.requestId response.blindSignature) :
    db.Attended a hand'.asked ∧
      db.withdrawnBefore a hand'.asked = n + total + hand'.drawn := by
  cases h with
  | rest => exact ⟨hattended, by omega⟩
  | ask hnew =>
    refine ⟨hattended.ask hnew, ?_⟩
    simp only [InHand.asked, InHand.drawn, Bank.Tables.withdrawnBefore, Bank.Tables.keptUnder,
      Option.elim_some, Option.elim_none, hnew] at htotal ⊢
    omega
  | @draw i req coin fault o response event reply denom =>
    obtain ⟨row, hl, hs⟩ := hreply i req fault o response rfl event reply
    obtain ⟨hacc, hdenom⟩ := hattended.own req rfl row hl
    have hkept : db.keptUnder a req.requestId = coin.denominationCents.toNat := by
      rw [Bank.Tables.keptUnder, hl, Option.elim_some, Bank.WithdrawRow.keeps,
        if_pos ⟨hacc, hs.not_compensated⟩, (i64TryFrom_eq_some hdenom).1, denom]
    refine ⟨hattended.forget fun req' hreq row' hl' hstate => ?_, ?_⟩
    · obtain rfl := Option.some.inj hreq
      obtain rfl := Option.some.inj (hl.symm.trans hl')
      rcases hs.state with h | h <;> cases h.symm.trans hstate
    · simp only [InHand.asked, InHand.drawn, Bank.Tables.withdrawnBefore, Option.elim_some,
        Option.elim_none] at htotal ⊢
      omega
  | @giveUp i req hstands =>
    have hkept := Bank.Tables.keptUnder_of_not_stands hstands a
    refine ⟨hattended.forget fun req' hreq row hl hstate => ?_, ?_⟩
    · obtain rfl := Option.some.inj hreq
      simp [Bank.Tables.stands, hl, hstate] at hstands
    · simp only [InHand.asked, InHand.drawn, Bank.Tables.withdrawnBefore, Option.elim_some,
        Option.elim_none] at htotal ⊢
      omega
  | store coin =>
    refine ⟨hattended, ?_⟩
    simp only [InHand.asked, InHand.drawn] at htotal ⊢
    omega

end Wallet

namespace Market

variable [DecidableEq W] {π : MarketPolicy X W} {κ : Bank.Config X} {accountId : W → Option String}
  {files : W → Table String Wallet.File} {s s' : Market X W} {w : W} {a : String}

/-- The letter that the wallet waits for an answer to. -/
def awaited (s : Market X W) (w : W) : Option (Letter W) :=
  match Wallet.inHand (s.wallet w) with
  | .asking i req => some (s.letter w i (.withdraw req))
  | _ => none

/-- A debit of `a`, or under the request id that the wallet waits with, is made for the letter that
    it waits for an answer to. -/
def debitsAwaited (s : Market X W) (w : W) (a : String) (c : Commit Bank.database Bank.Op) : Bool :=
  c.tx.trace.all fun e =>
    match e.1 with
    | .insertPending r a' _ _ =>
      !(decide (a' = a ∨ (Wallet.inHand (s.wallet w)).asked.map WithdrawRequest.requestId = some r)) ||
        (s.awaited w).any fun m => decide (s.about c.call = some m)
    | _ => true

/-- **The condition under which nothing is lost**: no step of the wallet loses what it has in hand,
    and its account is debited only for what it waits for. -/
def careful (w : W) (a : String) (s : Market X W) (e : MarketEvent X W) (s' : Market X W) : Bool :=
  (match e with
    | .wallet w' e' => decide (w' ≠ w) || Wallet.keeps s.bank.shared.db (s.wallet w) e'
    | _ => true) &&
  (decide (s'.bank.shared.hist.length ≤ s.bank.shared.hist.length) ||
    s'.bank.shared.hist.head?.all (s.debitsAwaited w a))

omit [DecidableEq W] in
theorem awaited_eq_some {m : Letter W} (h : s.awaited w = some m) :
    ∃ i req, Wallet.inHand (s.wallet w) = .asking i req ∧ m = s.letter w i (.withdraw req) := by
  unfold awaited at h
  split at h
  · rename_i i req hhand
    exact ⟨i, req, hhand, (Option.some.inj h).symm⟩
  · cases h

theorem debitsAwaited_debit {c : Commit Bank.database Bank.Op} {r a' : String} {denom b : Int}
    {m : Bytes} (hc : s.debitsAwaited w a c = true)
    (htx : c.tx = (Bank.Entry.debit r a' denom m b).tx)
    (hany : a' = a ∨
      (Wallet.inHand (s.wallet w)).asked.map WithdrawRequest.requestId = some r) :
    ∃ i req, Wallet.inHand (s.wallet w) = .asking i req ∧
      s.about c.call = some (s.letter w i (.withdraw req)) := by
  have hmem : (⟨.insertPending r a' denom m, (1 : Nat)⟩ : Σ st : Bank.Stmt, st.Res) ∈ c.tx.trace := by
    rw [htx]
    exact List.mem_cons_self ..
  have hcond := List.all_eq_true.mp hc _ hmem
  simp only [decide_eq_true hany, Bool.not_true, Bool.false_or] at hcond
  obtain ⟨letter, hletter, habout⟩ := (Option.any_eq_true _ _).mp hcond
  obtain ⟨i, req, hhand, rfl⟩ := awaited_eq_some hletter
  exact ⟨i, req, hhand, of_decide_eq_true habout⟩

/-- A step of the bank. -/
theorem accounted_bank {e : Event (Bank.service X)} {t : Sys (Bank.service X)}
    (h : Steps π (start κ accountId files) s) (haccount : accountId w = some a)
    (hacc : Wallet.Accounted s.bank.shared.db a (s.wallet w)) (ht : s.bank.step e = some t)
    (hdebits : ∀ c, t.shared.hist = c :: s.bank.shared.hist → s.debitsAwaited w a c = true) :
    Wallet.Accounted t.shared.db a (s.wallet w) := by
  rcases Sys.shared_step ht with ⟨hdb, -⟩ | ⟨c, ss, hl, hop, hhist⟩
  · rw [hdb]
    exact hacc
  obtain ⟨⟨entry, htx, hv, hfrom⟩, hb, hdb⟩ :=
    (Bank.good (steps_bank h)).legal Bank.sound ht hhist
  have hafter : t.shared.db = entry.apply s.bank.shared.db := by
    rw [hdb, Commit.after, hb, htx]
    exact entry.applyWrites_tx _
  have hwanted : entry.Wanted a (Wallet.inHand (s.wallet w)).asked := by
    cases entry with
    | debit r a' denom m b =>
      intro hany
      obtain ⟨i, req, hhand, habout⟩ := debitsAwaited_debit (hdebits c hhist) htx hany
      obtain ⟨hposted, hbegun⟩ := (linked h).about _ _ habout
      have hown := posted_own h _ hposted
      rw [hop, hbegun.live ss hl] at hfrom
      obtain ⟨rfl, rfl, hdenom, -⟩ := hfrom
      exact ⟨req, by rw [hhand]; rfl, rfl, Option.some.inj (hown.symm.trans haccount), hdenom⟩
    | _ => exact trivial
  rw [hafter]
  exact ⟨Bank.Entry.attended hv hacc.attended hwanted,
    (Bank.Entry.withdrawnBefore_apply hv hacc.attended hwanted).trans hacc.total⟩

/-- What the bank has answered a wallet that waits is recorded there. -/
theorem released_of_heard (h : Steps π (start κ accountId files) s) {i : CallId}
    {req : WithdrawRequest} {o : Wallet.Oracle} {fault : Fault} {response : WithdrawResponse}
    (hwait : Wallet.waiting (s.wallet w) i = some (.withdraw req))
    (hp : s.permits w (.step i fault o) = true) (hreply : o.withdraw = .ok response) :
    s.bank.shared.db.Released req.requestId response.blindSignature := by
  simp only [permits, hwait] at hp
  have hheard : o.heard (.withdraw req) = some (.withdraw (.ok response)) := by
    rw [Wallet.Oracle.heard, hreply]
    rfl
  obtain ⟨b, hb, hans, habout⟩ := answered_of_replied ((Option.all_eq_true _ _).mp hp _ hheard)
  have hop := ((linked h).about _ _ habout).2.answered b hb rfl
  have hpost := (Bank.good (steps_bank h)).answers b hb
  change Bank.Post b.conf b.call b.op b.ans s.bank.shared at hpost
  rw [hop, hans] at hpost
  exact hpost

/-- A step of the wallet. -/
theorem accounted_wallet {e : Event (Wallet.service X)} {t : Sys (Wallet.service X)}
    (h : Steps π (start κ accountId files) s) (hacc : Wallet.Accounted s.bank.shared.db a (s.wallet w))
    (hp : s.permits w e = true) (ht : (s.wallet w).step e = some t)
    (hkeeps : Wallet.keeps s.bank.shared.db (s.wallet w) e = true) :
    Wallet.Accounted s.bank.shared.db a t := by
  obtain ⟨n, hmoves, htotal⟩ := Wallet.moves_step (steps_wallet h w) ht hkeeps
  obtain ⟨hattended, hsum⟩ := hmoves.accounted hacc.attended hacc.total
    fun i req fault o response hhand heq hreply => by
      subst heq
      exact released_of_heard h (Wallet.waiting_of_asking hhand) hp hreply
  exact ⟨hattended, htotal ▸ hsum⟩

theorem accounted (h : Steps (fun s e s' => careful w a s e s' = true) (start κ accountId files) s)
    (haccount : accountId w = some a) : Wallet.Accounted s.bank.shared.db a (s.wallet w) := by
  induction h with
  | refl =>
    refine ⟨⟨fun r row hl => ?_, fun req hreq => ?_⟩, rfl⟩
    · cases hl
    · cases hreq
  | @tail s₁ s₂ hrun hstep ih =>
    obtain ⟨e, he, hcareful⟩ := hstep
    obtain ⟨hkeeps, hdebits⟩ := (Bool.and_eq_true ..).mp hcareful
    have hdebits : ∀ c, s₂.bank.shared.hist = c :: s₁.bank.shared.hist →
        s₁.debitsAwaited w a c = true := by
      intro c hc
      rw [hc] at hdebits
      have hor := (Bool.or_eq_true ..).mp hdebits
      exact hor.resolve_left (by simp)
    cases stepped he with
    | bank ht =>
      have hbank := accounted_bank hrun haccount ih ht hdebits
      exact hbank
    | @wallet w' e t hp ht =>
      show Wallet.Accounted s₁.bank.shared.db a (Function.update s₁.wallet w' t w)
      by_cases hw : w' = w
      · subst hw
        rw [Function.update_self]
        exact accounted_wallet hrun ih hp ht (by simpa using hkeeps)
      · rw [Function.update_of_ne (Ne.symm hw)]
        exact ih
    | post _ _ => exact ih
    | deliver _ _ ht =>
      have hbank := accounted_bank hrun haccount ih ht hdebits
      exact hbank

/-- **Withdrawals lose no value where nothing in hand is lost.** Where no wallet call is in
    progress, what is withdrawn from the account and stands has all been put in the store. The
    store keeps no request id, no serial and no blinding, so there is nothing that the wallet could
    complete by asking again. -/
theorem withdrawals_stored
    (h : Steps (fun s e s' => careful w a s e s' = true) (start κ accountId files) s)
    (haccount : accountId w = some a) (hidle : (s.wallet w).Idle) :
    s.bank.shared.db.withdrawn a = Wallet.totalStored (s.wallet w).shared.hist := by
  have htotal := (accounted h haccount).total
  rw [Wallet.inHand, hidle.current] at htotal
  simp only [Bank.Tables.withdrawnBefore, Wallet.InHand.asked, Wallet.InHand.drawn,
    Option.elim_none] at htotal
  omega

/-- A bank that serves 64 cents, and a customer. -/
def customer : Market .toy Unit :=
  start ⟨⟨(∅ : Table (UInt64 × UInt8) (Keypair .toy)).put (64, 0) (some ⟨(), ()⟩)⟩, none⟩
    (fun _ => some "alice") fun _ => ∅

/-- The bank opens, the customer withdraws 64 cents, and the bank has answered. -/
def debited : List (MarketEvent .toy Unit) :=
  Bank.opened.map .bank ++ .wallet () (.start (.withdraw 64)) ::
    List.replicate 6 (.wallet () (.step 0 .none
      { denominations := .ok [⟨64, 0, []⟩], serial := .ok (toySerial 1),
        requestId := .ok ⟨List.replicate 16 7, List.length_replicate⟩ })) ++
    .post () 0 :: .deliver 0 :: (Bank.go 2 9).map .bank

/-- The customer's call hears `reply`, goes on to its end, and the process ends. -/
def concludes (reply : Except Wallet.WalletError WithdrawResponse) (n : Nat) :
    List (MarketEvent .toy Unit) :=
  List.replicate n (.wallet () (.step 0 .none { withdraw := reply })) ++ [.wallet () (.crash ())]

/-- The answer is heard. -/
theorem withdrawals_stored_one : ∃ s : Market .toy Unit,
    s.bank.shared.db.withdrawn "alice" = 64 ∧
      s.bank.shared.db.withdrawn "alice" = Wallet.totalStored (s.wallet ()).shared.hist := by
  have hrun : (customer.run (fun s e s' => careful () "alice" s e s' = true)
      (debited ++ concludes (.ok ⟨(toySerial 1).1⟩) 3)).any (fun s =>
        decide ((∀ i < (s.wallet ()).next, ((s.wallet ()).live i).isNone = true) ∧
          s.bank.shared.db.withdrawn "alice" = 64)) = true := by decide +kernel
  obtain ⟨s, hs, hp⟩ := exists_of_run hrun
  obtain ⟨hnone, hwithdrawn⟩ := of_decide_eq_true hp
  exact ⟨s, hwithdrawn, withdrawals_stored hs rfl
    ((Sys.calls_init.steps (steps_wallet hs ())).idle hnone)⟩

/-- **The answer is lost.** The account has paid 64 cents, no call is in progress, and the customer
    has written nothing at all. -/
theorem withdrawal_lost : ∃ s : Market .toy Unit, Steps .any customer s ∧ (s.wallet ()).Idle ∧
    (s.wallet ()).shared.hist = [] ∧ Wallet.totalStored (s.wallet ()).shared.hist = 0 ∧
      s.bank.shared.db.withdrawn "alice" = 64 := by
  have hrun : (customer.run .any
      (debited ++ concludes (.error (connectionReset "/withdraw")) 2)).any (fun s =>
        decide ((∀ i < (s.wallet ()).next, ((s.wallet ()).live i).isNone = true) ∧
          (s.wallet ()).shared.hist.length = 0 ∧
          s.bank.shared.db.withdrawn "alice" = 64)) = true := by decide +kernel
  obtain ⟨s, hs, hp⟩ := exists_of_run hrun
  obtain ⟨hnone, hlength, hwithdrawn⟩ := of_decide_eq_true hp
  have hhist := List.length_eq_zero_iff.mp hlength
  exact ⟨s, hs, (Sys.calls_init.steps (steps_wallet hs ())).idle hnone, hhist, by rw [hhist]; rfl,
    hwithdrawn⟩

end Market

end Digicash
