import Digicash.Bank.Refinement
import Digicash.NonceKeeping
import Digicash.Registry.Refinement

/-!
# A refused request has no effect

Both servers refuse a request with a status below 500, and a deposit or a submission also with
a normal answer that says so. A caller who hears that can rely on it: his call has changed
nothing, whatever ran beside it and whichever of its messages were lost. All it may have done
is sweep out expired nonces on the way. The failures after which this is not known, a lost
acknowledgement of a commit above all, are answered with 500.
-/

namespace Digicash

open Lib

/-! ## Authentication -/

/-- The status blames the server. -/
abbrev AuthRejection.Serious (e : AuthRejection) : Prop := 500 ≤ e.status

/-- A rejection that blames the caller comes before the nonce is recorded. -/
theorem tells_authenticate {D : Database} {ε : Type} {minor : D.Stmt → Prop} {X : Crypto}
    {internal : ε → AuthRejection} {noKey : String}
    {pubkeyOf : String → Fallible D ε (Option Bytes)} {nowUnix : Fallible D ε UInt64}
    {checkAndRecordNonce : String → UInt64 → UInt64 → Fallible D ε Bool} (r : Request)
    (hinternal : ∀ e, (internal e).Serious)
    (hkey : ∀ a, TellsAlone minor (fun _ => True) (fun _ => False) (pubkeyOf a))
    (hnow : TellsAlone minor (fun _ => True) (fun _ => False) nowUnix)
    (hnonce : ∀ n now ttl, TellsAlone minor (fun _ => True) (fun fresh => fresh = true)
      (checkAndRecordNonce n now ttl)) :
    TellsEnd minor AuthRejection.Serious (fun _ => True)
      (authenticate X internal noKey pubkeyOf nowUnix checkAndRecordNonce r) := by
  refine .of_alone ?_
  unfold authenticate
  refine .bind_idle .orThrow fun auth => ?_
  refine .bind_idle (.mapErr (fun e _ => hinternal e) (hkey _)) fun found => ?_
  cases found with
  | none => exact .throw
  | some pubkey =>
    refine .bind_idle (.mapErr (fun e _ => hinternal e) hnow) fun now => ?_
    split
    · exact .throw
    refine .bind_idle .orThrow fun signature => ?_
    split
    · exact .throw
    refine .bind (.mapErr (fun e _ => hinternal e) (hnonce _ _ _)) (fun fresh hfresh => ?_)
      fun fresh => ?_
    · rw [if_pos hfresh]
      exact trivial
    · split
      · exact .pure
      · exact .throw

/-- A key that is decoded. -/
theorem tells_decoded {D : Database} {ε : Type} {minor : D.Stmt → Prop} {serious : ε → Prop}
    {R : Option Bytes → Prop} {n : Nat} {key : Except ε Bytes} {e : ε} :
    TellsAlone minor serious R (if n = identityPublicKeyLen then do
      let key ← orThrow key
      pure (some key)
    else throw e : Fallible D ε (Option Bytes)) := by
  split
  · exact .bind_idle .orThrow fun _ => .pure
  · exact .throw

/-! ## The bank -/

namespace Bank

variable {X : Crypto} {κ : Config X} {s : Sys (service X)}

/-- The status blames the server. -/
abbrev BankError.Serious (e : BankError) : Prop := 500 ≤ e.status

/-- The answer refuses the request. -/
def Ans.Refuses : Ans → Prop
  | .connect _ => False
  | .createAccount r => ∃ e, r = .error e ∧ e.status < 500
  | .balance r => ∃ e, r = .error e ∧ e.status < 500
  | .registerIdentity r => ∃ e, r = .error e ∧ e.status < 500
  | .authenticate r => ∃ e, r = .error e ∧ e.status < 500
  | .withdraw r => ∃ e, r = .error e ∧ e.status < 500
  | .deposit r => (∃ e, r = .error e ∧ e.status < 500) ∨ ∃ response, r = .ok response ∧
      response.accepted = false

/-- Outside a transaction. -/
abbrev Tells {α : Type} (R : α → Prop) (x : BankM α) : Prop :=
  TellsAlone nonces.Sweeps BankError.Serious R x

theorem serious_sql (e : SqlError) : BankError.Serious (fromSql e) := Nat.le_refl 500

/-- A statement that only reads. -/
theorem tells_read {s : Stmt} {R : s.Res → Prop}
    (h : ∀ o db a ws, (exec s o db).result = .ok (a, ws) → ws = []) : Tells R (sql s) :=
  .query serious_sql fun o db a ws hres hws => absurd (h o db a ws hres) hws

/-! ### Withdrawals -/

theorem says_setState (r : String) (state : WithdrawState) :
    (setState r state).run.Results (Says BankError.Serious fun _ => True) :=
  says_bind (says_query serious_sql) fun _ _ => trivial

/-- Once there is a key, finalizing fails only seriously. -/
theorem says_finalizeWithdraw {r a : String} {denom : UInt64} {m : Bytes} {keypair : Keypair X}
    (h : κ.keys.get denom schemeIdRsaDeterministic = some keypair) :
    (finalizeWithdraw κ r a denom m).run.Results (Says BankError.Serious fun _ => True) := by
  unfold finalizeWithdraw
  rw [h]
  dsimp only
  split
  · refine says_bind (says_query serious_sql) fun _ _ => ?_
    exact says_bind (says_setState r .completed) fun _ _ => trivial
  · refine says_bind (P := fun _ => True) ?_ fun _ _ => Nat.le_refl 500
    unfold compensate toI64
    refine says_bind (P := fun _ => True) ?_ fun denom _ => says_transaction serious_sql ?_
    · split
      · trivial
      · exact Nat.le_refl 500
    · exact says_bind (says_query serious_sql) fun _ _ =>
        says_bind (says_query serious_sql) fun _ _ => trivial

theorem tells_loadRecord (r : String) : Tells (fun _ => False) (loadRecord r) := by
  unfold loadRecord
  refine .bind_idle (tells_read fun o db a ws hres => ?_) fun found => ?_
  · cases hres
    rfl
  · cases found with
    | none => exact .pure
    | some row => exact .bind_idle .orThrow fun _ => .pure

theorem tells_debitAndRecordPending (req : WithdrawRequest) :
    Tells (fun _ => True) (debitAndRecordPending req) := by
  unfold debitAndRecordPending
  refine .bind_idle .orThrow fun denom => .transaction serious_sql ?_ ?_
  · refine .bind .query fun found => ?_
    cases found with
    | none => exact .throw
    | some balance =>
      dsimp only
      split
      · exact .bind .orThrow fun _ => .throw
      · exact .bind .query fun _ => .bind .query fun _ => .pure
  · exact Prog.Results.mono (fun _ _ _ _ => trivial) .trivial

/-- Finalizing, with nothing after it but the answer. -/
theorem tells_finalizeWithdraw (r a : String) (denom : UInt64) (m : Bytes) :
    TellsEnd nonces.Sweeps BankError.Serious (fun _ => True) (do
      let signature ← finalizeWithdraw κ r a denom m
      pure (⟨signature⟩ : WithdrawResponse)) := by
  cases h : κ.keys.get denom schemeIdRsaDeterministic with
  | none =>
    unfold finalizeWithdraw
    rw [h]
    exact trivial
  | some keypair => exact .of_results (says_bind (says_finalizeWithdraw h) fun _ _ => trivial)

theorem tells_withdraw (req : WithdrawRequest) :
    TellsEnd nonces.Sweeps BankError.Serious (fun _ => True) (withdraw κ req) := by
  unfold withdraw
  refine .bind_idle (tells_loadRecord _) fun found => ?_
  cases found with
  | some record =>
    show TellsEnd nonces.Sweeps BankError.Serious (fun _ => True) (resumeWithdraw κ req.requestId record)
    unfold resumeWithdraw
    -- A signature that is stored is handed out, after one statement at most.
    have hstored : ∀ signature, TellsEnd nonces.Sweeps BankError.Serious (fun _ => True) (do
        setState req.requestId .completed
        pure (⟨signature⟩ : WithdrawResponse)) := fun signature =>
      .of_results (says_bind (says_setState req.requestId .completed) fun _ _ => trivial)
    have hresult : ∀ {p : Prop} [Decidable p] {signature : Bytes},
        TellsEnd nonces.Sweeps BankError.Serious (fun _ => True) (if p then do
          setState req.requestId .completed
          pure (⟨signature⟩ : WithdrawResponse)
        else pure ⟨signature⟩) := by
      intro p _ signature
      split
      · exact hstored signature
      · exact .of_alone .pure
    split
    · split
      · exact .of_alone .throw
      · exact hresult
    · split
      · exact .of_alone .throw
      · exact hresult
    · exact tells_finalizeWithdraw ..
    · exact .of_alone .throw
  | none =>
    dsimp only
    split
    · exact .of_alone .throw
    · rename_i keypair hget
      exact .bind (tells_debitAndRecordPending req)
        (fun _ _ => says_bind (says_finalizeWithdraw hget) fun _ _ => trivial)
        fun _ => tells_finalizeWithdraw ..

/-! ### Deposits -/

theorem tells_commitDeposit (req : DepositRequest) :
    Tells (fun outcome => outcome = .accepted) (commitDeposit req) := by
  unfold commitDeposit
  refine .bind_idle .orThrow fun denom => .transaction serious_sql ?_ ?_
  · refine .bind .query fun prior => ?_
    cases prior with
    | some prior =>
      dsimp only
      split
      · exact .pure
      · exact .pure
    | none =>
      refine .bind .query fun inserted => ?_
      split
      · exact .pure
      refine .bind .query fun credited => ?_
      split
      · exact .pure
      · exact .bind .query fun _ => .pure
  · refine results_bind (fun _ _ h => by cases h) fun prior => ?_
    cases prior with
    | some prior =>
      dsimp only
      split <;> exact fun _ h => by cases h
    | none =>
      refine results_bind (fun _ _ h => by cases h) fun inserted => ?_
      split
      · exact fun _ h => by cases h
      refine results_bind (fun _ _ h => by cases h) fun credited => ?_
      split
      · exact fun _ h => by cases h
      · refine results_bind (fun _ _ h => by cases h) fun _ a h => ?_
        cases h
        rfl

theorem tells_depositLocally (req : DepositRequest) :
    Tells (fun response => response.accepted = true) (depositLocally req) := by
  refine .bind (tells_commitDeposit req) (fun outcome h => ?_) fun _ => .pure
  subst h
  exact rfl

theorem tells_deposit (req : DepositRequest) :
    Tells (fun response => response.accepted = true) (deposit κ req) := by
  unfold deposit
  dsimp only
  split
  · exact .pure
  split
  · exact .pure
  split
  · exact .pure
  split
  · exact tells_depositLocally req
  · refine .bind_idle .perform fun now => .bind_idle ?_ fun outcome => ?_
    · exact .bind_idle .perform fun reply => .bind_idle .orThrow fun response => .pure
    · cases outcome with
      | accepted => exact tells_depositLocally req
      | doubleSpend => exact .pure
      | exposureCapExceeded => exact .pure

/-! ### The other requests -/

theorem tells_createAccount (a : String) (b : UInt64) :
    Tells (fun _ => True) (createAccount a b) := by
  refine .bind_idle .orThrow fun balance =>
    .inserted (.query serious_sql fun o db n ws hres hws => ?_) trivial
  simp only [exec] at hres
  split at hres
  · cases hres
    exact absurd rfl hws
  · split at hres
    · cases hres
    · cases hres
      rfl

theorem tells_registerIdentity (a : String) (k : Bytes) :
    Tells (fun _ => True) (registerIdentity a k) := by
  refine .inserted (.query serious_sql fun o db n ws hres hws => ?_) trivial
  simp only [exec] at hres
  split at hres
  · cases hres
    exact absurd rfl hws
  · cases hres
    rfl

theorem tells_balance (a : String) : Tells (fun _ => True) (balance a) := by
  unfold balance
  refine .bind_idle (tells_read fun o db a ws hres => ?_) fun found => ?_
  · cases hres
    rfl
  · cases found with
    | none => exact .pure
    | some n => exact .bind_idle .orThrow fun _ => .pure

theorem tells_identityPubkey (a : String) : TellsAlone nonces.Sweeps (fun _ => True)
    (fun _ => False) (identityPubkey X a) := by
  refine .bind_idle (.query (fun _ => trivial) fun o db found ws hres hws => ?_) fun found => ?_
  · cases hres
    exact absurd rfl hws
  cases found with
  | none => exact .pure
  | some bytes => exact tells_decoded

/-- Whatever an operation may have committed, it is not answered with a refusal. -/
theorem tells_code (op : Op) :
    Lib.Tells nonces.Sweeps (fun _ _ => True) (fun a => ¬ a.Refuses) false (code κ op) := by
  cases op with
  | connect => exact .map (P := fun _ => True) (fun _ _ h => h) (.of_results .trivial)
  | createAccount a b => exact .answer (.of_alone (tells_createAccount a b)) fun _ h => h.not_below
  | balance a => exact .answer (.of_alone (tells_balance a)) fun _ h => h.not_below
  | registerIdentity a k => exact .answer (.of_alone (tells_registerIdentity a k)) fun _ h => h.not_below
  | authenticate r =>
    exact .answer (tells_authenticate r (fun _ => Nat.le_refl 500) tells_identityPubkey .perform
      (NonceKeeping.tells_check (K := nonces))) fun _ h => h.not_below
  | withdraw req => exact .answer (tells_withdraw req) fun _ h => h.not_below
  | deposit req =>
    refine .answer (.of_alone (tells_deposit req)) fun r hr => ?_
    rintro (h | ⟨response, rfl, hresponse⟩)
    · exact hr.not_below h
    · exact absurd (hr.symm.trans hresponse) (by simp)

/-- The transaction did nothing but delete nonces that had expired by some time. -/
abbrev Swept (c : Commit database Op) : Prop := nonces.Swept c

theorem swept_of_minor {π : Policy (service X)} (h : Sys.Steps π (start κ) s) :
    ∀ c ∈ s.shared.hist, Commit.Minor (D := database) nonces.Sweeps c → Swept c := by
  refine of_commits h ?_
  rintro κ db mem call op e hv - ⟨st, a, htrace, now, rfl⟩
  cases e with
  | purge now' expired => exact .of_writes rfl fun n hn => (hv n).mp hn
  | _ => cases htrace

/-- **A request the bank refuses has no effect.** In every run, whatever else goes on and
    whatever is lost: a call that was answered with a status below 500, or a deposit with
    `accepted: false`, has committed nothing but a sweep of expired nonces. -/
theorem refused_no_effect {π : Policy (service X)} (h : Sys.Steps π (start κ) s)
    {a : Answer (service X)} (ha : a ∈ s.answers) (hrefused : a.ans.Refuses) :
    ∀ c ∈ s.shared.hist, c.call = a.call → Swept c := by
  intro c hc hcall
  by_contra hnot
  exact Sys.told (S := service X) (Q := fun _ (a : Ans) => ¬ a.Refuses) (fun _ op => tells_code op)
    h c hc (fun hminor => hnot (swept_of_minor h c hc hminor)) a ha hcall.symm hrefused

/-- A withdrawal of more than there is. -/
theorem refused_no_effect_overdrawn : ∃ s : Sys (service .toy), ∃ a ∈ s.answers,
    a.ans = .withdraw (.error (.insufficientBalance "alice" 50 100)) ∧
      ∀ c ∈ s.shared.hist, c.call = a.call → Swept c := by
  obtain ⟨s, hs, hp⟩ := Sys.exists_of_run (s := start Config.toy)
    (l := call .connect :: go 0 5 ++ call (.createAccount "alice" 50) :: go 1 2 ++
      call (.withdraw ⟨"alice", "r", 100, [7]⟩) :: go 2 5)
    (p := fun s => s.answers.any fun a =>
      decide (a.ans = .withdraw (.error (.insufficientBalance "alice" 50 100)))) (by decide)
  obtain ⟨a, ha, hans⟩ := List.any_eq_true.mp hp
  have hans := of_decide_eq_true hans
  refine ⟨s, a, ha, hans, refused_no_effect hs ha ?_⟩
  rw [hans]
  exact ⟨_, rfl, by decide⟩

end Bank

/-! ## The registry -/

namespace Registry

variable {X : Crypto} {s : Sys (service X)}

/-- The status blames the server. -/
abbrev ApiError.Serious (e : ApiError) : Prop := 500 ≤ e.status

/-- So does the status it becomes in a response. -/
abbrev RegistryError.Serious (e : RegistryError) : Prop := (ApiError.ofRegistry e).Serious

/-- The answer refuses the request. -/
def Ans.Refuses : Ans → Prop
  | .connect _ => False
  | .registerMember r => ∃ e, r = .error e ∧ (ApiError.ofRegistry e).status < 500
  | .authenticate r => ∃ e, r = .error e ∧ e.status < 500
  | .postMember r => ∃ e, r = .error e ∧ e.status < 500
  | .postSerial r => (∃ e, r = .error e ∧ e.status < 500) ∨ ∃ response, r = .ok response ∧
      response.outcome = .exposureCapExceeded
  | .postCap r => ∃ e, r = .error e ∧ e.status < 500
  | .postSettle r => ∃ e, r = .error e ∧ e.status < 500

/-- Outside a transaction. -/
abbrev Tells {α : Type} (R : α → Prop) (x : RegistryM α) : Prop :=
  TellsAlone nonces.Sweeps RegistryError.Serious R x

abbrev TellsApi {α : Type} (R : α → Prop) (x : ApiM α) : Prop :=
  TellsAlone nonces.Sweeps ApiError.Serious R x

theorem serious_sql (e : SqlError) : RegistryError.Serious (fromSql e) := Nat.le_refl 500

theorem tells_lift {α : Type} {R : α → Prop} {x : RegistryM α} (h : Tells R x) :
    TellsApi R (Api.lift x) := .mapErr (fun _ h => h) h

theorem tells_memberPubkey (b : String) : TellsAlone nonces.Sweeps (fun _ => True)
    (fun _ => False) (memberPubkey X b) := by
  refine .bind_idle (.query (fun _ => trivial) fun o db found ws hres hws => ?_) fun found => ?_
  · cases hres
    exact absurd rfl hws
  cases found with
  | none => exact .pure
  | some bytes => exact tells_decoded

theorem tells_registerMember (b : String) (k : Bytes) (admin : Bool) :
    Tells (fun _ => True) (registerMember b k admin) := by
  refine .inserted (.query serious_sql fun o db n ws hres hws => ?_) trivial
  simp only [exec] at hres
  split at hres
  · cases hres
    exact absurd rfl hws
  · cases hres
    rfl

theorem tells_ensureAdmin (caller : String) : TellsApi (fun _ => False) (Api.ensureAdmin caller) := by
  refine .bind_idle (tells_lift ?_) fun admin => ?_
  · refine .bind_idle (.query serious_sql fun o db b ws hres hws => ?_) fun _ => .pure
    cases hres
    exact absurd rfl hws
  · split
    · exact .pure
    · exact .throw

theorem tells_setCap (pair : Pair) (cap : UInt64) : Tells (fun _ => True) (setCap pair cap) :=
  .bind_idle .orThrow fun _ => .bind (P := fun _ => True)
    (.query serious_sql fun _ _ _ _ _ _ => trivial) (fun _ _ => trivial) fun _ => .pure

/-- A submission that was blocked by the cap has left nothing. -/
theorem tells_submitSerial (caller : String) (submission : SerialSubmission) (now : UInt64) :
    Tells (fun response => response.outcome ≠ .exposureCapExceeded)
      (submitSerial caller submission now) := by
  unfold submitSerial
  refine .bind_idle .orThrow fun denom => .bind_idle .orThrow fun seen =>
    .transaction serious_sql ?_ ?_
  · refine .bind ?_ fun reached => ?_
    · refine .bind .query fun cap => ?_
      cases cap with
      | none => exact .pure
      | some cap => exact .bind .query fun _ => .pure
    split
    · exact .pure
    refine .bind .query fun _ => .bind .query fun inserted => ?_
    split
    · exact .bind .query fun _ => .pure
    · exact .bind .query fun rows => .bind .orThrow fun _ => .pure
  · refine results_bind (fun _ _ h => by cases h) fun reached => ?_
    split
    · exact fun _ h => by cases h
    refine results_bind (fun _ _ h => by cases h) fun _ =>
      results_bind (fun _ _ h => by cases h) fun inserted => ?_
    split
    · refine results_bind (fun _ _ h => by cases h) fun _ a h => ?_
      cases h
      exact fun h => by cases h
    · refine results_bind (fun _ _ h => by cases h) fun rows =>
        results_bind (fun _ _ h => by cases h) fun entries a h => ?_
      cases h
      exact fun h => by cases h

theorem tells_settlePairs (amounts : List (Pair × Int)) (windowEnd : Int) (now : UInt64) :
    ∀ todo done, TellsWithin nonces.Sweeps (settlePairs amounts windowEnd now todo done) := by
  intro todo
  induction todo with
  | nil => exact fun _ => .pure
  | cons first todo ih =>
    intro done
    obtain ⟨pair, forward⟩ := first
    unfold settlePairs
    split
    · exact ih done
    dsimp only
    split
    · exact ih _
    · exact .bind .query fun _ => .bind .orThrow fun _ => .bind (ih _) fun _ => .pure

theorem tells_settle (now : UInt64) : Tells (fun _ => True) (settle now) := by
  unfold settle
  refine .bind_idle .orThrow fun windowEnd => .transaction serious_sql ?_ ?_
  · exact .bind .query fun amounts => .bind (tells_settlePairs ..) fun _ => .bind .query fun _ => .pure
  · exact Prog.Results.mono (fun _ _ _ _ => trivial) .trivial

/-- Whatever an operation may have committed, it is not answered with a refusal. -/
theorem tells_code (op : Op) :
    Lib.Tells nonces.Sweeps (fun _ _ => True) (fun a => ¬ a.Refuses) false (code X op) := by
  cases op with
  | connect => exact .map (P := fun _ => True) (fun _ _ h => h) (.of_results .trivial)
  | registerMember b k admin => exact .answer (.of_alone (tells_registerMember b k admin)) fun _ h => h.not_below
  | authenticate r =>
    exact .answer (tells_authenticate r (fun _ => Nat.le_refl 500) tells_memberPubkey .perform
      (NonceKeeping.tells_check (K := nonces))) fun _ h => h.not_below
  | postMember caller req =>
    exact .answer (.of_alone (.bind_idle (tells_ensureAdmin caller) fun _ =>
      .bind_idle .orThrow fun pubkey => tells_lift (tells_registerMember _ pubkey false)))
        fun _ h => h.not_below
  | postSerial caller submission =>
    refine .answer (.of_alone (.bind_idle (tells_lift .perform) fun now =>
      tells_lift (tells_submitSerial caller submission now))) fun r hr => ?_
    rintro (h | ⟨response, rfl, hresponse⟩)
    · exact hr.not_below h
    · exact hr hresponse
  | postCap caller req =>
    exact .answer (.of_alone (.bind_idle (tells_ensureAdmin caller) fun _ =>
      tells_lift (tells_setCap _ req.capCents))) fun _ h => h.not_below
  | postSettle caller =>
    exact .answer (.of_alone (.bind_idle (tells_ensureAdmin caller) fun _ =>
      .bind_idle (tells_lift .perform) fun now => tells_lift (tells_settle now)))
        fun _ h => h.not_below

/-- The transaction did nothing but delete nonces that had expired by some time. -/
abbrev Swept (c : Commit database Op) : Prop := nonces.Swept c

theorem swept_of_minor {π : Policy (service X)} (h : Sys.Steps π (start X) s) :
    ∀ c ∈ s.shared.hist, Commit.Minor (D := database) nonces.Sweeps c → Swept c := by
  refine of_commits h ?_
  rintro db call op e hv - ⟨st, a, htrace, now, rfl⟩
  cases e with
  | purge now' expired => exact .of_writes rfl fun n hn => (hv n).mp hn
  | _ => cases htrace

/-- **A request the registry refuses has no effect.** In every run: a call that was answered with
    a status below 500, or a submission that the exposure cap blocked, has committed nothing but a
    sweep of expired nonces. It leaves no transcript either. -/
theorem refused_without_effect {π : Policy (service X)} (h : Sys.Steps π (start X) s)
    {a : Answer (service X)} (ha : a ∈ s.answers) (hrefused : a.ans.Refuses) :
    ∀ c ∈ s.shared.hist, c.call = a.call → Swept c := by
  intro c hc hcall
  by_contra hnot
  exact Sys.told (S := service X) (Q := fun _ (a : Ans) => ¬ a.Refuses) (fun _ op => tells_code op)
    h c hc (fun hminor => hnot (swept_of_minor h c hc hminor)) a ha hcall.symm hrefused

/-- A submission from a pair whose cap is zero. -/
theorem refused_without_effect_capped : ∃ s : Sys (service .toy), ∃ a ∈ s.answers,
    a.ans = .postSerial (.ok ⟨.exposureCapExceeded, []⟩) ∧
      ∀ c ∈ s.shared.hist, c.call = a.call → Swept c := by
  obtain ⟨s, hs, hp⟩ := Sys.exists_of_run (s := start .toy)
    (l := opened ++ call (.postCap "admin" ⟨"bank-a", "bank-b", 0⟩) :: go 2 3 ++
      call (.postSerial "bank-b" ⟨"bank-a", 100, 0, "00", "t"⟩) :: go 3 6)
    (p := fun s => s.answers.any fun a =>
      decide (a.ans = .postSerial (.ok ⟨.exposureCapExceeded, []⟩))) (by decide)
  obtain ⟨a, ha, hans⟩ := List.any_eq_true.mp hp
  have hans := of_decide_eq_true hans
  refine ⟨s, a, ha, hans, refused_without_effect hs ha ?_⟩
  rw [hans]
  exact Or.inr ⟨_, rfl, rfl⟩

end Registry

end Digicash
