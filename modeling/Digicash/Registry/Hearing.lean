import Digicash.Purging
import Digicash.Registry.Front
import Digicash.Registry.Outcomes

/-!
# A request at the registry

What the router does with one request while nobody else is served: `verify_signed_request`
authenticates it, and its handler goes on with it. `hear` is that, and `hear_submission` says
what becomes of a signed submission: the nonce is recorded, and the submission decided as
`EndsSubmission` says.
-/

namespace Digicash.Registry

open Lib

variable {X : Crypto} {i : CallId} {op : Op} {sh : State X} {clock : UInt64} {r : Request}
  {auth : AuthHeaders}

/-- Nothing fails, and the clock says `clock`. -/
def At (clock : UInt64) : Outcomes (service X) := fun fault o _ _ => fault = .none ∧ o.clock = clock

/-! ## Authentication -/

/-- The key that the bank signs with. -/
def Registered (X : Crypto) (members : Table String MemberRow) (bankId : String) (key : Bytes) :
    Prop :=
  ∃ row, members.lookup bankId = some row ∧ row.pubkey.length = identityPublicKeyLen ∧
    X.ed25519FromBytes row.pubkey = .ok key

/-- A request that is let through: signed with the key of the member it names, in time, and
    under a fresh nonce. -/
structure Passes (X : Crypto) (db : Tables) (clock : UInt64) (r : Request) (auth : AuthHeaders) :
    Prop where
  headers : readHeaders r = .ok auth
  window : outsideWindow auth.timestamp clock = false
  signed : ∃ key signature, Registered X db.members auth.accountId key ∧
    decodeSignature auth.signature = .ok signature ∧
      X.ed25519Verify key (utf8 (r.payload X auth)) signature = .ok ()
  /-- The expiry fits the column. -/
  inRange : (clock.toNat : Int) + nonceTtlSecs.toNat ≤ i64Max
  fresh : Expiring.free db.nonceStore auth.nonce clock.toNat = true

/-- What looking at the nonce `n` does to the tables `db`, at `now`. -/
def Looked (now : UInt64) (n : String) (db db' : Tables) : Prop :=
  ∃ store, db' = db.withNonces store ∧
    Checked (now.toNat + nonceTtlSecs.toNat) now.toNat n db.nonceStore store

theorem memberPubkey_alone {bankId : String} {key : Bytes}
    (h : Registered X sh.db.members bankId key) :
    Alone.Spec (S := service X) Calm i op (fun _ => True)
      (fun found tx sh' => tx = none ∧ found = some key ∧ sh'.db = sh.db) (fun _ _ _ => False)
      (memberPubkey X bankId) none sh := by
  obtain ⟨row, hrow, hlen, hkey⟩ := h
  unfold memberPubkey
  refine Alone.Spec.read_bind_calm (fun _ db => (db.members.lookup bankId).map MemberRow.pubkey)
    (fun _ _ => rfl) trivial fun _ => ?_
  rw [hrow]
  simp only [Option.map_some]
  rw [if_pos hlen, hkey]
  exact Alone.Spec.ok ⟨rfl, rfl, rfl⟩

/-- **A request that passes is let through** as the bank it names, and its nonce is recorded. -/
theorem Passes.alone (h : Passes X sh.db clock r auth) :
    Alone.Spec (At clock) i op (fun _ => True)
      (fun bank tx sh' => tx = none ∧ bank = auth.accountId ∧ Looked clock auth.nonce sh.db sh'.db)
      (fun _ _ _ => False) (authenticate X r) none sh := by
  obtain ⟨key, signature, hregistered, hsignature, hverify⟩ := h.signed
  obtain ⟨hnow, hexpiry⟩ := NonceCall.InRange.check (n := auth.nonce) h.inRange
  unfold authenticate Digicash.authenticate
  refine Alone.Spec.orThrow_bind (fun e he => by cases h.headers.symm.trans he) fun auth' hauth => ?_
  obtain rfl := Except.ok.inj (h.headers.symm.trans hauth)
  have hkey : Alone.Spec (S := service X) (At clock) i op _ _ _ (memberPubkey X auth.accountId) none
      sh := Alone.anti (fun _ _ _ _ h => h.1) (memberPubkey_alone hregistered)
  refine Alone.Spec.bind trivial (.mapErr trivial (hkey.mono trivial (fun _ _ _ _ h => h)
    fun _ _ _ _ h => h.elim)) fun found tx sh₁ _ h₁ => ?_
  obtain ⟨rfl, rfl, hdb₁⟩ := h₁
  refine Alone.Spec.bind trivial (R := fun now tx sh' => now = clock ∧ tx = none ∧ sh'.db = sh.db)
    (.mapErr trivial ?_) fun now tx sh₂ _ h₂ => ?_
  · intro free fault o r sh' tx' hx hA
    simp only [execCmd, Option.map_eq_some_iff] at hx
    obtain ⟨⟨now, m⟩, hext, hrm⟩ := hx
    cases hext
    cases hrm
    exact ⟨trivial, hA.2, rfl, hdb₁⟩
  obtain ⟨rfl, rfl, hdb₂⟩ := h₂
  rw [if_neg (by simp [h.window])]
  refine Alone.Spec.orThrow_bind (fun e he => by cases hsignature.symm.trans he) fun found hfound => ?_
  obtain rfl := Except.ok.inj (hsignature.symm.trans hfound)
  rw [hverify]
  have hnonce : Alone.Spec (S := service X) (At now) i op _ _ _
      (checkAndRecordNonce auth.nonce now nonceTtlSecs) none sh₂ :=
    Alone.anti (fun _ _ _ _ h => h.1) (checkAndRecordNonce_alone hnow hexpiry)
  refine Alone.Spec.bind trivial (.mapErr trivial (hnonce.mono trivial (fun _ _ _ _ h => h)
    fun _ _ _ _ h => h.elim)) fun fresh tx sh₃ _ h₃ => ?_
  obtain ⟨rfl, rfl, store, hdb₃, hchecked⟩ := h₃
  rw [hdb₂] at hchecked hdb₃ ⊢
  rw [if_pos h.fresh]
  exact Alone.Spec.ok ⟨rfl, rfl, store, hdb₃, hchecked⟩

/-! ## A submission behind its handler -/

theorem postSerial_alone {caller : String} {submission : SerialSubmission}
    (hw : sh.db.WellFormed)
    (hdated : ∀ id row, sh.db.transcripts.lookup id = some row → 0 ≤ row.seenAt) :
    Alone (S := service X) (At clock) i op (fun _ => True)
      (fun a _ sh' => ∃ r, a = .postSerial (r.mapError .ofRegistry) ∧
        EndsSubmission sh.db caller submission clock r sh'.db)
      (code X (.postSerial caller submission)) none sh := by
  have hspec : Alone.Spec (S := service X) (At clock) i op (fun _ => True)
      (fun response _ sh' => EndsSubmission sh.db caller submission clock (.ok response) sh'.db)
      (fun e _ sh' => ∃ e', e = ApiError.ofRegistry e' ∧
        EndsSubmission sh.db caller submission clock (.error e') sh'.db)
      (Api.postSerial caller submission) none sh := by
    unfold Api.postSerial Api.lift
    refine Alone.Spec.bind trivial (R := fun now tx sh' => now = clock ∧ tx = none ∧ sh'.db = sh.db)
      (.mapErr trivial ?_) fun now tx sh₁ _ h₁ => ?_
    · intro free fault o r sh' tx' hx hA
      simp only [execCmd, Option.map_eq_some_iff] at hx
      obtain ⟨⟨now, m⟩, hext, hrm⟩ := hx
      cases hext
      cases hrm
      exact ⟨trivial, hA.2, rfl, rfl⟩
    obtain ⟨rfl, rfl, hdb⟩ := h₁
    have hsubmit : Alone.Spec (S := service X) (At now) i op _ _ _
        (submitSerial caller submission now) none sh₁ :=
      submitSerial_calm caller submission now (hdb ▸ hw) (hdb ▸ hdated) And.left
    rw [hdb] at hsubmit
    exact .mapErr trivial (hsubmit.mono trivial (fun _ _ _ _ h => h.2)
      fun e _ _ _ h => ⟨e, rfl, h.2⟩)
  refine Alone.Spec.answer trivial hspec (fun response _ _ _ h => ⟨.ok response, rfl, h⟩) ?_
  rintro e _ _ _ ⟨e', rfl, h⟩
  exact ⟨.error e', rfl, h⟩

/-! ## Heard -/

theorem enter_up (op : Op) (hop : op ≠ .connect) {m : Memory} (h : m.phase = .up) :
    enter op m = some m := by
  cases op with
  | connect => exact absurd rfl hop
  | _ => exact if_pos h

theorem runExt_up {ext : Ext} {o : Oracle} {m m' : Memory} {reply : ext.Res}
    (h : runExt i ext o m = some (reply, m')) (hup : m.phase = .up) : m'.phase = .up := by
  cases ext with
  | serve =>
    cases h
    rfl
  | _ =>
    cases h
    exact hup

/-- A process that serves goes on serving. -/
theorem execCmd_up {free : Row → Bool} {fault : Fault} {o : Oracle} {sh' : State X}
    {tx tx' : Option (Tx database)} {c : Cmd database} {reply : c.Reply}
    (h : execCmd free i op fault o sh tx c = some (reply, sh', tx')) (hup : sh.mem.phase = .up) :
    sh'.mem.phase = .up := by
  rcases execCmd_mem h with heq | ⟨ext, reply', -, hext⟩
  · rw [heq]
    exact hup
  · exact runExt_up (i := i) hext hup

/-- One call while the clock says `clock`. -/
def servedAt (clock : UInt64) (s : Sys (service X)) (op : Op) : Option (Ans × Sys (service X)) :=
  (Sys.serve (S := service X) (always (D := database) { clock }) op () s).map fun t => (t.1, t.2.2)

/-- What the router answers to a request for a path it wraps, while the clock says `clock`: the
    handler's answer, or how the request was refused before it got there. -/
def hear (ex : Extractors) (clock : UInt64) (s : Sys (service X)) (r : Request) :
    Option (Except ApiError (Option Ans) × Sys (service X)) :=
  if routed r.path then
    (servedAt clock s (.authenticate r)).bind fun t =>
      match t.1 with
      | .authenticate (.error e) => some (.error ⟨e.status, e.message⟩, t.2)
      | .authenticate (.ok bank) =>
        match ex.handler bank r with
        | .error e => some (.error e, t.2)
        | .ok none => some (.ok none, t.2)
        | .ok (some op) => (servedAt clock t.2 op).map fun t' => (.ok (some t'.1), t'.2)
      | _ => none
  else none

variable {s s' : Sys (service X)}

theorem servedAt_of_alone {Q : Ans → Option (Tx database) → State X → Prop} (hop : op ≠ .connect)
    (hup : s.shared.mem.phase = .up)
    (h : Alone (S := service X) (At clock) s.next op (fun _ => True) Q (code X op) none s.shared) :
    ∃ a s', servedAt clock s op = some (a, s') ∧ s'.shared.mem.phase = .up ∧
      ∃ tx, Q a tx s'.shared := by
  have hkept := Alone.keeping (K := fun sh : State X => sh.mem.phase = .up) execCmd_up hup h
  obtain ⟨a, sh, tx, hserve, hq, hup'⟩ := Sys.serve_of_alone (S := service X) (A := At clock)
    (s := s) runExt_isSome { clock } (fun _ _ => And.intro rfl rfl) (enter_up op hop hup) hkept
  exact ⟨a, _, by rw [servedAt, hserve]; rfl, hup', tx, hq⟩

theorem servedAt_steps {a : Ans} (hidle : s.Idle) (h : servedAt clock s op = some (a, s')) :
    Sys.Steps .any s s' ∧ s'.Idle := by
  obtain ⟨⟨a', u, s₁⟩, hserve, heq⟩ := Option.map_eq_some_iff.mp h
  obtain ⟨rfl, rfl⟩ := Prod.mk.inj heq
  obtain ⟨hsteps, hidle', -⟩ := Sys.serve_steps (R := fun _ _ => True)
    (fun _ _ _ _ _ => .refl) hidle hserve
  exact ⟨hsteps, hidle'⟩

/-- **A request heard is a run of the registry.** -/
theorem hear_steps {ex : Extractors} {result : Except ApiError (Option Ans)} (hidle : s.Idle)
    (h : hear ex clock s r = some (result, s')) : Sys.Steps .any s s' ∧ s'.Idle := by
  unfold hear at h
  split at h
  swap
  · exact absurd h (by simp)
  obtain ⟨⟨a, s₁⟩, hserve, h⟩ := Option.bind_eq_some_iff.mp h
  obtain ⟨hsteps, hidle₁⟩ := servedAt_steps hidle hserve
  dsimp only at h
  split at h
  · obtain ⟨-, rfl⟩ := Prod.mk.inj (Option.some.inj h)
    exact ⟨hsteps, hidle₁⟩
  · split at h
    · obtain ⟨-, rfl⟩ := Prod.mk.inj (Option.some.inj h)
      exact ⟨hsteps, hidle₁⟩
    · obtain ⟨-, rfl⟩ := Prod.mk.inj (Option.some.inj h)
      exact ⟨hsteps, hidle₁⟩
    · obtain ⟨⟨a', s₂⟩, hserve₂, heq⟩ := Option.map_eq_some_iff.mp h
      obtain ⟨-, rfl⟩ := Prod.mk.inj heq
      obtain ⟨hsteps₂, hidle₂⟩ := servedAt_steps hidle₁ hserve₂
      exact ⟨hsteps.trans hsteps₂, hidle₂⟩
  · exact absurd h (by simp)

/-- **A signed submission is heard as its bank's.** -/
theorem hear_submission {ex : Extractors} {submission : SerialSubmission}
    (h : Sys.Steps .any (start X) s) (hup : s.shared.mem.phase = .up) (hrouted : routed r.path = true)
    (hpasses : Passes X s.shared.db clock r auth)
    (hhandler : ex.handler auth.accountId r = .ok (some (.postSerial auth.accountId submission))) :
    ∃ result s' db, hear ex clock s r =
        some (.ok (some (.postSerial (result.mapError .ofRegistry))), s') ∧
      s'.shared.mem.phase = .up ∧ Looked clock auth.nonce s.shared.db db ∧
        EndsSubmission db auth.accountId submission clock result s'.shared.db := by
  have hauth : Alone (S := service X) (At clock) s.next (.authenticate r) (fun _ => True)
      (fun a _ sh' => a = .authenticate (.ok auth.accountId) ∧
        Looked clock auth.nonce s.shared.db sh'.db)
      (code X (.authenticate r)) none s.shared :=
    Alone.Spec.answer trivial hpasses.alone (fun _ _ _ _ h => ⟨by rw [h.2.1], h.2.2⟩)
      fun _ _ _ _ h => h.elim
  obtain ⟨a, s₁, hserve, hup₁, -, rfl, hlooked⟩ := servedAt_of_alone (by simp) hup hauth
  -- What the nonce check left is as well-formed as before.
  have hw : s₁.shared.db.WellFormed := by
    obtain ⟨store, hdb, -⟩ := hlooked
    rw [hdb]
    exact ⟨(good h).inv.receivable⟩
  have hdated : ∀ id row, s₁.shared.db.transcripts.lookup id = some row → 0 ≤ row.seenAt := by
    obtain ⟨store, hdb, -⟩ := hlooked
    rw [hdb]
    exact fun id row hid => seenAt_nonneg h hid
  have hpost : Alone (S := service X) (At clock) s₁.next (.postSerial auth.accountId submission)
      (fun _ => True) _ (code X (.postSerial auth.accountId submission)) none s₁.shared :=
    postSerial_alone hw hdated
  obtain ⟨a, s₂, hserve₂, hup₂, -, result, rfl, hends⟩ :=
    servedAt_of_alone (by simp) hup₁ hpost
  refine ⟨result, s₂, s₁.shared.db, ?_, hup₂, hlooked, hends⟩
  rw [hear, if_pos hrouted, hserve, Option.bind_some]
  dsimp only
  rw [hhandler]
  dsimp only
  rw [hserve₂]
  rfl

end Digicash.Registry
