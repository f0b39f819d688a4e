import Digicash.Bank.Undisturbed
import Digicash.Purging

/-!
# The nonces of different accounts

The nonce store has one row for a nonce, whoever presented it. So what is decided about a request
of one account depends on the requests of the others in one way only: one of them had its nonce
accepted, and it has not expired yet. Everything else a request is judged by is in the request,
the registered keys and the clock, and that others make the store purge is not seen as long as
the clock does not go back.
-/

namespace Digicash.Bank

open Lib

variable {X : Crypto} {keys : Table String Bytes} {clock : UInt64}

/-- Nothing fails, and the clock says `clock`. -/
def At (clock : UInt64) : Outcomes (service X) := fun fault o _ _ => fault = .none ∧ o.clock = clock

/-! ## Code whose result depends on the keys and the clock alone -/

/-- By itself, `x` comes to `v` and changes no table. -/
def Steady {ε α : Type} (X : Crypto) (keys : Table String Bytes) (clock : UInt64)
    (x : Fallible database ε α) (v : Except ε α) : Prop :=
  ∀ (i : CallId) (op : Op) (sh : State X), sh.db.identities = keys →
    Alone (At clock) i op (fun _ => True)
      (fun r tx sh' => tx = none ∧ r = v ∧ sh'.db = sh.db) x.run none sh

namespace Steady

variable {ε α β : Type} {x : Fallible database ε α} {f : α → Fallible database ε β}

/-- What comes after such code. -/
theorem next {r : Except ε α} {i : CallId} {op : Op} {sh : State X}
    {Q : Except ε β → Option (Tx database) → State X → Prop} (h : Steady X keys clock x r)
    (hkeys : sh.db.identities = keys)
    (hnext : ∀ sh' : State X, sh'.db = sh.db →
      Alone (At clock) i op (fun _ => True) Q (ExceptT.bindCont f r) none sh') :
    Alone (At clock) i op (fun _ => True) Q (x >>= f).run none sh := by
  refine Alone.bind (fun r' tx sh' _ h' => ?_) trivial (h i op sh hkeys)
  obtain ⟨rfl, rfl, hdb⟩ := h'
  exact hnext sh' hdb

theorem bind {a : α} {v : Except ε β} (h : Steady X keys clock x (.ok a))
    (hf : Steady X keys clock (f a) v) : Steady X keys clock (x >>= f) v := by
  intro i op sh hkeys
  refine h.next hkeys fun sh' hdb => ?_
  refine Alone.mono (fun r tx sh'' _ hr => ?_) trivial (hf i op sh' (hdb ▸ hkeys))
  exact ⟨hr.1, hr.2.1, hr.2.2.trans hdb⟩

theorem error {e : ε} (h : Steady X keys clock x (.error e)) :
    Steady X keys clock (x >>= f) (.error e) := by
  intro i op sh hkeys
  exact h.next hkeys fun sh' hdb => ⟨rfl, rfl, hdb⟩

theorem orThrow (v : Except ε α) : Steady X keys clock (orThrow v) v :=
  fun _ _ _ _ => ⟨rfl, rfl, rfl⟩

theorem throw (e : ε) : Steady X keys clock (throw e : Fallible database ε α) (.error e) :=
  fun _ _ _ _ => ⟨rfl, rfl, rfl⟩

theorem pure (a : α) : Steady X keys clock (pure a : Fallible database ε α) (.ok a) :=
  fun _ _ _ _ => ⟨rfl, rfl, rfl⟩

/-- It fails the same way whatever there is, or all of `x >>= f` hangs on `P`. -/
theorem first {v : Except ε α} {P : Prop} (h : Steady X keys clock x v)
    (hf : ∀ a, v = .ok a → (∃ e, Steady X keys clock (f a) (.error e)) ∨ P) :
    (∃ e, Steady X keys clock (x >>= f) (.error e)) ∨ P := by
  cases v with
  | error e => exact Or.inl ⟨e, h.error⟩
  | ok a => exact (hf a rfl).imp_left fun ⟨e, he⟩ => ⟨e, h.bind he⟩

theorem mapErr {ε' : Type} {g : ε → ε'} {v : Except ε α} (h : Steady X keys clock x v) :
    Steady X keys clock (mapErr g x) (v.mapError g) := by
  intro i op sh hkeys
  refine Alone.bind (f := fun r : Except ε α => Prog.pure (r.mapError g)) (fun r tx sh' _ hr => ?_)
    trivial (h i op sh hkeys)
  obtain ⟨rfl, rfl, hdb⟩ := hr
  exact ⟨rfl, rfl, hdb⟩

theorem selectPubkey (account : String) :
    Steady X keys clock (sql (.selectPubkey account)) (.ok (keys.lookup account)) := by
  intro i op sh hkeys
  have hspec : Alone.Spec (S := service X) Calm i op (fun _ => True)
      (fun found tx sh' => tx = none ∧ found = keys.lookup account ∧ sh'.db = sh.db)
      (fun _ _ _ => False) (sql (.selectPubkey account) >>= Pure.pure) none sh := by
    refine Alone.Spec.read_bind_calm (fun _ db => db.identities.lookup account) (fun _ _ => rfl)
      trivial fun _ => ?_
    exact Alone.Spec.ok ⟨rfl, by rw [hkeys], rfl⟩
  rw [query_bind_pure] at hspec
  refine Alone.anti (fun _ _ _ _ h => h.1) (Alone.mono (fun r tx sh' _ hr => ?_) trivial hspec)
  cases r with
  | ok found => exact ⟨hr.1, congrArg Except.ok hr.2.1, hr.2.2⟩
  | error e => exact hr.elim

theorem nowUnix : Steady X keys clock nowUnix (.ok clock) := by
  intro i op sh _ free fault o r sh' tx' hx hA
  simp only [execCmd, Option.map_eq_some_iff] at hx
  obtain ⟨⟨now, m⟩, hext, hrm⟩ := hx
  cases hext
  cases hrm
  exact ⟨trivial, rfl, congrArg Except.ok hA.2, rfl⟩

end Steady

/-- The key `account` signs with. -/
def Registered (X : Crypto) (keys : Table String Bytes) (account : String) (key : Bytes) : Prop :=
  ∃ bytes, keys.lookup account = some bytes ∧ bytes.length = identityPublicKeyLen ∧
    X.ed25519FromBytes bytes = .ok key

theorem identityPubkey_steady (X : Crypto) (keys : Table String Bytes) (clock : UInt64)
    (account : String) : ∃ v, Steady X keys clock (identityPubkey X account) v ∧
      ∀ key, v = .ok (some key) ↔ Registered X keys account key := by
  unfold identityPubkey
  cases hl : keys.lookup account with
  | none =>
    refine ⟨.ok none, .bind (.selectPubkey account) ?_, fun key => ?_⟩
    · rw [hl]
      exact .pure none
    · refine ⟨fun h => by (cases h), fun ⟨bytes, hbytes, _⟩ => ?_⟩
      exact absurd (hl.symm.trans hbytes) (by simp)
  | some bytes =>
    have hsame : ∀ {bytes'}, keys.lookup account = some bytes' → bytes' = bytes := fun h =>
      (Option.some.inj (hl.symm.trans h)).symm
    by_cases hlen : bytes.length = identityPublicKeyLen
    · cases hkey : X.ed25519FromBytes bytes with
      | error e =>
        refine ⟨.error (.core (.identityPublicKeyInvalid e)), .bind (.selectPubkey account) ?_,
          fun key => ?_⟩
        · rw [hl]
          dsimp only
          rw [if_pos hlen, hkey]
          exact .error (.orThrow _)
        · refine ⟨fun h => by (cases h), fun ⟨bytes', hbytes', _, hok⟩ => ?_⟩
          rw [hsame hbytes', hkey] at hok
          cases hok
      | ok key =>
        refine ⟨.ok (some key), .bind (.selectPubkey account) ?_, fun key' => ?_⟩
        · rw [hl]
          dsimp only
          rw [if_pos hlen, hkey]
          exact .bind (.orThrow _) (.pure _)
        · refine ⟨fun h => ?_, fun ⟨bytes', hbytes', _, hok⟩ => ?_⟩
          · obtain rfl := Option.some.inj (Except.ok.inj h)
            exact ⟨bytes, hl, hlen, hkey⟩
          · rw [hsame hbytes', hkey] at hok
            rw [Except.ok.inj hok]
    · refine ⟨.error (.malformedIdentity account ("registered key is " ++ toString bytes.length ++
          " bytes, expected 32")), .bind (.selectPubkey account) ?_, fun key => ?_⟩
      · rw [hl]
        dsimp only
        rw [if_neg hlen]
        exact .throw _
      · refine ⟨fun h => by (cases h), fun ⟨bytes', hbytes', hlen', _⟩ => ?_⟩
        exact absurd (hsame hbytes' ▸ hlen') hlen

/-! ## What a request is judged by -/

/-- A request that gets as far as its nonce: it is signed with the key of the account it names,
    and in time. -/
structure Passes (X : Crypto) (keys : Table String Bytes) (clock : UInt64) (r : Request)
    (auth : AuthHeaders) : Prop where
  headers : readHeaders r = .ok auth
  window : outsideWindow auth.timestamp clock = false
  signed : ∃ key signature, Registered X keys auth.accountId key ∧
    decodeSignature auth.signature = .ok signature ∧
      X.ed25519Verify key (utf8 (r.payload X auth)) signature = .ok ()
  /-- The expiry fits the column. -/
  inRange : (clock.toNat : Int) + nonceTtlSecs.toNat ≤ i64Max

theorem nonce_out_of_range {n : String}
    (h : ¬ (clock.toNat : Int) + nonceTtlSecs.toNat ≤ i64Max) :
    ∃ e, Steady X keys clock (checkAndRecordNonce n clock nonceTtlSecs) (.error e) := by
  have hnone : i64TryFrom (saturatingAdd clock nonceTtlSecs) = none := by
    refine if_neg ?_
    rw [toNat_saturatingAdd]
    unfold i64Max at h ⊢
    unfold u64Max
    omega
  obtain ⟨e, he⟩ : ∃ e, toI64 (saturatingAdd clock nonceTtlSecs) "nonce expiry" = .error e := by
    rw [toI64, hnone]
    exact ⟨_, rfl⟩
  unfold checkAndRecordNonce
  rw [he]
  exact ⟨e, .error (.orThrow _)⟩

/-- **A request that does not pass is refused**, whatever the nonce store holds, and leaves it
    alone. -/
theorem refused_or_passes (X : Crypto) (keys : Table String Bytes) (clock : UInt64) (r : Request) :
    (∃ e, Steady X keys clock (authenticate X r) (.error e)) ∨ ∃ auth, Passes X keys clock r auth := by
  unfold authenticate Digicash.authenticate
  refine Steady.first (.orThrow _) fun auth hauth => ?_
  obtain ⟨v, hv, hkey⟩ := identityPubkey_steady X keys clock auth.accountId
  refine Steady.first hv.mapErr fun found hfound => ?_
  cases found with
  | none => exact Or.inl ⟨_, .throw _⟩
  | some key =>
    refine Steady.first Steady.nowUnix.mapErr fun now hnow => ?_
    obtain rfl : clock = now := Except.ok.inj hnow
    split
    · exact Or.inl ⟨_, .throw _⟩
    rename_i hwindow
    refine Steady.first (.orThrow _) fun signature hsig => ?_
    split
    · exact Or.inl ⟨_, .throw _⟩
    rename_i hverify
    by_cases hrange : (clock.toNat : Int) + nonceTtlSecs.toNat ≤ i64Max
    · have hregistered : Registered X keys auth.accountId key := by
        refine (hkey key).mp ?_
        cases v with
        | error e => cases hfound
        | ok found => exact congrArg Except.ok (Except.ok.inj hfound)
      exact Or.inr ⟨auth, hauth, by simpa using hwindow, ⟨key, signature, hregistered, hsig, hverify⟩,
        hrange⟩
    · obtain ⟨e, he⟩ := nonce_out_of_range hrange
      exact Or.inl ⟨_, he.mapErr.error⟩

/-- What looking at the nonce `n` does to the tables `db`, at `now`. -/
def Looked (now : UInt64) (n : String) (db db' : Tables) : Prop :=
  ∃ store, db' = db.withNonces store ∧
    Checked (now.toNat + nonceTtlSecs.toNat) now.toNat n db.nonceStore store

theorem checkAndRecordNonce_at {ε : Type} {g : BankError → ε} {n : String} {i : CallId} {op : Op}
    {sh : State X} (hrange : (clock.toNat : Int) + nonceTtlSecs.toNat ≤ i64Max) :
    Alone (At clock) i op (fun _ => True)
      (fun r tx sh' => tx = none ∧ r = .ok (Expiring.free sh.db.nonceStore n clock.toNat) ∧
        Looked clock n sh.db sh'.db)
      (mapErr g (checkAndRecordNonce n clock nonceTtlSecs)).run none sh := by
  obtain ⟨hnow, hexpiry⟩ := NonceCall.InRange.check (n := n) hrange
  have hspec : Alone.Spec (S := service X) Calm i op _ _ _
      (checkAndRecordNonce n clock nonceTtlSecs) none sh :=
    checkAndRecordNonce_alone hnow hexpiry
  have hat : Alone (At clock) i op _ _ _ none sh := Alone.anti (fun _ _ _ _ h => h.1) hspec
  refine Alone.bind (f := fun fresh => Prog.pure (fresh.mapError g)) (fun fresh tx sh' _ hr => ?_)
    trivial hat
  cases fresh with
  | ok fresh =>
    obtain ⟨rfl, rfl, hlooked⟩ := hr
    exact ⟨rfl, rfl, hlooked⟩
  | error e => exact hr.elim

/-- What is answered once the nonce was looked at. -/
def judged (auth : AuthHeaders) (fresh : Bool) : Except AuthRejection String :=
  if fresh then .ok auth.accountId else .error (.unauthorized "nonce already used (replay)")

theorem bindCont_ok {α β : Type} {f : α → Fallible database AuthRejection β} {a : α} :
    ExceptT.bindCont f (.ok a) = f a := rfl

/-- **A request that passes is judged by its nonce.** -/
theorem Passes.alone {r : Request} {auth : AuthHeaders} {i : CallId} {op : Op} {sh : State X}
    (h : Passes X sh.db.identities clock r auth) :
    Alone (At clock) i op (fun _ => True)
      (fun result tx sh' => tx = none ∧
        result = judged auth (Expiring.free sh.db.nonceStore auth.nonce clock.toNat) ∧
          Looked clock auth.nonce sh.db sh'.db)
      (authenticate X r).run none sh := by
  obtain ⟨key, signature, hregistered, hsig, hverify⟩ := h.signed
  have hheaders : Steady X sh.db.identities clock (orThrow (readHeaders r)) (readHeaders r) :=
    .orThrow _
  have hsignature : Steady X sh.db.identities clock (orThrow (decodeSignature auth.signature))
    (decodeSignature auth.signature) := .orThrow _
  obtain ⟨v, hv, hkey⟩ := identityPubkey_steady X sh.db.identities clock auth.accountId
  obtain rfl := (hkey key).mpr hregistered
  unfold authenticate Digicash.authenticate
  refine hheaders.next rfl fun sh₁ h₁ => ?_
  rw [h.headers]
  refine hv.mapErr.next (congrArg Tables.identities h₁) fun sh₂ h₂ => ?_
  have h₂ : sh₂.db = sh.db := h₂.trans h₁
  refine (Steady.mapErr .nowUnix).next (congrArg Tables.identities h₂) fun sh₃ h₃ => ?_
  have h₃ : sh₃.db = sh.db := h₃.trans h₂
  change Alone (At clock) i op _ _ (if outsideWindow auth.timestamp clock = true then _ else _ :
    Fallible database AuthRejection String).run none sh₃
  rw [if_neg (by simp [h.window])]
  refine hsignature.next (congrArg Tables.identities h₃) fun sh₄ h₄ => ?_
  have h₄ : sh₄.db = sh.db := h₄.trans h₃
  rw [hsig]
  rw [bindCont_ok, hverify]
  refine Alone.bind (f := ExceptT.bindCont _) (fun fresh tx sh' _ hfresh => ?_) trivial
    (checkAndRecordNonce_at h.inRange)
  obtain ⟨rfl, rfl, hlooked⟩ := hfresh
  rw [h₄] at hlooked ⊢
  unfold judged
  cases Expiring.free sh.db.nonceStore auth.nonce clock.toNat with
  | false => exact ⟨rfl, rfl, hlooked⟩
  | true => exact ⟨rfl, rfl, hlooked⟩

/-! ## Served -/

theorem runExt_up {i : CallId} {ext : Ext} {o : Oracle} {m m' : Memory} {reply : ext.Res}
    (h : runExt i ext o m = some (reply, m')) (hup : m.phase = .up) : m'.phase = .up := by
  cases ext with
  | serve =>
    cases h
    rfl
  | _ =>
    cases h
    exact hup

/-- A process that serves goes on serving. -/
theorem execCmd_up {i : CallId} {op : Op} {free : Row → Bool} {fault : Fault} {o : Oracle}
    {sh sh' : State X} {tx tx' : Option (Tx database)} {c : Cmd database} {reply : c.Reply}
    (h : execCmd free i op fault o sh tx c = some (reply, sh', tx')) (hup : sh.mem.phase = .up) :
    sh'.mem.phase = .up := by
  rcases execCmd_mem h with heq | ⟨ext, reply', -, hext⟩
  · rw [heq]
    exact hup
  · exact runExt_up hext hup

/-- The request `r`, served by itself while the clock says `clock`. -/
def judge (s : Sys (service X)) (r : Request) (clock : UInt64) :
    Option (Except AuthRejection String × Sys (service X)) :=
  match Sys.serve (S := service X) (always (D := database) { clock }) (.authenticate r) () s with
  | some (.authenticate result, _, s') => some (result, s')
  | _ => none

variable {s : Sys (service X)} {r : Request}

theorem judge_of_alone {Q : Except AuthRejection String → Option (Tx database) → State X → Prop}
    (hup : s.shared.mem.phase = .up)
    (h : Alone (At clock) s.next (.authenticate r) (fun _ => True) Q (authenticate X r).run none
      s.shared) :
    ∃ result s', judge s r clock = some (result, s') ∧ s'.shared.mem.phase = .up ∧
      ∃ tx, Q result tx s'.shared := by
  have hcode : Alone (S := service X) (At clock) s.next (.authenticate r) (fun _ => True)
      (fun a tx sh => ∃ result, a = .authenticate result ∧ Q result tx sh)
      (code s.conf (.authenticate r)) none s.shared := by
    refine Alone.bind (f := fun result => Prog.pure (Ans.authenticate result))
      (fun result tx sh _ hq => ?_) trivial h
    exact ⟨result, rfl, hq⟩
  have hkept := Alone.keeping (K := fun sh : State X => sh.mem.phase = .up) execCmd_up hup hcode
  obtain ⟨a, sh, tx, hserve, ⟨result, rfl, hq⟩, hup'⟩ := Sys.serve_of_alone (S := service X)
    (A := At clock) (s := s) runExt_isSome { clock } (fun _ _ => And.intro rfl rfl)
    (enter_up _ (by simp) hup) hkept
  exact ⟨result, _, by rw [judge, hserve], hup', tx, hq⟩

theorem judge_refused {e : AuthRejection} (hup : s.shared.mem.phase = .up)
    (h : Steady X s.shared.db.identities clock (authenticate X r) (.error e)) :
    ∃ s', judge s r clock = some (.error e, s') ∧ s'.shared.mem.phase = .up ∧
      s'.shared.db = s.shared.db := by
  obtain ⟨result, s', hjudge, hup', tx, -, rfl, hdb⟩ :=
    judge_of_alone hup (h s.next (.authenticate r) s.shared rfl)
  exact ⟨s', hjudge, hup', hdb⟩

theorem judge_passes {auth : AuthHeaders} (hup : s.shared.mem.phase = .up)
    (h : Passes X s.shared.db.identities clock r auth) :
    ∃ s', judge s r clock =
        some (judged auth (Expiring.free s.shared.db.nonceStore auth.nonce clock.toNat), s') ∧
      s'.shared.mem.phase = .up ∧ Looked clock auth.nonce s.shared.db s'.shared.db := by
  obtain ⟨result, s', hjudge, hup', tx, -, rfl, hlooked⟩ := judge_of_alone hup h.alone
  exact ⟨s', hjudge, hup', hlooked⟩

/-- **Whom a request is accepted as.** -/
theorem judge_ok_iff {account : String} (hup : s.shared.mem.phase = .up) :
    (∃ s', judge s r clock = some (.ok account, s')) ↔
      ∃ auth, Passes X s.shared.db.identities clock r auth ∧ auth.accountId = account ∧
        Expiring.free s.shared.db.nonceStore auth.nonce clock.toNat = true := by
  constructor
  · rintro ⟨s', hjudge⟩
    rcases refused_or_passes X s.shared.db.identities clock r with ⟨e, he⟩ | ⟨auth, hpasses⟩
    · obtain ⟨s₁, hjudge', -⟩ := judge_refused hup he
      exact absurd (hjudge.symm.trans hjudge') (by simp)
    · obtain ⟨s₁, hjudge', -⟩ := judge_passes hup hpasses
      have hresult := congrArg Prod.fst (Option.some.inj (hjudge.symm.trans hjudge'))
      cases hfree : Expiring.free s.shared.db.nonceStore auth.nonce clock.toNat with
      | false =>
        rw [hfree] at hresult
        cases hresult
      | true =>
        rw [hfree] at hresult
        exact ⟨auth, hpasses, (Except.ok.inj hresult).symm, hfree⟩
  · rintro ⟨auth, hpasses, rfl, hfree⟩
    obtain ⟨s', hjudge, -⟩ := judge_passes hup hpasses
    rw [hfree] at hjudge
    exact ⟨s', hjudge⟩

/-! ## What others' requests change -/

/-- Whether `k` is free at `later`, after the nonce `n` was looked at. -/
theorem Looked.free_eq {now later : UInt64} {n k : String} {db db' : Tables}
    (h : Looked now n db db') (hle : now ≤ later) :
    Expiring.free db'.nonceStore k later.toNat =
      if k = n ∧ Expiring.free db.nonceStore n now.toNat = true then
        decide (now.toNat + nonceTtlSecs.toNat ≤ later.toNat)
      else Expiring.free db.nonceStore k later.toNat := by
  obtain ⟨store, rfl, hchecked⟩ := h
  have hle : (now.toNat : Int) ≤ later.toNat := Int.ofNat_le.mpr (UInt64.le_iff_toNat_le.mp hle)
  have hrecord : Expiring.free store k later.toNat = Expiring.free (Expiring.record
      (fun _ => (now.toNat : Int) + nonceTtlSecs.toNat) db.nonceStore n now.toNat) k later.toNat := by
    rcases hchecked with rfl | rfl
    · rfl
    · exact Expiring.free_purge hle
  have hexpiry : decide ((now.toNat : Int) + nonceTtlSecs.toNat ≤ later.toNat) =
      decide (now.toNat + nonceTtlSecs.toNat ≤ later.toNat) := decide_eq_decide.mpr (by omega)
  exact hrecord.trans (Expiring.free_record.trans (by rw [hexpiry]))

/-- What is free stays free, but for the nonce that was recorded. -/
theorem Looked.free_of_free {now later : UInt64} {n k : String} {db db' : Tables}
    (h : Looked now n db db') (hfree : Expiring.free db.nonceStore k later.toNat = true)
    (hsame : k = n → Expiring.free db.nonceStore n now.toNat = true →
      now.toNat + nonceTtlSecs.toNat ≤ later.toNat) :
    Expiring.free db'.nonceStore k later.toNat = true := by
  obtain ⟨store, rfl, hchecked⟩ := h
  have hrecord : Expiring.free (Expiring.record
      (fun _ => (now.toNat : Int) + nonceTtlSecs.toNat) db.nonceStore n now.toNat) k later.toNat =
        true := by
    rw [Expiring.free_record]
    split
    · rename_i hboth
      have hexpired := hsame hboth.1 hboth.2
      exact decide_eq_true (by omega)
    · exact hfree
  rcases hchecked with rfl | rfl
  · exact hrecord
  · exact Expiring.free_purge_of_free hrecord

/-! ## Runs -/

/-- What was decided about a request. -/
structure Decided where
  request : Request
  clock : UInt64
  result : Except AuthRejection String
deriving DecidableEq

/-- What is decided about each request, one after the other. -/
def decisions (s : Sys (service X)) : List (Request × UInt64) → List Decided
  | [] => []
  | (r, clock) :: calls =>
    match judge s r clock with
    | some (result, s') => ⟨r, clock, result⟩ :: decisions s' calls
    | none => []

/-- The account a request names. -/
def accountOf (r : Request) : Option String := (readHeaders r).toOption.map (·.accountId)

def nonceOf (r : Request) : Option String := (readHeaders r).toOption.map (·.nonce)

/-- The request does not name an account other than `a`. -/
def notAnothers (a : String) (r : Request) : Bool := (accountOf r).all (· = a)

/-- The request was accepted, and as another account than `a`. -/
def Decided.forAnother (a : String) (d : Decided) : Bool := d.result.toOption.any (· ≠ a)

/-- A request of `a` comes at no earlier instant than one before it, and not before its nonce, if
    it was accepted from another account, has expired. -/
def Apart (a : String) (earlier later : Decided) : Prop :=
  accountOf later.request = some a → earlier.clock ≤ later.clock ∧
    (earlier.forAnother a = true → nonceOf earlier.request = nonceOf later.request →
      earlier.clock.toNat + nonceTtlSecs.toNat ≤ later.clock.toNat)

instance (a : String) (earlier later : Decided) : Decidable (Apart a earlier later) :=
  inferInstanceAs (Decidable (_ → _))

/-- Every request of `a` to come finds its nonce free in both or in neither. -/
def FreeAlike (a : String) (ds : List Decided) (db db' : Tables) : Prop :=
  ∀ d ∈ ds, accountOf d.request = some a → ∀ n, nonceOf d.request = some n →
    Expiring.free db.nonceStore n d.clock.toNat = Expiring.free db'.nonceStore n d.clock.toNat

theorem Passes.accountOf {auth : AuthHeaders} (h : Passes X keys clock r auth) :
    accountOf r = some auth.accountId := by
  rw [Bank.accountOf, h.headers]
  rfl

theorem Passes.nonceOf {auth : AuthHeaders} (h : Passes X keys clock r auth) :
    nonceOf r = some auth.nonce := by
  rw [Bank.nonceOf, h.headers]
  rfl

theorem decisions_cons {result : Except AuthRejection String} {s' : Sys (service X)}
    {calls : List (Request × UInt64)} (h : judge s r clock = some (result, s')) :
    decisions s ((r, clock) :: calls) = ⟨r, clock, result⟩ :: decisions s' calls := by
  rw [decisions, h]

/-- A request of `a` itself leaves the two alike. -/
theorem FreeAlike.own {a n : String} {ds : List Decided} {db db' db₁ db₁' : Tables}
    {result : Except AuthRejection String} (h : FreeAlike a ds db db')
    (hn : Expiring.free db.nonceStore n clock.toNat = Expiring.free db'.nonceStore n clock.toNat)
    (hapart : ∀ d ∈ ds, Apart a ⟨r, clock, result⟩ d) (hlooked : Looked clock n db db₁)
    (hlooked' : Looked clock n db' db₁') : FreeAlike a ds db₁ db₁' := by
  intro d hd hmine k hk
  obtain ⟨hle, -⟩ := hapart d hd hmine
  rw [hlooked.free_eq hle, hlooked'.free_eq hle, hn, h d hd hmine k hk]

/-- So does one of another account, where it is apart from what `a` still asks. -/
theorem FreeAlike.others {a : String} {auth : AuthHeaders} {ds : List Decided}
    {db db' db₁ : Tables} (h : FreeAlike a ds db db') (hother : auth.accountId ≠ a)
    (hnonce : nonceOf r = some auth.nonce)
    (hapart : ∀ d ∈ ds, Apart a
      ⟨r, clock, judged auth (Expiring.free db.nonceStore auth.nonce clock.toNat)⟩ d)
    (hlooked : Looked clock auth.nonce db db₁) : FreeAlike a ds db₁ db' := by
  intro d hd hmine k hk
  obtain ⟨hle, hexpired⟩ := hapart d hd hmine
  rw [hlooked.free_eq hle, ← h d hd hmine k hk]
  split
  · rename_i hsame
    obtain ⟨rfl, hfree⟩ := hsame
    -- The other account had the nonce accepted, so it has expired by then, and so has what there
    -- was before.
    have hle' : (clock.toNat : Int) ≤ d.clock.toNat :=
      Int.ofNat_le.mpr (UInt64.le_iff_toNat_le.mp hle)
    rw [Expiring.free_later hfree hle']
    refine decide_eq_true (hexpired ?_ (hnonce.trans hk.symm))
    rw [Decided.forAnother, hfree]
    exact decide_eq_true hother
  · rfl

/-- **Requests of other accounts do not interfere**, step by step. -/
theorem decisions_filter {a : String} : ∀ {calls : List (Request × UInt64)}
    {s s' : Sys (service X)}, s.shared.mem.phase = .up → s'.shared.mem.phase = .up →
      s'.shared.db.identities = s.shared.db.identities →
      (decisions s calls).Pairwise (Apart a) →
      FreeAlike a (decisions s calls) s.shared.db s'.shared.db →
        (decisions s calls).filter (fun d => notAnothers a d.request) =
          decisions s' (calls.filter fun c => notAnothers a c.1) := by
  intro calls
  induction calls with
  | nil => exact fun _ _ _ _ _ => rfl
  | cons c calls ih =>
    intro s s' hup hup' hkeys hapart halike
    obtain ⟨r, clock⟩ := c
    rcases refused_or_passes X s.shared.db.identities clock r with ⟨e, he⟩ | ⟨auth, hpasses⟩
    · obtain ⟨s₁, hjudge, hup₁, hdb⟩ := judge_refused hup he
      obtain ⟨s₁', hjudge', hup₁', hdb'⟩ := judge_refused hup' (hkeys.symm ▸ he)
      rw [decisions_cons hjudge] at hapart halike ⊢
      have halike₁ := (List.forall_mem_cons.mp halike).2
      by_cases hmine : notAnothers a r = true
      · rw [List.filter_cons_of_pos (by exact hmine), List.filter_cons_of_pos (by exact hmine),
          decisions_cons hjudge', ih hup₁ hup₁' (by rw [hdb, hdb', hkeys]) hapart.of_cons
            (by rw [hdb, hdb']; exact halike₁)]
      · rw [List.filter_cons_of_neg (by exact hmine), List.filter_cons_of_neg (by exact hmine),
          ih hup₁ hup' (by rw [hdb, hkeys]) hapart.of_cons (by rw [hdb]; exact halike₁)]
    · obtain ⟨s₁, hjudge, hup₁, hlooked⟩ := judge_passes hup hpasses
      obtain ⟨s₁', hjudge', hup₁', hlooked'⟩ := judge_passes hup' (hkeys.symm ▸ hpasses)
      rw [decisions_cons hjudge] at hapart halike ⊢
      obtain ⟨hhead, hrest⟩ := List.forall_mem_cons.mp halike
      have halike₁ : FreeAlike a (decisions s₁ calls) s.shared.db s'.shared.db := hrest
      obtain ⟨hlater, hapart₁⟩ := List.pairwise_cons.mp hapart
      have hkeys₁ : s₁.shared.db.identities = s.shared.db.identities := by
        obtain ⟨store, hdb, -⟩ := hlooked
        rw [hdb]
        rfl
      by_cases hmine : auth.accountId = a
      · have hkept : notAnothers a r = true := by
          rw [notAnothers, hpasses.accountOf]
          exact decide_eq_true hmine
        have hfree := hhead (by rw [hpasses.accountOf, hmine]) auth.nonce hpasses.nonceOf
        have hkeys₁' : s₁'.shared.db.identities = s'.shared.db.identities := by
          obtain ⟨store, hdb, -⟩ := hlooked'
          rw [hdb]
          rfl
        rw [List.filter_cons_of_pos (by exact hkept), List.filter_cons_of_pos (by exact hkept),
          decisions_cons hjudge', ih hup₁ hup₁' (by rw [hkeys₁, hkeys₁', hkeys]) hapart₁
            (halike₁.own hfree hlater hlooked hlooked'), hfree]
      · have hdropped : ¬ notAnothers a r = true := by
          rw [notAnothers, hpasses.accountOf]
          exact fun h => hmine (of_decide_eq_true h)
        rw [List.filter_cons_of_neg (by exact hdropped), List.filter_cons_of_neg (by exact hdropped),
          ih hup₁ hup' (by rw [hkeys₁, hkeys]) hapart₁
            (halike₁.others hmine hpasses.nonceOf hlater hlooked)]

/-- Every request is decided, and no table but the nonce store changes. -/
theorem judge_some (hup : s.shared.mem.phase = .up) (r : Request) (clock : UInt64) :
    ∃ result s', judge s r clock = some (result, s') ∧ s'.shared.mem.phase = .up ∧
      ∃ store, s'.shared.db = s.shared.db.withNonces store := by
  rcases refused_or_passes X s.shared.db.identities clock r with ⟨e, he⟩ | ⟨auth, hpasses⟩
  · obtain ⟨s', hjudge, hup', hdb⟩ := judge_refused hup he
    exact ⟨_, s', hjudge, hup', s.shared.db.nonceStore, hdb⟩
  · obtain ⟨s', hjudge, hup', store, hdb, -⟩ := judge_passes hup hpasses
    exact ⟨_, s', hjudge, hup', store, hdb⟩

theorem decisions_calls : ∀ {calls : List (Request × UInt64)} {s : Sys (service X)},
    s.shared.mem.phase = .up →
      (decisions s calls).map (fun d => (d.request, d.clock)) = calls := by
  intro calls
  induction calls with
  | nil => exact fun _ => rfl
  | cons c calls ih =>
    intro s hup
    obtain ⟨result, s', hjudge, hup', -⟩ := judge_some hup c.1 c.2
    rw [decisions_cons hjudge, List.map_cons, ih hup']

/-- **A request is accepted if its nonce is free**, and was not accepted lately. -/
theorem decisions_append {auth : AuthHeaders} : ∀ {calls : List (Request × UInt64)}
    {s : Sys (service X)}, s.shared.mem.phase = .up →
      Passes X s.shared.db.identities clock r auth →
      Expiring.free s.shared.db.nonceStore auth.nonce clock.toNat = true →
      (∀ d ∈ decisions s calls, (∃ b, d.result = .ok b) → nonceOf d.request = some auth.nonce →
        d.clock.toNat + nonceTtlSecs.toNat ≤ clock.toNat) →
      decisions s (calls ++ [(r, clock)]) = decisions s calls ++ [⟨r, clock, .ok auth.accountId⟩] := by
  intro calls
  induction calls with
  | nil =>
    intro s hup hpasses hfree _
    obtain ⟨s', hjudge, -⟩ := judge_passes hup hpasses
    rw [List.nil_append, decisions_cons hjudge, hfree]
    rfl
  | cons c calls ih =>
    intro s hup hpasses hfree hunused
    obtain ⟨r', clock'⟩ := c
    rcases refused_or_passes X s.shared.db.identities clock' r' with ⟨e, he⟩ | ⟨auth', hpasses'⟩
    · obtain ⟨s', hjudge, hup', hdb⟩ := judge_refused hup he
      rw [decisions_cons hjudge] at hunused ⊢
      rw [List.cons_append, decisions_cons hjudge, ih hup' (hdb ▸ hpasses) (hdb ▸ hfree)
        fun d hd => hunused d (List.mem_cons_of_mem _ hd), List.cons_append]
    · obtain ⟨s', hjudge, hup', hlooked⟩ := judge_passes hup hpasses'
      rw [decisions_cons hjudge] at hunused ⊢
      obtain ⟨hhead, hrest⟩ := List.forall_mem_cons.mp hunused
      have hfree' : Expiring.free s'.shared.db.nonceStore auth.nonce clock.toNat = true := by
        refine hlooked.free_of_free hfree fun hsame hnow => ?_
        exact hhead ⟨auth'.accountId, by rw [hnow]; rfl⟩ (hpasses'.nonceOf.trans (by rw [hsame]))
      obtain ⟨store, hdb, -⟩ := hlooked
      rw [List.cons_append, decisions_cons hjudge,
        ih hup' (by rw [hdb]; exact hpasses) hfree' hrest, List.cons_append]

/-- **The nonces of different accounts do not interfere**, but where one account's nonce was
    accepted from another and has not expired. Every request is decided; those of `a` as they are
    without those of the others; and a request that is signed and in time is accepted if its nonce
    is not held, whatever other nonces were used. -/
theorem accounts_apart (hup : s.shared.mem.phase = .up) (calls : List (Request × UInt64)) :
    (decisions s calls).map (fun d => (d.request, d.clock)) = calls ∧
      (∀ a, (decisions s calls).Pairwise (Apart a) →
        (decisions s calls).filter (fun d => notAnothers a d.request) =
          decisions s (calls.filter fun c => notAnothers a c.1)) ∧
      ∀ r clock auth, Passes X s.shared.db.identities clock r auth →
        Expiring.free s.shared.db.nonceStore auth.nonce clock.toNat = true →
        (∀ d ∈ decisions s calls, (∃ b, d.result = .ok b) → nonceOf d.request = some auth.nonce →
          d.clock.toNat + nonceTtlSecs.toNat ≤ clock.toNat) →
        decisions s (calls ++ [(r, clock)]) =
          decisions s calls ++ [⟨r, clock, .ok auth.accountId⟩] :=
  ⟨decisions_calls hup, fun _ hapart => decisions_filter hup hup rfl hapart fun _ _ _ _ _ => rfl,
    fun _ _ _ hpasses hfree hunused => decisions_append hup hpasses hfree hunused⟩

/-- What `account` posts at 60, with 64 zero bytes for a signature. -/
def toyKnock (account : String) (nonce : String) : Request :=
  ⟨"POST", "/deposit", [(headerAccount, utf8 account), (headerTimestamp, utf8 "60"),
    (headerNonce, utf8 nonce), (headerSignature, .replicate 128 48)], []⟩

def toyKeys : Table String Bytes :=
  let key : Bytes := .replicate 32 0
  ((∅ : Table String Bytes).put "alice" (some key)).put "bob" (some key)

/-- A bank that serves, knows `alice` and `bob`, and has counted `nonceOps` nonces. -/
def serving (nonceOps : UInt64) : Sys (service .toy) :=
  .init Config.toy { Tables.empty with identities := toyKeys }
    { Memory.fresh with phase := .up, nonceOps := nonceOps }

/-- `bob` uses the nonce of `alice` again once it has expired. -/
def toyKnocks : List (Request × UInt64) :=
  [(toyKnock "alice" "n", 0), (toyKnock "bob" "n", 120), (toyKnock "alice" "m", 120)]

theorem accounts_apart_expired :
    (decisions (serving 0) toyKnocks).filter (fun d => notAnothers "alice" d.request) =
      decisions (serving 0) (toyKnocks.filter fun c => notAnothers "alice" c.1) :=
  (accounts_apart (s := serving 0) rfl toyKnocks).2.1 "alice" (by decide +kernel)

/-- A nonce that `bob` used just now is refused from `alice`. And where the clock goes back, what
    `bob`'s request makes the store forget is accepted from `alice` once more. -/
theorem accounts_interfere :
    (decisions (serving 0) [(toyKnock "bob" "n", 60), (toyKnock "alice" "n", 60)]).filter
        (fun d => notAnothers "alice" d.request) ≠
      decisions (serving 0) [(toyKnock "alice" "n", 60)] ∧
    (decisions (serving 1022) [(toyKnock "alice" "n", 0), (toyKnock "bob" "m", 120),
        (toyKnock "alice" "n", 60)]).filter (fun d => notAnothers "alice" d.request) ≠
      decisions (serving 1022) [(toyKnock "alice" "n", 0), (toyKnock "alice" "n", 60)] := by
  constructor
  · decide +kernel
  · decide +kernel

end Digicash.Bank
