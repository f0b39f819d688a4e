import Digicash.Registry.Ledger
import Digicash.NonceKeeping

/-!
# The registry refines its ledger

As for the bank: one lemma for each function of the code, and `sound` from them. A submission
holds the lock on its serial from the insert to the commit; a settlement holds the rows its
`DELETE` found, and nothing before that.
-/

namespace Digicash.Registry

open Lib Lib.Protocol

variable {X : Crypto} {κ : Unit} {i : CallId} {op : Op} {sh sh' : State X}

theorem move_wellFormed (hw : sh.db.WellFormed) (h : (protocol X).Move κ sh sh') :
    sh'.db.WellFormed :=
  Ledger.move_keeps h (fun hv hw => Entry.wellFormed hw hv) hw

theorem toI64_eq_ok {value : UInt64} {what : String} {n : Int} (h : toI64 value what = .ok n) :
    i64TryFrom value = some n := by
  unfold toI64 at h
  split at h
  · obtain rfl := Except.ok.inj h
    assumption
  · exact absurd h (by simp)

/-! ## Members -/

/-- `ON CONFLICT DO NOTHING` did nothing, or it inserted. -/
theorem inserted_spec {e : RegistryError} (inserted : Nat) :
    (protocol X).Spec κ i op (fun _ _ _ => True) (fun _ _ _ => True)
      (if inserted = 0 then throw e else pure () : RegistryM Unit) none sh := by
  by_cases h : inserted = 0
  · rw [if_pos h]
    exact Spec.throw fun _ _ => trivial
  · rw [if_neg h]
    exact Spec.ok fun _ _ => trivial

theorem registerMember_spec {b : String} {k : Bytes} {a : Bool}
    (hop : (Entry.addMember b ⟨k, a⟩).From op) :
    (protocol X).Spec κ i op (fun _ _ _ => True) (fun _ _ _ => True)
      (registerMember b k a) none sh := by
  unfold registerMember
  refine Spec.query_bind_none (fun _ _ _ => trivial)
    (fun _ _ inserted _ _ => inserted_spec inserted) ?_
  intro sh₁ o inserted ws hws h₁ hex
  cases hl : sh₁.db.members.lookup b with
  | some row =>
    simp only [exec, hl, Effect.read, Except.ok.injEq, Prod.mk.injEq] at hex
    exact absurd hex.2.symm hws
  | none =>
    have hx : exec (.insertMember b k a) o sh₁.db =
        .write [] (1 : Nat) [⟨.member b, some ⟨k, a⟩⟩] := by
      simp only [exec, hl]
    simp only [hx, Effect.write, Except.ok.injEq, Prod.mk.injEq] at hex ⊢
    obtain ⟨rfl, rfl⟩ := hex
    exact ⟨⟨.addMember b ⟨k, a⟩, rfl, hl, hop⟩, fun _ => inserted_spec _⟩

theorem memberPubkey_spec {b : String} :
    (protocol X).Spec κ i op (fun _ tx _ => tx = none) Closed (memberPubkey X b) none sh := by
  unfold memberPubkey
  refine Spec.read_bind (fun _ db => (db.members.lookup b).map MemberRow.pubkey)
    (fun _ _ => rfl) (fun _ _ _ => rfl) fun sh₁ o h₁ => ?_
  cases (sh₁.db.members.lookup b).map MemberRow.pubkey with
  | none => exact Spec.ok fun _ _ => rfl
  | some bytes =>
    by_cases hlen : bytes.length = identityPublicKeyLen
    · simp only [hlen, if_true]
      refine Spec.orThrow_bind (fun _ _ _ _ => rfl) fun key _ => ?_
      exact Spec.ok fun _ _ => rfl
    · simp only [hlen, if_false]
      exact Spec.throw fun _ _ => rfl

theorem isAdmin_spec {b : String} :
    (protocol X).Spec κ i op (fun _ tx _ => tx = none) (fun _ _ _ => True) (isAdmin b) none sh := by
  unfold isAdmin
  refine Spec.read_bind (fun _ db => (db.members.lookup b).map MemberRow.isAdmin)
    (fun _ _ => rfl) (fun _ _ _ => trivial) fun sh₁ o h₁ => ?_
  exact Spec.ok fun _ _ => rfl

/-! ## Serials -/

theorem submitted_reaches {caller : String} {submission : SerialSubmission}
    {response : SerialResponse} (h : Submitted i caller submission response sh)
    (hm : (protocol X).Reaches κ sh sh') : Submitted i caller submission response sh' := by
  refine ⟨fun hout => ?_, fun hout => ?_⟩
  · obtain ⟨c, hc, hrest⟩ := h.accepted hout
    exact ⟨c, hm.mem_hist hc, hrest⟩
  · obtain ⟨c, hc, hrest⟩ := h.doubleSpent hout
    exact ⟨c, hm.mem_hist hc, hrest⟩

@[simp] theorem view_capTx (pair : Pair) (check : CapCheck) (db : Tables) :
    (Entry.capTx pair check).view db = db := by
  rw [Tx.view, Entry.writes_capTx]
  rfl

@[simp] theorem view_transcriptTx (check : CapCheck) (id : Nat) (pair : Pair)
    (row : TranscriptRow) (db : Tables) :
    (Entry.transcriptTx check id pair row).view db =
      { db with transcripts := db.transcripts.put id (some row) } := by
  rw [Tx.view, Entry.transcriptTx, Entry.ran, Tx.push, Entry.writes_capTx]
  rfl

theorem capReached_spec {pair : Pair} :
    (protocol X).Spec κ i op
      (fun reached tx _ => ∃ check, tx = some (Entry.capTx pair check) ∧
        (reached = false → CapCheck.passed check))
      (fun _ _ _ => True) (capReached pair) (some Tx.empty) sh := by
  unfold capReached
  refine Spec.read_bind_tx (fun _ db => db.exposureCaps.lookup pair) (fun _ _ => rfl)
    (fun _ _ _ => trivial) fun sh₁ o h₁ => ?_
  cases (Tx.view (D := database) .empty sh₁.db).exposureCaps.lookup pair with
  | none => exact Spec.ok fun _ _ => ⟨none, rfl, fun _ => trivial⟩
  | some cap =>
    refine Spec.read_bind_tx (fun _ db => db.receivables.lookup pair) (fun _ _ => rfl)
      (fun _ _ _ => trivial) fun sh₂ o h₂ => ?_
    refine Spec.ok fun sh₃ h₃ => ⟨some (cap, _), rfl, fun hreached => ?_⟩
    exact Int.not_le.mp (of_decide_eq_false hreached)

/-- `ON CONFLICT DO NOTHING` on the serial: recorded already, or inserted. -/
theorem insertSerial_cases (db : Tables) (k : SerialKey) (row : SerialRow) (o : Oracle) :
    (exec (.insertSerial k row) o db = .read (0 : Nat) ∧
        ∃ first, db.serials.lookup k = some first) ∨
      exec (.insertSerial k row) o db = .write [] (1 : Nat) [⟨.serial k, some row⟩] ∧
        db.serials.lookup k = none := by
  cases hl : db.serials.lookup k with
  | some first => exact Or.inl ⟨by simp only [exec, hl], first, rfl⟩
  | none => exact Or.inr ⟨by simp only [exec, hl], rfl⟩

/-- An upsert that succeeds adds to what there is, within the column's range. -/
theorem addReceivable_ok {db : Tables} {p : Pair} {denom : Int} {o : Oracle} {n : Nat}
    {ws : List (Write Cell)} (hdenom : denom ≤ i64Max)
    (h : (exec (.addReceivable p denom) o db).result = .ok (n, ws)) :
    (db.receivables.lookup p).getD 0 + denom ≤ i64Max ∧
      exec (.addReceivable p denom) o db = .write [] (1 : Nat)
        [⟨.receivable p, some ((db.receivables.lookup p).getD 0 + denom)⟩] := by
  cases hl : db.receivables.lookup p with
  | none =>
    simp only [exec, hl] at h ⊢
    split at h
    · exact absurd h (by simp [Effect.fail])
    · rename_i hneg
      rw [if_neg hneg, Option.getD_none, zero_add]
      exact ⟨hdenom, rfl⟩
  | some amount =>
    simp only [exec, hl] at h ⊢
    split at h
    · exact absurd h (by simp [Effect.fail])
    · split at h
      · exact absurd h (by simp [Effect.fail])
      · rename_i hover hneg
        rw [if_neg hover, if_neg hneg, Option.getD_some]
        exact ⟨by omega, rfl⟩

/-- `Submitted`, as the postcondition of the code. -/
def SerialPost (i : CallId) (caller : String) (submission : SerialSubmission)
    (response : SerialResponse) (_ : Option (Tx database)) (sh : State X) : Prop :=
  Submitted i caller submission response sh

variable {caller : String} {submission : SerialSubmission} {check : CapCheck} {id : Nat}
  {pair : Pair} {key : SerialKey} {row : SerialRow}

/-- The tail of a submission whose serial somebody else was first to record. -/
theorem doubleSpend_spec (hrec : Records caller submission pair key row)
    (hpassed : check.passed) (hid : sh.db.transcripts.lookup id = none)
    (hold : ∃ first, sh.db.serials.lookup key = some first) :
    (protocol X).Spec κ i (.postSerial caller submission)
      ((protocol X).Ends κ i (.postSerial caller submission) (SerialPost i caller submission))
      (fun _ _ _ => True)
      (do
        let rows ← sql (.selectTranscripts key)
        let entries ← orThrow (rows.mapM toEntry)
        pure (.commit ⟨.doubleSpend, entries⟩))
      (some (Entry.serialTx check id pair key row 0 [])) sh := by
  refine Spec.read_bind_tx (fun _ db => db.transcriptsOf key) (fun _ _ => rfl)
    (fun _ _ _ => trivial) fun sh₁ o h₁ => ?_
  refine Spec.orThrow_bind (fun _ _ _ _ => trivial) fun entries hentries => ?_
  refine Spec.ok fun sh₂ h₂ => ⟨_, rfl, ?_, fun sh₃ h₃ =>
    submitted_reaches ⟨fun hacc => absurd hacc (by simp), fun _ => ⟨_, List.mem_cons_self .., rfl,
      rfl, check, id, pair, key, row, _, hrec, rfl, hentries⟩⟩ h₃⟩
  have hold₂ : ∃ first, sh₂.db.serials.lookup key = some first := by
    obtain ⟨first, hfirst⟩ := hold
    exact ⟨first, (h₁.reaches.trans h₂.reaches).keeps
      (J := fun sh : State X => sh.db.serials.lookup key = some first)
      (fun hx hm => Ledger.move_keeps hm (fun hv h => Entry.serial_stays hv h) hx) hfirst⟩
  have hid₂ : sh₂.db.transcripts.lookup id = none :=
    (h₂.frame (.transcript id)
      (by simp [Entry.serialTx, Entry.transcriptTx, Tx.locks, Tx.push])).trans
      ((h₁.frame (.transcript id)
        (by simp [Entry.serialTx, Entry.transcriptTx, Tx.locks, Tx.push])).trans hid)
  exact ⟨.doubleSpend check id pair key row _, rfl, ⟨hpassed, hid₂, hold₂⟩, hrec⟩

/-- The tail of a submission that was first to record its serial. -/
theorem accept_spec (hrec : Records caller submission pair key row)
    (hpassed : check.passed) (hid : sh.db.transcripts.lookup id = none)
    (hnew : sh.db.serials.lookup key = none) (h0 : 0 ≤ key.denominationCents)
    (h1 : key.denominationCents ≤ i64Max) :
    (protocol X).Spec κ i (.postSerial caller submission)
      ((protocol X).Ends κ i (.postSerial caller submission) (SerialPost i caller submission))
      (fun _ _ _ => True)
      (do
        let _ ← sql (.addReceivable pair key.denominationCents)
        pure (.commit ⟨.accepted, []⟩))
      (some (Entry.serialTx check id pair key row 1 [⟨.serial key, some row⟩])) sh := by
  refine Spec.query_bind_tx (fun _ _ _ => trivial) ?_
  intro sh₁ o n ws h₁ hex
  have hview : ((Entry.serialTx check id pair key row 1 [⟨.serial key, some row⟩]).view
      sh₁.db).receivables = sh₁.db.receivables := by
    rw [Tx.view, Entry.serialTx, Entry.ran, Tx.push, applyWrites_append, ← Tx.view,
      view_transcriptTx]
    rfl
  obtain ⟨hmax, hx⟩ := addReceivable_ok (o := o) h1 hex
  simp only [hx, Effect.write, Except.ok.injEq, Prod.mk.injEq] at hex ⊢
  obtain ⟨rfl, rfl⟩ := hex
  rw [hview] at hmax ⊢
  have hvalid : ∀ sh₂ : State X, (protocol X).Env κ
      (some (Tx.push (Entry.serialTx check id pair key row 1 [⟨.serial key, some row⟩])
        (.addReceivable pair key.denominationCents) (1 : Nat) [] [⟨.receivable pair,
          some ((sh₁.db.receivables.lookup pair).getD 0 + key.denominationCents)⟩]))
      sh₁ sh₂ → (Entry.accept check id pair key row
        (sh₁.db.receivables.lookup pair)).Valid sh₂.db := by
    intro sh₂ h₂
    -- The serial and its transcript are locked since their inserts, the receivable since now.
    have hid₂ : sh₂.db.transcripts.lookup id = none :=
      (h₂.frame (.transcript id)
        (by simp [Entry.serialTx, Entry.transcriptTx, Tx.locks, Tx.push])).trans
        ((h₁.frame (.transcript id)
          (by simp [Entry.serialTx, Entry.transcriptTx, Tx.locks, Tx.push])).trans hid)
    have hnew₂ : sh₂.db.serials.lookup key = none :=
      (h₂.frame (.serial key) (by simp [Entry.serialTx, Tx.locks, Tx.push])).trans
        ((h₁.frame (.serial key) (by simp [Entry.serialTx, Tx.locks, Tx.push])).trans hnew)
    have hout₂ : sh₂.db.receivables.lookup pair = sh₁.db.receivables.lookup pair :=
      h₂.frame (.receivable pair) (by simp [Tx.locks, Tx.push])
    exact ⟨hpassed, hid₂, hnew₂, hout₂, h0, hmax⟩
  refine Spec.ok fun sh₂ h₂ =>
    ⟨_, rfl, ⟨.accept check id pair key row _, rfl, hvalid sh₂ h₂, hrec⟩, fun sh₃ h₃ => ?_⟩
  exact submitted_reaches ⟨fun _ => ⟨_, List.mem_cons_self .., rfl, rfl, check, id, pair, key, row,
    sh₁.db.receivables.lookup pair, hrec, rfl⟩, fun hdouble => absurd hdouble (by simp)⟩ h₃

theorem submitSerial_spec {now : UInt64} :
    (protocol X).Spec κ i (.postSerial caller submission)
      (SerialPost i caller submission) (fun _ _ _ => True) (submitSerial caller submission now) none sh := by
  unfold submitSerial
  refine Spec.orThrow_bind (fun _ _ _ _ => trivial) fun denom hdenom => ?_
  have hd := toI64_eq_ok hdenom
  refine Spec.orThrow_bind (fun _ _ _ _ => trivial) fun seen _ => ?_
  refine Spec.transaction (fun _ _ _ _ _ => trivial) (fun _ _ _ => trivial) ?_
  intro sh₁ h₁
  refine Spec.bind h₁.inv capReached_spec fun reached tx sh₂ hi₂ h₂ => ?_
  obtain ⟨check, rfl, hpassed⟩ := h₂
  cases reached with
  | true =>
    exact Spec.ok fun _ _ _ _ =>
      ⟨fun hout => absurd hout (by decide), fun hout => absurd hout (by decide)⟩
  | false =>
    rw [if_neg (by decide)]
    -- The pair, the serial and the first row of this submission.
    let key := serialKey submission denom
    let row : SerialRow := ⟨caller, submission.transcript, seen⟩
    have hrec : Records caller submission (submissionPair caller submission) key row :=
      ⟨rfl, ⟨denom, hd, rfl⟩, rfl, rfl⟩
    refine Spec.query_bind_tx (fun _ _ _ => trivial) ?_
    intro sh₃ o n ws h₃ hex
    have hid := Table.lookup_nextKey sh₃.db.transcripts o.nextval
    generalize hnext : sh₃.db.transcripts.nextKey o.nextval = id at hid
    have hx : exec (.insertTranscript (row.transcriptRow key)) o
        ((Entry.capTx (submissionPair caller submission) check).view sh₃.db) =
        .write [] (1 : Nat) [⟨.transcript id, some (row.transcriptRow key)⟩] := by
      rw [view_capTx, exec, hnext]
    have hx' : exec (.insertTranscript ⟨serialKey submission denom, caller,
        submission.transcript, seen⟩) o
        ((Entry.capTx (submissionPair caller submission) check).view sh₃.db) = _ := hx
    simp only [hx', Effect.write, Except.ok.injEq, Prod.mk.injEq] at hex ⊢
    obtain ⟨rfl, rfl⟩ := hex
    refine Spec.query_bind_tx
      (t := Entry.transcriptTx check id (submissionPair caller submission) (row.transcriptRow key))
      (fun _ _ _ => trivial) ?_
    intro sh₄ o n ws h₄ hex
    have hid₄ : sh₄.db.transcripts.lookup id = none :=
      (h₄.frame (.transcript id) (by simp [Entry.transcriptTx, Tx.locks, Tx.push])).trans hid
    rw [view_transcriptTx] at hex ⊢
    rcases insertSerial_cases
      { sh₄.db with transcripts := sh₄.db.transcripts.put id (some (row.transcriptRow key)) }
      key row o with ⟨hx, hold⟩ | ⟨hx, hnew⟩
    · have hx₄ : exec (.insertSerial (serialKey submission denom)
        ⟨caller, submission.transcript, seen⟩) o _ = _ := hx
      simp only [hx₄, Effect.read, Except.ok.injEq, Prod.mk.injEq] at hex ⊢
      obtain ⟨rfl, rfl⟩ := hex
      rw [if_neg Nat.zero_ne_one]
      exact doubleSpend_spec hrec (hpassed rfl) hid₄ hold
    · have hx₄ : exec (.insertSerial (serialKey submission denom)
        ⟨caller, submission.transcript, seen⟩) o _ = _ := hx
      simp only [hx₄, Effect.write, Except.ok.injEq, Prod.mk.injEq] at hex ⊢
      obtain ⟨rfl, rfl⟩ := hex
      rw [if_pos rfl]
      exact accept_spec hrec (hpassed rfl) hid₄ hnew (i64TryFrom_nonneg hd)
        (i64TryFrom_eq_some hd).2

/-! ## Settlement -/

/-- The claims inserted so far are under keys of their own that nobody else has. -/
structure FreshClaims (claims : List (Nat × ClaimRow)) (db : Tables) : Prop where
  nodup : (claims.map Prod.fst).Nodup
  unused : ∀ c ∈ claims, db.settlementClaims.lookup c.1 = none

theorem view_claimsTx (read : List (Pair × Int)) (claims : List (Nat × ClaimRow))
    (db : Tables) : (Entry.claimsTx read claims).view db =
      { db with settlementClaims := db.settlementClaims.insertAll claims } := by
  rw [Tx.view, Entry.writes_claimsTx, Entry.applyWrites_claims]

theorem claimsTx_append (read : List (Pair × Int)) (claims : List (Nat × ClaimRow))
    (c : Nat × ClaimRow) : Entry.claimsTx read (claims ++ [c]) =
      Entry.ran (Entry.claimsTx read claims) (.insertClaim c.2) (1 : Nat) []
        [⟨.claim c.1, some c.2⟩] := by
  rw [Entry.claimsTx, List.foldl_append]
  rfl

/-- The next row of the sequence. -/
abbrev nextClaim (claims : List (Nat × ClaimRow)) (db : Tables) (o : Oracle) (row : ClaimRow) :
    Nat × ClaimRow := ((db.settlementClaims.insertAll claims).nextKey o.nextval, row)

theorem exec_insertClaim (read : List (Pair × Int)) (claims : List (Nat × ClaimRow)) (db : Tables)
    (o : Oracle) (row : ClaimRow) :
    exec (.insertClaim row) o ((Entry.claimsTx read claims).view db) =
      .write [] (1 : Nat) [⟨.claim (nextClaim claims db o row).1, some row⟩] := by
  rw [view_claimsTx, exec]

theorem FreshClaims.push {claims : List (Nat × ClaimRow)} {db : Tables} (h : FreshClaims claims db)
    (o : Oracle) (row : ClaimRow) : FreshClaims (claims ++ [nextClaim claims db o row]) db := by
  have hid := Table.lookup_nextKey (db.settlementClaims.insertAll claims) o.nextval
  obtain ⟨hunused, hnew⟩ := Table.lookup_insertAll_eq_none.mp hid
  refine ⟨?_, fun c hc => ?_⟩
  · rw [List.map_append, List.nodup_append_comm]
    exact List.nodup_cons.mpr ⟨hnew, h.nodup⟩
  · rcases List.mem_append.mp hc with hc | hc
    · exact h.unused c hc
    · obtain rfl := List.mem_singleton.mp hc
      exact hunused

/-- A settlement holds the keys of its claims. -/
theorem FreshClaims.env {read : List (Pair × Int)} {claims : List (Nat × ClaimRow)}
    {t : Tx database} (ht : ∀ r ∈ (Entry.claimsTx read claims).locks, r ∈ t.locks)
    (h : FreshClaims claims sh.db) (he : (protocol X).Env κ (some t) sh sh') :
    FreshClaims claims sh'.db := by
  refine ⟨h.nodup, fun c hc => ?_⟩
  have hmem : Row.claim c.1 ∈ (Entry.claimsTx read claims).locks := by
    rw [Tx.locks, Entry.writes_claimsTx]
    refine List.mem_append_right _ (List.mem_map.mpr ⟨⟨.claim c.1, some c.2⟩, ?_, rfl⟩)
    exact List.mem_map.mpr ⟨c, hc, rfl⟩
  exact (he.frame (.claim c.1) (ht _ hmem)).trans (h.unused c hc)

theorem settlePairs_spec {read : List (Pair × Int)} {windowEnd : Int} {now : UInt64} :
    ∀ {todo : List (Pair × Int)} (done : List Pair) (claims : List (Nat × ClaimRow))
      {sh : State X}, sh.db.WellFormed → FreshClaims claims sh.db →
    (protocol X).Spec κ i op
      (fun _ tx sh => ∃ new, tx = some (Entry.claimsTx read (claims ++ new)) ∧
        FreshClaims (claims ++ new) sh.db ∧
        new.map Prod.snd = (netting read todo done).map (claimRow windowEnd))
      (fun _ _ _ => True) (settlePairs read windowEnd now todo done)
      (some (Entry.claimsTx read claims)) sh := by
  intro todo
  induction todo with
  | nil =>
    intro done claims sh _ hfresh
    refine Spec.ok fun sh₁ h₁ => ⟨[], by rw [List.append_nil], ?_, rfl⟩
    rw [List.append_nil]
    exact hfresh.env (fun _ h => h) h₁
  | cons head todo ih =>
    obtain ⟨pair, forward⟩ := head
    intro done claims sh hi hfresh
    unfold settlePairs netting
    by_cases hdone : pair ∈ done
    · rw [if_pos hdone, if_pos hdone]
      exact ih _ _ hi hfresh
    rw [if_neg hdone, if_neg hdone]
    dsimp only
    cases hnet : netOf pair forward ((read.lookup pair.swap).getD 0) with
    | none => exact ih _ _ hi hfresh
    | some claim =>
      obtain ⟨owes, amount⟩ := claim
      refine Spec.query_bind_tx (fun _ _ _ => trivial) ?_
      intro sh₁ o n ws h₁ hex
      have hfresh₂ := (hfresh.env (fun _ h => h) h₁).push o (claimRow windowEnd (owes, amount))
      have hx : exec (.insertClaim ⟨owes, amount, windowEnd, windowEnd⟩) o
          ((Entry.claimsTx read claims).view sh₁.db) = _ :=
        exec_insertClaim read claims sh₁.db o (claimRow windowEnd (owes, amount))
      simp only [hx, Effect.write, Except.ok.injEq, Prod.mk.injEq] at hex ⊢
      obtain ⟨rfl, rfl⟩ := hex
      have happ := claimsTx_append read claims
        (nextClaim claims sh₁.db o (claimRow windowEnd (owes, amount)))
      refine Spec.orThrow_bind (fun _ _ _ _ => trivial) fun net _ => ?_
      have htail := ih (pair.swap :: pair :: done) _ h₁.inv hfresh₂
      rw [happ] at htail
      refine Spec.bind h₁.inv htail fun rest tx sh₂ _ h₂ => ?_
      obtain ⟨new, rfl, hfresh₃, hrows⟩ := h₂
      refine Spec.ok fun sh₃ h₃ =>
        ⟨nextClaim claims sh₁.db o (claimRow windowEnd (owes, amount)) :: new, ?_, ?_, ?_⟩
      · rw [List.append_assoc]
        rfl
      · rw [List.append_assoc] at hfresh₃ h₃
        exact hfresh₃.env (fun _ h => h) h₃
      · rw [List.map_cons, List.map_cons, hrows]

/-- What a settlement reads of well-formed receivables. -/
theorem mem_selectReceivables {db : Tables} (hw : db.WellFormed) {o : Oracle} :
    ((arrange (db.receivables.rows.filter fun r => 0 < r.2) o.receivables).map Prod.fst).Nodup ∧
      ∀ r ∈ arrange (db.receivables.rows.filter fun r => 0 < r.2) o.receivables,
        0 < r.2 ∧ r.2 ≤ i64Max := by
  have hperm := arrange_perm (db.receivables.rows.filter fun r => 0 < r.2) o.receivables
  refine ⟨(hperm.map _).nodup_iff.mpr ?_, fun r hr => ?_⟩
  · exact db.receivables.nodup_rows.sublist (List.filter_sublist.map _)
  · obtain ⟨hmem, hpos⟩ := List.mem_filter.mp (hperm.mem_iff.mp hr)
    exact ⟨of_decide_eq_true hpos, (hw.receivable r.1 r.2 (Table.mem_rows.mp hmem)).2⟩

theorem settle_spec {caller : String} {now : UInt64} :
    (protocol X).Spec κ i (.postSettle caller) (fun _ _ _ => True) (fun _ _ _ => True)
      (settle now) none sh := by
  unfold settle
  refine Spec.orThrow_bind (fun _ _ _ _ => trivial) fun windowEnd _ => ?_
  refine Spec.transaction (fun _ _ _ _ _ => trivial) (fun _ _ _ => trivial) ?_
  intro sh₁ h₁
  refine Spec.read_bind_tx
    (fun o db => arrange (db.receivables.rows.filter fun r => 0 < r.2) o.receivables)
    (fun _ _ => rfl) (fun _ _ _ => trivial) fun sh₂ o h₂ => ?_
  obtain ⟨hnodup, hrange⟩ := mem_selectReceivables h₂.inv (o := o)
  rw [Tx.view_empty]
  generalize arrange (sh₂.db.receivables.rows.filter fun r => 0 < r.2) o.receivables = read
    at hnodup hrange
  refine Spec.bind h₂.inv (settlePairs_spec [] [] h₂.inv
    ⟨List.nodup_nil, fun _ h => absurd h (by simp)⟩) fun infos tx sh₃ hi₃ h₃ => ?_
  obtain ⟨claims, rfl, hfresh, hrows⟩ := h₃
  rw [List.nil_append] at hfresh ⊢
  refine Spec.query_bind_tx (fun _ _ _ => trivial) ?_
  intro sh₄ o n ws h₄ hex
  have hview : ((Entry.claimsTx read claims).view sh₄.db).receivables = sh₄.db.receivables := by
    rw [view_claimsTx]
  simp only [exec, hview, Effect.write, Except.ok.injEq, Prod.mk.injEq] at hex ⊢
  obtain ⟨rfl, rfl⟩ := hex
  refine Spec.ok fun sh₅ h₅ => ⟨_, rfl, ⟨.settle read claims sh₄.db.receivables.rows, rfl,
    ⟨hnodup, hrange, ⟨windowEnd, hrows⟩, hfresh.nodup, ?_, sh₄.db.receivables.nodup_rows,
      fun r hr => ?_⟩, trivial⟩, fun _ _ => trivial⟩
  · have hfresh₄ := hfresh.env (fun _ h => h) h₄
    exact (hfresh₄.env (fun r hr => Tx.mem_locks_push.mpr (Or.inl hr)) h₅).unused
  · -- The rows to delete are locked since the `DELETE` found them.
    have hlock : Row.receivable r.1 ∈ locksOf (D := database) (some (Tx.push
        (Entry.claimsTx read claims) .deleteReceivables sh₄.db.receivables.rows.length []
        (sh₄.db.receivables.rows.map fun r => ⟨.receivable r.1, none⟩))) := by
      refine Tx.mem_locks_push.mpr (Or.inr (Or.inr ?_))
      exact List.mem_map.mpr ⟨⟨.receivable r.1, none⟩, List.mem_map.mpr ⟨r, hr, rfl⟩, rfl⟩
    exact (h₅.frame (.receivable r.1) hlock).trans (Table.mem_rows.mp hr)

theorem setCap_spec {pair : Pair} {cents : UInt64}
    (hop : ∀ cap, i64TryFrom cents = some cap → (Entry.setCap pair cap).From op) :
    (protocol X).Spec κ i op (fun _ _ _ => True) (fun _ _ _ => True)
      (setCap pair cents) none sh := by
  unfold setCap
  refine Spec.orThrow_bind (fun _ _ _ _ => trivial) fun cap hcap => ?_
  have hc := toI64_eq_ok hcap
  refine Spec.query_bind_none (fun _ _ _ => trivial)
    (fun _ _ _ _ _ => Spec.ok fun _ _ => trivial) ?_
  intro sh₁ o n ws _ h₁ hex
  have hx : exec (.upsertCap pair cap) o sh₁.db =
      .write [] (1 : Nat) [⟨.exposureCap pair, some cap⟩] := by
    rw [exec, if_neg (Int.not_lt.mpr (i64TryFrom_nonneg hc))]
  simp only [hx, Effect.write, Except.ok.injEq, Prod.mk.injEq] at hex ⊢
  obtain ⟨rfl, rfl⟩ := hex
  exact ⟨⟨.setCap pair cap, rfl, ⟨i64TryFrom_nonneg hc, (i64TryFrom_eq_some hc).2⟩, hop cap hc⟩,
    fun _ => Spec.ok fun _ _ => trivial⟩

/-! ## Nonces -/

/-- The tables with another nonce store. -/
def Tables.withNonces (db : Tables) (store : Table String Int) : Tables :=
  { db with nonceStore := store }

/-- The registry purges by the time the check was given. -/
def nonces : NonceKeeping database RegistryError where
  store := Tables.nonceStore
  withStore := Tables.withNonces
  store_withStore _ _ := rfl
  withStore_withStore _ _ _ := rfl
  withStore_store _ := rfl
  row n v := ⟨.nonce n, v⟩
  put_row _ _ _ := rfl
  upsert := .upsertNonce
  affected _ _ _ n := n
  exec_upsert db n expiry now :=
    ⟨(1 : Nat), (0 : Nat), rfl, rfl, fun _ => Expiring.eq_ite_free
      (fun hl => by simp only [database, exec, hl]) fun _ hl => by simp only [database, exec, hl]⟩
  delete := .purgeNonces
  deleted _ n := n
  exec_delete _ _ _ := rfl
  count := .nonceOpsFetchAdd
  ops n := n
  toI64 := toI64
  toI64_eq _ h := by rw [toI64, h]
  again now _ := .ok now
  again_eq _ := rfl

theorem purgeExpiredNonces_eq : purgeExpiredNonces = nonces.purge := rfl

theorem checkAndRecordNonce_eq : checkAndRecordNonce = nonces.check := rfl

/-- The calls that purge nonces. -/
def Purges (op : Op) : Prop := op = .connect ∨ ∃ request, op = .authenticate request

theorem mayPurge (hop : Purges op) : nonces.MayPurge (protocol X) κ i op := by
  intro sh now expired hvalid
  refine ⟨.purge now expired, rfl, hvalid, ?_⟩
  rcases hop with rfl | ⟨request, rfl⟩ <;> exact trivial

theorem recorded_reaches {request : Request} (h : Recorded i request sh)
    (hm : (protocol X).Reaches κ sh sh') : Recorded i request sh' := by
  obtain ⟨c, hc, hrest⟩ := h
  exact ⟨c, hm.mem_hist hc, hrest⟩

theorem checkAndRecordNonce_spec {request : Request} {auth : AuthHeaders} {clock : UInt64}
    (hauth : readHeaders request = .ok auth)
    (hwindow : outsideWindow auth.timestamp clock = false) :
    (protocol X).Spec κ i (.authenticate request)
      (fun fresh tx sh => tx = none ∧ (fresh = true → Recorded i request sh)) Closed
      (checkAndRecordNonce auth.nonce clock nonceTtlSecs) none sh := by
  refine nonces.check_spec recorded_reaches (mayPurge (Or.inr ⟨request, rfl⟩)) ?_
  intro sh expiry now hit hexpiry hnow hfree hhit
  obtain rfl : hit = (1 : Nat) := hhit
  refine ⟨⟨.recordNonce auth.nonce expiry now, rfl, fun _ => Expiring.le_of_free hfree, auth, clock,
    hauth, rfl, hwindow, toI64_eq_ok hnow, toI64_eq_ok hexpiry⟩, ?_⟩
  exact ⟨_, List.mem_cons_self .., rfl, rfl, auth.nonce, expiry, now, rfl⟩

theorem checkAndRecordNonce_alone {S : Service database} {i : CallId} {op : S.Op}
    {sh : Shared database S.Op} {n : String} {now ttl : UInt64} {nowI expiry : Int}
    (hnow : i64TryFrom now = some nowI)
    (hexpiry : i64TryFrom (saturatingAdd now ttl) = some expiry) :
    Alone.Spec (S := S) Calm i op (fun _ => True)
      (fun fresh tx sh' => tx = none ∧ fresh = Expiring.free sh.db.nonceStore n nowI ∧
        ∃ store, sh'.db = sh.db.withNonces store ∧
          Checked expiry nowI n sh.db.nonceStore store)
      (fun _ _ _ => False) (checkAndRecordNonce n now ttl) none sh :=
  nonces.check_alone hnow hexpiry

theorem authenticate_spec {request : Request} (hi : sh.db.WellFormed) :
    (protocol X).Spec κ i (.authenticate request) (fun _ _ sh => Recorded i request sh) Closed
      (authenticate X request) none sh :=
  Digicash.authenticate_spec hi recorded_reaches memberPubkey_spec
    (Spec.perform fun _ _ _ _ _ _ _ _ _ => rfl) checkAndRecordNonce_spec

theorem connect_spec :
    (protocol X).Spec κ i .connect (fun _ _ _ => True) (fun _ _ _ => True) connect none sh := by
  unfold connect nowUnix
  refine Spec.perform_bind fun sh₁ o now m h₁ hext hi₁ => ?_
  refine Spec.bind hi₁ ((nonces.purge_spec (mayPurge (Or.inl rfl)) now).mono (fun _ _ _ _ h => h)
    fun _ _ _ _ _ => trivial) fun _ tx sh₂ hi₂ h₂ => ?_
  subst h₂
  exact Spec.perform fun _ _ _ _ _ _ _ _ _ => trivial

/-! ## The API -/

theorem ensureAdmin_spec {caller : String} (hi : sh.db.WellFormed) :
    (protocol X).Spec κ i op (fun _ tx _ => tx = none) (fun _ _ _ => True)
      (Api.ensureAdmin caller) none sh := by
  unfold Api.ensureAdmin
  refine Spec.bind hi (Spec.mapErr hi isAdmin_spec) fun admin tx sh₁ _ h₁ => ?_
  subst h₁
  cases admin with
  | true => exact Spec.ok fun _ _ => rfl
  | false => exact Spec.throw fun _ _ => trivial

theorem postMember_spec {caller : String} {req : RegisterMemberRequest} (hi : sh.db.WellFormed) :
    (protocol X).Spec κ i (.postMember caller req) (fun _ _ _ => True) (fun _ _ _ => True)
      (Api.registerMember X caller req) none sh := by
  unfold Api.registerMember
  refine Spec.bind hi (ensureAdmin_spec hi) fun _ tx sh₁ hi₁ h₁ => ?_
  subst h₁
  refine Spec.orThrow_bind (fun _ _ _ _ => trivial) fun key _ => ?_
  exact Spec.mapErr hi₁ (registerMember_spec ⟨rfl, rfl⟩)

theorem postSerial_spec (hi : sh.db.WellFormed) :
    (protocol X).Spec κ i (.postSerial caller submission) (SerialPost i caller submission)
      (fun _ _ _ => True) (Api.postSerial caller submission) none sh := by
  unfold Api.postSerial
  refine Spec.bind (R := fun _ tx _ => tx = none) hi
    (Spec.mapErr hi (Spec.perform fun _ _ _ _ _ _ _ _ _ => rfl)) fun now tx sh₁ hi₁ h₁ => ?_
  subst h₁
  exact Spec.mapErr hi₁ submitSerial_spec

theorem postCap_spec {caller : String} {req : SetCapRequest} (hi : sh.db.WellFormed) :
    (protocol X).Spec κ i (.postCap caller req) (fun _ _ _ => True) (fun _ _ _ => True)
      (Api.setCap caller req) none sh := by
  unfold Api.setCap
  refine Spec.bind hi (ensureAdmin_spec hi) fun _ tx sh₁ hi₁ h₁ => ?_
  subst h₁
  exact Spec.mapErr hi₁ (setCap_spec fun cap hcap => ⟨rfl, hcap⟩)

theorem postSettle_spec {caller : String} (hi : sh.db.WellFormed) :
    (protocol X).Spec κ i (.postSettle caller) (fun _ _ _ => True) (fun _ _ _ => True)
      (Api.postSettle caller) none sh := by
  unfold Api.postSettle
  refine Spec.bind hi (ensureAdmin_spec hi) fun _ tx sh₁ hi₁ h₁ => ?_
  subst h₁
  refine Spec.bind (R := fun _ tx _ => tx = none) hi₁
    (Spec.mapErr hi₁ (Spec.perform fun _ _ _ _ _ _ _ _ _ => rfl)) fun now tx sh₂ hi₂ h₂ => ?_
  subst h₂
  exact Spec.mapErr hi₂ settle_spec

/-! ## The registry -/

theorem post_move {a : Ans} (hi : sh.db.WellFormed) (h : Post i op a sh)
    (hm : (protocol X).Move κ sh sh') : Post i op a sh' := by
  have hreach : (protocol X).Reaches κ sh sh' := ⟨.single hm, move_wellFormed hi hm⟩
  unfold Post at h ⊢
  split at h
  · exact recorded_reaches h hreach
  · exact submitted_reaches h hreach
  · trivial

/-- No promise is about the process's memory. -/
theorem post_reboot {a : Ans} (h : Post i op a sh) :
    Post i op a ({ sh with mem := reboot sh.mem } : State X) := by
  unfold Post at h ⊢
  split at h
  · exact h
  · exact ⟨h.accepted, h.doubleSpent⟩
  · trivial

/-- **Every call of the registry, in every interleaving, commits only entries of its ledger,
    and every answer keeps its promise.** -/
theorem sound : (protocol X).Sound where
  inv_move := move_wellFormed
  inv_reboot h := h
  post_move hi h hm := post_move hi h hm
  post_reboot _ h := post_reboot h
  code {κ i op sh} hi := by
    cases op with
    | connect =>
      exact Spec.answer hi connect_spec (fun _ _ _ _ => trivial) fun _ _ _ _ => trivial
    | registerMember b k a =>
      exact Spec.answer hi (registerMember_spec ⟨rfl, rfl⟩) (fun _ _ _ _ => trivial)
        fun _ _ _ _ => trivial
    | authenticate r =>
      exact Spec.answer hi (authenticate_spec hi) (fun _ _ _ h => h) fun _ _ _ _ => trivial
    | postMember caller req =>
      exact Spec.answer hi (postMember_spec hi) (fun _ _ _ _ => trivial) fun _ _ _ _ => trivial
    | postSerial caller submission =>
      exact Spec.answer hi (postSerial_spec hi) (fun _ _ _ h => h) fun _ _ _ _ => trivial
    | postCap caller req =>
      exact Spec.answer hi (postCap_spec hi) (fun _ _ _ _ => trivial) fun _ _ _ _ => trivial
    | postSettle caller =>
      exact Spec.answer hi (postSettle_spec hi) (fun _ _ _ _ => trivial) fun _ _ _ _ => trivial

/-! ## Runs -/

theorem wellFormed_empty : Tables.empty.WellFormed :=
  ⟨fun _ _ h => absurd h (by simp [Tables.empty])⟩

variable {π : Policy (service X)} {s : Sys (service X)}

theorem good (h : Sys.Steps π (start X) s) : s.Good (protocol X) :=
  ((Sys.good_init wellFormed_empty).steps sound h).1

/-- **The invariant rule of the registry.** -/
theorem invariant {J : State X → Prop} (h : Sys.Steps π (start X) s)
    (h0 : J ⟨.empty, .fresh, []⟩)
    (hentry : ∀ {sh : State X} {call : CallId} {op : Op} {e : Entry},
      sh.db.WellFormed → J sh → e.Valid sh.db → e.From op →
        π.commit sh ⟨call, op, e.tx, sh.db⟩ →
          J ⟨e.apply sh.db, sh.mem, ⟨call, op, e.tx, sh.db⟩ :: sh.hist⟩)
    (hmem : ∀ {sh : State X} {m : Memory}, J sh → J { sh with mem := m }) : J s.shared := by
  have hinit : Sys.Good (protocol X) (start X) := Sys.good_init wellFormed_empty
  exact Ledger.invariant sound hinit h (J := fun _ sh => J sh) h0 hentry
    (fun h _ => hmem h) (fun h _ => hmem h)

/-- What is so of every entry that may be committed is so of every commit there is. -/
theorem of_commits {P : Commit database Op → Prop} (h : Sys.Steps π (start X) s)
    (hentry : ∀ {db : Tables} {call : CallId} {op : Op} {e : Entry}, e.Valid db → e.From op →
      P ⟨call, op, e.tx, db⟩) : ∀ c ∈ s.shared.hist, P c :=
  Ledger.commits sound (Sys.good_init wellFormed_empty) h
    (fun _ hc => absurd hc List.not_mem_nil) hentry

end Digicash.Registry
