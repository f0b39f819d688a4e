import Digicash.Registry.Attribution

/-!
# Transcripts are dated

A transcript carries the time it was appended at, read from the clock as a `u64` and stored as an
`i64`. What the code stores is never negative, so what is stored can always be read back: that is
a property of every statement the code issues (`dated_code`), and so of every row there is.
-/

namespace Digicash.Registry

open Lib

variable {X : Crypto}

/-- A transcript that is appended has a date that is not negative. -/
def dated : Cmd database → Prop
  | .stmt (.insertTranscript row) => 0 ≤ row.seenAt
  | _ => True

theorem dated_sql {s : Stmt} (h : dated (.stmt s)) : (sql s).run.Only dated := only_query h

theorem dated_ask (e : Ext) : (ask e).run.Only dated := ⟨trivial, fun _ => trivial⟩

theorem dated_orThrow {ε α : Type} (x : Except ε α) :
    (orThrow x : Fallible database ε α).run.Only dated := trivial

theorem dated_registerMember (b : String) (k : Bytes) (a : Bool) :
    (registerMember b k a).run.Only dated := by
  refine only_bind (dated_sql trivial) fun inserted => ?_
  split <;> trivial

theorem dated_ensureAdmin (caller : String) : (Api.ensureAdmin caller).run.Only dated := by
  refine only_bind (only_mapErr (only_bind (dated_sql trivial) fun _ => trivial)) fun admin => ?_
  split <;> trivial

theorem dated_purge (now : UInt64) : (purgeExpiredNonces now).run.Only dated :=
  only_bind (dated_orThrow _) fun _ => only_bind (dated_sql trivial) fun _ => trivial

theorem dated_checkAndRecordNonce (nonce : String) (now ttl : UInt64) :
    (checkAndRecordNonce nonce now ttl).run.Only dated := by
  refine only_bind (dated_orThrow _) fun expiry => only_bind (dated_orThrow _) fun nowI => ?_
  refine only_bind (dated_sql trivial) fun affected => only_bind (dated_ask _) fun ops => ?_
  split
  · exact only_bind (dated_purge now) fun _ => trivial
  · trivial

theorem dated_submitSerial (caller : String) (submission : SerialSubmission) (now : UInt64) :
    (submitSerial caller submission now).run.Only dated := by
  unfold submitSerial
  refine only_bind (dated_orThrow _) fun denom => ?_
  cases hseen : toI64 now "timestamp" with
  | error e => trivial
  | ok seen =>
    have h0 : 0 ≤ seen := i64TryFrom_nonneg (toI64_eq_ok hseen)
    refine only_transaction trivial trivial trivial (only_bind ?_ fun reached => ?_)
    · unfold capReached
      refine only_bind (dated_sql trivial) fun cap => ?_
      cases cap with
      | none => trivial
      | some cap => exact only_bind (dated_sql trivial) fun _ => trivial
    split
    · trivial
    refine only_bind (dated_sql h0) fun _ => only_bind (dated_sql trivial) fun inserted => ?_
    split
    · exact only_bind (dated_sql trivial) fun _ => trivial
    · exact only_bind (dated_sql trivial) fun rows => only_bind (dated_orThrow _) fun _ => trivial

theorem dated_settlePairs (amounts : List (Pair × Int)) (windowEnd : Int) (now : UInt64) :
    ∀ (todo : List (Pair × Int)) (done : List Pair),
      (settlePairs amounts windowEnd now todo done).run.Only dated := by
  intro todo
  induction todo with
  | nil => exact fun _ => trivial
  | cons head todo ih =>
    intro done
    unfold settlePairs
    split
    · exact ih _
    dsimp only
    split
    · exact ih _
    · exact only_bind (dated_sql trivial) fun _ => only_bind (dated_orThrow _) fun _ =>
        only_bind (ih _) fun _ => trivial

theorem dated_settle (now : UInt64) : (settle now).run.Only dated := by
  refine only_bind (dated_orThrow _) fun windowEnd => only_transaction trivial trivial trivial ?_
  refine only_bind (dated_sql trivial) fun amounts => ?_
  exact only_bind (dated_settlePairs ..) fun _ => only_bind (dated_sql trivial) fun _ => trivial

theorem dated_authenticate (X : Crypto) (request : Request) :
    (authenticate X request).run.Only dated := by
  refine only_bind (dated_orThrow _) fun auth => only_bind (only_mapErr ?_) fun found => ?_
  · refine only_bind (dated_sql trivial) fun row => ?_
    cases row with
    | none => trivial
    | some bytes =>
      dsimp only
      split
      · exact only_bind (dated_orThrow _) fun _ => trivial
      · trivial
  cases found with
  | none => trivial
  | some pubkey =>
    refine only_bind (only_mapErr (dated_ask _)) fun now => ?_
    split
    · trivial
    refine only_bind (dated_orThrow _) fun signature => ?_
    split
    · trivial
    · refine only_bind (only_mapErr (dated_checkAndRecordNonce ..)) fun fresh => ?_
      split <;> trivial

theorem dated_map {α : Type} {f : α → Ans} {x : Code database α} (h : x.Only dated) :
    (f <$> x).Only dated :=
  Prog.Only.bind (f := fun a => Prog.pure (f a)) (fun _ => trivial) h

/-- Whatever a call is about, it appends no transcript with a negative date. -/
theorem dated_code (X : Crypto) (op : Op) : (code X op).Only dated := by
  cases op with
  | connect =>
    exact dated_map (only_bind (dated_ask _) fun now => only_bind (dated_purge now) fun _ =>
      dated_ask _)
  | registerMember b k a => exact dated_map (dated_registerMember b k a)
  | authenticate request => exact dated_map (dated_authenticate X request)
  | postMember caller req =>
    exact dated_map (only_bind (dated_ensureAdmin caller) fun _ => only_bind (dated_orThrow _)
      fun k => only_mapErr (dated_registerMember ..))
  | postSerial caller submission =>
    exact dated_map (only_bind (only_mapErr (dated_ask _)) fun now =>
      only_mapErr (dated_submitSerial ..))
  | postCap caller req =>
    refine dated_map (only_bind (dated_ensureAdmin caller) fun _ => only_mapErr ?_)
    exact only_bind (dated_orThrow _) fun cap => only_bind (dated_sql trivial) fun _ => trivial
  | postSettle caller =>
    exact dated_map (only_bind (dated_ensureAdmin caller) fun _ =>
      only_bind (only_mapErr (dated_ask _)) fun now => only_mapErr (dated_settle now))

/-- Every transcript was appended by a commit. -/
theorem appended {s : Sys (service X)} (h : Sys.Steps .any (start X) s) {id : Nat}
    {row : TranscriptRow} (hid : s.shared.db.transcripts.lookup id = some row) :
    ∃ c ∈ s.shared.hist, ∃ e ∈ c.tx.trace, e.1 = .insertTranscript row := by
  refine invariant (J := fun sh => ∀ id row, sh.db.transcripts.lookup id = some row →
    ∃ c ∈ sh.hist, ∃ e ∈ c.tx.trace, e.1 = .insertTranscript row) h
    (fun _ _ hid => absurd hid (by simp [Tables.empty])) ?_ (fun hj => hj) id row hid
  intro sh call op e _ hj _ _ _ id row hid
  have hnew : ∀ (id' : Nat) (row' : TranscriptRow),
      (∃ r ∈ e.tx.trace, r.1 = .insertTranscript row') →
        (sh.db.transcripts.put id' (some row')).lookup id = some row →
          ∃ c ∈ (⟨call, op, e.tx, sh.db⟩ : Commit database Op) :: sh.hist,
            ∃ r ∈ c.tx.trace, r.1 = .insertTranscript row := by
    intro id' row' htrace hid
    rw [Table.lookup_put] at hid
    split at hid
    · obtain rfl := Option.some.inj hid
      exact ⟨_, List.mem_cons_self .., htrace⟩
    · obtain ⟨c, hc, hrest⟩ := hj id row hid
      exact ⟨c, List.mem_cons_of_mem _ hc, hrest⟩
  cases e with
  | accept check id' pair key row' outstanding =>
    refine hnew id' _ ⟨⟨.insertTranscript (row'.transcriptRow key), (1 : Nat)⟩, ?_, rfl⟩ hid
    simp [Entry.tx, Entry.serialTx, Entry.transcriptTx, Tx.push]
  | doubleSpend check id' pair key row' seen =>
    refine hnew id' _ ⟨⟨.insertTranscript (row'.transcriptRow key), (1 : Nat)⟩, ?_, rfl⟩ hid
    simp [Entry.tx, Entry.serialTx, Entry.transcriptTx, Tx.push]
  | _ =>
    obtain ⟨c, hc, hrest⟩ := hj id row hid
    exact ⟨c, List.mem_cons_of_mem _ hc, hrest⟩

theorem seenAt_nonneg {s : Sys (service X)} (h : Sys.Steps .any (start X) s) {id : Nat}
    {row : TranscriptRow} (hid : s.shared.db.transcripts.lookup id = some row) :
    0 ≤ row.seenAt := by
  obtain ⟨c, hc, ⟨st, n⟩, he, rfl⟩ := appended h hid
  have hran := ((Sys.ran_of_steps h (quiescent_start X)).commits c hc).resolve_left
    (fun hc => absurd hc (by simp [start, Sys.init]))
  exact hran.issued (fun _ => dated_code X)
    (fun _ _ hl => absurd hl (by simp [start, Sys.init])) _ he

end Digicash.Registry
