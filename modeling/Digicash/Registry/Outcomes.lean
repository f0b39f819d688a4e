import Digicash.Registry.Exposure
import Digicash.Registry.Netting
import Digicash.Registry.Transcripts

/-!
# The outcomes of a submission

What `submit_serial` is for: it makes its checks in order and answers what the first one that
fails says; where none fails it appends the transcript, records the serial under the depositor
and adds the coin to the pair's receivable. The one check that fails and still writes is the one
for a double-spend, which keeps the transcript as evidence. `submission_refines` says that the
code, run by itself on any tables the registry can come to, is this operation.
-/

namespace Digicash.Registry

open Lib

variable {X : Crypto} {i : CallId} {op : Op} {sh : State X} {db : Tables} {caller : String}
  {submission : SerialSubmission} {now : UInt64}

/-! ## The operation -/

/-- The submitted coin's denomination, as the number it is. -/
def worth (submission : SerialSubmission) : Int := submission.denominationCents.toNat

/-- The serial it is recorded under. -/
def keyOf (submission : SerialSubmission) : SerialKey := serialKey submission (worth submission)

/-- Who deposited it first, and with which transcript. -/
def firstOf (caller : String) (submission : SerialSubmission) (now : UInt64) : SerialRow :=
  ⟨caller, submission.transcript, now.toNat⟩

/-- The evidence of a double-spend, as it is told. -/
def entriesOf (rows : List TranscriptRow) : List TranscriptEntry :=
  rows.map fun row => ⟨row.bankId, row.transcript, UInt64.ofNat row.seenAt.toNat⟩

/-- One transcript more. -/
def Tables.afterTranscript (db : Tables) (id : Nat) (caller : String)
    (submission : SerialSubmission) (now : UInt64) : Tables :=
  { db with transcripts :=
      db.transcripts.put id (some ((firstOf caller submission now).transcriptRow (keyOf submission))) }

/-- And the serial recorded, and the coin receivable. -/
def Tables.afterSubmission (db : Tables) (id : Nat) (caller : String)
    (submission : SerialSubmission) (now : UInt64) : Tables :=
  { db.afterTranscript id caller submission now with
    serials := db.serials.put (keyOf submission) (some (firstOf caller submission now))
    receivables := db.receivables.put (submissionPair caller submission)
      (some (db.receivable (submissionPair caller submission) + worth submission)) }

/-- A cap is set for the pair and its receivable has reached it. -/
def Tables.capReached (db : Tables) (pair : Pair) : Prop :=
  ∃ cap, db.exposureCaps.lookup pair = some cap ∧ cap ≤ db.receivable pair

/-- The checks in order, each with what is answered and what the tables are where it fails. -/
def submissionChecks (db : Tables) (id : Nat) (caller : String) (submission : SerialSubmission)
    (now : UInt64) : List (Prop × Except RegistryError SerialResponse × Tables) :=
  let evidence := db.afterTranscript id caller submission now
  [(worth submission ≤ i64Max, .error (.valueRange
      ("denomination " ++ toString submission.denominationCents ++ " exceeds the i64 range")), db),
    ((now.toNat : Int) ≤ i64Max, .error (.valueRange
      ("timestamp " ++ toString now ++ " exceeds the i64 range")), db),
    (¬ db.capReached (submissionPair caller submission), .ok ⟨.exposureCapExceeded, []⟩, db),
    (db.serials.lookup (keyOf submission) = none,
      .ok ⟨.doubleSpend, entriesOf (evidence.transcriptsOf (keyOf submission))⟩, evidence),
    (db.receivable (submissionPair caller submission) + worth submission ≤ i64Max,
      .error (.db .numericOverflow), db)]

/-- The checks decide the answer, and what the tables are afterwards. The transcript's key is
    whichever the sequence gives out. -/
def EndsSubmission (db : Tables) (caller : String) (submission : SerialSubmission) (now : UInt64)
    (r : Except RegistryError SerialResponse) (db' : Tables) : Prop :=
  ∃ id, db.transcripts.lookup id = none ∧ Decides (submissionChecks db id caller submission now)
    (.ok ⟨.accepted, []⟩, db.afterSubmission id caller submission now) (r, db')

/-! ## The code is this operation -/

theorem mapM_toEntry : ∀ {rows : List TranscriptRow}, (∀ row ∈ rows, 0 ≤ row.seenAt) →
    rows.mapM toEntry = .ok (entriesOf rows) := by
  intro rows
  induction rows with
  | nil => exact fun _ => rfl
  | cons row rows ih =>
    intro h
    have hrow : toEntry row = .ok ⟨row.bankId, row.transcript, UInt64.ofNat row.seenAt.toNat⟩ := by
      rw [toEntry, toU64, u64TryFrom, if_pos (h row (List.mem_cons_self ..))]
      rfl
    rw [List.mapM_cons, hrow, ih fun r hr => h r (List.mem_cons_of_mem _ hr)]
    rfl

/-- The transcript that is appended is dated too. -/
theorem afterTranscript_dated {id : Nat} {key : SerialKey}
    (hdated : ∀ id row, db.transcripts.lookup id = some row → 0 ≤ row.seenAt) :
    ∀ row ∈ (db.afterTranscript id caller submission now).transcriptsOf key, 0 ≤ row.seenAt := by
  intro row hrow
  obtain ⟨⟨id', row'⟩, hmem, rfl⟩ := List.mem_map.mp hrow
  have hl := (mem_transcriptsOf.mp hmem).1
  rw [Tables.afterTranscript, Table.lookup_put] at hl
  split at hl
  · obtain rfl := Option.some.inj hl
    exact Int.natCast_nonneg _
  · exact hdated id' row' hl

variable {A : Outcomes (service X)} {F G : Prop}

/-- The check for the cap. -/
theorem capReached_open {E : RegistryError → Option (Tx database) → State X → Prop} (pair : Pair)
    (hfault : ∀ fault o, fault ≠ .none → A fault o sh sh → E (fromSql .connection) none sh) :
    Alone.Spec A i op (fun _ => True)
      (fun reached tx sh' => sh' = sh ∧ (∃ check, tx = some (Entry.capTx pair check)) ∧
        (reached = true ↔ sh.db.capReached pair)) E (capReached pair) (some .empty) sh := by
  unfold capReached
  have hselect : ∀ o, exec (.selectCap pair) o sh.db =
      .write [] (sh.db.exposureCaps.lookup pair) [] := fun o => rfl
  refine Alone.Spec.write_bind_open hselect trivial hfault ?_
  cases hcap : sh.db.exposureCaps.lookup pair with
  | none =>
    refine Alone.Spec.ok ⟨rfl, ⟨none, rfl⟩, fun hf => absurd hf (by simp), ?_⟩
    rintro ⟨cap, hsome, -⟩
    exact absurd (hcap.symm.trans hsome) (by simp)
  | some cap =>
    have hamount : ∀ o, exec (.selectReceivable pair) o sh.db =
        .write [] (sh.db.receivables.lookup pair) [] := fun o => rfl
    refine Alone.Spec.write_bind_open hamount trivial hfault ?_
    refine Alone.Spec.ok ⟨rfl, ⟨some (cap, _), rfl⟩, decide_eq_true_iff.trans ?_⟩
    constructor
    · exact fun hle => ⟨cap, hcap, hle⟩
    · rintro ⟨cap', hcap', hle⟩
      obtain rfl := Option.some.inj (hcap.symm.trans hcap')
      exact hle

/-- The transcript is appended, under the key that the sequence gives out. -/
theorem insertTranscript_bind {α : Type} {pair : Pair} {check : CapCheck} {row : TranscriptRow}
    {f : Nat → RegistryM α} {Q : α → Option (Tx database) → State X → Prop}
    {E : RegistryError → Option (Tx database) → State X → Prop}
    (hfault : ∀ fault o, fault ≠ .none → A fault o sh sh → E (fromSql .connection) none sh)
    (hok : ∀ id, sh.db.transcripts.lookup id = none → Alone.Spec A i op (fun _ => True) Q E (f 1)
      (some (Entry.transcriptTx check id pair row)) sh) :
    Alone.Spec A i op (fun _ => True) Q E (sql (.insertTranscript row) >>= f)
      (some (Entry.capTx pair check)) sh := by
  refine Alone.Spec.query_bind_open trivial hfault (fun o e he => by cases he) fun o n ws hr => ?_
  have hid := Table.lookup_nextKey sh.db.transcripts o.nextval
  generalize hnext : sh.db.transcripts.nextKey o.nextval = id at hid
  have hx : exec (.insertTranscript row) o ((Entry.capTx pair check).view sh.db) =
      .write [] (1 : Nat) [⟨.transcript id, some row⟩] := by
    rw [view_capTx, exec, hnext]
  change (exec (.insertTranscript row) o _).result = _ at hr
  change Alone.Spec A i op _ _ _ _ (some (Tx.push _ (Stmt.insertTranscript row) n
    (exec (.insertTranscript row) o _).waits ws)) sh
  rw [hx] at hr ⊢
  obtain ⟨rfl, rfl⟩ := Prod.mk.inj (Except.ok.inj hr)
  exact hok id hid

/-- The receivable grows by the coin, unless it would not fit. -/
theorem exec_addReceivable {pair : Pair} {denom : Int} (hw : db.WellFormed) (h0 : 0 ≤ denom)
    (hmax : denom ≤ i64Max) (o : Oracle) :
    exec (.addReceivable pair denom) o db =
      if db.receivable pair + denom ≤ i64Max then
        .write [] (1 : Nat) [⟨.receivable pair, some (db.receivable pair + denom)⟩]
      else .fail [.receivable pair] .numericOverflow := by
  cases hl : db.receivables.lookup pair with
  | none =>
    have hzero : db.receivable pair = 0 := by rw [Tables.receivable, hl, Option.getD_none]
    simp only [exec, hl, hzero, zero_add]
    rw [if_neg (Int.not_lt.mpr h0), if_pos hmax]
  | some amount =>
    have hsome : db.receivable pair = amount := by rw [Tables.receivable, hl, Option.getD_some]
    have hamount := (hw.receivable pair amount hl).1
    simp only [exec, hl, hsome]
    by_cases hfits : amount + denom ≤ i64Max
    · rw [if_neg (by unfold i64Min; omega), if_neg (by omega), if_pos hfits]
    · rw [if_pos (by omega), if_neg hfits]

theorem view_serialTx (check : CapCheck) (id : Nat) (pair : Pair) (key : SerialKey)
    (row : SerialRow) (n : Nat) (ws : List (Write Cell)) (db : Tables) :
    (Entry.serialTx check id pair key row n ws).view db = applyWrites (D := database)
      { db with transcripts := db.transcripts.put id (some (row.transcriptRow key)) } ws := by
  show applyWrites db ((Entry.transcriptTx check id pair (row.transcriptRow key)).writes ++ ws) = _
  rw [applyWrites_append]
  exact congrArg (fun db : Tables => applyWrites (D := database) db ws) (view_transcriptTx ..)

/-- A serial that is there is left alone, and one that is not is recorded. -/
theorem exec_insertSerial (check : CapCheck) (id : Nat) (pair : Pair) (key : SerialKey)
    (row : SerialRow) (db : Tables) (o : Oracle) :
    exec (.insertSerial key row) o
        ((Entry.transcriptTx check id pair (row.transcriptRow key)).view db) =
      match db.serials.lookup key with
      | some _ => .write [] (0 : Nat) []
      | none => .write [] (1 : Nat) [⟨.serial key, some row⟩] := by
  rw [view_transcriptTx]
  rfl

/-- What the tables are where the caller is told of a failure: as the checks have them; as they
    were, if a command failed before it took effect (`F`); or as an answer would have left them
    that was lost with the acknowledgement of the `COMMIT` (`G`). -/
def FailsSubmission (F G : Prop) (db : Tables) (caller : String) (submission : SerialSubmission)
    (now : UInt64) (e : RegistryError) (db' : Tables) : Prop :=
  EndsSubmission db caller submission now (.error e) db' ∨ F ∧ db' = db ∨
    G ∧ ∃ response, EndsSubmission db caller submission now (.ok response) db'

theorem submitSerial_outcome (caller : String) (submission : SerialSubmission) (now : UInt64)
    (hw : sh.db.WellFormed)
    (hdated : ∀ id row, sh.db.transcripts.lookup id = some row → 0 ≤ row.seenAt)
    (hF : ∀ fault o, fault ≠ .none → A fault o sh sh → F)
    (hG : ∀ o t, A .after o sh (sh.commit i op t) → G) :
    Alone.Spec A i op (fun _ => True)
      (fun response tx sh' => tx = none ∧
        EndsSubmission sh.db caller submission now (.ok response) sh'.db)
      (fun e tx sh' => tx = none ∧ FailsSubmission F G sh.db caller submission now e sh'.db)
      (submitSerial caller submission now) none sh := by
  have hsome : ∃ id, sh.db.transcripts.lookup id = none :=
    ⟨_, Table.lookup_nextKey sh.db.transcripts 0⟩
  have hlost : ∀ fault o, fault ≠ .none → A fault o sh sh → (none : Option (Tx database)) = none ∧
      FailsSubmission F G sh.db caller submission now (fromSql .connection) sh.db :=
    fun fault o hne hA => ⟨rfl, Or.inr (Or.inl ⟨hF fault o hne hA, rfl⟩)⟩
  unfold submitSerial
  refine Alone.Spec.orThrow_bind (fun e he => ⟨rfl, Or.inl ?_⟩) fun denom hdenom => ?_
  · unfold toI64 i64TryFrom at he
    split at he
    · cases he
    · rename_i hrange
      cases he
      refine hsome.imp fun id hid => ⟨hid, Decides.stop fun hle => ?_⟩
      rw [if_pos (show (submission.denominationCents.toNat : Int) ≤ i64Max from hle)] at hrange
      cases hrange
  obtain ⟨hworth, hmax⟩ := i64TryFrom_eq_some (toI64_eq_ok hdenom)
  obtain rfl : denom = worth submission := hworth
  refine Alone.Spec.orThrow_bind (fun e he => ⟨rfl, Or.inl ?_⟩) fun seen hseen => ?_
  · unfold toI64 i64TryFrom at he
    split at he
    · cases he
    · rename_i hrange
      cases he
      refine hsome.imp fun id hid => ⟨hid, Decides.pass (Decides.stop fun hle => ?_) hmax⟩
      rw [if_pos hle] at hrange
      cases hrange
  obtain ⟨hnow, hmaxNow⟩ := i64TryFrom_eq_some (toI64_eq_ok hseen)
  obtain rfl : seen = now.toNat := hnow
  refine Alone.Spec.transaction_open trivial hlost ?_
  refine Alone.Spec.bind trivial (capReached_open _ hlost) fun reached tx sh' _ h => ?_
  obtain ⟨rfl, ⟨check, rfl⟩, hreached⟩ := h
  by_cases hcap : sh'.db.capReached (submissionPair caller submission)
  · rw [if_pos (hreached.mpr hcap)]
    refine Alone.Spec.ok ⟨rfl, hsome.imp fun id hid => ⟨hid, ?_⟩⟩
    exact ((Decides.stop fun hnot => hnot hcap).pass hmaxNow).pass hmax
  rw [if_neg fun h => hcap (hreached.mp h)]
  refine insertTranscript_bind hlost fun id hid => ?_
  have hpass : ∀ {r db' db''}, db'' = db' →
      Decides ((submissionChecks sh'.db id caller submission now).drop 3)
        (.ok ⟨.accepted, []⟩, sh'.db.afterSubmission id caller submission now) (r, db') →
          EndsSubmission sh'.db caller submission now r db'' := fun hdb h =>
    ⟨id, hid, hdb ▸ ((h.pass hcap).pass hmaxNow).pass hmax⟩
  have hinsert := exec_insertSerial check id (submissionPair caller submission) (keyOf submission)
    (firstOf caller submission now) sh'.db
  cases hfirst : sh'.db.serials.lookup (keyOf submission) with
  | some first =>
    simp only [hfirst] at hinsert
    refine Alone.Spec.write_bind_open hinsert trivial hlost ?_
    rw [if_neg Nat.zero_ne_one]
    have hselect : ∀ o, exec (.selectTranscripts (keyOf submission)) o
        ((Entry.serialTx check id (submissionPair caller submission) (keyOf submission)
          (firstOf caller submission now) 0 []).view sh'.db) =
            .write [] ((sh'.db.afterTranscript id caller submission now).transcriptsOf
              (keyOf submission)) [] := by
      intro o
      rw [view_serialTx]
      rfl
    refine Alone.Spec.write_bind_open hselect trivial hlost ?_
    rw [mapM_toEntry (afterTranscript_dated hdated)]
    have hdb : (sh'.commit i op (Entry.doubleSpend check id (submissionPair caller submission)
        (keyOf submission) (firstOf caller submission now) ((sh'.db.afterTranscript id caller
          submission now).transcriptsOf (keyOf submission))).tx).db =
            sh'.db.afterTranscript id caller submission now :=
      Ledger.commit_db (L := ledger X) _ sh'
    have hend := hpass hdb (Decides.stop fun hnone => absurd (hfirst.symm.trans hnone) (by simp))
    exact Alone.Spec.ok ⟨_, rfl, trivial, ⟨rfl, hend⟩, fun o hA => hlost _ o (by simp) hA,
      fun o hA => ⟨rfl, Or.inr (Or.inr ⟨hG o _ hA, _, hend⟩)⟩⟩
  | none =>
    simp only [hfirst] at hinsert
    refine Alone.Spec.write_bind_open hinsert trivial hlost ?_
    rw [if_pos rfl]
    -- The receivable is as it was when the transaction began.
    have hadd : ∀ o, exec (.addReceivable (submissionPair caller submission) (worth submission)) o
        ((Entry.serialTx check id (submissionPair caller submission) (keyOf submission)
          (firstOf caller submission now) 1 [⟨.serial (keyOf submission),
            some (firstOf caller submission now)⟩]).view sh'.db) =
          if sh'.db.receivable (submissionPair caller submission) + worth submission ≤ i64Max then
            .write [] (1 : Nat) [⟨.receivable (submissionPair caller submission), some
              (sh'.db.receivable (submissionPair caller submission) + worth submission)⟩]
          else .fail [.receivable (submissionPair caller submission)] .numericOverflow := by
      intro o
      rw [view_serialTx]
      exact exec_addReceivable ⟨hw.receivable⟩ (Int.natCast_nonneg _) hmax o
    by_cases hfits : sh'.db.receivable (submissionPair caller submission) + worth submission ≤ i64Max
    · simp only [if_pos hfits] at hadd
      refine Alone.Spec.write_bind_open hadd trivial hlost ?_
      have hdb : (sh'.commit i op (Entry.accept check id (submissionPair caller submission)
          (keyOf submission) (firstOf caller submission now) (sh'.db.receivables.lookup
            (submissionPair caller submission))).tx).db =
              sh'.db.afterSubmission id caller submission now :=
        Ledger.commit_db (L := ledger X) _ sh'
      have hend := hpass (r := .ok ⟨.accepted, []⟩) hdb (Decides.pass (Decides.pass rfl hfits) hfirst)
      exact Alone.Spec.ok ⟨_, rfl, trivial, ⟨rfl, hend⟩, fun o hA => hlost _ o (by simp) hA,
        fun o hA => ⟨rfl, Or.inr (Or.inr ⟨hG o _ hA, _, hend⟩)⟩⟩
    · simp only [if_neg hfits] at hadd
      refine Alone.Spec.fail_bind_open hadd trivial hlost ⟨rfl, Or.inl ?_⟩
      exact hpass rfl ((Decides.stop hfits).pass hfirst)

/-- Where nothing fails. -/
theorem submitSerial_calm (caller : String) (submission : SerialSubmission) (now : UInt64)
    (hw : sh.db.WellFormed)
    (hdated : ∀ id row, sh.db.transcripts.lookup id = some row → 0 ≤ row.seenAt)
    (hA : ∀ {fault o sh sh'}, A fault o sh sh' → fault = .none) :
    Alone.Spec A i op (fun _ => True)
      (fun response tx sh' => tx = none ∧
        EndsSubmission sh.db caller submission now (.ok response) sh'.db)
      (fun e tx sh' => tx = none ∧ EndsSubmission sh.db caller submission now (.error e) sh'.db)
      (submitSerial caller submission now) none sh := by
  have hspec : Alone.Spec A i op _ _ _ (submitSerial caller submission now) none sh :=
    submitSerial_outcome (F := False) (G := False) caller submission now hw hdated
      (fun _ _ hne hcalm => hne (hA hcalm)) fun _ _ hcalm => by cases hA hcalm
  refine hspec.mono trivial (fun _ _ _ _ h => h) fun e tx sh' _ h => ?_
  exact ⟨h.1, h.2.resolve_right fun h => h.elim And.left And.left⟩

/-! ## What the checks come to -/

/-- What an accepted submission needs. -/
structure Acceptable (db : Tables) (caller : String) (submission : SerialSubmission)
    (now : UInt64) : Prop where
  denomination : worth submission ≤ i64Max
  clock : (now.toNat : Int) ≤ i64Max
  underCap : ¬ db.capReached (submissionPair caller submission)
  fresh : db.serials.lookup (keyOf submission) = none
  fits : db.receivable (submissionPair caller submission) + worth submission ≤ i64Max

/-- It is what all checks together ask for. -/
theorem acceptable_iff (id : Nat) : Acceptable db caller submission now ↔
    ∀ c ∈ submissionChecks db id caller submission now, c.1 := by
  simp only [submissionChecks, List.forall_mem_cons, List.not_mem_nil, false_implies, implies_true,
    and_true]
  constructor
  · rintro ⟨h₁, h₂, h₃, h₄, h₅⟩
    exact ⟨h₁, h₂, h₃, h₄, h₅⟩
  · rintro ⟨h₁, h₂, h₃, h₄, h₅⟩
    exact ⟨h₁, h₂, h₃, h₄, h₅⟩

variable {r : Except RegistryError SerialResponse} {db' : Tables}

/-- **A submission is accepted exactly if it is acceptable.** -/
theorem EndsSubmission.accepted_iff (h : EndsSubmission db caller submission now r db') :
    r = .ok ⟨.accepted, []⟩ ↔ Acceptable db caller submission now := by
  obtain ⟨id, -, h⟩ := h
  rw [acceptable_iff id]
  constructor
  · intro hr
    by_contra hnot
    obtain ⟨c, hc, -, heq⟩ := h.eq_failed hnot
    rw [hr] at heq
    simp only [submissionChecks, List.mem_cons, List.not_mem_nil, or_false] at hc
    rcases hc with rfl | rfl | rfl | rfl | rfl <;> simp at heq
  · intro hall
    exact (Prod.mk.inj (h.eq_ok hall)).1

/-- An error leaves everything as it was. -/
theorem EndsSubmission.error_same {e : RegistryError}
    (h : EndsSubmission db caller submission now (.error e) db') : db' = db := by
  obtain ⟨id, -, h⟩ := h
  simp only [submissionChecks, Decides, Prod.mk.injEq, reduceCtorEq, false_and, and_false, or_false,
    false_or] at h
  rcases h with ⟨-, ⟨-, -, -, -, -, h⟩ | ⟨-, -, h⟩⟩ | ⟨-, -, h⟩ <;> exact h

/-- **A submission is one operation of the ledger.** From every reachable state of the registry, a
    submission that runs by itself is decided by its checks: it is accepted exactly if the
    denomination and the clock are in range, the pair's cap is not reached, the serial is new and
    the receivable has room, and then appends the transcript, records the serial, adds the coin to
    the receivable, and does nothing else; a known serial that passes the cap leaves its transcript
    and is answered with all of them; whatever else fails changes nothing, and neither does a
    command that fails on the way. Where the acknowledgement of the `COMMIT` is lost, the tables are
    as they were or as the lost answer would have left them. -/
theorem submission_refines {s : Sys (service X)} (h : Sys.Steps .any (start X) s) (i : CallId)
    (op : Op) (caller : String) (submission : SerialSubmission) (now : UInt64) :
    EndsAlone (S := service X) i op
      (fun r sh' => EndsSubmission s.shared.db caller submission now r sh'.db ∧
        (r = .ok ⟨.accepted, []⟩ ↔ Acceptable s.shared.db caller submission now))
      (submitSerial caller submission now).run s.shared ∧
    Alone.Spec (S := service X) Visible i op (fun _ => True) (fun _ _ _ => True)
      (fun _ _ sh' => sh'.db = s.shared.db) (submitSerial caller submission now) none s.shared ∧
    Alone.Spec (S := service X) (fun _ _ _ _ => True) i op (fun _ => True) (fun _ _ _ => True)
      (fun _ _ sh' => sh'.db = s.shared.db ∨ ∃ response,
        EndsSubmission s.shared.db caller submission now (.ok response) sh'.db)
      (submitSerial caller submission now) none s.shared := by
  have hw := (good h).inv
  have hdated : ∀ id row, s.shared.db.transcripts.lookup id = some row → 0 ≤ row.seenAt :=
    fun id row hid => seenAt_nonneg h hid
  refine ⟨?_, ?_, ?_⟩
  · refine Alone.ends (C := fun _ => True) runExt_isSome ?_
    have hspec : Alone.Spec (S := service X) Calm i op _ _ _ (submitSerial caller submission now)
        none s.shared := submitSerial_calm caller submission now hw hdated id
    refine Alone.mono (fun r tx sh' _ hr => ?_) trivial hspec
    cases r with
    | ok response => exact ⟨hr.1, hr.2, hr.2.accepted_iff⟩
    | error e => exact ⟨hr.1, hr.2, hr.2.accepted_iff⟩
  · have hspec : Alone.Spec (S := service X) Visible i op _ _ _ (submitSerial caller submission now)
        none s.shared := submitSerial_outcome (F := True) (G := False) caller submission now hw hdated
      (fun _ _ _ _ => trivial) fun _ _ hv => Shared.commit_ne _ _ _ _ (hv.resolve_left (by simp))
    refine hspec.mono trivial (fun _ _ _ _ _ => trivial) fun e _ sh' _ h => ?_
    rcases h.2 with hends | ⟨-, hsame⟩ | ⟨hfalse, -⟩
    · exact hends.error_same
    · exact hsame
    · exact hfalse.elim
  · have hspec : Alone.Spec (S := service X) (fun _ _ _ _ => True) i op _ _ _
        (submitSerial caller submission now) none s.shared :=
      submitSerial_outcome (F := True) (G := True) caller submission now hw hdated
        (fun _ _ _ _ => trivial) fun _ _ _ => trivial
    refine hspec.mono trivial (fun _ _ _ _ _ => trivial) fun e _ sh' _ h => ?_
    rcases h.2 with hends | ⟨-, hsame⟩ | ⟨-, hlost⟩
    · exact Or.inl hends.error_same
    · exact Or.inl hsame
    · exact Or.inr hlost

/-- A serial that is new, at a registry where no cap is set. -/
theorem submission_refines_fresh : ∃ s : Sys (service .toy), ∃ env sh' id,
    (submitSerial "bank-b" (toySubmission "s1") 7).run.interp
      (answering (S := service .toy) (always default) 2 .connect) ((), s.shared, none) =
        (some (.ok ⟨.accepted, []⟩), env, sh', none) ∧
      s.shared.db.transcripts.lookup id = none ∧
      sh'.db = s.shared.db.afterSubmission id "bank-b" (toySubmission "s1") 7 := by
  obtain ⟨s, hs, hp⟩ := Sys.exists_of_run (s := start .toy) (l := opened)
    (p := fun s => s.shared.db.serials.lookup ⟨64, 0, "s1"⟩ = none ∧
      s.shared.db.exposureCaps.lookup ⟨"bank-a", "bank-b"⟩ = none ∧
      s.shared.db.receivable ⟨"bank-a", "bank-b"⟩ = 0) (by decide)
  obtain ⟨hfresh, hcap, hnone⟩ := of_decide_eq_true hp
  have hacceptable : Acceptable s.shared.db "bank-b" (toySubmission "s1") 7 := by
    refine ⟨by decide, by decide, ?_, hfresh, ?_⟩
    · rintro ⟨cap, hsome, -⟩
      exact absurd (hcap.symm.trans hsome) (by simp)
    · show s.shared.db.receivable ⟨"bank-a", "bank-b"⟩ + _ ≤ _
      rw [hnone]
      decide
  obtain ⟨r, env, sh', hrun, ⟨id, hid, hdecides⟩, hiff⟩ :=
    (@submission_refines .toy s hs 2 .connect "bank-b" (toySubmission "s1") 7).1
      (always default) (fun _ _ => rfl) ()
  obtain ⟨rfl, hdb⟩ := Prod.mk.inj (hdecides.eq_ok ((acceptable_iff id).mp hacceptable))
  exact ⟨s, env, sh', id, hrun, hid, hdb⟩

end Digicash.Registry
