import Digicash.Lib.Progress
import Digicash.Lib.Replay
import Digicash.Registry.Settlement

/-!
# Attribution

A submission appends its transcript in the transaction in which it inserts its serial, and
nothing ever removes a transcript. So whoever finds a serial taken finds, some statements later,
the transcript of whoever took it, its own, and all that were there when it tried the insert.

A submission that is refused, by the cap or by an error, has changed nothing: its transaction was
dropped. The one exception is an error that says nothing about the transaction, the loss of the
connection while its `COMMIT` is acknowledged.
-/

namespace Digicash.Registry

open Lib

variable {X : Crypto} {s s₁ s' : Sys (service X)}

/-! ## Transcripts stay -/

/-- A transcript once appended is never changed or removed. -/
theorem Entry.transcript_stays {db : Tables} {e : Entry} (h : e.Valid db) {id : Nat}
    {row : TranscriptRow} (hid : db.transcripts.lookup id = some row) :
    (e.apply db).transcripts.lookup id = some row := by
  have hput : ∀ (id' : Nat) (row' : TranscriptRow), db.transcripts.lookup id' = none →
      (db.transcripts.put id' (some row')).lookup id = some row := by
    intro id' row' hfree
    have hne : id ≠ id' := fun he => by
      rw [he, hfree] at hid
      exact absurd hid (by simp)
    rw [Table.lookup_put_ne hne, hid]
  cases e with
  | accept check id' pair key row' outstanding => exact hput id' _ h.2.1
  | doubleSpend check id' pair key row' seen => exact hput id' _ h.2.1
  | _ => exact hid

/-- Every serial has the transcript of its first depositor. -/
def Tables.Evidenced (db : Tables) : Prop :=
  ∀ key row, db.serials.lookup key = some row →
    ∃ id, db.transcripts.lookup id = some (row.transcriptRow key)

theorem Entry.evidenced {db : Tables} {e : Entry} (hv : e.Valid db) (h : db.Evidenced) :
    (e.apply db).Evidenced := by
  intro key row hrow
  by_cases hold : db.serials.lookup key = some row
  · obtain ⟨id, hid⟩ := h key row hold
    exact ⟨id, e.transcript_stays hv hid⟩
  · cases e with
    | accept check id pair key' row' outstanding =>
      simp only [apply, Table.lookup_put] at hrow
      split at hrow
      · rename_i hkey
        obtain rfl := Option.some.inj hrow
        subst hkey
        exact ⟨id, Table.lookup_put_self _ _ _⟩
      · exact absurd hrow hold
    | _ => exact absurd hrow hold

theorem evidenced (h : Sys.Steps .any (start X) s) : s.shared.db.Evidenced :=
  invariant (J := fun sh => sh.db.Evidenced) h
    (fun _ _ hrow => absurd hrow (by simp [Tables.empty])) (fun _ hj hv _ _ => Entry.evidenced hv hj)
    fun hj => hj

theorem transcript_kept (h : Sys.Steps .any (start X) s) (hs : Sys.Steps .any s s') {id : Nat}
    {row : TranscriptRow} (hid : s.shared.db.transcripts.lookup id = some row) :
    s'.shared.db.transcripts.lookup id = some row :=
  Ledger.invariant sound (good h) hs
    (J := fun _ sh => sh.db.transcripts.lookup id = some row) hid
    (fun _ hj hv _ _ => Entry.transcript_stays hv hj) (fun hj _ => hj) (fun hj _ => hj)

/-- The transcript a double-spend appended is there. -/
theorem own_transcript (h : Sys.Steps .any (start X) s) {c : Commit database Op}
    (hc : c ∈ s.shared.hist) {check : CapCheck} {id : Nat} {pair : Pair} {key : SerialKey}
    {row : SerialRow} {seen : List TranscriptRow}
    (htx : c.tx = (Entry.doubleSpend check id pair key row seen).tx) :
    s.shared.db.transcripts.lookup id = some (row.transcriptRow key) := by
  refine invariant (J := fun sh => ∀ c ∈ sh.hist, c.tx.writes =
    (Entry.doubleSpend check id pair key row seen).tx.writes →
      sh.db.transcripts.lookup id = some (row.transcriptRow key)) h
    (fun _ hc => absurd hc (by simp)) ?_ (fun hj => hj) c hc (congrArg Tx.writes htx)
  intro sh call op e _ hj hv _ _ c hc hw
  rcases List.mem_cons.mp hc with rfl | hc
  · -- What this commit did is what such an entry does.
    have hafter := Entry.applyWrites_tx (.doubleSpend check id pair key row seen) sh.db
    rw [← hw, Entry.applyWrites_tx] at hafter
    rw [hafter]
    exact Table.lookup_put_self _ _ _
  · exact Entry.transcript_stays hv (hj c hc hw)

/-! ## What a double-spend is answered -/

/-- The evidence a double-spend of the serial `key` gathers in `rows`, when it found the tables
    to be `before` at its insert and appended the transcript `own` as number `id`. -/
structure Evidence (key : SerialKey) (before : Tables) (id : Nat) (own : TranscriptRow)
    (rows : List (Nat × TranscriptRow)) : Prop where
  ordered : rows.Pairwise seenBefore
  earlier : ∀ id row, before.transcripts.lookup id = some row → row.serial = key →
    (id, row) ∈ rows
  first : ∃ first id, before.serials.lookup key = some first ∧ (id, first.transcriptRow key) ∈ rows
  own : (id, own) ∈ rows

instance : Std.Total seenBefore := ⟨fun a b => by unfold seenBefore; omega⟩

instance : IsTrans (Nat × TranscriptRow) seenBefore := ⟨fun a b c => by unfold seenBefore; omega⟩

theorem mem_transcriptsOf {db : Tables} {key : SerialKey} {r : Nat × TranscriptRow} :
    r ∈ (db.transcripts.rows.filter fun r => r.2.serial = key).insertionSort seenBefore ↔
      db.transcripts.lookup r.1 = some r.2 ∧ r.2.serial = key := by
  rw [List.mem_insertionSort, List.mem_filter, decide_eq_true_eq, ← Table.mem_rows]

theorem quiescent_start (X : Crypto) : (start X).Quiescent := fun _ => rfl

/-- Where the insert of a serial found a row, it wrote nothing. -/
theorem insertSerial_zero {db : Tables} {key : SerialKey} {row : SerialRow} {o : Oracle}
    {ws : List (Write Cell)} (h : (exec (.insertSerial key row) o db).result = .ok ((0 : Nat), ws)) :
    ws = [] ∧ ∃ first, db.serials.lookup key = some first := by
  rcases insertSerial_cases db key row o with ⟨hx, hold⟩ | ⟨hx, -⟩
  · rw [hx] at h
    cases h
    exact ⟨rfl, hold⟩
  · rw [hx] at h
    cases h

/-- **A double-spend gathers the evidence.** It was committed, its insert was executed on tables
    `before`, and what it read some statements later is the evidence. -/
theorem evidence_of_commit (h : Sys.Steps .any (start X) s) {c : Commit database Op}
    (hc : c ∈ s.shared.hist) {check : CapCheck} {id : Nat} {pair : Pair} {key : SerialKey}
    {row : SerialRow} {seen : List TranscriptRow}
    (htx : c.tx = (Entry.doubleSpend check id pair key row seen).tx) :
    ∃ s₁ s₂ t t' rows, Sys.Steps .any (start X) s₁ ∧ Sys.Steps .any s₂ s ∧
      s₁.Executes s₂ c.call t t' (.insertSerial key row) (0 : Nat) ∧
      Evidence key s₁.shared.db id (row.transcriptRow key) rows ∧ seen = rows.map Prod.snd := by
  have hran := ((Sys.ran_of_steps h (quiescent_start X)).commits c hc).resolve_left
    (fun hc => absurd hc (by simp [start, Sys.init]))
  rw [htx] at hran
  -- The last statement is the `SELECT`, the one before it the insert.
  obtain ⟨t₃, s₃, s₃', hran₃, htrace₃, hsteps₃, hstep₃, hselect, hafter₃⟩ := hran.last rfl
  obtain ⟨t₁, s₁, s₂, hran₁, htrace₁, hsteps₁, hstep₁, hinsert, hafter₁⟩ := hran₃.last htrace₃
  obtain ⟨-, o₃, -, ws₃, hres₃, heq₃⟩ := hselect.step
  obtain ⟨-, o₁, -, ws₁, hres₁, heq₁⟩ := hinsert.step
  obtain ⟨rfl, first, hfirst⟩ := insertSerial_zero (o := o₁) hres₁
  have hseen : (t₃.view s₃.shared.db).transcriptsOf key = seen ∧ ws₃ = [] := by
    simp only [exec, Effect.read, Except.ok.injEq, Prod.mk.injEq] at hres₃
    exact ⟨hres₃.1, hres₃.2.symm⟩
  obtain ⟨rfl, rfl⟩ := hseen
  -- Until then the transaction has written its own transcript and nothing else.
  have hwrites₃ : t₃.writes = [⟨.transcript id, some (row.transcriptRow key)⟩] := by
    have hw := congrArg Tx.writes heq₃
    simp only [Tx.push, List.append_nil] at hw
    rw [← hw]
    simp only [Entry.tx, Entry.serialTx, Entry.transcriptTx, Entry.ran, Tx.push,
      Entry.writes_capTx]
    rfl
  have hwrites₁ : t₁.writes = [⟨.transcript id, some (row.transcriptRow key)⟩] := by
    rw [← hwrites₃, heq₁]
    exact (List.append_nil _).symm
  have hview : ∀ (t : Tx database) (db : Tables),
      t.writes = [⟨.transcript id, some (row.transcriptRow key)⟩] →
        t.view db = { db with transcripts := db.transcripts.put id (some (row.transcriptRow key)) } := by
    intro t db hw
    rw [Tx.view, hw]
    rfl
  rw [hview t₁ _ hwrites₁] at hfirst
  rw [hview t₃ _ hwrites₃]
  -- What was there at the insert is there at the `SELECT`, and is not the row of its own.
  have hearlier : ∀ (id' : Nat) (row' : TranscriptRow),
      s₁.shared.db.transcripts.lookup id' = some row' →
        (s₃.shared.db.transcripts.put id (some (row.transcriptRow key))).lookup id' =
          some row' := by
    intro id' row' hrow'
    have hrun₁ : Sys.Steps .any s₁ s₃ := .head hstep₁ hafter₁
    by_cases hid : id' = id
    · have hfinal := transcript_kept hsteps₁ (hrun₁.trans (.head hstep₃ hafter₃)) hrow'
      rw [hid, own_transcript h hc htx] at hfinal
      rw [hid, Table.lookup_put_self, hfinal]
    · rw [Table.lookup_put_ne hid]
      exact transcript_kept hsteps₁ hrun₁ hrow'
  obtain ⟨idFirst, hidFirst⟩ := evidenced hsteps₁ key first hfirst
  refine ⟨s₁, s₂, t₁, t₃, _, hsteps₁, hafter₁.trans (.head hstep₃ hafter₃), hinsert,
    ⟨List.pairwise_insertionSort .., fun id' row' hrow' hkey => ?_,
      ⟨first, idFirst, hfirst, ?_⟩, ?_⟩, rfl⟩
  · exact mem_transcriptsOf.mpr ⟨hearlier id' row' hrow', hkey⟩
  · exact mem_transcriptsOf.mpr ⟨hearlier idFirst _ hidFirst, rfl⟩
  · exact mem_transcriptsOf.mpr ⟨Table.lookup_put_self _ _ _, rfl⟩

/-! ## What is refused changes nothing -/

/-- A submission answered by the cap or by an error. -/
def refused : Ans → Bool
  | .postSerial (.ok response) => response.outcome = .exposureCapExceeded
  | .postSerial (.error _) => true
  | _ => false

/-- A transaction of a submission that commits ends in an answer that does not refuse. -/
theorem submitSerial_afterCommit (caller : String) (submission : SerialSubmission)
    (now : UInt64) : AfterCommit (fun r => ∃ response, r = .ok response ∧
      response.outcome ≠ .exposureCapExceeded) (submitSerial caller submission now).run := by
  have hsql : ∀ s : Stmt, (sql s).run.Only (· ≠ .commit) :=
    fun s => only_query (fun h => by cases h)
  have hcap : ∀ pair, (capReached pair).run.Only (· ≠ .commit) := by
    intro pair
    unfold capReached
    refine only_bind (hsql _) fun cap => ?_
    cases cap with
    | none => trivial
    | some cap => exact only_bind (hsql _) fun _ => trivial
  unfold submitSerial
  refine .bind_ok trivial fun denom => .bind_ok trivial fun seen => .transaction ?_ ?_
  · refine only_bind (hcap _) fun reached => ?_
    split
    · trivial
    refine only_bind (hsql _) fun _ => only_bind (hsql _) fun inserted => ?_
    split
    · exact only_bind (hsql _) fun _ => trivial
    · exact only_bind (hsql _) fun rows => only_bind trivial fun _ => trivial
  · refine results_bind (fun _ _ h => by cases h) fun reached => ?_
    split
    · exact fun _ h => by cases h
    refine results_bind (fun _ _ h => by cases h) fun _ => ?_
    refine results_bind (fun _ _ h => by cases h) fun inserted => ?_
    split
    · refine results_bind (fun _ _ h => by cases h) fun _ a h => ?_
      cases h
      exact ⟨_, rfl, by decide⟩
    · refine results_bind (fun _ _ h => by cases h) fun rows => ?_
      refine results_bind (fun _ _ h => by cases h) fun entries a h => ?_
      cases h
      exact ⟨_, rfl, by simp⟩

/-- Whatever else a call is about, it is not answered as a submission; and a submission that
    commits is not refused. -/
def NotRefused (op : Op) (x : Code database Ans) : Prop :=
  match op with
  | .postSerial _ _ => AfterCommit (fun a => refused a = false) x
  | _ => x.Results fun a => refused a = false

theorem results_map {α : Type} {x : Code database α} {f : α → Ans}
    (hf : ∀ a, refused (f a) = false) : (f <$> x).Results fun a => refused a = false := by
  change (x >>= fun a => .pure (f a)).Results fun a => refused a = false
  refine Prog.Results.bind (f := fun a => .pure (f a)) (fun a _ => ?_) .trivial
  exact hf a

theorem notRefused_code (op : Op) : NotRefused op (code X op) := by
  cases op with
  | postSerial caller submission =>
    have hpost : AfterCommit (fun r => ∃ response, r = .ok response ∧
        response.outcome ≠ .exposureCapExceeded) (Api.postSerial caller submission).run := by
      refine .bind_ok ⟨fun h => (by cases h), fun _ => trivial⟩ fun now => ?_
      refine .mapErr (fun r hr => ?_) (submitSerial_afterCommit caller submission now)
      obtain ⟨response, rfl, hout⟩ := hr
      exact ⟨response, rfl, hout⟩
    refine .map (fun r hr => ?_) hpost
    obtain ⟨response, rfl, hout⟩ := hr
    exact decide_eq_false hout
  | _ => exact results_map fun _ => rfl

theorem NotRefused.next {op : Op} {c : Cmd database} {k : c.Reply → Code database Ans}
    (h : NotRefused op (.cmd c k)) (r : c.Reply) : NotRefused op (k r) := by
  cases op with
  | postSerial caller submission => exact h.2 r
  | _ => exact h r

/-- Every commit is an entry that its call may make. -/
theorem entry_of_commit (h : Sys.Steps .any (start X) s) :
    ∀ c ∈ s.shared.hist, ∃ e : Entry, c.tx = e.tx ∧ e.From c.op :=
  of_commits h fun _ hfrom => ⟨_, rfl, hfrom⟩

/-- The next command of call `i` is a `COMMIT`. -/
def Committing (s : Sys (service X)) (i : CallId) : Prop :=
  ∃ op k tx, s.live i = some ⟨op, .cmd .commit k, tx⟩

/-- **A step of a call that is refused changes no table**, unless it is its `COMMIT` and only
    the acknowledgement was lost. -/
theorem refused_unchanged (h₁ : Sys.Steps .any (start X) s₁) {i : CallId} {fault : Fault}
    {o : Oracle} (hstep : s₁.step (.step i fault o) = some s') (hs : Sys.Steps .any s' s)
    {a : Answer (service X)} (ha : a ∈ s.answers) (hcall : a.call = i)
    (hrefused : refused a.ans = true) (hfault : Committing s₁ i → fault ≠ .after) :
    s'.shared.db = s₁.shared.db := by
  have hcalls := Sys.calls_init.steps h₁
  have hstep' : Sys.Step .any s₁ s' := ⟨_, hstep, Policy.any_allows _ _ _⟩
  have hcode := Sys.code_of_steps (C := NotRefused) (fun _ => notRefused_code)
    (fun _ _ _ => NotRefused.next) h₁ (fun _ _ hl => absurd hl (by simp [start, Sys.init]))
  -- From a session all of whose ends are not refused, the answer would not be.
  have hends : ∀ {s₂ : Sys (service X)} {ss : Session (service X)}, s₂.Calls →
      s₂.live i = some ss → Sys.Steps .any s₂ s →
        ¬ ss.code.Results fun a => refused a = false := by
    intro s₂ ss hcalls₂ hl hs₂ hres
    obtain ⟨-, hans⟩ := Sys.follow (C := Prog.Results fun a => refused a = false)
      (fun _ _ h => h) hs₂ (hcalls₂.live i ss hl) fun ss' hl' => by
        obtain rfl := Option.some.inj (hl.symm.trans hl')
        exact hres
    rcases hans a ha hcall with hold | hnot
    · exact absurd (hcalls₂.answered a hold).2 (by simp [hcall, hl])
    · have hnot' : refused a.ans = false := hnot
      rw [hrefused] at hnot'
      exact absurd hnot' (by simp)
  have hexec := hstep
  simp only [Sys.step] at hexec
  split at hexec
  · exact absurd hexec (by simp)
  · obtain rfl := Option.some.inj hexec
    rfl
  rename_i op c k tx hl
  obtain ⟨⟨r, sh, tx'⟩, hx, rfl⟩ := Option.map_eq_some_iff.mp hexec
  show sh.db = s₁.shared.db
  cases op with
  | postSerial caller submission =>
    rcases execCmd_shared hx with ⟨hdb, -⟩ | ⟨t, rfl, ⟨rfl, rfl⟩ | ⟨rfl, stmt, b, ws, rfl, -, rfl⟩⟩
    · exact hdb
    · -- Its commit succeeded, so it ends well.
      cases fault with
      | none =>
        cases hx
        have hl' : (({ s₁.setLive i (some ⟨.postSerial caller submission, k (.ok ()), none⟩) with
          shared := s₁.shared.commit i (.postSerial caller submission) t } :
            Sys (service X)).live i) = some ⟨.postSerial caller submission, k (.ok ()), none⟩ :=
          Function.update_self ..
        exact absurd ((hcode i _ hl).1 k rfl) (hends (hcalls.step hstep) hl' hs)
      | before =>
        obtain ⟨-, hsame, -⟩ := by simpa [execCmd] using (Option.some.inj hx).symm
        exact congrArg Shared.db hsame
      | after => exact absurd rfl (hfault ⟨_, _, _, hl⟩)
    · -- A submission does not commit single statements.
      obtain ⟨e, htx, hfrom⟩ := entry_of_commit (.tail h₁ hstep') _ (List.mem_cons_self ..)
      have hlen := congrArg (fun t : Tx database => t.trace.length) htx
      cases e with
      | accept check => cases check <;> exact absurd hlen (by simp [Tx.push, Tx.empty, Entry.tx,
          Entry.serialTx, Entry.transcriptTx, Entry.capTx, Entry.ran])
      | doubleSpend check => cases check <;> exact absurd hlen (by simp [Tx.push, Tx.empty,
          Entry.tx, Entry.serialTx, Entry.transcriptTx, Entry.capTx, Entry.ran])
      | _ => exact False.elim hfrom
  | _ => exact absurd (hcode i _ hl) (hends hcalls hl (.head hstep' hs))

/-! ## Attribution -/

/-- The answer `entries` of a double-spend: at some step of the run the call found its serial
    taken, and the entries are the evidence it gathered after that. -/
def Attributed (s : Sys (service X)) (call : CallId) (caller : String)
    (submission : SerialSubmission) (entries : List TranscriptEntry) : Prop :=
  ∃ s₁ s₂ t t' pair key row id rows, Sys.Steps .any (start X) s₁ ∧
    s₁.Executes s₂ call t t' (.insertSerial key row) (0 : Nat) ∧ Sys.Steps .any s₂ s ∧
    Records caller submission pair key row ∧
    Evidence key s₁.shared.db id (row.transcriptRow key) rows ∧
    s.shared.db.transcripts.lookup id = some (row.transcriptRow key) ∧
    (rows.map Prod.snd).mapM toEntry = .ok entries

/-- **Attribution of double-spends.** In every state of every run each serial has the transcript
    of its first depositor, transcripts stay as they are, an answer that reports a double-spend
    comes with the evidence, and a refused submission has changed no table by any step other
    than a `COMMIT` whose acknowledgement was lost. -/
theorem attribution (h : Sys.Steps .any (start X) s) :
    (∀ key row, s.shared.db.serials.lookup key = some row →
      ∃ id, s.shared.db.transcripts.lookup id = some (row.transcriptRow key)) ∧
    (∀ s', Sys.Steps .any s s' → ∀ id row, s.shared.db.transcripts.lookup id = some row →
      s'.shared.db.transcripts.lookup id = some row) ∧
    (∀ a ∈ s.answers, ∀ caller submission response, a.op = .postSerial caller submission →
      a.ans = .postSerial (.ok response) → response.outcome = .doubleSpend →
        Attributed s a.call caller submission response.transcripts) ∧
    ∀ a ∈ s.answers, refused a.ans = true → ∀ s₁ s₂ fault o, Sys.Steps .any (start X) s₁ →
      s₁.step (.step a.call fault o) = some s₂ → Sys.Steps .any s₂ s →
        (Committing s₁ a.call → fault ≠ .after) → s₂.shared.db = s₁.shared.db := by
  refine ⟨evidenced h, fun s' hs id row => transcript_kept h hs, ?_, ?_⟩
  · intro a ha caller submission response hop hans hout
    have hpost : Post a.call a.op a.ans s.shared := (good h).answers a ha
    rw [hop, hans] at hpost
    obtain ⟨c, hc, hcall, -, check, id, pair, key, row, seen, hrec, htx, hentries⟩ :=
      hpost.doubleSpent hout
    obtain ⟨s₁, s₂, t, t', rows, h₁, h₂, hexec, hevidence, rfl⟩ := evidence_of_commit h hc htx
    exact ⟨s₁, s₂, t, t', pair, key, row, id, rows, h₁, hcall ▸ hexec, h₂, hrec, hevidence,
      own_transcript h hc htx, hentries⟩
  · intro a ha hrefused s₁ s₂ fault o h₁ hstep hs hfault
    exact refused_unchanged h₁ hstep hs ha rfl hrefused hfault

/-- Two banks submit one serial; the second gets both transcripts. -/
theorem attribution_twice : ∃ s : Sys (service .toy), ∃ a ∈ s.answers,
    a.ans = .postSerial (.ok ⟨.doubleSpend, [⟨"bank-b", "t-s1", 0⟩, ⟨"bank-c", "t-s1", 0⟩]⟩) ∧
      Attributed s a.call "bank-c" (toySubmission "s1")
        [⟨"bank-b", "t-s1", 0⟩, ⟨"bank-c", "t-s1", 0⟩] := by
  obtain ⟨s, hs, hp⟩ := Sys.exists_of_run (s := start .toy)
    (l := opened ++ call (.postSerial "bank-b" (toySubmission "s1")) :: go 2 8 ++
      call (.postSerial "bank-c" (toySubmission "s1")) :: go 3 8)
    (p := fun s => ∃ a ∈ s.answers, a.op = .postSerial "bank-c" (toySubmission "s1") ∧
      a.ans = .postSerial (.ok ⟨.doubleSpend, [⟨"bank-b", "t-s1", 0⟩, ⟨"bank-c", "t-s1", 0⟩]⟩))
    (by decide)
  obtain ⟨a, ha, hop, hans⟩ := of_decide_eq_true hp
  exact ⟨s, a, ha, hans, (attribution hs).2.2.1 a ha _ _ _ hop hans rfl⟩

/-- A submission whose `COMMIT` took effect and was not acknowledged: it is answered an error,
    and its serial is recorded. -/
theorem failed_and_recorded : ∃ s₁ s₂ s : Sys (service .toy), ∃ a ∈ s.answers,
    Sys.Steps .any (start .toy) s₁ ∧ s₁.step (.step a.call .after default) = some s₂ ∧
      Sys.Steps .any s₂ s ∧ a.op = .postSerial "bank-b" (toySubmission "s1") ∧
      a.ans = .postSerial (.error ⟨500, "database error: connection closed"⟩) ∧
      s₁.shared.db.serials.lookup ⟨64, 0, "s1"⟩ = none ∧
      s₂.shared.db.serials.lookup ⟨64, 0, "s1"⟩ = some ⟨"bank-b", "t-s1", 0⟩ := by
  obtain ⟨s₁, h₁, hp₁⟩ := Sys.exists_of_run (s := start .toy)
    (l := opened ++ call (.postSerial "bank-b" (toySubmission "s1")) :: go 2 6)
    (p := fun s₁ => s₁.shared.db.serials.lookup ⟨64, 0, "s1"⟩ = none ∧
      ((s₁.step (.step 2 .after default)).any fun s₂ =>
        s₂.shared.db.serials.lookup ⟨64, 0, "s1"⟩ = some ⟨"bank-b", "t-s1", 0⟩ ∧
        (s₂.run (go 2 1)).any (fun s => ∃ a ∈ s.answers, a.call = 2 ∧
          a.op = .postSerial "bank-b" (toySubmission "s1") ∧
          a.ans = .postSerial (.error ⟨500, "database error: connection closed"⟩)) = true) = true)
    (by decide)
  obtain ⟨hnone, hstep⟩ := of_decide_eq_true hp₁
  obtain ⟨s₂, hs₂, hp₂⟩ := (Option.any_eq_true _ _).mp hstep
  obtain ⟨hsome, hrun⟩ := of_decide_eq_true hp₂
  obtain ⟨s, hs, hp⟩ := Sys.exists_of_run hrun
  obtain ⟨a, ha, hcall, hop, hans⟩ := of_decide_eq_true hp
  exact ⟨s₁, s₂, s, a, ha, h₁, hcall ▸ hs₂, hs, hop, hans, hnone, hsome⟩

end Digicash.Registry
