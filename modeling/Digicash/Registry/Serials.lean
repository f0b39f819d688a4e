import Digicash.Registry.Refinement

/-!
# Serials

The registry accepts each serial once, whoever submits it: the primary key of `serials`
decides, and a row there is never removed. Every row is there because some submission was
accepted.

The key is the text of the serial as it was submitted. Nothing brings it to one spelling, so
what is accepted once is a spelling; a coin is accepted once as long as nobody spells it
differently from whoever came first.
-/

namespace Digicash.Registry

open Lib

variable {X : Crypto} {s : Sys (service X)} {π : Policy (service X)}

/-- The serial a commit accepted. -/
def acceptedKey (c : Commit database Op) : Option SerialKey :=
  c.tx.trace.findSome? fun e =>
    match e with
    | ⟨.insertSerial key _, n⟩ => if n = 1 then some key else none
    | _ => none

@[simp] theorem acceptedKey_accept {call : CallId} {op : Op} {db : Tables} (check : CapCheck)
    (id : Nat) (pair : Pair) (key : SerialKey) (row : SerialRow) (outstanding : Option Int) :
    acceptedKey ⟨call, op, (Entry.accept check id pair key row outstanding).tx, db⟩ =
      some key := rfl

/-- Nothing else accepts a serial. -/
theorem Entry.acceptedKey_tx {call : CallId} {op : Op} {db : Tables} {e : Entry} {k : SerialKey}
    (h : acceptedKey ⟨call, op, e.tx, db⟩ = some k) :
    ∃ check id pair row outstanding, e = .accept check id pair k row outstanding := by
  cases e with
  | accept check id pair key row outstanding =>
    obtain rfl : key = k := by simpa using h
    exact ⟨check, id, pair, row, outstanding, rfl⟩
  | doubleSpend check id pair key row seen =>
    cases check <;> exact absurd h (by simp [acceptedKey, tx, serialTx, transcriptTx, capTx, ran,
      Tx.push, Tx.empty])
  | settle read claims cleared =>
    have hnone : ∀ (l : List (Nat × ClaimRow)) (t : Tx database),
        acceptedKey ⟨call, op, t, db⟩ = none →
          acceptedKey ⟨call, op, l.foldl (fun t c => ran t (.insertClaim c.2) (1 : Nat) []
            [⟨.claim c.1, some c.2⟩]) t, db⟩ = none := by
      intro l
      induction l with
      | nil => exact fun t ht => ht
      | cons c l ih => exact fun t ht => ih _ ht
    have hclaims := hnone claims (ran .empty .selectReceivables read [] []) rfl
    exact absurd (h.symm.trans hclaims) (by simp)
  | _ => exact absurd h (by simp [acceptedKey, tx, ran, Tx.push, Tx.empty])

/-- What is recorded of the serials that were accepted. -/
structure SerialsKept (sh : State X) : Prop where
  kept : ∀ c ∈ sh.hist, ∀ k, acceptedKey c = some k → ∃ row, sh.db.serials.lookup k = some row
  once : sh.hist.Pairwise fun c c' => ∀ k, acceptedKey c = some k → acceptedKey c' ≠ some k
  from_accept : ∀ k row, sh.db.serials.lookup k = some row → ∃ c ∈ sh.hist,
    acceptedKey c = some k ∧ ∃ submission, c.op = .postSerial row.firstBankId submission

theorem SerialsKept.entry {sh : State X} (h : SerialsKept sh) {call : CallId} {op : Op}
    {e : Entry} (hv : e.Valid sh.db) (hfrom : e.From op) :
    SerialsKept (⟨e.apply sh.db, sh.mem, ⟨call, op, e.tx, sh.db⟩ :: sh.hist⟩ : State X) := by
  refine ⟨fun c hc k hk => ?_, List.pairwise_cons.mpr ⟨fun c hc k hk hk' => ?_, h.once⟩,
    fun k row hrow => ?_⟩
  · rcases List.mem_cons.mp hc with rfl | hc
    · obtain ⟨check, id, pair, row, outstanding, rfl⟩ := e.acceptedKey_tx hk
      exact ⟨row, Table.lookup_put_self _ _ _⟩
    · obtain ⟨row, hrow⟩ := h.kept c hc k hk
      exact ⟨row, e.serial_stays hv hrow⟩
  · -- An accepted serial was new, so nobody had been accepted with it.
    obtain ⟨check, id, pair, row, outstanding, rfl⟩ := e.acceptedKey_tx hk
    obtain ⟨row', hrow'⟩ := h.kept c hc k hk'
    exact absurd (hrow'.symm.trans hv.2.2.1) (by simp)
  · by_cases hold : ∃ row', sh.db.serials.lookup k = some row'
    · obtain ⟨row', hrow'⟩ := hold
      obtain rfl : row' = row := Option.some.inj ((e.serial_stays hv hrow').symm.trans hrow)
      obtain ⟨c, hc, hrest⟩ := h.from_accept k row' hrow'
      exact ⟨c, List.mem_cons_of_mem _ hc, hrest⟩
    · cases e with
      | accept check id pair key row' outstanding =>
        simp only [Entry.apply, Table.lookup_put] at hrow
        split at hrow
        · rename_i hkey
          obtain rfl := Option.some.inj hrow
          subst hkey
          refine ⟨_, List.mem_cons_self .., acceptedKey_accept .., ?_⟩
          cases op with
          | postSerial caller submission => exact ⟨submission, by rw [hfrom.firstBankId]⟩
          | _ => exact False.elim hfrom
        · exact absurd ⟨row, hrow⟩ hold
      | _ => exact absurd ⟨row, hrow⟩ hold

theorem serialsKept (h : Sys.Steps π (start X) s) : SerialsKept s.shared :=
  invariant h ⟨fun _ hc => absurd hc (by simp), .nil, fun k row hk => absurd hk (by simp [Tables.empty])⟩
    (fun _ hj hv hfrom _ => hj.entry hv hfrom) (fun h => ⟨h.kept, h.once, h.from_accept⟩)

/-- **Two acceptances of one serial are one.** -/
theorem accepted_call_unique (h : Sys.Steps π (start X) s) {c c' : Commit database Op}
    (hc : c ∈ s.shared.hist) (hc' : c' ∈ s.shared.hist) {k : SerialKey}
    (hk : acceptedKey c = some k) (hk' : acceptedKey c' = some k) : c = c' := by
  by_contra hne
  have hsymm : Std.Symm fun c c' : Commit database Op =>
      ∀ k, acceptedKey c = some k → acceptedKey c' ≠ some k :=
    ⟨fun c c' hcc k hk hk' => hcc k hk' hk⟩
  exact (serialsKept h).once.forall hc hc' hne k hk hk'

/-- The serial that was accepted is the one submitted. -/
theorem acceptedKey_eq (h : Sys.Steps π (start X) s) {c : Commit database Op}
    (hc : c ∈ s.shared.hist) {k : SerialKey} (hk : acceptedKey c = some k) {caller : String}
    {submission : SerialSubmission} (hop : c.op = .postSerial caller submission) :
    ∃ denom, i64TryFrom submission.denominationCents = some denom ∧
      k = serialKey submission denom := by
  refine of_commits (P := fun c => ∀ k, acceptedKey c = some k → ∀ caller submission,
    c.op = .postSerial caller submission →
      ∃ denom, i64TryFrom submission.denominationCents = some denom ∧
        k = serialKey submission denom) h ?_ c hc k hk caller submission hop
  intro db call op e _ hfrom k hk caller submission hop
  obtain rfl : op = .postSerial caller submission := hop
  obtain ⟨check, id, pair, row, outstanding, rfl⟩ := e.acceptedKey_tx hk
  exact hfrom.key

/-- What an accepted answer stands for. -/
theorem Accepted.exists_commit {call : CallId} {caller : String} {submission : SerialSubmission}
    {sh : State X} (h : Accepted call caller submission sh) {denom : Int}
    (hd : i64TryFrom submission.denominationCents = some denom) :
    ∃ c ∈ sh.hist, c.call = call ∧ acceptedKey c = some (serialKey submission denom) := by
  obtain ⟨⟨call', op, tx, before⟩, hc, hcall, -, check, id, pair, key, row, outstanding, hrec,
    htx⟩ := h
  obtain rfl : tx = _ := htx
  obtain ⟨denom', hd', hkey⟩ := hrec.key
  obtain rfl : denom' = denom := Option.some.inj (hd'.symm.trans hd)
  exact ⟨_, hc, hcall, by rw [acceptedKey_accept, hkey]⟩

/-! ## Coins -/

/-- The coin a key of `serials` spells: its denomination, its scheme, and the bytes of its
    serial. A text that is not hex spells none. -/
def SerialKey.coin (key : SerialKey) : Option (Int × Int × Bytes) :=
  (Hex.decode key.serialHex).map fun bytes => (key.denominationCents, key.schemeId, bytes)

theorem coin_serialKey {submission : SerialSubmission} {denom : Int} {bytes : Bytes}
    (h : Hex.decode submission.serialHex = some bytes) :
    (serialKey submission denom).coin = some (denom, (submission.schemeId.toNat : Int), bytes) := by
  simp only [SerialKey.coin, serialKey, h, Option.map_some]

/-- Whether an answer says that this coin was accepted. -/
def acceptsCoin (cents : UInt64) (scheme : UInt8) (serial : Bytes) (a : Answer (service X)) :
    Bool :=
  match a.op, a.ans with
  | .postSerial _ submission, .postSerial (.ok response) =>
    response.outcome = .accepted && submission.denominationCents = cents &&
      submission.schemeId = scheme && Hex.decode submission.serialHex = some serial
  | _, _ => false

/-- Whether a commit accepts its coin under the spelling it is recorded under, if it is
    recorded already. -/
def spelledAsRecorded (sh : State X) (c : Commit database Op) : Bool :=
  (acceptedKey c).all fun key => sh.db.serials.rows.all fun r =>
    r.1.coin ≠ key.coin || key.coin.isNone || r.1 = key

theorem acceptsCoin_eq_true {cents : UInt64} {scheme : UInt8} {serial : Bytes}
    {a : Answer (service X)} (h : acceptsCoin cents scheme serial a = true) :
    ∃ caller submission response, a.op = .postSerial caller submission ∧
      a.ans = .postSerial (.ok response) ∧ response.outcome = .accepted ∧
      submission.denominationCents = cents ∧ submission.schemeId = scheme ∧
      Hex.decode submission.serialHex = some serial := by
  unfold acceptsCoin at h
  split at h
  · rename_i caller submission response hop hans
    simp only [Bool.and_eq_true, decide_eq_true_eq] at h
    obtain ⟨⟨⟨hout, hcents⟩, hscheme⟩, hserial⟩ := h
    exact ⟨caller, submission, response, hop, hans, hout, hcents, hscheme, hserial⟩
  · exact absurd h (by simp)

/-- One spelling for each coin that was accepted. -/
def OneSpelling (sh : State X) : Prop :=
  ∀ c ∈ sh.hist, ∀ c' ∈ sh.hist, ∀ k k', acceptedKey c = some k → acceptedKey c' = some k' →
    k.coin = k'.coin → k.coin ≠ none → k = k'

theorem OneSpelling.entry {sh : State X} (h : OneSpelling sh) (hk : SerialsKept sh)
    {call : CallId} {op : Op} {e : Entry}
    (hp : spelledAsRecorded sh ⟨call, op, e.tx, sh.db⟩ = true) :
    OneSpelling (⟨e.apply sh.db, sh.mem, ⟨call, op, e.tx, sh.db⟩ :: sh.hist⟩ : State X) := by
  -- What was accepted earlier has its row, and the new commit was compared with every row.
  have hnew : ∀ c ∈ sh.hist, ∀ k k', acceptedKey c = some k →
      acceptedKey ⟨call, op, e.tx, sh.db⟩ = some k' → k.coin = k'.coin → k.coin ≠ none →
        k = k' := by
    intro c hc k k' hck hck' hcoin hsome
    obtain ⟨row, hrow⟩ := hk.kept c hc k hck
    rw [spelledAsRecorded, hck', Option.all_some] at hp
    have hall := List.all_eq_true.mp hp (k, row) (Table.mem_rows.mpr hrow)
    have hk' : k'.coin.isNone = false := by
      rw [← hcoin]
      exact Option.isNone_eq_false_iff.mpr (Option.isSome_iff_ne_none.mpr hsome)
    simpa [hcoin, hk'] using hall
  intro c hc c' hc' k k' hck hck' hcoin hsome
  rcases List.mem_cons.mp hc with rfl | hc
  · rcases List.mem_cons.mp hc' with rfl | hc'
    · exact Option.some.inj (hck.symm.trans hck')
    · exact (hnew c' hc' k' k hck' hck hcoin.symm (hcoin ▸ hsome)).symm
  · rcases List.mem_cons.mp hc' with rfl | hc'
    · exact hnew c hc k k' hck hck' hcoin hsome
    · exact h c hc c' hc' k k' hck hck' hcoin hsome

theorem oneSpelling
    (h : Sys.Steps (.commits fun sh c => spelledAsRecorded sh c = true) (start X) s) :
    OneSpelling s.shared := by
  refine (invariant (J := fun sh => SerialsKept sh ∧ OneSpelling sh) h ?_ ?_ ?_).2
  · exact ⟨⟨fun _ hc => absurd hc (by simp), .nil, fun k row hk =>
      absurd hk (by simp [Tables.empty])⟩, fun _ hc => absurd hc (by simp)⟩
  · intro sh call op e _ hj hv hfrom hp
    exact ⟨hj.1.entry hv hfrom, hj.2.entry hj.1 hp⟩
  · exact fun hj => ⟨⟨hj.1.kept, hj.1.once, hj.1.from_accept⟩, hj.2⟩

/-- A commit that spells a recorded coin differently accepts it once more. -/
theorem accepted_again (h : Sys.Steps π (start X) s) {c : Commit database Op}
    (hbad : spelledAsRecorded s.shared c = false) :
    ∃ c' ∈ s.shared.hist, ∃ k k', acceptedKey c' = some k' ∧ acceptedKey c = some k ∧
      k'.coin = k.coin ∧ k.coin ≠ none := by
  cases hk : acceptedKey c with
  | none => exact absurd hbad (by simp [spelledAsRecorded, hk])
  | some k =>
    rw [spelledAsRecorded, hk, Option.all_some] at hbad
    obtain ⟨r, hr, hdiff⟩ := List.all_eq_false.mp hbad
    obtain ⟨c', hc', hk', -⟩ := (serialsKept h).from_accept r.1 r.2 (Table.mem_rows.mp hr)
    simp only [Bool.or_eq_true, decide_eq_true_eq, not_or, ne_eq, not_not] at hdiff
    obtain ⟨⟨hcoin, hsome⟩, -⟩ := hdiff
    exact ⟨c', hc', k, r.1, hk', rfl, hcoin, fun hnone => hsome (by simp [hnone])⟩

/-- **The registry accepts each coin once**, in every run in which no coin is accepted under a
    second spelling: of the submissions of one coin, however spelled, at most one is answered
    that it was accepted. -/
theorem coin_accepted_once
    (h : Sys.Steps (.commits fun sh c => spelledAsRecorded sh c = true) (start X) s)
    (cents : UInt64) (scheme : UInt8) (serial : Bytes) :
    (s.answers.filter (acceptsCoin cents scheme serial)).length ≤ 1 := by
  refine (Sys.calls_init.steps h).length_le_one fun a ha b hb hpa hpb => ?_
  -- An answer that accepts stands for the commit that did.
  have hcommit : ∀ a ∈ s.answers, acceptsCoin cents scheme serial a = true →
      ∃ c ∈ s.shared.hist, c.call = a.call ∧ ∃ denom k, acceptedKey c = some k ∧
        i64TryFrom cents = some denom ∧ k.coin = some (denom, (scheme.toNat : Int), serial) := by
    intro a ha hpa
    obtain ⟨caller, submission, response, hop, hans, hout, rfl, rfl, hserial⟩ :=
      acceptsCoin_eq_true hpa
    have hpost : Post a.call a.op a.ans s.shared := (good h).answers a ha
    rw [hop, hans] at hpost
    obtain ⟨⟨call, op, tx, before⟩, hc, hcall, -, check, id, pair, key, row, outstanding, hrec,
      htx⟩ := hpost.accepted hout
    obtain rfl : tx = _ := htx
    obtain ⟨denom, hd, rfl⟩ := hrec.key
    exact ⟨_, hc, hcall, denom, _, acceptedKey_accept .., hd, coin_serialKey hserial⟩
  obtain ⟨c, hc, hcall, denom, k, hk, hd, hcoin⟩ := hcommit a ha hpa
  obtain ⟨c', hc', hcall', denom', k', hk', hd', hcoin'⟩ := hcommit b hb hpb
  obtain rfl : denom' = denom := Option.some.inj (hd'.symm.trans hd)
  obtain rfl : k = k' := oneSpelling h c hc c' hc' k k' hk hk' (hcoin.trans hcoin'.symm)
    (by simp [hcoin])
  rw [← hcall, ← hcall', accepted_call_unique h hc hc' hk hk']

/-- A coin of `bank-a`, worth 100 cents, its serial spelled `serialHex`. -/
def toySerial (serialHex : String) : SerialSubmission :=
  ⟨"bank-a", 100, 0, serialHex, "t-" ++ serialHex⟩

/-- Two banks submit one coin, spelled alike. -/
theorem coin_accepted_once_alike : ∃ s : Sys (service .toy),
    s.answers.length = 4 ∧ (s.answers.filter (acceptsCoin 100 0 [171])).length = 1 ∧
      (s.answers.filter (acceptsCoin 100 0 [171])).length ≤ 1 := by
  obtain ⟨s, hs, hp⟩ := Sys.exists_of_runGuarded (g := spelledAsRecorded) (s := start .toy)
    (l := opened ++ call (.postSerial "bank-b" (toySerial "ab")) :: go 2 8 ++
      call (.postSerial "bank-c" (toySerial "ab")) :: go 3 8)
    (p := fun s => s.answers.length = 4 ∧
      (s.answers.filter (acceptsCoin 100 0 [171])).length = 1) (by decide)
  obtain ⟨hanswers, hone⟩ := of_decide_eq_true hp
  exact ⟨s, hanswers, hone, coin_accepted_once hs 100 0 [171]⟩

/-- And spelled with a small and with a capital letter: accepted for both. -/
theorem coin_accepted_twice : ∃ s : Sys (service .toy), Sys.Steps .any (start .toy) s ∧
    (s.answers.filter (acceptsCoin 100 0 [171])).length = 2 := by
  obtain ⟨s, hs, hp⟩ := Sys.exists_of_run (s := start .toy)
    (l := opened ++ call (.postSerial "bank-b" (toySerial "ab")) :: go 2 8 ++
      call (.postSerial "bank-c" (toySerial "AB")) :: go 3 8)
    (p := fun s => (s.answers.filter (acceptsCoin 100 0 [171])).length = 2) (by decide)
  exact ⟨s, hs, of_decide_eq_true hp⟩

end Digicash.Registry
