import Digicash.Registry.Settlement

/-!
# Exposure caps

A submission reads the cap and the receivable of its pair, and some statements later adds its
denomination. The addition locks the receivable; the reading does not. So the cap holds for
every submission that finds at its addition no more than it had read, and an acceptance that
comes in between is the only thing that can put more there.
-/

namespace Digicash.Registry

open Lib

variable {X : Crypto} {s₀ s : Sys (service X)}

/-- The cap a transaction read for `p`. -/
def readCap (t : Tx database) (p : Pair) : Option (Option Int) :=
  t.trace.findSome? fun e =>
    match e with
    | ⟨.selectCap q, cap⟩ => if q = p then some cap else none
    | _ => none

/-- The receivable a transaction read for `p`. -/
def readReceivable (t : Tx database) (p : Pair) : Option Int :=
  t.trace.findSome? fun e =>
    match e with
    | ⟨.selectReceivable q, amount⟩ => if q = p then some (Option.getD amount (0 : Int)) else none
    | _ => none

/-- **The condition under which the cap holds**: where a commit accepts a submission, the cap of
    its pair is the one it read, and the receivable is no more than what it read. -/
def capCheckStands (_ : State X) (c : Commit database Op) : Bool :=
  match c.op with
  | .postSerial caller submission =>
    let p := submissionPair caller submission
    !inserted c || (readCap c.tx p = some ((Tables.exposureCaps c.before).lookup p) &&
      (readReceivable c.tx p).all fun amount => Tables.receivable c.before p ≤ amount)
  | _ => true

theorem readCap_accept (check : CapCheck) (id : Nat) (pair : Pair) (key : SerialKey)
    (row : SerialRow) (outstanding : Option Int) :
    readCap (Entry.accept check id pair key row outstanding).tx pair =
      some (check.map Prod.fst) := by
  cases check with
  | none => simp [readCap, Entry.tx, Entry.serialTx, Entry.transcriptTx, Entry.capTx, Entry.ran,
      Tx.push, Tx.empty]
  | some read => simp [readCap, Entry.tx, Entry.serialTx, Entry.transcriptTx, Entry.capTx,
      Entry.ran, Tx.push, Tx.empty]

theorem readReceivable_accept (cap : Int) (amount : Option Int) (id : Nat) (pair : Pair)
    (key : SerialKey) (row : SerialRow) (outstanding : Option Int) :
    readReceivable (Entry.accept (some (cap, amount)) id pair key row outstanding).tx pair =
      some (amount.getD 0) := by
  simp [readReceivable, Entry.tx, Entry.serialTx, Entry.transcriptTx, Entry.capTx, Entry.ran,
    Tx.push, Tx.empty]

/-- Only a submission inserts a serial. -/
theorem Entry.exists_accept {call : CallId} {op : Op} {db : Tables} {e : Entry}
    (hfrom : e.From op) {caller : String} {submission : SerialSubmission}
    (hop : op = .postSerial caller submission) (hin : inserted ⟨call, op, e.tx, db⟩ = true) :
    ∃ check id key row outstanding,
      e = .accept check id (submissionPair caller submission) key row outstanding ∧
        key.denominationCents = submission.denominationCents.toNat := by
  subst hop
  cases e with
  | accept check id pair key row outstanding =>
    obtain ⟨rfl, ⟨denom, hd, rfl⟩, -, -⟩ := hfrom
    exact ⟨check, id, _, row, outstanding, rfl, (i64TryFrom_eq_some hd).1⟩
  | doubleSpend check id pair key row seen => exact absurd hin (by simp)
  | _ => exact False.elim hfrom

/-- What a commit that accepted a submission did to the receivable of its pair. -/
structure WithinCap (c : Commit database Op) (caller : String) (submission : SerialSubmission) :
    Prop where
  below : ∀ cap,
    (Tables.exposureCaps c.before).lookup (submissionPair caller submission) = some cap →
      Tables.receivable c.before (submissionPair caller submission) < cap
  adds : Tables.receivable c.after (submissionPair caller submission) =
    Tables.receivable c.before (submissionPair caller submission) +
      submission.denominationCents.toNat

theorem Entry.withinCap {sh : State X} {call : CallId} {op : Op} {e : Entry} (hv : e.Valid sh.db)
    (hfrom : e.From op) (hp : capCheckStands sh ⟨call, op, e.tx, sh.db⟩ = true) {caller : String}
    {submission : SerialSubmission} (hop : op = .postSerial caller submission)
    (hin : inserted ⟨call, op, e.tx, sh.db⟩ = true) :
    WithinCap ⟨call, op, e.tx, sh.db⟩ caller submission := by
  obtain ⟨check, id, key, row, outstanding, rfl, hdenom⟩ := e.exists_accept hfrom hop hin
  subst hop
  simp only [capCheckStands, hin, Bool.not_true, Bool.false_or, Bool.and_eq_true,
    decide_eq_true_eq] at hp
  obtain ⟨hcap, hread⟩ := hp
  rw [readCap_accept] at hcap
  refine ⟨fun cap hlookup => ?_, ?_⟩
  · -- A cap is set, so it was read, and the receivable passed the check.
    rw [hlookup] at hcap
    cases check with
    | none => exact absurd hcap (by simp)
    | some read =>
      obtain ⟨cap', amount⟩ := read
      obtain rfl : cap' = cap := by simpa using hcap
      rw [readReceivable_accept, Option.all_some, decide_eq_true_eq] at hread
      have hpassed : amount.getD 0 < cap' := hv.1
      exact lt_of_le_of_lt hread hpassed
  · have hafter : (⟨call, .postSerial caller submission, (Entry.accept check id
        (submissionPair caller submission) key row outstanding).tx, sh.db⟩ :
        Commit database Op).after = _ := applyWrites_tx _ sh.db
    rw [hafter, receivable_apply hv, accepts, if_pos rfl, hdenom, sub_zero]

/-- What is true of the commits `new` made since the tables were `db₀`. -/
structure CapKept (db₀ db : Tables) (new : List (Commit database Op)) : Prop where
  within : ∀ c ∈ new, ∀ caller submission, c.op = .postSerial caller submission →
    inserted c = true → WithinCap c caller submission
  bounded : ∀ (p : Pair) (cap largest : Int),
    (∀ c ∈ new, ∀ caller submission, c.op = .postSerial caller submission → inserted c = true →
      submissionPair caller submission = p →
        (Tables.exposureCaps c.before).lookup p = some cap ∧
          (submission.denominationCents.toNat : Int) ≤ largest) →
    db₀.receivable p < cap + largest → db.receivable p < cap + largest

theorem CapKept.entry {db₀ : Tables} {sh : State X} {new : List (Commit database Op)}
    (h : CapKept db₀ sh.db new) (hw : sh.db.WellFormed) {call : CallId} {op : Op} {e : Entry}
    (hv : e.Valid sh.db) (hfrom : e.From op)
    (hp : capCheckStands sh ⟨call, op, e.tx, sh.db⟩ = true) :
    CapKept db₀ (e.apply sh.db) (⟨call, op, e.tx, sh.db⟩ :: new) := by
  refine ⟨fun c hc caller submission hop hin => ?_, fun p cap largest hall h₀ => ?_⟩
  · rcases List.mem_cons.mp hc with rfl | hc
    · exact e.withinCap hv hfrom hp hop hin
    · exact h.within c hc caller submission hop hin
  · have hold := h.bounded p cap largest (fun c hc => hall c (List.mem_cons_of_mem _ hc)) h₀
    rw [Entry.receivable_apply hv]
    cases e with
    | accept check id pair key row outstanding =>
      simp only [Entry.accepts]
      by_cases hpair : pair = p
      · -- This one met less than the cap, and adds no more than the largest denomination.
        cases op with
        | postSerial caller submission =>
          have hrec : Records caller submission pair key row := hfrom
          obtain ⟨rfl, ⟨denom, hd, rfl⟩, -, -⟩ := hrec
          obtain ⟨hcap, hlargest⟩ := hall _ (List.mem_cons_self ..) caller submission rfl rfl hpair
          have hbelow := (Entry.withinCap hv hfrom hp rfl rfl).below cap (hpair ▸ hcap)
          rw [hpair] at hbelow
          have hdenom : denom = submission.denominationCents.toNat := (i64TryFrom_eq_some hd).1
          rw [if_pos hpair, sub_zero]
          change sh.db.receivable p < cap at hbelow
          show sh.db.receivable p + denom < cap + largest
          omega
        | _ => exact False.elim hfrom
      · rw [if_neg hpair]
        omega
    | settle read claims cleared =>
      -- A settlement takes receivables away, and they are not negative.
      have hcleared : 0 ≤ amountIn cleared p := by
        obtain ⟨-, -, -, -, -, hnodup, hrows⟩ := hv
        by_cases hmem : p ∈ cleared.map Prod.fst
        · obtain ⟨r, hr, rfl⟩ := List.mem_map.mp hmem
          rw [amountIn, lookup_of_mem hnodup hr]
          exact (hw.receivable r.1 r.2 (hrows r hr)).1
        · rw [amountIn, lookup_of_notMem hmem, Option.getD_none]
      simp only [Entry.accepts]
      omega
    | _ =>
      simp only [Entry.accepts]
      omega

/-- **The exposure cap.** From any reachable state, in every run in which each accepted
    submission finds the cap it read and no more receivable than it read: each one adds its
    denomination to a receivable below the cap; and under a fixed cap the receivable stays below
    the cap plus the largest denomination accepted. -/
theorem exposure_cap (h₀ : Sys.Steps .any (start X) s₀)
    (h : Sys.Steps (.commits fun sh c => capCheckStands sh c = true) s₀ s) :
    ∃ new, s.shared.hist = new ++ s₀.shared.hist ∧ CapKept s₀.shared.db s.shared.db new := by
  refine Ledger.invariant sound (good h₀) h
    (J := fun _ sh => ∃ new, sh.hist = new ++ s₀.shared.hist ∧ CapKept s₀.shared.db sh.db new)
    ⟨[], rfl, ⟨fun _ hc => absurd hc (by simp), fun _ _ _ _ h => h⟩⟩ ?_ ?_ ?_
  · intro _ sh call op e hw hj hv hfrom hp
    obtain ⟨new, hhist, hkept⟩ := hj
    exact ⟨⟨call, op, e.tx, sh.db⟩ :: new, congrArg _ hhist, hkept.entry hw hv hfrom hp⟩
  · exact fun hj _ => hj
  · exact fun hj _ => hj

/-- The admin caps what `bank-b` may be owed by `bank-a`. -/
def capped : List (Event (service .toy)) :=
  opened ++ call (.postCap "admin" ⟨"bank-a", "bank-b", 100⟩) :: go 2 3

/-- Two coins of 64 cents, one after the other, fit under a cap of 100. -/
theorem exposure_cap_in_turn : ∃ s₀ s : Sys (service .toy),
    s₀.shared.db.exposureCaps.lookup ⟨"bank-a", "bank-b"⟩ = some 100 ∧
      s.shared.db.receivable ⟨"bank-a", "bank-b"⟩ = 128 ∧
      ∃ new, s.shared.hist = new ++ s₀.shared.hist ∧ CapKept s₀.shared.db s.shared.db new := by
  obtain ⟨s₀, h₀, hp₀⟩ := Sys.exists_of_run (s := start .toy) (l := capped)
    (p := fun s₀ => s₀.shared.db.exposureCaps.lookup ⟨"bank-a", "bank-b"⟩ = some 100 ∧
      (s₀.runGuarded capCheckStands
        (call (.postSerial "bank-b" (toySubmission "s1")) :: go 3 9 ++
          call (.postSerial "bank-b" (toySubmission "s2")) :: go 4 9)).any
        (fun s => s.shared.db.receivable ⟨"bank-a", "bank-b"⟩ = 128) = true) (by decide)
  obtain ⟨hcap, hrun⟩ := of_decide_eq_true hp₀
  obtain ⟨s, hs, hp⟩ := Sys.exists_of_runGuarded hrun
  exact ⟨s₀, s, hcap, of_decide_eq_true hp, exposure_cap h₀ hs⟩

/-- A coin of 100 cents. -/
def toyHundred (serialHex : String) : SerialSubmission :=
  ⟨"bank-a", 100, 0, serialHex, "t-" ++ serialHex⟩

/-- Two submissions of 100 cents check the cap of 100 before either is accepted. The second to
    add meets a receivable of 100, and leaves 200. -/
theorem cap_overrun : ∃ s : Sys (service .toy), Sys.Steps .any (start .toy) s ∧
    s.shared.db.exposureCaps.lookup ⟨"bank-a", "bank-b"⟩ = some 100 ∧
      s.shared.db.receivable ⟨"bank-a", "bank-b"⟩ = 200 ∧
      ∃ c ∈ s.shared.hist, c.op = .postSerial "bank-b" (toyHundred "s1") ∧ inserted c = true ∧
        (Tables.exposureCaps c.before).lookup ⟨"bank-a", "bank-b"⟩ = some 100 ∧
        Tables.receivable c.before ⟨"bank-a", "bank-b"⟩ = 100 := by
  obtain ⟨s, hs, hp⟩ := Sys.exists_of_run (s := start .toy)
    (l := capped ++ call (.postSerial "bank-b" (toyHundred "s1")) :: go 3 4 ++
      call (.postSerial "bank-b" (toyHundred "s2")) :: go 4 9 ++ go 3 5)
    (p := fun s => s.shared.db.exposureCaps.lookup ⟨"bank-a", "bank-b"⟩ = some 100 ∧
      s.shared.db.receivable ⟨"bank-a", "bank-b"⟩ = 200 ∧
      ∃ c ∈ s.shared.hist, c.op = .postSerial "bank-b" (toyHundred "s1") ∧ inserted c = true ∧
        (Tables.exposureCaps c.before).lookup ⟨"bank-a", "bank-b"⟩ = some 100 ∧
        Tables.receivable c.before ⟨"bank-a", "bank-b"⟩ = 100) (by decide)
  exact ⟨s, hs, of_decide_eq_true hp⟩

end Digicash.Registry
