import Digicash.Registry.Outcomes

/-!
# Collisions

What `submit_serial`, run by itself, makes of a serial that is recorded already. The cap comes
first: a submission that meets a receivable at its cap is told so and leaves nothing, whether its
serial is new or not. Every other one appends its transcript and is answered all there are.
-/

namespace Digicash.Registry

open Lib

variable {X : Crypto} {db db' : Tables} {caller : String} {submission : SerialSubmission}
  {now : UInt64}

/-! ## A submission of a recorded serial -/

/-- One transcript more, and nothing else. -/
def Appended (db : Tables) (row : TranscriptRow) (db' : Tables) : Prop :=
  ∃ id, db.transcripts.lookup id = none ∧
    db' = { db with transcripts := db.transcripts.put id (some row) }

/-- What a submission of the serial `key`, which is there, ends with. -/
def Collides (db : Tables) (pair : Pair) (own : TranscriptRow) (db' : Tables)
    (response : SerialResponse) : Prop :=
  (db.capReached pair → response = ⟨.exposureCapExceeded, []⟩ ∧ db' = db) ∧
    (¬ db.capReached pair → response.outcome = .doubleSpend ∧ Appended db own db' ∧
      (db'.transcriptsOf own.serial).mapM toEntry = .ok response.transcripts)

/-- What `submit_serial` may end with on a serial that is there, at the clock `now`. -/
structure EndsCollision (db : Tables) (caller : String) (submission : SerialSubmission)
    (denom : Int) (now : UInt64) (r : Except RegistryError SerialResponse) (db' : Tables) :
    Prop where
  refused : i64TryFrom now = none → (∃ e, r = .error e) ∧ db' = db
  answered : ∀ seen, i64TryFrom now = some seen → ∃ response, r = .ok response ∧
    Collides db (submissionPair caller submission)
      ⟨serialKey submission denom, caller, submission.transcript, seen⟩ db' response

/-- It is what the checks come to where the serial is there. -/
theorem EndsSubmission.collision {r : Except RegistryError SerialResponse} {denom : Int}
    {first : SerialRow} (h : EndsSubmission db caller submission now r db')
    (hdated : ∀ id row, db.transcripts.lookup id = some row → 0 ≤ row.seenAt)
    (hd : i64TryFrom submission.denominationCents = some denom)
    (hfirst : db.serials.lookup (serialKey submission denom) = some first) :
    EndsCollision db caller submission denom now r db' := by
  obtain ⟨rfl, hmax⟩ := i64TryFrom_eq_some hd
  obtain ⟨id, hid, h⟩ := h
  have h := h.passed hmax
  refine ⟨fun hnow => ?_, fun seen hseen => ?_⟩
  · have hrange : ¬ (now.toNat : Int) ≤ i64Max := fun hle => by
      rw [i64TryFrom, if_pos hle] at hnow
      cases hnow
    obtain ⟨rfl, rfl⟩ := Prod.mk.inj (h.stopped hrange)
    exact ⟨⟨_, rfl⟩, rfl⟩
  obtain ⟨rfl, hclock⟩ := i64TryFrom_eq_some hseen
  have h := h.passed hclock
  by_cases hcap : db.capReached (submissionPair caller submission)
  · obtain ⟨rfl, rfl⟩ := Prod.mk.inj (h.stopped fun hnot => hnot hcap)
    exact ⟨_, rfl, fun _ => ⟨rfl, rfl⟩, fun hnot => absurd hcap hnot⟩
  have hknown : ¬ db.serials.lookup (keyOf submission) = none := fun hnone =>
    absurd (hfirst.symm.trans hnone) (by simp)
  obtain ⟨rfl, rfl⟩ := Prod.mk.inj ((h.passed hcap).stopped hknown)
  refine ⟨_, rfl, fun h => absurd h hcap, fun _ => ⟨rfl, ⟨id, hid, rfl⟩, ?_⟩⟩
  exact mapM_toEntry (afterTranscript_dated hdated)

/-! ## Every collision that passes the cap is recorded -/

/-- **A collision is recorded unless the cap is reached.** From every reachable state, a submission
    of a recorded serial that runs by itself is told that the cap is exceeded exactly if the
    receivable of its pair has reached one, and then changes nothing; in every other case it appends
    its transcript, changes nothing else, and is answered a double-spend with all transcripts of the
    serial, its own among them. Only a clock that is no `i64` is refused before that. -/
theorem collision_recorded {s : Sys (service X)} (h : Sys.Steps .any (start X) s) (i : CallId)
    (op : Op) (caller : String) (submission : SerialSubmission) (now : UInt64) {denom : Int}
    {first : SerialRow} (hd : i64TryFrom submission.denominationCents = some denom)
    (hfirst : s.shared.db.serials.lookup (serialKey submission denom) = some first) :
    EndsAlone (S := service X) i op
      (fun r sh' => EndsCollision s.shared.db caller submission denom now r sh'.db)
      (submitSerial caller submission now).run s.shared := by
  refine Alone.ends (C := fun _ => True) runExt_isSome ?_
  have hdated : ∀ id row, s.shared.db.transcripts.lookup id = some row → 0 ≤ row.seenAt :=
    fun id row hid => seenAt_nonneg h hid
  have hspec : Alone.Spec (S := service X) Calm i op _ _ _ (submitSerial caller submission now) none
      s.shared := submitSerial_calm caller submission now (good h).inv hdated id
  refine Alone.mono (fun r tx sh' _ hr => ?_) trivial hspec
  cases r with
  | ok response => exact ⟨hr.1, hr.2.collision hdated hd hfirst⟩
  | error e => exact ⟨hr.1, hr.2.collision hdated hd hfirst⟩

/-- A bank submits a serial that another bank has deposited, and no cap is set. -/
theorem collision_recorded_uncapped : ∃ s : Sys (service .toy), ∃ env sh' response,
    (submitSerial "bank-c" (toySubmission "s1") 7).run.interp
      (answering (S := service .toy) (always default) 3 .connect) ((), s.shared, none) =
        (some (.ok response), env, sh', none) ∧
    response.outcome = .doubleSpend ∧
      Appended s.shared.db ⟨⟨64, 0, "s1"⟩, "bank-c", "t-s1", 7⟩ sh'.db := by
  obtain ⟨s, hs, hp⟩ := Sys.exists_of_run (s := start .toy)
    (l := opened ++ call (.postSerial "bank-b" (toySubmission "s1")) :: go 2 8)
    (p := fun s => s.shared.db.serials.lookup ⟨64, 0, "s1"⟩ = some ⟨"bank-b", "t-s1", 0⟩ ∧
      s.shared.db.exposureCaps.lookup ⟨"bank-a", "bank-c"⟩ = none) (by decide)
  obtain ⟨hfirst, hcap⟩ := of_decide_eq_true hp
  obtain ⟨r, env, sh', hrun, hends⟩ := @collision_recorded .toy s hs 3 .connect
    "bank-c" (toySubmission "s1") 7 64 _ (by decide) hfirst Unit (always default) (fun _ _ => rfl) ()
  obtain ⟨response, rfl, -, hopen⟩ := hends.answered 7 (by decide)
  obtain ⟨hout, happ, -⟩ := hopen fun ⟨cap, hsome, _⟩ => absurd (hcap.symm.trans hsome) (by simp)
  exact ⟨s, env, sh', response, hrun, hout, happ⟩

/-- The receivable of `bank-b` has reached its cap, and a serial that `bank-c` deposited is
    submitted by `bank-b`: it is not told of the collision, and its transcript is not there. -/
theorem collision_hidden : ∃ s s' : Sys (service .toy), Sys.Steps .any (start .toy) s ∧
    s.shared.db.serials.lookup ⟨100, 0, "s1"⟩ = some ⟨"bank-c", "t-s1", 0⟩ ∧
      s.run (call (.postSerial "bank-b" (toyHundred "s1")) :: go 5 6) = some s' ∧
      (∃ a ∈ s'.answers, a.call = 5 ∧ a.op = .postSerial "bank-b" (toyHundred "s1") ∧
        a.ans = .postSerial (.ok ⟨.exposureCapExceeded, []⟩)) ∧
      ∀ r ∈ s'.shared.db.transcripts.rows, r.2.serial = ⟨100, 0, "s1"⟩ → r.2.bankId = "bank-c" := by
  obtain ⟨s, hs, hp⟩ := Sys.exists_of_run (s := start .toy)
    (l := capped ++ call (.postSerial "bank-c" (toyHundred "s1")) :: go 3 8 ++
      call (.postSerial "bank-b" (toyHundred "s2")) :: go 4 9)
    (p := fun s => s.shared.db.serials.lookup ⟨100, 0, "s1"⟩ = some ⟨"bank-c", "t-s1", 0⟩ ∧
      (s.run (call (.postSerial "bank-b" (toyHundred "s1")) :: go 5 6)).any (fun s' =>
        (∃ a ∈ s'.answers, a.call = 5 ∧ a.op = .postSerial "bank-b" (toyHundred "s1") ∧
          a.ans = .postSerial (.ok ⟨.exposureCapExceeded, []⟩)) ∧
        ∀ r ∈ s'.shared.db.transcripts.rows, r.2.serial = ⟨100, 0, "s1"⟩ →
          r.2.bankId = "bank-c") = true) (by decide)
  obtain ⟨hfirst, hrun⟩ := of_decide_eq_true hp
  obtain ⟨s', hs', hp'⟩ := (Option.any_eq_true _ _).mp hrun
  obtain ⟨hanswer, htranscripts⟩ := of_decide_eq_true hp'
  exact ⟨s, s', hs, hfirst, hs', hanswer, htranscripts⟩

end Digicash.Registry
