import Digicash.Nonces
import Digicash.Bank.Refinement
import Digicash.Registry.Refinement

/-!
# Anti-replay

Both servers' commits are moves of the nonce store, so both remember, and neither accepts a
signed request twice in a run in which every acceptance is `timely`.

The clock need not be monotone for that. It is in `accepted_twice`, where the same request is
accepted at 0 and again at 120.
-/

namespace Digicash.Bank

open Lib

variable {X : Crypto} {κ : Config X} {s : Sys (service X)}

/-- What a commit of the bank is to its nonces. -/
def nonceEvent (c : Commit database Op) : Option NonceEvent :=
  match c.op, c.tx.trace with
  | .authenticate request, [⟨.upsertNonce _ _ now, _⟩] => some (.accept request now)
  | _, [⟨.purgeNonces now, _⟩] => some (.purge now)
  | _, _ => none

/-- Every acceptance is in time. -/
def timelyNonces (sh : State X) (c : Commit database Op) : Bool :=
  timelyEvent (nonceEvent c) (nonceLog (S := service X) nonceEvent sh.hist)

theorem Entry.nonceMove {mem : Memory} {call : CallId} {op : Op} {e : Entry} {db : Tables}
    (hv : e.Valid κ db) (h : e.From κ mem call op) :
    NonceMove db.nonceStore (nonceEvent ⟨call, op, e.tx, db⟩) (e.apply db).nonceStore := by
  cases e with
  | recordNonce n expiry now =>
    cases op with
    | authenticate request =>
      obtain ⟨auth, clock, hauth, rfl, hwindow, hnow, hexpiry⟩ := h
      exact .accept hauth hwindow hnow hexpiry hv
    | _ => exact False.elim h
  | purge now expired => cases op <;> exact .purge hv
  | _ => cases op <;> exact .other

theorem remembers (h : Sys.Steps (.commits fun sh c => timelyNonces sh c = true) (start κ) s) :
    Remembers s.shared.db.nonceStore (nonceLog (S := service X) nonceEvent s.shared.hist) := by
  refine invariant (J := fun _ sh => Remembers sh.db.nonceStore
    (nonceLog (S := service X) nonceEvent sh.hist)) h .empty ?_ (fun h _ => h) (fun h _ => h)
  intro κ sh call op e _ hj hv hfrom hp
  rw [nonceLog_cons]
  exact hj.move (Entry.nonceMove hv hfrom) hp

/-- The answer accepts this request. -/
def accepts (request : Request) (a : Answer (service X)) : Bool :=
  match a.op, a.ans with
  | .authenticate r, .authenticate (.ok _) => decide (request.Same r)
  | _, _ => false

theorem accepts_recorded {request : Request} {a : Answer (service X)} {sh : State X}
    (h : accepts request a = true) (hpost : Post a.conf a.call a.op a.ans sh) :
    ∃ c ∈ sh.hist, c.call = a.call ∧ ∃ r now, request.Same r ∧
      nonceEvent c = some (.accept r now) := by
  obtain ⟨call, op, ans, conf⟩ := a
  cases op with
  | authenticate r =>
    cases ans with
    | authenticate result =>
      cases result with
      | ok account =>
        obtain ⟨⟨call', op', tx, before⟩, hc, hcall, hop, n, expiry, now, htx⟩ := hpost
        obtain rfl : op' = .authenticate r := hop
        obtain rfl : tx = (Entry.recordNonce n expiry now).tx := htx
        exact ⟨_, hc, hcall, r, now, of_decide_eq_true h, rfl⟩
      | error e => exact absurd h (by simp [accepts])
    | _ => exact absurd h (by simp [accepts])
  | _ => exact absurd h (by simp [accepts])

end Digicash.Bank

namespace Digicash.Registry

open Lib

variable {X : Crypto} {s : Sys (service X)}

/-- What a commit of the registry is to its nonces. -/
def nonceEvent (c : Commit database Op) : Option NonceEvent :=
  match c.op, c.tx.trace with
  | .authenticate request, [⟨.upsertNonce _ _ now, _⟩] => some (.accept request now)
  | _, [⟨.purgeNonces now, _⟩] => some (.purge now)
  | _, _ => none

/-- Every acceptance is in time. -/
def timelyNonces (sh : State X) (c : Commit database Op) : Bool :=
  timelyEvent (nonceEvent c) (nonceLog (S := service X) nonceEvent sh.hist)

theorem Entry.nonceMove {call : CallId} {op : Op} {e : Entry} {db : Tables}
    (hv : e.Valid db) (h : e.From op) :
    NonceMove db.nonceStore (nonceEvent ⟨call, op, e.tx, db⟩) (e.apply db).nonceStore := by
  cases e with
  | recordNonce n expiry now =>
    cases op with
    | authenticate request =>
      obtain ⟨auth, clock, hauth, rfl, hwindow, hnow, hexpiry⟩ := h
      exact .accept hauth hwindow hnow hexpiry hv
    | _ => exact False.elim h
  | purge now expired => cases op <;> exact .purge hv
  | _ => cases op <;> exact .other

theorem remembers
    (h : Sys.Steps (.commits fun sh c => timelyNonces sh c = true) (start X) s) :
    Remembers s.shared.db.nonceStore (nonceLog (S := service X) nonceEvent s.shared.hist) := by
  refine invariant (J := fun sh => Remembers sh.db.nonceStore
    (nonceLog (S := service X) nonceEvent sh.hist)) h .empty ?_ (fun h => h)
  intro sh call op e _ hj hv hfrom hp
  rw [nonceLog_cons]
  exact hj.move (Entry.nonceMove hv hfrom) hp

/-- The answer accepts this request. -/
def accepts (request : Request) (a : Answer (service X)) : Bool :=
  match a.op, a.ans with
  | .authenticate r, .authenticate (.ok _) => decide (request.Same r)
  | _, _ => false

theorem accepts_recorded {request : Request} {a : Answer (service X)} {sh : State X}
    (h : accepts request a = true) (hpost : Post a.call a.op a.ans sh) :
    ∃ c ∈ sh.hist, c.call = a.call ∧ ∃ r now, request.Same r ∧
      nonceEvent c = some (.accept r now) := by
  obtain ⟨call, op, ans, conf⟩ := a
  cases op with
  | authenticate r =>
    cases ans with
    | authenticate result =>
      cases result with
      | ok account =>
        obtain ⟨⟨call', op', tx, before⟩, hc, hcall, hop, n, expiry, now, htx⟩ := hpost
        obtain rfl : op' = .authenticate r := hop
        obtain rfl : tx = (Entry.recordNonce n expiry now).tx := htx
        exact ⟨_, hc, hcall, r, now, of_decide_eq_true h, rfl⟩
      | error e => exact absurd h (by simp [accepts])
    | _ => exact absurd h (by simp [accepts])
  | _ => exact absurd h (by simp [accepts])

end Digicash.Registry

namespace Digicash

open Lib

variable {X : Crypto}

/-- **A signed request is accepted at most once**, by the bank and by the registry, in every
    run in which every acceptance is timely. -/
theorem accepted_once :
    (∀ (κ : Bank.Config X) (s : Sys (Bank.service X)) (request : Request),
      Sys.Steps (.commits fun sh c => Bank.timelyNonces sh c = true) (Bank.start κ) s →
        (s.answers.filter (Bank.accepts request)).length ≤ 1) ∧
      ∀ (s : Sys (Registry.service X)) (request : Request),
        Sys.Steps (.commits fun sh c => Registry.timelyNonces sh c = true) (Registry.start X) s →
          (s.answers.filter (Registry.accepts request)).length ≤ 1 := by
  constructor
  · intro κ s request h
    exact (Bank.remembers h).answered_once (Sys.calls_init.steps h) fun a ha hacc =>
      Bank.accepts_recorded hacc ((Bank.good h).answers a ha)
  · intro s request h
    exact (Registry.remembers h).answered_once (Sys.calls_init.steps h) fun a ha hacc =>
      Registry.accepts_recorded hacc ((Registry.good h).answers a ha)

/-- A request of `alice` with timestamp 60, nonce `n` and a signature of 64 zero bytes. -/
def toyRequest : Request :=
  ⟨"POST", "/withdraw",
    [(headerAccount, [97, 108, 105, 99, 101]), (headerTimestamp, [54, 48]), (headerNonce, [110]),
      (headerSignature, .replicate 128 48)], []⟩

/-- The bank with a key for `alice`, and her request accepted at 0. The next call is 4. -/
def Bank.acceptedAtZero : List (Event (Bank.service .toy)) :=
  Bank.opened ++ Bank.call (.registerIdentity "alice" (.replicate 32 0)) :: Bank.go 2 2 ++
    Bank.call (.authenticate toyRequest) :: Bank.go 3 5

/-- The bank's call 4 presents the request again, at `clock`. -/
def Bank.presentedAt (clock : UInt64) : List (Event (Bank.service .toy)) :=
  Bank.call (.authenticate toyRequest) :: Bank.go 4 1 ++ .step 4 .none { clock } :: Bank.go 4 3

/-- The registry with `alice` as a member, and her request accepted at 0. -/
def Registry.acceptedAtZero : List (Event (Registry.service .toy)) :=
  Registry.opened ++ Registry.call (.registerMember "alice" (.replicate 32 0) false) ::
    Registry.go 2 2 ++ Registry.call (.authenticate toyRequest) :: Registry.go 3 5

/-- Presented again at 119, the request is still remembered. -/
theorem accepted_once_at_119 :
    (∃ s : Sys (Bank.service .toy), s.answers.length = 5 ∧
      (s.answers.filter (Bank.accepts toyRequest)).length ≤ 1) ∧
    ∃ s : Sys (Registry.service .toy), s.answers.length = 4 ∧
      (s.answers.filter (Registry.accepts toyRequest)).length ≤ 1 := by
  constructor
  · obtain ⟨s, hs, hp⟩ := Sys.exists_of_runGuarded (g := Bank.timelyNonces)
      (s := Bank.start Bank.Config.toy) (l := Bank.acceptedAtZero ++ Bank.presentedAt 119)
      (p := fun s => s.answers.length == 5) (by decide +kernel)
    exact ⟨s, beq_iff_eq.mp hp, accepted_once.1 Bank.Config.toy s toyRequest hs⟩
  · obtain ⟨s, hs, hp⟩ := Sys.exists_of_runGuarded (g := Registry.timelyNonces)
      (s := Registry.start .toy) (l := Registry.acceptedAtZero)
      (p := fun s => s.answers.length == 4) (by decide +kernel)
    exact ⟨s, beq_iff_eq.mp hp, accepted_once.2 s toyRequest hs⟩

/-- At 120 its nonce has expired and its timestamp has not. The clock never goes back. -/
theorem accepted_twice : ∃ s : Sys (Bank.service .toy),
    Sys.Steps .any (Bank.start Bank.Config.toy) s ∧
      s.shared.mem.readings.Pairwise (fun later earlier => earlier ≤ later) ∧
      (s.answers.filter (Bank.accepts toyRequest)).length = 2 := by
  obtain ⟨s, hs, hp⟩ := Sys.exists_of_run (s := Bank.start Bank.Config.toy)
    (l := Bank.acceptedAtZero ++ Bank.presentedAt 120)
    (p := fun s => s.shared.mem.readings.Pairwise (fun later earlier => earlier ≤ later) ∧
      (s.answers.filter (Bank.accepts toyRequest)).length = 2) (by decide +kernel)
  obtain ⟨hclock, htwice⟩ := of_decide_eq_true hp
  exact ⟨s, hs, hclock, htwice⟩

end Digicash
