import Digicash.Bank.Recovery
import Digicash.Lib.Handler
import Digicash.NonceKeeping
import Digicash.Registry.Netting

/-!
# Purging is invisible

The nonce store of either server, called again and again, answers as a log does from which nothing
is ever deleted: what a purge takes away had expired by an instant that nobody is asked at before.
That holds however often the process starts again, and wherever its count of nonces stands.
-/

namespace Digicash

open Lib

/-! ## One call after the other -/

inductive NonceCall where
  | check (nonce : String) (now : UInt64)
  | purge (now : UInt64)
  /-- The process ends and starts again, and counts from 0. -/
  | restart
deriving DecidableEq

/-- A call as the store sees it. -/
def NonceCall.toCall : NonceCall → Option (Expiring.Call String Int)
  | .check n now => some (.check n now.toNat)
  | .purge now => some (.purge now.toNat)
  | .restart => none

/-- The values of a call are in the range of an `i64`. -/
def NonceCall.InRange (ttl : UInt64) : NonceCall → Prop
  | .check _ now => (now.toNat : Int) + ttl.toNat ≤ i64Max
  | .purge now => (now.toNat : Int) ≤ i64Max
  | .restart => True

section Serving

variable {D : Database} {S : Service D} {ε ω : Type}

/-- Each call by itself, from its start to its end, and what the checks answer. -/
def serveNonces (w : Outside D ω) (i : CallId) (op : S.Op) (check : String → UInt64 → Fallible D ε Bool)
    (purge : UInt64 → Fallible D ε Unit) :
    List NonceCall → ω → Shared D S.Op → Option (List Bool × ω × Shared D S.Op)
  | [], env, sh => some ([], env, sh)
  | .check n now :: calls, env, sh =>
    match (check n now).run.interp (answering w i op) (env, sh, none) with
    | (some (.ok fresh), env, sh, _) =>
      (serveNonces w i op check purge calls env sh).map fun r => (fresh :: r.1, r.2)
    | _ => none
  | .purge now :: calls, env, sh =>
    match (purge now).run.interp (answering w i op) (env, sh, none) with
    | (some (.ok ()), env, sh, _) => serveNonces w i op check purge calls env sh
    | _ => none
  | .restart :: calls, env, sh =>
    serveNonces w i op check purge calls env { sh with mem := S.reboot sh.mem }

/-- By itself, the code does to the nonce store what it should. -/
structure KeepsNonces (S : Service D) (ttl : UInt64) (store : D.Db → Table String Int)
    (check : String → UInt64 → Fallible D ε Bool) (purge : UInt64 → Fallible D ε Unit) : Prop where
  check : ∀ (i : CallId) (op : S.Op) (sh : Shared D S.Op) {n : String} {now : UInt64},
    (NonceCall.check n now).InRange ttl → EndsAlone i op (fun r sh' => ∃ fresh, r = .ok fresh ∧
      fresh = Expiring.free (store sh.db) n now.toNat ∧
        Checked (now.toNat + ttl.toNat) now.toNat n (store sh.db) (store sh'.db))
      (check n now).run sh
  purge : ∀ (i : CallId) (op : S.Op) (sh : Shared D S.Op) {now : UInt64},
    (NonceCall.purge now).InRange ttl → EndsAlone i op (fun r sh' => ∃ u, r = .ok u ∧
      store sh'.db = Expiring.purge (store sh.db) now.toNat) (purge now).run sh

variable {ttl : UInt64} {store : D.Db → Table String Int}
  {check : String → UInt64 → Fallible D ε Bool} {purge : UInt64 → Fallible D ε Unit}

/-- The calls run as the store does. -/
theorem KeepsNonces.runs (h : KeepsNonces S ttl store check purge) {w : Outside D ω} (i : CallId)
    (op : S.Op) (hw : ∀ c env, (w c env).isSome = true) :
    ∀ {calls : List NonceCall} (env : ω) (sh : Shared D S.Op), (∀ c ∈ calls, c.InRange ttl) →
      ∃ bs env' sh', serveNonces w i op check purge calls env sh = some (bs, env', sh') ∧
        Expiring.Runs (· + (ttl.toNat : Int)) (store sh.db) (calls.filterMap NonceCall.toCall) bs
          (store sh'.db) := by
  intro calls
  induction calls with
  | nil => exact fun env sh _ => ⟨[], env, sh, rfl, .nil⟩
  | cons c calls ih =>
    intro env sh hrange
    have hrest : ∀ c ∈ calls, c.InRange ttl := fun c hc => hrange c (List.mem_cons_of_mem _ hc)
    have hc := hrange c (List.mem_cons_self ..)
    cases c with
    | check n now =>
      obtain ⟨_, env₁, sh₁, hrun, _, rfl, rfl, hchecked⟩ := h.check i op sh hc w hw env
      obtain ⟨bs, env₂, sh₂, hserve, hruns⟩ := ih env₁ sh₁ hrest
      refine ⟨_, env₂, sh₂, ?_, .check hchecked hruns⟩
      rw [serveNonces, hrun]
      simp only [hserve, Option.map_some]
    | purge now =>
      obtain ⟨_, env₁, sh₁, hrun, _, rfl, hpurged⟩ := h.purge i op sh hc w hw env
      obtain ⟨bs, env₂, sh₂, hserve, hruns⟩ := ih env₁ sh₁ hrest
      refine ⟨bs, env₂, sh₂, ?_, .purge (hpurged ▸ hruns)⟩
      rw [serveNonces, hrun]
      exact hserve
    | restart => exact ih env { sh with mem := S.reboot sh.mem } hrest

end Serving

/-- A call in range is converted without loss. -/
theorem NonceCall.InRange.check {ttl now : UInt64} {n : String}
    (h : (NonceCall.check n now).InRange ttl) : i64TryFrom now = some (now.toNat : Int) ∧
      i64TryFrom (saturatingAdd now ttl) = some ((now.toNat : Int) + ttl.toNat) := by
  have h : (now.toNat : Int) + ttl.toNat ≤ i64Max := h
  have hsum : (saturatingAdd now ttl).toNat = now.toNat + ttl.toNat := by
    rw [toNat_saturatingAdd]
    unfold i64Max at h
    unfold u64Max
    omega
  refine ⟨if_pos (show (now.toNat : Int) ≤ i64Max by omega), ?_⟩
  rw [i64TryFrom, hsum, if_pos (by omega)]
  exact congrArg some (Int.natCast_add _ _)

theorem NonceKeeping.keepsNonces {D : Database} {S : Service D} {ε : Type} [FromSql ε]
    (K : NonceKeeping D ε) (ttl : UInt64) (hext : ∀ i e o m, (D.ext i e o m).isSome = true) :
    KeepsNonces S ttl K.store (fun n now => K.check n now ttl) K.purge where
  check i op sh {n now} hrange := by
    refine Alone.Spec.ends hext ?_
    have hspec : Alone.Spec (S := S) Calm i op _ _ _ (K.check n now ttl) none sh :=
      check_alone hrange.check.1 hrange.check.2
    refine hspec.mono trivial (fun fresh tx sh' _ h => ?_) fun _ _ _ _ h => h
    obtain ⟨htx, hfresh, store, hdb, hchecked⟩ := h
    exact ⟨htx, hfresh, by rwa [hdb, K.store_withStore]⟩
  purge i op sh {now} hrange := by
    refine Alone.Spec.ends hext ?_
    have hspec : Alone.Spec (S := S) Calm i op _ _ _ (K.purge now) none sh :=
      purge_alone (if_pos hrange)
    exact hspec.mono trivial (fun _ _ _ _ h => ⟨h.1, by rw [h.2, K.store_withStore]⟩)
      fun _ _ _ _ h => h

/-! ## No purge is seen -/

/-- From an empty nonce store, whatever else there is, the checks among `calls` answer what the log
    says: fresh exactly if the nonce was never recorded as fresh, or `ttl` after the latest time it
    was is not later than now. -/
def AnswersAsLog {D : Database} {ε : Type} (S : Service D) (ttl : UInt64)
    (store : D.Db → Table String Int) (check : String → UInt64 → Fallible D ε Bool)
    (purge : UInt64 → Fallible D ε Unit) (calls : List NonceCall) : Prop :=
  ∀ {ω : Type} (w : Outside D ω), (∀ c env, (w c env).isSome = true) →
    ∀ (i : CallId) (op : S.Op) (env : ω) (sh : Shared D S.Op), store sh.db = ∅ →
      ∃ env' sh', serveNonces w i op check purge calls env sh =
        some (Expiring.answers (· + (ttl.toNat : Int)) [] (calls.filterMap NonceCall.toCall), env', sh')

theorem KeepsNonces.answersAsLog {D : Database} {S : Service D} {ε : Type} {ttl : UInt64}
    {store : D.Db → Table String Int} {check : String → UInt64 → Fallible D ε Bool}
    {purge : UInt64 → Fallible D ε Unit} (h : KeepsNonces S ttl store check purge)
    {calls : List NonceCall} (hrange : ∀ c ∈ calls, c.InRange ttl)
    (htimed : Expiring.Timed (calls.filterMap NonceCall.toCall)) :
    AnswersAsLog S ttl store check purge calls := by
  intro ω w hw i op env sh hempty
  obtain ⟨bs, env', sh', hserve, hruns⟩ := h.runs i op hw env sh hrange
  rw [hempty] at hruns
  have hseen : ∀ c ∈ calls.filterMap NonceCall.toCall, ∀ now ∈ c.asked, 0 ≤ now := by
    intro c hc now hnow
    obtain ⟨call, -, hcall⟩ := List.mem_filterMap.mp hc
    cases call with
    | check n clock =>
      obtain rfl := Option.some.inj hcall
      obtain rfl : (clock.toNat : Int) = now := Option.some.inj hnow
      exact Int.natCast_nonneg _
    | purge clock =>
      obtain rfl := Option.some.inj hcall
      cases hnow
    | restart => cases hcall
  rw [hruns.answers (Expiring.Agrees.empty _ 0) hseen htimed] at hserve
  exact ⟨env', sh', hserve⟩

/-- **Purging is invisible**, at the bank and at the registry: to checks at instants that do not go
    back, among purges at instants up to the next check's, and restarts, for every starting value
    of the count that makes every 1024th check purge. -/
theorem purging_invisible (X : Crypto) {ttl : UInt64} {calls : List NonceCall}
    (hrange : ∀ c ∈ calls, c.InRange ttl)
    (htimed : Expiring.Timed (calls.filterMap NonceCall.toCall)) :
    AnswersAsLog (Bank.service X) ttl Bank.Tables.nonceStore
      (fun n now => Bank.checkAndRecordNonce n now ttl) Bank.purgeExpiredNonces calls ∧
    AnswersAsLog (Registry.service X) ttl Registry.Tables.nonceStore
      (fun n now => Registry.checkAndRecordNonce n now ttl) Registry.purgeExpiredNonces calls := by
  rw [Bank.checkAndRecordNonce_eq, Bank.purgeExpiredNonces_eq, Registry.checkAndRecordNonce_eq,
    Registry.purgeExpiredNonces_eq]
  exact ⟨(Bank.nonces.keepsNonces ttl Bank.runExt_isSome).answersAsLog hrange htimed,
    (Registry.nonces.keepsNonces ttl Registry.runExt_isSome).answersAsLog hrange htimed⟩

/-- A nonce is presented three times, the last time when it has just expired and was purged. The
    count stands where the first check purges. -/
theorem purging_invisible_boundary : ∃ env' sh',
    serveNonces (S := Bank.service .toy) (always default) 0 .connect
      (fun n now => Bank.checkAndRecordNonce n now 120) Bank.purgeExpiredNonces
      [.check "n" 0, .check "n" 119, .restart, .purge 120, .check "n" 120] ()
      ⟨.empty, { Bank.Memory.fresh with nonceOps := 1023 }, []⟩ =
        some ([true, false, true], env', sh') := by
  refine (@purging_invisible .toy 120 _ ?_ (by decide)).1 (always default) (fun _ _ => rfl) 0 .connect ()
    ⟨.empty, { Bank.Memory.fresh with nonceOps := 1023 }, []⟩ rfl
  intro c hc
  simp only [List.mem_cons, List.not_mem_nil, or_false] at hc
  rcases hc with rfl | rfl | rfl | rfl | rfl <;> simp [NonceCall.InRange, i64Max]

end Digicash
