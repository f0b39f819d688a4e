import Digicash.Auth
import Digicash.Lib.Alone
import Digicash.Lib.Expiring
import Digicash.Lib.Telling

/-!
# How a server keeps its nonces

Either server has a table of nonces, a statement that records one unless it is still remembered,
and a statement that deletes those that have expired. `NonceKeeping` is what the two have in
common, and `check` and `purge` are their code over it. What is proved of these here, of both
servers at once, is what a check does where nothing else moves (`check_alone`), what it leaves
behind among other calls (`check_spec`), what its answer says about what it committed
(`tells_check`), and what a purge leaves (`Swept`).
-/

namespace Digicash

open Lib

/-- What a server's nonces are kept in, and what its code uses to keep them there. -/
structure NonceKeeping (D : Database) (ε : Type) where
  /-- The nonces recorded, each with the time it expires. -/
  store : D.Db → Table String Int
  withStore : D.Db → Table String Int → D.Db
  store_withStore : ∀ db t, store (withStore db t) = t
  withStore_withStore : ∀ db t t', withStore (withStore db t) t' = withStore db t'
  withStore_store : ∀ db, withStore db (store db) = db
  /-- The row of a nonce, with a value for it. -/
  row : String → Option Int → Write D.Cell
  put_row : ∀ db n v, D.put db (row n v).1 (row n v).2 = withStore db ((store db).put n v)
  upsert : String → Int → Int → D.Stmt
  affected : ∀ n expiry now, D.Res (upsert n expiry now) → Nat
  exec_upsert : ∀ db n expiry now, ∃ hit miss, affected n expiry now hit = 1 ∧
    affected n expiry now miss = 0 ∧ ∀ o, D.exec (upsert n expiry now) o db =
      if Expiring.free (store db) n now then .write [] hit [row n (some expiry)] else .read miss
  delete : Int → D.Stmt
  deleted : ∀ now, Nat → D.Res (delete now)
  exec_delete : ∀ db now o, D.exec (delete now) o db =
    .write [] (deleted now ((store db).rows.filter fun r => r.2 ≤ now).length)
      (((store db).rows.filter fun r => r.2 ≤ now).map fun r => row r.1 none)
  /-- The count of checks, one more each time it is asked for. -/
  count : D.Ext
  ops : D.ExtRes count → UInt64
  toI64 : UInt64 → String → Except ε Int
  toI64_eq : ∀ {value n} what, i64TryFrom value = some n → toI64 value what = .ok n
  /-- The time that a purge among the checks goes by, given the time of the check and what it was
      converted to. -/
  again : UInt64 → Int → Except ε UInt64
  again_eq : ∀ {now n}, i64TryFrom now = some n → again now n = .ok now

/-- What a check of the nonce `n` leaves of the store: the nonce, if it was free; and, now and
    then, nothing that has expired. -/
def Checked (expiry now : Int) (n : String) (store store' : Table String Int) : Prop :=
  store' = Expiring.record (fun _ => expiry) store n now ∨
    store' = Expiring.purge (Expiring.record (fun _ => expiry) store n now) now

namespace NonceKeeping

variable {D : Database} {S : Service D} {ε : Type}

section Code

variable [FromSql ε] (K : NonceKeeping D ε)

/-- Delete every nonce whose window closed at or before `now`. -/
def purge (now : UInt64) : Fallible D ε Unit := do
  let now ← orThrow (K.toI64 now "nonce timestamp")
  let _ ← query (K.delete now)

/-- Record the nonce as seen at `now`; whether it was fresh. -/
def check (n : String) (now ttl : UInt64) : Fallible D ε Bool := do
  let expiry ← orThrow (K.toI64 (saturatingAdd now ttl) "nonce expiry")
  let nowI ← orThrow (K.toI64 now "nonce timestamp")
  let affected ← query (K.upsert n expiry nowI)
  let ops ← perform K.count
  if K.ops ops % noncePruneInterval = noncePruneInterval - 1 then
    let now ← orThrow (K.again now nowI)
    K.purge now
    pure (K.affected n expiry nowI affected = 1)
  else pure (K.affected n expiry nowI affected = 1)

end Code

/-! ## What a purge leaves -/

section Purge

variable {K : NonceKeeping D ε}

theorem applyWrites_forget : ∀ (l : List String) (db : D.Db),
    applyWrites db (l.map fun n => K.row n none) = K.withStore db ((K.store db).eraseAll l)
  | [], db => (K.withStore_store db).symm
  | n :: l, db => by
    rw [List.map_cons, applyWrites_cons, K.put_row, applyWrites_forget l, K.store_withStore,
      K.withStore_withStore]
    rfl

theorem applyWrites_purge (db : D.Db) (now : Int) :
    applyWrites db (((K.store db).rows.filter fun r => r.2 ≤ now).map fun r => K.row r.1 none) =
      K.withStore db (Expiring.purge (K.store db) now) := by
  have hmap : ((K.store db).rows.filter fun r => decide (r.2 ≤ now)).map (fun r => K.row r.1 none) =
      (((K.store db).rows.filter fun r => r.2 ≤ now).map Prod.fst).map fun n => K.row n none := by
    rw [List.map_map]
    rfl
  rw [hmap]
  exact applyWrites_forget _ db

/-- The transaction did nothing but delete nonces that had expired by some time. -/
def Swept {Op : Type} (K : NonceKeeping D ε) (c : Commit D Op) : Prop := ∃ now expired,
  c.after = K.withStore c.before ((K.store c.before).eraseAll expired) ∧
    ∀ n ∈ expired, ∃ expiresAt ≤ now, (K.store c.before).lookup n = some expiresAt

theorem Swept.of_writes {Op : Type} {c : Commit D Op} {now : Int} {expired : List String}
    (hwrites : c.tx.writes = expired.map fun n => K.row n none)
    (hexpired : ∀ n ∈ expired, ∃ expiresAt ≤ now, (K.store c.before).lookup n = some expiresAt) :
    K.Swept c := by
  refine ⟨now, expired, ?_, hexpired⟩
  rw [Commit.after, hwrites, applyWrites_forget]

end Purge

/-! ## One call -/

section Call

variable [FromSql ε] {K : NonceKeeping D ε} {i : CallId} {op : S.Op} {sh : Shared D S.Op}

theorem purge_alone {now : UInt64} {nowI : Int} (hnow : i64TryFrom now = some nowI) :
    Alone.Spec (S := S) Calm i op (fun _ => True)
      (fun _ tx sh' => tx = none ∧
        sh'.db = K.withStore sh.db (Expiring.purge (K.store sh.db) nowI))
      (fun _ _ _ => False) (K.purge now) none sh := by
  unfold purge
  rw [K.toI64_eq _ hnow]
  refine Alone.Spec.orThrow_bind (fun e he => by cases he) fun n hn => ?_
  obtain rfl : nowI = n := Except.ok.inj hn
  refine Alone.Spec.effect_bind_calm (K.exec_delete sh.db nowI) trivial
    fun sh' _ hdb => ⟨trivial, ?_⟩
  exact Alone.Spec.ok ⟨rfl, hdb.trans (applyWrites_purge sh.db nowI)⟩

/-- What follows the nonce statement, which was executed on `db`. -/
theorem prune_alone {db : D.Db} {n : String} {now : UInt64} {nowI expiry : Int} {fresh : Bool}
    (hnow : i64TryFrom now = some nowI) (hfresh : fresh = Expiring.free (K.store db) n nowI)
    (hdb : sh.db = K.withStore db (Expiring.record (fun _ => expiry) (K.store db) n nowI)) :
    Alone.Spec (S := S) Calm i op (fun _ => True)
      (fun fresh tx sh' => tx = none ∧ fresh = Expiring.free (K.store db) n nowI ∧
        ∃ store, sh'.db = K.withStore db store ∧ Checked expiry nowI n (K.store db) store)
      (fun _ _ _ => False) (do
        let ops ← perform K.count
        if K.ops ops % noncePruneInterval = noncePruneInterval - 1 then
          let now ← orThrow (K.again now nowI)
          K.purge now
          pure fresh
        else pure fresh) none sh := by
  refine Alone.Spec.perform_bind fun fault o ops mem _ _ => ⟨trivial, ?_⟩
  split
  · rw [K.again_eq hnow]
    refine Alone.Spec.orThrow_bind (fun e he => by cases he) fun clock hclock => ?_
    obtain rfl : now = clock := Except.ok.inj hclock
    have hpurge : Alone.Spec (S := S) Calm i op _ _ _ (K.purge now) none { sh with mem := mem } :=
      purge_alone hnow
    refine Alone.Spec.bind trivial hpurge fun _ tx sh' _ h => ?_
    obtain ⟨rfl, hdb'⟩ := h
    refine Alone.Spec.ok ⟨rfl, hfresh, _, ?_, Or.inr rfl⟩
    rw [hdb', hdb, K.store_withStore, K.withStore_withStore]
  · exact Alone.Spec.ok ⟨rfl, hfresh, _, hdb, Or.inl rfl⟩

/-- **A check that nothing disturbs** answers whether the nonce is free, and records it if so. -/
theorem check_alone {n : String} {now ttl : UInt64} {nowI expiry : Int}
    (hnow : i64TryFrom now = some nowI)
    (hexpiry : i64TryFrom (saturatingAdd now ttl) = some expiry) :
    Alone.Spec (S := S) Calm i op (fun _ => True)
      (fun fresh tx sh' => tx = none ∧ fresh = Expiring.free (K.store sh.db) n nowI ∧
        ∃ store, sh'.db = K.withStore sh.db store ∧
          Checked expiry nowI n (K.store sh.db) store)
      (fun _ _ _ => False) (K.check n now ttl) none sh := by
  unfold check
  rw [K.toI64_eq _ hexpiry, K.toI64_eq _ hnow]
  refine Alone.Spec.orThrow_bind (fun e he => by cases he) fun e he => ?_
  obtain rfl : expiry = e := Except.ok.inj he
  refine Alone.Spec.orThrow_bind (fun e he => by cases he) fun m hm => ?_
  obtain rfl : nowI = m := Except.ok.inj hm
  obtain ⟨hit, miss, hhit, hmiss, hexec⟩ := K.exec_upsert sh.db n expiry nowI
  by_cases hfree : Expiring.free (K.store sh.db) n nowI = true
  · refine Alone.Spec.effect_bind_calm (fun o => (hexec o).trans (if_pos hfree)) trivial
      fun sh' _ hdb => ⟨trivial, prune_alone hnow ?_ ?_⟩
    · rw [hhit, hfree]
      rfl
    · rw [hdb, applyWrites_cons, applyWrites_nil, K.put_row, Expiring.record, if_pos hfree]
  · refine Alone.Spec.effect_bind_calm (fun o => (hexec o).trans (if_neg hfree)) trivial
      fun sh' _ hdb => ⟨trivial, prune_alone hnow ?_ ?_⟩
    · rw [hmiss, Bool.eq_false_iff.mpr hfree]
      rfl
    · rw [hdb, applyWrites_nil, Expiring.record, if_neg hfree, K.withStore_store]

end Call

/-! ## Among other calls -/

section Spec

open Protocol

variable [FromSql ε] {K : NonceKeeping D ε} {P : Protocol S} {κ : S.Conf} {i : CallId} {op : S.Op}
  {sh : Shared D S.Op} {R : Shared D S.Op → Prop}

/-- The transaction that deletes `expired`. -/
abbrev deleting (K : NonceKeeping D ε) (now : Int) (expired : List String) : Tx D :=
  Tx.empty.push (K.delete now) (K.deleted now expired.length) []
    (expired.map fun n => K.row n none)

/-- The transaction that records a nonce. -/
abbrev recording (K : NonceKeeping D ε) (n : String) (expiry now : Int)
    (hit : D.Res (K.upsert n expiry now)) : Tx D :=
  Tx.empty.push (K.upsert n expiry now) hit [] [K.row n (some expiry)]

/-- Whoever deletes nonces that have expired does what the protocol lets it do. -/
def MayPurge (K : NonceKeeping D ε) (P : Protocol S) (κ : S.Conf) (i : CallId) (op : S.Op) : Prop :=
  ∀ sh now expired, (∀ n, n ∈ expired ↔ ∃ e ≤ now, (K.store sh.db).lookup n = some e) →
    P.Legal κ sh ⟨i, op, K.deleting now expired, sh.db⟩

theorem purge_spec (hpurge : K.MayPurge P κ i op) (now : UInt64) :
    P.Spec κ i op (fun _ tx _ => tx = none) Closed (K.purge now) none sh := by
  unfold purge
  refine Spec.orThrow_bind (fun _ _ _ _ => rfl) fun nowI _ => ?_
  refine Spec.query_bind_none (fun _ _ _ => rfl) (fun _ _ _ _ _ => Spec.ok fun _ _ => rfl) ?_
  intro sh₁ o a ws _ h₁ hres
  rw [K.exec_delete] at hres ⊢
  obtain ⟨rfl, rfl⟩ := Prod.mk.inj (Except.ok.inj hres)
  refine ⟨?_, fun _ => Spec.ok fun _ _ => rfl⟩
  have hlegal := hpurge sh₁ nowI _ fun n => Expiring.mem_expired
  rwa [deleting, List.length_map, List.map_map] at hlegal

/-- What follows the nonce statement: now and then a purge. -/
theorem prune_spec (hR : ∀ {sh sh'}, R sh → P.Reaches κ sh sh' → R sh')
    (hpurge : K.MayPurge P κ i op) {now : UInt64} {nowI : Int} {fresh : Bool}
    (h : fresh = true → R sh) :
    P.Spec κ i op (fun fresh tx sh => tx = none ∧ (fresh = true → R sh)) Closed (do
        let ops ← perform K.count
        if K.ops ops % noncePruneInterval = noncePruneInterval - 1 then
          let now ← orThrow (K.again now nowI)
          K.purge now
          pure fresh
        else pure fresh) none sh := by
  refine Spec.perform_bind fun sh₁ o ops m h₁ hext hi₁ => ?_
  have hm : P.Reaches κ sh₁ { sh₁ with mem := m } :=
    ⟨.single (.mem m (Or.inl ⟨i, _, o, ops, hext⟩)), hi₁⟩
  have h' : fresh = true → R { sh₁ with mem := m } := fun hf => hR (hR (h hf) h₁.reaches) hm
  split
  · refine Spec.orThrow_bind (fun _ _ _ _ => rfl) fun clock _ => ?_
    refine Spec.bind hi₁ ((purge_spec hpurge clock).reaches ⟨.refl, hi₁⟩) fun _ tx sh₂ hi₂ h₂ => ?_
    obtain ⟨hreach, rfl⟩ := h₂
    exact Spec.ok fun sh₃ h₃ => ⟨rfl, fun hf => hR (h' hf) (hreach.trans h₃.reaches)⟩
  · exact Spec.ok fun sh₂ h₂ => ⟨rfl, fun hf => hR (h' hf) h₂.reaches⟩

/-- **A nonce that is said to be fresh was free, and is recorded.** `R` is what the recording
    leaves behind. -/
theorem check_spec {n : String} {now ttl : UInt64}
    (hR : ∀ {sh sh'}, R sh → P.Reaches κ sh sh' → R sh') (hpurge : K.MayPurge P κ i op)
    (hrecord : ∀ sh expiry nowI hit, K.toI64 (saturatingAdd now ttl) "nonce expiry" = .ok expiry →
      K.toI64 now "nonce timestamp" = .ok nowI → Expiring.free (K.store sh.db) n nowI = true →
        K.affected n expiry nowI hit = 1 →
          P.Legal κ sh ⟨i, op, K.recording n expiry nowI hit, sh.db⟩ ∧
            R (sh.commit i op (K.recording n expiry nowI hit))) :
    P.Spec κ i op (fun fresh tx sh => tx = none ∧ (fresh = true → R sh)) Closed
      (K.check n now ttl) none sh := by
  unfold check
  refine Spec.orThrow_bind (fun _ _ _ _ => rfl) fun expiry hexpiry => ?_
  refine Spec.orThrow_bind (fun _ _ _ _ => rfl) fun nowI hnow => ?_
  refine Spec.query_bind_none (fun _ _ _ => rfl) ?_ ?_
  · intro sh₁ o affected h₁ hres
    obtain ⟨hit, miss, -, hmiss, hexec⟩ := K.exec_upsert sh₁.db n expiry nowI
    rw [hexec] at hres
    split at hres
    · exact absurd (Prod.mk.inj (Except.ok.inj hres)).2 (by simp)
    · obtain ⟨rfl, -⟩ := Prod.mk.inj (Except.ok.inj hres)
      refine prune_spec hR hpurge fun hfresh => ?_
      exact absurd (hmiss.symm.trans (of_decide_eq_true hfresh)) (by decide)
  · intro sh₁ o affected ws hws h₁ hres
    obtain ⟨hit, miss, hhit, -, hexec⟩ := K.exec_upsert sh₁.db n expiry nowI
    rw [hexec] at hres ⊢
    split at hres
    · rename_i hfree
      obtain ⟨rfl, rfl⟩ := Prod.mk.inj (Except.ok.inj hres)
      obtain ⟨hlegal, hdone⟩ := hrecord sh₁ expiry nowI hit hexpiry hnow hfree hhit
      rw [if_pos hfree]
      exact ⟨hlegal, fun _ => prune_spec hR hpurge fun _ => hdone⟩
    · exact absurd (Prod.mk.inj (Except.ok.inj hres)).2.symm hws

end Spec

/-! ## What an answer says -/

/-- Sweeping out nonces does not count. -/
def Sweeps (K : NonceKeeping D ε) (s : D.Stmt) : Prop := ∃ now, s = K.delete now

section Tells

variable [FromSql ε] {K : NonceKeeping D ε}

theorem tells_purge {serious : ε → Prop} {R : Unit → Prop} (now : UInt64) :
    TellsAlone K.Sweeps serious R (K.purge now) := by
  unfold purge
  exact .bind_idle .orThrow fun now => .bind_idle (.query_minor ⟨now, rfl⟩) fun _ => .pure

/-- A nonce that may have been recorded is not answered to be an old one. -/
theorem tells_check (n : String) (now ttl : UInt64) :
    TellsAlone K.Sweeps (fun _ => True) (fun fresh => fresh = true) (K.check n now ttl) := by
  unfold check
  refine .bind_idle .orThrow fun expiry => .bind_idle .orThrow fun nowI => ?_
  refine .bind (P := fun affected => K.affected n expiry nowI affected = 1)
    (.query (fun _ => trivial) fun o db a ws hres hws => ?_) (fun affected haff => ?_)
    fun affected => ?_
  · obtain ⟨hit, miss, hhit, -, hexec⟩ := K.exec_upsert db n expiry nowI
    rw [hexec] at hres
    split at hres
    · obtain ⟨rfl, -⟩ := Prod.mk.inj (Except.ok.inj hres)
      exact hhit
    · exact absurd (Prod.mk.inj (Except.ok.inj hres)).2.symm hws
  · -- The nonce was new, and whatever comes then, it is not said to be old.
    rw [haff]
    refine says_bind (P := fun _ => True) (says_anything ..) fun ops _ => ?_
    split
    · refine says_bind (P := fun _ => True) (says_anything ..) fun now _ => ?_
      exact says_bind (P := fun _ => True) (says_anything ..) fun _ _ => rfl
    · exact rfl
  · refine .bind_idle .perform fun ops => ?_
    split
    · exact .bind_idle .orThrow fun now => .bind_idle (tells_purge now) fun _ => .pure
    · exact .pure

end Tells

end NonceKeeping

end Digicash
