import Digicash.Lib.Handler
import Digicash.Registry.Settlement

/-!
# Netting

What `settle` answers, run by itself: one claim for every two banks whose receivables differ, in
ascending order, whatever order the rows came in. The tables need not be reachable; it is enough
that no amount is negative or beyond an `i64`.
-/

namespace Digicash.Registry

open Lib

variable {X : Crypto} {i : CallId} {op : Op} {sh : State X} {db : Tables}

/-! ## The claims of a loop -/

theorem mem_netOf {p q : Pair} {n forward reverse : Int} :
    (p, n) ∈ (netOf q forward reverse).toList ↔
      0 < n ∧ (p = q ∧ n = forward - reverse ∨ p = q.swap ∧ n = reverse - forward) := by
  unfold netOf
  by_cases hpos : 0 < forward - reverse
  · simp only [if_pos hpos, Option.toList_some, List.mem_singleton, Prod.mk.injEq]
    constructor
    · rintro ⟨rfl, rfl⟩
      exact ⟨hpos, Or.inl ⟨rfl, rfl⟩⟩
    · rintro ⟨hn, ⟨rfl, rfl⟩ | ⟨-, rfl⟩⟩
      · exact ⟨rfl, rfl⟩
      · omega
  · by_cases hneg : forward - reverse < 0
    · simp only [if_neg hpos, if_pos hneg, Option.toList_some, List.mem_singleton, Prod.mk.injEq]
      constructor
      · rintro ⟨rfl, rfl⟩
        exact ⟨by omega, Or.inr ⟨rfl, by omega⟩⟩
      · rintro ⟨hn, ⟨-, rfl⟩ | ⟨rfl, rfl⟩⟩
        · omega
        · exact ⟨rfl, by omega⟩
    · simp only [if_neg hpos, if_neg hneg, Option.toList_none, List.not_mem_nil, false_iff]
      rintro ⟨hn, ⟨-, rfl⟩ | ⟨-, rfl⟩⟩ <;> omega

/-- **The claims of the loop**: a pair is claimed if it is not done, one of its directions is
    still to do, and its balance is positive, which is then the amount. -/
theorem mem_netting {amounts : List (Pair × Int)} {p : Pair} {n : Int} :
    ∀ {todo : List (Pair × Int)} {done : List Pair},
      (∀ r ∈ todo, amounts.lookup r.1 = some r.2) → (∀ q ∈ done, q.swap ∈ done) →
        ((p, n) ∈ netting amounts todo done ↔
          p ∉ done ∧ (p ∈ todo.map Prod.fst ∨ p.swap ∈ todo.map Prod.fst) ∧
            0 < n ∧ n = balance (amountIn amounts) p) := by
  intro todo
  induction todo with
  | nil => simp [netting]
  | cons head todo ih =>
    obtain ⟨q, forward⟩ := head
    intro done hrows hdone
    have hrows' : ∀ r ∈ todo, amounts.lookup r.1 = some r.2 := fun r hr =>
      hrows r (List.mem_cons_of_mem _ hr)
    have hq : amountIn amounts q = forward := by
      rw [amountIn, hrows (q, forward) (List.mem_cons_self ..), Option.getD_some]
    have hflip : p.swap = q ↔ p = q.swap :=
      ⟨fun h => by rw [← h, Pair.swap_swap], fun h => by rw [h, Pair.swap_swap]⟩
    by_cases hmem : q ∈ done
    · rw [netting, if_pos hmem, ih hrows' hdone]
      have hne : p ∉ done → p ≠ q ∧ p.swap ≠ q := fun hp =>
        ⟨fun h => hp (h ▸ hmem), fun h => hp (p.swap_swap ▸ hdone p.swap (h ▸ hmem))⟩
      refine and_congr_right fun hp => ?_
      simp only [List.map_cons, List.mem_cons, hne hp, false_or]
    · rw [netting_of_notMem amounts hmem, List.mem_append, ih hrows' (swap_mem_done hdone), mem_netOf]
      by_cases hpq : p = q ∨ p = q.swap
      · -- This row settles the pair, and the rest of the loop finds it done.
        have hpd : p ∉ done := by
          rcases hpq with rfl | rfl
          · exact hmem
          · exact fun h => hmem (hdone _ h)
        have hlater : ¬ p ∉ q.swap :: q :: done := by
          rcases hpq with rfl | rfl <;> simp
        have htodo : p ∈ ((q, forward) :: todo).map Prod.fst ∨
            p.swap ∈ ((q, forward) :: todo).map Prod.fst := by
          rcases hpq with rfl | rfl <;> simp
        have hclaim : (p = q ∧ n = forward - (amounts.lookup q.swap).getD 0 ∨
            p = q.swap ∧ n = (amounts.lookup q.swap).getD 0 - forward) ↔
              n = balance (amountIn amounts) p := by
          have hswap : (amounts.lookup q.swap).getD 0 = amountIn amounts q.swap := rfl
          rw [hswap, ← hq]
          have hself : q = q.swap → amountIn amounts q = amountIn amounts q.swap := fun h =>
            congrArg _ h
          rcases hpq with rfl | rfl
          · constructor
            · rintro (⟨-, rfl⟩ | ⟨h, rfl⟩)
              · rfl
              · have := hself h
                simp only [balance]
                omega
            · exact fun h => Or.inl ⟨rfl, h⟩
          · constructor
            · rintro (⟨h, rfl⟩ | ⟨-, rfl⟩)
              · have := hself h.symm
                simp only [balance, Pair.swap_swap]
                omega
              · rfl
            · exact fun h => Or.inr ⟨rfl, h⟩
        simp only [hclaim, hlater, hpd, htodo, false_and, or_false, true_and, not_false_iff]
      · obtain ⟨hne, hne'⟩ := not_or.mp hpq
        have hsq : p.swap ≠ q := fun h => hne' (hflip.mp h)
        simp only [hne, hne', hsq, false_and, or_self, and_false, false_or, List.map_cons,
          List.mem_cons]

/-- No pair is claimed twice. -/
theorem nodup_netting {amounts : List (Pair × Int)} :
    ∀ {todo : List (Pair × Int)} {done : List Pair},
      (∀ r ∈ todo, amounts.lookup r.1 = some r.2) → (∀ q ∈ done, q.swap ∈ done) →
        ((netting amounts todo done).map Prod.fst).Nodup := by
  intro todo
  induction todo with
  | nil => exact fun _ _ => List.nodup_nil
  | cons head todo ih =>
    obtain ⟨q, forward⟩ := head
    intro done hrows hdone
    have hrows' : ∀ r ∈ todo, amounts.lookup r.1 = some r.2 := fun r hr =>
      hrows r (List.mem_cons_of_mem _ hr)
    by_cases hmem : q ∈ done
    · rw [netting, if_pos hmem]
      exact ih hrows' hdone
    · have htail := ih hrows' (swap_mem_done (q := q) hdone)
      rw [netting_of_notMem amounts hmem]
      cases hnet : netOf q forward ((amounts.lookup q.swap).getD 0) with
      | none => exact htail
      | some claim =>
        have hclaim : claim.1 = q ∨ claim.1 = q.swap :=
          ((mem_netOf.mp (Option.mem_toList.mpr hnet)).2).imp And.left And.left
        refine List.nodup_cons.mpr ⟨fun hagain => ?_, htail⟩
        obtain ⟨again, hagain, hpair⟩ := List.mem_map.mp hagain
        have hnot := ((mem_netting hrows' (swap_mem_done hdone)).mp hagain).1
        rw [hpair] at hnot
        rcases hclaim with h | h <;> rw [h] at hnot <;> simp at hnot

variable {read : List (Pair × Int)}

/-- What `settle` reads: each positive amount once. -/
structure Reads (db : Tables) (read : List (Pair × Int)) : Prop where
  nodup : (read.map Prod.fst).Nodup
  amounts : ∀ p, amountIn read p = db.receivable p

/-- A settlement claims the positive balances. -/
theorem Reads.mem_netting (h : Reads db read) {p : Pair} {n : Int} :
    (p, n) ∈ netting read read [] ↔ 0 < n ∧ n = db.receivable p - db.receivable p.swap := by
  rw [Registry.mem_netting (fun r hr => lookup_of_mem h.nodup hr) (fun q hq => by simp at hq),
    balance, h.amounts, h.amounts]
  constructor
  · exact fun hc => hc.2.2
  · rintro ⟨hpos, hn⟩
    refine ⟨by simp, ?_, hpos, hn⟩
    -- A pair neither of whose directions was read has no balance.
    by_contra hnone
    obtain ⟨h1, h2⟩ := not_or.mp hnone
    rw [← h.amounts, ← h.amounts, amountIn, amountIn, lookup_of_notMem h1, lookup_of_notMem h2] at hn
    omega

theorem reads_select (hw : db.WellFormed) (o : Oracle) :
    Reads db (arrange (db.receivables.rows.filter fun r => 0 < r.2) o.receivables) := by
  obtain ⟨hnodup, -⟩ := mem_selectReceivables hw (o := o)
  have hperm := arrange_perm (db.receivables.rows.filter fun r => 0 < r.2) o.receivables
  refine ⟨hnodup, fun p => ?_⟩
  generalize arrange (db.receivables.rows.filter fun r => 0 < r.2) o.receivables = read
    at hnodup hperm
  rw [amountIn, Tables.receivable]
  by_cases hp : p ∈ read.map Prod.fst
  · obtain ⟨r, hr, rfl⟩ := List.mem_map.mp hp
    have hrow := List.mem_of_mem_filter (hperm.mem_iff.mp hr)
    rw [lookup_of_mem hnodup hr, Table.mem_rows.mp hrow]
  · rw [lookup_of_notMem hp]
    cases hl : db.receivables.lookup p with
    | none => rfl
    | some amount =>
      -- A row that was not read is zero.
      have hnot : ¬ 0 < amount := fun hpos => hp (List.mem_map.mpr ⟨(p, amount),
        hperm.mem_iff.mpr (List.mem_filter.mpr ⟨Table.mem_rows.mpr hl, decide_eq_true hpos⟩), rfl⟩)
      have h0 := (hw.receivable p amount hl).1
      change (0 : Int) = amount
      omega

/-- No amount is negative or beyond an `i64`. -/
theorem receivable_range (hw : db.WellFormed) (p : Pair) :
    0 ≤ db.receivable p ∧ db.receivable p ≤ i64Max := by
  rw [Tables.receivable]
  cases hl : db.receivables.lookup p with
  | none => exact ⟨Int.le_refl 0, by decide⟩
  | some amount => exact hw.receivable p amount hl

/-! ## The answer -/

/-- The claim as it is answered. -/
def claimInfo (now : UInt64) (claim : Pair × Int) : SettlementClaimInfo :=
  ⟨claim.1.issuingBankId, claim.1.depositingBankId, UInt64.ofNat claim.2.toNat, now⟩

/-- Who owes whom. -/
def pairOf (c : SettlementClaimInfo) : Pair := ⟨c.issuingBankId, c.depositingBankId⟩

/-- Strictly ascending `(issuing_bank_id, depositing_bank_id)`. -/
def claimLt (a b : SettlementClaimInfo) : Prop :=
  a.issuingBankId < b.issuingBankId ∨
    a.issuingBankId = b.issuingBankId ∧ a.depositingBankId < b.depositingBankId

/-- The net of the receivables of `db`: one claim for two banks that do not owe each other the
    same, on the one that owes more, and no other claim. -/
structure Netted (db : Tables) (now : UInt64) (claims : List SettlementClaimInfo) : Prop where
  one : ∀ p : Pair, p.issuingBankId ≠ p.depositingBankId →
    db.receivable p ≠ db.receivable p.swap →
      ∃! c, c ∈ claims ∧ (pairOf c = p ∨ pairOf c = p.swap)
  claim : ∀ c ∈ claims, db.receivable (pairOf c).swap < db.receivable (pairOf c) ∧
    (c.netAmountCents.toNat : Int) = db.receivable (pairOf c) - db.receivable (pairOf c).swap ∧
      c.windowEnd = now
  ascending : claims.Pairwise claimLt

instance : Std.Irrefl claimLt :=
  ⟨fun _ h => h.elim (fun h => String.lt_irrefl _ h) fun h => String.lt_irrefl _ h.2⟩

instance : Std.Antisymm claimLt :=
  ⟨fun a b hab hba => by
    rcases hab with hab | ⟨heq, hab⟩ <;> rcases hba with hba | ⟨heq', hba⟩
    · exact absurd hba (String.lt_asymm hab)
    · exact absurd hab (heq' ▸ String.lt_irrefl _)
    · exact absurd hba (heq ▸ String.lt_irrefl _)
    · exact absurd hba (String.lt_asymm hab)⟩

instance : Std.Total claimLe :=
  ⟨fun a b => by
    by_cases hab : a.issuingBankId < b.issuingBankId
    · exact Or.inl (Or.inl hab)
    by_cases hba : b.issuingBankId < a.issuingBankId
    · exact Or.inr (Or.inl hba)
    have heq := String.le_antisymm (String.not_lt.mp hba) (String.not_lt.mp hab)
    exact (String.le_total a.depositingBankId b.depositingBankId).imp
      (fun hle => Or.inr ⟨heq, hle⟩) fun hle => Or.inr ⟨heq.symm, hle⟩⟩

instance : IsTrans SettlementClaimInfo claimLe :=
  ⟨fun a b c hab hbc => by
    rcases hab with hab | ⟨heq, hab⟩ <;> rcases hbc with hbc | ⟨heq', hbc⟩
    · exact Or.inl (String.lt_trans hab hbc)
    · exact Or.inl (heq' ▸ hab)
    · exact Or.inl (heq ▸ hbc)
    · exact Or.inr ⟨heq.trans heq', String.le_trans hab hbc⟩⟩

/-- **The net is one list**, so no order in which the rows come can change it. -/
theorem Netted.eq {now : UInt64} {l l' : List SettlementClaimInfo} (h : Netted db now l)
    (h' : Netted db now l') : l = l' := by
  have hsub : ∀ {l l' : List SettlementClaimInfo}, Netted db now l → Netted db now l' →
      ∀ c ∈ l, c ∈ l' := by
    intro l l' h h' c hc
    obtain ⟨hlt, hamount, hnow⟩ := h.claim c hc
    have hdistinct : c.issuingBankId ≠ c.depositingBankId := by
      intro heq
      have hself : (pairOf c).swap = pairOf c := by simp [pairOf, Pair.swap, heq]
      rw [hself] at hlt
      exact lt_irrefl _ hlt
    obtain ⟨c', ⟨hc', hpair⟩, -⟩ := h'.one (pairOf c) hdistinct (Int.ne_of_lt hlt).symm
    obtain ⟨hlt', hamount', hnow'⟩ := h'.claim c' hc'
    have hsame : pairOf c' = pairOf c := by
      refine hpair.resolve_right fun hswap => ?_
      rw [hswap, Pair.swap_swap] at hlt'
      omega
    rw [hsame, ← hamount] at hamount'
    obtain ⟨a, b, n, w⟩ := c
    obtain ⟨a', b', n', w'⟩ := c'
    obtain ⟨rfl, rfl⟩ := Pair.mk.inj hsame
    obtain rfl : n' = n := UInt64.toNat.inj (Int.ofNat.inj hamount')
    obtain rfl : w' = w := hnow'.trans hnow.symm
    exact hc'
  exact h.ascending.eq_of_mem_iff h'.ascending fun c => ⟨hsub h h' c, hsub h' h c⟩

theorem Reads.range (h : Reads db read) (hw : db.WellFormed) {c : Pair × Int}
    (hc : c ∈ netting read read []) : 0 < c.2 ∧ c.2 ≤ i64Max := by
  obtain ⟨hpos, hn⟩ := h.mem_netting.mp hc
  have h1 := receivable_range hw c.1
  have h2 := receivable_range hw c.1.swap
  omega

theorem toNat_claimInfo (now : UInt64) {c : Pair × Int} (h : 0 < c.2 ∧ c.2 ≤ i64Max) :
    ((claimInfo now c).netAmountCents.toNat : Int) = c.2 := by
  obtain ⟨hpos, hmax⟩ := h
  unfold i64Max at hmax
  have hlt : c.2.toNat < 2 ^ 64 := by omega
  rw [claimInfo, UInt64.toNat_ofNat_of_lt' hlt]
  omega

/-- The claims of the loop, sorted, are the net. -/
theorem Reads.netted (h : Reads db read) (hw : db.WellFormed) (now : UInt64) :
    Netted db now (((netting read read []).map (claimInfo now)).insertionSort claimLe) := by
  have hperm := List.perm_insertionSort claimLe ((netting read read []).map (claimInfo now))
  have hnodup : (netting read read []).Pairwise fun a b => a.1 ≠ b.1 := List.pairwise_map.mp
    (nodup_netting (fun r hr => lookup_of_mem h.nodup hr) fun q hq => by simp at hq)
  have hmem : ∀ {c}, c ∈ ((netting read read []).map (claimInfo now)).insertionSort claimLe →
      ∃ p n, (p, n) ∈ netting read read [] ∧ c = claimInfo now (p, n) := by
    intro c hc
    obtain ⟨⟨p, n⟩, hpn, rfl⟩ := List.mem_map.mp (hperm.mem_iff.mp hc)
    exact ⟨p, n, hpn, rfl⟩
  refine ⟨fun p _ hne => ?_, fun c hc => ?_, ?_⟩
  · -- The direction in which more is owed.
    obtain ⟨q, hq, hpos⟩ : ∃ q, (q = p ∨ q = p.swap) ∧
        0 < db.receivable q - db.receivable q.swap := by
      by_cases hlt : db.receivable p.swap < db.receivable p
      · exact ⟨p, Or.inl rfl, by omega⟩
      · refine ⟨p.swap, Or.inr rfl, ?_⟩
        rw [Pair.swap_swap]
        omega
    have hclaim := h.mem_netting.mpr ⟨hpos, rfl⟩
    refine ⟨claimInfo now (q, db.receivable q - db.receivable q.swap),
      ⟨hperm.mem_iff.mpr (List.mem_map_of_mem hclaim), hq⟩, ?_⟩
    rintro c ⟨hc, hpair⟩
    obtain ⟨p', n, hpn, rfl⟩ := hmem hc
    obtain ⟨hpos', rfl⟩ := h.mem_netting.mp hpn
    have hpair : p' = p ∨ p' = p.swap := hpair
    obtain rfl : p' = q := by
      rcases hq with rfl | rfl <;> rcases hpair with rfl | rfl
      · rfl
      · rw [Pair.swap_swap] at hpos'
        omega
      · rw [Pair.swap_swap] at hpos
        omega
      · rfl
    rfl
  · obtain ⟨p, n, hpn, rfl⟩ := hmem hc
    have hamount := toNat_claimInfo now (h.range hw hpn)
    obtain ⟨hpos, hn⟩ := h.mem_netting.mp hpn
    refine ⟨?_, hamount.trans hn, rfl⟩
    change db.receivable p.swap < db.receivable p
    omega
  · -- The order is strict because no pair is claimed twice.
    have hne : (((netting read read []).map (claimInfo now)).insertionSort claimLe).Pairwise
        fun a b => pairOf a ≠ pairOf b :=
      (hperm.pairwise_iff fun h => h.symm).mpr (List.pairwise_map.mpr hnodup)
    refine ((List.pairwise_insertionSort claimLe _).and hne).imp ?_
    rintro a b ⟨hle, hne⟩
    rcases hle with hlt | ⟨heq, hle⟩
    · exact Or.inl hlt
    · refine Or.inr ⟨heq, String.not_le.mp fun hge => hne ?_⟩
      rw [pairOf, pairOf, heq, String.le_antisymm hle hge]

/-! ## The code -/

theorem toU64_claim (now : UInt64) {c : Pair × Int} {what : String}
    (h : 0 < c.2 ∧ c.2 ≤ i64Max) : toU64 c.2 what = .ok (claimInfo now c).netAmountCents := by
  rw [toU64, u64TryFrom, if_pos (Int.le_of_lt h.1)]
  rfl

/-- The loop inserts a row for each claim and answers it. -/
theorem settlePairs_alone {windowEnd : Int} {now : UInt64} :
    ∀ {todo : List (Pair × Int)} {done : List Pair} (claims : List (Nat × ClaimRow)),
      FreshClaims claims sh.db → (∀ c ∈ netting read todo done, 0 < c.2 ∧ c.2 ≤ i64Max) →
        Alone.Spec (S := service X) Calm i op (fun _ => True)
          (fun infos tx sh' => sh' = sh ∧ infos = (netting read todo done).map (claimInfo now) ∧
            ∃ new, tx = some (Entry.claimsTx read (claims ++ new)) ∧
              FreshClaims (claims ++ new) sh.db ∧
              new.map Prod.snd = (netting read todo done).map (claimRow windowEnd))
          (fun _ _ _ => False) (settlePairs read windowEnd now todo done)
          (some (Entry.claimsTx read claims)) sh := by
  intro todo
  induction todo with
  | nil =>
    intro done claims hfresh _
    refine Alone.Spec.ok ⟨rfl, rfl, [], ?_, ?_, rfl⟩ <;> rw [List.append_nil]
    exact hfresh
  | cons head todo ih =>
    obtain ⟨q, forward⟩ := head
    intro done claims hfresh hrange
    unfold settlePairs
    by_cases hdone : q ∈ done
    · rw [netting, if_pos hdone] at hrange ⊢
      rw [if_pos hdone]
      exact ih _ hfresh hrange
    rw [netting_of_notMem read hdone] at hrange ⊢
    rw [if_neg hdone]
    dsimp only
    cases hnet : netOf q forward ((read.lookup q.swap).getD 0) with
    | none =>
      rw [hnet] at hrange
      exact ih _ hfresh hrange
    | some claim =>
      rw [hnet] at hrange
      have hclaim := hrange claim (List.mem_cons_self ..)
      have hrest : ∀ c ∈ netting read todo (q.swap :: q :: done), 0 < c.2 ∧ c.2 ≤ i64Max :=
        fun c hc => hrange c (List.mem_cons_of_mem _ hc)
      refine Alone.Spec.query_bind_tx trivial (fun o e he => by cases he) fun o n ws hr => ?_
      have hfresh' := hfresh.push o (claimRow windowEnd claim)
      have hx : exec (.insertClaim ⟨claim.1, claim.2, windowEnd, windowEnd⟩) o
          ((Entry.claimsTx read claims).view sh.db) = _ :=
        exec_insertClaim read claims sh.db o (claimRow windowEnd claim)
      simp only [hx, Effect.write, Except.ok.injEq, Prod.mk.injEq] at hr ⊢
      obtain ⟨rfl, rfl⟩ := hr
      refine Alone.Spec.orThrow_bind (fun e he => ?_) fun net hnet => ?_
      · rw [toU64_claim now hclaim] at he
        cases he
      obtain rfl := Except.ok.inj ((toU64_claim now hclaim).symm.trans hnet)
      have htail := ih _ hfresh' hrest
      rw [claimsTx_append] at htail
      refine Alone.Spec.bind trivial htail fun infos tx sh' _ h => ?_
      obtain ⟨rfl, rfl, new, rfl, hfresh'', hrows⟩ := h
      refine Alone.Spec.ok ⟨rfl, rfl, nextClaim claims sh'.db o (claimRow windowEnd claim) :: new,
        ?_, ?_, ?_⟩
      · rw [List.append_assoc]
        rfl
      · rw [List.append_assoc] at hfresh''
        exact hfresh''
      · rw [Option.toList_some, List.singleton_append, List.map_cons, List.map_cons, hrows]

/-- What a settlement that answers `claims` does: a row of its own for each claim, no receivable
    is left, and nothing else changes. -/
def Settled (db : Tables) (claims : List SettlementClaimInfo) (db' : Tables) : Prop :=
  ∃ rows : List (Nat × ClaimRow), FreshClaims rows db ∧
    (rows.map Prod.snd).Perm (claims.map fun c =>
      ⟨pairOf c, c.netAmountCents.toNat, c.windowEnd.toNat, c.windowEnd.toNat⟩) ∧
    db' = { db with
      settlementClaims := db.settlementClaims.insertAll rows
      receivables := ∅ }

theorem settle_alone (hw : sh.db.WellFormed) (now : UInt64) :
    Alone.Spec (S := service X) Calm i op (fun _ => True)
      (fun claims tx sh' => tx = none ∧ i64TryFrom now ≠ none ∧ Netted sh.db now claims ∧
        Settled sh.db claims sh'.db)
      (fun _ tx sh' => tx = none ∧ i64TryFrom now = none ∧ sh' = sh) (settle now) none sh := by
  unfold settle
  refine Alone.Spec.orThrow_bind (fun e he => ?_) fun windowEnd hend => ?_
  · refine ⟨rfl, ?_, rfl⟩
    unfold toI64 at he
    split at he
    · cases he
    · assumption
  have hend := toI64_eq_ok hend
  obtain ⟨rfl, -⟩ := i64TryFrom_eq_some hend
  refine Alone.Spec.transaction trivial ?_
  refine Alone.Spec.query_bind_tx trivial (fun o e he => by cases he) fun o amounts ws hr => ?_
  obtain ⟨rfl, rfl⟩ := Prod.mk.inj (Except.ok.inj hr)
  have hreads := reads_select hw o
  change Alone.Spec (S := service X) Calm i op _ _ _ (_ >>= _) (some (Entry.claimsTx (arrange
    (sh.db.receivables.rows.filter fun r => 0 < r.2) o.receivables) [])) sh
  rw [Tx.view_empty]
  generalize arrange (sh.db.receivables.rows.filter fun r => 0 < r.2) o.receivables = read
    at hreads
  have hloop : Alone.Spec (S := service X) Calm i op _ _ _ (settlePairs read now.toNat now read [])
      _ sh := settlePairs_alone [] ⟨List.nodup_nil, fun _ h => by simp at h⟩
        fun c hc => hreads.range hw hc
  refine Alone.Spec.bind trivial (hloop.mono trivial (fun _ _ _ _ h => h)
    fun _ _ _ _ h => h.elim) fun infos tx sh' _ h => ?_
  obtain ⟨rfl, rfl, rows, rfl, hfresh, hrows⟩ := h
  rw [List.nil_append] at hfresh ⊢
  have hdelete : ∀ o, exec .deleteReceivables o ((Entry.claimsTx read rows).view sh'.db) = .write []
      sh'.db.receivables.rows.length (sh'.db.receivables.rows.map fun r => ⟨.receivable r.1, none⟩) := by
    intro o
    rw [view_claimsTx, exec]
  refine Alone.Spec.write_bind_tx hdelete trivial ?_
  refine Alone.Spec.ok ⟨_, rfl, trivial, rfl, by simp [hend], hreads.netted hw now, rows, hfresh,
    ?_, ?_⟩
  · have hperm := List.perm_insertionSort claimLe ((netting read read []).map (claimInfo now))
    refine .trans ?_ (hperm.map _).symm
    rw [hrows, List.map_map]
    refine .of_eq (List.map_congr_left fun c hc => ?_)
    have hamount := toNat_claimInfo now (hreads.range hw hc)
    rw [Function.comp_apply, hamount]
    rfl
  · refine (Ledger.commit_db (L := ledger X) (.settle read rows sh'.db.receivables.rows) sh').trans ?_
    simp only [Entry.apply, Table.eraseAll_rows]

theorem runExt_isSome (i : CallId) (ext : Ext) (o : Oracle) (m : Memory) :
    (runExt i ext o m).isSome = true := by
  cases ext <;> rfl

/-- Where nothing is receivable, nothing is claimed. -/
theorem Netted.eq_nil {now : UInt64} {claims : List SettlementClaimInfo}
    (h : Netted db now claims) (hempty : db.receivables = ∅) : claims = [] := by
  refine List.eq_nil_iff_forall_not_mem.mpr fun c hc => ?_
  have hlt := (h.claim c hc).1
  rw [Tables.receivable, Tables.receivable, hempty] at hlt
  exact lt_irrefl _ hlt

/-- **Netting is exact, and does not depend on an order.** Whatever receivables there are, one list
    of claims is their net, and `settle` run by itself answers that list and inserts its rows. No
    difference of two receivables leaves the range of an `i64`, and no claim is left for a
    settlement that follows. Only a clock that is no `i64` is refused, before anything is read. -/
theorem settle_exact (hw : sh.db.WellFormed) (i : CallId) (op : Op) (now : UInt64) :
    (∀ p, i64Min < sh.db.receivable p - sh.db.receivable p.swap ∧
      sh.db.receivable p - sh.db.receivable p.swap ≤ i64Max) ∧
    ∃ claims, Netted sh.db now claims ∧
      EndsAlone (S := service X) i op
        (fun r sh' => if i64TryFrom now = none then (∃ e, r = .error e) ∧ sh' = sh
          else r = .ok claims ∧ Settled sh.db claims sh'.db ∧
            ∀ j op' now', i64TryFrom now' ≠ none → EndsAlone (S := service X) j op'
              (fun r _ => r = .ok []) (settle now').run sh')
        (settle now).run sh := by
  refine ⟨fun p => ?_, ?_⟩
  · have h1 := receivable_range hw p
    have h2 := receivable_range hw p.swap
    unfold i64Min i64Max at *
    omega
  · have hnetted := (reads_select hw default).netted hw now
    refine ⟨_, hnetted, Alone.ends (C := fun _ => True) runExt_isSome ?_⟩
    have hspec : Alone.Spec (S := service X) Calm i op _ _ _ (settle now) none sh :=
      settle_alone hw now
    refine Alone.mono (fun r tx sh' _ hr => ?_) trivial hspec
    cases r with
    | error e =>
      obtain ⟨htx, hnow, rfl⟩ := hr
      rw [if_pos hnow]
      exact ⟨htx, ⟨e, rfl⟩, rfl⟩
    | ok claims =>
      obtain ⟨htx, hnow, hnetted', hsettled⟩ := hr
      obtain rfl := hnetted'.eq hnetted
      rw [if_neg hnow]
      refine ⟨htx, rfl, hsettled, fun j op' now' hnow' =>
        Alone.ends (C := fun _ => True) runExt_isSome ?_⟩
      obtain ⟨rows, -, -, hdb⟩ := hsettled
      have hempty : sh'.db.receivables = ∅ := by rw [hdb]
      have hw' : sh'.db.WellFormed := ⟨fun p amount hp => by simp [hempty] at hp⟩
      have hspec' : Alone.Spec (S := service X) Calm j op' _ _ _ (settle now') none sh' :=
        settle_alone hw' now'
      refine Alone.mono (fun r tx sh'' _ hr => ?_) trivial hspec'
      cases r with
      | error e => exact absurd hr.2.1 hnow'
      | ok claims' => exact ⟨hr.1, by rw [hr.2.2.1.eq_nil hempty]⟩

/-- Two banks that owe each other 64 and 24 cents, and one that owes itself. -/
def owing : Shared database (service .toy).Op :=
  { db := { Tables.empty with
      receivables := ((∅ : Table Pair Int).put ⟨"bank-a", "bank-b"⟩ (some 64)).put
        ⟨"bank-b", "bank-a"⟩ (some 24) |>.put ⟨"bank-a", "bank-a"⟩ (some 8) }
    mem := .fresh
    hist := [] }

theorem settle_exact_owing : Netted owing.db 7 [⟨"bank-a", "bank-b", 40, 7⟩] := by
  have hrows : ∀ r ∈ owing.db.receivables.rows, 0 ≤ r.2 ∧ r.2 ≤ i64Max := by decide
  have hw : owing.db.WellFormed := ⟨fun p amount hp => hrows (p, amount) (Table.mem_rows.mpr hp)⟩
  obtain ⟨-, claims, hnetted, hends⟩ := settle_exact hw 0 .connect 7
  obtain ⟨r, env', sh', hrun, hr⟩ := hends (always default) (fun _ _ => rfl) ()
  rw [if_neg (by decide)] at hr
  have hcomputed : ((settle 7).run.interp (answering (S := service .toy) (always default) 0 .connect)
      ((), owing, none)).1 = some (.ok [⟨"bank-a", "bank-b", 40, 7⟩]) := by decide
  rw [hrun, hr.1] at hcomputed
  obtain rfl := Except.ok.inj (Option.some.inj hcomputed)
  exact hnetted

end Digicash.Registry
