import Digicash.Bank.Conservation

/-!
# No double credit

A coin is spent exactly when one deposit stands for it, and what deposits have ever credited
to an account is the sum of the deposits that name it. Nothing is assumed of the run: two
deposits of one coin, or of one request id, meet at a unique key, and whichever comes second
rolls back.
-/

namespace Digicash.Bank

open Lib

variable {X : Crypto} {κ : Config X} {s : Sys (service X)} {π : Policy (service X)}

/-- Every spent coin is the coin of the deposit it is recorded under, and the other way
    round. -/
def Tables.SpentByDeposit (db : Tables) : Prop :=
  ∀ coin r, db.spentSerials.lookup coin = some r ↔
    ∃ a, db.deposits.lookup r = some ⟨coin, a⟩

/-- What a committed transaction of a deposit added to the balance of `a`. -/
def crediting (a : String) (c : Commit database Op) : Int :=
  match c.op with
  | .deposit _ => Tables.balanceOf c.after a - Tables.balanceOf c.before a
  | _ => 0

/-- What deposits have ever credited to `a`. -/
def totalCredited (a : String) (hist : List (Commit database Op)) : Int :=
  (hist.map (crediting a)).sum

theorem Entry.spentByDeposit {db : Tables} {e : Entry} (hv : e.Valid κ db)
    (h : db.SpentByDeposit) : (e.apply db).SpentByDeposit := by
  cases e with
  | deposit r row b =>
    obtain ⟨hr, hc, -⟩ := hv
    -- Neither the coin nor the request id occurs yet.
    have hnew : ∀ {coin : CoinKey} {r' : String}, db.spentSerials.lookup coin = some r' →
        coin ≠ row.coin ∧ r' ≠ r := by
      intro coin r' hl
      refine ⟨fun he => ?_, fun he => ?_⟩
      · subst he
        exact absurd (hl.symm.trans hc) (by simp)
      · subst he
        obtain ⟨a, ha⟩ := (h coin r').mp hl
        exact absurd (ha.symm.trans hr) (by simp)
    intro coin r'
    simp only [apply, Table.lookup_put]
    by_cases hcoin : coin = row.coin
    · subst hcoin
      rw [if_pos rfl]
      constructor
      · intro he
        obtain rfl := Option.some.inj he
        exact ⟨row.accountId, if_pos rfl⟩
      · rintro ⟨a, ha⟩
        split at ha
        · rename_i he
          rw [he]
        · exact absurd rfl (hnew ((h _ r').mpr ⟨a, ha⟩)).1
    · rw [if_neg hcoin]
      constructor
      · intro hl
        rw [if_neg (hnew hl).2]
        exact (h coin r').mp hl
      · rintro ⟨a, ha⟩
        split at ha
        · exact absurd (congrArg DepositRow.coin (Option.some.inj ha)).symm hcoin
        · exact (h coin r').mpr ⟨a, ha⟩
  | _ => exact h

theorem Entry.crediting_eq {mem : Memory} {call : CallId} {op : Op} {e : Entry} {db : Tables}
    (hv : e.Valid κ db) (h : e.From κ mem call op) (a : String) :
    crediting a ⟨call, op, e.tx, db⟩ = e.deposits a := by
  have hafter : (⟨call, op, e.tx, db⟩ : Commit database Op).after = e.apply db :=
    e.applyWrites_tx db
  cases op <;> cases e <;> first
    | exact False.elim h
    | rfl
    | simp only [crediting, hafter, balanceOf_apply hv]
      simp only [moves, deposits]
      omega

theorem spentByDeposit (h : Sys.Steps π (start κ) s) : s.shared.db.SpentByDeposit := by
  refine invariant (J := fun _ sh => Tables.SpentByDeposit sh.db) h ?_ ?_ (fun h _ => h)
    (fun h _ => h)
  · exact fun coin r => by simp [Tables.empty]
  · exact fun _ hj hv _ _ => Entry.spentByDeposit hv hj

/-- Where coins are spent by their deposits, two deposits of one coin are one. -/
theorem Tables.SpentByDeposit.unique {db : Tables} (h : db.SpentByDeposit) {r r' : String}
    {row row' : DepositRow} (hr : db.deposits.lookup r = some row)
    (hr' : db.deposits.lookup r' = some row') (hcoin : row.coin = row'.coin) : r = r' := by
  have h1 := (h row.coin r).mpr ⟨row.accountId, hr⟩
  have h2 := (h row.coin r').mpr ⟨row'.accountId, by rw [hr', hcoin]⟩
  exact Option.some.inj (h1.symm.trans h2)

/-- The deposits that stand are what deposits have ever credited. -/
theorem totalCredited_eq (h : Sys.Steps π (start κ) s) (a : String) :
    totalCredited a s.shared.hist = s.shared.db.deposited a := by
  refine invariant (J := fun _ sh => totalCredited a sh.hist = sh.db.deposited a) h rfl ?_
    (fun h _ => h) (fun h _ => h)
  intro κ sh call op e _ hj hv hfrom _
  rw [Entry.deposited_apply hv, ← hj, totalCredited, List.map_cons, List.sum_cons,
    Entry.crediting_eq hv hfrom, add_comm]
  rfl

/-- **No coin is ever credited twice at one bank.** -/
theorem no_double_credit (h : Sys.Steps π (start κ) s) :
    s.shared.db.SpentByDeposit ∧
      (∀ r r' row row', s.shared.db.deposits.lookup r = some row →
        s.shared.db.deposits.lookup r' = some row' → row.coin = row'.coin → r = r') ∧
      ∀ a, totalCredited a s.shared.hist = s.shared.db.deposited a :=
  ⟨spentByDeposit h, fun _ _ _ _ hr hr' hcoin => (spentByDeposit h).unique hr hr' hcoin,
    totalCredited_eq h⟩

/-- A coin of the toy bank. -/
def toyCoin (serial : UInt8) : Coin := ⟨0, 100, toySerial serial, []⟩

/-- Two deposits of one coin at a time: the second waits at the coin, and then rolls back. -/
theorem no_double_credit_race : ∃ s : Sys (service .toy),
    s.shared.db.deposits.entries.length = 1 ∧ s.shared.db.SpentByDeposit ∧
      totalCredited "alice" s.shared.hist = s.shared.db.deposited "alice" := by
  obtain ⟨s, hs, hp⟩ := Sys.exists_of_run (s := start Config.toy)
    (l := opened ++ call (.deposit ⟨toyCoin 1, "alice", "p"⟩) :: go 2 3 ++
      call (.deposit ⟨toyCoin 1, "alice", "q"⟩) :: go 3 2 ++ go 2 4 ++ go 3 3)
    (p := fun s => s.shared.db.deposits.entries.length == 1) (by decide)
  obtain ⟨hspent, -, htotal⟩ := no_double_credit hs
  exact ⟨s, beq_iff_eq.mp hp, hspent, htotal "alice"⟩

end Digicash.Bank
