import Digicash.Lib.Fallible

/-!
# Ledgers

A service that commits only transactions of a few known kinds has a *ledger*: each kind is
an entry, with the statements it runs, what it does to the contents, what it asks of them,
and the calls it may come from. `Ledger.protocol` is the protocol in which these are the
legal commits. `Ledger.invariant` is what it is for: an invariant of a service with a ledger
is checked entry by entry.
-/

namespace Lib

open Protocol

variable {D : Database} {S : Service D}

structure Ledger (S : Service D) where
  Entry : Type
  tx : Entry → Tx D
  apply : Entry → D.Db → D.Db
  applyWrites_tx : ∀ e db, applyWrites db (tx e).writes = apply e db
  Valid : S.Conf → D.Db → Entry → Prop
  From : S.Conf → D.Mem → CallId → S.Op → Entry → Prop

namespace Ledger

variable {L : Ledger S} {Inv : D.Db → Prop} {Post : S.Conf → CallId → S.Op → S.Ans → Shared D S.Op → Prop}
  {κ : S.Conf} {i : CallId} {op : S.Op} {sh sh' : Shared D S.Op}

/-- Only entries are committed. -/
@[reducible] def protocol (L : Ledger S) (Inv : D.Db → Prop)
    (Post : S.Conf → CallId → S.Op → S.Ans → Shared D S.Op → Prop) : Protocol S where
  Inv sh := Inv sh.db
  Legal κ sh c := ∃ e : L.Entry, c.tx = L.tx e ∧ L.Valid κ sh.db e ∧
    L.From κ sh.mem c.call c.op e
  Post := Post

/-- The contents after committing an entry. -/
theorem commit_db (e : L.Entry) (sh : Shared D S.Op) :
    (sh.commit i op (L.tx e)).db = L.apply e sh.db := L.applyWrites_tx e sh.db

/-- A move is an entry, or a change of memory. -/
theorem move_cases (h : (L.protocol Inv Post).Move κ sh sh') :
    (∃ e : L.Entry, L.Valid κ sh.db e ∧ sh'.db = L.apply e sh.db) ∨ sh'.db = sh.db := by
  cases h with
  | commit c hb hl =>
    obtain ⟨e, htx, hv, -⟩ := hl
    refine Or.inl ⟨e, hv, ?_⟩
    rw [Shared.push_db, Commit.after, hb, htx, L.applyWrites_tx]
  | mem m hm => exact Or.inr rfl

/-- What every entry keeps, a move keeps. -/
theorem move_keeps {J : D.Db → Prop} (h : (L.protocol Inv Post).Move κ sh sh')
    (hJ : ∀ {e db}, L.Valid κ db e → J db → J (L.apply e db)) (h0 : J sh.db) : J sh'.db := by
  rcases move_cases h with ⟨e, hv, hdb⟩ | hdb
  · rw [hdb]
    exact hJ hv h0
  · rw [hdb]
    exact h0

/-- A step of the running service commits one entry, in the name of a call in flight, or leaves the
    contents alone. -/
theorem step_cases {s s' : Sys S} {e : Event S} (hS : (L.protocol Inv Post).Sound)
    (hg : s.Good (L.protocol Inv Post)) (he : s.step e = some s') :
    s'.shared.db = s.shared.db ∨ ∃ i ss, ∃ entry : L.Entry, s.live i = some ss ∧
      L.Valid s.conf s.shared.db entry ∧ L.From s.conf s.shared.mem i ss.op entry ∧
        s'.shared.db = L.apply entry s.shared.db := by
  rcases Sys.shared_step he with ⟨hdb, -⟩ | ⟨c, ss, hl, hop, hhist⟩
  · exact Or.inl hdb
  · obtain ⟨⟨entry, htx, hv, hfrom⟩, hb, hdb⟩ := hg.legal hS he hhist
    refine Or.inr ⟨c.call, ss, entry, hl, hv, hop ▸ hfrom, ?_⟩
    rw [hdb, Commit.after, hb, htx, L.applyWrites_tx]

/-- What every entry keeps, a step keeps. -/
theorem step_keeps {s s' : Sys S} {e : Event S} {J : D.Db → Prop}
    (hS : (L.protocol Inv Post).Sound) (hg : s.Good (L.protocol Inv Post))
    (he : s.step e = some s') (hJ : ∀ {κ e db}, L.Valid κ db e → J db → J (L.apply e db))
    (h0 : J s.shared.db) : J s'.shared.db := by
  rcases step_cases hS hg he with hdb | ⟨_, _, entry, -, hv, -, hdb⟩ <;> rw [hdb]
  · exact h0
  · exact hJ hv h0

/-- **The invariant rule of a ledger.** What holds at the start, and is kept by every entry
    that may be committed, by the process's memory and by restarts, holds in every state of
    every run. -/
theorem invariant {π : Policy S} {s s' : Sys S} (hS : (L.protocol Inv Post).Sound)
    (hg : s.Good (L.protocol Inv Post)) (h : Sys.Steps π s s')
    {J : S.Conf → Shared D S.Op → Prop} (h0 : J s.conf s.shared)
    (hentry : ∀ {κ : S.Conf} {sh : Shared D S.Op} {call : CallId} {op : S.Op} {e : L.Entry},
      Inv sh.db → J κ sh → L.Valid κ sh.db e → L.From κ sh.mem call op e →
        π.commit sh ⟨call, op, L.tx e, sh.db⟩ →
          J κ ⟨L.apply e sh.db, sh.mem, ⟨call, op, L.tx e, sh.db⟩ :: sh.hist⟩)
    (hmem : ∀ {κ : S.Conf} {sh : Shared D S.Op} {m : D.Mem}, J κ sh →
      S.MemStep sh.mem m → J κ { sh with mem := m })
    (hreboot : ∀ {κ κ' : S.Conf} {sh : Shared D S.Op}, J κ sh → π.reboot κ κ' →
      J κ' { sh with mem := S.reboot sh.mem }) :
    J s'.conf s'.shared := by
  refine hg.invariant hS h (J := fun x => J x.1 x.2) h0 ?_
  intro x y hinv hj hw
  cases hw with
  | @commit κ sh c hb hl hp =>
    obtain ⟨e, htx, hv, hfrom⟩ := hl
    obtain ⟨call, op, tx, before⟩ := c
    obtain rfl : before = sh.db := hb
    obtain rfl : tx = L.tx e := htx
    have hpush : sh.push ⟨call, op, L.tx e, sh.db⟩ =
        ⟨L.apply e sh.db, sh.mem, ⟨call, op, L.tx e, sh.db⟩ :: sh.hist⟩ := by
      rw [Shared.push, Commit.after, L.applyWrites_tx]
    rw [hpush]
    exact hentry hinv hj hv hfrom hp
  | mem m hm => exact hmem hj hm
  | reboot hp => exact hreboot hj hp

/-- What is so of every entry that may be committed is so of every commit there is. -/
theorem commits {π : Policy S} {s s' : Sys S} (hS : (L.protocol Inv Post).Sound)
    (hg : s.Good (L.protocol Inv Post)) (h : Sys.Steps π s s') {P : Commit D S.Op → Prop}
    (h0 : ∀ c ∈ s.shared.hist, P c)
    (hentry : ∀ {κ db mem call op e}, L.Valid κ db e → L.From κ mem call op e →
      P ⟨call, op, L.tx e, db⟩) : ∀ c ∈ s'.shared.hist, P c := by
  refine invariant hS hg h (J := fun _ sh => ∀ c ∈ sh.hist, P c) h0 ?_ (fun hj _ => hj)
    fun hj _ => hj
  intro κ sh call op e _ hj hv hfrom _ c hc
  rcases List.mem_cons.mp hc with rfl | hc
  · exact hentry hv hfrom
  · exact hj c hc

end Ledger

end Lib
