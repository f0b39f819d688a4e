import Digicash.Bank.Conservation

/-!
# Signatures and states

Two readings of the same five moves of a withdrawal (`RowMove`).

While the keys stay what they are, a withdrawal carries a signature exactly when it is
signed, and then the one its message has; it is compensated only if its message has none. So
a signature that was handed out is backed by a debit that stands.

The states run forward, `pending` to `signed` to `completed` or `pending` to `compensated`,
except for one move: a finalizer that lags behind writes `signed` over `completed`
(`moves_backwards`). The statement is `UPDATE … WHERE request_id`, whatever the state is.
-/

namespace Digicash.Bank

open Lib

variable {X : Crypto} {κ : Config X} {s s' : Sys (service X)} {π : Policy (service X)}

/-! ## Signatures -/

/-- The runs in which no restart changes the keys. -/
def sameKeys : Policy (service X) := .reboots fun κ κ' => κ'.keys = κ.keys

/-- The row's state and signature agree with what signing its message gives. -/
structure WithdrawRow.Backed (κ : Config X) (row : WithdrawRow) : Prop where
  signed : row.state = .signed ∨ row.state = .completed →
    ∃ signature, κ.sign row = some (.ok signature) ∧ row.blindSignature = some signature
  pending : row.state = .pending → row.blindSignature = none
  compensated : row.state = .compensated → ∃ e, κ.sign row = some (.error e)

theorem sign_congr {κ κ' : Config X} (h : κ'.keys = κ.keys) (row : WithdrawRow) :
    κ'.sign row = κ.sign row := by
  unfold Config.sign
  rw [h]

theorem WithdrawRow.Backed.congr {κ' : Config X} {row : WithdrawRow} (h : row.Backed κ)
    (hk : κ'.keys = κ.keys) : row.Backed κ' := by
  refine ⟨?_, h.pending, ?_⟩ <;> rw [sign_congr hk]
  · exact h.signed
  · exact h.compensated

theorem RowMove.backed {v : Option WithdrawRow} {row : WithdrawRow}
    (hv : ∀ old, v = some old → old.Backed κ) (h : RowMove κ v (some row)) : row.Backed κ := by
  generalize hw : some row = w at h
  cases h with
  | stay => exact hv row hw.symm
  | debit _ _ =>
    obtain rfl := Option.some.inj hw
    exact ⟨by simp, fun _ => rfl, by simp⟩
  | @sign old signature hs hf =>
    obtain rfl := Option.some.inj hw
    exact ⟨fun _ => ⟨signature, hs, rfl⟩, by simp, by simp⟩
  | @complete old signature hs =>
    obtain rfl := Option.some.inj hw
    exact ⟨fun _ => (hv old rfl).signed hs.state, by simp, by simp⟩
  | @compensate old e hs hf =>
    obtain rfl := Option.some.inj hw
    exact ⟨by simp, by simp, fun _ => ⟨e, hs⟩⟩

/-- Given back once, given back for good. -/
theorem RowMove.compensated {row : WithdrawRow} {v : Option WithdrawRow}
    (hr : row.state = .compensated) (h : RowMove κ (some row) v) :
    ∃ row', v = some row' ∧ row'.state = .compensated := by
  cases h with
  | stay => exact ⟨row, rfl, hr⟩
  | sign hs hf => exact absurd hr (hf.not_compensated hs)
  | complete hs => exact absurd hr hs.not_compensated
  | compensate _ _ => exact ⟨_, rfl, rfl⟩

/-- A debit that was ever reversed is reversed now. -/
theorem reversed_stays (h : Sys.Steps π (start κ) s) {c : Commit database Op}
    (hc : c ∈ s.shared.hist) {r : String} (hr : reverses r c = true) :
    ∃ row, s.shared.db.withdrawStates.lookup r = some row ∧ row.state = .compensated := by
  refine invariant (J := fun _ sh => ∀ c ∈ sh.hist, reverses r c = true →
    ∃ row, sh.db.withdrawStates.lookup r = some row ∧ row.state = .compensated) h ?_ ?_
    (fun h _ => h) (fun h _ => h) c hc hr
  · exact fun c hc => absurd hc (by simp)
  intro κ sh call op e _ hj hv _ _ c hc hr
  rcases List.mem_cons.mp hc with rfl | hc
  · rw [Entry.reverses_tx] at hr
    cases e with
    | compensate r' row b =>
      obtain rfl : r' = r := by simpa using hr
      exact ⟨_, Table.lookup_put_self _ _ _, rfl⟩
    | _ => exact absurd hr (by simp)
  · obtain ⟨row, hl, hstate⟩ := hj c hc hr
    have hmove := e.rowMove hv r
    rw [hl] at hmove
    exact hmove.compensated hstate

/-- No answer that keeps its promise says that a record was corrupt. -/
theorem not_malformed {call : CallId} {op : Op} {a : Ans} {sh : State X} {r m : String}
    (h : Post κ call op a sh) : a ≠ .withdraw (.error (.malformedRecord r m)) := by
  rintro rfl
  cases op with
  | withdraw req => exact h r m rfl
  | _ => exact h

/-- While the keys stay what they are, every withdrawal is in order. -/
theorem backed (h : Sys.Steps sameKeys (start κ) s) : s.conf.keys = κ.keys ∧
    ∀ r row, s.shared.db.withdrawStates.lookup r = some row → row.Backed κ := by
  refine invariant (J := fun κ' sh => κ'.keys = κ.keys ∧
    ∀ r row, sh.db.withdrawStates.lookup r = some row → row.Backed κ) h ?_ ?_
    (fun h _ => h) ?_
  · exact ⟨rfl, fun r row hl => absurd hl (by simp [Tables.empty])⟩
  · intro κ' sh call op e _ hj hv _ _
    refine ⟨hj.1, fun r row hl => ?_⟩
    have hmove := e.rowMove hv r
    rw [hl] at hmove
    exact (hmove.backed fun old ho => (hj.2 r old ho).congr hj.1).congr hj.1.symm
  · exact fun hj hp => ⟨hp.trans hj.1, hj.2⟩

/-- **A signature that was released is backed by a standing debit.** In every state of every
    run that keeps its keys: every withdrawal is in order, no call comes upon a corrupt one,
    and no withdrawal whose debit was ever reversed has had a signature returned. -/
theorem released_backed (h : Sys.Steps sameKeys (start κ) s) :
    (∀ r row, s.shared.db.withdrawStates.lookup r = some row → row.Backed κ) ∧
      (∀ i ss r m, s.live i = some ss →
        ss.code ≠ .pure (.withdraw (.error (.malformedRecord r m)))) ∧
      (∀ a ∈ s.answers, ∀ r m, a.ans ≠ .withdraw (.error (.malformedRecord r m))) ∧
      ∀ c ∈ s.shared.hist, ∀ a ∈ s.answers, ∀ req response, a.op = .withdraw req →
        reverses req.requestId c = true → a.ans ≠ .withdraw (.ok response) := by
  have hgood := good h
  refine ⟨(backed h).2, fun i ss r m hl hcode => ?_, fun a ha r m hans => ?_,
    fun c hc a ha req response hop hrev hans => ?_⟩
  · have hpost := (hgood.live i ss hl).2
    rw [hcode] at hpost
    exact not_malformed (hpost _ (.refl hgood.inv)) rfl
  · exact not_malformed (hgood.answers a ha) hans
  · obtain ⟨row, hl, hstate⟩ := reversed_stays h hc hrev
    have hpost := hgood.answers a ha
    rw [hop, hans] at hpost
    obtain ⟨row', hl', hs⟩ := hpost
    obtain rfl : row = row' := Option.some.inj (hl.symm.trans hl')
    exact hs.not_compensated hstate

/-- A withdrawal, a crash before its signature is stored, and the recovery. -/
theorem released_backed_recovery : ∃ s : Sys (service .toy),
    s.shared.db.withdrawStates.lookup "r" =
        some ⟨.completed, "alice", 100, [7], some [7]⟩ ∧
      ∀ r row, s.shared.db.withdrawStates.lookup r = some row → row.Backed Config.toy := by
  have hrun : ((start Config.toy).run (opened ++ call (.withdraw ⟨"alice", "r", 100, [7]⟩) ::
      go 2 6 ++ .crash Config.toy :: call .connect :: go 3 7)).any (fun s =>
        decide (s.shared.db.withdrawStates.lookup "r" =
          some ⟨.completed, "alice", 100, [7], some [7]⟩)) = true := by decide
  obtain ⟨s, hs, hp⟩ := (Option.any_eq_true _ _).mp hrun
  refine ⟨s, of_decide_eq_true hp, (released_backed (Sys.steps_of_run_steady
    (fun _ _ => trivial) rfl rfl ?_ hs)).1⟩
  simp [opened, call, go, Event.steps]
  rfl

/-! ## States -/

/-- The edges of the state machine, with `none` before the debit; standing still is one. -/
inductive Edge : Option WithdrawState → Option WithdrawState → Prop where
  | same (v : Option WithdrawState) : Edge v v
  | record : Edge none (some .pending)
  | sign : Edge (some .pending) (some .signed)
  | complete : Edge (some .signed) (some .completed)
  | compensate : Edge (some .pending) (some .compensated)

def Tables.stateOf (db : Tables) (r : String) : Option WithdrawState :=
  (db.withdrawStates.lookup r).map WithdrawRow.state

/-- The transaction does not sign a withdrawal that is completed. -/
def signsForward (sh : State X) (c : Commit database Op) : Bool :=
  c.tx.trace.all fun e =>
    match e.1 with
    | .setSigned r _ => sh.db.stateOf r != some .completed
    | _ => true

/-- A row that is overwritten moves along an edge if its state does. -/
theorem edge_overwrite {db : Tables} {r' : String} {row row' : WithdrawRow}
    (h : db.withdrawStates.lookup r' = some row) (he : Edge (some row.state) (some row'.state))
    (r : String) :
    Edge (db.stateOf r) (((db.withdrawStates.put r' (some row')).lookup r).map WithdrawRow.state) := by
  rw [Table.lookup_put]
  split
  · rename_i hr
    subst hr
    rw [Tables.stateOf, h]
    exact he
  · exact .same _

theorem Entry.edge {sh : State X} {call : CallId} {op : Op} {e : Entry}
    (hv : e.Valid κ sh.db) (hp : signsForward sh ⟨call, op, e.tx, sh.db⟩ = true) (r : String) :
    Edge (sh.db.stateOf r) ((e.apply sh.db).stateOf r) := by
  cases e with
  | debit r' a denom m b =>
    rw [Tables.stateOf, Tables.stateOf, apply, Table.lookup_put]
    split
    · rename_i hr
      subst hr
      rw [hv.2.1]
      exact .record
    · exact .same _
  | sign r' row signature =>
    obtain ⟨hl, hs, hf⟩ := hv
    refine edge_overwrite hl ?_ r
    have hnot : row.state ≠ .completed := by
      have : sh.db.stateOf r' ≠ some .completed := by
        simpa [signsForward, tx, ran, Tx.push, Tx.empty] using hp
      rw [Tables.stateOf, hl] at this
      exact fun h => this (congrArg some h)
    unfold Finalizing at hf
    rw [hs] at hf
    rcases hf with h | h
    · rw [h]
      exact .sign
    · rcases h.state with h | h
      · rw [h]
        exact .same _
      · exact absurd h hnot
  | complete r' row =>
    obtain ⟨hl, signature, hs⟩ := hv
    refine edge_overwrite hl ?_ r
    rcases hs.state with h | h
    · rw [h]
      exact .complete
    · rw [h]
      exact .same _
  | compensate r' row b =>
    obtain ⟨hl, ⟨e, hs⟩, hf, -⟩ := hv
    refine edge_overwrite hl ?_ r
    unfold Finalizing at hf
    rw [hs] at hf
    rcases hf with h | h
    · rw [h]
      exact .compensate
    · rw [h]
      exact .same _
  | _ => exact .same _

/-- **Where no completed withdrawal is signed again, every step of every run moves every
    withdrawal along an edge.** -/
theorem moves_forward
    (h : Sys.Steps (.commits fun sh c => signsForward sh c = true) (start κ) s)
    (hs : Sys.Step (.commits fun sh c => signsForward sh c = true) s s') (r : String) :
    Edge (s.shared.db.stateOf r) (s'.shared.db.stateOf r) := by
  obtain ⟨ev, hstep, hallows⟩ := hs
  obtain ⟨-, hwhole⟩ := (good h).step sound hstep hallows
  generalize hx : (s.conf, s.shared) = x at hwhole
  generalize hy : (s'.conf, s'.shared) = y at hwhole
  cases hwhole with
  | refl =>
    subst hx
    obtain ⟨-, hsh⟩ := Prod.mk.inj hy
    rw [hsh]
    exact .same _
  | single hw =>
    cases hw with
    | @commit κ' sh c hb hl hp =>
      obtain ⟨-, rfl⟩ := Prod.mk.inj hx
      obtain ⟨-, hsh⟩ := Prod.mk.inj hy
      obtain ⟨e, htx, hv, -⟩ := hl
      obtain ⟨i, op, tx, before⟩ := c
      obtain rfl : before = s.shared.db := hb
      obtain rfl : tx = e.tx := htx
      rw [hsh, Shared.push_db, Commit.after, e.applyWrites_tx]
      exact e.edge hv hp r
    | mem m hm =>
      obtain ⟨-, rfl⟩ := Prod.mk.inj hx
      obtain ⟨-, hsh⟩ := Prod.mk.inj hy
      rw [hsh]
      exact .same _
    | reboot hp =>
      obtain ⟨-, rfl⟩ := Prod.mk.inj hx
      obtain ⟨-, hsh⟩ := Prod.mk.inj hy
      rw [hsh]
      exact .same _

/-- A withdrawal on its way from `signed` to `completed`. -/
theorem moves_forward_completing : ∃ s s' : Sys (service .toy),
    s.shared.db.stateOf "r" = some .signed ∧ s'.shared.db.stateOf "r" = some .completed ∧
      Edge (s.shared.db.stateOf "r") (s'.shared.db.stateOf "r") := by
  obtain ⟨s, s', hs, hs', hp⟩ := Sys.exists_step_of_runGuarded (s := start Config.toy)
    (g := signsForward) (e := .step 2 .none {})
    (l := opened ++ call (.withdraw ⟨"alice", "r", 100, [7]⟩) :: go 2 7)
    (p := fun s s' => decide (s.shared.db.stateOf "r" = some .signed ∧
      s'.shared.db.stateOf "r" = some .completed)) (by decide)
  obtain ⟨h, h'⟩ := of_decide_eq_true hp
  exact ⟨s, s', h, h', moves_forward hs hs' "r"⟩

/-- A call, and a retry that finds the withdrawal `pending`; the call completes it before the
    retry has signed. -/
def laggingRetry : List (Event (service .toy)) :=
  opened ++ call (.withdraw ⟨"alice", "r", 100, [7]⟩) :: go 2 6 ++
    call (.withdraw ⟨"alice", "r", 100, [7]⟩) :: go 3 1 ++ go 2 2

/-- **Without the condition a completed withdrawal goes back to `signed`.** -/
theorem moves_backwards : ∃ s s' : Sys (service .toy), Sys.Steps .any (start Config.toy) s ∧
    Sys.Step .any s s' ∧ s.shared.db.stateOf "r" = some .completed ∧
      s'.shared.db.stateOf "r" = some .signed ∧
        ¬ Edge (s.shared.db.stateOf "r") (s'.shared.db.stateOf "r") := by
  obtain ⟨s, s', hs, hs', hp⟩ := Sys.exists_step_of_run (s := start Config.toy)
    (l := laggingRetry) (e := .step 3 .none {})
    (p := fun s s' => decide (s.shared.db.stateOf "r" = some .completed ∧
      s'.shared.db.stateOf "r" = some .signed)) (by decide)
  obtain ⟨h, h'⟩ := of_decide_eq_true hp
  refine ⟨s, s', hs, hs', h, h', ?_⟩
  rw [h, h']
  rintro ⟨⟩

end Digicash.Bank
