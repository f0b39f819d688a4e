import Digicash.Registry.Refinement

/-!
# Settlement

What banks owe each other for accepted deposits is, at any time, in the claims or in the
receivables. `settle` moves it from the second to the first: it reads the receivables, claims
their nets, and deletes the receivables. It reads without locking, and it deletes whatever is
there when it gets there. So a deposit accepted in between is deleted without having been
claimed (`dropped_deposit`), and a second settlement that read before the first one deleted
claims everything again.

Everything below is about the two directions of one pair at a time, and about their
difference: netting loses the rest on purpose.
-/

namespace Digicash.Registry

open Lib

variable {X : Crypto} {s : Sys (service X)}

/-! ## Balances -/

/-- What is due one way less what is due the other way. -/
def balance (f : Pair → Int) (p : Pair) : Int := f p - f p.swap

/-- The amount of a pair in a list of rows. -/
def amountIn (l : List (Pair × Int)) (p : Pair) : Int := (l.lookup p).getD 0

/-- The claims in which `p.issuingBankId` owes `p.depositingBankId`. -/
def Tables.claimed (db : Tables) (p : Pair) : Int :=
  db.settlementClaims.total fun _ row => if row.pair = p then row.netAmountCents else 0

def Tables.receivable (db : Tables) (p : Pair) : Int := (db.receivables.lookup p).getD 0

/-- What `l` says `p.issuingBankId` owes `p.depositingBankId`. -/
def owed (l : List (Pair × Int)) (p : Pair) : Int :=
  (l.map fun c => if c.1 = p then c.2 else 0).sum

@[simp] theorem owed_nil (p : Pair) : owed [] p = 0 := rfl

theorem owed_cons (c : Pair × Int) (l : List (Pair × Int)) (p : Pair) :
    owed (c :: l) p = (if c.1 = p then c.2 else 0) + owed l p := List.sum_cons

theorem owed_append (l l' : List (Pair × Int)) (p : Pair) :
    owed (l ++ l') p = owed l p + owed l' p := by
  rw [owed, List.map_append, List.sum_append]
  rfl

theorem balance_self (f : Pair → Int) {p : Pair} (h : p.swap = p) : balance f p = 0 := by
  unfold balance
  rw [h]
  omega

/-! ## Netting -/

/-- **One claim settles a pair**: it moves the difference, and no other pair's. -/
theorem balance_netOf {p q : Pair} {forward reverse : Int} (hp : p.swap ≠ p) :
    balance (owed (netOf q forward reverse).toList) p =
      if q = p then forward - reverse else if q = p.swap then reverse - forward else 0 := by
  have hflip : q.swap = p ↔ q = p.swap :=
    ⟨fun h => by rw [← h, Pair.swap_swap], fun h => by rw [h, Pair.swap_swap]⟩
  have hflip' : q.swap = p.swap ↔ q = p :=
    ⟨fun h => by rw [← Pair.swap_swap q, h, Pair.swap_swap], fun h => by rw [h]⟩
  unfold balance netOf
  by_cases hpos : 0 < forward - reverse
  · simp only [if_pos hpos, Option.toList_some, owed_cons, owed_nil]
    split_ifs with h1 h2
    · exact absurd (h2.symm.trans h1) hp
    · omega
    · omega
    · omega
  · by_cases hneg : forward - reverse < 0
    · simp only [if_neg hpos, if_pos hneg, Option.toList_some, owed_cons, owed_nil, hflip, hflip']
      split_ifs with h1 h2
      · exact absurd (h1.symm.trans h2) hp
      · omega
      · omega
      · omega
    · simp only [if_neg hpos, if_neg hneg, Option.toList_none, owed_nil]
      split_ifs <;> omega

/-- A pair that is not done is settled now, and then it is. -/
theorem netting_of_notMem (amounts : List (Pair × Int)) {q : Pair} {forward : Int}
    {todo : List (Pair × Int)} {done : List Pair} (h : q ∉ done) :
    netting amounts ((q, forward) :: todo) done =
      (netOf q forward ((amounts.lookup q.swap).getD 0)).toList ++
        netting amounts todo (q.swap :: q :: done) := by
  rw [netting, if_neg h]
  cases netOf q forward ((amounts.lookup q.swap).getD 0) <;> rfl

/-- What is done is done both ways. -/
theorem swap_mem_done {q : Pair} {done : List Pair} (h : ∀ r ∈ done, r.swap ∈ done) :
    ∀ r ∈ q.swap :: q :: done, r.swap ∈ q.swap :: q :: done := by
  intro r hr
  rcases List.mem_cons.mp hr with rfl | hr
  · simp
  · rcases List.mem_cons.mp hr with rfl | hr
    · simp
    · exact List.mem_cons_of_mem _ (List.mem_cons_of_mem _ (h r hr))

theorem netting_cons (amounts : List (Pair × Int)) {q : Pair} {forward : Int}
    {todo : List (Pair × Int)} {done : List Pair} (h : q ∉ done) (p : Pair) :
    balance (owed (netting amounts ((q, forward) :: todo) done)) p =
      balance (owed (netOf q forward ((amounts.lookup q.swap).getD 0)).toList) p +
        balance (owed (netting amounts todo (q.swap :: q :: done))) p := by
  rw [netting_of_notMem amounts h]
  simp only [balance, owed_append]
  omega

/-- The loop of `settle`, for one pair. The induction is on the rows still to do; whichever
    direction of the pair comes first settles it, and from then on it is done. -/
theorem balance_netting {amounts : List (Pair × Int)} {p : Pair} (hp : p.swap ≠ p) :
    ∀ {todo : List (Pair × Int)} {done : List Pair},
      (∀ r ∈ todo, amounts.lookup r.1 = some r.2) → (∀ q ∈ done, q.swap ∈ done) →
        balance (owed (netting amounts todo done)) p =
          if p ∈ done ∨ (p ∉ todo.map Prod.fst ∧ p.swap ∉ todo.map Prod.fst) then 0
          else balance (amountIn amounts) p := by
  intro todo
  induction todo with
  | nil =>
    intro done _ _
    rw [if_pos (Or.inr ⟨by simp, by simp⟩), netting]
    simp [balance]
  | cons head todo ih =>
    obtain ⟨q, forward⟩ := head
    intro done hrows hdone
    have hrows' : ∀ r ∈ todo, amounts.lookup r.1 = some r.2 := fun r hr =>
      hrows r (List.mem_cons_of_mem _ hr)
    have hq : amountIn amounts q = forward := by
      rw [amountIn, hrows (q, forward) (List.mem_cons_self ..), Option.getD_some]
    by_cases hmem : q ∈ done
    · rw [netting, if_pos hmem, ih hrows' hdone]
      by_cases hpd : p ∈ done
      · rw [if_pos (Or.inl hpd), if_pos (Or.inl hpd)]
      · have hne : p ≠ q := fun h => hpd (h ▸ hmem)
        have hne' : p.swap ≠ q := fun h => hpd (p.swap_swap ▸ hdone p.swap (h ▸ hmem))
        simp only [hpd, List.map_cons, List.mem_cons, hne, hne', false_or]
    · rw [netting_cons amounts hmem, balance_netOf hp, ih hrows' (swap_mem_done hdone)]
      by_cases hqp : q = p
      · subst hqp
        have hfirst : q ∈ q.swap :: q :: done := by simp
        rw [if_pos rfl, if_pos (Or.inl hfirst), if_neg (by simp [hmem]), balance, hq, amountIn,
          add_zero]
      · rw [if_neg hqp]
        by_cases hqs : q = p.swap
        · have hpd : p ∉ done := fun h => hmem (hqs ▸ hdone p h)
          have hfirst : p ∈ q.swap :: q :: done := by simp [hqs]
          rw [if_pos hqs, if_pos (Or.inl hfirst), if_neg (by simp [hpd, hqs]), balance, ← hqs, hq,
            hqs, Pair.swap_swap, amountIn, add_zero]
        · have hne : p ≠ q.swap := fun h => hqs (by rw [h, Pair.swap_swap])
          have hpq : p ≠ q := fun h => hqp h.symm
          have hsq : p.swap ≠ q := fun h => hqs h.symm
          simp only [hqs, hne, hpq, hsq, List.map_cons, List.mem_cons, if_false, false_or,
            zero_add]

/-- Under keys that do not repeat, a row is what its key finds. -/
theorem lookup_of_mem {l : List (Pair × Int)} (hnodup : (l.map Prod.fst).Nodup)
    {r : Pair × Int} (hr : r ∈ l) : l.lookup r.1 = some r.2 := by
  obtain ⟨before, after, rfl⟩ := List.append_of_mem hr
  refine List.lookup_eq_some_iff.mpr ⟨before, after, rfl, fun q hq => ?_⟩
  rw [List.map_append, List.map_cons, List.nodup_append] at hnodup
  have hne := hnodup.2.2 q.1 (List.mem_map_of_mem hq) r.1 (List.mem_cons_self ..)
  simpa using Ne.symm hne

theorem lookup_of_notMem {l : List (Pair × Int)} {p : Pair} (hp : p ∉ l.map Prod.fst) :
    l.lookup p = none := by
  rw [List.lookup_eq_none_iff]
  intro r hr
  have hne : p ≠ r.1 := fun h => hp (h ▸ List.mem_map_of_mem hr)
  simpa using hne

/-- **Netting keeps every balance.** -/
theorem balance_netting_self {l : List (Pair × Int)} (hnodup : (l.map Prod.fst).Nodup)
    (p : Pair) : balance (owed (netting l l [])) p = balance (amountIn l) p := by
  by_cases hp : p.swap = p
  · rw [balance_self _ hp, balance_self _ hp]
  · rw [balance_netting hp (fun r hr => lookup_of_mem hnodup hr)
      (fun q hq => absurd hq (by simp))]
    split
    · rename_i h
      obtain ⟨h1, h2⟩ := h.resolve_left (by simp)
      rw [balance, amountIn, amountIn, lookup_of_notMem h1, lookup_of_notMem h2]
      rfl
    · rfl

/-! ## What an entry does to the totals -/

/-- A commit inserted a new serial. -/
def inserted (c : Commit database Op) : Bool :=
  c.tx.trace.any fun e =>
    match e with
    | ⟨.insertSerial _ _, n⟩ => decide (n = 1)
    | _ => false

/-- What a commit accepted for the pair `p`. -/
def acceptedCents (p : Pair) (c : Commit database Op) : Int :=
  match c.op with
  | .postSerial caller submission =>
    if submissionPair caller submission = p ∧ inserted c = true then
      submission.denominationCents.toNat
    else 0
  | _ => 0

/-- What was ever accepted for the pair `p`. -/
def acceptedTotal (hist : List (Commit database Op)) (p : Pair) : Int :=
  (hist.map (acceptedCents p)).sum

/-- An acceptance adds its denomination to its pair; nothing else accepts anything. -/
def Entry.accepts (p : Pair) : Entry → Int
  | .accept _ _ pair key _ _ => if pair = p then key.denominationCents else 0
  | _ => 0

@[simp] theorem inserted_accept {call : CallId} {op : Op} {db : Tables} (check : CapCheck)
    (id : Nat) (pair : Pair) (key : SerialKey) (row : SerialRow) (outstanding : Option Int) :
    inserted ⟨call, op, (Entry.accept check id pair key row outstanding).tx, db⟩ = true := rfl

@[simp] theorem inserted_doubleSpend {call : CallId} {op : Op} {db : Tables} (check : CapCheck)
    (id : Nat) (pair : Pair) (key : SerialKey) (row : SerialRow) (seen : List TranscriptRow) :
    inserted ⟨call, op, (Entry.doubleSpend check id pair key row seen).tx, db⟩ = false := by
  cases check <;> rfl

theorem Entry.acceptedCents_tx {call : CallId} {op : Op} {db : Tables} {e : Entry}
    (h : e.From op) (p : Pair) : acceptedCents p ⟨call, op, e.tx, db⟩ = e.accepts p := by
  cases e with
  | accept check id pair key row outstanding =>
    cases op with
    | postSerial caller submission =>
      obtain ⟨rfl, ⟨denom, hd, rfl⟩, -, -⟩ := h
      simp only [acceptedCents, inserted_accept, and_true, accepts, serialKey,
        (i64TryFrom_eq_some hd).1]
    | _ => exact False.elim h
  | doubleSpend check id pair key row seen =>
    cases op with
    | postSerial caller submission =>
      simp only [acceptedCents, inserted_doubleSpend, accepts, Bool.false_eq_true, and_false,
        if_false]
    | _ => exact False.elim h
  | _ => cases op <;> first | rfl | exact False.elim h

/-- What claims and receivables together say of the pair `p`. -/
def Tables.position (db : Tables) (p : Pair) : Int :=
  balance db.claimed p + balance db.receivable p

/-- What a settlement leaves wrong: the balance of what it read less that of what it
    deleted. -/
def Entry.slip (p : Pair) : Entry → Int
  | .settle read _ cleared => balance (amountIn read) p - balance (amountIn cleared) p
  | _ => 0

theorem Entry.receivable_apply {db : Tables} {e : Entry} (hv : e.Valid db) (p : Pair) :
    (e.apply db).receivable p = db.receivable p + e.accepts p -
      match e with
      | .settle _ _ cleared => amountIn cleared p
      | _ => 0 := by
  cases e with
  | accept check id pair key row outstanding =>
    obtain ⟨-, -, -, hout, -⟩ := hv
    simp only [Tables.receivable, apply, Table.lookup_put, accepts]
    by_cases hp : p = pair
    · subst hp
      rw [if_pos rfl, if_pos rfl, hout, Option.getD_some, sub_zero]
    · rw [if_neg hp, if_neg (Ne.symm hp)]
      omega
  | settle read claims cleared =>
    obtain ⟨-, -, -, -, -, hnodup, hrows⟩ := hv
    simp only [Tables.receivable, apply, Table.lookup_eraseAll, accepts, amountIn]
    by_cases hp : p ∈ cleared.map Prod.fst
    · obtain ⟨r, hr, rfl⟩ := List.mem_map.mp hp
      rw [if_pos hp, hrows r hr, lookup_of_mem hnodup hr, Option.getD_none]
      omega
    · rw [if_neg hp, lookup_of_notMem hp, Option.getD_none]
      omega
  | _ =>
    simp only [accepts, sub_zero, add_zero]
    rfl

theorem Entry.claimed_apply {db : Tables} {e : Entry} (hv : e.Valid db) (p : Pair) :
    (e.apply db).claimed p = db.claimed p +
      match e with
      | .settle read _ _ => owed (netting read read []) p
      | _ => 0 := by
  cases e with
  | settle read claims cleared =>
    obtain ⟨-, -, ⟨windowEnd, hrows⟩, hnodup, hnew, -⟩ := hv
    simp only [Tables.claimed, apply]
    rw [Table.total_insertAll _ hnodup hnew]
    have hsum : (claims.map fun c => if c.2.pair = p then c.2.netAmountCents else 0) =
        (netting read read []).map fun c => if c.1 = p then c.2 else 0 := by
      have hmap : (claims.map Prod.snd).map (fun row : ClaimRow =>
          if row.pair = p then row.netAmountCents else 0) =
          ((netting read read []).map (claimRow windowEnd)).map fun row : ClaimRow =>
            if row.pair = p then row.netAmountCents else 0 := by rw [hrows]
      rw [List.map_map, List.map_map] at hmap
      exact hmap
    rw [hsum]
    rfl
  | _ => exact (add_zero _).symm

/-- **What an entry does to a position**: it adds what it accepts, and a settlement what it
    leaves wrong. -/
theorem Entry.position_apply {db : Tables} {e : Entry} (hv : e.Valid db) (p : Pair) :
    (e.apply db).position p = db.position p + balance (fun q => e.accepts q) p + e.slip p := by
  unfold Tables.position balance
  rw [claimed_apply hv, claimed_apply hv, receivable_apply hv, receivable_apply hv]
  cases e with
  | settle read claims cleared =>
    have hnet := balance_netting_self hv.1 p
    simp only [balance] at hnet
    simp only [accepts, slip, balance]
    omega
  | _ =>
    simp only [slip]
    omega

/-! ## Conservation -/

/-- What a commit takes off the receivable of `p`. -/
def clearedCents (c : Commit database Op) (p : Pair) : Int :=
  Tables.receivable c.before p - Tables.receivable c.after p

/-- **The condition under which settlement is right**: where a commit settles, each pair's
    balance of the receivables it deletes is that of the ones it read. -/
def clearsWhatItRead (_ : State X) (c : Commit database Op) : Bool :=
  c.tx.trace.all fun e =>
    match e with
    | ⟨.selectReceivables, read⟩ =>
      (read.map Prod.fst ++ (Tables.receivables c.before).rows.map Prod.fst).all fun p =>
        decide (balance (amountIn read) p = balance (clearedCents c) p)
    | _ => true

theorem Entry.slip_eq_zero {sh : State X} {call : CallId} {op : Op} {e : Entry}
    (hv : e.Valid sh.db) (h : clearsWhatItRead sh ⟨call, op, e.tx, sh.db⟩ = true) (p : Pair) :
    e.slip p = 0 := by
  cases e with
  | settle read claims cleared =>
    have hcleared : ∀ q, clearedCents ⟨call, op, (settle read claims cleared).tx, sh.db⟩ q =
        amountIn cleared q := by
      intro q
      have hafter : (⟨call, op, (settle read claims cleared).tx, sh.db⟩ :
          Commit database Op).after = (settle read claims cleared).apply sh.db :=
        applyWrites_tx _ sh.db
      rw [clearedCents, hafter, receivable_apply hv]
      simp only [accepts]
      omega
    have hread : (⟨.selectReceivables, read⟩ : Σ s : Stmt, s.Res) ∈
        (settle read claims cleared).tx.trace := by
      have key : ∀ (l : List (Nat × ClaimRow)) (t : Tx database),
          (⟨.selectReceivables, read⟩ : Σ s : Stmt, s.Res) ∈ t.trace →
            (⟨.selectReceivables, read⟩ : Σ s : Stmt, s.Res) ∈
              (l.foldl (fun t c => ran t (.insertClaim c.2) (1 : Nat) []
                [⟨.claim c.1, some c.2⟩]) t).trace := by
        intro l
        induction l with
        | nil => exact fun t ht => ht
        | cons c l ih => exact fun t ht => ih _ (List.mem_cons_of_mem _ ht)
      exact List.mem_cons_of_mem _ (key claims _ (List.mem_cons_self ..))
    have hall := List.all_eq_true.mp h _ hread
    simp only [List.all_eq_true, decide_eq_true_eq, balance, hcleared] at hall
    simp only [slip, balance]
    -- A pair none of whose directions was read or is there has nothing to settle.
    have hnone : ∀ q, q ∉ read.map Prod.fst ++ (Tables.receivables sh.db).rows.map Prod.fst →
        amountIn read q = 0 ∧ amountIn cleared q = 0 := by
      intro q hq
      rw [List.mem_append, not_or] at hq
      refine ⟨by rw [amountIn, lookup_of_notMem hq.1, Option.getD_none], ?_⟩
      rw [amountIn, lookup_of_notMem, Option.getD_none]
      intro hmem
      obtain ⟨r, hr, rfl⟩ := List.mem_map.mp hmem
      refine hq.2 (List.mem_map.mpr ⟨r, Table.mem_rows.mpr ?_, rfl⟩)
      exact hv.2.2.2.2.2.2 r hr
    by_cases h1 : p ∈ read.map Prod.fst ++ (Tables.receivables sh.db).rows.map Prod.fst
    · have := hall p h1
      omega
    · by_cases h2 : p.swap ∈ read.map Prod.fst ++ (Tables.receivables sh.db).rows.map Prod.fst
      · have := hall p.swap h2
        rw [Pair.swap_swap] at this
        omega
      · obtain ⟨h3, h4⟩ := hnone p h1
        obtain ⟨h5, h6⟩ := hnone p.swap h2
        omega
  | _ => rfl

/-- **Settlement conservation.** In every state of every run in which each settlement deletes
    what it read, what a bank is owed for accepted deposits less what it owes the same way is
    in the claims and the receivables, for every pair of banks. -/
theorem settlement_conserves
    (h : Sys.Steps (.commits fun sh c => clearsWhatItRead sh c = true) (start X) s) (p : Pair) :
    acceptedTotal s.shared.hist p - acceptedTotal s.shared.hist p.swap =
      (s.shared.db.claimed p - s.shared.db.claimed p.swap) +
        (s.shared.db.receivable p - s.shared.db.receivable p.swap) := by
  refine invariant (J := fun sh => acceptedTotal sh.hist p - acceptedTotal sh.hist p.swap =
    Tables.position sh.db p) h ?_ ?_ (fun h => h)
  · simp [acceptedTotal, Tables.position, balance, Tables.claimed, Tables.receivable,
      Tables.empty]
  · intro sh call op e _ hj hv hfrom hp
    rw [Entry.position_apply hv, Entry.slip_eq_zero hv hp]
    simp only [acceptedTotal, List.map_cons, List.sum_cons, Entry.acceptedCents_tx hfrom,
      balance] at hj ⊢
    omega

/-- A coin of `bank-a`, worth 64 cents. -/
def toySubmission (serialHex : String) : SerialSubmission :=
  ⟨"bank-a", 64, 0, serialHex, "t-" ++ serialHex⟩

/-- `bank-b` deposits a coin of `bank-a`, and the admin settles up to what is committed. -/
def settled : List (Event (service .toy)) :=
  opened ++ call (.postSerial "bank-b" (toySubmission "s1")) :: go 2 8 ++
    call (.postSettle "admin") :: go 3 7

/-- The admin settles one deposit; a second one stays receivable. -/
theorem settlement_conserves_twice : ∃ s : Sys (service .toy),
    s.shared.db.claimed ⟨"bank-a", "bank-b"⟩ = 64 ∧
      s.shared.db.receivable ⟨"bank-a", "bank-b"⟩ = 64 ∧
      acceptedTotal s.shared.hist ⟨"bank-a", "bank-b"⟩ -
          acceptedTotal s.shared.hist ⟨"bank-b", "bank-a"⟩ =
        (s.shared.db.claimed ⟨"bank-a", "bank-b"⟩ - s.shared.db.claimed ⟨"bank-b", "bank-a"⟩) +
          (s.shared.db.receivable ⟨"bank-a", "bank-b"⟩ -
            s.shared.db.receivable ⟨"bank-b", "bank-a"⟩) := by
  obtain ⟨s, hs, hp⟩ := Sys.exists_of_runGuarded (g := clearsWhatItRead) (s := start .toy)
    (l := settled ++ call (.postSerial "bank-b" (toySubmission "s2")) :: go 4 8)
    (p := fun s => s.shared.db.claimed ⟨"bank-a", "bank-b"⟩ = 64 ∧
      s.shared.db.receivable ⟨"bank-a", "bank-b"⟩ = 64) (by decide)
  obtain ⟨hclaimed, hreceivable⟩ := of_decide_eq_true hp
  exact ⟨s, hclaimed, hreceivable, settlement_conserves hs ⟨"bank-a", "bank-b"⟩⟩

/-- The settlement has read the first deposit when a second one is accepted, and deletes
    both. What is left says `bank-a` owes 64 cents; it owes 128. -/
theorem dropped_deposit : ∃ s : Sys (service .toy), Sys.Steps .any (start .toy) s ∧
    s.Quiescent ∧ ∃ p : Pair,
      acceptedTotal s.shared.hist p - acceptedTotal s.shared.hist p.swap = 128 ∧
      (s.shared.db.claimed p - s.shared.db.claimed p.swap) +
        (s.shared.db.receivable p - s.shared.db.receivable p.swap) = 64 := by
  obtain ⟨s, hs, hp⟩ := Sys.exists_of_run (s := start .toy)
    (l := opened ++ call (.postSerial "bank-b" (toySubmission "s1")) :: go 2 8 ++
      call (.postSettle "admin") :: go 3 4 ++
      call (.postSerial "bank-b" (toySubmission "s2")) :: go 4 8 ++ go 3 4)
    (p := fun s => (∀ i < s.next, (s.txOf i).isNone = true) ∧
      let p : Pair := ⟨"bank-a", "bank-b"⟩
      acceptedTotal s.shared.hist p - acceptedTotal s.shared.hist p.swap = 128 ∧
      (s.shared.db.claimed p - s.shared.db.claimed p.swap) +
        (s.shared.db.receivable p - s.shared.db.receivable p.swap) = 64) (by decide)
  obtain ⟨hq, htotals⟩ := of_decide_eq_true hp
  exact ⟨s, hs, (good hs).quiescent hq, ⟨"bank-a", "bank-b"⟩, htotals⟩

end Digicash.Registry
