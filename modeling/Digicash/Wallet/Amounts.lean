import Digicash.Lib.Change
import Digicash.Wallet.Code

/-!
# Amounts

What `decompose` makes of an amount, and what `selectExact` takes from the coins it is given.
The loops of the code are `change` and `greedy` on `u64`s; what makes them exact is that each
denomination divides the larger ones and the smallest is 1.

The definitions of the code subtract `u64`s as Lean does, which wraps around. That this never
happens, and that no loop runs out of steps, is said of the same loops with a subtraction that
fails (`decomposeChecked`, `selectFromChecked`).
-/

namespace Digicash.Wallet

open Lib

/-- What a coin is worth. -/
abbrev cents (coin : Coin) : ℕ := coin.denominationCents.toNat

/-- What coins are worth together. -/
def worth (coins : List Coin) : ℕ := (coins.map cents).sum

@[simp] theorem worth_nil : worth [] = 0 := rfl

@[simp] theorem worth_cons (coin : Coin) (coins : List Coin) :
    worth (coin :: coins) = cents coin + worth coins := rfl

/-! ## Denominations -/

theorem denomination_pos {d : UInt64} (h : d ∈ denominations) : 0 < d.toNat := by
  have hall : denominations.all (fun d => decide (0 < d.toNat)) = true := by decide
  exact of_decide_eq_true (List.all_eq_true.mp hall d h)

/-- The smaller one of two denominations divides the other. -/
theorem denomination_dvd {d d' : UInt64} (h : d ∈ denominations) (h' : d' ∈ denominations)
    (hle : d ≤ d') : d.toNat ∣ d'.toNat := by
  have hall : (denominations.all fun d => denominations.all fun d' =>
      decide (d ≤ d' → d.toNat ∣ d'.toNat)) = true := by decide
  exact of_decide_eq_true (List.all_eq_true.mp (List.all_eq_true.mp hall d h) d' h') hle

/-- The denominations, largest first, form a divisibility chain. -/
theorem descending_denominations :
    Descending id (denominations.reverse.map UInt64.toNat) := by decide

/-- A subtraction of `u64`s that fails where the result would be negative. -/
def checkedSub (a b : UInt64) : Option UInt64 := if b ≤ a then some (a - b) else none

theorem checkedSub_of_le {a b : UInt64} (h : b ≤ a) : checkedSub a b = some (a - b) := if_pos h

/-! ## Decomposing an amount -/

/-- `pushWhile`, failing where a subtraction does and where its steps run out. -/
def pushWhileChecked (denomination : UInt64) : ℕ → UInt64 → Option (List UInt64 × UInt64)
  | 0, remaining => if denomination ≤ remaining then none else some ([], remaining)
  | steps + 1, remaining =>
    if denomination ≤ remaining then do
      let remaining ← checkedSub remaining denomination
      let rest ← pushWhileChecked denomination steps remaining
      some (denomination :: rest.1, rest.2)
    else some ([], remaining)

def decomposeChecked : List UInt64 → UInt64 → Option (List UInt64)
  | [], _ => some []
  | denomination :: smaller, remaining => do
    let pushed ← pushWhileChecked denomination remaining.toNat remaining
    let rest ← decomposeChecked smaller pushed.2
    some (pushed.1 ++ rest)

theorem pushWhileChecked_eq {d : UInt64} (hd : 0 < d.toNat) : ∀ {steps : ℕ} (remaining : UInt64),
    remaining.toNat ≤ steps → pushWhileChecked d steps remaining = some (pushWhile d steps remaining)
  | 0, remaining, hsteps => by
    have hlt : ¬ d ≤ remaining := fun hle => by
      have := UInt64.le_iff_toNat_le.mp hle
      omega
    rw [pushWhileChecked, if_neg hlt, pushWhile]
  | steps + 1, remaining, hsteps => by
    unfold pushWhileChecked pushWhile
    by_cases hle : d ≤ remaining
    · have hsub : (remaining - d).toNat = remaining.toNat - d.toNat := UInt64.toNat_sub_of_le _ _ hle
      have ih := pushWhileChecked_eq hd (remaining - d) (show (remaining - d).toNat ≤ steps by omega)
      rw [if_pos hle, if_pos hle, checkedSub_of_le hle, Option.bind_eq_bind, Option.bind_some, ih]
      rfl
    · rw [if_neg hle, if_neg hle]

theorem decomposeChecked_eq : ∀ {ds : List UInt64} (remaining : UInt64), (∀ d ∈ ds, 0 < d.toNat) →
    decomposeChecked ds remaining = some (decomposeFrom ds remaining)
  | [], _, _ => rfl
  | d :: ds, remaining, hpos => by
    have hd := hpos d (List.mem_cons_self ..)
    have ih := decomposeChecked_eq (pushWhile d remaining.toNat remaining).2
      fun d' hd' => hpos d' (List.mem_cons_of_mem _ hd')
    rw [decomposeChecked, pushWhileChecked_eq hd remaining (Nat.le_refl _), Option.bind_eq_bind,
      Option.bind_some, ih]
    rfl

theorem pushWhile_eq {d : UInt64} (hd : 0 < d.toNat) : ∀ {fuel : ℕ} {remaining : UInt64},
    remaining.toNat ≤ fuel →
      pushWhile d fuel remaining = (List.replicate (remaining.toNat / d.toNat) d, remaining % d)
  | 0, remaining, hfuel => by
    have h0 : remaining = 0 := UInt64.toNat.inj (Nat.le_zero.mp hfuel)
    subst h0
    have hmod : (0 : UInt64) % d = 0 := UInt64.toNat.inj (by simp)
    simp [pushWhile, hmod]
  | fuel + 1, remaining, hfuel => by
    unfold pushWhile
    split
    · rename_i hle
      have hle' : d.toNat ≤ remaining.toNat := UInt64.le_iff_toNat_le.mp hle
      have hsub : (remaining - d).toNat = remaining.toNat - d.toNat := UInt64.toNat_sub_of_le _ _ hle
      have hmod : (remaining - d) % d = remaining % d := by
        refine UInt64.toNat.inj ?_
        rw [UInt64.toNat_mod, UInt64.toNat_mod, hsub]
        exact (Nat.mod_eq_sub_mod hle').symm
      have hdiv : remaining.toNat / d.toNat = (remaining.toNat - d.toNat) / d.toNat + 1 :=
        Nat.div_eq_sub_div hd hle'
      rw [pushWhile_eq hd (by omega), hsub, hmod, hdiv]
      rfl
    · rename_i hlt
      have hlt' : remaining.toNat < d.toNat :=
        Nat.not_le.mp fun h => hlt (UInt64.le_iff_toNat_le.mpr h)
      have hmod : remaining % d = remaining := by
        refine UInt64.toNat.inj ?_
        rw [UInt64.toNat_mod, Nat.mod_eq_of_lt hlt']
      rw [Nat.div_eq_of_lt hlt', hmod]
      rfl

/-- The loop over the denominations is `change`. -/
theorem map_decomposeFrom : ∀ {ds : List UInt64} (remaining : UInt64), (∀ d ∈ ds, 0 < d.toNat) →
    (decomposeFrom ds remaining).map UInt64.toNat = change (ds.map UInt64.toNat) remaining.toNat
  | [], _, _ => rfl
  | d :: ds, remaining, hpos => by
    have hd := hpos d (List.mem_cons_self ..)
    rw [decomposeFrom, pushWhile_eq hd (Nat.le_refl _), List.map_append, List.map_replicate,
      map_decomposeFrom _ fun d' hd' => hpos d' (List.mem_cons_of_mem _ hd'), UInt64.toNat_mod]
    rfl

theorem mem_denominations_of_mem_reverse {d : UInt64} (h : d ∈ denominations.reverse) :
    d ∈ denominations := List.mem_reverse.mp h

theorem map_decompose (amount : UInt64) : (decompose amount).map UInt64.toNat =
    change (denominations.reverse.map UInt64.toNat) amount.toNat :=
  map_decomposeFrom amount fun _ hd => denomination_pos (mem_denominations_of_mem_reverse hd)

/-- A decomposition adds up to the amount. -/
theorem sum_decompose (amount : UInt64) :
    ((decompose amount).map UInt64.toNat).sum = amount.toNat := by
  rw [map_decompose]
  exact sum_change _ (by decide)

theorem mem_decomposeFrom : ∀ {ds : List UInt64} {remaining d : UInt64},
    (∀ d ∈ ds, 0 < d.toNat) → d ∈ decomposeFrom ds remaining → d ∈ ds
  | [], _, _, _, h => h
  | d' :: ds, remaining, d, hpos, h => by
    rw [decomposeFrom, pushWhile_eq (hpos d' (List.mem_cons_self ..)) (Nat.le_refl _)] at h
    rcases List.mem_append.mp h with h | h
    · obtain ⟨-, rfl⟩ := List.mem_replicate.mp h
      exact List.mem_cons_self ..
    · exact List.mem_cons_of_mem _
        (mem_decomposeFrom (fun d hd => hpos d (List.mem_cons_of_mem _ hd)) h)

theorem mem_decompose {amount d : UInt64} (h : d ∈ decompose amount) : d ∈ denominations :=
  mem_denominations_of_mem_reverse
    (mem_decomposeFrom (fun _ hd => denomination_pos (mem_denominations_of_mem_reverse hd)) h)

/-- **A decomposition is exact and as short as any.** It ends without an underflow, and its parts
    are denominations in descending order that add up to the amount; no denominations that add up
    to it are fewer. -/
theorem decompose_minimal (amount : UInt64) :
    decomposeChecked denominations.reverse amount = some (decompose amount) ∧
      (decompose amount).Pairwise (· ≥ ·) ∧ (∀ d ∈ decompose amount, d ∈ denominations) ∧
      ((decompose amount).map UInt64.toNat).sum = amount.toNat ∧
      ∀ parts : List UInt64, (∀ d ∈ parts, d ∈ denominations) →
        (parts.map UInt64.toNat).sum = amount.toNat → (decompose amount).length ≤ parts.length := by
  refine ⟨?_, ?_, fun d hd => mem_decompose hd, sum_decompose amount, fun parts hparts hsum => ?_⟩
  · exact decomposeChecked_eq amount fun d hd => denomination_pos (mem_denominations_of_mem_reverse hd)
  · have hchange : (change (denominations.reverse.map UInt64.toNat) amount.toNat).Pairwise (· ≥ ·) :=
      pairwise_change _ (by decide)
    rw [← map_decompose, List.pairwise_map] at hchange
    exact hchange.imp fun h => UInt64.le_iff_toNat_le.mpr h
  · have hpos : ∀ d ∈ denominations.reverse.map UInt64.toNat, 0 < d := by decide
    have hmem : ∀ d ∈ parts.map UInt64.toNat, d ∈ denominations.reverse.map UInt64.toNat := by
      intro d hd
      obtain ⟨d', hd', rfl⟩ := List.mem_map.mp hd
      exact List.mem_map_of_mem (List.mem_reverse.mpr (hparts d' hd'))
    have hle := length_change_le descending_denominations hpos hmem
    rw [hsum, ← map_decompose, List.length_map, List.length_map] at hle
    exact hle

/-! ## Selecting coins -/

theorem selectFrom_sublist : ∀ (coins : List Coin) (remaining : UInt64),
    ((selectFrom coins remaining).1).Sublist coins
  | [], _ => .slnil
  | coin :: coins, remaining => by
    unfold selectFrom
    split
    · split
      · exact .cons_cons coin (List.nil_sublist coins)
      · exact .cons_cons coin (selectFrom_sublist coins _)
    · exact .cons coin (selectFrom_sublist coins _)

/-- The loop over the coins is `greedy`, since what it does not look at does not fit. -/
theorem selectFrom_eq : ∀ {coins : List Coin} (remaining : UInt64),
    (∀ coin ∈ coins, 0 < cents coin) →
      (selectFrom coins remaining).1 = (greedy cents coins remaining.toNat).1 ∧
        (selectFrom coins remaining).2.toNat = (greedy cents coins remaining.toNat).2
  | [], _, _ => ⟨rfl, rfl⟩
  | coin :: coins, remaining, hpos => by
    have hpos' : ∀ c ∈ coins, 0 < cents c := fun c hc => hpos c (List.mem_cons_of_mem _ hc)
    unfold selectFrom greedy
    by_cases hle : coin.denominationCents ≤ remaining
    · have hle' : cents coin ≤ remaining.toNat := UInt64.le_iff_toNat_le.mp hle
      have hsub : (remaining - coin.denominationCents).toNat = remaining.toNat - cents coin :=
        UInt64.toNat_sub_of_le _ _ hle
      rw [if_pos hle, if_pos hle', ← hsub]
      by_cases h0 : remaining - coin.denominationCents = 0
      · rw [if_pos h0, h0]
        simp [greedy_zero cents hpos']
      · obtain ⟨h1, h2⟩ := selectFrom_eq (remaining - coin.denominationCents) hpos'
        rw [if_neg h0, ← h1, ← h2]
        exact ⟨rfl, rfl⟩
    · have hle' : ¬ cents coin ≤ remaining.toNat := fun h => hle (UInt64.le_iff_toNat_le.mpr h)
      rw [if_neg hle, if_neg hle']
      exact selectFrom_eq remaining hpos'

/-- `sorted` is what a sort by descending denomination may make of `coins`; an unstable one gives
    coins of one denomination any order. -/
structure SortsTo (coins sorted : List Coin) : Prop where
  perm : sorted.Perm coins
  descending : sorted.Pairwise fun a b => b.denominationCents ≤ a.denominationCents

/-- `selectExact` after its sort. -/
def selectSorted (sorted : List Coin) (amount : UInt64) : Option (List Coin) :=
  let selected := selectFrom sorted amount
  if selected.2 = 0 then some selected.1 else none

theorem sortsTo_sortByDenomination (coins : List Coin) :
    SortsTo coins (sortByDenomination coins) := by
  have htotal : Std.Total fun a b : Coin => b.denominationCents ≤ a.denominationCents :=
    ⟨fun a b => UInt64.le_total ..⟩
  have htrans : IsTrans Coin fun a b => b.denominationCents ≤ a.denominationCents :=
    ⟨fun a b c hab hbc => UInt64.le_trans hbc hab⟩
  exact ⟨List.perm_insertionSort _ coins, List.pairwise_insertionSort _ coins⟩

theorem selectExact_eq (coins : List Coin) (amount : UInt64) :
    selectExact coins amount = selectSorted (sortByDenomination coins) amount := rfl

/-- `selectFrom`, failing where a subtraction does. -/
def selectFromChecked : List Coin → UInt64 → Option (List Coin × UInt64)
  | [], remaining => some ([], remaining)
  | coin :: coins, remaining =>
    if coin.denominationCents ≤ remaining then do
      let remaining ← checkedSub remaining coin.denominationCents
      if remaining = 0 then some ([coin], 0)
      else
        let rest ← selectFromChecked coins remaining
        some (coin :: rest.1, rest.2)
    else selectFromChecked coins remaining

theorem selectFromChecked_eq : ∀ (coins : List Coin) (remaining : UInt64),
    selectFromChecked coins remaining = some (selectFrom coins remaining)
  | [], _ => rfl
  | coin :: coins, remaining => by
    unfold selectFromChecked selectFrom
    by_cases hle : coin.denominationCents ≤ remaining
    · rw [if_pos hle, if_pos hle, checkedSub_of_le hle, Option.bind_eq_bind, Option.bind_some]
      by_cases h0 : remaining - coin.denominationCents = 0
      · rw [if_pos h0, if_pos h0]
      · rw [if_neg h0, if_neg h0, selectFromChecked_eq coins]
        rfl
    · rw [if_neg hle, if_neg hle]
      exact selectFromChecked_eq coins remaining

variable {coins sorted selected : List Coin} {amount : UInt64}

theorem SortsTo.mem (hsort : SortsTo coins sorted)
    (h : ∀ coin ∈ coins, coin.denominationCents ∈ denominations) :
    ∀ coin ∈ sorted, coin.denominationCents ∈ denominations :=
  fun coin hc => h coin (hsort.perm.mem_iff.mp hc)

/-- Sorted, coins of the denominations form a divisibility chain. -/
theorem SortsTo.chain (hsort : SortsTo coins sorted)
    (h : ∀ coin ∈ coins, coin.denominationCents ∈ denominations) : Descending cents sorted :=
  hsort.descending.imp_of_mem fun ha hb hle =>
    denomination_dvd (hsort.mem h _ hb) (hsort.mem h _ ha) hle

/-- What is selected is taken from what there is, each coin once. -/
theorem selectSorted_subperm (hsort : SortsTo coins sorted)
    (h : selectSorted sorted amount = some selected) : selected.Subperm coins := by
  simp only [selectSorted] at h
  split at h
  · obtain rfl := Option.some.inj h
    exact (selectFrom_sublist _ _).subperm.trans hsort.perm.subperm
  · exact absurd h (by simp)

/-- And it makes the amount. -/
theorem selectSorted_worth (hpos : ∀ coin ∈ sorted, 0 < cents coin)
    (h : selectSorted sorted amount = some selected) : worth selected = amount.toNat := by
  simp only [selectSorted] at h
  split at h
  · rename_i hzero
    obtain rfl := Option.some.inj h
    obtain ⟨h1, h2⟩ := selectFrom_eq amount hpos
    have htotal := greedy_sum cents sorted amount.toNat
    rw [← h1, ← h2, hzero] at htotal
    exact htotal
  · exact absurd h (by simp)

/-- Where some of the coins make the amount, coins are selected. -/
theorem selectSorted_complete {part : List Coin} (hsort : SortsTo coins sorted)
    (h : ∀ coin ∈ coins, coin.denominationCents ∈ denominations) (hsub : part.Subperm coins)
    (hworth : worth part = amount.toNat) : ∃ selected, selectSorted sorted amount = some selected := by
  have hpos : ∀ coin ∈ sorted, 0 < cents coin := fun coin hc => denomination_pos (hsort.mem h coin hc)
  obtain ⟨s, hperm, hs⟩ := hsub.trans hsort.perm.symm.subperm
  have hsum : (s.map cents).sum = amount.toNat := ((hperm.map cents).sum_eq).trans hworth
  obtain ⟨-, h2⟩ := selectFrom_eq amount hpos
  have hrest := greedy_exact (hsort.chain h) hpos hs
  rw [hsum] at hrest
  have hzero : (selectFrom sorted amount).2 = 0 := UInt64.toNat.inj (h2.trans hrest)
  exact ⟨_, if_pos hzero⟩

/-- **Selecting is sound and complete for coins of the denominations.** Whatever order the sort
    gives coins of one denomination, coins are selected exactly where some of the given coins make
    the amount; then they are taken from the given coins, each once, and make the amount. No
    subtraction underflows. -/
theorem selectSorted_iff (hcoins : ∀ coin ∈ coins, coin.denominationCents ∈ denominations)
    (hsort : SortsTo coins sorted) (amount : UInt64) :
    ((∃ selected, selectSorted sorted amount = some selected) ↔
        ∃ part : List Coin, part.Subperm coins ∧ worth part = amount.toNat) ∧
      (∀ selected, selectSorted sorted amount = some selected →
        selected.Subperm coins ∧ worth selected = amount.toNat) ∧
      selectFromChecked sorted amount = some (selectFrom sorted amount) := by
  have hsound : ∀ selected, selectSorted sorted amount = some selected →
      selected.Subperm coins ∧ worth selected = amount.toNat := fun selected h =>
    ⟨selectSorted_subperm hsort h,
      selectSorted_worth (fun coin hc => denomination_pos (hsort.mem hcoins coin hc)) h⟩
  refine ⟨⟨?_, ?_⟩, hsound, selectFromChecked_eq sorted amount⟩
  · rintro ⟨selected, h⟩
    exact ⟨selected, hsound selected h⟩
  · rintro ⟨part, hsub, hworth⟩
    exact selectSorted_complete hsort hcoins hsub hworth

/-- A coin of each of three denominations, as `selectExact` sorts them. -/
theorem selectSorted_iff_six : ∃ coins : List Coin,
    (∃ selected, selectExact coins 6 = some selected) ∧
      ∃ part : List Coin, part.Subperm coins ∧ worth part = 6 := by
  let coin := fun d : UInt64 => (⟨0, d, ⟨List.replicate 32 0, rfl⟩, []⟩ : Coin)
  have hcoins : ∀ c ∈ [coin 2, coin 8, coin 4], c.denominationCents ∈ denominations := by
    simp only [coin]
    decide
  obtain ⟨hiff, -⟩ := selectSorted_iff hcoins (sortsTo_sortByDenomination _) 6
  have hsome : ∃ selected, selectExact [coin 2, coin 8, coin 4] 6 = some selected :=
    Option.isSome_iff_exists.mp (by decide)
  exact ⟨_, hsome, hiff.mp hsome⟩

theorem selectExact_subperm (h : selectExact coins amount = some selected) :
    selected.Subperm coins := by
  rw [selectExact_eq] at h
  exact selectSorted_subperm (sortsTo_sortByDenomination coins) h

/-- Where some of the coins make the amount, the coins selected do. -/
theorem selectExact_complete {part : List Coin}
    (h : ∀ coin ∈ coins, coin.denominationCents ∈ denominations) (hsub : part.Subperm coins)
    (hworth : worth part = amount.toNat) :
    ∃ selected, selectExact coins amount = some selected ∧ worth selected = amount.toNat := by
  have hsort := sortsTo_sortByDenomination coins
  obtain ⟨selected, hsel⟩ := selectSorted_complete hsort h hsub hworth
  rw [selectExact_eq]
  exact ⟨selected, hsel,
    selectSorted_worth (fun coin hc => denomination_pos (hsort.mem h coin hc)) hsel⟩

end Digicash.Wallet
