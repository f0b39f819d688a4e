import Digicash.Bank.KeyFiles

/-!
# A bank and its key directory

`main` opens the key directory and serves with what it came up with, so a bank that is restarted
is the service of `Bank.Server` over the processes of `Bank.KeyFiles`. Every such run is one of
the service in which no restart changes the keys (`restarts_keep_keys`): what is proved of those
runs needs no promise about restarts.
-/

namespace Digicash.Bank

open Lib Lib.Directory

variable {X : Crypto} {P : Provider X}

/-- The key directory, and the bank once it has served. -/
structure Host (P : Provider X) where
  dir : Programs.State (starts P)
  bank : Option (Sys (service X))

inductive HostEvent (P : Provider X) where
  | dir (e : Programs.Event (starts P))
  | bank (e : Event (service X))
  /-- The start that ended there, counting from the latest, takes over with this registry
      client. -/
  | serve (n : Nat) (registryClient : Option RegistryClient)

namespace Host

/-- Nothing was ever started. -/
def idle (f : KeyFiles P) : Host P := ⟨Programs.idle (starts P) f, none⟩

/-- A process that takes over ends what the one before it had in flight. -/
def takeOver (bank : Option (Sys (service X))) (κ : Config X) : Option (Sys (service X)) :=
  match bank with
  | none => some (start κ)
  | some t => t.step (.crash κ)

/-- The bank is started for these denominations, always. -/
def step (denominations : List UInt64) (s : Host P) : HostEvent P → Option (Host P)
  | .dir e => (Programs.step s.dir e).map fun dir => { s with dir }
  | .bank (.crash _) => none
  | .bank e => (s.bank.bind fun t => t.step e).map fun t => { s with bank := some t }
  | .serve n registryClient =>
    match s.dir.ended[n]? with
    | some (denominations', .ok (keys, _)) =>
      if denominations' = denominations then
        (takeOver s.bank ⟨keys, registryClient⟩).map fun t => { s with bank := some t }
      else none
    | _ => none

/-- The runs in which the key directory is treated with care. -/
def Steps (denominations : List UInt64) (s s' : Host P) : Prop :=
  Relation.ReflTransGen (fun s s' => ∃ e, step denominations s e = some s' ∧
    ∀ d, e = .dir d → Programs.Careful s.dir d) s s'

variable {denominations : List UInt64} {f₀ : KeyFiles P} {s s' : Host P}

/-- What the bank serves with came out of the key directory, and restarts have not changed it. -/
structure Kept (denominations : List UInt64) (f₀ : KeyFiles P) (s : Host P) : Prop where
  dir : Programs.Steps (Programs.idle (starts P) f₀) s.dir
  bank : ∀ t, s.bank = some t → (∃ κ, Sys.Steps sameKeys (start κ) t) ∧
    ∃ ca, (denominations, .ok (t.conf.keys, ca)) ∈ s.dir.ended

theorem kept_step (hP : P.Documented) (hpub : Published f₀) (h : Kept denominations f₀ s)
    {e : HostEvent P} (hs : step denominations s e = some s')
    (hcareful : ∀ d, e = .dir d → Programs.Careful s.dir d) : Kept denominations f₀ s' := by
  cases e with
  | dir e =>
    obtain ⟨dir, hdir, rfl⟩ := Option.map_eq_some_iff.mp hs
    refine ⟨h.dir.tail ⟨e, hdir, hcareful e rfl⟩, fun t ht => ?_⟩
    obtain ⟨hsteps, ca, hca⟩ := h.bank t ht
    exact ⟨hsteps, ca, Programs.ended_step hdir hca⟩
  | bank e =>
    have hstep : (∀ κ, e ≠ .crash κ) ∧ (s.bank.bind fun t => t.step e).map
        (fun t => { s with bank := some t }) = some s' := by
      cases e with
      | crash κ => cases hs
      | _ => exact ⟨fun _ he => by (cases he), hs⟩
    obtain ⟨hnot, hs⟩ := hstep
    obtain ⟨t', ht', rfl⟩ := Option.map_eq_some_iff.mp hs
    obtain ⟨t, ht, htt'⟩ := Option.bind_eq_some_iff.mp ht'
    obtain ⟨⟨κ, hsteps⟩, ca, hca⟩ := h.bank t ht
    have hconf : t'.conf = t.conf := (Sys.conf_step htt').resolve_right (hnot _)
    refine ⟨h.dir, fun t'' he => ?_⟩
    obtain rfl := Option.some.inj he
    refine ⟨⟨κ, hsteps.tail ⟨e, htt', fun κ' he => absurd he (hnot κ'), fun _ _ => trivial⟩⟩,
      ca, ?_⟩
    rw [hconf]
    exact hca
  | serve n registryClient =>
    simp only [step] at hs
    split at hs
    · rename_i denominations' keys ca hended
      split at hs
      · rename_i hsame
        subst hsame
        have hmem := List.mem_of_getElem? hended
        obtain ⟨t', ht', rfl⟩ := Option.map_eq_some_iff.mp hs
        refine ⟨h.dir, fun t'' he => ?_⟩
        obtain rfl := Option.some.inj he
        cases hbank : s.bank with
        | none =>
          rw [hbank] at ht'
          obtain rfl := Option.some.inj ht'
          exact ⟨⟨_, .refl⟩, ca, hmem⟩
        | some t =>
          rw [hbank] at ht'
          have ht' : t.step (.crash ⟨keys, registryClient⟩) = some t' := ht'
          obtain ⟨⟨κ, hsteps⟩, ca', hca'⟩ := h.bank t hbank
          -- Both are what the files say.
          have hsound := starts_sound hP hpub h.dir
          obtain ⟨hkeys, -⟩ := hsound.ended _ hmem (keys, ca) rfl
          obtain ⟨hkeys', -⟩ := hsound.ended _ hca' (t.conf.keys, ca') rfl
          have hsame : keys = t.conf.keys := by
            cases keys
            cases hk : t.conf.keys
            rw [hk] at hkeys'
            exact congrArg KeyStore.mk (Option.some.inj (hkeys.symm.trans hkeys'))
          refine ⟨⟨κ, hsteps.tail ⟨_, ht', fun κ' he => ?_, fun _ _ => trivial⟩⟩, ca, ?_⟩
          · obtain rfl := Event.crash.inj he
            exact hsame
          · rw [← Option.some.inj ht']
            exact hmem
      · cases hs
    · cases hs

theorem kept_steps (hP : P.Documented) (hpub : Published f₀)
    (h : Steps denominations (idle f₀) s) : Kept denominations f₀ s := by
  induction h with
  | refl => exact ⟨.refl, fun t ht => by cases ht⟩
  | tail _ hstep ih =>
    obtain ⟨e, hs, hcareful⟩ := hstep
    exact kept_step hP hpub ih hs hcareful

/-- **Restarts keep the keys.** In every run of a bank over its key directory, whatever is killed
    and whatever fails: the bank is in a state of a run whose restarts change no key, it serves
    with the keys that the files say now, and every withdrawal, whenever it was signed, carries
    the signature that these keys make. -/
theorem restarts_keep_keys (hP : P.Documented) (hpub : Published f₀)
    (h : Steps denominations (idle f₀) s) {t : Sys (service X)} (ht : s.bank = some t) :
    (∃ κ, Sys.Steps sameKeys (start κ) t) ∧
      readKeys s.dir.files denominations ∅ = some t.conf.keys.keys ∧
        ∀ r row, t.shared.db.withdrawStates.lookup r = some row → row.Backed t.conf := by
  have hkept := kept_steps hP hpub h
  obtain ⟨⟨κ, hsteps⟩, ca, hca⟩ := hkept.bank t ht
  obtain ⟨hkeys, -⟩ := (starts_sound hP hpub hkept.dir).ended _ hca (t.conf.keys, ca) rfl
  exact ⟨⟨κ, hsteps⟩, hkeys, fun r row hl => ((backed hsteps).2 r row hl).congr (backed hsteps).1⟩

/-- A run in which starts are unhurried. -/
def run (denominations : List UInt64) : Host P → List (HostEvent P) → Option (Host P)
  | s, [] => some s
  | s, .dir e :: l =>
    if unhurried s.dir e then (step denominations s (.dir e)).bind fun s' => run denominations s' l
    else none
  | s, e :: l => (step denominations s e).bind fun s' => run denominations s' l

theorem steps_of_run : ∀ {l : List (HostEvent P)} {s s' : Host P},
    run denominations s l = some s' → Steps denominations s s' := by
  intro l
  induction l with
  | nil =>
    intro s s' h
    obtain rfl := Option.some.inj h
    exact .refl
  | cons e l ih =>
    intro s s' h
    have hstep : (∀ d, e = .dir d → Programs.Careful s.dir d) ∧
        ((step denominations s e).bind fun s' => run denominations s' l) = some s' := by
      cases e with
      | dir e =>
        rw [run] at h
        split at h
        · refine ⟨fun d he => ?_, h⟩
          obtain rfl := HostEvent.dir.inj he
          exact careful_of_unhurried ‹_›
        · cases h
      | _ => exact ⟨fun _ he => by (cases he), h⟩
    obtain ⟨s₁, hs₁, hrest⟩ := Option.bind_eq_some_iff.mp hstep.2
    exact .head ⟨e, hs₁, hstep.1⟩ (ih hrest)

/-- A coin is signed, and then the bank is restarted. -/
def restarted : List (HostEvent Provider.toy) :=
  (.start 1 [100] :: stepsOf 1 true 16).map .dir ++ .serve 0 none ::
    (opened ++ call (.withdraw ⟨"alice", "r", 100, [7]⟩) :: go 2 9).map .bank ++
      (.start 2 [100] :: stepsOf 2 false 12).map .dir ++ [.serve 0 none]

theorem restarts_keep_keys_signed : ∃ (s : Host Provider.toy) (t : Sys (service .toy)),
    s.bank = some t ∧ t.shared.db.withdrawStates.lookup "r" =
      some ⟨.completed, "alice", 100, [7], some [7]⟩ ∧
        ∀ r row, t.shared.db.withdrawStates.lookup r = some row → row.Backed t.conf := by
  have hrun : (run [100] (idle (P := Provider.toy) ∅) restarted).any (fun s => s.bank.any fun t =>
      decide (t.shared.db.withdrawStates.lookup "r" =
        some ⟨.completed, "alice", 100, [7], some [7]⟩)) = true := by decide +kernel
  obtain ⟨s, hs, hp⟩ := (Option.any_eq_true _ _).mp hrun
  obtain ⟨t, ht, hrow⟩ := (Option.any_eq_true _ _).mp hp
  exact ⟨s, t, ht, of_decide_eq_true hrow, (restarts_keep_keys Provider.toy_documented
    published_empty (steps_of_run hs) ht).2.2⟩

end Host

end Digicash.Bank
