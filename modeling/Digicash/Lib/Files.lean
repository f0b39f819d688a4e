import Digicash.Lib.Prog
import Digicash.Lib.Table
import Mathlib.Data.List.Basic
import Mathlib.Logic.Relation

/-!
# Programs over the files of a directory

Processes that share a directory, each a program that issues one file operation after the other.
A file is written byte by byte, and a process can be killed between any two operations: what it
leaves is what the next one finds.

A process relies on some files being left alone, and is known to write some (`Footprint`).
`Does` is what a program achieves under that discipline: as long as nobody else writes what it
relies on, it writes nothing but what it may, keeps the invariant of the directory with every
single operation, and ends with `Q`. Because the others leave alone what it reads, a program is
proved by running it from the files as it found them. `Programs.sound` puts the processes
together: where no start gets in the way of one in progress, the invariant holds in every
reachable state, killed processes and failed operations included, and what a process ended with
stays true of the files.
-/

namespace Lib

/-- The names of the files, and what is asked of the outside. -/
structure Directory where
  Path : Type
  Ask : Type
  Reply : Ask → Type
  [decPath : DecidableEq Path]

instance (D : Directory) : DecidableEq D.Path := D.decPath

namespace Directory

/-- What is in each file. -/
abbrev Files (D : Directory) := Table D.Path (List UInt8)

inductive Cmd (D : Directory) where
  /-- Whether the file is there. -/
  | found (p : D.Path)
  | read (p : D.Path)
  /-- Open for writing, as an empty file. -/
  | create (p : D.Path)
  /-- Write the next byte. -/
  | write (p : D.Path) (offset : Nat) (b : UInt8)
  | rename (p q : D.Path)
  | ask (q : D.Ask)

variable {D : Directory} {α β ε : Type}

@[reducible] def Cmd.Reply : Cmd D → Type
  | .found _ => Bool
  | .read _ => Except String (List UInt8)
  | .create _ => Except String Unit
  | .write _ _ _ => Except String Unit
  | .rename _ _ => Except String Unit
  | .ask q => D.Reply q

/-- What is left to chance: whether the operation fails, and what the outside replies. -/
structure Chance (D : Directory) where
  fault : Option String
  reply : (q : D.Ask) → D.Reply q

def notFound : String := "No such file or directory (os error 2)"

/-- A byte over what is there, or after it. -/
def overwrite (data : List UInt8) (offset : Nat) (b : UInt8) : List UInt8 :=
  (data.take offset).rightpad offset 0 ++ b :: data.drop (offset + 1)

/-- One operation. One that fails does nothing; looking for a file then says that it is not
    there. -/
def exec : (c : Cmd D) → Chance D → D.Files → c.Reply × D.Files
  | .found p, o, f => (o.fault.isNone && (f.lookup p).isSome, f)
  | .read p, o, f =>
    (match o.fault, f.lookup p with
      | some e, _ => .error e
      | none, none => .error notFound
      | none, some data => .ok data, f)
  | .create p, o, f =>
    match o.fault with
    | some e => (.error e, f)
    | none => (.ok (), f.put p (some []))
  | .write p offset b, o, f =>
    match o.fault with
    | some e => (.error e, f)
    | none => (.ok (), f.put p (some (overwrite ((f.lookup p).getD []) offset b)))
  | .rename p q, o, f =>
    match o.fault, f.lookup p with
    | some e, _ => (.error e, f)
    | none, none => (.error notFound, f)
    | none, some data => (.ok (), (f.put p none).put q (some data))
  | .ask q, o, f => (o.reply q, f)

/-- The outcomes that a run is about: looking for a file does not fail. -/
def Cmd.Steady : Cmd D → Chance D → Prop
  | .found _, o => o.fault = none
  | _, _ => True

instance (c : Cmd D) (o : Chance D) : Decidable (c.Steady o) := by
  cases c <;> unfold Cmd.Steady <;> infer_instance

/-- The files the operation looks at. -/
def Cmd.Looks : Cmd D → D.Path → Prop
  | .found p, r => r = p
  | .read p, r => r = p
  | .write p _ _, r => r = p
  | .rename p _, r => r = p
  | _, _ => False

/-- The files it can change. -/
def Cmd.Changes : Cmd D → D.Path → Prop
  | .create p, r => r = p
  | .write p _ _, r => r = p
  | .rename p q, r => r = p ∨ r = q
  | _, _ => False

/-- An operation changes no other file. -/
theorem exec_frame {c : Cmd D} {o : Chance D} {f : D.Files} {r : D.Path} (h : ¬ c.Changes r) :
    (exec c o f).2.lookup r = f.lookup r := by
  cases c with
  | found p => rfl
  | read p => rfl
  | ask q => rfl
  | create p =>
    simp only [exec]
    split
    · rfl
    · exact Table.lookup_put_ne h
  | write p offset b =>
    simp only [exec]
    split
    · rfl
    · exact Table.lookup_put_ne h
  | rename p q =>
    simp only [exec]
    split
    · rfl
    · rfl
    · rw [Table.lookup_put_ne fun he => h (Or.inr he), Table.lookup_put_ne fun he => h (Or.inl he)]

/-- The same files, as far as these go. -/
def Agree (R : D.Path → Prop) (f f' : D.Files) : Prop := ∀ p, R p → f'.lookup p = f.lookup p

theorem Agree.refl {R : D.Path → Prop} {f : D.Files} : Agree R f f := fun _ _ => rfl

theorem Agree.trans {R : D.Path → Prop} {f g h : D.Files} (hfg : Agree R f g)
    (hgh : Agree R g h) : Agree R f h := fun p hp => (hgh p hp).trans (hfg p hp)

theorem Agree.symm {R : D.Path → Prop} {f g : D.Files} (h : Agree R f g) : Agree R g f :=
  fun p hp => (h p hp).symm

theorem Agree.put {R : D.Path → Prop} {f g : D.Files} (h : Agree R f g) (p : D.Path)
    (data : Option (List UInt8)) : Agree R (f.put p data) (g.put p data) := by
  intro r hr
  rw [Table.lookup_put, Table.lookup_put, h r hr]

/-- On files that agree where an operation looks, it replies the same and they agree as before. -/
theorem exec_agree {R : D.Path → Prop} {c : Cmd D} {o : Chance D} {f g : D.Files}
    (hlooks : ∀ p, c.Looks p → R p) (h : Agree R f g) :
    (exec c o g).1 = (exec c o f).1 ∧ Agree R (exec c o f).2 (exec c o g).2 := by
  cases c with
  | found p => exact ⟨by simp only [exec, h p (hlooks p rfl)], h⟩
  | read p => exact ⟨by simp only [exec, h p (hlooks p rfl)], h⟩
  | ask q => exact ⟨rfl, h⟩
  | create p =>
    simp only [exec]
    split
    · exact ⟨rfl, h⟩
    · exact ⟨rfl, h.put p _⟩
  | write p offset b =>
    simp only [exec, h p (hlooks p rfl)]
    split
    · exact ⟨rfl, h⟩
    · exact ⟨rfl, h.put p _⟩
  | rename p q =>
    simp only [exec, h p (hlooks p rfl)]
    split
    · exact ⟨rfl, h⟩
    · exact ⟨rfl, h⟩
    · exact ⟨rfl, (h.put p none).put q _⟩

/-! ## Programs -/

abbrev Code (D : Directory) (α : Type) := Prog (Cmd.Reply (D := D)) α

/-- Code that can fail. -/
abbrev FileM (D : Directory) (ε α : Type) := ExceptT ε (Prog (Cmd.Reply (D := D))) α

/-- Issue an operation that cannot fail. -/
def look (c : Cmd D) : FileM D ε c.Reply := ExceptT.mk (.cmd c fun r => .pure (.ok r))

/-- Fail as it fails, the error wrapped. -/
def orIo (wrap : String → ε) (x : Code D (Except String α)) : FileM D ε α :=
  ExceptT.mk (x >>= fun r => .pure (r.mapError wrap))

/-- Fail unless the result is there. -/
def orFail (x : Except ε α) : FileM D ε α := ExceptT.mk (.pure x)

/-- The bytes, from this offset on. -/
def writeFrom (p : D.Path) : Nat → List UInt8 → Code D (Except String Unit)
  | _, [] => .pure (.ok ())
  | offset, b :: rest => .cmd (.write p offset b) fun r =>
    match r with
    | .ok () => writeFrom p (offset + 1) rest
    | .error e => .pure (.error e)

/-- `fs::write`: make the file empty, and write it. -/
def writeFile (p : D.Path) (data : List UInt8) : Code D (Except String Unit) :=
  .cmd (.create p) fun r =>
    match r with
    | .ok () => writeFrom p 0 data
    | .error e => .pure (.error e)

/-- What a process relies on being left alone, and what it may write. -/
structure Footprint (D : Directory) where
  Relies : D.Path → Prop
  Writes : D.Path → Prop

section Does

variable (F : Footprint D) (I : D.Files → Prop)

/-- The program does its part from files such as these, and ends with `Q`. -/
def Does (Q : α → D.Files → Prop) : Code D α → D.Files → Prop
  | .pure a, f => ∀ g, Agree F.Relies f g → I g → Q a g
  | .cmd c k, f => ∀ g, Agree F.Relies f g → I g → ∀ o, c.Steady o →
    (∀ p, ¬ F.Writes p → (exec c o g).2.lookup p = g.lookup p) ∧ I (exec c o g).2 ∧
      Does Q (k (exec c o g).1) (exec c o g).2

variable {F I} {Q : α → D.Files → Prop} {x : Code D α} {f g : D.Files}

/-- The others change nothing about it. -/
theorem Does.agree (h : Does F I Q x f) (hfg : Agree F.Relies f g) : Does F I Q x g := by
  cases x with
  | pure a => exact fun g' hg' => h g' (hfg.trans hg')
  | cmd c k => exact fun g' hg' => h g' (hfg.trans hg')

theorem Does.mono {Q' : α → D.Files → Prop} (hQ : ∀ a g, Q a g → Q' a g) :
    ∀ {x : Code D α} {f : D.Files}, Does F I Q x f → Does F I Q' x f := by
  intro x
  induction x with
  | pure a => exact fun h g hg hi => hQ a g (h g hg hi)
  | cmd c k ih =>
    intro f h g hg hi o ho
    obtain ⟨hframe, hinv, hrest⟩ := h g hg hi o ho
    exact ⟨hframe, hinv, ih _ hrest⟩

theorem Does.bind {P : β → D.Files → Prop} {k : α → Code D β}
    (hk : ∀ a g, Q a g → Does F I P (k a) g) :
    ∀ {x : Code D α} {f : D.Files}, Does F I Q x f → Does F I P (x >>= k) f := by
  intro x
  induction x with
  | pure a =>
    intro f h
    rw [Prog.pure_bind']
    have hlater : ∀ g, Agree F.Relies f g → I g → Does F I P (k a) g :=
      fun g hg hi => hk a g (h g hg hi)
    generalize k a = y at hlater
    cases y with
    | pure b => exact fun g hg hi => hlater g hg hi g .refl hi
    | cmd c k => exact fun g hg hi => hlater g hg hi g .refl hi
  | cmd c k' ih =>
    intro f h g hg hi o ho
    obtain ⟨hframe, hinv, hrest⟩ := h g hg hi o ho
    exact ⟨hframe, hinv, ih _ hrest⟩

theorem Does.map {P : β → D.Files → Prop} {φ : α → β} :
    ∀ {x : Code D α} {f : D.Files}, Does F I (fun a => P (φ a)) x f →
      Does F I P (x >>= fun a => .pure (φ a)) f := by
  intro x
  induction x with
  | pure a => exact fun h => h
  | cmd c k ih =>
    intro f h g hg hi o ho
    obtain ⟨hframe, hinv, hrest⟩ := h g hg hi o ho
    exact ⟨hframe, hinv, ih _ hrest⟩

/-- One operation, as if nobody else were there. -/
theorem Does.cmd {c : Cmd D} {k : c.Reply → Code D α} (hlooks : ∀ p, c.Looks p → F.Relies p)
    (hchanges : ∀ p, c.Changes p → F.Writes p)
    (hinv : ∀ g o, Agree F.Relies f g → I g → c.Steady o → I (exec c o g).2)
    (hk : ∀ o, c.Steady o → Does F I Q (k (exec c o f).1) (exec c o f).2) :
    Does F I Q (.cmd c k) f := by
  intro g hg hi o ho
  obtain ⟨hreply, hagree⟩ := exec_agree (o := o) hlooks hg
  refine ⟨fun p hp => exec_frame fun hc => hp (hchanges p hc), hinv g o hg hi ho, ?_⟩
  rw [hreply]
  exact (hk o ho).agree hagree

/-- Code that can fail does its part; nothing is said of how it fails. -/
abbrev Gets (F : Footprint D) (I : D.Files → Prop) (Q : α → D.Files → Prop) (x : FileM D ε α)
    (f : D.Files) : Prop :=
  Does F I (fun r g => ∀ a, r = .ok a → Q a g) x.run f

theorem Gets.bind {P : β → D.Files → Prop} {x : FileM D ε α} {k : α → FileM D ε β}
    (h : Gets F I Q x f) (hk : ∀ a g, Q a g → Gets F I P (k a) g) : Gets F I P (x >>= k) f := by
  refine Does.bind (fun r g hr => ?_) h
  cases r with
  | ok a => exact hk a g (hr a rfl)
  | error e => exact fun _ _ _ _ hb => by cases hb

/-- It comes to know `R`, and changes nothing that it relies on. -/
abbrev Learns (F : Footprint D) (I : D.Files → Prop) (R : α → Prop) (x : FileM D ε α)
    (f : D.Files) : Prop :=
  Gets F I (fun a g => R a ∧ Agree F.Relies f g) x f

theorem Learns.bind {R : α → Prop} {P : β → D.Files → Prop} {x : FileM D ε α}
    {k : α → FileM D ε β} (h : Learns F I R x f) (hk : ∀ a, R a → Gets F I P (k a) f) :
    Gets F I P (x >>= k) f :=
  Gets.bind h fun a _ hr => (hk a hr.1).agree hr.2

theorem Learns.gets {R : α → Prop} {x : FileM D ε α} (h : Learns F I R x f)
    (hQ : ∀ a, R a → ∀ g, Agree F.Relies f g → Q a g) : Gets F I Q x f :=
  Does.mono (fun _ g hr a ha => hQ a (hr a ha).1 g (hr a ha).2) h

theorem Learns.pure {R : α → Prop} {a : α} (h : R a) :
    Learns F I R (pure a : FileM D ε α) f := by
  rintro g hg - b hb
  obtain rfl := Except.ok.inj hb
  exact ⟨h, hg⟩

theorem Learns.orFail {x : Except ε α} : Learns F I (x = .ok ·) (orFail x : FileM D ε α) f :=
  fun _ hg _ _ ha => ⟨ha, hg⟩

theorem Learns.mapError {ε' : Type} {wrap : ε' → ε} {x : Except ε' α} :
    Learns F I (x = .ok ·) (Directory.orFail (x.mapError wrap) : FileM D ε α) f := by
  intro g hg _ a ha
  cases x with
  | ok b => exact ⟨congrArg Except.ok (Except.ok.inj ha), hg⟩
  | error e => cases ha

theorem Learns.ask {q : D.Ask} : Learns F I (fun _ => True) (look (ε := ε) (.ask q)) f := by
  refine Does.cmd (fun p hp => hp.elim) (fun p hp => hp.elim) (fun _ _ _ hi _ => hi) fun o _ => ?_
  exact fun g hg _ _ _ => ⟨True.intro, hg⟩

/-- Whether a file is there that the program relies on. -/
theorem Learns.found {p : D.Path} (hp : F.Relies p) :
    Learns F I (· = (f.lookup p).isSome) (look (.found p) : FileM D ε Bool) f := by
  refine Does.cmd (fun r hr => hr ▸ hp) (fun r hr => hr.elim) (fun _ _ _ hi _ => hi)
    fun o ho => ?_
  rintro g hg - there hthere
  obtain rfl := Except.ok.inj hthere
  have hfault : o.fault = none := ho
  refine ⟨?_, hg⟩
  show (o.fault.isNone && (f.lookup p).isSome) = (f.lookup p).isSome
  rw [hfault]
  rfl

theorem Gets.orIo {wrap : String → ε} {x : Code D (Except String α)}
    (h : Does F I (fun r g => ∀ a, r = .ok a → Q a g) x f) : Gets F I Q (orIo wrap x) f := by
  refine Does.map (h.mono fun r g hr a ha => ?_)
  cases r with
  | ok b =>
    obtain rfl := Except.ok.inj ha
    exact hr b rfl
  | error e => cases ha

/-- What is in a file that the program relies on. -/
theorem Learns.read {wrap : String → ε} {p : D.Path} (hp : F.Relies p) :
    Learns F I (f.lookup p = some ·) (orIo wrap (Prog.call (Cmd.read p)) : FileM D ε _) f := by
  refine Gets.orIo (Does.cmd (fun r hr => hr ▸ hp) (fun r hr => hr.elim) (fun _ _ _ hi _ => hi)
    fun o _ g hg _ data hdata => ⟨?_, hg⟩)
  simp only [exec] at hdata
  split at hdata
  · cases hdata
  · cases hdata
  · rename_i hl
    exact Except.ok.inj hdata ▸ hl

theorem overwrite_end (data : List UInt8) (b : UInt8) :
    overwrite data data.length b = data ++ [b] := by
  simp [overwrite, List.rightpad]

theorem Does.writeFrom {p : D.Path} (hp : F.Relies p) (hw : F.Writes p)
    (hinv : ∀ g data, Agree (fun r => F.Relies r ∧ r ≠ p) f g → I g → I (g.put p (some data))) :
    ∀ (rest written : List UInt8) (g : D.Files), Agree F.Relies (f.put p (some written)) g →
      Does F I (fun r g => r = .ok () → Agree F.Relies (f.put p (some (written ++ rest))) g)
        (writeFrom p written.length rest) g := by
  intro rest
  induction rest with
  | nil =>
    intro written g hg g' hg' _ _
    rw [List.append_nil]
    exact hg.trans hg'
  | cons b rest ih =>
    intro written g hg
    have hothers : ∀ {g'}, Agree F.Relies g g' → Agree (fun r => F.Relies r ∧ r ≠ p) f g' :=
      fun hg' r hr => (hg.trans hg' r hr.1).trans (Table.lookup_put_ne hr.2)
    refine Does.cmd (fun r hr => hr ▸ hp) (fun r hr => hr ▸ hw) ?_ ?_
    · rintro g' ⟨fault, reply⟩ hg' hi -
      cases fault with
      | some e => exact hi
      | none => exact hinv g' _ (hothers hg') hi
    · rintro ⟨fault, reply⟩ -
      have hthere : g.lookup p = some written :=
        (hg p hp).trans (Table.lookup_put_self ..)
      simp only [exec, hthere, Option.getD_some, overwrite_end]
      cases fault with
      | some e => exact fun _ _ _ hr => by cases hr
      | none =>
        have hnext := ih (written ++ [b]) (g.put p (some (written ++ [b]))) (fun r hr => by
          rw [Table.lookup_put, Table.lookup_put]
          split
          · rfl
          · exact hothers .refl r ⟨hr, ‹_›⟩)
        rw [List.length_append, List.append_assoc] at hnext
        exact hnext

/-- **Writing a file.** If all of it went well, the file holds the data. -/
theorem Does.writeFile {p : D.Path} {data : List UInt8} (hp : F.Relies p) (hw : F.Writes p)
    (hinv : ∀ g data, Agree (fun r => F.Relies r ∧ r ≠ p) f g → I g → I (g.put p (some data))) :
    Does F I (fun r g => r = .ok () → Agree F.Relies (f.put p (some data)) g)
      (writeFile p data) f := by
  refine Does.cmd (fun r hr => hr.elim) (fun r hr => hr ▸ hw) ?_ ?_
  · rintro g ⟨fault, reply⟩ hg hi -
    cases fault with
    | some e => exact hi
    | none => exact hinv g _ (fun r hr => hg r hr.1) hi
  · rintro ⟨fault, reply⟩ -
    cases fault with
    | some e => exact fun _ _ _ hr => by cases hr
    | none => exact Does.writeFrom hp hw hinv data [] _ .refl

theorem Gets.writeFile_bind {P : β → D.Files → Prop} {wrap : String → ε} {p : D.Path}
    {data : List UInt8} {k : Unit → FileM D ε β} (hp : F.Relies p) (hw : F.Writes p)
    (hinv : ∀ g data, Agree (fun r => F.Relies r ∧ r ≠ p) f g → I g → I (g.put p (some data)))
    (hk : Gets F I P (k ()) (f.put p (some data))) :
    Gets F I P (Directory.orIo wrap (Directory.writeFile p data) >>= k) f := by
  refine Gets.bind (Gets.orIo (Q := fun _ g => Agree F.Relies (f.put p (some data)) g)
    ((Does.writeFile hp hw hinv).mono fun r g h _ hr => h hr)) fun _ g hg => ?_
  exact hk.agree hg

/-- Renaming a file over another. -/
theorem Gets.rename_bind {P : β → D.Files → Prop} {wrap : String → ε} {p q : D.Path}
    {data : List UInt8} {k : Unit → FileM D ε β} (hl : f.lookup p = some data)
    (hp : F.Relies p) (hwp : F.Writes p) (hwq : F.Writes q)
    (hinv : ∀ g, Agree F.Relies f g → I g → I ((g.put p none).put q (some data)))
    (hk : Gets F I P (k ()) ((f.put p none).put q (some data))) :
    Gets F I P (Directory.orIo wrap (Prog.call (Cmd.rename p q)) >>= k) f := by
  refine Gets.bind (Gets.orIo
    (Q := fun _ g => Agree F.Relies ((f.put p none).put q (some data)) g) ?_) fun _ g hg =>
      hk.agree hg
  refine Does.cmd (fun r hr => hr ▸ hp) ?_ ?_ ?_
  · rintro r (rfl | rfl)
    · exact hwp
    · exact hwq
  · rintro g ⟨fault, reply⟩ hg hi -
    simp only [exec, hg p hp, hl]
    cases fault with
    | some e => exact hi
    | none => exact hinv g hg hi
  · rintro ⟨fault, reply⟩ -
    simp only [exec, hl]
    cases fault with
    | some e => exact fun _ _ _ _ hr => by cases hr
    | none => exact fun g hg _ _ _ => hg

end Does

/-! ## Processes -/

/-- What a process runs, by its number and what it is started with, and its footprint, by the
    files it finds. -/
structure Programs (D : Directory) where
  Arg : Type
  Res : Type
  code : Nat → Arg → Code D Res
  footprint : Nat → Arg → D.Files → Footprint D

namespace Programs

variable {D : Directory} {S : Programs D}

/-- A process in progress; `found` is what it found when it was started. -/
structure Proc (S : Programs D) where
  arg : S.Arg
  found : D.Files
  code : Code D S.Res

structure State (S : Programs D) where
  files : D.Files
  live : Table Nat (Proc S)
  /-- What the processes ended with. -/
  ended : List (S.Arg × S.Res)

inductive Event (S : Programs D) where
  | start (pid : Nat) (arg : S.Arg)
  | step (pid : Nat) (o : Chance D)
  | kill (pid : Nat)

/-- Nobody is at work. -/
def idle (S : Programs D) (files : D.Files) : State S := ⟨files, ∅, []⟩

/-- Two processes in progress have different numbers. -/
def step (s : State S) : Event S → Option (State S)
  | .start pid arg =>
    match s.live.lookup pid with
    | some _ => none
    | none => some { s with live := s.live.put pid (some ⟨arg, s.files, S.code pid arg⟩) }
  | .step pid o =>
    match s.live.lookup pid with
    | none => none
    | some ⟨arg, _, .pure a⟩ =>
      some { s with live := s.live.put pid none, ended := (arg, a) :: s.ended }
    | some ⟨arg, found, .cmd c k⟩ =>
      some ⟨(exec c o s.files).2, s.live.put pid (some ⟨arg, found, k (exec c o s.files).1⟩),
        s.ended⟩
  | .kill pid => some { s with live := s.live.put pid none }

theorem ended_step {s s' : State S} {e : Event S} (hs : step s e = some s') {x : S.Arg × S.Res}
    (hx : x ∈ s.ended) : x ∈ s'.ended := by
  cases e with
  | start pid arg =>
    simp only [step] at hs
    split at hs
    · cases hs
    · obtain rfl := Option.some.inj hs
      exact hx
  | step pid o =>
    simp only [step] at hs
    split at hs
    · cases hs
    · obtain rfl := Option.some.inj hs
      exact List.mem_cons_of_mem _ hx
    · obtain rfl := Option.some.inj hs
      exact hx
  | kill pid =>
    obtain rfl := Option.some.inj hs
    exact hx

/-- Neither writes what the other relies on. -/
def Apart (F G : Footprint D) : Prop :=
  (∀ p, F.Writes p → ¬ G.Relies p) ∧ ∀ p, G.Writes p → ¬ F.Relies p

def Proc.footprint (pid : Nat) (proc : Proc S) : Footprint D :=
  S.footprint pid proc.arg proc.found

/-- A process is started when it does not get in the way of one in progress, and looking for a
    file does not fail. -/
def Careful (s : State S) : Event S → Prop
  | .start pid arg => ∀ pid' proc, s.live.lookup pid' = some proc →
    Apart (S.footprint pid arg s.files) (proc.footprint pid')
  | .step pid o => ∀ arg found c k, s.live.lookup pid = some ⟨arg, found, .cmd c k⟩ → c.Steady o
  | .kill _ => True

def Steps (s s' : State S) : Prop :=
  Relation.ReflTransGen (fun s s' => ∃ e, step s e = some s' ∧ Careful s e) s s'

/-- What makes the processes sound: each does its part, and what it ends with is a fact `about`
    some files, which no process that is started later would write. -/
structure Rules (S : Programs D) (I : D.Files → Prop) (Q : S.Arg → S.Res → D.Files → Prop)
    (about : S.Arg → S.Res → D.Path → Prop) : Prop where
  does : ∀ pid arg f, I f → Does (S.footprint pid arg f) I (Q arg) (S.code pid arg) f
  agrees : ∀ {arg res f g}, Agree (about arg res) f g → Q arg res f → Q arg res g
  relies : ∀ {pid arg res f p}, about arg res p → (S.footprint pid arg f).Relies p
  kept : ∀ {pid arg arg' res f p}, I f → Q arg res f → about arg res p →
    ¬ (S.footprint pid arg' f).Writes p

/-- Every process in progress goes on doing its part, out of the way of the others, and what
    those that ended have ended with is true. -/
structure Sound (I : D.Files → Prop) (Q : S.Arg → S.Res → D.Files → Prop)
    (about : S.Arg → S.Res → D.Path → Prop) (s : State S) : Prop where
  inv : I s.files
  live : ∀ pid proc, s.live.lookup pid = some proc →
    Does (proc.footprint pid) I (Q proc.arg) proc.code s.files
  apart : ∀ pid pid' proc proc', pid ≠ pid' → s.live.lookup pid = some proc →
    s.live.lookup pid' = some proc' → ∀ p, (proc.footprint pid).Writes p →
      ¬ (proc'.footprint pid').Relies p
  ended : ∀ e ∈ s.ended, Q e.1 e.2 s.files
  settled : ∀ e ∈ s.ended, ∀ pid proc, s.live.lookup pid = some proc →
    ∀ p, about e.1 e.2 p → ¬ (proc.footprint pid).Writes p

section Sound

variable {I : D.Files → Prop} {Q : S.Arg → S.Res → D.Files → Prop}
  {about : S.Arg → S.Res → D.Path → Prop} {s s' : State S}

theorem sound_idle {files : D.Files} (h : I files) : Sound I Q about (idle S files) where
  inv := h
  live pid proc hl := by cases hl
  apart pid pid' proc proc' hne hl := by cases hl
  ended e he := by cases he
  settled e he := by cases he

theorem Sound.start (hrules : Rules S I Q about) (h : Sound I Q about s) {pid : Nat} {arg : S.Arg}
    (hs : step s (.start pid arg) = some s') (hcareful : Careful s (.start pid arg)) :
    Sound I Q about s' := by
  simp only [step] at hs
  split at hs
  · cases hs
  obtain rfl := Option.some.inj hs
  have hcases : ∀ {pid' proc}, (s.live.put pid (some ⟨arg, s.files, S.code pid arg⟩)).lookup pid' =
      some proc → pid' = pid ∧ proc = ⟨arg, s.files, S.code pid arg⟩ ∨
        pid' ≠ pid ∧ s.live.lookup pid' = some proc := by
    intro pid' proc hl
    rw [Table.lookup_put] at hl
    split at hl
    · exact Or.inl ⟨‹_›, (Option.some.inj hl).symm⟩
    · exact Or.inr ⟨‹_›, hl⟩
  refine ⟨h.inv, fun pid' proc hl => ?_, fun p₁ p₂ proc₁ proc₂ hne hl₁ hl₂ => ?_, h.ended,
    fun e he pid' proc hl => ?_⟩
  · rcases hcases hl with ⟨rfl, rfl⟩ | ⟨-, hold⟩
    · exact hrules.does _ arg s.files h.inv
    · exact h.live pid' proc hold
  · rcases hcases hl₁ with ⟨rfl, rfl⟩ | ⟨-, hold₁⟩ <;> rcases hcases hl₂ with ⟨rfl, rfl⟩ | ⟨-, hold₂⟩
    · exact absurd rfl hne
    · exact (hcareful p₂ proc₂ hold₂).1
    · exact (hcareful p₁ proc₁ hold₁).2
    · exact h.apart p₁ p₂ proc₁ proc₂ hne hold₁ hold₂
  · rcases hcases hl with ⟨rfl, rfl⟩ | ⟨-, hold⟩
    · exact fun p hp => hrules.kept h.inv (h.ended e he) hp
    · exact h.settled e he pid' proc hold

/-- A process that is gone, leaving what it has done. -/
theorem Sound.drop (h : Sound I Q about s) (pid : Nat) :
    Sound I Q about { s with live := s.live.put pid none } := by
  have hold : ∀ {pid' proc}, (s.live.put pid none).lookup pid' = some proc →
      s.live.lookup pid' = some proc := by
    intro pid' proc hl
    rw [Table.lookup_put] at hl
    split at hl
    · cases hl
    · exact hl
  exact ⟨h.inv, fun pid' proc hl => h.live pid' proc (hold hl),
    fun p₁ p₂ proc₁ proc₂ hne hl₁ hl₂ => h.apart p₁ p₂ proc₁ proc₂ hne (hold hl₁) (hold hl₂),
    h.ended, fun e he pid' proc hl => h.settled e he pid' proc (hold hl)⟩

theorem Sound.step (hrules : Rules S I Q about) (h : Sound I Q about s) {pid : Nat} {o : Chance D}
    (hs : step s (.step pid o) = some s') (hcareful : Careful s (.step pid o)) :
    Sound I Q about s' := by
  simp only [Programs.step] at hs
  split at hs
  · cases hs
  · -- It has ended.
    rename_i arg found a hl
    obtain rfl := Option.some.inj hs
    have hgone := h.drop pid
    refine ⟨hgone.inv, hgone.live, hgone.apart, fun e he => ?_, fun e he pid' proc hl' p hp => ?_⟩
    · rcases List.mem_cons.mp he with rfl | hold
      · exact h.live pid _ hl s.files .refl h.inv
      · exact h.ended e hold
    · rcases List.mem_cons.mp he with rfl | hold
      · have hne : pid' ≠ pid := by
          rintro rfl
          rw [Table.lookup_put_self] at hl'
          cases hl'
        rw [Table.lookup_put_ne hne] at hl'
        exact fun hw => h.apart pid' pid proc _ hne hl' hl p hw (hrules.relies hp)
      · exact hgone.settled e hold pid' proc hl' p hp
  · rename_i arg found c k hl
    obtain rfl := Option.some.inj hs
    obtain ⟨hframe, hinv, hrest⟩ := h.live pid _ hl s.files .refl h.inv o (hcareful _ _ _ _ hl)
    have hcases : ∀ {pid' proc},
        (s.live.put pid (some ⟨arg, found, k (exec c o s.files).1⟩)).lookup pid' = some proc →
          pid' = pid ∧ proc = ⟨arg, found, k (exec c o s.files).1⟩ ∨
            pid' ≠ pid ∧ s.live.lookup pid' = some proc := by
      intro pid' proc hl'
      rw [Table.lookup_put] at hl'
      split at hl'
      · exact Or.inl ⟨‹_›, (Option.some.inj hl').symm⟩
      · exact Or.inr ⟨‹_›, hl'⟩
    -- What the others rely on is as it was.
    have hsame : ∀ {pid' proc}, pid' ≠ pid → s.live.lookup pid' = some proc →
        Agree (proc.footprint pid').Relies s.files (exec c o s.files).2 :=
      fun hne hl' p hp => hframe p fun hw => h.apart pid _ _ _ (Ne.symm hne) hl hl' p hw hp
    refine ⟨hinv, fun pid' proc hl' => ?_, fun p₁ p₂ proc₁ proc₂ hne hl₁ hl₂ => ?_,
      fun e he => ?_, fun e he pid' proc hl' => ?_⟩
    · rcases hcases hl' with ⟨rfl, rfl⟩ | ⟨hne, hold⟩
      · exact hrest
      · exact (h.live pid' proc hold).agree (hsame hne hold)
    · rcases hcases hl₁ with ⟨rfl, rfl⟩ | ⟨-, hold₁⟩ <;>
        rcases hcases hl₂ with ⟨rfl, rfl⟩ | ⟨-, hold₂⟩
      · exact absurd rfl hne
      · exact h.apart _ p₂ ⟨arg, found, .cmd c k⟩ proc₂ hne hl hold₂
      · exact h.apart p₁ _ proc₁ ⟨arg, found, .cmd c k⟩ hne hold₁ hl
      · exact h.apart p₁ p₂ proc₁ proc₂ hne hold₁ hold₂
    · exact hrules.agrees (fun p hp => hframe p (h.settled e he pid _ hl p hp)) (h.ended e he)
    · rcases hcases hl' with ⟨rfl, rfl⟩ | ⟨-, hold⟩
      · exact h.settled e he _ ⟨arg, found, .cmd c k⟩ hl
      · exact h.settled e he pid' proc hold

/-- **The processes are sound together**, whenever they are started and killed, and whatever
    fails. -/
theorem sound (hrules : Rules S I Q about) (h : Sound I Q about s) (hrun : Steps s s') :
    Sound I Q about s' := by
  induction hrun with
  | refl => exact h
  | tail _ hstep ih =>
    obtain ⟨e, hs, hcareful⟩ := hstep
    cases e with
    | start pid arg => exact ih.start hrules hs hcareful
    | step pid o => exact ih.step hrules hs hcareful
    | kill pid =>
      obtain rfl := Option.some.inj hs
      exact ih.drop pid

/-- The file holds this, and no process in progress would write it. -/
def Rests (s : State S) (p : D.Path) (data : List UInt8) : Prop :=
  s.files.lookup p = some data ∧
    ∀ pid proc, s.live.lookup pid = some proc → ¬ (proc.footprint pid).Writes p

/-- **What nobody would write stays**, where none that finds it would write it. -/
theorem Sound.rests (hrules : Rules S I Q about) (h : Sound I Q about s) (hrun : Steps s s')
    {p : D.Path} {data : List UInt8}
    (hlater : ∀ pid arg f, f.lookup p = some data → ¬ (S.footprint pid arg f).Writes p)
    (hrests : Rests s p data) : Rests s' p data := by
  induction hrun with
  | refl => exact hrests
  | @tail s₁ s₂ hrun hstep ih =>
    obtain ⟨e, hs, hcareful⟩ := hstep
    have hsound := sound hrules h hrun
    cases e with
    | start pid arg =>
      simp only [Programs.step] at hs
      split at hs
      · cases hs
      obtain rfl := Option.some.inj hs
      refine ⟨ih.1, fun pid' proc hl => ?_⟩
      rw [Table.lookup_put] at hl
      split at hl
      · obtain rfl := Option.some.inj hl
        exact hlater _ arg _ ih.1
      · exact ih.2 pid' proc hl
    | kill pid =>
      obtain rfl := Option.some.inj hs
      refine ⟨ih.1, fun pid' proc hl => ?_⟩
      rw [Table.lookup_put] at hl
      split at hl
      · cases hl
      · exact ih.2 pid' proc hl
    | step pid o =>
      simp only [Programs.step] at hs
      split at hs
      · cases hs
      · obtain rfl := Option.some.inj hs
        refine ⟨ih.1, fun pid' proc hl => ?_⟩
        rw [Table.lookup_put] at hl
        split at hl
        · cases hl
        · exact ih.2 pid' proc hl
      · rename_i arg found c k hl
        obtain rfl := Option.some.inj hs
        obtain ⟨hframe, -, -⟩ := hsound.live pid _ hl s₁.files .refl hsound.inv o
          (hcareful _ _ _ _ hl)
        refine ⟨(hframe p (ih.2 pid _ hl)).trans ih.1, fun pid' proc hl' => ?_⟩
        rw [Table.lookup_put] at hl'
        split at hl'
        · obtain rfl := Option.some.inj hl'
          rename_i he
          exact he ▸ ih.2 pid ⟨arg, found, .cmd c k⟩ hl
        · exact ih.2 pid' proc hl'

end Sound

/-- A run, each event of which passes the guard. -/
def runGuarded (guard : State S → Event S → Bool) : State S → List (Event S) → Option (State S)
  | s, [] => some s
  | s, e :: l => if guard s e then (step s e).bind fun s' => runGuarded guard s' l else none

theorem steps_of_runGuarded {guard : State S → Event S → Bool}
    (hguard : ∀ s e, guard s e = true → Careful s e) :
    ∀ {l : List (Event S)} {s s' : State S}, runGuarded guard s l = some s' → Steps s s' := by
  intro l
  induction l with
  | nil =>
    intro s s' h
    obtain rfl := Option.some.inj h
    exact .refl
  | cons e l ih =>
    intro s s' h
    rw [runGuarded] at h
    split at h
    · obtain ⟨s₁, hs₁, hrest⟩ := Option.bind_eq_some_iff.mp h
      exact .head ⟨e, hs₁, hguard s e ‹_›⟩ (ih hrest)
    · cases h

end Programs

end Directory

end Lib
