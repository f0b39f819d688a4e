import Digicash.Bank.Withdrawals
import Digicash.Bindings
import Digicash.Lib.Files
import Digicash.Wallet.Identity

/-!
# The key directory

The bank keeps its keys in files: one for each denomination, and one for its certificate
authority, each made by the first start that does not find it. The certificate itself is written
anew by every start, to a file of its own first, which is then renamed.

A start can be killed in the middle of a file, and starts can overlap. Where no start looks for
a key file that one in progress has found missing, the key files are written once and then never
again: whatever a process has come up with is what the files say, now and later.
-/

namespace Digicash

open Lib Lib.Directory

/-- What the bank uses of the crates that make keys and certificates. A seed is what a generator
    draws. -/
structure Provider (X : Crypto) where
  Seed : Type
  /-- RSA keys. -/
  generate : Seed → Except String (Keypair X)
  toPem : X.SecretKey → Except String String
  fromPem : String → Except String X.SecretKey
  publicKey : X.SecretKey → Except String X.PublicKey
  /-- Keys and certificates of the authority. -/
  CaKey : Type
  generateCaKey : Seed → Except String CaKey
  serializePem : CaKey → String
  caKeyFromPem : String → Except String CaKey
  selfSigned : CaKey → Seed → Except String String

/-- What is documented of them: the public key that is derived is the one that was generated,
    and a key is read back from its PEM. -/
structure Provider.Documented {X : Crypto} (P : Provider X) : Prop where
  derives : ∀ seed keypair, P.generate seed = .ok keypair →
    P.publicKey keypair.sk = .ok keypair.pk
  reads : ∀ sk pem, P.toPem sk = .ok pem → P.fromPem pem = .ok sk
  readsCaKey : ∀ key, P.caKeyFromPem (P.serializePem key) = .ok key

variable {X : Crypto}

def generateKeypair (P : Provider X) (seed : P.Seed) : Except CoreError (Keypair X) :=
  (P.generate seed).mapError .keyGeneration

namespace Bank

/-- The files of the key directory. -/
inductive KeyFile where
  | key (denom : UInt64) (scheme : UInt8)
  | caKey
  | caCert
  /-- Where the process of this number writes the certificate. -/
  | caCertTmp (pid : Nat)
deriving DecidableEq

def keyPath (denom : UInt64) (scheme : UInt8) : KeyFile := .key denom scheme

def KeyFile.name : KeyFile → String
  | .key denom scheme => "denom_" ++ toString denom ++ "_scheme_" ++ toString scheme ++ ".pem"
  | .caKey => "ca-key.pem"
  | .caCert => "ca-cert.pem"
  | .caCertTmp pid => "ca-cert.pem" ++ "." ++ toString pid ++ ".tmp"

/-- Different files have different names. -/
theorem KeyFile.name_injective : Function.Injective KeyFile.name := by
  have hmark : ∀ k, '_' ∉ Nat.toDigits 10 k ∧ '.' ∉ Nat.toDigits 10 k := fun k =>
    ⟨fun h => absurd (Nat.isDigit_of_mem_toDigits (by decide) (by decide) h) (by decide),
      fun h => absurd (Nat.isDigit_of_mem_toDigits (by decide) (by decide) h) (by decide)⟩
  intro file file' h
  have h := congrArg String.toList h
  cases file <;> cases file' <;> simp [KeyFile.name] at h ⊢
  case key.key denom scheme denom' scheme' =>
    have hdenom : ∀ d : UInt64, (toString d).toList = Nat.toDigits 10 d.toNat :=
      fun _ => Nat.toList_repr
    have hscheme : ∀ d : UInt8, (toString d).toList = Nat.toDigits 10 d.toNat :=
      fun _ => Nat.toList_repr
    rw [hdenom, hdenom, hscheme, hscheme] at h
    obtain ⟨hd, hrest⟩ := Joined.split_of_notMem (hmark _).1 (hmark _).1 h
    obtain ⟨hs, -⟩ := Joined.split_of_notMem (hmark _).2 (hmark _).2
      (@List.append_cancel_left _ "scheme_".toList _ _ hrest)
    exact ⟨UInt64.toNat_inj.mp (decimal_injective hd), UInt8.toNat_inj.mp (decimal_injective hs)⟩
  case caCertTmp.caCertTmp pid pid' => exact decimal_injective h

inductive StartAsk where
  | makeDir
  | seed
  /-- The key and the certificate of the server. -/
  | serverCert

@[reducible] def StartAsk.Reply (P : Provider X) : StartAsk → Type
  | .makeDir => Except String Unit
  | .seed => P.Seed
  | .serverCert => Except String Unit

@[reducible] def keyDir (P : Provider X) : Directory := ⟨KeyFile, StartAsk, StartAsk.Reply P⟩

/-- The errors of `BankError` that keep a bank from starting here. -/
inductive StartError where
  | io (e : String)
  | core (e : CoreError)
  | key (denom : UInt64) (scheme : UInt8) (message : String)
  | certGen (e : String)
deriving DecidableEq

/-- The `Display` text. -/
def StartError.toText : StartError → String
  | .io e => "key directory I/O error: " ++ e
  | .core e => "cryptographic error: " ++ e.toText
  | .key denom scheme message =>
    "denomination key error for denomination " ++ toString denom ++ " scheme " ++
      toString scheme ++ ": " ++ message
  | .certGen e => "certificate error: " ++ e

structure CertAuthority (P : Provider X) where
  caKey : P.CaKey
  caCert : String

/-! ## The code -/

section Code

variable (P : Provider X)

abbrev StartM (α : Type) := FileM (keyDir P) StartError α

def pathExists (path : KeyFile) : StartM P Bool := look (Cmd.found (D := keyDir P) path)

def askStart (q : StartAsk) : StartM P (q.Reply P) := look (Cmd.ask (D := keyDir P) q)

def createDirAll : StartM P Unit := do
  let made ← askStart P .makeDir
  orFail (made.mapError .io)

def readToString (path : KeyFile) : StartM P String := do
  let bytes ← orIo .io (Prog.call (Cmd.read (D := keyDir P) path))
  match Wallet.fromUtf8 bytes with
  | some text => return text
  | none => orFail (.error (.io "stream did not contain valid UTF-8"))

def loadKey (path : KeyFile) (denom : UInt64) (scheme : UInt8) : StartM P (Keypair X) := do
  let pem ← readToString P path
  let sk ← orFail ((P.fromPem pem).mapError fun e => .key denom scheme ("parse PEM: " ++ e))
  let pk ← orFail ((P.publicKey sk).mapError fun e =>
    .key denom scheme ("derive public key: " ++ e))
  return ⟨pk, sk⟩

def createKey (path : KeyFile) (denom : UInt64) (scheme : UInt8) : StartM P (Keypair X) := do
  let seed ← askStart P .seed
  let keypair ← orFail ((generateKeypair P seed).mapError .core)
  let pem ← orFail ((P.toPem keypair.sk).mapError fun e =>
    .key denom scheme ("encode PEM: " ++ e))
  orIo .io (writeFile (D := keyDir P) path (utf8 pem))
  return keypair

/-- The loop of `load_or_create`, over the denominations that are left. -/
def loadKeys : List UInt64 → Table (UInt64 × UInt8) (Keypair X) →
    StartM P (Table (UInt64 × UInt8) (Keypair X))
  | [], keys => return keys
  | denom :: rest, keys => do
    let path := keyPath denom schemeIdRsaDeterministic
    let there ← pathExists P path
    let keypair ← if there then loadKey P path denom schemeIdRsaDeterministic
      else createKey P path denom schemeIdRsaDeterministic
    loadKeys rest (keys.put (denom, schemeIdRsaDeterministic) (some keypair))

def KeyStore.loadOrCreate (denominations : List UInt64) : StartM P (KeyStore X) := do
  createDirAll P
  let keys ← loadKeys P denominations ∅
  return ⟨keys⟩

def loadCaKey : StartM P P.CaKey := do
  let pem ← readToString P .caKey
  orFail ((P.caKeyFromPem pem).mapError .certGen)

def createCaKey : StartM P P.CaKey := do
  let seed ← askStart P .seed
  let key ← orFail ((P.generateCaKey seed).mapError .certGen)
  orIo .io (writeFile (D := keyDir P) .caKey (utf8 (P.serializePem key)))
  return key

/-- What `load_or_create` does once it has the key: the certificate is written to a file of the
    process and renamed, then the server gets one. -/
def publishCert (pid : Nat) (caKey : P.CaKey) : StartM P (CertAuthority P) := do
  let seed ← askStart P .seed
  let caCert ← orFail ((P.selfSigned caKey seed).mapError .certGen)
  orIo .io (writeFile (D := keyDir P) (.caCertTmp pid) (utf8 caCert))
  orIo .io (Prog.call (Cmd.rename (D := keyDir P) (.caCertTmp pid) .caCert))
  let served ← askStart P .serverCert
  orFail (served.mapError .certGen)
  return ⟨caKey, caCert⟩

def CertAuthority.loadOrCreate (pid : Nat) : StartM P (CertAuthority P) := do
  createDirAll P
  let there ← pathExists P .caKey
  let caKey ← if there then loadCaKey P else createCaKey P
  publishCert P pid caKey

/-- What `main` does in the key directory. Between the two it opens the database; where that
    fails the process ends, as if it were killed. -/
def startUp (pid : Nat) (denominations : List UInt64) :
    StartM P (KeyStore X × CertAuthority P) := do
  let keys ← KeyStore.loadOrCreate P denominations
  let ca ← CertAuthority.loadOrCreate P pid
  return (keys, ca)

end Code

variable {P : Provider X}

/-! ## What the files say -/

abbrev KeyFiles (P : Provider X) := (keyDir P).Files

/-- The key of a denomination, as its file says it. -/
def readKey (f : KeyFiles P) (denom : UInt64) : Option (Keypair X) :=
  ((f.lookup (keyPath denom schemeIdRsaDeterministic)).bind Wallet.fromUtf8).bind fun pem =>
    (P.fromPem pem).toOption.bind fun sk => (P.publicKey sk).toOption.map fun pk => ⟨pk, sk⟩

/-- The keys of the denominations, over these. -/
def readKeys (f : KeyFiles P) : List UInt64 → Table (UInt64 × UInt8) (Keypair X) →
    Option (Table (UInt64 × UInt8) (Keypair X))
  | [], keys => some keys
  | denom :: rest, keys => (readKey f denom).bind fun keypair =>
    readKeys f rest (keys.put (denom, schemeIdRsaDeterministic) (some keypair))

def readCaKey (f : KeyFiles P) : Option P.CaKey :=
  ((f.lookup .caKey).bind Wallet.fromUtf8).bind fun pem => (P.caKeyFromPem pem).toOption

theorem readKey_congr {f g : KeyFiles P} {denom : UInt64}
    (h : g.lookup (keyPath denom schemeIdRsaDeterministic) =
      f.lookup (keyPath denom schemeIdRsaDeterministic)) : readKey g denom = readKey f denom := by
  unfold readKey
  rw [h]

theorem readKeys_congr {f g : KeyFiles P} : ∀ {denominations : List UInt64}
    {keys : Table (UInt64 × UInt8) (Keypair X)},
    (∀ denom ∈ denominations, g.lookup (keyPath denom schemeIdRsaDeterministic) =
      f.lookup (keyPath denom schemeIdRsaDeterministic)) →
    readKeys g denominations keys = readKeys f denominations keys := by
  intro denominations
  induction denominations with
  | nil => exact fun _ => rfl
  | cons denom rest ih =>
    intro keys h
    rw [readKeys, readKeys, readKey_congr (h denom (List.mem_cons_self ..))]
    exact congrArg _ (funext fun keypair => ih fun d hd => h d (List.mem_cons_of_mem _ hd))

theorem readCaKey_congr {f g : KeyFiles P} (h : g.lookup .caKey = f.lookup .caKey) :
    readCaKey g = readCaKey f := by
  unfold readCaKey
  rw [h]

/-- The certificate that is there is whole, and the authority's. -/
def Published (f : KeyFiles P) : Prop := ∀ data, f.lookup .caCert = some data →
  ∃ key seed pem, readCaKey f = some key ∧ P.selfSigned key seed = .ok pem ∧ data = utf8 pem

theorem published_empty : Published (∅ : KeyFiles P) := fun _ h => by cases h

theorem Published.put {f : KeyFiles P} (h : Published f) {path : KeyFile}
    {data : Option (List UInt8)} (hkey : path ≠ .caKey) (hcert : path ≠ .caCert) :
    Published (f.put path data) := by
  intro cert hl
  rw [Table.lookup_put_ne hcert.symm] at hl
  obtain ⟨key, seed, pem, hread, hsigned, rfl⟩ := h cert hl
  exact ⟨key, seed, pem, (readCaKey_congr (Table.lookup_put_ne hkey.symm)).trans hread, hsigned,
    rfl⟩

/-! ## Who writes what -/

/-- The key files that a start looks for. -/
def Uses (denominations : List UInt64) (path : KeyFile) : Prop :=
  path = .caKey ∨ ∃ denom ∈ denominations, path = keyPath denom schemeIdRsaDeterministic

/-- It writes the key files it finds missing, its own file, and the certificate. -/
def startFootprint (pid : Nat) (denominations : List UInt64) (found : KeyFiles P) :
    Footprint (keyDir P) where
  Relies path := Uses denominations path ∨ path = .caCertTmp pid ∨
    path = .caCert ∧ found.lookup .caKey = none
  Writes path := Uses denominations path ∧ found.lookup path = none ∨ path = .caCertTmp pid ∨
    path = .caCert

/-- No file that is relied on is lost, and only keys of denominations are new. -/
structure Grew (R : KeyFile → Prop) (f g : KeyFiles P) : Prop where
  kept : ∀ path data, R path → f.lookup path = some data → g.lookup path = some data
  others : ∀ path, R path → (∀ denom scheme, path ≠ .key denom scheme) →
    g.lookup path = f.lookup path

theorem Grew.of_agree {R : KeyFile → Prop} {f g : KeyFiles P} (h : Agree (D := keyDir P) R f g) :
    Grew R f g :=
  ⟨fun path _ hr hl => (h path hr).trans hl, fun path hr _ => h path hr⟩

theorem Grew.trans {R : KeyFile → Prop} {f g h : KeyFiles P} (hfg : Grew R f g)
    (hgh : Grew R g h) : Grew R f h :=
  ⟨fun path data hr hl => hgh.kept path data hr (hfg.kept path data hr hl),
    fun path hr hne => (hgh.others path hr hne).trans (hfg.others path hr hne)⟩

section Start

variable {F : Footprint (keyDir P)} {I : KeyFiles P → Prop} {f : KeyFiles P}

theorem readToString_learns {path : KeyFile} (hp : F.Relies path) :
    Learns F I (fun text => (f.lookup path).bind Wallet.fromUtf8 = some text)
      (readToString P path) f := by
  refine Learns.bind (Learns.read hp) fun bytes hl => ?_
  rw [hl]
  split
  · exact Learns.pure ‹_›
  · exact Learns.orFail.gets fun _ h => by cases h

theorem loadKey_learns {denom : UInt64}
    (hp : F.Relies (keyPath denom schemeIdRsaDeterministic)) :
    Learns F I (fun keypair => readKey f denom = some keypair)
      (loadKey P (keyPath denom schemeIdRsaDeterministic) denom schemeIdRsaDeterministic) f := by
  refine (readToString_learns hp).bind fun pem hpem => ?_
  refine Learns.mapError.bind fun sk hsk => Learns.mapError.bind fun pk hpk => Learns.pure ?_
  rw [readKey, hpem, Option.bind_some, hsk, Except.toOption, Option.bind_some, hpk]
  rfl

/-- The key of a denomination that has none yet. -/
theorem createKey_gets (hP : P.Documented) {denom : UInt64}
    (hp : F.Relies (keyPath denom schemeIdRsaDeterministic))
    (hw : F.Writes (keyPath denom schemeIdRsaDeterministic))
    (hinv : ∀ g data, I g → I (g.put (keyPath denom schemeIdRsaDeterministic) data))
    (hnone : f.lookup (keyPath denom schemeIdRsaDeterministic) = none) :
    Gets F I (fun keypair g => readKey g denom = some keypair ∧ Grew F.Relies f g)
      (createKey P (keyPath denom schemeIdRsaDeterministic) denom schemeIdRsaDeterministic) f := by
  refine Learns.ask.bind fun seed _ => Learns.mapError.bind fun keypair hgenerate => ?_
  refine Learns.mapError.bind fun pem hpem => ?_
  refine Gets.writeFile_bind hp hw (fun g data _ hi => hinv g _ hi) ?_
  have hderives := hP.derives seed keypair (by
    unfold generateKeypair at hgenerate
    cases hg : P.generate seed with
    | ok k => rw [hg] at hgenerate; exact congrArg Except.ok (Except.ok.inj hgenerate)
    | error e => rw [hg] at hgenerate; cases hgenerate)
  refine (Learns.pure (R := (· = keypair)) rfl).gets ?_
  rintro _ rfl g hg
  have hfile : g.lookup (keyPath denom schemeIdRsaDeterministic) = some (utf8 pem) :=
    (hg _ hp).trans (Table.lookup_put_self ..)
  refine ⟨?_, fun path data hr hl => ?_, fun path hr hne => ?_⟩
  · rw [readKey, hfile, Option.bind_some, Wallet.Store.fromUtf8_utf8, Option.bind_some,
      hP.reads _ pem hpem, Except.toOption, Option.bind_some, hderives]
    rfl
  · refine (hg path hr).trans ((Table.lookup_put_ne ?_).trans hl)
    rintro rfl
    rw [hnone] at hl
    cases hl
  · exact (hg path hr).trans (Table.lookup_put_ne (hne _ _))

theorem readKey_grew {denom : UInt64} {keypair : Keypair X} {R : KeyFile → Prop} {g : KeyFiles P}
    (hp : R (keyPath denom schemeIdRsaDeterministic)) (h : readKey f denom = some keypair)
    (hgrew : Grew R f g) : readKey g denom = some keypair := by
  cases hl : f.lookup (keyPath denom schemeIdRsaDeterministic) with
  | none =>
    rw [readKey, hl] at h
    cases h
  | some data =>
    rw [readKey_congr ((hgrew.kept _ data hp hl).trans hl.symm)]
    exact h

/-- **The keys that are loaded, or made, are what the files then say.** -/
theorem loadKeys_gets (hP : P.Documented)
    (hinv : ∀ denom g data, I g → I (g.put (keyPath denom schemeIdRsaDeterministic) data)) :
    ∀ {todo : List UInt64} {keys : Table (UInt64 × UInt8) (Keypair X)} {f : KeyFiles P},
    (∀ denom ∈ todo, F.Relies (keyPath denom schemeIdRsaDeterministic)) →
    (∀ denom ∈ todo, f.lookup (keyPath denom schemeIdRsaDeterministic) = none →
      F.Writes (keyPath denom schemeIdRsaDeterministic)) →
    Gets F I (fun out g => readKeys g todo keys = some out ∧ Grew F.Relies f g)
      (loadKeys P todo keys) f := by
  intro todo
  induction todo with
  | nil =>
    intro keys f _ _
    exact (Learns.pure (R := (· = keys)) rfl).gets fun _ hkeys g hg =>
      ⟨congrArg some hkeys.symm, .of_agree hg⟩
  | cons denom rest ih =>
    intro keys f hrelies hwrites
    have hp := hrelies denom (List.mem_cons_self ..)
    -- What comes after the key is known, in whatever files it is in.
    have hrest : ∀ keypair g, readKey g denom = some keypair ∧ Grew F.Relies f g →
        Gets F I (fun out g => readKeys g (denom :: rest) keys = some out ∧ Grew F.Relies f g)
          (loadKeys P rest (keys.put (denom, schemeIdRsaDeterministic) (some keypair))) g := by
      rintro keypair g ⟨hread, hgrew⟩
      refine Does.mono ?_ (ih (fun d hd => hrelies d (List.mem_cons_of_mem _ hd)) ?_)
      · rintro r g' h out hout
        obtain ⟨hkeys, hgrew'⟩ := h out hout
        refine ⟨?_, hgrew.trans hgrew'⟩
        rw [readKeys, readKey_grew hp hread hgrew', Option.bind_some]
        exact hkeys
      · intro d hd hnone
        refine hwrites d (List.mem_cons_of_mem _ hd) ?_
        by_contra hsome
        obtain ⟨data, hl⟩ := Option.ne_none_iff_exists'.mp hsome
        rw [hgrew.kept _ data (hrelies d (List.mem_cons_of_mem _ hd)) hl] at hnone
        cases hnone
    unfold loadKeys
    refine (Learns.found hp).bind fun there hthere => ?_
    dsimp only
    split
    · refine Gets.bind ((loadKey_learns hp).gets ?_) hrest
      exact fun keypair hread g hg => ⟨(readKey_congr (hg _ hp)).trans hread, .of_agree hg⟩
    · rename_i hnot
      have hnone : f.lookup (keyPath denom schemeIdRsaDeterministic) = none := by
        rw [hthere, Bool.not_eq_true, Option.isSome_eq_false_iff, Option.isNone_iff_eq_none]
          at hnot
        exact hnot
      exact Gets.bind (createKey_gets hP hp (hwrites denom (List.mem_cons_self ..) hnone)
        (hinv denom) hnone) hrest

/-- The key of the authority where there is none yet, and no certificate either. -/
theorem createCaKey_gets (hP : P.Documented) (hp : F.Relies .caKey) (hw : F.Writes .caKey)
    (hcert : F.Relies .caCert) (hnocert : f.lookup .caCert = none) :
    Gets F Published (fun key g => readCaKey g = some key ∧
      ∀ path, F.Relies path → path ≠ .caKey → g.lookup path = f.lookup path)
      (createCaKey P) f := by
  refine Learns.ask.bind fun seed _ => Learns.mapError.bind fun key _ => ?_
  refine Gets.writeFile_bind hp hw (fun g data hg _ cert hl => ?_) ?_
  · rw [Table.lookup_put_ne (by simp), hg _ ⟨hcert, by simp⟩, hnocert] at hl
    cases hl
  · refine (Learns.pure (R := (· = key)) rfl).gets ?_
    rintro _ rfl g hg
    refine ⟨?_, fun path hr hne => (hg path hr).trans (Table.lookup_put_ne hne)⟩
    rw [readCaKey, (hg _ hp).trans (Table.lookup_put_self ..), Option.bind_some,
      Wallet.Store.fromUtf8_utf8, Option.bind_some, hP.readsCaKey, Except.toOption]

theorem loadCaKey_learns (hp : F.Relies .caKey) :
    Learns F I (fun key => readCaKey f = some key) (loadCaKey P) f := by
  refine (readToString_learns hp).bind fun pem hpem => Learns.mapError.gets fun key hkey g hg => ?_
  refine ⟨?_, hg⟩
  rw [readCaKey, hpem, Option.bind_some, hkey]
  rfl

theorem createDirAll_learns : Learns F I (fun _ => True) (createDirAll P) f :=
  Learns.ask.bind fun _ _ => Learns.mapError.gets fun _ _ _ hg => ⟨True.intro, hg⟩

end Start

section StartUp

variable {pid : Nat} {denominations : List UInt64} {found f : KeyFiles P}

/-- **The certificate is published whole, and is the authority's.** -/
theorem publishCert_gets {caKey : P.CaKey} (hread : readCaKey f = some caKey) :
    Gets (startFootprint pid denominations found) Published (fun ca g =>
      readCaKey g = some ca.caKey ∧ (∃ seed, P.selfSigned ca.caKey seed = .ok ca.caCert) ∧
        ∀ denom ∈ denominations, g.lookup (keyPath denom schemeIdRsaDeterministic) =
          f.lookup (keyPath denom schemeIdRsaDeterministic)) (publishCert P pid caKey) f := by
  refine Learns.ask.bind fun seed _ => Learns.mapError.bind fun caCert hsigned => ?_
  refine Gets.writeFile_bind (Or.inr (Or.inl rfl)) (Or.inr (Or.inl rfl))
    (fun _ _ _ hi => hi.put (by simp) (by simp)) ?_
  refine Gets.rename_bind (Table.lookup_put_self ..) (Or.inr (Or.inl rfl)) (Or.inr (Or.inl rfl))
    (Or.inr (Or.inr rfl)) (fun g hg _ => ?_) ?_
  · intro data hl
    obtain rfl := Option.some.inj ((Table.lookup_put_self ..).symm.trans hl)
    refine ⟨caKey, seed, caCert, (readCaKey_congr ?_).trans hread, hsigned, rfl⟩
    rw [Table.lookup_put_ne (by simp), Table.lookup_put_ne (by simp),
      hg _ (Or.inl (Or.inl rfl)), Table.lookup_put_ne (by simp)]
  refine Learns.ask.bind fun served _ => Learns.mapError.bind fun _ _ => ?_
  refine (Learns.pure (R := (· = (⟨caKey, caCert⟩ : CertAuthority P))) rfl).gets ?_
  rintro _ rfl g hg
  refine ⟨(readCaKey_congr ?_).trans hread, ⟨seed, hsigned⟩, fun denom hd => ?_⟩
  · rw [hg _ (Or.inl (Or.inl rfl)), Table.lookup_put_ne (by simp), Table.lookup_put_ne (by simp),
      Table.lookup_put_ne (by simp)]
  · rw [hg _ (Or.inl (Or.inr ⟨denom, hd, rfl⟩)), Table.lookup_put_ne (by simp [keyPath]),
      Table.lookup_put_ne (by simp [keyPath]), Table.lookup_put_ne (by simp [keyPath])]

theorem certAuthority_gets (hP : P.Documented) (hpub : Published found)
    (hgrew : Grew (startFootprint pid denominations found).Relies found f) :
    Gets (startFootprint pid denominations found) Published (fun ca g =>
      readCaKey g = some ca.caKey ∧ (∃ seed, P.selfSigned ca.caKey seed = .ok ca.caCert) ∧
        ∀ denom ∈ denominations, g.lookup (keyPath denom schemeIdRsaDeterministic) =
          f.lookup (keyPath denom schemeIdRsaDeterministic))
      (CertAuthority.loadOrCreate P pid) f := by
  have hcaKey : (startFootprint pid denominations found).Relies .caKey := Or.inl (Or.inl rfl)
  have hrest : ∀ caKey g, readCaKey g = some caKey ∧
      (∀ path, (startFootprint pid denominations found).Relies path → path ≠ .caKey →
        g.lookup path = f.lookup path) →
      Gets (startFootprint pid denominations found) Published (fun ca g =>
        readCaKey g = some ca.caKey ∧ (∃ seed, P.selfSigned ca.caKey seed = .ok ca.caCert) ∧
          ∀ denom ∈ denominations, g.lookup (keyPath denom schemeIdRsaDeterministic) =
            f.lookup (keyPath denom schemeIdRsaDeterministic)) (publishCert P pid caKey) g := by
    rintro caKey g ⟨hread, hsame⟩
    refine Does.mono (fun r g' h ca hca => ?_) (publishCert_gets hread)
    obtain ⟨hread', hsigned, hkeys⟩ := h ca hca
    exact ⟨hread', hsigned, fun denom hd => (hkeys denom hd).trans
      (hsame _ (Or.inl (Or.inr ⟨denom, hd, rfl⟩)) (by simp [keyPath]))⟩
  refine createDirAll_learns.bind fun _ _ => (Learns.found hcaKey).bind fun there hthere => ?_
  dsimp only
  split
  · refine Gets.bind ((loadCaKey_learns hcaKey).gets ?_) hrest
    exact fun key hread g hg => ⟨(readCaKey_congr (hg _ hcaKey)).trans hread, fun p hp _ => hg p hp⟩
  · rename_i hnot
    have hnone : found.lookup .caKey = none := by
      rw [hthere, Bool.not_eq_true, Option.isSome_eq_false_iff, Option.isNone_iff_eq_none,
        hgrew.others _ hcaKey (by simp)] at hnot
      exact hnot
    have hrelies : (startFootprint pid denominations found).Relies .caCert :=
      Or.inr (Or.inr ⟨rfl, hnone⟩)
    refine Gets.bind (createCaKey_gets hP hcaKey (Or.inl ⟨Or.inl rfl, hnone⟩) hrelies ?_) hrest
    -- A certificate would be the authority's, and there is no key of it.
    rw [hgrew.others _ hrelies (by simp)]
    by_contra hsome
    obtain ⟨data, hl⟩ := Option.ne_none_iff_exists'.mp hsome
    obtain ⟨key, -, -, hread, -⟩ := hpub data hl
    rw [readCaKey, hnone] at hread
    cases hread

/-- What a start that came through has come up with is what the files say. -/
def CameUp (denominations : List UInt64)
    (res : Except StartError (KeyStore X × CertAuthority P)) (f : KeyFiles P) : Prop :=
  ∀ up, res = .ok up → readKeys f denominations ∅ = some up.1.keys ∧
    readCaKey f = some up.2.caKey ∧ ∃ seed, P.selfSigned up.2.caKey seed = .ok up.2.caCert

theorem startUp_does (hP : P.Documented) (hpub : Published found) :
    Does (startFootprint pid denominations found) Published (CameUp denominations)
      (startUp P pid denominations).run found := by
  generalize hF : startFootprint pid denominations found = F
  have hkeys : ∀ denom ∈ denominations, F.Relies (keyPath denom schemeIdRsaDeterministic) :=
    fun denom hd => hF ▸ Or.inl (Or.inr ⟨denom, hd, rfl⟩)
  have hload : Gets F Published (fun out g => readKeys g denominations ∅ = some out.keys ∧
      Grew F.Relies found g) (KeyStore.loadOrCreate P denominations) found := by
    refine createDirAll_learns.bind fun _ _ => ?_
    refine Gets.bind (loadKeys_gets hP (fun _ _ _ hi => hi.put (by simp [keyPath])
      (by simp [keyPath])) hkeys fun denom hd hnone => ?_) fun keys g hg => ?_
    · exact hF ▸ Or.inl ⟨Or.inr ⟨denom, hd, rfl⟩, hnone⟩
    · refine (Learns.pure (R := (· = ⟨keys⟩)) rfl).gets ?_
      rintro _ rfl g' hg'
      exact ⟨(readKeys_congr fun denom hd => hg' _ (hkeys denom hd)).trans hg.1,
        hg.2.trans (.of_agree hg')⟩
  refine Gets.bind hload fun keys g ⟨hread, hgrew⟩ => ?_
  subst hF
  refine Gets.bind (certAuthority_gets hP hpub hgrew) fun ca g' ⟨hca, hsigned, hsame⟩ => ?_
  refine (Learns.pure (R := (· = (keys, ca))) rfl).gets ?_
  rintro _ rfl g'' hg''
  refine ⟨?_, (readCaKey_congr (hg'' _ (Or.inl (Or.inl rfl)))).trans hca, hsigned⟩
  rw [← hread]
  exact readKeys_congr fun denom hd => (hg'' _ (hkeys denom hd)).trans (hsame denom hd)

end StartUp

/-! ## Starts, kills and failures -/

/-- The processes that are started in the key directory, each for some denominations. -/
@[reducible] def starts (P : Provider X) : Programs (keyDir P) where
  Arg := List UInt64
  Res := Except StartError (KeyStore X × CertAuthority P)
  code pid denominations := (startUp P pid denominations).run
  footprint := startFootprint

theorem lookup_of_readKeys {f : KeyFiles P} : ∀ {denominations : List UInt64}
    {keys out : Table (UInt64 × UInt8) (Keypair X)}, readKeys f denominations keys = some out →
    ∀ denom, out.lookup (denom, schemeIdRsaDeterministic) =
      if denom ∈ denominations then readKey f denom
      else keys.lookup (denom, schemeIdRsaDeterministic) := by
  intro denominations
  induction denominations with
  | nil =>
    intro keys out h denom
    obtain rfl := Option.some.inj h
    simp
  | cons first rest ih =>
    intro keys out h denom
    obtain ⟨keypair, hread, hrest⟩ := Option.bind_eq_some_iff.mp h
    rw [ih hrest denom, Table.lookup_put]
    by_cases hmem : denom ∈ rest
    · simp [hmem]
    · by_cases hfirst : denom = first
      · subst hfirst
        simp [hmem, hread]
      · simp [hmem, hfirst]

theorem readKey_of_readKeys {f : KeyFiles P} : ∀ {denominations : List UInt64}
    {keys out : Table (UInt64 × UInt8) (Keypair X)}, readKeys f denominations keys = some out →
    ∀ denom ∈ denominations, ∃ keypair, readKey f denom = some keypair := by
  intro denominations
  induction denominations with
  | nil => exact fun _ _ hd => absurd hd (by simp)
  | cons first rest ih =>
    intro keys out h denom hd
    obtain ⟨keypair, hread, hrest⟩ := Option.bind_eq_some_iff.mp h
    rcases List.mem_cons.mp hd with rfl | hd
    · exact ⟨keypair, hread⟩
    · exact ih hrest denom hd

/-- The files that a start which came up stands on. -/
def StandsOn (denominations : List UInt64)
    (res : Except StartError (KeyStore X × CertAuthority P)) (path : KeyFile) : Prop :=
  (∃ up, res = .ok up) ∧ Uses denominations path

theorem start_rules (hP : P.Documented) :
    Programs.Rules (starts P) Published CameUp StandsOn where
  does pid denominations f hpub := startUp_does hP hpub
  agrees {denominations res f g} h hup := by
    rintro up rfl
    obtain ⟨hkeys, hca, hsigned⟩ := hup up rfl
    have hsame : ∀ path, Uses denominations path → g.lookup path = f.lookup path :=
      fun path hp => h path ⟨⟨up, rfl⟩, hp⟩
    exact ⟨(readKeys_congr fun denom hd => hsame _ (Or.inr ⟨denom, hd, rfl⟩)).trans hkeys,
      (readCaKey_congr (hsame _ (Or.inl rfl))).trans hca, hsigned⟩
  relies h := Or.inl h.2
  kept {pid denominations others res f path} _ hup := by
    rintro ⟨⟨up, rfl⟩, huses⟩ hwrites
    obtain ⟨hkeys, hca, -⟩ := hup up rfl
    have hthere : f.lookup path ≠ none := by
      intro hnone
      rcases huses with rfl | ⟨denom, hd, rfl⟩
      · rw [readCaKey, hnone] at hca
        cases hca
      · obtain ⟨keypair, hread⟩ := readKey_of_readKeys hkeys denom hd
        rw [readKey, hnone] at hread
        cases hread
    rcases hwrites with ⟨-, hnone⟩ | rfl | rfl
    · exact hthere hnone
    · rcases huses with h | ⟨denom, -, h⟩ <;> cases h
    · rcases huses with h | ⟨denom, -, h⟩ <;> cases h

variable {f₀ : KeyFiles P} {s s' : Programs.State (starts P)}

theorem starts_sound (hP : P.Documented) (hpub : Published f₀)
    (h : Programs.Steps (Programs.idle (starts P) f₀) s) :
    Programs.Sound Published CameUp StandsOn s :=
  Programs.sound (start_rules hP) (Programs.sound_idle hpub) h

/-! ## When starts may overlap -/

/-- The key of the authority is there, and so is every denomination's that both look for. -/
def overlaps (s : Programs.State (starts P)) (pid : Nat) (denominations : List UInt64) : Bool :=
  s.live.rows.all fun proc => proc.1 != pid &&
    (s.files.lookup .caKey).isSome && (proc.2.found.lookup .caKey).isSome &&
    denominations.all fun denom => !proc.2.arg.contains denom ||
      (s.files.lookup (keyPath denom schemeIdRsaDeterministic)).isSome &&
        (proc.2.found.lookup (keyPath denom schemeIdRsaDeterministic)).isSome

/-- A start keeps off what another relies on, where it finds all that both look for. -/
theorem apart_of_found {pid pid' : Nat} {denominations others : List UInt64}
    {found found' : KeyFiles P} (hpid : pid ≠ pid') (hca : found.lookup .caKey ≠ none)
    (hca' : found'.lookup .caKey ≠ none)
    (hboth : ∀ denom ∈ denominations, denom ∈ others →
      found.lookup (keyPath denom schemeIdRsaDeterministic) ≠ none) :
    ∀ path, (startFootprint pid denominations found).Writes path →
      ¬ (startFootprint pid' others found').Relies path := by
  rintro path (⟨rfl | ⟨denom, hd, rfl⟩, hnone⟩ | rfl | rfl) hrelies
  · exact hca hnone
  · rcases hrelies with (h | ⟨denom', hd', h⟩) | h | ⟨h, -⟩
    · cases h
    · obtain rfl := (KeyFile.key.inj h).1
      exact hboth denom hd hd' hnone
    · cases h
    · cases h
  · rcases hrelies with (h | ⟨denom', -, h⟩) | h | ⟨h, -⟩
    · cases h
    · cases h
    · exact hpid (KeyFile.caCertTmp.inj h)
    · cases h
  · rcases hrelies with (h | ⟨denom', -, h⟩) | h | ⟨-, hnone⟩
    · cases h
    · cases h
    · cases h
    · exact hca' hnone

theorem careful_of_overlaps {pid : Nat} {denominations : List UInt64}
    (h : overlaps s pid denominations = true) :
    Programs.Careful s (.start pid denominations) := by
  intro pid' proc hl
  have hproc := List.all_eq_true.mp h (pid', proc) (Table.mem_rows.mpr hl)
  simp only [Bool.and_eq_true, bne_iff_ne, List.all_eq_true, Bool.or_eq_true, Bool.not_eq_true',
    List.contains_eq_mem, decide_eq_false_iff_not] at hproc
  obtain ⟨⟨⟨hpid, hca⟩, hca'⟩, hdenoms⟩ := hproc
  have hboth : ∀ denom ∈ denominations, denom ∈ proc.arg →
      s.files.lookup (keyPath denom schemeIdRsaDeterministic) ≠ none ∧
        proc.found.lookup (keyPath denom schemeIdRsaDeterministic) ≠ none := by
    intro denom hd hd'
    obtain hnot | hthere := hdenoms denom hd
    · exact absurd hd' hnot
    · exact hthere.imp Option.ne_none_iff_isSome.mpr Option.ne_none_iff_isSome.mpr
  have hca := Option.ne_none_iff_isSome.mpr hca
  have hca' := Option.ne_none_iff_isSome.mpr hca'
  exact ⟨apart_of_found hpid.symm hca hca' fun denom hd hd' => (hboth denom hd hd').1,
    apart_of_found hpid hca' hca fun denom hd' hd => (hboth denom hd hd').2⟩

/-- The events of a run in which starts overlap only so, and looking for a file does not fail. -/
def unhurried (s : Programs.State (starts P)) : Programs.Event (starts P) → Bool
  | .start pid denominations => overlaps s pid denominations
  | .step pid o =>
    match s.live.lookup pid with
    | some ⟨_, _, .cmd c _⟩ => decide (c.Steady o)
    | _ => true
  | .kill _ => true

theorem careful_of_unhurried {e : Programs.Event (starts P)} (h : unhurried s e = true) :
    Programs.Careful s e := by
  cases e with
  | start pid denominations => exact careful_of_overlaps h
  | kill pid => exact True.intro
  | step pid o =>
    intro arg found c k hl
    rw [unhurried, hl] at h
    exact of_decide_eq_true h

/-! ### Over the smallest keys there are -/

/-- One RSA key, and two of the authority; their PEM is one letter. -/
@[reducible] def Provider.toy : Provider .toy where
  Seed := Bool
  generate _ := .ok ⟨(), ()⟩
  toPem _ := .ok "k"
  fromPem pem := if pem = "k" then .ok () else .error "malformed PEM"
  publicKey _ := .ok ()
  CaKey := Bool
  generateCaKey seed := .ok seed
  serializePem key := if key then "1" else "0"
  caKeyFromPem pem :=
    if pem = "1" then .ok true else if pem = "0" then .ok false else .error "malformed PEM"
  selfSigned key seed := .ok (if key then if seed then "b" else "a" else "x")

theorem Provider.toy_documented : Provider.toy.Documented where
  derives _ _ _ := rfl
  reads _ _ h := by
    obtain rfl := Except.ok.inj h
    rfl
  readsCaKey key := by cases key <;> rfl

/-- Nothing fails, and this is drawn. -/
def drawing (seed : Bool) : Chance (keyDir Provider.toy) where
  fault := none
  reply
    | .makeDir => .ok ()
    | .seed => seed
    | .serverCert => .ok ()

/-- So many steps of a process. -/
def stepsOf (pid : Nat) (seed : Bool) (n : Nat) : List (Programs.Event (starts Provider.toy)) :=
  List.replicate n (.step pid (drawing seed))

/-- A start that makes the keys, and then two at once that draw otherwise. -/
def startedThrice : List (Programs.Event (starts Provider.toy)) :=
  .start 1 [100] :: stepsOf 1 true 16 ++ .start 2 [100] :: .start 3 [100] :: stepsOf 2 false 7 ++
    stepsOf 3 false 12 ++ stepsOf 2 false 5

/-! ## What the key files hold -/

/-- **A bank keeps its keys.** In every state of every run, killed and failed starts included:
    what any start ever came up with, for each of its denominations and for the authority, is
    what the key files say now. -/
theorem keys_kept (hP : P.Documented) (hpub : Published f₀)
    (h : Programs.Steps (Programs.idle (starts P) f₀) s) :
    ∀ e ∈ s.ended, ∀ keys ca, e.2 = .ok (keys, ca) → readCaKey s.files = some ca.caKey ∧
      ∀ denom, keys.get denom schemeIdRsaDeterministic =
        if denom ∈ e.1 then readKey s.files denom else none := by
  intro e he keys ca hres
  obtain ⟨hkeys, hca, -⟩ := (starts_sound hP hpub h).ended e he (keys, ca) hres
  refine ⟨hca, fun denom => (lookup_of_readKeys hkeys denom).trans ?_⟩
  simp

theorem keys_kept_thrice : ∃ s : Programs.State (starts Provider.toy), s.ended.length = 3 ∧
    ∀ e ∈ s.ended, ∀ keys ca, e.2 = .ok (keys, ca) → readCaKey s.files = some ca.caKey ∧
      ∀ denom, keys.get denom schemeIdRsaDeterministic =
        if denom ∈ e.1 then readKey s.files denom else none := by
  have hrun : (Programs.runGuarded unhurried (Programs.idle (starts Provider.toy) ∅) startedThrice).any
      (fun s => decide (s.ended.length = 3)) = true := by decide +kernel
  obtain ⟨s, hs, hp⟩ := (Option.any_eq_true _ _).mp hrun
  exact ⟨s, of_decide_eq_true hp, keys_kept Provider.toy_documented published_empty
    (Programs.steps_of_runGuarded (fun _ _ => careful_of_unhurried) hs)⟩

/-- **A key file that does not read back keeps the bank down.** Once a start left it so, no start
    for its denomination ever comes up again. -/
theorem torn_key_final (hP : P.Documented) (hpub : Published f₀)
    (h : Programs.Steps (Programs.idle (starts P) f₀) s) (h' : Programs.Steps s s')
    {denom : UInt64} {data : List UInt8}
    (hrests : Programs.Rests s (keyPath denom schemeIdRsaDeterministic) data)
    (htorn : readKey s.files denom = none) :
    ∀ e ∈ s'.ended, denom ∈ e.1 → ∀ up, e.2 ≠ .ok up := by
  intro e he hd up hres
  have hsound := starts_sound hP hpub h
  have hstays := hsound.rests (start_rules hP) h' (fun pid denominations f hl hw => ?_) hrests
  · obtain ⟨hkeys, -⟩ := (starts_sound hP hpub (h.trans h')).ended e he up hres
    obtain ⟨keypair, hread⟩ := readKey_of_readKeys hkeys denom hd
    rw [readKey_congr (hstays.1.trans hrests.1.symm), htorn] at hread
    cases hread
  · rcases hw with ⟨-, hnone⟩ | hw | hw
    · rw [hl] at hnone
      cases hnone
    · cases hw
    · cases hw

/-- A start is killed when the file is made, and the next one fails. -/
theorem torn_key_final_killed : ∃ s s' : Programs.State (starts Provider.toy),
    s.files.lookup (keyPath 100 schemeIdRsaDeterministic) = some [] ∧ s'.ended.length = 1 ∧
      ∀ e ∈ s'.ended, 100 ∈ e.1 → ∀ up, e.2 ≠ .ok up := by
  have hrun : (Programs.runGuarded unhurried (Programs.idle (starts Provider.toy) ∅)
      (.start 1 [100] :: stepsOf 1 true 4 ++ [.kill 1])).any (fun s => decide
        (s.files.lookup (keyPath 100 schemeIdRsaDeterministic) = some [] ∧
          s.live.rows.length = 0 ∧ (Programs.runGuarded unhurried s
            (.start 2 [100] :: stepsOf 2 true 4)).any (fun s' =>
              decide (s'.ended.length = 1)) = true)) = true := by decide +kernel
  obtain ⟨s, hs, hp⟩ := (Option.any_eq_true _ _).mp hrun
  obtain ⟨hempty, hidle, hlater⟩ := of_decide_eq_true hp
  obtain ⟨s', hs', hp'⟩ := (Option.any_eq_true _ _).mp hlater
  have hnobody : ∀ pid proc, s.live.lookup pid ≠ some proc := by
    intro pid proc hl
    have hmem := Table.mem_rows.mpr hl
    rw [List.eq_nil_of_length_eq_zero hidle] at hmem
    cases hmem
  refine ⟨s, s', hempty, of_decide_eq_true hp', torn_key_final Provider.toy_documented
    published_empty (Programs.steps_of_runGuarded (fun _ _ => careful_of_unhurried) hs)
    (Programs.steps_of_runGuarded (fun _ _ => careful_of_unhurried) hs')
    ⟨hempty, fun pid proc hl => absurd hl (hnobody pid proc)⟩ ?_⟩
  rw [readKey, hempty]
  decide +kernel

/-- **Whoever reads the certificate sees a whole one**, or none, and it is under the key that
    every start has come up with. -/
theorem certificate_whole (hP : P.Documented) (hpub : Published f₀)
    (h : Programs.Steps (Programs.idle (starts P) f₀) s) {data : List UInt8}
    (hdata : s.files.lookup .caCert = some data) : ∃ key seed pem, data = utf8 pem ∧
      P.selfSigned key seed = .ok pem ∧ readCaKey s.files = some key ∧
        ∀ e ∈ s.ended, ∀ keys ca, e.2 = .ok (keys, ca) → ca.caKey = key := by
  obtain ⟨key, seed, pem, hread, hsigned, rfl⟩ := (starts_sound hP hpub h).inv data hdata
  refine ⟨key, seed, pem, rfl, hsigned, hread, fun e he keys ca hres => ?_⟩
  obtain ⟨-, hca, -⟩ := (starts_sound hP hpub h).ended e he (keys, ca) hres
  exact Option.some.inj (hca.symm.trans hread)

theorem certificate_whole_thrice : ∃ s : Programs.State (starts Provider.toy),
    s.ended.length = 3 ∧ ∃ key seed pem, utf8 "a" = utf8 pem ∧
      Provider.toy.selfSigned key seed = .ok pem ∧ readCaKey s.files = some key ∧
        ∀ e ∈ s.ended, ∀ keys ca, e.2 = .ok (keys, ca) → ca.caKey = key := by
  have hrun : (Programs.runGuarded unhurried (Programs.idle (starts Provider.toy) ∅) startedThrice).any
      (fun s => decide (s.ended.length = 3 ∧ s.files.lookup .caCert = some (utf8 "a"))) = true := by
    decide +kernel
  obtain ⟨s, hs, hp⟩ := (Option.any_eq_true _ _).mp hrun
  obtain ⟨hended, hcert⟩ := of_decide_eq_true hp
  exact ⟨s, hended, certificate_whole Provider.toy_documented published_empty
    (Programs.steps_of_runGuarded (fun _ _ => careful_of_unhurried) hs) hcert⟩

end Bank

end Digicash
