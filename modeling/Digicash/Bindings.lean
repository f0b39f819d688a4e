import Digicash.Bank.Code
import Digicash.Lib.Joined

/-!
# What a signature and a digest bind

A request's signature is over five fields joined by `|`; a transcript is the digest of three
fields with nothing between them. Two readings of such a text differ only where they disagree on
where a field ends. In the signed text the path and the nonce may hold a `|` of their own, in the
digest the bank's id may end in digits; in both cases one number settles it.
-/

namespace Digicash

open Lib

variable {X : Crypto} {m m' p p' n n' : String} {b b' : Bytes} {t t' : UInt64}

/-! ## The fields -/

theorem eq_bar_of_toUpper {c : Char} (h : c.toUpper = '|') : c = '|' := by
  unfold Char.toUpper at h
  split at h
  · -- A lower-case letter becomes an upper-case one.
    rename_i hlower
    have hval := congrArg Char.val h
    have hsub : 'A'.val - 'a'.val = 4294967264 := by decide
    have hbar : '|'.val = 124 := by decide
    have hz : 'z'.val = 122 := by decide
    dsimp only at hval
    rw [hsub, hbar] at hval
    rw [hz] at hlower
    grind
  · exact h

theorem bar_notMem_upper {m : String} (hm : '|' ∉ m.toList) : '|' ∉ m.toList.map Char.toUpper := by
  intro hmem
  obtain ⟨c, hc, hup⟩ := List.mem_map.mp hmem
  exact hm (eq_bar_of_toUpper hup ▸ hc)

theorem bar_notMem_hex : ∀ {bs : Bytes}, '|' ∉ Hex.digits bs := by
  have hdigit : ∀ k < 16, Hex.digit k ≠ '|' := by decide
  intro bs
  induction bs with
  | nil => simp [Hex.digits]
  | cons a bs ih =>
    have ha : a.toNat < 256 := a.toNat_lt
    have hhi := hdigit (a.toNat / 16) (by omega)
    have hlo := hdigit (a.toNat % 16) (by omega)
    simp [Hex.digits, hhi.symm, hlo.symm, ih]

theorem bar_notMem_decimal {k : Nat} : '|' ∉ Nat.toDigits 10 k := by
  intro hmem
  exact absurd (Nat.isDigit_of_mem_toDigits (by decide) (by decide) hmem) (by decide)

theorem decimal_injective {k k' : Nat} (h : Nat.toDigits 10 k = Nat.toDigits 10 k') : k = k' := by
  calc
    k = Nat.ofDigitChars 10 (Nat.toDigits 10 k) 0 := Nat.ofDigitChars_ten_toDigits.symm
    _ = Nat.ofDigitChars 10 (Nat.toDigits 10 k') 0 := by rw [h]
    _ = k' := Nat.ofDigitChars_ten_toDigits

theorem digits_injective {bs bs' : Bytes} (h : Hex.digits bs = Hex.digits bs') : bs = bs' :=
  Hex.encode_injective (congrArg String.ofList h)

theorem length_digits (bs : Bytes) : (Hex.digits bs).length = 2 * bs.length := by
  induction bs with
  | nil => rfl
  | cons a bs ih =>
    simp only [Hex.digits, List.length_cons, ih]
    omega

theorem length_decimal (t : UInt64) : (toString t).length = (Nat.toDigits 10 t.toNat).length := by
  show t.toNat.repr.length = _
  rw [← String.length_toList, Nat.toList_repr]

/-! ## The signed text -/

theorem canonicalPayload_toList : (canonicalPayload X m p b t n).toList =
    m.toList.map Char.toUpper ++ '|' :: (p.toList ++ '|' :: (Hex.digits (X.sha256 b) ++
      '|' :: (Nat.toDigits 10 t.toNat ++ '|' :: n.toList))) := by
  simp [canonicalPayload, Hex.encode, toString]

/-- Up to the path both texts are read alike. -/
theorem canonicalPayload_method (hm : '|' ∉ m.toList) (hm' : '|' ∉ m'.toList)
    (h : canonicalPayload X m p b t n = canonicalPayload X m' p' b' t' n') :
    m.toList.map Char.toUpper = m'.toList.map Char.toUpper ∧
      p.toList ++ '|' :: (Hex.digits (X.sha256 b) ++
        '|' :: (Nat.toDigits 10 t.toNat ++ '|' :: n.toList)) =
      p'.toList ++ '|' :: (Hex.digits (X.sha256 b') ++
        '|' :: (Nat.toDigits 10 t'.toNat ++ '|' :: n'.toList)) := by
  have hlist := congrArg String.toList h
  rw [canonicalPayload_toList, canonicalPayload_toList] at hlist
  exact Joined.split_of_notMem (bar_notMem_upper hm) (bar_notMem_upper hm') hlist

/-- From the path on they are, if their paths hold equally many `|`. -/
theorem canonicalPayload_fields (hm : '|' ∉ m.toList) (hm' : '|' ∉ m'.toList)
    (h : canonicalPayload X m p b t n = canonicalPayload X m' p' b' t' n')
    (hp : p.toList.count '|' = p'.toList.count '|') :
    m.map Char.toUpper = m'.map Char.toUpper ∧ p = p' ∧ X.sha256 b = X.sha256 b' ∧ t = t' ∧
      n = n' := by
  obtain ⟨hmethod, hrest⟩ := canonicalPayload_method hm hm' h
  obtain ⟨hpath, hrest⟩ := Joined.split hp hrest
  obtain ⟨hbody, hrest⟩ := Joined.split_of_notMem bar_notMem_hex bar_notMem_hex hrest
  obtain ⟨htime, hnonce⟩ := Joined.split_of_notMem bar_notMem_decimal bar_notMem_decimal hrest
  refine ⟨?_, String.toList_inj.mp hpath, digits_injective hbody,
    UInt64.toNat_inj.mp (decimal_injective htime), String.toList_inj.mp hnonce⟩
  rw [← String.toList_inj, String.toList_map, String.toList_map]
  exact hmethod

/-- **What the signed text determines.** Two requests with one signed text are the same request,
    method letters' case apart, if and only if their nonces hold equally many `|`. -/
theorem payload_determines (hsha : Function.Injective X.sha256) (hm : '|' ∉ m.toList)
    (hm' : '|' ∉ m'.toList)
    (h : canonicalPayload X m p b t n = canonicalPayload X m' p' b' t' n') :
    (m.map Char.toUpper = m'.map Char.toUpper ∧ p = p' ∧ b = b' ∧ t = t' ∧ n = n') ↔
      n.toList.count '|' = n'.toList.count '|' := by
  constructor
  · rintro ⟨-, -, -, -, rfl⟩
    rfl
  · intro hn
    obtain ⟨-, hrest⟩ := canonicalPayload_method hm hm' h
    have hp : p.toList.count '|' = p'.toList.count '|' := by
      have hcount := congrArg (List.count '|') hrest
      simp only [List.count_append, List.count_cons_self,
        List.count_eq_zero_of_not_mem bar_notMem_hex,
        List.count_eq_zero_of_not_mem bar_notMem_decimal, hn] at hcount
      omega
    obtain ⟨hmethod, hpath, hbody, htime, hnonce⟩ := canonicalPayload_fields hm hm' h hp
    exact ⟨hmethod, hpath, hsha hbody, htime, hnonce⟩

/-- The case of the method's letters is not signed. -/
theorem payload_determines_case :
    ("post".map Char.toUpper = "POST".map Char.toUpper ∧ "/withdraw" = "/withdraw" ∧
      ([1] : Bytes) = [1] ∧ (7 : UInt64) = 7 ∧ "0a" = "0a") ↔
        "0a".toList.count '|' = "0a".toList.count '|' := by
  have hcase : "post".map Char.toUpper = "POST".map Char.toUpper := by
    rw [← String.toList_inj, String.toList_map, String.toList_map]
    decide
  have hsame : canonicalPayload .toy "post" "/withdraw" [1] 7 "0a" =
      canonicalPayload .toy "POST" "/withdraw" [1] 7 "0a" := by
    rw [canonicalPayload, canonicalPayload, hcase]
  exact payload_determines (fun _ _ h => h) (by decide) (by decide) hsame

/-- **With a `|` in the path and in a nonce** the end of the path can be read in two ways. -/
theorem payload_ambiguous :
    canonicalPayload .toy "POST" "/a" (.replicate 32 0) 1 (Hex.encode (.replicate 32 0) ++ "|1|n") =
      canonicalPayload .toy "POST" ("/a|" ++ Hex.encode (.replicate 32 0) ++ "|1")
        (.replicate 32 0) 1 "n" ∧
      "/a" ≠ "/a|" ++ Hex.encode (.replicate 32 0) ++ "|1" := by
  refine ⟨?_, by decide⟩
  rw [← String.toList_inj, canonicalPayload_toList, canonicalPayload_toList]
  decide +kernel

/-! ## The transcript digest -/

theorem utf8_append (s s' : String) : utf8 (s ++ s') = utf8 s ++ utf8 s' := by
  simp [utf8]

theorem utf8_injective : Function.Injective utf8 := by
  intro s s' h
  exact String.toByteArray_inj.mp (ByteArray.ext (Array.ext' h))

/-- **What a transcript digest determines.** Two equal digests are of one serial, and of one bank
    and one time if and only if their timestamps have equally many digits. -/
theorem transcript_determines (hsha : Function.Injective X.sha256)
    {client client' : Bank.RegistryClient} {serial serial' : Serial}
    (h : client.transcript X (Hex.encode serial.1) t =
      client'.transcript X (Hex.encode serial'.1) t') :
    serial = serial' ∧ (client.bankId = client'.bankId ∧ t = t' ↔
      (toString t).length = (toString t').length) := by
  have hbytes := hsha (Hex.encode_injective h)
  have htext : Hex.digits serial.1 ++ (client.bankId.toList ++ Nat.toDigits 10 t.toNat) =
      Hex.digits serial'.1 ++ (client'.bankId.toList ++ Nat.toDigits 10 t'.toNat) := by
    rw [← utf8_append, ← utf8_append, ← utf8_append, ← utf8_append] at hbytes
    simpa [Hex.encode, toString] using congrArg String.toList (utf8_injective hbytes)
  have hlen : (Hex.digits serial.1).length = (Hex.digits serial'.1).length := by
    rw [length_digits, length_digits, serial.2, serial'.2]
  obtain ⟨hserial, hrest⟩ := List.append_inj htext hlen
  refine ⟨Subtype.ext (digits_injective hserial), ?_, fun hdigits => ?_⟩
  · rintro ⟨-, rfl⟩
    rfl
  · have hsame : (Nat.toDigits 10 t.toNat).length = (Nat.toDigits 10 t'.toNat).length := by
      rw [← length_decimal, ← length_decimal, hdigits]
    obtain ⟨hbank, htime⟩ := List.append_inj' hrest hsame
    exact ⟨String.toList_inj.mp hbank, UInt64.toNat_inj.mp (decimal_injective htime)⟩

/-- The same bank, at one time. -/
theorem transcript_determines_same : toySerial 1 = toySerial 1 ∧
    ((⟨"b", "i"⟩ : Bank.RegistryClient).bankId = (⟨"b", "j"⟩ : Bank.RegistryClient).bankId ∧
      (12 : UInt64) = 12 ↔ (toString (12 : UInt64)).length = (toString (12 : UInt64)).length) :=
  @transcript_determines .toy _ _ (fun _ _ h => h) ⟨"b", "i"⟩ ⟨"b", "j"⟩ _ _ rfl

/-- **A digit can be the end of the bank's id or the beginning of the time.** -/
theorem transcript_ambiguous :
    (⟨"b", "i"⟩ : Bank.RegistryClient).transcript .toy (Hex.encode (toySerial 1).1) 12 =
      (⟨"b1", "i"⟩ : Bank.RegistryClient).transcript .toy (Hex.encode (toySerial 1).1) 2 := by
  decide +kernel

end Digicash
