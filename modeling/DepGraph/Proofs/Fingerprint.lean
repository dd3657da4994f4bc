import DepGraph.Proofs.Graph.Invariant
import DepGraph.Proofs.KeyOrder

/-!
# Which texts are fingerprints

A text is a fingerprint just when it has 32 hexadecimal digits of either case, and what is written is the
same text in lowercase (`text_codec`). The reader counts bytes and takes them in pairs. That comes to the same
as counting characters, for the first byte of a character that takes several is no digit
(`isHexDigit_of_bytes`).
-/

namespace DepGraph.Fingerprint

/-- A hexadecimal digit of either case. -/
def IsHexDigit (c : Char) : Prop :=
  '0' ≤ c ∧ c ≤ '9' ∨ 'a' ≤ c ∧ c ≤ 'f' ∨ 'A' ≤ c ∧ c ≤ 'F'

/-- A hexadecimal digit that is no capital. -/
def IsLowerDigit (c : Char) : Prop := '0' ≤ c ∧ c ≤ '9' ∨ 'a' ≤ c ∧ c ≤ 'f'

variable {s : String} {f : Fingerprint} {c : Char} {b : UInt8}

/-! ## One digit -/

/-- The byte of a digit has the value of that digit in lowercase. -/
theorem encode_hexDigit (h : IsHexDigit c) : ∃ b v, String.utf8EncodeChar c = [b] ∧
    hexValue? b = some v ∧ v < 16 ∧ hexDigit v = c.toLower := by
  have key : ∀ n : ℕ, (48 ≤ n ∧ n ≤ 57 ∨ 97 ≤ n ∧ n ≤ 102 ∨ 65 ≤ n ∧ n ≤ 70) →
      ∃ b v, String.utf8EncodeChar (Char.ofNat n) = [b] ∧
        hexValue? b = some v ∧ v < 16 ∧ hexDigit v = (Char.ofNat n).toLower := by
    intro n hn
    rcases hn with ⟨hl, hu⟩ | ⟨hl, hu⟩ | ⟨hl, hu⟩ <;> interval_cases n <;>
      exact ⟨_, _, rfl, rfl, by decide, rfl⟩
  have hc := key c.toNat h
  rwa [Char.ofNat_toNat] at hc

/-- The bytes with a value are those of digits. -/
theorem byte_of_hexValue {v : UInt8} (h : hexValue? b = some v) :
    48 ≤ b.toNat ∧ b.toNat ≤ 57 ∨ 97 ≤ b.toNat ∧ b.toNat ≤ 102 ∨ 65 ≤ b.toNat ∧ b.toNat ≤ 70 := by
  unfold hexValue? at h
  split_ifs at h with h₁ h₂ h₃
  · exact Or.inl h₁
  · exact Or.inr (Or.inl h₂)
  · exact Or.inr (Or.inr h₃)

/-- A character whose bytes all have a value is a digit. -/
theorem isHexDigit_of_bytes (h : ∀ b ∈ String.utf8EncodeChar c, (hexValue? b).isSome) : IsHexDigit c := by
  rw [Text.encode_eq] at h
  obtain ⟨v, hv⟩ := Option.isSome_iff_exists.1 (h _ List.mem_cons_self)
  have hbyte := byte_of_hexValue hv
  have hlast := Text.lead_lt_byte (Text.toNat_lt_last c)
  rw [UInt8.toNat_ofNat', Nat.mod_eq_of_lt hlast] at hbyte
  -- no first byte of several is that small
  have hone : Text.lead c.val.toNat = c.val.toNat := by
    unfold Text.lead Text.following at hbyte ⊢
    split_ifs at hbyte ⊢ <;> simp [Text.mark] at hbyte ⊢
  rw [hone] at hbyte
  exact hbyte

/-! ## Pairs of digits -/

theorem div_mod_of_digits {x y : UInt8} (hx : x < 16) (hy : y < 16) :
    (x * 16 + y) / 16 = x ∧ (x * 16 + y) % 16 = y := by
  rw [UInt8.lt_iff_toNat_lt] at hx hy
  change x.toNat < 16 at hx
  change y.toNat < 16 at hy
  have hsum : (x * 16 + y).toNat = x.toNat * 16 + y.toNat := by
    rw [UInt8.toNat_add, UInt8.toNat_mul]
    change (x.toNat * 16 % 256 + y.toNat) % 256 = _
    omega
  constructor
  · rw [← UInt8.toNat_inj, UInt8.toNat_div, hsum]
    change (x.toNat * 16 + y.toNat) / 16 = x.toNat
    omega
  · rw [← UInt8.toNat_inj, UInt8.toNat_mod, hsum]
    change (x.toNat * 16 + y.toNat) % 16 = y.toNat
    omega

theorem digitAt_eq_ok {v : UInt8} {position : ℕ} : digitAt b position = .ok v ↔ hexValue? b = some v := by
  unfold digitAt
  cases hexValue? b <;> simp

/-- What is read in pairs are bytes with a value. -/
theorem isSome_of_decodePairs {bytes : List UInt8} {position : ℕ} (heven : bytes.length % 2 = 0) :
    ∀ {decoded : List UInt8}, decodePairs position bytes = .ok decoded →
      ∀ b ∈ bytes, (hexValue? b).isSome := by
  induction position, bytes using decodePairs.induct with
  | case1 position high low rest ih =>
    intro decoded h
    obtain ⟨x, hx, h⟩ := exists_of_bind h
    obtain ⟨y, hy, h⟩ := exists_of_bind h
    obtain ⟨more, hmore, -⟩ := exists_of_bind h
    rw [digitAt_eq_ok] at hx hy
    have hrest : rest.length % 2 = 0 := by simp at heven; omega
    intro b hb
    rcases List.mem_cons.1 hb with rfl | hb
    · rw [hx]; rfl
    · rcases List.mem_cons.1 hb with rfl | hb
      · rw [hy]; rfl
      · exact ih hrest hmore b hb
  | case2 bytes position hpair =>
    intro decoded _ b hb
    cases bytes with
    | nil => cases hb
    | cons high rest =>
      cases rest with
      | nil => simp at heven
      | cons low rest => exact absurd rfl (hpair high low rest)

/-- **Digits in pairs are the bytes that are written as these digits in lowercase.** -/
theorem decodePairs_hexDigits : ∀ (cs : List Char) (position : ℕ), cs.length % 2 = 0 →
    (∀ c ∈ cs, IsHexDigit c) → ∃ decoded,
      decodePairs position (cs.flatMap String.utf8EncodeChar) = .ok decoded ∧
        decoded.flatMap byteText = cs.map Char.toLower
  | [], _, _, _ => ⟨[], rfl, rfl⟩
  | [_], _, heven, _ => by simp at heven
  | c :: d :: rest, position, heven, hdigits => by
    obtain ⟨hc, hd, hrest⟩ : IsHexDigit c ∧ IsHexDigit d ∧ ∀ c ∈ rest, IsHexDigit c := by
      simpa using hdigits
    obtain ⟨high, x, hhigh, hx, hx16, hxc⟩ := encode_hexDigit hc
    obtain ⟨low, y, hlow, hy, hy16, hyd⟩ := encode_hexDigit hd
    obtain ⟨more, hmore, hwritten⟩ :=
      decodePairs_hexDigits rest (position + 2) (by simp at heven; omega) hrest
    refine ⟨(x * 16 + y) :: more, ?_, ?_⟩
    · rw [List.flatMap_cons, List.flatMap_cons, hhigh, hlow]
      change decodePairs position (high :: low :: rest.flatMap String.utf8EncodeChar) = _
      rw [decodePairs, digitAt_eq_ok.2 hx, digitAt_eq_ok.2 hy]
      change (decodePairs (position + 2) _ >>= fun more => pure ((x * 16 + y) :: more)) = _
      rw [hmore]
      rfl
    · obtain ⟨hdiv, hmod⟩ := div_mod_of_digits hx16 hy16
      rw [List.flatMap_cons, byteText, hdiv, hmod, hxc, hyd, hwritten]
      rfl

/-! ## Whole texts -/

theorem isLowerDigit_hexDigit {v : UInt8} (h : v < 16) : IsLowerDigit (hexDigit v) := by
  have key : ∀ n : ℕ, n < 16 → IsLowerDigit (hexDigit (.ofNat n)) := by
    intro n hn
    unfold IsLowerDigit
    interval_cases n <;> decide
  have hv := key v.toNat h
  rwa [UInt8.ofNat_toNat] at hv

/-- A fingerprint is written as 32 digits in lowercase. -/
theorem text_digits (f : Fingerprint) :
    f.text.toList.length = 32 ∧ ∀ c ∈ f.text.toList, IsLowerDigit c := by
  rw [text, String.toList_ofList]
  constructor
  · rw [length_byteTexts, f.length_bytes]
  · intro c hc
    obtain ⟨b, -, hb⟩ := List.mem_flatMap.1 hc
    obtain ⟨v, hv, rfl⟩ := mem_byteText hb
    exact isLowerDigit_hexDigit hv

theorem length_of_parse (h : parse s ≠ .error (.length s)) : (Text.bytes s).length = 32 := by
  by_contra hlength
  exact h (if_pos hlength)

theorem parse_of_error {byte : UInt8} {position : ℕ} (hbytes : (Text.bytes s).length = 32)
    (h : decodePairs 0 (Text.bytes s) = .error (byte, position)) :
    parse s = .error (.digit s byte position) := by
  unfold Text.bytes at hbytes h
  rw [parse, if_neg (not_not.2 hbytes), h]

theorem parse_of_decoded {decoded : List UInt8} (hbytes : (Text.bytes s).length = 32)
    (h : decodePairs 0 (Text.bytes s) = .ok decoded) (hsize : decoded.length = 16) :
    parse s = .ok ⟨decoded, hsize⟩ := by
  unfold Text.bytes at hbytes h
  rw [parse, if_neg (not_not.2 hbytes), h]
  simp only [ofBytes?, hsize, dite_true]

theorem length_bytes_hexDigits {cs : List Char} (h : ∀ c ∈ cs, IsHexDigit c) :
    (cs.flatMap String.utf8EncodeChar).length = cs.length := by
  refine Text.length_utf8 fun c hc => ?_
  obtain ⟨b, -, hb, -⟩ := encode_hexDigit (h c hc)
  exact ⟨b, hb⟩

/-- A text of 32 digits is read, and written in lowercase. -/
theorem parse_hexDigits (hlength : s.toList.length = 32) (hdigits : ∀ c ∈ s.toList, IsHexDigit c) :
    ∃ f, parse s = .ok f ∧ f.text = s.toLower := by
  have hbytes : (Text.bytes s).length = 32 := by
    rw [Text.bytes_eq, length_bytes_hexDigits hdigits, hlength]
  obtain ⟨decoded, hdecoded, hwritten⟩ := decodePairs_hexDigits s.toList 0 (by rw [hlength]) hdigits
  have hsize : decoded.length = 16 := by
    have := congrArg List.length hwritten
    rw [length_byteTexts, List.length_map, hlength] at this
    omega
  refine ⟨⟨decoded, hsize⟩, parse_of_decoded hbytes ?_ hsize, ?_⟩
  · rw [Text.bytes_eq, hdecoded]
  · change String.ofList (decoded.flatMap byteText) = s.map Char.toLower
    rw [hwritten, ← String.toList_map, String.ofList_toList]

/-- Only digits are read in pairs. -/
theorem hexDigits_of_decodePairs {decoded : List UInt8} (hbytes : (Text.bytes s).length = 32)
    (h : decodePairs 0 (Text.bytes s) = .ok decoded) : ∀ c ∈ s.toList, IsHexDigit c := by
  have hvalues := isSome_of_decodePairs (by rw [hbytes]) h
  rw [Text.bytes_eq] at hvalues
  intro c hc
  exact isHexDigit_of_bytes fun b hb => hvalues b (List.mem_flatMap.2 ⟨c, hc, hb⟩)

/-- A text that is read has 32 digits. -/
theorem hexDigits_of_parse (h : parse s = .ok f) :
    s.toList.length = 32 ∧ ∀ c ∈ s.toList, IsHexDigit c := by
  have hbytes := length_of_parse (by rw [h]; simp)
  cases hdecoded : decodePairs 0 (Text.bytes s) with
  | error found => rw [parse_of_error hbytes hdecoded] at h; cases h
  | ok decoded =>
    have hdigits := hexDigits_of_decodePairs hbytes hdecoded
    rw [Text.bytes_eq, length_bytes_hexDigits hdigits] at hbytes
    exact ⟨hbytes, hdigits⟩

/-- A text of 32 bytes is refused just when one of its characters is no digit. -/
theorem parse_digit_iff : (∃ byte position, parse s = .error (.digit s byte position)) ↔
    s.utf8ByteSize = 32 ∧ ∃ c ∈ s.toList, ¬ IsHexDigit c := by
  change _ ↔ (Text.bytes s).length = 32 ∧ _
  constructor
  · rintro ⟨byte, position, h⟩
    have hbytes := length_of_parse (by rw [h]; simp)
    refine ⟨hbytes, ?_⟩
    by_contra hall
    push Not at hall
    have hlength := hbytes
    rw [Text.bytes_eq, length_bytes_hexDigits hall] at hlength
    obtain ⟨f, hf, -⟩ := parse_hexDigits hlength hall
    rw [hf] at h
    cases h
  · rintro ⟨hbytes, c, hc, hnot⟩
    cases hdecoded : decodePairs 0 (Text.bytes s) with
    | error found => exact ⟨found.1, found.2, parse_of_error hbytes hdecoded⟩
    | ok decoded => exact absurd (hexDigits_of_decodePairs hbytes hdecoded c hc) hnot

/-- **Texts and fingerprints.** A text is read just when it has 32 digits of either case, and is then written
in lowercase; any other text of 32 bytes is refused for a byte that is no digit. Sixteen bytes are written as
32 digits in lowercase, which are read as these bytes. -/
theorem text_codec :
    (∀ s : String, (∃ f, parse s = .ok f) ↔ s.toList.length = 32 ∧ ∀ c ∈ s.toList, IsHexDigit c) ∧
    (∀ (s : String) (f : Fingerprint), parse s = .ok f → f.text = s.toLower) ∧
    (∀ s : String, (∃ byte position, parse s = .error (.digit s byte position)) ↔
      s.utf8ByteSize = 32 ∧ ∃ c ∈ s.toList, ¬ IsHexDigit c) ∧
    ∀ bytes : Vector UInt8 16, ∃ f, ofBytes? bytes.toList = some f ∧ f.bytes = bytes.toList ∧
      f.text.toList.length = 32 ∧ (∀ c ∈ f.text.toList, IsLowerDigit c) ∧ parse f.text = .ok f := by
  refine ⟨?_, ?_, fun s => parse_digit_iff, ?_⟩
  · intro s
    constructor
    · rintro ⟨f, h⟩
      exact hexDigits_of_parse h
    · rintro ⟨hlength, hdigits⟩
      obtain ⟨f, h, -⟩ := parse_hexDigits hlength hdigits
      exact ⟨f, h⟩
  · intro s f h
    obtain ⟨hlength, hdigits⟩ := hexDigits_of_parse h
    obtain ⟨f', h', htext⟩ := parse_hexDigits hlength hdigits
    rw [h] at h'
    cases h'
    exact htext
  · intro bytes
    have hlength : bytes.toList.length = 16 := bytes.length_toList
    obtain ⟨hwritten, hlower⟩ := text_digits ⟨bytes.toList, hlength⟩
    exact ⟨⟨bytes.toList, hlength⟩, dif_pos hlength, rfl, hwritten, hlower, parse_text _⟩

/-- Capitals are read, and not written. -/
theorem text_codec_capitals : ∃ f, parse "0123456789abcdefABCDEF9876543210" = .ok f ∧
    f.text = "0123456789abcdefabcdef9876543210" := by
  obtain ⟨f, hf⟩ := exists_of_isOk
    (by decide +kernel : (parse "0123456789abcdefABCDEF9876543210").isOk = true)
  have hlower : "0123456789abcdefABCDEF9876543210".toLower = "0123456789abcdefabcdef9876543210" := by
    decide +kernel
  exact ⟨f, hf, (text_codec.2.1 _ f hf).trans hlower⟩

end DepGraph.Fingerprint
