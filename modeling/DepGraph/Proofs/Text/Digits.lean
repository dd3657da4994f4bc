import DepGraph.Fingerprint
import DepGraph.Text.Digit
import DepGraph.Text.Utf8
import Mathlib.Tactic.Common
import Mathlib.Tactic.IntervalCases

/-!
# Digits and bytes read back

* `Text.number?_toDigits`: the digits of a number, in any base up to sixteen, stand for it.
* `Text.glyphs_toUTF8`: the bytes of a text are its characters again.
* `Fingerprint.parse_text`: a fingerprint is read from its written form.
-/

namespace DepGraph

namespace Text

/-! ## Digits -/

theorem digit?_digitChar {base d : ℕ} (hb : base ≤ 16) (hd : d < base) :
    digit? base d.digitChar = some d := by
  have h16 : d < 16 := by omega
  interval_cases d <;> exact if_pos hd

theorem digit?_hexDigit {d : ℕ} (hd : d < 16) : digit? 16 (hexDigit d) = some d := by
  interval_cases d <;> rfl

theorem isDigit_toDigits {n : ℕ} {c : Char} (h : c ∈ Nat.toDigits 10 n) : '0' ≤ c ∧ c ≤ '9' := by
  have := Nat.isDigit_of_mem_toDigits (by omega) (by omega) h
  simpa [Char.isDigit, Char.le_def] using this

/-- Appends digits to a number. -/
theorem foldlM_digits {base : ℕ} (hb : 1 < base) (h16 : base ≤ 16) (n : ℕ) :
    (Nat.toDigits base n).foldlM (fun n c => (digit? base c).map (n * base + ·)) 0 = some n := by
  induction n using Nat.base_induction base hb with
  | single d hd =>
    rw [Nat.toDigits_of_lt_base hd, List.foldlM_cons, digit?_digitChar h16 hd]
    simp
  | digit n d hd hn ih =>
    rw [← Nat.toDigits_append_toDigits hb hn hd, List.foldlM_append, ih,
      Nat.toDigits_of_lt_base hd]
    simp [digit?_digitChar h16 hd, Nat.mul_comm]

/-- **The digits of a number stand for it.** -/
theorem number?_toDigits {base : ℕ} (hb : 1 < base) (h16 : base ≤ 16) (n : ℕ) :
    number? base (Nat.toDigits base n) = some n := by
  rw [number?, if_neg (by simp [Nat.toDigits_ne_nil])]
  exact foldlM_digits hb h16 n

theorem digit?_toUpper {d : ℕ} (hd : d < 16) : digit? 16 d.digitChar.toUpper = some d := by
  interval_cases d <;> rfl

theorem head_toDigits {n : ℕ} (h : 0 < n) : (Nat.toDigits 10 n).head? ≠ some '0' := by
  induction n using Nat.base_induction 10 (by omega) with
  | single d hd =>
    rw [Nat.toDigits_of_lt_base hd]
    interval_cases d <;> decide
  | digit n d hd hn ih =>
    rw [← Nat.toDigits_append_toDigits (by omega) hn hd, List.head?_append]
    cases hc : Nat.toDigits 10 n with
    | nil => exact absurd hc Nat.toDigits_ne_nil
    | cons c cs =>
      rw [hc] at ih
      exact ih hn

/-! ## Bytes -/

theorem toNat_lt_last (c : Char) : c.val.toNat < 0x110000 := by
  rcases c.valid with hv | ⟨-, hv⟩
  · exact Nat.lt_trans hv (by decide)
  · exact hv

/-- A text of which each character takes one byte. -/
theorem length_utf8 {cs : List Char} (h : ∀ c ∈ cs, ∃ b, String.utf8EncodeChar c = [b]) :
    (cs.flatMap String.utf8EncodeChar).length = cs.length := by
  induction cs with
  | nil => rfl
  | cons c rest ih =>
    obtain ⟨⟨b, hb⟩, hrest⟩ := List.forall_mem_cons.1 h
    rw [List.flatMap_cons, List.length_append, hb, ih hrest, List.length_singleton, List.length_cons]
    omega

theorem utf8_ofList (cs : List Char) :
    (String.ofList cs).toUTF8.data.toList = cs.flatMap String.utf8EncodeChar := by
  simp [List.utf8Encode]

theorem fromUTF8?_toUTF8 (s : String) : String.fromUTF8? s.toUTF8 = some s := by
  unfold String.fromUTF8?
  rw [dif_pos (by simpa using s.isValidUTF8)]
  rfl

/-- **The bytes of a text are its characters.** -/
theorem glyphs_toUTF8 (s : String) : glyphs s.toUTF8 = s.toList.map some := by
  rw [glyphs, fromUTF8?_toUTF8]

end Text

/-! ## Fingerprints -/

namespace Fingerprint

theorem utf8_hexDigit {n : UInt8} (h : n < 16) :
    ∃ b, String.utf8EncodeChar (hexDigit n) = [b] ∧ hexValue? b = some n := by
  -- sixteen cases, as a natural number so that they can be listed
  have key : ∀ n : ℕ, n < 16 →
      ∃ b, String.utf8EncodeChar (hexDigit (.ofNat n)) = [b] ∧ hexValue? b = some (.ofNat n) := by
    intro n hn
    interval_cases n <;> exact ⟨_, rfl, rfl⟩
  obtain ⟨b, hb, hv⟩ := key n.toNat h
  rw [UInt8.ofNat_toNat] at hb hv
  exact ⟨b, hb, hv⟩

theorem div_mod_sixteen (b : UInt8) : b / 16 < 16 ∧ b % 16 < 16 ∧ b / 16 * 16 + b % 16 = b := by
  have hb := b.toNat_lt
  refine ⟨?_, ?_, ?_⟩
  · rw [UInt8.lt_iff_toNat_lt, UInt8.toNat_div]
    change b.toNat / 16 < 16
    omega
  · rw [UInt8.lt_iff_toNat_lt, UInt8.toNat_mod]
    change b.toNat % 16 < 16
    omega
  · rw [← UInt8.toNat_inj, UInt8.toNat_add, UInt8.toNat_mul, UInt8.toNat_div, UInt8.toNat_mod]
    change (b.toNat / 16 * 16 % 256 + b.toNat % 16) % 256 = b.toNat
    omega

theorem decodePairs_bytes : ∀ (bytes : List UInt8) (position : ℕ),
    decodePairs position ((bytes.flatMap byteText).flatMap String.utf8EncodeChar) = .ok bytes := by
  intro bytes
  induction bytes with
  | nil => intro position; rfl
  | cons b rest ih =>
    intro position
    obtain ⟨hq, hr, hb⟩ := div_mod_sixteen b
    obtain ⟨high, hh, hhv⟩ := utf8_hexDigit hq
    obtain ⟨low, hl, hlv⟩ := utf8_hexDigit hr
    have hcons : ((b :: rest).flatMap byteText).flatMap String.utf8EncodeChar =
        high :: low :: (rest.flatMap byteText).flatMap String.utf8EncodeChar := by
      simp [byteText, hh, hl]
    rw [hcons, decodePairs, digitAt, digitAt, hhv, hlv]
    change (decodePairs (position + 2) _ >>= fun more => pure ((b / 16 * 16 + b % 16) :: more)) = _
    rw [ih, hb]
    rfl

/-- Each byte is written as the digits of two numbers below sixteen. -/
theorem mem_byteText {b : UInt8} {c : Char} (h : c ∈ byteText b) : ∃ v < 16, c = hexDigit v := by
  obtain ⟨hq, hr, -⟩ := div_mod_sixteen b
  rcases List.mem_cons.1 h with rfl | h
  · exact ⟨_, hq, rfl⟩
  · exact ⟨_, hr, List.mem_singleton.1 h⟩

theorem length_byteTexts (bytes : List UInt8) : (bytes.flatMap byteText).length = 2 * bytes.length := by
  induction bytes with
  | nil => rfl
  | cons b rest ih =>
    rw [List.flatMap_cons, List.length_append, ih, List.length_cons]
    change 2 + _ = _
    omega

/-- **A fingerprint is read from its written form.** -/
theorem parse_text (f : Fingerprint) : parse f.text = .ok f := by
  have hlen := f.length_bytes
  have hsingle : ∀ c ∈ f.bytes.flatMap byteText, ∃ b, String.utf8EncodeChar c = [b] := by
    intro c hc
    obtain ⟨b, -, hb⟩ := List.mem_flatMap.1 hc
    obtain ⟨v, hv, rfl⟩ := mem_byteText hb
    obtain ⟨byte, hbyte, -⟩ := utf8_hexDigit hv
    exact ⟨byte, hbyte⟩
  have h32 : ((f.bytes.flatMap byteText).flatMap String.utf8EncodeChar).length = 32 := by
    rw [Text.length_utf8 hsingle, length_byteTexts, hlen]
  rw [parse, text, Text.utf8_ofList, if_neg (not_not.2 h32), decodePairs_bytes]
  simp only [ofBytes?, hlen, dite_true]

end Fingerprint

end DepGraph
