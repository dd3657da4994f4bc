import DepGraph.Key
import DepGraph.Proofs.Text.Digits
import Mathlib.Algebra.Ring.Nat
import Mathlib.Data.List.Nodup

/-!
# The order of keys

Texts are compared character by character. That is the order of their bytes (`Text.lt_iff_bytes`): the first
byte of a character tells how many follow, more for greater characters, and those that follow are its digits
in base 64. So keys are ordered by kind, aspect, context and name, texts by their bytes
(`Key.compare_lt_iff`).
-/

namespace DepGraph

namespace Text

/-! ## The bytes of a character -/

/-- The last bytes of a character, one for each of the last digits of its number in base 64. -/
def trail (v : ℕ) : ℕ → List UInt8
  | 0 => []
  | n + 1 => UInt8.ofNat (v / 64 ^ n % 64 + 128) :: trail v n

/-- The number of bytes that follow the first. -/
def following (v : ℕ) : ℕ :=
  if v ≤ 0x7f then 0 else if v ≤ 0x7ff then 1 else if v ≤ 0xffff then 2 else 3

/-- What the first byte says of the number of bytes that follow. -/
def mark : ℕ → ℕ
  | 0 => 0
  | 1 => 0xc0
  | 2 => 0xe0
  | _ => 0xf0

/-- The first byte of a character. -/
def lead (v : ℕ) : ℕ := v / 64 ^ following v + mark (following v)

theorem encode_eq (c : Char) : String.utf8EncodeChar c =
    UInt8.ofNat (lead c.val.toNat) :: trail c.val.toNat (following c.val.toNat) := by
  have hlast := toNat_lt_last c
  unfold String.utf8EncodeChar lead following
  generalize c.val.toNat = v at hlast
  simp only
  split_ifs with h₁ h₂ h₃
  · simp [mark, trail]
  · have hlead : v / 64 % 32 = v / 64 := by omega
    simp [mark, trail, hlead]
  · have hlead : v / 4096 % 16 = v / 4096 := by omega
    simp [mark, trail, hlead]
  · have hlead : v / 262144 % 8 = v / 262144 := by omega
    simp [mark, trail, hlead]

/-- The first byte of a greater character is greater, or the characters first differ in a later digit. -/
theorem lead_lt {v w : ℕ} (h : v < w) : lead v < lead w ∨
    lead v = lead w ∧ following v = following w ∧ v / 64 ^ following v = w / 64 ^ following w := by
  unfold lead following
  split_ifs <;> simp [mark] <;> omega

theorem lead_lt_byte {v : ℕ} (h : v < 0x110000) : lead v < 256 := by
  unfold lead following
  split_ifs <;> simp [mark] <;> omega

theorem ofNat_lt_ofNat {a b : ℕ} (hb : b < 256) (h : a < b) : UInt8.ofNat a < UInt8.ofNat b := by
  rw [UInt8.lt_iff_toNat_lt, UInt8.toNat_ofNat', UInt8.toNat_ofNat']
  omega

/-- Numbers that agree in all but the last digits are ordered as these. -/
theorem trail_lt {v w : ℕ} (h : v < w) (x y : List UInt8) : ∀ n : ℕ, v / 64 ^ n = w / 64 ^ n →
    trail v n ++ x < trail w n ++ y := by
  intro n
  induction n with
  | zero =>
    intro heq
    simp only [pow_zero, Nat.div_one] at heq
    omega
  | succ n ih =>
    intro heq
    have hle : v / 64 ^ n ≤ w / 64 ^ n := Nat.div_le_div_right (by omega)
    rw [pow_succ, ← Nat.div_div_eq_div_mul, ← Nat.div_div_eq_div_mul] at heq
    rw [trail, trail, List.cons_append, List.cons_append, List.cons_lt_cons_iff]
    rcases Nat.eq_or_lt_of_le hle with hsame | hless
    · exact Or.inr ⟨by rw [hsame], ih hsame⟩
    · exact Or.inl (ofNat_lt_ofNat (by omega) (by omega))

/-- **Greater characters have greater bytes**, whatever follows. -/
theorem encode_lt {c d : Char} (h : c < d) (x y : List UInt8) :
    String.utf8EncodeChar c ++ x < String.utf8EncodeChar d ++ y := by
  have hlt : c.val.toNat < d.val.toNat := h
  rw [encode_eq, encode_eq, List.cons_append, List.cons_append, List.cons_lt_cons_iff]
  rcases lead_lt hlt with hlead | ⟨hlead, hfollowing, hdigits⟩
  · exact Or.inl (ofNat_lt_ofNat (lead_lt_byte (toNat_lt_last d)) hlead)
  · rw [hfollowing] at hdigits ⊢
    exact Or.inr ⟨by rw [hlead], trail_lt hlt x y _ hdigits⟩

/-! ## Texts -/

/-- The bytes of a text. -/
def bytes (s : String) : List UInt8 := s.toUTF8.data.toList

theorem bytes_eq (s : String) : bytes s = s.toList.flatMap String.utf8EncodeChar := by
  have h := utf8_ofList s.toList
  rwa [String.ofList_toList] at h

theorem flatMap_lt : ∀ {cs ds : List Char}, cs < ds →
    cs.flatMap String.utf8EncodeChar < ds.flatMap String.utf8EncodeChar := by
  intro cs ds h
  induction h with
  | nil =>
    rw [List.flatMap_cons, encode_eq]
    exact List.nil_lt_cons _ _
  | cons _ ih =>
    rw [List.flatMap_cons, List.flatMap_cons]
    exact List.append_left_lt ih
  | rel hcd =>
    rw [List.flatMap_cons, List.flatMap_cons]
    exact encode_lt hcd _ _

/-- **The order of texts is the order of their bytes.** -/
theorem lt_iff_bytes {s t : String} : s < t ↔ bytes s < bytes t := by
  rw [bytes_eq, bytes_eq]
  constructor
  · exact flatMap_lt
  · intro h
    by_contra hst
    by_cases hts : t < s
    · exact List.lt_asymm h (flatMap_lt hts)
    · have heq : s = t := String.le_antisymm hts hst
      rw [heq] at h
      exact List.lt_irrefl _ h

theorem compare_lt_iff {s t : String} : compare s t = .lt ↔ bytes s < bytes t := by
  rw [← lt_iff_bytes]
  exact compareOfLessAndEq_eq_lt

end Text

/-! ## Keys -/

namespace Key

/-- **One key comes before another**: by kind, aspect, context and name, texts by their bytes. -/
def Before (a b : Key) : Prop :=
  a.kind.rank < b.kind.rank ∨ a.kind = b.kind ∧
    (a.aspect.rank < b.aspect.rank ∨ a.aspect = b.aspect ∧
      (Text.bytes a.context < Text.bytes b.context ∨ a.context = b.context ∧
        Text.bytes a.name < Text.bytes b.name))

/-- The order that the graph uses is this one. -/
theorem compare_lt_iff {a b : Key} : compare a b = .lt ↔ a.Before b := by
  have hkind : a.kind.rank = b.kind.rank ↔ a.kind = b.kind := ⟨Kind.eq_of_rank_eq, congrArg Kind.rank⟩
  have haspect : a.aspect.rank = b.aspect.rank ↔ a.aspect = b.aspect :=
    ⟨Aspect.eq_of_rank_eq, congrArg Aspect.rank⟩
  change order a b = .lt ↔ _
  simp only [order, compareLex, compareOn, Ordering.then_eq_lt, Nat.compare_eq_lt,
    Std.LawfulEqOrd.compare_eq_iff_eq, Text.compare_lt_iff, hkind, haspect, Before]

theorem Before.asymm {a b : Key} (h : a.Before b) : ¬ b.Before a := by
  rw [← compare_lt_iff] at h ⊢
  rw [Std.OrientedOrd.eq_swap, h]
  decide

/-- What stands in ascending order of keys follows from what there is. -/
theorem ascending_ext {α : Type} (key : α → Key) {l l' : List α}
    (hl : l.Pairwise fun a b => (key a).Before (key b))
    (hl' : l'.Pairwise fun a b => (key a).Before (key b)) (h : ∀ a, a ∈ l ↔ a ∈ l') : l = l' := by
  have hnodup : ∀ {l : List α}, (l.Pairwise fun a b => (key a).Before (key b)) → l.Nodup := by
    intro l hl
    refine hl.imp ?_
    rintro a b hab rfl
    exact hab.asymm hab
  have hperm : l.Perm l' := (List.perm_ext_iff_of_nodup (hnodup hl) (hnodup hl')).2 h
  exact hperm.eq_of_pairwise (fun a b _ _ hab hba => absurd hba hab.asymm) hl hl'

end Key

end DepGraph
