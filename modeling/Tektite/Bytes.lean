import Mathlib.Data.List.Basic
import Mathlib.Data.String.Basic

/-!
# Byte strings and their order

Go's byte slices are lists of `UInt8`; a `nil` slice and an empty one are both `[]`. `Bytes.compare` is
`bytes.Compare`, the order every key comparison of the SSTable uses. It is a strict total order
(`compare_swap`, `compare_eq_iff`, `compare_lt_trans`).

The index region stores each key zero-padded to the longest key length (`pad`). Padding keeps the order of
strictly increasing keys up to ties (`pad_ne_gt_pad`), and a padded key is below a lookup key exactly when the key
is, unless the lookup key is the key followed by zero bytes inside the padding (`pad_lt_iff`, `ZeroExt`).
-/

set_option autoImplicit false

namespace Tektite

theorem byte_eq_of_not_lt {a b : UInt8} (h₁ : ¬a < b) (h₂ : ¬b < a) : a = b :=
  UInt8.le_antisymm (UInt8.not_lt.1 h₂) (UInt8.not_lt.1 h₁)

namespace Bytes

/-- Go's `bytes.Compare`: lexicographic order on unsigned bytes, a proper prefix first. -/
def compare : List UInt8 → List UInt8 → Ordering
  | [], [] => .eq
  | [], _ :: _ => .lt
  | _ :: _, [] => .gt
  | a :: as, b :: bs => if a < b then .lt else if b < a then .gt else compare as bs

@[simp] theorem compare_nil_nil : compare [] [] = .eq := rfl
@[simp] theorem compare_nil_cons (b : UInt8) (bs : List UInt8) : compare [] (b :: bs) = .lt := rfl
@[simp] theorem compare_cons_nil (a : UInt8) (as : List UInt8) : compare (a :: as) [] = .gt := rfl

theorem compare_cons_cons (a b : UInt8) (as bs : List UInt8) :
    compare (a :: as) (b :: bs) = if a < b then .lt else if b < a then .gt else compare as bs := rfl

@[simp] theorem compare_cons_self (a : UInt8) (as bs : List UInt8) :
    compare (a :: as) (a :: bs) = compare as bs := by
  simp [compare_cons_cons]

@[simp] theorem compare_self : ∀ a : List UInt8, compare a a = .eq
  | [] => rfl
  | _ :: as => by simp [compare_self as]

theorem compare_nil_lt_iff {b : List UInt8} : compare [] b = .lt ↔ b ≠ [] := by
  cases b <;> simp

@[simp] theorem compare_nil_ne_gt (b : List UInt8) : compare [] b ≠ .gt := by
  cases b <;> simp

@[simp] theorem compare_ne_lt_nil (a : List UInt8) : compare a [] ≠ .lt := by
  cases a <;> simp

theorem compare_cons_lt_iff {a b : UInt8} {as bs : List UInt8} :
    compare (a :: as) (b :: bs) = .lt ↔ a < b ∨ a = b ∧ compare as bs = .lt := by
  rw [compare_cons_cons]
  by_cases h₁ : a < b
  · simp [h₁]
  · by_cases h₂ : b < a
    · simp [h₁, h₂, (UInt8.ne_of_lt h₂).symm]
    · simp [h₁, h₂, byte_eq_of_not_lt h₁ h₂]

theorem compare_swap : ∀ a b : List UInt8, (compare a b).swap = compare b a
  | [], [] | [], _ :: _ | _ :: _, [] => rfl
  | a :: as, b :: bs => by
    simp only [compare_cons_cons]
    by_cases h₁ : a < b
    · simp [h₁, UInt8.lt_asymm h₁, Ordering.swap]
    · by_cases h₂ : b < a
      · simp [h₁, h₂, Ordering.swap]
      · simp [h₁, h₂, compare_swap as bs]

theorem compare_eq_iff {a b : List UInt8} : compare a b = .eq ↔ a = b := by
  constructor
  · intro h
    induction a generalizing b with
    | nil => cases b <;> simp_all
    | cons x xs ih =>
      cases b with
      | nil => simp at h
      | cons y ys =>
        rw [compare_cons_cons] at h
        by_cases h₁ : x < y
        · simp [h₁] at h
        · by_cases h₂ : y < x
          · simp [h₁, h₂] at h
          · simp only [h₁, h₂, if_false] at h
            rw [byte_eq_of_not_lt h₁ h₂, ih h]
  · rintro rfl; exact compare_self a

theorem compare_lt_trans : ∀ {a b c : List UInt8}, compare a b = .lt → compare b c = .lt → compare a c = .lt
  | [], _, [], _, h₂ => absurd h₂ (compare_ne_lt_nil _)
  | [], _, _ :: _, _, _ => rfl
  | _ :: _, [], _, h₁, _ => by simp at h₁
  | _ :: _, _ :: _, [], _, h₂ => by simp at h₂
  | a :: as, b :: bs, c :: cs, h₁, h₂ => by
    rw [compare_cons_lt_iff] at *
    rcases h₁ with h₁ | ⟨rfl, h₁⟩ <;> rcases h₂ with h₂ | ⟨rfl, h₂⟩
    · exact .inl (UInt8.lt_trans h₁ h₂)
    · exact .inl h₁
    · exact .inl h₂
    · exact .inr ⟨rfl, compare_lt_trans h₁ h₂⟩

@[simp] theorem bne_lt_eq_false (c : Ordering) : (c != .lt) = false ↔ c = .lt := by cases c <;> decide

@[simp] theorem bne_lt_eq_true (c : Ordering) : (c != .lt) = true ↔ c ≠ .lt := by cases c <;> decide

theorem compare_ne_gt_iff {a b : List UInt8} : compare a b ≠ .gt ↔ compare a b = .lt ∨ a = b := by
  rw [← compare_eq_iff]; cases compare a b <;> simp

theorem compare_ne_lt_iff {a b : List UInt8} : compare a b ≠ .lt ↔ compare b a ≠ .gt := by
  rw [← compare_swap a b]; cases compare a b <;> simp [Ordering.swap]

theorem compare_lt_of_lt_of_ne_gt {a b c : List UInt8} (h₁ : compare a b = .lt) (h₂ : compare b c ≠ .gt) :
    compare a c = .lt := by
  rcases compare_ne_gt_iff.1 h₂ with h₂ | rfl
  · exact compare_lt_trans h₁ h₂
  · exact h₁

theorem compare_lt_of_ne_gt_of_lt {a b c : List UInt8} (h₁ : compare a b ≠ .gt) (h₂ : compare b c = .lt) :
    compare a c = .lt := by
  rcases compare_ne_gt_iff.1 h₁ with h₁ | rfl
  · exact compare_lt_trans h₁ h₂
  · exact h₂

/-! ## Zero padding -/

theorem byte_not_lt_zero (y : UInt8) : ¬y < 0 := by
  show ¬y.toNat < 0; omega

/-- `key` padded on the right with zero bytes to `m` bytes, as an index record holds it. -/
def pad (m : Nat) (key : List UInt8) : List UInt8 := key ++ List.replicate (m - key.length) 0

theorem length_pad {m : Nat} {key : List UInt8} (h : key.length ≤ m) : (pad m key).length = m := by
  simp [pad]; omega

@[simp] theorem pad_nil (m : Nat) : pad m [] = List.replicate m 0 := by simp [pad]

@[simp] theorem pad_cons (m : Nat) (a : UInt8) (as : List UInt8) : pad (m + 1) (a :: as) = a :: pad m as := by
  simp [pad]

/-- `k` is `a` followed by between one and `m - |a|` zero bytes: the lookup keys that `pad m a` does not order as
`a` orders them. -/
def ZeroExt (m : Nat) (a k : List UInt8) : Prop :=
  ∃ r, k = a ++ r ∧ r ≠ [] ∧ (∀ x ∈ r, x = 0) ∧ a.length + r.length ≤ m

theorem zeroExt_nil {m : Nat} {k : List UInt8} :
    ZeroExt m [] k ↔ k ≠ [] ∧ (∀ x ∈ k, x = 0) ∧ k.length ≤ m := by
  simp [ZeroExt]

theorem zeroExt_cons {m : Nat} {a b : UInt8} {as bs : List UInt8} :
    ZeroExt (m + 1) (a :: as) (b :: bs) ↔ a = b ∧ ZeroExt m as bs := by
  simp only [ZeroExt, List.cons_append, List.cons.injEq, List.length_cons]
  constructor
  · rintro ⟨r, ⟨rfl, rfl⟩, hr⟩; exact ⟨rfl, r, rfl, hr.1, hr.2.1, by omega⟩
  · rintro ⟨rfl, r, rfl, hr⟩; exact ⟨r, ⟨rfl, rfl⟩, hr.1, hr.2.1, by omega⟩

@[simp] theorem not_zeroExt_nil_right (m : Nat) (a : List UInt8) : ¬ZeroExt m a [] := by
  simp [ZeroExt]

theorem zeroExt_iff {m : Nat} {a k : List UInt8} :
    ZeroExt m a k ↔ a <+: k ∧ a.length < k.length ∧ k.length ≤ m ∧ ∀ x ∈ k.drop a.length, x = 0 := by
  constructor
  · rintro ⟨r, rfl, hr, hz, hm⟩
    have : 0 < r.length := List.length_pos.2 hr
    exact ⟨List.prefix_append a r, by simp [this], by simpa using hm, by simpa using hz⟩
  · rintro ⟨⟨r, rfl⟩, hl, hm, hz⟩
    simp only [List.length_append, List.drop_left] at hl hm hz
    exact ⟨r, rfl, List.ne_nil_of_length_pos (by omega), hz, hm⟩

instance (m : Nat) (a k : List UInt8) : Decidable (ZeroExt m a k) := decidable_of_iff _ zeroExt_iff.symm

theorem compare_replicate_ne_gt : ∀ {m : Nat} {c : List UInt8}, m ≤ c.length →
    compare (List.replicate m 0) c ≠ .gt
  | 0, c, _ => compare_nil_ne_gt c
  | _ + 1, [], h => by simp at h
  | m + 1, y :: ys, h => by
    rw [List.replicate_succ, compare_cons_cons]
    by_cases hy : 0 < y
    · simp [hy]
    · simp only [hy, byte_not_lt_zero, if_false]
      exact compare_replicate_ne_gt (by simp at h; omega)

theorem compare_replicate_lt_iff : ∀ {m : Nat} {k : List UInt8},
    compare (List.replicate m 0) k = .lt ↔ k ≠ [] ∧ ¬((∀ x ∈ k, x = 0) ∧ k.length ≤ m)
  | _, [] => by simp
  | 0, y :: ys => by simp
  | m + 1, y :: ys => by
    rw [List.replicate_succ, compare_cons_lt_iff, compare_replicate_lt_iff]
    by_cases hy : y = 0
    · subst hy
      simp only [byte_not_lt_zero, false_or, true_and, List.mem_cons, forall_eq_or_imp, List.length_cons,
        Nat.add_le_add_iff_right, ne_eq, reduceCtorEq, not_false_eq_true, and_iff_right_iff_imp]
      rintro h rfl; simp at h
    · have : (0 : UInt8) < y := by
        show 0 < y.toNat
        rcases Nat.eq_zero_or_pos y.toNat with h | h
        · exact absurd (show y = 0 from UInt8.ext h) hy
        · exact h
      simp [this, hy]

/-- Padding keeps the order of keys, and may only make neighbours equal. -/
theorem pad_ne_gt_pad : ∀ {m : Nat} {a b : List UInt8}, compare a b = .lt → b.length ≤ m →
    compare (pad m a) (pad m b) ≠ .gt
  | m, [], b, _, hb => by rw [pad_nil]; exact compare_replicate_ne_gt (by rw [length_pad hb])
  | _, _ :: _, [], h, _ => by simp at h
  | 0, _ :: _, _ :: _, _, hb => by simp at hb
  | m + 1, a :: as, b :: bs, h, hb => by
    rw [pad_cons, pad_cons]
    rcases compare_cons_lt_iff.1 h with hab | ⟨rfl, hs⟩
    · simp [compare_cons_cons, hab]
    · rw [compare_cons_self]; exact pad_ne_gt_pad hs (by simp at hb; omega)

/-- A padded key is below a lookup key exactly when the key itself is, unless the lookup key is the key followed by
zero bytes that the padding covers. -/
theorem pad_lt_iff : ∀ {m : Nat} {a k : List UInt8}, a.length ≤ m →
    (compare (pad m a) k = .lt ↔ compare a k = .lt ∧ ¬ZeroExt m a k)
  | m, [], k, _ => by rw [pad_nil, compare_replicate_lt_iff, zeroExt_nil, compare_nil_lt_iff]; tauto
  | 0, _ :: _, _, h => by simp at h
  | _ + 1, _ :: _, [], _ => by simp
  | m + 1, a :: as, b :: bs, h => by
    rw [pad_cons, compare_cons_lt_iff, compare_cons_lt_iff, zeroExt_cons, pad_lt_iff (by simp at h; omega)]
    by_cases hab : a = b
    · simp [hab]
    · simp [hab]

end Bytes
end Tektite
