import Mathlib

/-!
# The `strings` and `strconv` functions of the column-type parser

Go strings are byte strings, and the functions the parser calls work on bytes: `strings.HasPrefix`,
`strings.IndexRune` with an ASCII rune, `strings.Trim` with an ASCII cutset, and `strconv.Atoi`; the Kafka
provider splits its broker list with `strings.Split`. They are modelled from their documentation; `formatInt` is the
`%d` verb of `fmt`. A string literal of the source is its UTF-8 bytes (`utf8`).

`atoi` accepts exactly an optional sign and a non-empty run of decimal digits whose value fits in `int64`
(`atoi_eq_some_iff`), and it reads back what `formatInt` writes (`atoi_formatInt`). `trim` removes exactly the
cutset bytes around a core that starts and ends outside the cutset (`trim_eq`).
-/

set_option autoImplicit false

namespace Tektite

/-- The bytes of a Go string literal: its UTF-8 encoding. -/
def utf8 (s : String) : List UInt8 := s.toUTF8.data.toList

namespace Strings

/-- `strings.HasPrefix`. -/
def hasPrefix (s pre : List UInt8) : Bool := pre.length ≤ s.length && s.take pre.length == pre

/-- `strings.IndexRune` for an ASCII rune `r`: the index of the first byte `r`, or `-1`. -/
def indexRune (s : List UInt8) (r : UInt8) : Int :=
  match s.findIdx? (· == r) with
  | some i => i
  | none => -1

/-- `strings.Trim` for a cutset of ASCII bytes: the cutset's bytes removed from both ends. -/
def trim (s cutset : List UInt8) : List UInt8 :=
  ((s.dropWhile (· ∈ cutset)).reverse.dropWhile (· ∈ cutset)).reverse

/-- `strings.Split` for a one-byte separator: the pieces between the separators, one more than there are
separators (so the empty string gives one empty piece). -/
def split (s : List UInt8) (sep : UInt8) : List (List UInt8) := s.splitOn sep

/-- `strings.Split` gives at least one piece. -/
theorem split_ne_nil (s : List UInt8) (sep : UInt8) : split s sep ≠ [] := List.splitOnP_ne_nil _ _

theorem hasPrefix_append (pre s : List UInt8) : hasPrefix (pre ++ s) pre = true := by
  simp [hasPrefix]

theorem hasPrefix_iff {s pre : List UInt8} : hasPrefix s pre = true ↔ ∃ r, s = pre ++ r := by
  simp only [hasPrefix, Bool.and_eq_true, decide_eq_true_eq, beq_iff_eq]
  constructor
  · rintro ⟨-, h⟩
    exact ⟨s.drop pre.length, by conv_lhs => rw [← List.take_append_drop pre.length s, h]⟩
  · rintro ⟨r, rfl⟩; simp

theorem findIdx?_append_cons {r : UInt8} {b : List UInt8} :
    ∀ {a : List UInt8}, r ∉ a → (a ++ r :: b).findIdx? (· == r) = some a.length
  | [], _ => by simp [List.findIdx?_cons]
  | c :: a, ha => by
    simp only [List.mem_cons, not_or] at ha
    simp [List.findIdx?_cons, Ne.symm ha.1, findIdx?_append_cons ha.2]

theorem indexRune_append {a b : List UInt8} {r : UInt8} (ha : r ∉ a) : indexRune (a ++ r :: b) r = a.length := by
  simp [indexRune, findIdx?_append_cons ha]

theorem dropWhile_of_head {p : UInt8 → Bool} :
    ∀ {l : List UInt8}, (∀ c ∈ l.head?, p c = false) → l.dropWhile p = l
  | [], _ => rfl
  | c :: _, h => List.dropWhile_cons_of_neg (by simpa using h c rfl)

/-- A core that starts and ends outside the cutset is what `trim` leaves of it with cutset bytes around. -/
theorem trim_eq {lead core trail cutset : List UInt8} (hl : ∀ c ∈ lead, c ∈ cutset)
    (ht : ∀ c ∈ trail, c ∈ cutset) (hh : ∀ c ∈ core.head?, c ∉ cutset)
    (hg : ∀ c ∈ core.getLast?, c ∉ cutset) :
    trim (lead ++ core ++ trail) cutset = core := by
  have hl' : ∀ c ∈ lead, decide (c ∈ cutset) = true := by simpa using hl
  have ht' : ∀ c ∈ trail, decide (c ∈ cutset) = true := by simpa using ht
  unfold trim
  rw [List.append_assoc, List.dropWhile_append_of_pos hl']
  rcases core.eq_nil_or_concat with rfl | ⟨init, x, rfl⟩
  · rw [List.nil_append, List.dropWhile_eq_nil_iff.2 ht']; rfl
  · rw [List.concat_eq_append] at hh hg ⊢
    have hx : x ∉ cutset := hg x (by simp)
    have h1 : (init ++ [x] ++ trail).dropWhile (fun c => decide (c ∈ cutset)) = init ++ [x] ++ trail :=
      dropWhile_of_head (by rw [List.head?_append_of_ne_nil _ (by simp)]; simpa using hh)
    rw [h1, List.reverse_append, List.dropWhile_append_of_pos (by simpa using ht'), List.reverse_append]
    simp [hx]

/-- `trim` leaves a part of `s` with cutset bytes around it. -/
theorem trim_spec (s cutset : List UInt8) :
    ∃ lead trail, s = lead ++ trim s cutset ++ trail ∧ (∀ c ∈ lead, c ∈ cutset) ∧
      ∀ c ∈ trail, c ∈ cutset := by
  let t := s.dropWhile (· ∈ cutset)
  refine ⟨s.takeWhile (· ∈ cutset), (t.reverse.takeWhile (· ∈ cutset)).reverse, ?_,
    fun c hc => by simpa using List.mem_takeWhile_imp hc,
    fun c hc => by simpa using List.mem_takeWhile_imp (List.mem_reverse.1 hc)⟩
  have ht : t = (t.reverse.dropWhile (· ∈ cutset)).reverse ++ (t.reverse.takeWhile (· ∈ cutset)).reverse := by
    rw [← List.reverse_append, List.takeWhile_append_dropWhile, List.reverse_reverse]
  calc s = s.takeWhile (· ∈ cutset) ++ t := (List.takeWhile_append_dropWhile _ _).symm
    _ = _ := by rw [List.append_assoc]; exact congrArg _ ht

theorem indexRune_ne_neg_one {s : List UInt8} {r : UInt8} (h : indexRune s r ≠ -1) :
    ∃ a b, s = a ++ r :: b ∧ indexRune s r = a.length := by
  unfold indexRune at *
  cases hf : s.findIdx? (· == r) with
  | none => simp [hf] at h
  | some i =>
    obtain ⟨hi, hr, -⟩ := List.findIdx?_eq_some_iff_getElem.1 hf
    refine ⟨s.take i, s.drop (i + 1), ?_, by simp [List.length_take_of_le hi.le]⟩
    rw [← beq_iff_eq.1 hr, ← List.drop_eq_getElem_cons hi, List.take_append_drop]
end Strings

namespace Strconv

/-- `c` is one of the bytes `0` to `9`. -/
def IsDigit (c : UInt8) : Prop := 48 ≤ c.toNat ∧ c.toNat ≤ 57

instance : DecidablePred IsDigit := fun _ => inferInstanceAs (Decidable (_ ∧ _))

/-- The number the decimal digits `ds` spell after the number `acc`. -/
def decimalNat (acc : Nat) (ds : List UInt8) : Nat := ds.foldl (fun n c => n * 10 + (c.toNat - 48)) acc

/-- The value of a run of decimal digits after `acc`, or `none` at a byte that is not a digit: the digit loop of
`strconv.Atoi`. -/
def digitsValue (acc : Nat) (ds : List UInt8) : Option Nat :=
  ds.foldlM (fun n ch => if IsDigit ch then some (n * 10 + (ch.toNat - 48)) else none) acc

/-- `strconv.Atoi` with Go's 64-bit `int`: an optional sign, then at least one decimal digit, with a value that
fits; `none` for its syntax and range errors. -/
def atoi (s0 : List UInt8) : Option Int :=
  let neg := s0.head? = some 45
  let s := if neg ∨ s0.head? = some 43 then s0.tail else s0
  if s = [] then none
  else (digitsValue 0 s).bind fun n =>
    let v : Int := if neg then -n else n
    if -2 ^ 63 ≤ v ∧ v < 2 ^ 63 then some v else none

/-- The `%d` verb of `fmt`: the decimal digits of `n`, after `-` when it is negative. -/
def formatInt (n : Int) : List UInt8 := utf8 (toString n)

/-- `s` spells the integer `v` in decimal: digits, `+` and digits, or `-` and digits. -/
def SpellsInt (s : List UInt8) (v : Int) : Prop :=
  ∃ ds, ds ≠ [] ∧ (∀ c ∈ ds, IsDigit c) ∧
    (s = ds ∧ v = decimalNat 0 ds ∨ s = 43 :: ds ∧ v = decimalNat 0 ds ∨
      s = 45 :: ds ∧ v = -(decimalNat 0 ds : Int))

/-! ### `atoi` accepts exactly the signed decimal numerals of `int64` -/

theorem digitsValue_cons (acc : Nat) (c : UInt8) (ds : List UInt8) :
    digitsValue acc (c :: ds) = if IsDigit c then digitsValue (acc * 10 + (c.toNat - 48)) ds else none := by
  by_cases hc : IsDigit c <;> simp [digitsValue, hc]

theorem digitsValue_eq : ∀ (acc : Nat) (ds : List UInt8),
    digitsValue acc ds = if ∀ c ∈ ds, IsDigit c then some (decimalNat acc ds) else none
  | acc, [] => by simp [digitsValue, decimalNat]
  | acc, c :: ds => by
    rw [digitsValue_cons, digitsValue_eq]
    by_cases hc : IsDigit c <;> simp [hc, decimalNat]

theorem not_isDigit_plus : ¬IsDigit 43 := by decide
theorem not_isDigit_minus : ¬IsDigit 45 := by decide

/-- The digit run after the sign. -/
theorem atoi_digits {ds : List UInt8} {f : Nat → Int} {v : Int} :
    (if ds = [] then none
      else (digitsValue 0 ds).bind fun n => if -2 ^ 63 ≤ f n ∧ f n < 2 ^ 63 then some (f n) else none) = some v ↔
      (ds ≠ [] ∧ (∀ c ∈ ds, IsDigit c) ∧ v = f (decimalNat 0 ds)) ∧ -2 ^ 63 ≤ v ∧ v < 2 ^ 63 := by
  rw [digitsValue_eq]
  by_cases h0 : ds = []
  · simp [h0]
  by_cases hd : ∀ c ∈ ds, IsDigit c
  · rw [if_neg h0, if_pos hd, Option.some_bind]
    split_ifs with hr
    · exact ⟨fun h => ⟨⟨h0, hd, (Option.some.inj h).symm⟩, (Option.some.inj h) ▸ hr⟩,
        fun h => h.1.2.2 ▸ rfl⟩
    · simp only [reduceCtorEq, false_iff, not_and]
      rintro ⟨-, -, rfl⟩ h₁ h₂; exact hr ⟨h₁, h₂⟩
  · simp [h0, hd]

/-- Behind a sign byte, a numeral is a non-empty run of digits, negated after `-`. -/
theorem spellsInt_sign {σ : UInt8} {rest : List UInt8} {v : Int} (hσ : σ = 45 ∨ σ = 43) :
    SpellsInt (σ :: rest) v ↔
      rest ≠ [] ∧ (∀ c ∈ rest, IsDigit c) ∧ v = if σ = 45 then -(decimalNat 0 rest : Int) else decimalNat 0 rest := by
  have hσd : ¬IsDigit σ := by rcases hσ with rfl | rfl <;> decide
  constructor
  · rintro ⟨ds, hne, hd, ⟨rfl, -⟩ | ⟨h, rfl⟩ | ⟨h, rfl⟩⟩
    · exact absurd (hd σ (.head _)) hσd
    · obtain ⟨rfl, rfl⟩ := List.cons.inj h
      exact ⟨hne, hd, by simp⟩
    · obtain ⟨rfl, rfl⟩ := List.cons.inj h
      exact ⟨hne, hd, by simp⟩
  · rintro ⟨hne, hd, rfl⟩
    rcases hσ with rfl | rfl
    · exact ⟨rest, hne, hd, .inr (.inr ⟨rfl, rfl⟩)⟩
    · exact ⟨rest, hne, hd, .inr (.inl ⟨rfl, rfl⟩)⟩

/-- A numeral is what `atoi` reads: the digits after the sign, negated after `-`. -/
theorem spellsInt_iff {s : List UInt8} {v : Int} :
    SpellsInt s v ↔
      let ds := if s.head? = some 45 ∨ s.head? = some 43 then s.tail else s
      ds ≠ [] ∧ (∀ c ∈ ds, IsDigit c) ∧
        v = if s.head? = some 45 then -(decimalNat 0 ds : Int) else decimalNat 0 ds := by
  rcases s with _ | ⟨c, rest⟩
  · simp only [SpellsInt, List.head?_nil, reduceCtorEq, or_self, if_false, ne_eq, not_true_eq_false, false_and,
      iff_false, not_exists, not_and]
    rintro ds hne - (⟨rfl, -⟩ | ⟨⟩ | ⟨⟩)
    exact hne rfl
  by_cases hσ : c = 45 ∨ c = 43
  · simp only [spellsInt_sign hσ, List.head?_cons, Option.some.injEq, hσ, if_true, List.tail_cons]
  · simp only [not_or] at hσ
    simp only [SpellsInt, List.head?_cons, Option.some.injEq, hσ.1, hσ.2, or_self, if_false]
    constructor
    · rintro ⟨ds, hne, hd, ⟨rfl, rfl⟩ | ⟨h, -⟩ | ⟨h, -⟩⟩
      · exact ⟨hne, hd, rfl⟩
      · exact absurd (List.cons.inj h).1 hσ.2
      · exact absurd (List.cons.inj h).1 hσ.1
    · rintro ⟨hne, hd, hv⟩; exact ⟨_, hne, hd, .inl ⟨rfl, hv⟩⟩

theorem SpellsInt.ne_nil {s : List UInt8} {v : Int} (h : SpellsInt s v) : s ≠ [] := by
  obtain ⟨ds, hne, -, ⟨rfl, -⟩ | ⟨rfl, -⟩ | ⟨rfl, -⟩⟩ := h <;> simp [hne]

/-- A numeral holds digits and signs only. -/
theorem SpellsInt.mem {s : List UInt8} {v : Int} (h : SpellsInt s v) :
    ∀ c ∈ s, IsDigit c ∨ c = 43 ∨ c = 45 := by
  obtain ⟨ds, -, hd, ⟨rfl, -⟩ | ⟨rfl, -⟩ | ⟨rfl, -⟩⟩ := h
  · exact fun c hc => .inl (hd c hc)
  all_goals
    intro c hc
    rcases List.mem_cons.1 hc with rfl | hc
    · simp
    · exact .inl (hd c hc)

theorem atoi_eq_some_iff {s : List UInt8} {v : Int} :
    atoi s = some v ↔ SpellsInt s v ∧ -2 ^ 63 ≤ v ∧ v < 2 ^ 63 := by
  rw [spellsInt_iff]
  exact atoi_digits

theorem utf8EncodeChar_digitChar : ∀ d < 10, String.utf8EncodeChar (Nat.digitChar d) = [UInt8.ofNat (48 + d)] := by
  decide

theorem decimalNat_append (acc : Nat) (xs ys : List UInt8) :
    decimalNat acc (xs ++ ys) = decimalNat (decimalNat acc xs) ys := List.foldl_append _ _ _ _

/-- The digits `Nat.toDigitsCore` puts before `ds`, with enough fuel, spell `n`. -/
theorem toDigitsCore_spec : ∀ (fuel n : Nat) (ds : List Char), n < fuel →
    ∃ pre, (Nat.toDigitsCore 10 fuel n ds).flatMap String.utf8EncodeChar = pre ++ ds.flatMap String.utf8EncodeChar ∧
      pre ≠ [] ∧ (∀ c ∈ pre, IsDigit c) ∧ decimalNat 0 pre = n
  | 0, _, _, h => absurd h (Nat.not_lt_zero _)
  | fuel + 1, n, ds, h => by
    have ht : (UInt8.ofNat (48 + n % 10)).toNat = 48 + n % 10 :=
      show (48 + n % 10) % 2 ^ 8 = 48 + n % 10 by omega
    have hd : IsDigit (UInt8.ofNat (48 + n % 10)) := by unfold IsDigit; omega
    have he : (Nat.digitChar (n % 10) :: ds).flatMap String.utf8EncodeChar =
        UInt8.ofNat (48 + n % 10) :: ds.flatMap String.utf8EncodeChar := by
      rw [List.flatMap_cons, utf8EncodeChar_digitChar _ (Nat.mod_lt _ (by decide))]; rfl
    rw [Nat.toDigitsCore]
    split_ifs with h0
    · refine ⟨[UInt8.ofNat (48 + n % 10)], he, List.cons_ne_nil _ _, List.forall_mem_singleton.2 hd, ?_⟩
      show 0 * 10 + ((UInt8.ofNat (48 + n % 10)).toNat - 48) = n
      omega
    · obtain ⟨pre, hpre, -, hdig, hval⟩ := toDigitsCore_spec fuel (n / 10) _ (by omega)
      refine ⟨pre ++ [UInt8.ofNat (48 + n % 10)], by rw [hpre, he]; simp, by simp, fun c hc => ?_, ?_⟩
      · rcases List.mem_append.1 hc with hc | hc
        · exact hdig c hc
        · exact List.mem_singleton.1 hc ▸ hd
      · rw [decimalNat_append, hval]
        show n / 10 * 10 + ((UInt8.ofNat (48 + n % 10)).toNat - 48) = n
        omega

theorem spellsInt_formatInt (n : Int) : SpellsInt (formatInt n) n := by
  rcases n with m | m
  · obtain ⟨pre, hpre, hne, hdig, hval⟩ := toDigitsCore_spec (m + 1) m [] (Nat.lt_succ_self m)
    exact ⟨pre, hne, hdig, .inl ⟨by simpa using hpre, by rw [hval]; rfl⟩⟩
  · obtain ⟨pre, hpre, hne, hdig, hval⟩ := toDigitsCore_spec (m + 2) (m + 1) [] (Nat.lt_succ_self _)
    have hf : formatInt (Int.negSucc m) =
        45 :: (Nat.toDigitsCore 10 (m + 2) (m + 1) []).flatMap String.utf8EncodeChar := rfl
    exact ⟨pre, hne, hdig, .inr (.inr ⟨by simpa [hf] using hpre, by rw [hval]; rfl⟩)⟩

theorem atoi_formatInt {n : Int} (h₁ : -2 ^ 63 ≤ n) (h₂ : n < 2 ^ 63) : atoi (formatInt n) = some n :=
  atoi_eq_some_iff.2 ⟨spellsInt_formatInt n, h₁, h₂⟩

end Strconv

end Tektite
