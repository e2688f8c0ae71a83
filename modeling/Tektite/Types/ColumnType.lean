import Tektite.Strings

/-!
# Column types and their names

The column types of package `types`: the six types without parameters, each a `*nonParameterizedType` with its
id, and `*DecimalType` with a precision and a scale. `StringToColumnType` reads a type from its name, through
`parseDecimalType` for `decimal(…)`; `String()` writes the name. Errors are their messages.

`parseDecimalType` drops the name's last byte without looking at it, so it reads `decimal(10,25` as
`decimal(10,2)` (`stringToColumnType_unclosed`). Apart from that last byte, `StringToColumnType` accepts exactly the
six names and `decimal(a,b)` with `a` and `b` signed decimal numerals between spaces and tabs, `1 ≤ a ≤ 38` and
`0 ≤ b ≤ a` (`stringToColumnType_eq_ok_iff`). It reads back every name that `String()` writes
(`stringToColumnType_string`), and `ColumnTypesEqual` is equality (`columnTypesEqual_iff`).

`ColumnTypesToString` joins the names with commas. The name of a decimal type holds a comma too, but no name starts
with `decimal(` but a decimal's, and numerals hold neither a comma nor a parenthesis, so the text is cut back into the
names in one way only (`string_append_unique`): the function is injective (`columnTypesToString_injective`).
-/

set_option autoImplicit false

namespace Tektite.Types

open Strings Strconv

/-- Results can be compared, so that a run on a given name can be checked by `decide`. -/
instance decEqExcept {ε α : Type} [DecidableEq ε] [DecidableEq α] : DecidableEq (Except ε α)
  | .error a, .error b => decidable_of_iff (a = b) ⟨congrArg _, Except.error.inj⟩
  | .ok a, .ok b => decidable_of_iff (a = b) ⟨congrArg _, Except.ok.inj⟩
  | .error _, .ok _ => isFalse Except.noConfusion
  | .ok _, .error _ => isFalse Except.noConfusion

def columnTypeIDInt : Int := 1
def columnTypeIDFloat : Int := 2
def columnTypeIDBool : Int := 3
def columnTypeIDDecimal : Int := 4
def columnTypeIDString : Int := 5
def columnTypeIDBytes : Int := 6
def columnTypeIDTimestamp : Int := 7

/-- `DecimalType`. -/
structure DecimalType where
  precision : Int
  scale : Int
deriving DecidableEq, Repr

/-- A value of the `ColumnType` interface: a `*nonParameterizedType` with its id, or a `*DecimalType`. -/
inductive ColumnType
  | nonParameterized (id : Int)
  | decimal (d : DecimalType)
deriving DecidableEq, Repr

def columnTypeInt : ColumnType := .nonParameterized columnTypeIDInt
def columnTypeFloat : ColumnType := .nonParameterized columnTypeIDFloat
def columnTypeBool : ColumnType := .nonParameterized columnTypeIDBool
def columnTypeString : ColumnType := .nonParameterized columnTypeIDString
def columnTypeBytes : ColumnType := .nonParameterized columnTypeIDBytes
def columnTypeTimestamp : ColumnType := .nonParameterized columnTypeIDTimestamp

namespace ColumnType

/-- `ID()`. -/
def id : ColumnType → Int
  | nonParameterized id => id
  | decimal _ => columnTypeIDDecimal

/-- `String()`; `none` for its panic on an id without a name. -/
def string : ColumnType → Option (List UInt8)
  | nonParameterized id =>
    if id = columnTypeIDInt then some (utf8 "int")
    else if id = columnTypeIDFloat then some (utf8 "float")
    else if id = columnTypeIDBool then some (utf8 "bool")
    else if id = columnTypeIDString then some (utf8 "string")
    else if id = columnTypeIDBytes then some (utf8 "bytes")
    else if id = columnTypeIDTimestamp then some (utf8 "timestamp")
    else none
  | decimal d => some (utf8 "decimal(" ++ formatInt d.precision ++ utf8 "," ++ formatInt d.scale ++ utf8 ")")

end ColumnType

/-- `ColumnTypesToString`: the names joined by commas; `none` when a `String()` panics. -/
def columnTypesToString (columnTypes : List ColumnType) : Option (List UInt8) :=
  (columnTypes.mapM ColumnType.string).map (List.intercalate (utf8 ","))

/-- `ColumnTypesEqual`. -/
def columnTypesEqual (ct1 ct2 : ColumnType) : Bool :=
  if ct1.id ≠ ct2.id then false
  else
    match ct1, ct2 with
    | .nonParameterized _, .nonParameterized _ => true
    | .decimal d1, .decimal d2 => d1.scale == d2.scale && d1.precision == d2.precision
    | _, _ => false

/-- `parseDecimalType`. -/
def parseDecimalType (sargtype : List UInt8) : Except (List UInt8) ColumnType :=
  let invalid : Except (List UInt8) ColumnType := .error (utf8 "invalid decimal argument type: " ++ sargtype)
  if sargtype.length > 8 then
    let rem := (sargtype.drop 8).take (sargtype.length - 1 - 8)
    if rem.length ≥ 3 then
      let comIndex := indexRune rem 44
      if comIndex ≠ -1 then
        let sPrec := trim (rem.take comIndex.toNat) (utf8 " \t")
        let sScale := trim (rem.drop (comIndex.toNat + 1)) (utf8 " \t")
        match atoi sPrec with
        | none => .error (utf8 "invalid decimal precision, not a valid integer " ++ sPrec)
        | some prec =>
          if prec < 1 ∨ prec > 38 then
            .error (utf8 "invalid decimal precision, must be > 1 and <= 38 " ++ sargtype)
          else
            match atoi sScale with
            | none => .error (utf8 "invalid decimal scale, not a valid integer " ++ sScale)
            | some scale =>
              if scale < 0 ∨ scale > 38 then
                .error (utf8 "invalid decimal scale, must be >= 0 and <= 38 " ++ sargtype)
              else if scale > prec then
                .error (utf8 "invalid decimal scale cannot be > precision " ++ sargtype)
              else .ok (.decimal ⟨prec, scale⟩)
      else invalid
    else invalid
  else invalid

/-- `StringToColumnType`. -/
def stringToColumnType (sColumnType : List UInt8) : Except (List UInt8) ColumnType :=
  if sColumnType = utf8 "int" then .ok columnTypeInt
  else if sColumnType = utf8 "float" then .ok columnTypeFloat
  else if sColumnType = utf8 "bool" then .ok columnTypeBool
  else if sColumnType = utf8 "string" then .ok columnTypeString
  else if sColumnType = utf8 "bytes" then .ok columnTypeBytes
  else if sColumnType = utf8 "timestamp" then .ok columnTypeTimestamp
  else if hasPrefix sColumnType (utf8 "decimal(") then parseDecimalType sColumnType
  else .error (utf8 "invalid type '" ++ sColumnType ++ utf8 "'")

/-! ## The arguments of `decimal(…)` -/

/-- The space and the tab, the cutset of the `Trim` calls. -/
def IsBlank (c : UInt8) : Prop := c = 32 ∨ c = 9

instance : DecidablePred IsBlank := fun _ => inferInstanceAs (Decidable (_ ∨ _))

/-- `a` is the numeral of `v` between runs of spaces and tabs. -/
def DecimalArg (a : List UInt8) (v : Int) : Prop :=
  ∃ lead num trail, a = lead ++ num ++ trail ∧ (∀ c ∈ lead, IsBlank c) ∧ (∀ c ∈ trail, IsBlank c) ∧
    SpellsInt num v

theorem mem_blanks {c : UInt8} : c ∈ utf8 " \t" ↔ IsBlank c := by
  show c ∈ [32, 9] ↔ _; simp [IsBlank]

theorem not_blank_of_spellsInt {s : List UInt8} {v : Int} (h : SpellsInt s v) : ∀ c ∈ s, ¬IsBlank c := by
  intro c hc
  rcases h.mem c hc with hd | rfl | rfl
  · rintro (rfl | rfl) <;> revert hd <;> decide
  all_goals decide

theorem comma_not_mem_of_decimalArg {a : List UInt8} {v : Int} (h : DecimalArg a v) : 44 ∉ a := by
  obtain ⟨lead, num, trail, rfl, hl, ht, hn⟩ := h
  simp only [List.mem_append, not_or]
  refine ⟨⟨fun h => ?_, fun h => ?_⟩, fun h => ?_⟩
  · exact absurd (hl 44 h) (by decide)
  · rcases hn.mem 44 h with h | h | h <;> revert h <;> decide
  · exact absurd (ht 44 h) (by decide)

theorem trim_decimalArg {a : List UInt8} {v : Int} (h : DecimalArg a v) :
    ∃ num, trim a (utf8 " \t") = num ∧ SpellsInt num v := by
  obtain ⟨lead, num, trail, rfl, hl, ht, hn⟩ := h
  refine ⟨num, trim_eq (fun c hc => mem_blanks.2 (hl c hc)) (fun c hc => mem_blanks.2 (ht c hc))
    (fun c hc => mt mem_blanks.1 (not_blank_of_spellsInt hn c (List.mem_of_mem_head? hc)))
    (fun c hc => mt mem_blanks.1 (not_blank_of_spellsInt hn c (List.mem_of_mem_getLast? hc))), hn⟩

theorem length_pos_of_decimalArg {a : List UInt8} {v : Int} (h : DecimalArg a v) : 0 < a.length := by
  obtain ⟨lead, num, trail, rfl, -, -, hn⟩ := h
  have := List.length_pos.2 hn.ne_nil
  simp only [List.length_append]; omega

theorem decimalArg_of_atoi {a : List UInt8} {v : Int} (h : atoi (trim a (utf8 " \t")) = some v) :
    DecimalArg a v := by
  obtain ⟨lead, trail, ha, hl, ht⟩ := trim_spec a (utf8 " \t")
  exact ⟨lead, _, trail, ha, fun c hc => mem_blanks.1 (hl c hc), fun c hc => mem_blanks.1 (ht c hc),
    (atoi_eq_some_iff.1 h).1⟩

/-! ## `parseDecimalType` -/

section
variable {ε α : Type} {c : Prop} [Decidable c] {t : Except ε α} {e : ε} {x : α}

/-- A check that fails with an error passes on an `ok` result. -/
theorem ite_error_eq_ok (h : (if c then t else .error e) = .ok x) : c ∧ t = .ok x := by
  by_cases hc : c
  · rw [if_pos hc] at h; exact ⟨hc, h⟩
  · rw [if_neg hc] at h; cases h

theorem error_ite_eq_ok (h : (if c then .error e else t) = .ok x) : ¬c ∧ t = .ok x := by
  by_cases hc : c
  · rw [if_pos hc] at h; cases h
  · rw [if_neg hc] at h; exact ⟨hc, h⟩
end

/-- `parseDecimalType` reads `decimal(a,b` and one more byte as the decimal type of `a` and `b`. -/
theorem parseDecimalType_decimal {a b : List UInt8} {p q : Int} (c : UInt8) (ha : DecimalArg a p)
    (hb : DecimalArg b q) (hp : 1 ≤ p ∧ p ≤ 38) (hq : 0 ≤ q ∧ q ≤ p) :
    parseDecimalType (utf8 "decimal(" ++ a ++ utf8 "," ++ b ++ [c]) = .ok (.decimal ⟨p, q⟩) := by
  obtain ⟨na, hta, hna⟩ := trim_decimalArg ha
  obtain ⟨nb, htb, hnb⟩ := trim_decimalArg hb
  have hla := length_pos_of_decimalArg ha
  have hlb := length_pos_of_decimalArg hb
  generalize hs : utf8 "decimal(" ++ a ++ utf8 "," ++ b ++ [c] = s
  have hlen : s.length = 8 + a.length + 1 + b.length + 1 := by
    rw [← hs]; simp only [List.length_append, List.length_singleton]; rfl
  have hrem : (s.drop 8).take (s.length - 1 - 8) = a ++ 44 :: b := by
    have h8 : (utf8 "decimal(").length = 8 := rfl
    have hr : s.drop 8 = (a ++ 44 :: b) ++ [c] := by
      rw [← hs, List.append_assoc, List.append_assoc, List.append_assoc, List.drop_left' h8]
      simp [show utf8 "," = [44] from rfl]
    rw [hr, hlen]
    exact List.take_left' (by simp only [List.length_append, List.length_cons]; omega)
  have hidx : indexRune (a ++ 44 :: b) 44 = a.length := indexRune_append (comma_not_mem_of_decimalArg ha)
  have hpa := atoi_eq_some_iff.2 ⟨hna, by omega, by omega⟩
  have hqb := atoi_eq_some_iff.2 ⟨hnb, by omega, by omega⟩
  have h2 : (a ++ 44 :: b).drop (a.length + 1) = b := by simp
  dsimp only [parseDecimalType]
  rw [hrem, hidx, Int.toNat_ofNat, List.take_left, h2, hta, htb, hpa, hqb]
  dsimp only
  rw [if_pos (by omega), if_pos (by simp; omega), if_pos (by omega), if_neg (by omega), if_neg (by omega),
    if_neg (by omega)]

/-- What `parseDecimalType` accepts is `decimal(a,b` and one more byte. -/
theorem parseDecimalType_eq_ok {r : List UInt8} {ct : ColumnType}
    (h : parseDecimalType (utf8 "decimal(" ++ r) = .ok ct) :
    ∃ a b p q c, r = a ++ utf8 "," ++ b ++ [c] ∧ DecimalArg a p ∧ DecimalArg b q ∧
      1 ≤ p ∧ p ≤ 38 ∧ 0 ≤ q ∧ q ≤ p ∧ ct = .decimal ⟨p, q⟩ := by
  generalize hs : utf8 "decimal(" ++ r = s at h
  have hlen : s.length = 8 + r.length := by rw [← hs, List.length_append]; rfl
  have hrem : (s.drop 8).take (s.length - 1 - 8) = r.dropLast := by
    have h8 : (utf8 "decimal(").length = 8 := rfl
    rw [hlen, ← hs, List.drop_left' h8, List.dropLast_eq_take]; congr 1; omega
  dsimp only [parseDecimalType] at h
  rw [hrem] at h
  obtain ⟨-, h⟩ := ite_error_eq_ok h
  obtain ⟨-, h⟩ := ite_error_eq_ok h
  obtain ⟨hc, h⟩ := ite_error_eq_ok h
  obtain ⟨a, b, hab, hidx⟩ := indexRune_ne_neg_one hc
  have h2 : (a ++ 44 :: b).drop (a.length + 1) = b := by simp
  rw [hidx, Int.toNat_ofNat, hab, List.take_left, h2] at h
  have hr : r ≠ [] := by rintro rfl; simp at hab
  split at h
  · cases h
  rename_i p hp
  obtain ⟨hpr, h⟩ := error_ite_eq_ok h
  split at h
  · cases h
  rename_i q hq
  obtain ⟨hq₁, h⟩ := error_ite_eq_ok h
  obtain ⟨hq₂, h⟩ := error_ite_eq_ok h
  cases h
  refine ⟨a, b, p, q, r.getLast hr, ?_, decimalArg_of_atoi hp, decimalArg_of_atoi hq, by omega, by omega, by omega,
    by omega, rfl⟩
  conv_lhs => rw [← List.dropLast_append_getLast hr, hab]
  rw [show utf8 "," = [44] from rfl]; simp

/-! ## `StringToColumnType` -/

/-- The six names of the types without parameters. -/
def namedTypes : List (List UInt8 × ColumnType) :=
  [(utf8 "int", columnTypeInt), (utf8 "float", columnTypeFloat), (utf8 "bool", columnTypeBool),
    (utf8 "string", columnTypeString), (utf8 "bytes", columnTypeBytes), (utf8 "timestamp", columnTypeTimestamp)]

theorem stringToColumnType_of_mem {s : List UInt8} {ct : ColumnType} (h : (s, ct) ∈ namedTypes) :
    stringToColumnType s = .ok ct := by
  simp only [namedTypes, List.mem_cons, Prod.mk.injEq, List.mem_singleton, List.not_mem_nil, or_false] at h
  rcases h with ⟨rfl, rfl⟩ | ⟨rfl, rfl⟩ | ⟨rfl, rfl⟩ | ⟨rfl, rfl⟩ | ⟨rfl, rfl⟩ | ⟨rfl, rfl⟩ <;>
    decide

theorem stringToColumnType_of_not_mem {s : List UInt8} (h : ∀ ct, (s, ct) ∉ namedTypes) :
    stringToColumnType s = if hasPrefix s (utf8 "decimal(") then parseDecimalType s
      else .error (utf8 "invalid type '" ++ s ++ utf8 "'") := by
  have hn : ∀ n ∈ namedTypes, s ≠ n.1 := fun n hn e => h n.2 (e ▸ hn)
  simp only [namedTypes, List.mem_cons, List.mem_singleton, List.not_mem_nil, or_false, forall_eq_or_imp,
    forall_eq] at hn
  simp only [stringToColumnType, if_neg hn.1, if_neg hn.2.1, if_neg hn.2.2.1, if_neg hn.2.2.2.1, if_neg hn.2.2.2.2.1,
    if_neg hn.2.2.2.2.2]

theorem not_mem_namedTypes (r : List UInt8) (ct : ColumnType) : (utf8 "decimal(" ++ r, ct) ∉ namedTypes := by
  have hd : (utf8 "decimal(" ++ r).head? = some 100 := rfl
  intro h
  have : ∀ n ∈ namedTypes, n.1.head? ≠ some 100 := by decide
  exact this _ h hd

theorem stringToColumnType_eq_ok {s : List UInt8} {ct : ColumnType} (h : stringToColumnType s = .ok ct) :
    (s, ct) ∈ namedTypes ∨
      ∃ a b p q c, s = utf8 "decimal(" ++ a ++ utf8 "," ++ b ++ [c] ∧ DecimalArg a p ∧ DecimalArg b q ∧
        1 ≤ p ∧ p ≤ 38 ∧ 0 ≤ q ∧ q ≤ p ∧ ct = .decimal ⟨p, q⟩ := by
  by_cases hn : ∃ ct', (s, ct') ∈ namedTypes
  · obtain ⟨ct', h'⟩ := hn
    rw [stringToColumnType_of_mem h'] at h
    cases h
    exact .inl h'
  · rw [stringToColumnType_of_not_mem (not_exists.1 hn)] at h
    split_ifs at h with hp
    obtain ⟨r, rfl⟩ := hasPrefix_iff.1 hp
    obtain ⟨a, b, p, q, c, rfl, hrest⟩ := parseDecimalType_eq_ok h
    exact .inr ⟨a, b, p, q, c, by simp only [List.append_assoc], hrest⟩

theorem stringToColumnType_decimal {a b : List UInt8} {p q : Int} (c : UInt8) (ha : DecimalArg a p)
    (hb : DecimalArg b q) (hp : 1 ≤ p ∧ p ≤ 38) (hq : 0 ≤ q ∧ q ≤ p) :
    stringToColumnType (utf8 "decimal(" ++ a ++ utf8 "," ++ b ++ [c]) = .ok (.decimal ⟨p, q⟩) := by
  have hs : utf8 "decimal(" ++ a ++ utf8 "," ++ b ++ [c] = utf8 "decimal(" ++ (a ++ utf8 "," ++ b ++ [c]) := by
    simp only [List.append_assoc]
  rw [stringToColumnType_of_not_mem (hs ▸ not_mem_namedTypes _), if_pos (hs ▸ hasPrefix_append _ _)]
  exact parseDecimalType_decimal c ha hb hp hq

/-- **`StringToColumnType` accepts exactly** the six names and `decimal(a,b` followed by any byte, `a` and `b`
numerals between spaces and tabs with `1 ≤ a ≤ 38` and `0 ≤ b ≤ a`. -/
theorem stringToColumnType_eq_ok_iff {s : List UInt8} {ct : ColumnType} :
    stringToColumnType s = .ok ct ↔ (s, ct) ∈ namedTypes ∨
      ∃ a b p q c, s = utf8 "decimal(" ++ a ++ utf8 "," ++ b ++ [c] ∧ DecimalArg a p ∧ DecimalArg b q ∧
        1 ≤ p ∧ p ≤ 38 ∧ 0 ≤ q ∧ q ≤ p ∧ ct = .decimal ⟨p, q⟩ := by
  refine ⟨stringToColumnType_eq_ok, ?_⟩
  rintro (h | ⟨a, b, p, q, c, rfl, ha, hb, hp₁, hp₂, hq₁, hq₂, rfl⟩)
  · exact stringToColumnType_of_mem h
  · exact stringToColumnType_decimal c ha hb ⟨hp₁, hp₂⟩ ⟨hq₁, hq₂⟩

/-- `decimal(10,25` lacks its closing bracket, and `StringToColumnType` reads it as `decimal(10,2)`. -/
theorem stringToColumnType_unclosed :
    stringToColumnType (utf8 "decimal(10,25") = .ok (.decimal ⟨10, 2⟩) ∧
      ∀ a b : List UInt8, utf8 "decimal(10,25" ≠ utf8 "decimal(" ++ a ++ utf8 "," ++ b ++ utf8 ")" := by
  refine ⟨by decide, fun a b h => ?_⟩
  have := congrArg List.getLast? h
  rw [show utf8 ")" = [41] from rfl, List.getLast?_concat] at this
  exact absurd this (by decide)

theorem decimalArg_formatInt (n : Int) : DecimalArg (formatInt n) n :=
  ⟨[], formatInt n, [], by simp, by simp, by simp, spellsInt_formatInt n⟩

/-- **`String()` names every type that `StringToColumnType` returns, and the name reads back as the type.** -/
theorem stringToColumnType_string {s : List UInt8} {ct : ColumnType} (h : stringToColumnType s = .ok ct) :
    ∃ t, ct.string = some t ∧ stringToColumnType t = .ok ct := by
  rcases stringToColumnType_eq_ok h with hn | ⟨a, b, p, q, c, -, -, -, hp₁, hp₂, hq₁, hq₂, rfl⟩
  · simp only [namedTypes, List.mem_cons, Prod.mk.injEq, List.mem_singleton, List.not_mem_nil, or_false] at hn
    rcases hn with ⟨-, rfl⟩ | ⟨-, rfl⟩ | ⟨-, rfl⟩ | ⟨-, rfl⟩ | ⟨-, rfl⟩ | ⟨-, rfl⟩ <;>
      exact ⟨_, rfl, by decide⟩
  · exact ⟨_, rfl, stringToColumnType_decimal 41 (decimalArg_formatInt p) (decimalArg_formatInt q) ⟨hp₁, hp₂⟩
      ⟨hq₁, hq₂⟩⟩

theorem stringToColumnType_string_decimal :
    stringToColumnType (utf8 "decimal(10,2)") = .ok (.decimal ⟨10, 2⟩) ∧
      ∃ t, (ColumnType.decimal ⟨10, 2⟩).string = some t ∧ stringToColumnType t = .ok (.decimal ⟨10, 2⟩) :=
  have h : stringToColumnType (utf8 "decimal(10,2)") = .ok (.decimal ⟨10, 2⟩) := by decide
  ⟨h, stringToColumnType_string h⟩

/-- **`ColumnTypesEqual` is equality of column types.** -/
theorem columnTypesEqual_iff (ct1 ct2 : ColumnType) : columnTypesEqual ct1 ct2 = true ↔ ct1 = ct2 := by
  rcases ct1 with _ | ⟨p₁, s₁⟩ <;> rcases ct2 with _ | ⟨p₂, s₂⟩ <;>
    simp [columnTypesEqual, ColumnType.id, columnTypeIDDecimal, and_comm]

/-! ## `ColumnTypesToString` -/

/-- Cut at the first separator `c`: a text without `c` followed by nothing or by `c` and more is the same text
followed by the same rest. -/
theorem append_sep_unique {c : UInt8} :
    ∀ {x y R R' : List UInt8}, c ∉ x → c ∉ y → (∀ d ∈ R.head?, d = c) → (∀ d ∈ R'.head?, d = c) →
      x ++ R = y ++ R' → x = y ∧ R = R'
  | [], [], _, _, _, _, _, _, h => ⟨rfl, h⟩
  | [], b :: y, _, _, _, hy, hR, _, h => by
    subst h
    exact absurd (hR b rfl ▸ List.mem_cons_self b y) hy
  | a :: x, [], _, _, hx, _, _, hR', h => by
    subst h
    exact absurd (hR' a rfl ▸ List.mem_cons_self a x) hx
  | a :: x, b :: y, _, _, hx, hy, hR, hR', h => by
    simp only [List.cons_append, List.cons.injEq] at h
    obtain ⟨rfl, h⟩ := h
    obtain ⟨rfl, rfl⟩ :=
      append_sep_unique (mt (List.mem_cons_of_mem a) hx) (mt (List.mem_cons_of_mem a) hy) hR hR' h
    exact ⟨rfl, rfl⟩

theorem sep_head (c : UInt8) (R : List UInt8) : ∀ d ∈ (c :: R).head?, d = c := fun _ h => (Option.some.inj h).symm

/-- A numeral holds no byte but digits and signs. -/
theorem not_mem_formatInt {c : UInt8} (hc : ¬IsDigit c ∧ c ≠ 43 ∧ c ≠ 45) (n : Int) : c ∉ formatInt n := by
  intro h
  rcases (spellsInt_formatInt n).mem c h with hd | rfl | rfl
  exacts [hc.1 hd, hc.2.1 rfl, hc.2.2 rfl]

theorem formatInt_inj {p q : Int} (h : formatInt p = formatInt q) : p = q := by
  have hp := spellsInt_iff.1 (spellsInt_formatInt p)
  have hq := spellsInt_iff.1 (spellsInt_formatInt q)
  rw [h] at hp
  exact hp.2.2.trans hq.2.2.symm

/-- What `String()` writes: one of the six names, or `decimal(p,q)`. -/
theorem string_cases {ct : ColumnType} {x : List UInt8} (h : ct.string = some x) :
    (x, ct) ∈ namedTypes ∨
      ∃ p q : Int, ct = .decimal ⟨p, q⟩ ∧
        x = utf8 "decimal(" ++ formatInt p ++ utf8 "," ++ formatInt q ++ utf8 ")" := by
  rcases ct with i | ⟨p, q⟩
  · -- one of the six names, at its place in `namedTypes`
    left
    rw [ColumnType.string] at h
    rcases ite_eq_iff.1 h with ⟨rfl, ⟨⟩⟩ | ⟨-, h⟩
    · exact .head _
    rcases ite_eq_iff.1 h with ⟨rfl, ⟨⟩⟩ | ⟨-, h⟩
    · exact .tail _ (.head _)
    rcases ite_eq_iff.1 h with ⟨rfl, ⟨⟩⟩ | ⟨-, h⟩
    · exact .tail _ (.tail _ (.head _))
    rcases ite_eq_iff.1 h with ⟨rfl, ⟨⟩⟩ | ⟨-, h⟩
    · exact .tail _ (.tail _ (.tail _ (.head _)))
    rcases ite_eq_iff.1 h with ⟨rfl, ⟨⟩⟩ | ⟨-, h⟩
    · exact .tail _ (.tail _ (.tail _ (.tail _ (.head _))))
    rcases ite_eq_iff.1 h with ⟨rfl, ⟨⟩⟩ | ⟨-, ⟨⟩⟩
    exact .tail _ (.tail _ (.tail _ (.tail _ (.tail _ (.head _)))))
  · exact .inr ⟨p, q, rfl, (Option.some.inj h).symm⟩

/-- The six names are not empty and hold no comma. -/
theorem ne_nil_of_named {x : List UInt8} {ct : ColumnType} (h : (x, ct) ∈ namedTypes) : x ≠ [] ∧ 44 ∉ x := by
  have : ∀ n ∈ namedTypes, n.1 ≠ [] ∧ 44 ∉ n.1 := by decide
  exact this _ h

/-- A name names one type: `StringToColumnType` reads it back. -/
theorem named_unique {x : List UInt8} {ct ct' : ColumnType} (h : (x, ct) ∈ namedTypes)
    (h' : (x, ct') ∈ namedTypes) : ct = ct' :=
  Except.ok.inj ((stringToColumnType_of_mem h).symm.trans (stringToColumnType_of_mem h'))

/-- The name of a decimal type, cut at its comma and at its closing parenthesis. -/
theorem decimal_name_append (p q : Int) (R : List UInt8) :
    utf8 "decimal(" ++ formatInt p ++ utf8 "," ++ formatInt q ++ utf8 ")" ++ R =
      (utf8 "decimal(" ++ formatInt p) ++ 44 :: (formatInt q ++ 41 :: R) := by
  simp only [List.append_assoc]; rfl

theorem comma_not_mem_decimal (p : Int) : 44 ∉ utf8 "decimal(" ++ formatInt p := by
  rw [List.mem_append, not_or]
  exact ⟨by decide, not_mem_formatInt (by decide) p⟩

/-- Two names that `String()` writes, each followed by nothing or by a comma and more, are the same name of the same
type, followed by the same rest. -/
theorem string_append_unique {ct ct' : ColumnType} {x y R R' : List UInt8} (hx : ct.string = some x)
    (hy : ct'.string = some y) (hR : ∀ d ∈ R.head?, d = 44) (hR' : ∀ d ∈ R'.head?, d = 44)
    (h : x ++ R = y ++ R') : ct = ct' ∧ R = R' := by
  rcases string_cases hx with hn | ⟨p, q, rfl, rfl⟩ <;> rcases string_cases hy with hn' | ⟨p', q', rfl, rfl⟩
  · -- two names without a comma: cut at the first comma
    obtain ⟨rfl, rfl⟩ := append_sep_unique ((ne_nil_of_named hn).2) ((ne_nil_of_named hn').2) hR hR' h
    exact ⟨named_unique hn hn', rfl⟩
  · -- a name against a decimal: the name would start with `decimal(`
    rw [decimal_name_append] at h
    obtain ⟨rfl, -⟩ :=
      append_sep_unique ((ne_nil_of_named hn).2) (comma_not_mem_decimal p') hR (sep_head _ _) h
    exact absurd hn (not_mem_namedTypes _ _)
  · rw [decimal_name_append] at h
    obtain ⟨rfl, -⟩ :=
      append_sep_unique ((ne_nil_of_named hn').2) (comma_not_mem_decimal p) hR' (sep_head _ _) h.symm
    exact absurd hn' (not_mem_namedTypes _ _)
  · -- two decimals: cut at the comma, then at the closing parenthesis
    rw [decimal_name_append, decimal_name_append] at h
    obtain ⟨hp, h⟩ :=
      append_sep_unique (comma_not_mem_decimal p) (comma_not_mem_decimal p') (sep_head _ _) (sep_head _ _) h
    obtain ⟨hq, h⟩ := append_sep_unique (c := 41) (not_mem_formatInt (by decide) q)
      (not_mem_formatInt (by decide) q') (sep_head _ _) (sep_head _ _) (List.cons.inj h).2
    rw [formatInt_inj (List.append_cancel_left hp), formatInt_inj hq]
    exact ⟨rfl, (List.cons.inj h).2⟩

theorem columnTypesToString_singleton (ct : ColumnType) : columnTypesToString [ct] = ct.string := by
  simp only [columnTypesToString, List.mapM_cons, List.mapM_nil]
  cases ct.string with
  | none => rfl
  | some x => exact congrArg some (List.append_nil x)

theorem columnTypesToString_cons_cons (ct ct' : ColumnType) (cts : List ColumnType) :
    columnTypesToString (ct :: ct' :: cts) =
      ct.string.bind fun x => (columnTypesToString (ct' :: cts)).map fun r => x ++ 44 :: r := by
  simp only [columnTypesToString, List.mapM_cons]
  cases ct.string <;> cases ct'.string <;> cases cts.mapM ColumnType.string <;> rfl

/-- The text of a non-empty list: the first name, then nothing or a comma and the text of the rest. -/
theorem columnTypesToString_cons {ct : ColumnType} {cts : List ColumnType} {s : List UInt8}
    (h : columnTypesToString (ct :: cts) = some s) :
    ∃ x R, ct.string = some x ∧ s = x ++ R ∧
      (cts = [] ∧ R = [] ∨ ∃ r, columnTypesToString cts = some r ∧ R = 44 :: r) := by
  rcases cts with _ | ⟨ct', cts⟩
  · rw [columnTypesToString_singleton] at h
    exact ⟨s, [], h, (List.append_nil s).symm, .inl ⟨rfl, rfl⟩⟩
  · rw [columnTypesToString_cons_cons] at h
    obtain ⟨x, hx, h⟩ := Option.bind_eq_some.1 h
    obtain ⟨r, hr, rfl⟩ := Option.map_eq_some'.1 h
    exact ⟨x, 44 :: r, hx, rfl, .inr ⟨r, hr, rfl⟩⟩

/-- What follows the first name starts with a comma, if anything does. -/
theorem rest_head {R : List UInt8} {cts : List ColumnType}
    (h : cts = [] ∧ R = [] ∨ ∃ r, columnTypesToString cts = some r ∧ R = 44 :: r) :
    ∀ d ∈ R.head?, d = 44 := by
  rcases h with ⟨-, rfl⟩ | ⟨r, -, rfl⟩
  · exact fun _ h => nomatch h
  · exact sep_head _ _

theorem string_ne_nil {ct : ColumnType} {x : List UInt8} (h : ct.string = some x) : x ≠ [] := by
  rcases string_cases h with hn | ⟨p, q, -, rfl⟩
  · exact (ne_nil_of_named hn).1
  · simp [show utf8 ")" = [41] from rfl]

/-- **`ColumnTypesToString` loses nothing.** Two lists of column types that it writes without a panic give the same
text only when they are the same list, although the name of a decimal type holds the comma that also separates the
names. -/
theorem columnTypesToString_injective {cts cts' : List ColumnType} {s : List UInt8}
    (h : columnTypesToString cts = some s) (h' : columnTypesToString cts' = some s) : cts = cts' := by
  induction cts generalizing cts' s with
  | nil =>
    cases h
    rcases cts' with _ | ⟨ct', cts'⟩
    · rfl
    · obtain ⟨y, R', hy, hs, -⟩ := columnTypesToString_cons h'
      exact absurd (List.append_eq_nil.1 hs.symm).1 (string_ne_nil hy)
  | cons ct cts ih =>
    obtain ⟨x, R, hx, rfl, hR⟩ := columnTypesToString_cons h
    rcases cts' with _ | ⟨ct', cts'⟩
    · exact absurd (List.append_eq_nil.1 (Option.some.inj h').symm).1 (string_ne_nil hx)
    obtain ⟨y, R', hy, hs, hR'⟩ := columnTypesToString_cons h'
    obtain ⟨rfl, rfl⟩ := string_append_unique hx hy (rest_head hR) (rest_head hR') hs
    -- the same first type and the same rest: both lists end there, or both go on after the comma
    rcases hR with ⟨rfl, rfl⟩ | ⟨r, hr, rfl⟩ <;> rcases hR' with ⟨rfl, h₀⟩ | ⟨r', hr', h₀⟩
    · rfl
    · cases h₀
    · cases h₀
    · rw [ih hr (by rw [(List.cons.inj h₀).2]; exact hr')]

theorem columnTypesToString_injective_decimalInt :
    columnTypesToString [.decimal ⟨10, 2⟩, columnTypeInt] = some (utf8 "decimal(10,2),int") ∧
      [ColumnType.decimal ⟨10, 2⟩, columnTypeInt] = [.decimal ⟨10, 2⟩, columnTypeInt] :=
  have h : columnTypesToString [.decimal ⟨10, 2⟩, columnTypeInt] = some (utf8 "decimal(10,2),int") := by decide
  ⟨h, columnTypesToString_injective h h⟩

end Tektite.Types
