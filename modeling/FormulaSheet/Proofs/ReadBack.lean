import FormulaSheet.Proofs.Decimals
import FormulaSheet.Proofs.Literal

/-!
# Numbers are read back

The decimal that a number is written as lies in its basin, because a grid of
decimals that is finer than the basin has a point in it, and one with seventeen
digits is finer.  Its digits are read as the decimal again, and the decimal as
the number.  An integer is written with all its digits, so it is its own
decimal.

* `Decimal.Basin.holds_search` — the search ends in the basin;
* `Decimal.holds_shortest` — so does that for the shortest decimal;
* `Number.readsBack` — every number but a negative zero is read back.
-/

namespace FormulaSheet

open Float.Model Float.Model.UnpackedFloat

namespace Decimal

namespace Basin

variable {b : Basin} {grid : Int}

/-- The scales bring points and bounds to one unit. -/
theorem exists_unit (b : Basin) (grid : Int) : ∃ u : ℚ, 0 < u ∧
    (b.gridScale grid : ℚ) = 10 ^ grid * u ∧
    (b.boundScale grid : ℚ) = 2 ^ (b.exponent - 2) * u := by
  refine ⟨10 ^ (-grid).toNat * 2 ^ (2 - b.exponent).toNat, by positivity, ?_, ?_⟩
  · rw [gridScale, Nat.pow_eq, Nat.pow_eq]
    push_cast
    rw [← Number.zpow_mul_toNat (by norm_num) grid]
    ring
  · have flipped : 2 - b.exponent = -(b.exponent - 2) := by ring
    rw [boundScale, Nat.pow_eq, Nat.pow_eq, flipped]
    push_cast
    rw [← Number.zpow_mul_toNat two_ne_zero (b.exponent - 2)]
    ring

/-- A basin holds a point of a grid if the scaled bounds do. -/
theorem holds_iff (b : Basin) (grid : Int) (n : Nat) : b.Holds (n * 10 ^ grid) ↔
    if b.closed then b.low * b.boundScale grid ≤ n * b.gridScale grid ∧
      n * b.gridScale grid ≤ b.high * b.boundScale grid
    else b.low * b.boundScale grid < n * b.gridScale grid ∧
      n * b.gridScale grid < b.high * b.boundScale grid := by
  obtain ⟨u, pos, point, bound⟩ := b.exists_unit grid
  have scaled : ∀ p : Nat, ((p * b.gridScale grid : Nat) : ℚ) = p * 10 ^ grid * u := by
    intro p
    rw [Nat.cast_mul, point, mul_assoc]
  have scaled' : ∀ p : Nat, ((p * b.boundScale grid : Nat) : ℚ) =
      p * 2 ^ (b.exponent - 2) * u := by
    intro p
    rw [Nat.cast_mul, bound, mul_assoc]
  unfold Holds
  simp only [← @Nat.cast_le ℚ, ← @Nat.cast_lt ℚ, scaled, scaled',
    mul_le_mul_iff_left₀ pos, mul_lt_mul_iff_left₀ pos]

/-- A grid is finer than a basin if the scaled bounds are farther apart than
its points. -/
theorem fine_iff (b : Basin) (grid : Int) :
    b.low * b.boundScale grid + b.gridScale grid < b.high * b.boundScale grid ↔
      (10 : ℚ) ^ grid < (b.high - b.low) * 2 ^ (b.exponent - 2) := by
  obtain ⟨u, pos, point, bound⟩ := b.exists_unit grid
  rw [← @Nat.cast_lt ℚ]
  push_cast
  rw [point, bound, ← mul_assoc, ← mul_assoc, ← add_mul, mul_lt_mul_iff_left₀ pos, sub_mul,
    lt_sub_iff_add_lt']

theorem gridScale_pos (b : Basin) (grid : Int) : 0 < b.gridScale grid := by
  rw [gridScale, Nat.pow_eq, Nat.pow_eq]
  positivity

theorem boundScale_pos (b : Basin) (grid : Int) : 0 < b.boundScale grid := by
  rw [boundScale, Nat.pow_eq, Nat.pow_eq]
  positivity

/-- A point of the grid is taken only from the basin. -/
theorem holds_of_nearest? (low : b.low < b.value) (high : b.value < b.high) {n : Nat}
    (h : b.nearest? grid = some n) : b.Holds (n * 10 ^ grid) := by
  rw [holds_iff]
  have pos := b.gridScale_pos grid
  have above := Nat.lt_mul_div_succ (b.value * b.boundScale grid) pos
  have below := Nat.div_mul_le_self (b.value * b.boundScale grid) (b.gridScale grid)
  have low := Nat.mul_lt_mul_of_pos_right low (b.boundScale_pos grid)
  have high := Nat.mul_lt_mul_of_pos_right high (b.boundScale_pos grid)
  rw [Nat.mul_comm (b.gridScale grid)] at above
  unfold nearest? at h
  cases closed : b.closed <;>
    simp only [closed, Bool.false_eq_true, if_false, if_true] at h ⊢ <;>
    split at h <;> split at h <;> cases h <;> omega

/-- A grid that is finer than the basin has a point in it. -/
theorem exists_nearest? (fine : (10 : ℚ) ^ grid < (b.high - b.low) * 2 ^ (b.exponent - 2)) :
    ∃ n, b.nearest? grid = some n := by
  have fine := (b.fine_iff grid).mpr fine
  have next := Nat.add_one_mul (b.value * b.boundScale grid / b.gridScale grid) (b.gridScale grid)
  unfold nearest?
  cases closed : b.closed <;> simp only [Bool.false_eq_true, if_false, if_true] <;>
    split
  · split <;> exact ⟨_, rfl⟩
  · split
    · exact ⟨_, rfl⟩
    · omega
  · split <;> exact ⟨_, rfl⟩
  · split
    · exact ⟨_, rfl⟩
    · omega

/-- **The search ends in the basin**, if it comes to a grid that is finer. -/
theorem holds_search (low : b.low < b.value) (high : b.value < b.high) {n : Nat}
    (fine : (10 : ℚ) ^ (grid - n) < (b.high - b.low) * 2 ^ (b.exponent - 2)) :
    b.Holds ((b.search (n + 1) grid).digits * 10 ^ (b.search (n + 1) grid).exponent) := by
  have taken : ∀ {grid : Int} {digits : Nat}, b.nearest? grid = some digits →
      b.Holds ((if digits = 10 then (⟨1, grid + 1⟩ : Decimal) else ⟨digits, grid⟩).digits *
        10 ^ (if digits = 10 then (⟨1, grid + 1⟩ : Decimal) else ⟨digits, grid⟩).exponent) := by
    intro grid digits found
    have holds := holds_of_nearest? low high found
    split
    · rename_i ten
      rw [zpow_add_one₀ (by norm_num)]
      convert holds using 1
      rw [ten]
      push_cast
      ring
    · exact holds
  induction n generalizing grid with
  | zero =>
      rw [Nat.cast_zero, sub_zero] at fine
      obtain ⟨digits, found⟩ := exists_nearest? fine
      rw [search, found]
      exact taken found
  | succ n ih =>
      rw [search]
      split
      · rename_i digits found
        exact taken found
      · refine ih ?_
        rwa [sub_sub, add_comm (1 : Int), ← Nat.cast_succ]

end Basin

/-- Thirty percent of the bits are less than the digits, nearly. -/
theorem ten_pow_le_two_pow : ∀ i : Fin 2098,
    10 ^ (Int.fdiv ((i.val - 1074 : Int) * 30103) 100000).toNat * 2 ^ (1074 - i.val) ≤
      2 ^ (i.val - 1074) * 10 ^ (-Int.fdiv ((i.val - 1074 : Int) * 30103) 100000).toNat := by
  decide +kernel

variable {m : Nat} {e : Int}

theorem value_basin (m : Nat) (e : Int) :
    ((basin m e).value : ℚ) * 2 ^ ((basin m e).exponent - 2) = m * 2 ^ e := by
  rw [basin, zpow_sub₀ two_ne_zero]
  push_cast
  ring

/-- The magnitude is at most the number of digits. -/
theorem ten_pow_magnitude_le (canonical : Number.Canonical m e) :
    (10 : ℚ) ^ ((basin m e).magnitude - 1) ≤ m * 2 ^ e := by
  rw [← value_basin, Basin.magnitude]
  generalize bits : ((basin m e).value.log2 : Int) + (basin m e).exponent - 2 = n
  split
  · rename_i enough
    obtain ⟨u, pos, point, bound⟩ := (basin m e).exists_unit
      (Int.fdiv (n * 30103) 100000 + 1)
    rw [← @Nat.cast_le ℚ, Nat.cast_mul, point, bound, ← mul_assoc,
      mul_le_mul_iff_left₀ pos] at enough
    rwa [add_sub_cancel_right]
  · rw [add_sub_cancel_right]
    have value : (basin m e).value = 4 * m := rfl
    have exponent : (basin m e).exponent = e := rfl
    have nonzero : 4 * m ≠ 0 := by have := canonical.pos; omega
    have least : 2 ≤ (4 * m).log2 :=
      (Nat.le_log2 nonzero).mpr (by have := canonical.pos; omega)
    have greatest : (4 * m).log2 < 55 :=
      (Nat.log2_lt nonzero).mpr (by have := canonical.fits; omega)
    have low := canonical.least
    have high := canonical.greatest
    rw [value, exponent] at bits
    have range : (n + 1074).toNat < 2098 := by omega
    have entry := ten_pow_le_two_pow ⟨(n + 1074).toNat, range⟩
    have place : (((n + 1074).toNat : Int) - 1074) = n := by omega
    have up : (n + 1074).toNat - 1074 = n.toNat := by omega
    have down : 1074 - (n + 1074).toNat = (-n).toNat := by omega
    dsimp only at entry
    rw [place, up, down] at entry
    generalize Int.fdiv (n * 30103) 100000 = g at entry
    have entry : (10 : ℚ) ^ g.toNat * 2 ^ (-n).toNat ≤ 2 ^ n.toNat * 10 ^ (-g).toNat := by
      exact_mod_cast entry
    rw [← Number.zpow_mul_toNat (by norm_num) g, ← Number.zpow_mul_toNat two_ne_zero n] at entry
    have unit : (0 : ℚ) < 10 ^ (-g).toNat * 2 ^ (-n).toNat := by positivity
    have digits : (10 : ℚ) ^ g ≤ 2 ^ n := by
      refine le_of_mul_le_mul_right ?_ unit
      linarith
    refine digits.trans ?_
    have top : (2 : ℚ) ^ (4 * m).log2 ≤ (4 * m : Nat) := by
      exact_mod_cast Nat.log2_self_le nonzero
    rw [value, exponent, ← bits, add_sub_assoc, zpow_add₀ two_ne_zero, zpow_natCast]
    gcongr

/-- **The shortest decimal of a number lies in its basin.** -/
theorem holds_shortest (canonical : Number.Canonical m e) :
    (basin m e).Holds ((shortest m e).digits * 10 ^ (shortest m e).exponent) := by
  have pos := canonical.pos
  refine Basin.holds_search ?_ ?_ ?_
  · unfold basin
    dsimp only
    split <;> omega
  · unfold basin
    dsimp only
    omega
  · have enough := ten_pow_magnitude_le canonical
    have unit : (0 : ℚ) < 2 ^ (e - 2) := by positivity
    have fits : (m : ℚ) < 2 ^ 53 := by exact_mod_cast canonical.fits
    have width : (m : ℚ) * 4 / 10 ^ 16 < (basin m e).high - (basin m e).low := by
      unfold basin
      dsimp only
      split
      · rename_i edge
        rw [edge.1]
        norm_num
      · have low : ((4 * m - 2 : Nat) : ℚ) = 4 * m - 2 := by
          rw [Nat.cast_sub (by omega)]
          push_cast
          ring
        rw [low]
        push_cast
        linarith
    rw [← value_basin] at enough
    calc (10 : ℚ) ^ ((basin m e).magnitude - 1 - (16 : Nat))
        = 10 ^ ((basin m e).magnitude - 1) / 10 ^ 16 := by
          rw [zpow_sub₀ (by norm_num), zpow_natCast]
      _ ≤ (basin m e).value * 2 ^ (e - 2) / 10 ^ 16 := by gcongr; exact enough
      _ = m * 4 / 10 ^ 16 * 2 ^ (e - 2) := by
        rw [basin]
        push_cast
        ring
      _ < ((basin m e).high - (basin m e).low) * 2 ^ (e - 2) := by gcongr

end Decimal

namespace Number

theorem ofDigits_append (cs ds : List Char) :
    ofDigits (cs ++ ds) = 10 ^ ds.length * ofDigits cs + ofDigits ds := by
  show Nat.ofDigitChars 10 (cs ++ ds) 0 = _
  rw [Nat.ofDigitChars_append, Nat.ofDigitChars_eq_ofDigitChars_zero]
  rfl

@[simp] theorem ofDigits_toDigits (n : Nat) : ofDigits (Nat.toDigits 10 n) = n :=
  Nat.ofDigitChars_ten_toDigits

theorem ofDigits_zeros (n : Nat) : ofDigits (List.replicate n '0') = 0 := by
  show Nat.ofDigitChars 10 (List.replicate n '0') 0 = 0
  rw [Nat.ofDigitChars_replicate_zero, Nat.mul_zero]

section Reading

variable {whole fraction : List Char}

/-- Digits are taken up to the first other character. -/
theorem span_digits (hwhole : ∀ c ∈ whole, c.isDigit = true) (rest : List Char)
    (stop : ∀ c ∈ rest.head?, c.isDigit = false) :
    (whole ++ rest).takeWhile Char.isDigit = whole ∧
      (whole ++ rest).dropWhile Char.isDigit = rest := by
  have none : rest.takeWhile Char.isDigit = [] ∧ rest.dropWhile Char.isDigit = rest := by
    cases rest with
    | nil => exact ⟨rfl, rfl⟩
    | cons c cs =>
        have other := stop c rfl
        exact ⟨List.takeWhile_cons_of_neg (by simp [other]),
          List.dropWhile_cons_of_neg (by simp [other])⟩
  rw [List.takeWhile_append_of_pos hwhole, List.dropWhile_append_of_pos hwhole, none.1, none.2,
    List.append_nil]
  exact ⟨rfl, rfl⟩

/-- Digits are read as an integer. -/
theorem ofUnsigned?_whole (hwhole : ∀ c ∈ whole, c.isDigit = true) (nonempty : whole ≠ []) :
    ofUnsigned? whole = some (ofDecimal (ofDigits whole) 0) := by
  obtain ⟨taken, dropped⟩ := span_digits hwhole [] (by simp)
  rw [List.append_nil] at taken dropped
  unfold ofUnsigned?
  simp [taken, dropped, nonempty, readExponent?]

/-- Digits with a point among them are read as a part of a power of ten. -/
theorem ofUnsigned?_point (hwhole : ∀ c ∈ whole, c.isDigit = true) (nonempty : whole ≠ [])
    (hfraction : ∀ c ∈ fraction, c.isDigit = true) :
    ofUnsigned? (whole ++ '.' :: fraction) =
      some (ofDecimal (ofDigits (whole ++ fraction)) (-fraction.length)) := by
  obtain ⟨taken, dropped⟩ := span_digits hwhole ('.' :: fraction) (by simp)
  obtain ⟨taken', dropped'⟩ := span_digits hfraction [] (by simp)
  rw [List.append_nil] at taken' dropped'
  unfold ofUnsigned?
  simp [taken, dropped, taken', dropped', nonempty, readExponent?]

end Reading

/-- A decimal that is written out is read as itself. -/
theorem ofUnsigned?_positional (d : Decimal) : ∃ n x,
    ofUnsigned? d.positional = some (ofDecimal n x) ∧
      (n : ℚ) * 10 ^ x = d.digits * 10 ^ d.exponent := by
  have digits : ∀ c ∈ d.numerals, c.isDigit = true :=
    fun c hc => Nat.isDigit_of_mem_toDigits (by decide) (by decide) hc
  have value : ofDigits d.numerals = d.digits := ofDigits_toDigits d.digits
  have some : d.numerals ≠ [] := Nat.toDigits_ne_nil
  have zeros : ∀ n, ∀ c ∈ List.replicate n '0', c.isDigit = true := by
    intro n c hc
    rw [List.eq_of_mem_replicate hc]
    decide
  unfold Decimal.positional
  dsimp only
  split
  · rename_i front
    refine ⟨_, _, ofUnsigned?_whole (List.forall_mem_append.mpr ⟨digits, zeros _⟩)
      (by simp [some]), ?_⟩
    rw [ofDigits_append, value, ofDigits_zeros, List.length_replicate]
    have power : (10 : ℚ) ^ d.exponent.toNat = 10 ^ d.exponent := by
      rw [← zpow_natCast]
      congr 1
      omega
    push_cast
    rw [power]
    ring
  · rename_i behind
    have exponent : -((-d.exponent).toNat : Int) = d.exponent := by omega
    generalize (-d.exponent).toNat = k at behind exponent ⊢
    split
    · rename_i within
      refine ⟨_, _, ofUnsigned?_point (fun c hc => digits c (List.mem_of_mem_take hc)) ?_
        (fun c hc => digits c (List.mem_of_mem_drop hc)), ?_⟩
      · rw [Ne, List.take_eq_nil_iff]
        simp only [some, or_false]
        omega
      · have length : (d.numerals.drop (d.numerals.length - k)).length = k := by
          rw [List.length_drop]
          omega
        rw [List.take_append_drop, value, length, exponent]
    · rename_i beyond
      have zero : ∀ c ∈ ['0'], c.isDigit = true := zeros 1
      have read := ofUnsigned?_point zero (List.cons_ne_nil _ _)
        (List.forall_mem_append.mpr ⟨zeros (k - d.numerals.length), digits⟩)
      have length : (List.replicate (k - d.numerals.length) '0' ++ d.numerals).length = k := by
        rw [List.length_append, List.length_replicate]
        omega
      have none : ofDigits ['0'] = 0 := ofDigits_zeros 1
      rw [length, exponent, ofDigits_append, ofDigits_append, none, ofDigits_zeros, value] at read
      exact ⟨_, _, read, by simp⟩

/-- What is read as a number has no sign. -/
theorem takeSign_of_ofUnsigned? {cs : List Char} {x : Float} (h : ofUnsigned? cs = some x) :
    takeSign cs = (false, cs) := by
  have other : ∀ {c : Char} {more : List Char}, c ≠ '-' → c ≠ '+' →
      takeSign (c :: more) = (false, c :: more) := by
    intro c more notMinus notPlus
    unfold takeSign
    split <;> simp_all
  cases isNumeral_of_ofUnsigned? h with
  | digit hc _ _ =>
      refine other ?_ ?_ <;>
      · rintro rfl
        exact absurd hc (by decide)
  | point _ _ _ => exact other (by decide) (by decide)

/-- What is written for a number is a decimal in its basin. -/
theorem exists_decimal {x : Float} {sign : Sign} {m : Nat} {e : Int} {pos : 0 < m}
    (h : x.toModel.unpack = .finite sign m e pos) : ∃ cs n p,
      text x = signText sign ++ cs ∧ ofUnsigned? cs = some (ofDecimal n p) ∧
        (Decimal.basin m e).Holds (n * 10 ^ p) := by
  have canonical := canonical_of_unpack h
  -- an integer is the value itself
  have integer : ∀ n : Nat, (n : ℚ) = m * 2 ^ e → ∃ k p,
      ofUnsigned? (Nat.toDigits 10 n) = some (ofDecimal k p) ∧
        (Decimal.basin m e).Holds (k * 10 ^ p) := by
    intro n value
    have digits : ∀ c ∈ Nat.toDigits 10 n, c.isDigit = true :=
      fun c hc => Nat.isDigit_of_mem_toDigits (by decide) (by decide) hc
    refine ⟨_, _, ofUnsigned?_whole digits Nat.toDigits_ne_nil, ?_⟩
    rw [ofDigits_toDigits, zpow_zero, mul_one, value]
    exact holds_self canonical
  unfold text
  rw [h]
  dsimp only
  split
  · rename_i whole
    obtain ⟨k, p, read, holds⟩ := integer (m <<< e.toNat) (by
      rw [Nat.shiftLeft_eq]
      push_cast
      rw [← zpow_natCast, Int.toNat_of_nonneg whole])
    exact ⟨_, k, p, rfl, read, holds⟩
  · rename_i fraction
    split
    · rename_i whole
      obtain ⟨k, p, read, holds⟩ := integer (m >>> (-e).toNat) (by
        rw [Nat.shiftLeft_eq] at whole
        have split : (2 : ℚ) ^ e * 2 ^ (-e).toNat = 1 := by
          rw [zpow_mul_toNat two_ne_zero, Int.toNat_of_nonpos (by omega), pow_zero]
        nth_rewrite 2 [← whole]
        push_cast
        rw [mul_assoc, mul_comm (2 ^ (-e).toNat), split, mul_one])
      exact ⟨_, k, p, rfl, read, holds⟩
    · obtain ⟨k, p, read, value⟩ := ofUnsigned?_positional (Decimal.shortest m e)
      refine ⟨_, k, p, rfl, read, ?_⟩
      rw [value]
      exact Decimal.holds_shortest canonical

theorem eq_ofModel_pack {x : Float} {u : UnpackedFloat} (h : x.toModel.unpack = u) :
    x = .ofModel (.pack u) := by
  rw [← h, pack_unpack]

/-- **Every number is read back from its text**, but for a negative zero. -/
theorem readsBack {x : Float} (h : x ≠ -0.0) : ReadsBack x := by
  unfold ReadsBack
  rcases unpacked : x.toModel.unpack with sign | _ | sign | ⟨sign, m, e, pos⟩
  · cases sign with
    | negative =>
        refine .inr (.inr (.inl ?_))
        rw [eq_ofModel_pack unpacked]
        decide +kernel
    | positive =>
        refine .inr (.inl ?_)
        rw [eq_ofModel_pack unpacked]
        decide +kernel
  · refine .inl ?_
    rw [eq_ofModel_pack unpacked]
    decide +kernel
  · cases sign with
    | negative =>
        refine absurd ?_ h
        rw [eq_ofModel_pack unpacked]
        decide +kernel
    | positive =>
        refine .inr (.inr (.inr ?_))
        rw [eq_ofModel_pack unpacked]
        decide +kernel
  · have canonical := canonical_of_unpack unpacked
    obtain ⟨cs, n, p, written, read, holds⟩ := exists_decimal unpacked
    rw [ofDecimal_of_holds canonical holds] at read
    refine .inr (.inr (.inr ?_))
    rw [written, ofDecimal?]
    cases sign with
    | negative =>
        show (ofUnsigned? cs).map _ = _
        have negated : Float.neg (.ofModel (.pack (.finite .positive m e canonical.pos))) = x := by
          rw [eq_ofModel_pack unpacked, Float.neg]
          show Float.ofModel (.pack (Float.Model.unpack _).neg) = _
          rw [unpack_pack_finite canonical]
          rfl
        rw [read]
        exact congrArg some negated
    | positive =>
        show (ofUnsigned? (takeSign cs).2).map (fun x => if (takeSign cs).1 then -x else x) = _
        rw [takeSign_of_ofUnsigned? read]
        dsimp only
        rw [read, eq_ofModel_pack unpacked]
        rfl

end Number

end FormulaSheet
