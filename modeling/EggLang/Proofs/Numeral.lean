import EggLang.Number.Numeral
import EggLang.Number.Text
import Mathlib.Data.List.TakeWhile
import Mathlib.Tactic.Ring

/-! Numbers as text and back. The text of a finite number without sign is a numeral of digits with
at most one point, and it reads back as the number. -/

namespace EggLang.Number

/-! ### Digits -/

theorem digitChar_spec {d : Nat} (h : d < 10) :
    (Nat.digitChar d).isDigit = true ∧ (Nat.digitChar d).toNat - '0'.toNat = d := by
  have hall : ∀ d < 10,
      (Nat.digitChar d).isDigit = true ∧ (Nat.digitChar d).toNat - '0'.toNat = d := by
    decide
  exact hall d h

theorem foldl_digits (value : Nat) (cs : List Char) :
    cs.foldl (fun value c => value * 10 + (c.toNat - '0'.toNat)) value =
      value * 10 ^ cs.length + digitsValue cs := by
  rw [digitsValue]
  induction cs generalizing value with
  | nil => simp
  | cons c cs ih =>
    rw [List.foldl_cons, List.foldl_cons, ih, ih (0 * 10 + _), List.length_cons, pow_succ]
    ring

theorem digitsValue_append (cs ds : List Char) :
    digitsValue (cs ++ ds) = digitsValue cs * 10 ^ ds.length + digitsValue ds := by
  rw [digitsValue, List.foldl_append, foldl_digits]
  rfl

theorem digitsValue_zeros (k : Nat) : digitsValue (List.replicate k '0') = 0 := by
  induction k with
  | zero => rfl
  | succ k ih =>
    rw [List.replicate_succ', digitsValue_append, ih, Nat.zero_mul]
    rfl

theorem digitsValue_digits (n : Nat) : digitsValue (digits n) = n := by
  fun_induction digits n with
  | case1 n h => exact (Nat.zero_add _).trans (digitChar_spec h).2
  | case2 n h ih =>
    have hlast : digitsValue [Nat.digitChar (n % 10)] = n % 10 :=
      (Nat.zero_add _).trans (digitChar_spec (Nat.mod_lt n (by omega))).2
    rw [digitsValue_append, ih, hlast, List.length_singleton]
    omega

theorem isDigit_of_mem_digits {n : Nat} : ∀ c ∈ digits n, c.isDigit = true := by
  fun_induction digits n with
  | case1 n h => simpa using (digitChar_spec h).1
  | case2 n h ih =>
    rw [List.forall_mem_append]
    exact ⟨ih, by simpa using (digitChar_spec (Nat.mod_lt n (by omega))).1⟩

theorem digits_ne_nil (n : Nat) : digits n ≠ [] := by
  rw [digits]
  split <;> simp

theorem isDigit_of_mem_zeros {k : Nat} : ∀ c ∈ List.replicate k '0', c.isDigit = true := by
  intro c hc
  rw [(List.mem_replicate.mp hc).2]
  rfl

theorem toLower_of_isDigit {c : Char} (h : c.isDigit = true) : c.toLower = c := by
  simp only [Char.isDigit, Bool.and_eq_true, decide_eq_true_eq] at h
  refine dif_neg ?_
  exact fun hupper => absurd (UInt32.le_trans hupper.1 h.2) (by decide)

/-! ### Numerals without sign and exponent -/

/-- Digits and at most one point. Without the point the digits stand for `value`, which is `places`
digits behind the place of the point. -/
inductive Numeral : List Char → Nat → Nat → Prop
  | whole {cs : List Char} : cs ≠ [] → (∀ c ∈ cs, c.isDigit = true) →
      Numeral cs (digitsValue cs) 0
  | point {whole fraction : List Char} : whole ++ fraction ≠ [] →
      (∀ c ∈ whole, c.isDigit = true) → (∀ c ∈ fraction, c.isDigit = true) →
      Numeral (whole ++ '.' :: fraction) (digitsValue (whole ++ fraction)) fraction.length

namespace Numeral

variable {cs : List Char} {value places : Nat}

theorem digit_or_point (h : Numeral cs value places) : ∀ c ∈ cs, c.isDigit = true ∨ c = '.' := by
  cases h with
  | whole _ hdigits => exact fun c hc => .inl (hdigits c hc)
  | point _ hdigits hfraction =>
    rw [List.forall_mem_append, List.forall_mem_cons]
    exact ⟨fun c hc => .inl (hdigits c hc), .inr rfl, fun c hc => .inl (hfraction c hc)⟩

theorem ne_nil (h : Numeral cs value places) : cs ≠ [] := by
  cases h with
  | whole hne _ => exact hne
  | point => simp

theorem readDecimal? (h : Numeral cs value places) :
    readDecimal? cs = some (ofMagnitude (ofDecimal value (-(places : Int)))) := by
  cases h with
  | whole hne hdigits =>
    have htake : cs.takeWhile Char.isDigit = cs := List.takeWhile_eq_self_iff.mpr hdigits
    have hdrop : cs.dropWhile Char.isDigit = [] := List.dropWhile_eq_nil_iff.mpr hdigits
    simp [Number.readDecimal?, htake, hdrop, splitFraction, readExponent?, hne]
  | @point whole fraction hne hdigits hfraction =>
    have htake : (whole ++ '.' :: fraction).takeWhile Char.isDigit = whole := by
      rw [List.takeWhile_append_of_pos hdigits, List.takeWhile_cons_of_neg (by decide),
        List.append_nil]
    have hdrop : (whole ++ '.' :: fraction).dropWhile Char.isDigit = '.' :: fraction := by
      rw [List.dropWhile_append_of_pos hdigits, List.dropWhile_cons_of_neg (by decide)]
    have htake' : fraction.takeWhile Char.isDigit = fraction :=
      List.takeWhile_eq_self_iff.mpr hfraction
    have hdrop' : fraction.dropWhile Char.isDigit = [] := List.dropWhile_eq_nil_iff.mpr hfraction
    have hempty : (whole.isEmpty && fraction.isEmpty) = false := by
      simpa using hne
    simp [Number.readDecimal?, htake, hdrop, splitFraction, htake', hdrop', readExponent?, hempty]

theorem map_toLower (h : Numeral cs value places) : cs.map Char.toLower = cs := by
  refine (List.map_congr_left fun c hc => ?_).trans (List.map_id cs)
  rcases h.digit_or_point c hc with hdigit | rfl
  · exact toLower_of_isDigit hdigit
  · rfl

/-- A text of digits and a point names neither an infinity nor `NaN`. -/
theorem readUnsigned? (h : Numeral cs value places) :
    readUnsigned? cs = some (ofMagnitude (ofDecimal value (-(places : Int)))) := by
  have hword : ∀ word : String, word.toList.any (fun d => !d.isDigit && d != '.') = true →
      String.ofList (cs.map Char.toLower) ≠ word := by
    rintro _ hother rfl
    rw [h.map_toLower, String.toList_ofList, List.any_eq_true] at hother
    obtain ⟨c, hc, hother⟩ := hother
    rcases h.digit_or_point c hc with hdigit | rfl
    · simp [hdigit] at hother
    · exact nomatch hother
  have hinf := hword "inf" (by decide)
  have hinfinity := hword "infinity" (by decide)
  have hnan := hword "nan" (by decide)
  simp only [Number.readUnsigned?, hinf, hinfinity, hnan, decide_false, Bool.or_self,
    Bool.false_eq_true, ↓reduceIte, h.readDecimal?]

theorem read? {text : String} (h : Numeral text.toList value places) :
    read? text = some (ofMagnitude (ofDecimal value (-(places : Int)))) := by
  rw [Number.read?]
  split
  · rename_i heq
    exact absurd (h.digit_or_point '-' (by simp [heq])) (by decide)
  · rename_i heq
    exact absurd (h.digit_or_point '+' (by simp [heq])) (by decide)
  · exact h.readUnsigned?

end Numeral

/-! ### Numbers as numerals -/

theorem numeral_positional_of_lt {p : Nat} (hp : p < 1074) (c : Nat) :
    Numeral (positional c p) c (1074 - p) := by
  have hdigits := isDigit_of_mem_digits (n := c)
  generalize hpadded : List.replicate (1074 - p + 1 - (digits c).length) '0' ++ digits c = padded
  have hlength : 1074 - p < padded.length := by
    rw [← hpadded, List.length_append, List.length_replicate]
    omega
  have hall : ∀ c ∈ padded, c.isDigit = true := by
    rw [← hpadded, List.forall_mem_append]
    exact ⟨isDigit_of_mem_zeros, isDigit_of_mem_digits⟩
  have hvalue : digitsValue padded = c := by
    rw [← hpadded, digitsValue_append, digitsValue_zeros, digitsValue_digits]
    omega
  have hpoint : Numeral (padded.take (padded.length - (1074 - p)) ++
      '.' :: padded.drop (padded.length - (1074 - p))) _ _ :=
    .point (by rw [List.take_append_drop]; exact List.ne_nil_of_length_pos (by omega))
      (fun c hc => hall c (List.mem_of_mem_take hc)) fun c hc => hall c (List.mem_of_mem_drop hc)
  rw [List.take_append_drop, hvalue, List.length_drop] at hpoint
  rw [positional, if_neg (by omega)]
  dsimp only
  rw [hpadded]
  convert hpoint using 1
  omega

theorem isDigit_of_mem_positional {p : Nat} (hp : 1074 ≤ p) (c : Nat) :
    ∀ d ∈ positional c p, d.isDigit = true := by
  rw [positional, if_pos hp, List.forall_mem_append]
  exact ⟨isDigit_of_mem_digits, isDigit_of_mem_zeros⟩

theorem numeral_positional_of_le {p : Nat} (hp : 1074 ≤ p) (c : Nat) :
    Numeral (positional c p) (c * 10 ^ (p - 1074)) 0 := by
  have hdigits := isDigit_of_mem_positional hp c
  have hvalue : digitsValue (digits c ++ List.replicate (p - 1074) '0') = c * 10 ^ (p - 1074) := by
    rw [digitsValue_append, digitsValue_digits, digitsValue_zeros, List.length_replicate,
      Nat.add_zero]
  rw [positional, if_pos hp] at hdigits ⊢
  rw [← hvalue]
  exact .whole (by simp [digits_ne_nil]) hdigits

/-! ### The exact value of a magnitude -/

theorem roundDiv_mul {b : Nat} (hb : 0 < b) (v : Nat) : roundDiv (v * b) b = v := by
  simp [roundDiv, Nat.mul_div_cancel v hb, hb]

/-- A magnitude has 53 digits in base two in front of its shift, or fewer and no shift. -/
theorem log2_units (m : Nat) : (units m).log2 - 52 = m / 2 ^ 52 - 1 := by
  rw [units, Nat.pow_eq, Nat.pow_eq]
  by_cases hm : m < 2 ^ 52
  · rw [Nat.div_eq_of_lt hm, Nat.zero_sub, Nat.zero_mul, Nat.pow_zero, Nat.mul_one, Nat.sub_zero]
    by_cases hzero : m = 0
    · rw [hzero, Nat.log2_zero]
    · have := (Nat.log2_lt hzero).mpr hm
      omega
  · generalize hshift : m / 2 ^ 52 - 1 = shift
    have hlow : 2 ^ 52 ≤ m - shift * 2 ^ 52 := by omega
    have hhigh : m - shift * 2 ^ 52 < 2 ^ 53 := by omega
    have hpos : (m - shift * 2 ^ 52) * 2 ^ shift ≠ 0 :=
      Nat.mul_ne_zero (by omega) (Nat.pow_pos (by omega)).ne'
    have hlog : ((m - shift * 2 ^ 52) * 2 ^ shift).log2 = 52 + shift := by
      rw [Nat.log2_eq_iff hpos]
      constructor
      · rw [Nat.pow_add]
        exact Nat.mul_le_mul_right _ hlow
      · rw [Nat.add_right_comm, Nat.pow_add]
        exact Nat.mul_lt_mul_of_pos_right hhigh (Nat.pow_pos (by omega))
    omega

/-- The exact value of a magnitude has that magnitude. Its power of ten is a variable, as nothing
should compute it. -/
theorem nearest_exactDecimal {m k : Nat} (h : m < infiniteMagnitude) (hk : 1074 = k) :
    nearest (exactDecimal m) (Nat.pow 10 k) = m := by
  have hscaled : units m * Nat.pow 5 k * Nat.pow 2 k = units m * Nat.pow 10 k := by
    rw [Nat.mul_assoc, Nat.pow_eq, Nat.pow_eq, Nat.pow_eq, ← Nat.mul_pow]
  have hb : 0 < Nat.pow 10 k := Nat.pow_pos (by decide)
  have hunits : units m * Nat.pow 10 k =
      (m - (m / 2 ^ 52 - 1) * 2 ^ 52) * (Nat.pow 10 k * Nat.pow 2 (m / 2 ^ 52 - 1)) := by
    rw [units, Nat.mul_assoc, Nat.mul_comm (Nat.pow 10 k)]
    rfl
  have hpos : 0 < Nat.pow 10 k * Nat.pow 2 (m / 2 ^ 52 - 1) :=
    Nat.mul_pos hb (Nat.pow_pos (by decide))
  rw [nearest, exactDecimal, hk, hscaled, Nat.mul_div_cancel _ hb, log2_units, hunits,
    roundDiv_mul hpos, Nat.pow_eq]
  omega

theorem units_pos {m : Nat} (h : m ≠ 0) : 0 < units m := by
  rw [units, Nat.pow_eq, Nat.pow_eq]
  refine Nat.mul_pos ?_ (Nat.pow_pos (by decide))
  omega

theorem le_log2_exactDecimal {m k : Nat} (h : m ≠ 0) (hk : 1074 = k) :
    k ≤ (exactDecimal m).log2 := by
  rw [exactDecimal, hk]
  have hpow : 2 ^ k ≤ 5 ^ k := Nat.pow_le_pow_left (by decide) k
  have hle : 5 ^ k ≤ units m * Nat.pow 5 k := Nat.le_mul_of_pos_left _ (units_pos h)
  have hne : units m * Nat.pow 5 k ≠ 0 :=
    Nat.mul_ne_zero (units_pos h).ne' (Nat.pow_pos (by decide)).ne'
  exact (Nat.le_log2 hne).mpr (hpow.trans hle)

theorem ofDecimal_exactDecimal {m : Nat} {e : Int} (h : m < infiniteMagnitude) (he : e = -1074) :
    ofDecimal (exactDecimal m) e = m := by
  cases e with
  | ofNat e => exact nomatch he
  | negSucc e =>
    have hk : 1074 = e + 1 := by omega
    rw [ofDecimal]
    split
    · rename_i hcut
      by_contra hm
      have hle := le_log2_exactDecimal (Ne.symm hm) hk
      omega
    · exact nearest_exactDecimal h hk

/-! ### Shortest decimals -/

theorem ofDecimal_of_coefficient? {m exact p c : Nat} (h : coefficient? m exact p = some c) :
    ofDecimal c ((p : Int) - 1074) = m := by
  simp only [coefficient?] at h
  split at h
  · rename_i hreads
    cases h
    simp only [Bool.and_eq_true, beq_iff_eq] at hreads
    exact hreads.1
  · split at h
    · rename_i hreads
      cases h
      exact beq_iff_eq.mp hreads
    · exact nomatch h

theorem ofDecimal_shorten {m : Nat} (h : m < infiniteMagnitude) (p : Nat) :
    ofDecimal (shorten m (exactDecimal m) p).1
      (((shorten m (exactDecimal m) p).2 : Int) - 1074) = m := by
  induction p with
  | zero =>
    rw [shorten]
    exact ofDecimal_exactDecimal h (by omega)
  | succ p ih =>
    rw [shorten]
    split
    · rename_i hc
      exact ofDecimal_of_coefficient? hc
    · exact ih

theorem ofDecimal_shortest {m : Nat} (h : m < infiniteMagnitude) :
    ofDecimal (shortest m).1 (((shortest m).2 : Int) - 1074) = m := by
  rw [shortest]
  exact ofDecimal_shorten h _

/-- Zeros behind the digits stand for the power of ten. -/
theorem ofDecimal_mul_pow {m c k : Nat} {e e' : Int} (h : m < infiniteMagnitude)
    (hc : ofDecimal c e = m) (he : e = k) (he' : e' = 0) : ofDecimal (c * 10 ^ k) e' = m := by
  obtain rfl : e = Int.ofNat k := he
  obtain rfl : e' = Int.ofNat 0 := he'
  rw [ofDecimal] at hc ⊢
  by_cases hzero : c = 0
  · rw [if_pos hzero] at hc
    rw [if_pos (by rw [hzero, Nat.zero_mul]), hc]
  · have hne : c * 10 ^ k ≠ 0 := Nat.mul_ne_zero hzero (Nat.pow_pos (by decide)).ne'
    rw [if_neg hzero] at hc
    rw [if_neg hne, if_neg (by decide)]
    split at hc
    · omega
    · rwa [Nat.pow_eq, Nat.pow_zero, Nat.mul_one]

/-! ### The text of a number -/

/-- What is written of a finite number behind its sign is digits, or has digits behind a point. -/
theorem exists_numeral {m : Nat} (h : m < infiniteMagnitude) :
    ∃ value places, Numeral (magnitudeText m) value places ∧
      (places = 0 → ∀ c ∈ magnitudeText m, c.isDigit = true) ∧
      ofDecimal value (-(places : Int)) = m := by
  by_cases hm : m = 0
  · have hdigits : ∀ c ∈ ['0'], c.isDigit = true := List.forall_mem_singleton.mpr rfl
    rw [magnitudeText, if_pos hm]
    exact ⟨_, _, .whole (List.cons_ne_nil _ _) hdigits, fun _ => hdigits,
      by simp [ofDecimal, digitsValue, hm]⟩
  · rw [magnitudeText, if_neg hm, if_neg h.ne]
    have hread := ofDecimal_shortest h
    generalize (shortest m).1 = c at hread ⊢
    generalize (shortest m).2 = p at hread ⊢
    by_cases hp : p < 1074
    · refine ⟨_, _, numeral_positional_of_lt hp c, fun hplaces => by omega, ?_⟩
      have he : -((1074 - p : Nat) : Int) = (p : Int) - 1074 := by omega
      rwa [he]
    · have hle := Nat.le_of_not_lt hp
      exact ⟨_, _, numeral_positional_of_le hle c, fun _ => isDigit_of_mem_positional hle c,
        ofDecimal_mul_pow h hread (by omega) (by omega)⟩

theorem ofMagnitude_magnitude {x : Number} (h : x.isNegative = false) :
    ofMagnitude x.magnitude = x := by
  obtain ⟨bits⟩ := x
  rw [isNegative, decide_eq_false_iff_not, Nat.not_le] at h
  rw [magnitude, Nat.mod_eq_of_lt h, ofMagnitude]
  simp

theorem xor_two_pow {m k : Nat} (h : m < 2 ^ k) : m ^^^ 2 ^ k = 2 ^ k + m := by
  refine Nat.eq_of_testBit_eq fun i => ?_
  rw [Nat.testBit_xor, Nat.testBit_two_pow]
  rcases Nat.lt_trichotomy i k with hlt | rfl | hgt
  · rw [Nat.testBit_two_pow_add_gt hlt, decide_eq_false hlt.ne', Bool.xor_false]
  · rw [Nat.testBit_two_pow_add_eq, decide_eq_true rfl, Bool.xor_true]
  · have hpow : 2 ^ (k + 1) ≤ 2 ^ i := Nat.pow_le_pow_right (by decide) hgt
    rw [Nat.pow_succ] at hpow
    rw [Nat.testBit_lt_two_pow (show m < 2 ^ i by omega),
      Nat.testBit_lt_two_pow (show 2 ^ k + m < 2 ^ i by omega), decide_eq_false hgt.ne,
      Bool.xor_false]

theorem neg_ofMagnitude_magnitude {x : Number} (h : x.isNegative = true) :
    -ofMagnitude x.magnitude = x := by
  obtain ⟨bits⟩ := x
  have hbits := bits.toNat_lt
  have hsign : 2 ^ 63 ≤ bits.toNat := of_decide_eq_true h
  have hmagnitude : magnitude ⟨bits⟩ = bits.toNat - 2 ^ 63 := by
    show bits.toNat % 2 ^ 63 = _
    omega
  have hlt : bits.toNat - 2 ^ 63 < 2 ^ 63 := by omega
  refine congrArg Number.mk (UInt64.toNat_inj.mp ?_)
  rw [UInt64.toNat_xor, hmagnitude, ofMagnitude, Nat.toUInt64, UInt64.toNat_ofNat',
    Nat.mod_eq_of_lt (by omega)]
  exact (xor_two_pow hlt).trans (by omega)

theorem text_of_isFinite {x : Number} (hfinite : x.isFinite = true) :
    x.text.toList = (if x.isNegative then ['-'] else []) ++ magnitudeText x.magnitude := by
  rw [isFinite, decide_eq_true_iff] at hfinite
  have hnan : x.isNaN = false := by
    rw [isNaN, decide_eq_false_iff_not]
    omega
  rw [text, hnan, if_neg Bool.false_ne_true, String.toList_ofList]

theorem text_of_finite {x : Number} (hfinite : x.isFinite = true) (hsign : x.isNegative = false) :
    x.text.toList = magnitudeText x.magnitude := by
  rw [text_of_isFinite hfinite, hsign]
  simp

/-- What is written of a finite number behind its sign reads back as its magnitude. -/
theorem read?_magnitudeText {m : Nat} (h : m < infiniteMagnitude) :
    read? (.ofList (magnitudeText m)) = some (ofMagnitude m) := by
  obtain ⟨value, places, hnumeral, -, hvalue⟩ := exists_numeral h
  rw [← String.toList_ofList (l := magnitudeText m)] at hnumeral
  rw [hnumeral.read?, hvalue]

theorem numeral_text {x : Number} (hfinite : x.isFinite = true) (hsign : x.isNegative = false) :
    ∃ value places, Numeral x.text.toList value places ∧
      ofMagnitude (ofDecimal value (-(places : Int))) = x := by
  obtain ⟨value, places, hnumeral, -, hvalue⟩ := exists_numeral (decide_eq_true_iff.mp hfinite)
  rw [← text_of_finite hfinite hsign] at hnumeral
  exact ⟨value, places, hnumeral, by rw [hvalue, ofMagnitude_magnitude hsign]⟩

/-- The text of a finite number without sign reads back as the number. -/
theorem read?_text {x : Number} (hfinite : x.isFinite = true) (hsign : x.isNegative = false) :
    read? x.text = some x := by
  obtain ⟨value, places, hnumeral, hvalue⟩ := numeral_text hfinite hsign
  rw [hnumeral.read?, hvalue]

/-! ### The number of a numeral -/

theorem nearest_le (a b : Nat) : nearest a b ≤ infiniteMagnitude := Nat.min_le_right _ _

theorem ofDecimal_le (m : Nat) (e : Int) : ofDecimal m e ≤ infiniteMagnitude := by
  cases e with
  | ofNat e =>
    rw [ofDecimal]
    split
    · exact Nat.zero_le _
    · split
      · exact Nat.le_refl _
      · exact nearest_le _ _
  | negSucc e =>
    rw [ofDecimal]
    split
    · exact Nat.zero_le _
    · exact nearest_le _ _

/-- A numeral stands for a number without sign. -/
theorem Numeral.unsigned_of_read? {text : String} {value places : Nat} {x : Number}
    (h : Numeral text.toList value places) (hread : Number.read? text = some x) :
    x.isNaN = false ∧ x.isNegative = false := by
  rw [h.read?] at hread
  cases hread
  have hle := ofDecimal_le value (-(places : Int))
  generalize ofDecimal value (-(places : Int)) = m at hle ⊢
  have hlt : m < Nat.pow 2 63 := by
    rw [infiniteMagnitude, Nat.pow_eq] at hle
    rw [Nat.pow_eq]
    omega
  rw [isNaN, magnitude_ofMagnitude hlt, decide_eq_false_iff_not, Nat.not_lt, isNegative,
    decide_eq_false_iff_not, Nat.not_le]
  refine ⟨hle, ?_⟩
  rwa [ofMagnitude, Nat.toUInt64, UInt64.toNat_ofNat', Nat.mod_eq_of_lt (by
    rw [Nat.pow_eq] at hlt
    omega)]

theorem isFinite_of_not_infinite {x : Number} (hnan : x.isNaN = false)
    (hinfinite : x.isInfinite = false) : x.isFinite = true := by
  rw [isNaN, decide_eq_false_iff_not] at hnan
  rw [isInfinite, decide_eq_false_iff_not] at hinfinite
  rw [isFinite, decide_eq_true_eq]
  omega

end EggLang.Number
