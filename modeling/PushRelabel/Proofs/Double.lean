import PushRelabel.Proofs.Rounded

/-! # Doubles are rounded quantities

A double stands for an infinity, for a zero, for no number, or for a mantissa with an exponent.
Operations on doubles compute with these exactly, round the result to 53 places and store it. A
double that is written is read back unchanged, and a difference of two positive doubles is
rounded neither to zero nor to infinity.
-/

namespace PushRelabel

namespace Double

open Float.Model Float.Model.UnpackedFloat

/-- What a double stands for. -/
def view (x : Float) : UnpackedFloat := x.toModel.unpack

/-- What is read back after a value was written into a double. -/
def stored (u : UnpackedFloat) : UnpackedFloat := unpack Format.binary64 (pack Format.binary64 u)

/-- The mantissa and the exponent of a number other than zero, as a double holds them. -/
structure Fits (m : Nat) (e : Int) : Prop where
  lt : m < 2 ^ 53
  ge : -1074 ≤ e
  le : e ≤ 971
  normal : 2 ^ 52 ≤ m ∨ e = -1074

/-- A double can hold the value as it is. -/
def Canonical : UnpackedFloat → Prop
  | .finite _ m e _ => Fits m e
  | _ => True

theorem view_add (x y : Float) :
    view (x + y) = stored ((view x).add Format.binary64 (view y)) := rfl

theorem view_sub (x y : Float) :
    view (x - y) = stored ((view x).sub Format.binary64 (view y)) := rfl

theorem view_neg (x : Float) : view (-x) = stored (view x).neg := rfl

theorem stored_infinity (s : Sign) : stored (.infinity s) = .infinity s := by
  cases s <;> rfl

theorem stored_zero (s : Sign) : stored (.zero s) = .zero s := unpack_packedZero

theorem stored_notANumber : stored .notANumber = .notANumber := unpack_packedNaN

theorem view_zero : view 0.0 = .zero .positive := stored_zero _

theorem lt_iff (x y : Float) : x < y ↔ (view x).compare (view y) = some .lt := by
  change ((decide (x.toModel < y.toModel)) = true) ↔ _
  rw [decide_eq_true_iff]
  change (_ == _) = true ↔ _
  rw [beq_iff_eq]
  rfl

theorem le_iff (x y : Float) : x ≤ y ↔ ((view x).compare (view y)).any (·.isLE) = true := by
  change ((decide (x.toModel ≤ y.toModel)) = true) ↔ _
  rw [decide_eq_true_iff]
  rfl

theorem view_inj {x y : Float} (h : view x = view y) : x = y := by
  have hbits := (unpack_inj_of_valid x.toModel.valid y.toModel.valid).mp h
  exact Float.toBits_inj.mp (UInt64.toBitVec_inj.mp hbits)

theorem finite_congr {s : Sign} {m m' : Nat} {e e' : Int} (hm : m = m') (he : e = e')
    (hpos : 0 < m) : UnpackedFloat.finite s m e hpos = .finite s m' e' (hm ▸ hpos) := by
  subst hm he
  rfl

/-- What the sign, the exponent and the mantissa of a double stand for. -/
theorem unpack_packComponents (s : Sign) (e : BitVec 11) (m : BitVec 52) :
    Float.Model.UnpackedFloat.unpack Format.binary64 (packComponents Format.binary64 s e m) =
      if e = -1#11 then if m = 0#52 then .infinity s else .notANumber
      else if e = 0#11 then
        if hm : m = 0#52 then .zero s
        else .finite s m.toNat (-1074) (Nat.pos_of_ne_zero fun h => hm (BitVec.eq_of_toNat_eq h))
      else .finite s (2 ^ 52 + m.toNat) (e.toNat - 1075) (by positivity) := by
  unfold Float.Model.UnpackedFloat.unpack
  simp only [unpackMantissa_packComponents, unpackExponent_packComponents,
    unpackSign_packComponents, Sign.ofBitVec_toBitVec]
  have hbias : (Format.binary64.exponentBias + Format.binary64.mantissaBitsWithoutImplicit : Int) =
      1075 := rfl
  have hmantissa : (1#1 ++ m).toNat = 2 ^ 52 + m.toNat := by
    rw [BitVec.toNat_append, Nat.shiftLeft_eq, Nat.mul_comm, ← Nat.two_pow_add_eq_or_of_lt m.isLt]
    rfl
  split
  next => rfl
  next =>
    split
    next hzero =>
      split
      next => rfl
      next => exact finite_congr rfl (by rw [hbias, hzero]; rfl) _
    next => exact finite_congr hmantissa (by rw [hbias]) _

theorem canonical_unpack (b : BitVec Format.binary64.numBits) :
    Canonical (Float.Model.UnpackedFloat.unpack Format.binary64 b) := by
  rw [← packComponents_unpackSign_unpackExponent_unpackMantissa b, unpack_packComponents]
  generalize unpackExponent b = e
  generalize unpackMantissa b = m
  have hm : m.toNat < 2 ^ 52 := m.isLt
  have he : e.toNat < 2 ^ 11 := e.isLt
  split
  next => split <;> trivial
  next hmax =>
    split
    next =>
      split
      next => trivial
      next => exact ⟨by omega, by omega, by omega, Or.inr rfl⟩
    next hzero =>
      have hpos : e.toNat ≠ 0 := fun h => hzero (BitVec.eq_of_toNat_eq h)
      have hlt : e.toNat ≠ 2047 := fun h => hmax (BitVec.eq_of_toNat_eq h)
      exact ⟨by omega, by omega, by omega, Or.inl (by omega)⟩

theorem canonical_view (x : Float) : Canonical (view x) := canonical_unpack _

theorem pack_finite (s : Sign) {m : Nat} {e : Int} (hm : 0 < m) :
    Float.Model.UnpackedFloat.pack Format.binary64 (.finite s m e hm) =
      if 2047 ≤ (e + 1075).toNat then packedInfinity Format.binary64 s
      else if m.log2 = 52 then
        packComponents Format.binary64 s (BitVec.ofNat 11 (e + 1075).toNat) (BitVec.ofNat 52 m)
      else packComponents Format.binary64 s 0#11 (BitVec.ofNat 52 m) := by
  have hbiased : e + (Format.binary64.exponentBias : Int) +
      (Format.binary64.mantissaBitsWithoutImplicit : Int) = e + 1075 := by
    change e + 1023 + 52 = _
    omega
  unfold Float.Model.UnpackedFloat.pack
  simp only [hbiased]
  refine if_congr ?_ rfl (if_congr ?_ rfl rfl)
  · change 2048 ≤ _ ↔ _
    omega
  · change _ = 53 ↔ _
    omega

theorem stored_finite (s : Sign) {m : Nat} {e : Int} (hm : 0 < m) (h : Fits m e) :
    stored (.finite s m e hm) = .finite s m e hm := by
  obtain ⟨hlt, hge, hle, hnormal⟩ := h
  have hlog : m.log2 = 52 ↔ 2 ^ 52 ≤ m := by
    rw [← Nat.le_log2 hm.ne']
    have hbound := (Nat.log2_lt hm.ne').mpr hlt
    omega
  rw [stored, pack_finite, if_neg (by omega)]
  split
  next hlarge =>
    rw [hlog] at hlarge
    have hexponent : (BitVec.ofNat 11 (e + 1075).toNat).toNat = (e + 1075).toNat := by
      rw [BitVec.toNat_ofNat]
      omega
    -- the exponent field is neither the greatest one nor zero
    rw [unpack_packComponents, if_neg, if_neg]
    · refine (finite_congr ?_ ?_ hm).symm
      · rw [BitVec.toNat_ofNat]
        omega
      · rw [hexponent]
        omega
    · intro heq
      rw [heq] at hexponent
      change 0 = _ at hexponent
      omega
    · intro heq
      rw [heq] at hexponent
      change 2047 = _ at hexponent
      omega
  next hsmall =>
    rw [hlog] at hsmall
    -- without the implicit place the exponent field is zero
    have hmantissa : (BitVec.ofNat 52 m).toNat = m := by
      rw [BitVec.toNat_ofNat]
      omega
    rw [unpack_packComponents, if_neg (by decide), if_pos rfl, dif_neg]
    · exact (finite_congr hmantissa.symm (hnormal.resolve_left hsmall) hm).symm
    · intro heq
      rw [heq] at hmantissa
      exact hm.ne hmantissa

theorem stored_of_canonical {u : UnpackedFloat} (h : Canonical u) : stored u = u := by
  cases u with
  | infinity s => exact stored_infinity s
  | notANumber => exact stored_notANumber
  | zero s => exact stored_zero s
  | finite s m e hm => exact stored_finite s hm h

/-! ## Rounding -/

theorem targetExponent_eq (m : Nat) (e : Int) :
    Format.binary64.targetExponent (totalExponent m e) = max (m.log2 + e - 52) (-1074) := by
  change max ((m.log2 : Int) + 1 + e - 53) (3 - 1024 - 53) = _
  omega

theorem mantissa_shiftRight (em : ExtendedMantissa) (k : Nat) :
    (em >>> k).mantissa = em.mantissa / 2 ^ k := by
  change (Nat.repeat ExtendedMantissa.shiftRightOne k em).mantissa = _
  induction k with
  | zero => exact (Nat.div_one _).symm
  | succ k ih =>
      rw [pow_succ, ← Nat.div_div_eq_div_mul, ← ih]
      rfl

theorem roundedMantissa_eq (em : ExtendedMantissa) :
    em.roundedMantissa = em.mantissa ∨ em.roundedMantissa = em.mantissa + 1 := by
  unfold ExtendedMantissa.roundedMantissa Accuracy.roundToNearestEven
  split
  · exact Or.inl rfl
  · exact Or.inl rfl
  · omega
  · exact Or.inr rfl

/-- A mantissa that is short enough is not shifted. -/
theorem shiftToTargetExponent_of_lt {m : Nat} {e : Int} (hm : m < 2 ^ 53) (he : -1074 ≤ e) :
    shiftToTargetExponent Format.binary64 m e .exact = (⟨m, false, false⟩, e) := by
  have hlog : m.log2 ≤ 52 := by
    by_cases hzero : m = 0
    · simp [hzero]
    · exact Nat.le_of_lt_succ ((Nat.log2_lt hzero).mpr hm)
  have hshift : (Format.binary64.targetExponent (totalExponent m e) - e).toNat = 0 := by
    rw [targetExponent_eq]
    omega
  unfold shiftToTargetExponent shiftToExponent
  simp only [hshift]
  exact Prod.ext rfl (add_zero e)

/-- A mantissa that was rounded up to a power of two is shifted by one place. -/
theorem shiftToTargetExponent_two_pow {e : Int} (he : -1074 ≤ e) :
    shiftToTargetExponent Format.binary64 (2 ^ 53) e .exact = (⟨2 ^ 52, false, false⟩, e + 1) := by
  have hshift : (Format.binary64.targetExponent (totalExponent (2 ^ 53) e) - e).toNat = 1 := by
    rw [targetExponent_eq, Nat.log2_two_pow]
    omega
  unfold shiftToTargetExponent shiftToExponent
  simp only [hshift]
  rfl

theorem roundWithAccuracy_eq (s : Sign) {m r : Nat} {e e' : Int} {em : ExtendedMantissa}
    (hfirst : shiftToTargetExponent Format.binary64 m e .exact = (em, e'))
    (hr : em.roundedMantissa = r) (hpos : 0 < r) (hle : r ≤ 2 ^ 53) (he : -1074 ≤ e') :
    roundWithAccuracy Format.binary64 s m e .exact =
      if r < 2 ^ 53 then .finite s r e' hpos
      else .finite s (2 ^ 52) (e' + 1) (Nat.two_pow_pos 52) := by
  unfold roundWithAccuracy
  simp only [hfirst, hr]
  by_cases hlt : r < 2 ^ 53
  · rw [if_pos hlt]
    simp only [shiftToTargetExponent_of_lt hlt he]
    exact dif_neg hpos.ne'
  · obtain rfl : r = 2 ^ 53 := le_antisymm hle (Nat.le_of_not_lt hlt)
    rw [if_neg hlt]
    simp only [shiftToTargetExponent_two_pow he]
    exact dif_neg (Nat.two_pow_pos 52).ne'

/-- A number with at most 53 places is not rounded. -/
theorem round_of_log2_le (s : Sign) {m : Nat} {e : Int} (hm : 0 < m) (he : -1074 ≤ e)
    (hle : e ≤ 971) (hlog : m.log2 ≤ 52) :
    ∃ m' e', ∃ hm' : 0 < m',
      UnpackedFloat.round Format.binary64 s m e = .finite s m' e' hm' ∧ Fits m' e' := by
  unfold UnpackedFloat.round decreaseExponent
  dsimp only
  rw [targetExponent_eq]
  generalize ht : max ((m.log2 : Int) + e - 52) (-1074) = t
  have hshift : e - ((e - t).toNat : Int) = t := by omega
  rw [Nat.shiftLeft_eq, hshift]
  have hshort : m * 2 ^ (e - t).toNat < 2 ^ 53 := by
    calc m * 2 ^ (e - t).toNat < 2 ^ (m.log2 + 1) * 2 ^ (e - t).toNat :=
          Nat.mul_lt_mul_of_pos_right Nat.lt_log2_self (Nat.two_pow_pos _)
      _ = 2 ^ (m.log2 + 1 + (e - t).toNat) := (pow_add _ _ _).symm
      _ ≤ 2 ^ 53 := Nat.pow_le_pow_right (by omega) (by omega)
  have hpos : 0 < m * 2 ^ (e - t).toNat := Nat.mul_pos hm (Nat.two_pow_pos _)
  rw [roundWithAccuracy_eq s (shiftToTargetExponent_of_lt hshort (by omega)) rfl hpos hshort.le
    (by omega)]
  refine ⟨_, _, hpos, if_pos hshort, hshort, by omega, by omega, ?_⟩
  by_cases hnormal : t = -1074
  · exact Or.inr hnormal
  · left
    calc 2 ^ 52 = 2 ^ m.log2 * 2 ^ (e - t).toNat := by rw [← pow_add]; congr 1; omega
      _ ≤ m * 2 ^ (e - t).toNat := Nat.mul_le_mul_right _ (Nat.log2_self_le hm.ne')

/-- Of a longer number the places beyond the 53rd are cut off. Rounding up may add a place, but
not if the number is below one with as large an exponent. -/
theorem round_of_lt_log2 (s : Sign) {m m₁ k : Nat} {e : Int} (hm : 0 < m) (he : -1074 ≤ e)
    (hlog : m.log2 = 52 + k) (hk : 0 < k) (hle : e + k ≤ 971)
    (hbelow : e + k = 971 → m < m₁ * 2 ^ k) (hm₁ : m₁ < 2 ^ 53) :
    ∃ m' e', ∃ hm' : 0 < m',
      UnpackedFloat.round Format.binary64 s m e = .finite s m' e' hm' ∧ Fits m' e' := by
  have htarget : Format.binary64.targetExponent (totalExponent m e) = e + k := by
    rw [targetExponent_eq]
    omega
  have hfirst : shiftToTargetExponent Format.binary64 m e .exact =
      ((⟨m, false, false⟩ : ExtendedMantissa) >>> k, e + k) := by
    have hcut : (e + (k : Int) - e).toNat = k := by omega
    unfold shiftToTargetExponent shiftToExponent
    simp only [htarget, hcut]
    rfl
  have hlarge : 2 ^ 52 ≤ m / 2 ^ k := by
    rw [Nat.le_div_iff_mul_le (Nat.two_pow_pos k), ← pow_add, ← hlog]
    exact Nat.log2_self_le hm.ne'
  have hsmall : m / 2 ^ k < 2 ^ 53 := by
    rw [Nat.div_lt_iff_lt_mul (Nat.two_pow_pos k), ← pow_add]
    exact Nat.lt_log2_self.trans_le (Nat.pow_le_pow_right (by omega) (by omega))
  have hrounded := roundedMantissa_eq ((⟨m, false, false⟩ : ExtendedMantissa) >>> k)
  rw [mantissa_shiftRight] at hrounded
  dsimp only at hrounded
  have hshift : (e - (e + (k : Int))).toNat = 0 := by omega
  unfold UnpackedFloat.round decreaseExponent
  dsimp only
  rw [htarget, hshift, Nat.shiftLeft_zero, Nat.cast_zero, sub_zero]
  generalize hr : ((⟨m, false, false⟩ : ExtendedMantissa) >>> k).roundedMantissa = r at hrounded
  rw [roundWithAccuracy_eq s hfirst hr (by omega) (by omega) (by omega)]
  by_cases hfull : r < 2 ^ 53
  · exact ⟨_, _, _, if_pos hfull, hfull, by omega, by omega, Or.inl (by omega)⟩
  · -- rounding up carried; at the greatest exponent the number is too small for that
    refine ⟨_, _, _, if_neg hfull, by omega, by omega, ?_, Or.inl le_rfl⟩
    by_contra hover
    have hquotient : m / 2 ^ k < m₁ :=
      (Nat.div_lt_iff_lt_mul (Nat.two_pow_pos k)).mpr (hbelow (by omega))
    omega

/-- A number below another one that a double can hold is rounded to a number that a double can
hold. It is not rounded to zero. -/
theorem round_eq_finite (s : Sign) {m m₁ : Nat} {e e₁ : Int} (hm : 0 < m) (he : -1074 ≤ e)
    (hfits : Fits m₁ e₁) (hle : e ≤ e₁) (hlt : m < m₁ * 2 ^ (e₁ - e).toNat) :
    ∃ m' e', ∃ hm' : 0 < m',
      UnpackedFloat.round Format.binary64 s m e = .finite s m' e' hm' ∧ Fits m' e' := by
  obtain ⟨hlt₁, hge₁, hle₁, -⟩ := hfits
  have hlog : m.log2 ≤ 52 + (e₁ - e).toNat := by
    refine Nat.le_of_lt_succ ((Nat.log2_lt hm.ne').mpr ?_)
    calc m < m₁ * 2 ^ (e₁ - e).toNat := hlt
      _ ≤ 2 ^ 53 * 2 ^ (e₁ - e).toNat := Nat.mul_le_mul_right _ hlt₁.le
      _ = 2 ^ (52 + (e₁ - e).toNat + 1) := by rw [← pow_add]; congr 1; omega
  by_cases hshort : m.log2 ≤ 52
  · exact round_of_log2_le s hm he (hle.trans hle₁) hshort
  · obtain ⟨k, hk⟩ := Nat.exists_eq_add_of_lt (Nat.lt_of_not_le hshort)
    refine round_of_lt_log2 s (k := k + 1) hm he (by omega) k.succ_pos (by omega)
      (fun hlast => ?_) hlt₁
    have hsame : (e₁ - e).toNat = k + 1 := by omega
    rwa [hsame] at hlt

/-! ## Order -/

theorem then_swap (e f : Int) (m n : Nat) :
    (compare f e).then (compare n m) = ((compare e f).then (compare m n)).swap := by
  rw [Ordering.swap_then, ← Std.OrientedCmp.eq_swap, ← Std.OrientedCmp.eq_swap]

theorem compare_swap (u v : UnpackedFloat) :
    v.compare u = (u.compare v).map Ordering.swap := by
  rcases u with (_ | _) | _ | (_ | _) | ⟨_ | _, m, e, _⟩ <;>
    rcases v with (_ | _) | _ | (_ | _) | ⟨_ | _, n, f, _⟩
  all_goals try rfl
  · exact congrArg (fun o => some (Ordering.swap o)) (then_swap e f m n)
  · exact congrArg some (then_swap e f m n)

theorem compare_self {u : UnpackedFloat} (h : u ≠ .notANumber) : u.compare u = some .eq := by
  rcases u with (_ | _) | _ | (_ | _) | ⟨_ | _, m, e, _⟩
  all_goals try rfl
  · exact absurd rfl h
  · simp [UnpackedFloat.compare]
  · simp [UnpackedFloat.compare]

theorem compare_isSome (u v : UnpackedFloat) :
    (u.compare v).isSome = true ↔ u ≠ .notANumber ∧ v ≠ .notANumber := by
  rcases u with (_ | _) | _ | (_ | _) | ⟨_ | _, m, e, _⟩ <;>
    rcases v with (_ | _) | _ | (_ | _) | ⟨_ | _, n, f, _⟩
  all_goals simp [UnpackedFloat.compare]

theorem le_self_iff (x : Float) : x ≤ x ↔ view x ≠ .notANumber := by
  rw [le_iff]
  by_cases h : view x = .notANumber
  · simp [h, UnpackedFloat.compare]
  · simp [compare_self h, h]

theorem isFinite_iff (x : Float) : x.isFinite = true ↔ (view x).isFinite = true := Iff.rfl

theorem lt_of_not_le {x y : Float} (hx : x ≤ x) (hy : y ≤ y) (h : ¬ x ≤ y) : y < x := by
  rw [le_self_iff] at hx hy
  obtain ⟨o, ho⟩ := Option.isSome_iff_exists.mp ((compare_isSome _ _).mpr ⟨hx, hy⟩)
  rw [le_iff, ho] at h
  rw [lt_iff, compare_swap (view x), ho]
  cases o with
  | lt => exact absurd rfl h
  | eq => exact absurd rfl h
  | gt => rfl

theorem not_le_of_lt {x y : Float} (h : x < y) : ¬ y ≤ x := by
  rw [lt_iff] at h
  rw [le_iff, compare_swap (view x), h]
  decide

/-! ## Sums and differences -/

/-- Not below zero, and not what is no number either. -/
def nonneg : UnpackedFloat → Bool
  | .infinity s => s == .positive
  | .notANumber => false
  | .zero _ => true
  | .finite s _ _ _ => s == .positive

theorem zero_le_iff (x : Float) : 0.0 ≤ x ↔ nonneg (view x) = true := by
  rw [le_iff, view_zero]
  rcases view x with (_ | _) | _ | s | ⟨_ | _, m, e, hm⟩
  all_goals exact Iff.rfl

theorem zero_lt_iff (x : Float) : 0.0 < x ↔
    view x = .infinity .positive ∨ ∃ m e, ∃ hm : 0 < m, view x = .finite .positive m e hm := by
  rw [lt_iff, view_zero]
  rcases view x with (_ | _) | _ | s | ⟨_ | _, m, e, hm⟩
  · simp [UnpackedFloat.compare]
  · simp [UnpackedFloat.compare]
  · simp [UnpackedFloat.compare]
  · simp [UnpackedFloat.compare]
  · simp [UnpackedFloat.compare]
  · exact iff_of_true rfl (Or.inr ⟨m, e, hm, rfl⟩)

/-- What is stored does not get below zero. -/
theorem nonneg_stored {u : UnpackedFloat} (h : nonneg u = true) : nonneg (stored u) = true := by
  rcases u with s | _ | s | ⟨s, m, e, hm⟩
  · rwa [stored_infinity]
  · rwa [stored_notANumber]
  · rwa [stored_zero]
  · rw [stored, pack_finite]
    split
    next => exact (congrArg nonneg (stored_infinity s)).trans h
    next hlt =>
      have hexponent : BitVec.ofNat 11 (e + 1075).toNat ≠ -1#11 := by
        intro heq
        have htoNat := congrArg BitVec.toNat heq
        rw [BitVec.toNat_ofNat] at htoNat
        change _ = 2047 at htoNat
        omega
      split
      · rw [unpack_packComponents, if_neg hexponent]
        split
        · split
          · rfl
          · exact h
        · exact h
      · rw [unpack_packComponents, if_neg (by decide), if_pos rfl]
        split
        · rfl
        · exact h

theorem nonneg_round (m : Nat) (e : Int) :
    nonneg (UnpackedFloat.round Format.binary64 .positive m e) = true := by
  unfold UnpackedFloat.round roundWithAccuracy
  dsimp only
  split <;> rfl

theorem normalize_of_pos {z : Int} (hz : 0 < z) (e : Int) (s : Sign) :
    UnpackedFloat.normalize Format.binary64 z e s =
      UnpackedFloat.round Format.binary64 .positive z.toNat e := by
  unfold UnpackedFloat.normalize
  rw [compare_gt_iff_gt.mpr hz]

theorem normalize_zero (e : Int) (s : Sign) :
    UnpackedFloat.normalize Format.binary64 0 e s = .zero s := rfl

theorem nonneg_add {u v : UnpackedFloat} (hu : nonneg u = true) (hv : nonneg v = true) :
    nonneg (u.add Format.binary64 v) = true := by
  rcases u with (_ | _) | _ | s | ⟨_ | _, m, e, hm⟩ <;>
    rcases v with (_ | _) | _ | t | ⟨_ | _, n, f, hn⟩
  all_goals try first | exact absurd hu Bool.false_ne_true | exact absurd hv Bool.false_ne_true
  all_goals try rfl
  · cases s <;> cases t <;> rfl
  · change nonneg (UnpackedFloat.normalize Format.binary64
      (((m <<< (e - min e f).toNat : Nat) : Int) + (n <<< (f - min e f).toNat : Nat)) (min e f)
      .positive) = true
    rw [Nat.shiftLeft_eq, Nat.shiftLeft_eq, normalize_of_pos (by positivity)]
    exact nonneg_round _ _

/-- An infinite term, or one that is no number, is never cancelled. -/
theorem isFinite_of_add {u v : UnpackedFloat}
    (h : (stored (u.add Format.binary64 v)).isFinite = true) : u.isFinite = true := by
  rcases u with s | _ | s | ⟨s, m, e, hm⟩
  · have hsum : (UnpackedFloat.infinity s).add Format.binary64 v = .infinity s ∨
        (UnpackedFloat.infinity s).add Format.binary64 v = .notANumber := by
      cases v with
      | infinity t =>
          by_cases hsame : (s == t) = true
          · exact Or.inl (if_pos hsame)
          · exact Or.inr (if_neg hsame)
      | notANumber => exact Or.inr rfl
      | zero t => exact Or.inl rfl
      | finite t n f hn => exact Or.inl rfl
    rcases hsum with hsum | hsum
    · rwa [hsum, stored_infinity] at h
    · rwa [hsum, stored_notANumber] at h
  · rwa [UnpackedFloat.add, stored_notANumber] at h
  · rfl
  · rfl

theorem sub_self_of_isFinite {u : UnpackedFloat} (h : u.isFinite = true) :
    u.sub Format.binary64 u = .zero .positive := by
  rcases u with s | _ | s | ⟨s, m, e, hm⟩
  · exact absurd h Bool.false_ne_true
  · exact absurd h Bool.false_ne_true
  · cases s <;> rfl
  · unfold UnpackedFloat.sub
    dsimp only
    rw [sub_self, normalize_zero]

theorem sub_zero_of_isFinite {u : UnpackedFloat} (h : u.isFinite = true) :
    u.sub Format.binary64 (.zero .positive) = u := by
  rcases u with s | _ | s | ⟨s, m, e, hm⟩
  · exact absurd h Bool.false_ne_true
  · exact absurd h Bool.false_ne_true
  · cases s <;> rfl
  · rfl

theorem canonical_neg {u : UnpackedFloat} (h : Canonical u) : Canonical u.neg := by
  cases u <;> exact h

theorem add_neg_of_isFinite {u : UnpackedFloat} (h : u.isFinite = true) :
    u.add Format.binary64 ((UnpackedFloat.zero .positive).add Format.binary64 u.neg) =
      .zero .positive := by
  rcases u with s | _ | s | ⟨s, m, e, hm⟩
  · exact absurd h Bool.false_ne_true
  · exact absurd h Bool.false_ne_true
  · cases s <;> rfl
  · change UnpackedFloat.add _ (.finite s m e hm) (.finite (-s) m e hm) = _
    have hsign : ∀ n : Int, s.apply n + (-s).apply n = 0 := by
      intro n
      cases s
      · exact neg_add_cancel n
      · exact add_neg_cancel n
    unfold UnpackedFloat.add
    dsimp only
    rw [hsign, normalize_zero]

/-- A smaller positive number is below a larger one also where their exponents are made equal. -/
theorem lt_mul_of_compare {m n : Nat} {e f : Int} {hm : 0 < m} {hn : 0 < n} (h : Fits m e)
    (h' : Fits n f)
    (hlt : (UnpackedFloat.finite .positive n f hn).compare (.finite .positive m e hm) = some .lt) :
    f ≤ e ∧ n < m * 2 ^ (e - f).toNat := by
  have hthen : (compare f e).then (compare n m) = .lt := Option.some.inj hlt
  rw [Ordering.then_eq_lt, compare_lt_iff_lt, compare_eq_iff_eq, compare_lt_iff_lt] at hthen
  rcases hthen with hexponent | ⟨rfl, hmantissa⟩
  · refine ⟨hexponent.le, ?_⟩
    have hge := h'.ge
    calc n < 2 ^ 52 * 2 ^ 1 := h'.lt
      _ ≤ m * 2 ^ (e - f).toNat :=
        Nat.mul_le_mul (h.normal.resolve_right (by omega))
          (Nat.pow_le_pow_right (by omega) (by omega))
  · refine ⟨le_rfl, ?_⟩
    rwa [sub_self, Int.toNat_zero, pow_zero, mul_one]

theorem sub_of_lt {m n : Nat} {e f : Int} (hm : 0 < m) (hn : 0 < n) (h : Fits m e)
    (h' : Fits n f)
    (hlt : (UnpackedFloat.finite .positive n f hn).compare (.finite .positive m e hm) = some .lt) :
    ∃ m' e', ∃ hm' : 0 < m', stored ((UnpackedFloat.finite .positive m e hm).sub Format.binary64
      (.finite .positive n f hn)) = .finite .positive m' e' hm' := by
  obtain ⟨hle, hbound⟩ := lt_mul_of_compare h h' hlt
  have hsub : (UnpackedFloat.finite .positive m e hm).sub Format.binary64
      (.finite .positive n f hn) = UnpackedFloat.normalize Format.binary64
        (((m <<< (e - min e f).toNat : Nat) : Int) - (n <<< (f - min e f).toNat : Nat)) (min e f)
        .positive := rfl
  rw [min_eq_right hle, sub_self, Int.toNat_zero, Nat.shiftLeft_zero, Nat.shiftLeft_eq,
    normalize_of_pos (by omega)] at hsub
  obtain ⟨m', e', hm', hround, hfits⟩ := round_eq_finite .positive (by omega) h'.ge h hle
    (show ((m * 2 ^ (e - f).toNat : Nat) - (n : Int)).toNat < _ by omega)
  exact ⟨m', e', hm', by rw [hsub, hround, stored_finite _ _ hfits]⟩

/-- What is finite and above something that is not below zero is a positive number. -/
theorem eq_finite_of_lt {u v : UnpackedFloat} (hu : u.isFinite = true) (hv : nonneg v = true)
    (h : v.compare u = some .lt) : ∃ m e, ∃ hm : 0 < m, u = .finite .positive m e hm := by
  rcases u with s | _ | s | ⟨_ | _, m, e, hm⟩
  · exact absurd hu Bool.false_ne_true
  · exact absurd hu Bool.false_ne_true
  · rcases v with (_ | _) | _ | t | ⟨_ | _, n, f, hn⟩
    all_goals simp [UnpackedFloat.compare, nonneg] at h hv
  · rcases v with (_ | _) | _ | t | ⟨_ | _, n, f, hn⟩
    all_goals simp [UnpackedFloat.compare, nonneg] at h hv
  · exact ⟨m, e, hm, rfl⟩

theorem sub_pos {x y : Float} (hx : x.isFinite = true) (hy : 0.0 < y) (h : y < x) :
    (x - y).isFinite = true ∧ 0.0 < x - y := by
  have hcx := canonical_view x
  have hcy := canonical_view y
  rw [isFinite_iff] at hx
  rw [lt_iff] at h
  rw [isFinite_iff, zero_lt_iff, view_sub]
  obtain hinfinite | ⟨n, f, hn, hyview⟩ := (zero_lt_iff y).mp hy
  · obtain ⟨m, e, hm, hxview⟩ := eq_finite_of_lt hx (by rw [hinfinite]; rfl) h
    rw [hinfinite, hxview] at h
    exact absurd (Option.some.inj h) (by decide)
  · obtain ⟨m, e, hm, hxview⟩ := eq_finite_of_lt hx (by rw [hyview]; rfl) h
    rw [hxview] at hcx h ⊢
    rw [hyview] at hcy h ⊢
    obtain ⟨m', e', hm', hsub⟩ := sub_of_lt hm hn hcx hcy h
    rw [hsub]
    exact ⟨rfl, Or.inr ⟨m', e', hm', rfl⟩⟩

theorem le_self_of_isFinite {x : Float} (hx : x.isFinite = true) : x ≤ x := by
  rw [le_self_iff]
  rw [isFinite_iff] at hx
  intro hview
  rw [hview] at hx
  exact absurd hx Bool.false_ne_true

theorem sub_zero {x : Float} (hx : x.isFinite = true) : x - 0.0 = x := by
  refine view_inj ?_
  rw [view_sub, view_zero, sub_zero_of_isFinite ((isFinite_iff x).mp hx),
    stored_of_canonical (canonical_view x)]

theorem sub_self {x : Float} (hx : x.isFinite = true) : x - x = 0.0 := by
  refine view_inj ?_
  rw [view_sub, view_zero, sub_self_of_isFinite ((isFinite_iff x).mp hx), stored_zero]

theorem view_neg_zero : view (-0.0) = .zero .negative := by
  rw [view_neg, view_zero]
  exact stored_zero _

/-- Minus zero is the double that changes no other one when added to it. -/
theorem neg_zero_add (x : Float) : -0.0 + x = x := by
  refine view_inj ?_
  have hsum : (UnpackedFloat.zero .negative).add Format.binary64 (view x) = view x := by
    rcases view x with s | _ | (_ | _) | ⟨s, m, e, hm⟩ <;> rfl
  rw [view_add, view_neg_zero, hsum, stored_of_canonical (canonical_view x)]

theorem zero_add {x : Float} (hx : 0.0 < x) : 0.0 + x = x := by
  refine view_inj ?_
  have hsum : (UnpackedFloat.zero .positive).add Format.binary64 (view x) = view x := by
    rcases (zero_lt_iff x).mp hx with h | ⟨m, e, hm, h⟩ <;> rw [h] <;> rfl
  rw [view_add, view_zero, hsum, stored_of_canonical (canonical_view x)]

theorem canonical_zero_add_neg {u : UnpackedFloat} (h : Canonical u) :
    Canonical ((UnpackedFloat.zero .positive).add Format.binary64 u.neg) := by
  rcases u with s | _ | (_ | _) | ⟨s, m, e, hm⟩ <;> exact h

theorem add_neg_self {x : Float} (hx : x.isFinite = true) : x + (0.0 + -x) = 0.0 := by
  refine view_inj ?_
  have hcanonical := canonical_view x
  rw [view_add, view_add, view_neg, view_zero, stored_of_canonical (canonical_neg hcanonical),
    stored_of_canonical (canonical_zero_add_neg hcanonical),
    add_neg_of_isFinite ((isFinite_iff x).mp hx), stored_zero]

end Double

open Double in
instance Quantity.rounded_float : Quantity.Rounded Float where
  isFinite_zero := by
    change (view 0.0).isFinite = true
    rw [view_zero]
    rfl
  le_refl := le_self_of_isFinite
  lt_of_not_le := lt_of_not_le
  not_le_of_lt := not_le_of_lt
  sub_zero := sub_zero
  sub_self := sub_self
  add_neg_self := add_neg_self
  sub_pos := sub_pos
  isFinite_of_add := isFinite_of_add
  zero_le_neg_zero := by
    refine (zero_le_iff (-0.0)).mpr ?_
    rw [view_neg_zero]
    rfl
  zero_add_zero := by
    refine view_inj ((view_add 0.0 0.0).trans ?_)
    rw [view_zero]
    exact stored_zero _
  zero_add := zero_add
  neg_zero_add := neg_zero_add
  add_nonneg ha hb :=
    (zero_le_iff _).mpr (nonneg_stored (nonneg_add ((zero_le_iff _).mp ha) ((zero_le_iff _).mp hb)))

end PushRelabel
