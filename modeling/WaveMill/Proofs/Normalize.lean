import WaveMill.Normalize
import WaveMill.Proofs.Buffer.Peak

/-!
# Normalization reaches full scale

The gain is one over the peak, rounded, and the new peak is the product of the two, rounded once
more.  One rounding moves the product by no more than half a unit in the last place of one, so it is
between the number before one and the midpoint between one and the number behind it; and the
midpoint is rounded to one, which has the even mantissa.  All that can go wrong is that one over the
peak is too large for a sample.  That happens up to the peak `2 ^ -128`, and then the gain is
infinite and no sample remains finite.

In both cases the new peak is at full scale, so normalizing again changes nothing.  For that the
samples need not be finite: one that is not a number has no part in the peak, and an infinite one
puts it at full scale from the start.

## What is here

* `Buffer.faintest` — the largest peak that is too small to be normalized.
* `Buffer.rounded_reciprocal_lt`, `Buffer.le_rounded_reciprocal` — when the gain is finite.
* `Buffer.rounded_mul_reciprocal_bounds` — the peak after normalization.
* `Buffer.normalize_reaches_fullScale` — what becomes of a buffer of finite samples.
* `Buffer.fullScale_le_peak_of_scaled` — the peak of any buffer that was scaled.
* `Buffer.normalize_normalize` — normalizing again.
-/

set_option autoImplicit false
namespace WaveMill
namespace Buffer

open Float.Model (Format)
open Float.Model.UnpackedFloat (Sign)
open Number

variable {p : ℚ}

/-! ## The gain and the new peak -/

/-- The largest peak whose reciprocal is too large for a sample: `2 ^ -128`. -/
def faintest : Float32 := .ofBits 0x00200000

theorem isNarrow_faintest : IsNarrow faintest .positive (1 / 2 ^ 128) := by
  have h : IsNarrow faintest .positive ((2097152 : ℕ) * 2 ^ (-149 : ℤ)) :=
    Denotes.finite .positive (by decide) (by decide)
  norm_num at h ⊢
  exact h

theorem isNarrow_fullScale : IsNarrow fullScale .positive (1 - 1 / 2 ^ 22) := by
  have h : IsNarrow fullScale .positive ((16777212 : ℕ) * 2 ^ (-24 : ℤ)) :=
    Denotes.finite .positive (by decide) (by decide)
  norm_num at h ⊢
  exact h

/-- A peak above `2 ^ -128` is so by at least one unit in its last place, and that is enough for a
finite gain. -/
theorem rounded_reciprocal_lt (hp : Representable .binary32 p) (h : 1 / 2 ^ 128 < p) :
    rounded .binary32 (1 / p) < 2 ^ 128 := by
  obtain ⟨n, e, -, he, rfl⟩ := hp
  have hmin : Format.binary32.minExponent = -149 := rfl
  rw [hmin] at he
  rw [mul_zpow_eq_shiftLeft he] at h ⊢
  generalize n <<< (e - -149).toNat = k at h ⊢
  have hunit : (2 ^ (-149 : ℤ) : ℚ) = 1 / 2 ^ 149 := by norm_num
  rw [hunit, mul_one_div, lt_div_iff₀ (by positivity)] at h
  rw [hunit, mul_one_div]
  have hk : 2 ^ 21 + 1 ≤ k := by
    norm_num at h
    exact_mod_cast h
  have hk' : (2 ^ 21 + 1 : ℚ) ≤ k := by exact_mod_cast hk
  have hlargest : Representable .binary32 ((2 ^ 24 - 1 : ℕ) * 2 ^ (104 : ℤ)) :=
    ⟨_, _, by decide, by decide, rfl⟩
  refine (rounded_le hlargest (by positivity) ?_).trans_lt (by norm_num)
  rw [one_div_div, div_le_iff₀ (by linarith)]
  norm_num
  linarith

/-- A peak of `2 ^ -128` or less has an infinite gain. -/
theorem le_rounded_reciprocal (hpos : 0 < p) (h : p ≤ 1 / 2 ^ 128) :
    2 ^ 128 ≤ rounded .binary32 (1 / p) := by
  have hle : (2 ^ 128 : ℚ) ≤ 1 / p := by
    rw [le_div_iff₀ hpos]
    norm_num at h ⊢
    linarith
  exact le_rounded (representable_two_pow 128) (by positivity) hle

/-- The product of a peak and its rounded reciprocal is rounded to one or to the number before
it. -/
theorem rounded_mul_reciprocal_bounds (hpos : 0 < p) (hle : p ≤ 1) :
    1 - 1 / 2 ^ 24 ≤ rounded .binary32 (p * rounded .binary32 (1 / p)) ∧
      rounded .binary32 (p * rounded .binary32 (1 / p)) ≤ 1 := by
  have hnormal : (2 : ℚ) ^ (Format.binary32.minExponent + Format.binary32.mantissaBits - 1) ≤
      1 / p := by
    have hone : (1 : ℚ) ≤ 1 / p := (le_div_iff₀ hpos).2 (by simpa using hle)
    exact (zpow_le_one_of_nonpos₀ one_le_two (by decide)).trans hone
  have hcancel (c : ℚ) : p * (1 / p * c) = c := by field_simp
  have hlow : 1 - 1 / 2 ^ 24 ≤ p * rounded .binary32 (1 / p) :=
    (hcancel _).symm.trans_le (mul_le_mul_of_nonneg_left (le_rounded_of_normal hnormal) hpos.le)
  have hhigh : p * rounded .binary32 (1 / p) ≤ 1 + 1 / 2 ^ 24 :=
    (mul_le_mul_of_nonneg_left (rounded_le_of_normal hnormal) hpos.le).trans_eq (hcancel _)
  have hbefore : Representable .binary32 (1 - 1 / 2 ^ 24) :=
    ⟨2 ^ 24 - 1, -24, by decide, by decide, by norm_num⟩
  have hmidpoint : rounded .binary32 (1 + 1 / 2 ^ 24) = 1 := by decide +kernel
  exact ⟨le_rounded hbefore (by norm_num) hlow,
    (rounded_mono (mul_nonneg hpos.le rounded_nonneg) hhigh).trans_eq hmidpoint⟩

/-! ## The buffer -/

/-- **Normalization brings the peak to full scale, or destroys the buffer.**  If the samples are
finite and the peak is positive and below full scale, the gain is one over the peak.  Where the peak
is above `2 ^ -128`, the new samples are finite and their peak is at full scale, which is not
exceeded.  Where it is not, no new sample is finite. -/
theorem normalize_reaches_fullScale (b : Buffer) (hfinite : b.isFinite = true) (hpos : 0 < b.peak)
    (hlow : b.peak < fullScale) :
    b.normalization = .scaled (1 / b.peak) ∧
      (faintest < b.peak → b.normalize.isFinite = true ∧ fullScale ≤ b.normalize.peak ∧
        b.normalize.peak ≤ 1) ∧
      (b.peak ≤ faintest → ∀ x ∈ b.normalize.samples, x.isFinite = false) := by
  obtain ⟨p, hp, hpeak⟩ := isNarrow_peak hfinite
  have hp0 : 0 < p := (isNarrow_zero.lt_iff hp).1 hpos
  have hp1 : p < 1 - 1 / 2 ^ 22 := (hp.lt_iff isNarrow_fullScale).1 hlow
  have hnormalization : b.normalization = .scaled (1 / b.peak) := by
    rw [normalization, if_neg, if_neg]
    · rw [hp.le_iff isNarrow_zero]
      exact not_le.2 hp0
    · rw [isNarrow_fullScale.le_iff hp]
      exact not_le.2 hp1
  have hnormalize : b.normalize = b.mapSamples (· * (1 / b.peak)) := by
    rw [normalize, hnormalization]
  rw [hnormalize]
  refine ⟨hnormalization, fun habove ↦ ?_, fun hfaint x hx ↦ ?_⟩
  · have hgain : IsNarrow (1 / b.peak) .positive (rounded .binary32 (1 / p)) :=
      isNarrow_one.div hp hp0.ne'
        (rounded_reciprocal_lt hp.representable ((isNarrow_faintest.lt_iff hp).1 habove))
    obtain ⟨hreached, hkept⟩ := rounded_mul_reciprocal_bounds hp0 (by linarith)
    obtain ⟨hpeak', hfinite'⟩ := hpeak.map_mul (isFinite_iff.1 hfinite) hgain
      (hkept.trans_lt (by norm_num))
    rw [← samples_mapSamples] at hpeak' hfinite'
    obtain ⟨q, hq, hpeak''⟩ := isNarrow_peak (isFinite_iff.2 hfinite')
    obtain rfl := hpeak''.unique hpeak'
    exact ⟨isFinite_iff.2 hfinite',
      (isNarrow_fullScale.le_iff hq).2 (le_trans (by norm_num) hreached),
      (hq.le_iff isNarrow_one).2 hkept⟩
  · have hgain := isNarrow_one.unpack_div hp hp0.ne'
      (le_rounded_reciprocal hp0 ((hp.le_iff isNarrow_faintest).1 hfaint))
    rw [samples_mapSamples] at hx
    obtain ⟨y, hy, rfl⟩ := List.mem_map.1 hx
    obtain ⟨s, a, ha, -⟩ := exists_isNarrow (isFinite_iff.1 hfinite y hy)
    exact ha.isFinite_mul_infinity hgain

/-- One sample whose reciprocal is too large for a sample. -/
def faint : Buffer where
  channels := [#[faintest]]
  rate := 22050
  channels_ne_nil := List.cons_ne_nil _ _
  length_channels_le := by decide
  size_eq := by decide
  rate_pos := by decide

/-- A positive peak far below full scale that normalization makes infinite. -/
theorem normalize_faint :
    faint.isFinite = true ∧ 0 < faint.peak ∧ faint.peak < fullScale ∧
      faint.normalize.isFinite = false ∧ faint.normalize.samples = [.ofBits 0x7f800000] := by
  decide +kernel

/-- Two samples whose loudest one has no exact reciprocal. -/
def quiet : Buffer where
  channels := [#[0.3, -0.7]]
  rate := 22050
  channels_ne_nil := List.cons_ne_nil _ _
  length_channels_le := by decide
  size_eq := by decide
  rate_pos := by decide

theorem normalize_reaches_fullScale_quiet :
    quiet.normalization = .scaled (1 / quiet.peak) ∧ quiet.normalize.isFinite = true ∧
      fullScale ≤ quiet.normalize.peak ∧ quiet.normalize.peak ≤ 1 := by
  obtain ⟨hscaled, hreached, -⟩ := normalize_reaches_fullScale quiet
    (by decide +kernel) (by decide +kernel) (by decide +kernel)
  exact ⟨hscaled, hreached (by decide +kernel)⟩

/-! ## Normalizing again -/

/-- What is not scaled stays as it is. -/
theorem normalize_of_not_scaled {b : Buffer}
    (h : b.normalization = .silent ∨ b.normalization = .alreadyFullScale b.peak) :
    b.normalize = b := by
  rcases h with h | h <;> rw [normalize, h]

/-- A sample whose magnitude is a peak below full scale is at full scale when it is multiplied by
the reciprocal of that peak. -/
theorem le_magnitude_mul_reciprocal {z : Float32} {s : Sign} (hz : IsNarrow z s p) (hpos : 0 < p)
    (hle : p ≤ 1) :
    ((1 - 1 / 2 ^ 24 : ℚ) : WithTop ℚ) ≤ magnitude (z * (1 / z.abs)) := by
  rcases le_or_gt p (1 / 2 ^ 128) with hfaint | habove
  · have hgain := isNarrow_one.unpack_div hz.abs hpos.ne' (le_rounded_reciprocal hpos hfaint)
    rw [magnitude_mul_infinity hz hpos.ne' hgain]
    exact le_top
  · have hgain : IsNarrow (1 / z.abs) .positive (rounded .binary32 (1 / p)) :=
      isNarrow_one.div hz.abs hpos.ne' (rounded_reciprocal_lt hz.representable habove)
    obtain ⟨hreached, hkept⟩ := rounded_mul_reciprocal_bounds hpos hle
    rw [(hz.mul hgain (hkept.trans_lt (by norm_num))).magnitude_eq]
    exact_mod_cast hreached

theorem fullScale_le_abs_iff {z : Float32} (hz : magnitude z ≠ ⊥) :
    fullScale ≤ z.abs ↔ ((1 - 1 / 2 ^ 22 : ℚ) : WithTop ℚ) ≤ magnitude z := by
  have habs : fullScale.abs = fullScale := by decide +kernel
  have hmagnitude := isNarrow_fullScale.magnitude_eq
  rw [← hmagnitude, ← abs_le_abs_iff (by rw [hmagnitude]; exact WithBot.coe_ne_bot) hz, habs]

/-- A peak between silence and full scale is that of a sample which is a number. -/
theorem exists_sample_of_peak {b : Buffer} (hbelow : ¬ fullScale ≤ b.peak)
    (hloud : ¬ b.peak ≤ 0) :
    ∃ z ∈ b.samples, b.peak = z.abs ∧ ∃ s p, IsNarrow z s p ∧ 0 < p ∧ p ≤ 1 := by
  obtain ⟨z, hz, hpeak, hall⟩ := exists_peak b
  rw [hpeak] at hbelow hloud
  have hbot := magnitude_zero_le_iff.1 (hall 0 List.mem_cons_self)
  rw [fullScale_le_abs_iff hbot, not_le] at hbelow
  obtain ⟨s, p, hp, hmagnitude⟩ := exists_isNarrow_of_magnitude hbot (hbelow.trans_le le_top).ne
  have hp1 : p < 1 - 1 / 2 ^ 22 := by
    rw [hmagnitude] at hbelow
    exact_mod_cast hbelow
  have hp0 : 0 < p := not_le.1 (mt (hp.abs.le_iff isNarrow_zero).2 hloud)
  have hsample : z ∈ b.samples := by
    refine (List.mem_cons.1 hz).resolve_left fun hzero ↦ ?_
    rw [hzero] at hp
    exact hp0.ne' (hp.unique isNarrow_zero).2
  exact ⟨z, hsample, hpeak, s, p, hp, hp0, by linarith⟩

/-- Whatever the samples are, scaling brings the peak to full scale: to a number near one, or to an
infinity. -/
theorem fullScale_le_peak_of_scaled {b : Buffer} (hbelow : ¬ fullScale ≤ b.peak)
    (hloud : ¬ b.peak ≤ 0) : fullScale ≤ (b.mapSamples (· * (1 / b.peak))).peak := by
  obtain ⟨z, hz, hpeak, s, p, hp, hp0, hp1⟩ := exists_sample_of_peak hbelow hloud
  rw [hpeak]
  obtain ⟨w, -, hscaledPeak, hall⟩ := exists_peak (b.mapSamples (· * (1 / z.abs)))
  have hscaled : z * (1 / z.abs) ∈ (b.mapSamples (· * (1 / z.abs))).samples := by
    rw [samples_mapSamples]
    exact List.mem_map_of_mem hz
  have hreached := (le_magnitude_mul_reciprocal hp hp0 hp1).trans
    (hall _ (List.mem_cons_of_mem _ hscaled))
  rw [hscaledPeak, fullScale_le_abs_iff (lt_of_lt_of_le (WithBot.bot_lt_coe _) hreached).ne']
  refine le_trans ?_ hreached
  exact_mod_cast (by norm_num : (1 - 1 / 2 ^ 22 : ℚ) ≤ 1 - 1 / 2 ^ 24)

/-- **What has been normalized is not changed by normalizing again**, whatever the samples are.  The
second time there is nothing but silence, or the peak is at full scale already. -/
theorem normalize_normalize (b : Buffer) :
    b.normalize.normalize = b.normalize ∧
      (b.normalize.normalization = .silent ∨
        b.normalize.normalization = .alreadyFullScale b.normalize.peak) := by
  suffices h : b.normalize.normalization = .silent ∨
      b.normalize.normalization = .alreadyFullScale b.normalize.peak from
    ⟨normalize_of_not_scaled h, h⟩
  by_cases hfull : fullScale ≤ b.peak
  · have hfirst : b.normalization = .alreadyFullScale b.peak := if_pos hfull
    rw [normalize_of_not_scaled (.inr hfirst)]
    exact .inr hfirst
  · by_cases hsilent : b.peak ≤ 0
    · have hfirst : b.normalization = .silent := by rw [normalization, if_neg hfull, if_pos hsilent]
      rw [normalize_of_not_scaled (.inl hfirst)]
      exact .inl hfirst
    · have hfirst : b.normalization = .scaled (1 / b.peak) := by
        rw [normalization, if_neg hfull, if_neg hsilent]
      have hscaled : b.normalize = b.mapSamples (· * (1 / b.peak)) := by rw [normalize, hfirst]
      rw [hscaled]
      exact .inr (if_pos (fullScale_le_peak_of_scaled hfull hsilent))

end Buffer
end WaveMill
