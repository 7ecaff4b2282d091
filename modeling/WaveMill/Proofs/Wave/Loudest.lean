import WaveMill.Proofs.Convert.Silence
import WaveMill.Proofs.Normalize
import WaveMill.Proofs.Wave.Nearness

/-!
# The code of the loudest sample

Normalization is for the loudest sample to get the last code there is.  It does not always get it:
the product of the peak and its rounded reciprocal may be the number before one, and a peak within
the tolerance below one is not scaled at all.  What the truncation makes of that depends on the
width.

With two bytes, whatever is below one is truncated to the last code but one, so the loudest sample
has the last code exactly if the normalized peak reaches one, and otherwise no sample has it.  With
one byte the sum with one is rounded before the product, and the sum of one and the number before it
is two.  So there a sample that was scaled has the last code; only a positive one that the tolerance
left alone may have the last code but one.

## What is here

* `Quantize.AtFullScale`, `Quantize.NearFullScale` — the last codes, and those next to them.
* `Number.beforeOne` — the number before one; `Number.Representable.le_of_lt_units` — from one half
  on there is nothing between two neighbours of the format.
* `Number.IsNarrow.nearFullScale_code` and its companions — which of the codes a sample has.
* `Buffer.exists_peak_normalize` — the peak after normalization, as a rational number.
* `Wave.codeIn` — a code as it stands in a file, and `Wave.exists_render_codes`.
* `Wave.render_normalize_loudest` — the codes of the loudest samples of a normalized buffer.
-/

set_option autoImplicit false
namespace WaveMill

open Float.Model.UnpackedFloat (Sign)
open Number

/-! ## Codes at full scale -/

namespace Quantize

variable {z : ℚ} {bytes : UInt16} {code : ℤ}

/-- The code is the largest or the smallest one that a sample can have. -/
def AtFullScale (bytes : UInt16) (code : ℤ) : Prop :=
  if bytes = 2 then code = 32767 ∨ code = -32767 else code = 254 ∨ code = 0

instance (bytes : UInt16) (code : ℤ) : Decidable (AtFullScale bytes code) :=
  inferInstanceAs (Decidable (if bytes = 2 then _ else _))

/-- The code is the largest or the smallest one, or next to it.  The one next to the smallest code
of one byte is not meant. -/
def NearFullScale (bytes : UInt16) (code : ℤ) : Prop :=
  AtFullScale bytes code ∨ if bytes = 2 then code = 32766 ∨ code = -32766 else code = 253

theorem codeAt_two_of_nonneg (hz : 0 ≤ z) : codeAt 2 z = steps 32767 z := by
  rw [codeAt, if_pos rfl, posPart_of_nonneg hz, negPart_of_nonneg hz, steps_zero, Nat.cast_zero,
    sub_zero]

theorem le_codeAt_two (h : 1 - 1 / 2 ^ 22 ≤ z) : 32766 ≤ codeAt 2 z := by
  rw [codeAt_two_of_nonneg (by linarith)]
  exact_mod_cast le_steps (n := 32766) (by norm_num) (by norm_num at h ⊢; linarith)

/-- With two bytes the number before one is truncated.  With one byte its sum with one is rounded to
two, but not that of the next number below, and a number within the tolerance of minus one does not
make even one step. -/
theorem codeAt_before_one :
    codeAt 2 (1 - 1 / 2 ^ 24) = 32766 ∧ codeAt 1 (1 - 1 / 2 ^ 24) = 254 ∧
      codeAt 1 (1 - 2 / 2 ^ 24) = 253 ∧ codeAt 1 (-(1 - 1 / 2 ^ 22)) = 0 := by
  decide +kernel

theorem codeAt_two_le (hz : 0 ≤ z) (h : z ≤ 1 - 1 / 2 ^ 24) : codeAt 2 z ≤ 32766 :=
  (codeAt_mono (by linarith) h).trans_eq codeAt_before_one.1

theorem codeAt_one_last (h : 1 - 1 / 2 ^ 24 ≤ z) (hle : z ≤ 1) : codeAt 1 z = 254 := by
  obtain ⟨-, hbefore, -⟩ := codeAt_before_one
  refine le_antisymm ?_ (hbefore.symm.trans_le (codeAt_mono (by norm_num) h))
  exact (codeAt_mono (by linarith) hle).trans_eq codeAt_one_one

theorem le_codeAt_one (h : 1 - 1 / 2 ^ 22 ≤ z) : 253 ≤ codeAt 1 z := by
  have hcode : codeAt 1 z = steps 127 (rounded .binary32 (z + 1)) := rfl
  rw [hcode]
  exact_mod_cast le_steps_rounded (by linarith)

theorem codeAt_one_next (h : 1 - 1 / 2 ^ 22 ≤ z) (hle : z ≤ 1 - 2 / 2 ^ 24) :
    codeAt 1 z = 253 := by
  obtain ⟨-, -, hbefore, -⟩ := codeAt_before_one
  exact le_antisymm ((codeAt_mono (by linarith) hle).trans_eq hbefore) (le_codeAt_one h)

theorem codeAt_one_neg (h : 1 - 1 / 2 ^ 22 ≤ z) (hle : z ≤ 1) : codeAt 1 (-z) = 0 := by
  obtain ⟨-, -, -, hbefore⟩ := codeAt_before_one
  exact le_antisymm ((codeAt_mono (by linarith) (neg_le_neg h)).trans_eq hbefore)
    (Int.natCast_nonneg _)

end Quantize

namespace Number

variable {x : Float32} {s : Sign} {q : ℚ} {bytes : UInt16}

/-- The number before one. -/
def beforeOne : Float32 := .ofBits 0x3f7fffff

theorem isNarrow_beforeOne : IsNarrow beforeOne .positive (1 - 1 / 2 ^ 24) := by
  have h : IsNarrow beforeOne .positive ((16777215 : ℕ) * 2 ^ (-24 : ℤ)) :=
    Denotes.finite .positive (by decide) (by decide)
  norm_num at h ⊢
  exact h

/-- From one half on, the numbers of the format are whole numbers of units of `2 ^ -24`. -/
theorem Representable.exists_units (hq : Representable .binary32 q) (h : 1 / 2 ≤ q) :
    ∃ k : ℕ, q = k / 2 ^ 24 := by
  obtain ⟨n, e, hn, -, rfl⟩ := hq
  have hunit : (2 ^ (-24 : ℤ) : ℚ) = 1 / 2 ^ 24 := by norm_num
  rcases lt_or_ge e (-24) with hfine | hcoarse
  · -- A mantissa in smaller units does not come to one half.
    have hmantissa : (n : ℚ) < 2 ^ 24 := by exact_mod_cast hn
    have hsmall : (2 ^ e : ℚ) ≤ 2 ^ (-25 : ℤ) := by
      gcongr
      · exact one_le_two
      · omega
    have hbelow : (n * 2 ^ e : ℚ) < 1 / 2 := by
      calc (n * 2 ^ e : ℚ) ≤ n * 2 ^ (-25 : ℤ) := by gcongr
        _ < 2 ^ 24 * 2 ^ (-25 : ℤ) := by gcongr
        _ = 1 / 2 := by norm_num
    exact absurd h (not_le.2 hbelow)
  · exact ⟨_, by rw [mul_zpow_eq_shiftLeft hcoarse, hunit, mul_one_div]⟩

/-- So there is no number of the format between two numbers of units that follow on each other. -/
theorem Representable.le_of_lt_units {k : ℕ} (hq : Representable .binary32 q) (hk : 2 ^ 23 ≤ k)
    (h : q < (k + 1) / 2 ^ 24) : q ≤ k / 2 ^ 24 := by
  rcases le_or_gt (1 / 2) q with hhalf | hbelow
  · obtain ⟨n, rfl⟩ := hq.exists_units hhalf
    have hn : n < k + 1 := by
      rw [div_lt_div_iff_of_pos_right (by positivity)] at h
      exact_mod_cast h
    gcongr
    omega
  · have hk' : (2 ^ 23 : ℚ) ≤ k := by exact_mod_cast hk
    calc q ≤ 2 ^ 23 / 2 ^ 24 := hbelow.le.trans (by norm_num)
      _ ≤ k / 2 ^ 24 := by gcongr

theorem Representable.le_of_lt_one (hq : Representable .binary32 q) (h : q < 1) :
    q ≤ 1 - 1 / 2 ^ 24 :=
  (hq.le_of_lt_units (k := 2 ^ 24 - 1) (by norm_num) (by norm_num [h])).trans (by norm_num)

theorem Representable.le_of_lt_beforeOne (hq : Representable .binary32 q)
    (h : q < 1 - 1 / 2 ^ 24) : q ≤ 1 - 2 / 2 ^ 24 :=
  (hq.le_of_lt_units (k := 2 ^ 24 - 2) (by norm_num) (h.trans_eq (by norm_num))).trans
    (by norm_num)

namespace IsNarrow

theorem level_eq (hx : IsNarrow x s q) : Quantize.level x = signed s (min 1 q) := by
  have hnonneg : 0 ≤ min 1 q := le_min zero_le_one hx.nonneg
  rw [Quantize.level_of_isNarrow hx]
  cases s with
  | negative =>
    rw [signed_negative, signed_negative, min_eq_right (by linarith [hx.nonneg]),
      ← max_neg_neg]
  | positive => exact max_eq_right (by rw [signed_positive]; linarith)

theorem eq_negative (hx : IsNarrow x s q) (h : x < 0) : s = .negative := by
  cases s with
  | negative => rfl
  | positive => exact absurd ((hx.lt_iff isNarrow_zero).1 h) (not_lt.2 hx.nonneg)

theorem eq_positive (hx : IsNarrow x s q) (h : 0 < x) : s = .positive := by
  cases s with
  | negative =>
    exact absurd ((isNarrow_zero.lt_iff hx).1 h) (not_lt.2 (neg_nonpos.2 hx.nonneg))
  | positive => rfl

theorem isNaN_eq_false (hx : IsNarrow x s q) : x.isNaN = false := isNaN_of_value? hx.value?_eq

/-- A sample of two bytes has the code of its magnitude, with the sign of the sample. -/
theorem code_two (hx : IsNarrow x s q) :
    Quantize.code 2 x = Quantize.codeAt 2 (min 1 q) ∨
      Quantize.code 2 x = -Quantize.codeAt 2 (min 1 q) := by
  rw [Quantize.code_eq (.inr rfl) hx.isNaN_eq_false, hx.level_eq]
  cases s with
  | negative => exact .inr Quantize.codeAt_two_neg
  | positive => exact .inl rfl

theorem code_one (hx : IsNarrow x s q) :
    Quantize.code 1 x = Quantize.codeAt 1 (signed s (min 1 q)) := by
  rw [Quantize.code_eq (.inl rfl) hx.isNaN_eq_false, hx.level_eq]

/-- A loud sample of one byte has the smallest code if it is negative. -/
theorem code_one_negative (hx : IsNarrow x .negative q) (hq : 1 - 1 / 2 ^ 22 ≤ q) :
    Quantize.code 1 x = 0 := by
  rw [hx.code_one, signed_negative]
  exact Quantize.codeAt_one_neg (le_min (by norm_num) hq) (min_le_left ..)

theorem code_one_positive (hx : IsNarrow x .positive q) (hq : 1 - 1 / 2 ^ 22 ≤ q) :
    Quantize.code 1 x = if 1 - 1 / 2 ^ 24 ≤ q then 254 else 253 := by
  rw [hx.code_one, signed_positive]
  split_ifs with hbefore
  · exact Quantize.codeAt_one_last (le_min (by norm_num) hbefore) (min_le_left ..)
  · have hle := hx.representable.le_of_lt_beforeOne (not_le.1 hbefore)
    exact Quantize.codeAt_one_next (le_min (by norm_num) hq) ((min_le_right ..).trans hle)

theorem atFullScale_code (hwidth : bytes = 1 ∨ bytes = 2) (hx : IsNarrow x s q)
    (h : 1 ≤ q ∨ bytes = 1 ∧ 1 - 1 / 2 ^ 24 ≤ q) :
    Quantize.AtFullScale bytes (Quantize.code bytes x) := by
  rcases hwidth with rfl | rfl
  · have hq : 1 - 1 / 2 ^ 24 ≤ q := by
      rcases h with hone | ⟨-, hbefore⟩
      · exact le_trans (by norm_num) hone
      · exact hbefore
    have hnear : 1 - 1 / 2 ^ 22 ≤ q := le_trans (by norm_num) hq
    cases s with
    | negative => exact .inr (hx.code_one_negative hnear)
    | positive => exact .inl ((hx.code_one_positive hnear).trans (if_pos hq))
  · have hq : 1 ≤ q := h.resolve_right fun hbytes ↦ absurd hbytes.1 (by decide)
    have hcode := hx.code_two
    rw [min_eq_left hq, Quantize.codeAt_two_one] at hcode
    exact hcode

theorem nearFullScale_code (hwidth : bytes = 1 ∨ bytes = 2) (hx : IsNarrow x s q)
    (hq : 1 - 1 / 2 ^ 22 ≤ q) : Quantize.NearFullScale bytes (Quantize.code bytes x) := by
  rcases hwidth with rfl | rfl
  · cases s with
    | negative => exact .inl (.inr (hx.code_one_negative hq))
    | positive =>
      have hcode := hx.code_one_positive hq
      split_ifs at hcode
      · exact .inl (.inl hcode)
      · exact .inr hcode
  · have hlevel : 1 - 1 / 2 ^ 22 ≤ min 1 q := le_min (by norm_num) hq
    have hlow := Quantize.le_codeAt_two hlevel
    have hhigh : Quantize.codeAt 2 (min 1 q) ≤ 32767 :=
      (Quantize.codeAt_mono (by linarith) (min_le_left 1 q)).trans_eq Quantize.codeAt_two_one
    have hcode := hx.code_two
    simp only [Quantize.NearFullScale, Quantize.AtFullScale, if_pos]
    omega

theorem not_atFullScale_code_two (hx : IsNarrow x s q) (hq : q ≤ 1 - 1 / 2 ^ 24) :
    ¬ Quantize.AtFullScale 2 (Quantize.code 2 x) := by
  have hlevel : min 1 q = q := min_eq_right (hq.trans (by norm_num))
  have hhigh := Quantize.codeAt_two_le hx.nonneg hq
  have hlow : 0 ≤ Quantize.codeAt 2 q := by
    rw [Quantize.codeAt_two_of_nonneg hx.nonneg]
    exact Int.natCast_nonneg _
  have hcode := hx.code_two
  rw [hlevel] at hcode
  simp only [Quantize.AtFullScale, if_pos]
  omega

end IsNarrow
end Number

/-! ## The peak after normalization -/

namespace Buffer

variable {b : Buffer} {x : Float32}

/-- Normalization leaves a peak of one, of the number before it, or what the tolerance lets pass. -/
theorem exists_peak_normalize (hfinite : b.isFinite = true) (hloud : faintest < b.peak) :
    ∃ q, IsNarrow b.normalize.peak .positive q ∧ IsPeak b.normalize.samples q ∧
      (∀ x ∈ b.normalize.samples, x.isFinite = true) ∧ 1 - 1 / 2 ^ 22 ≤ q ∧
      (b.peak < fullScale → 1 - 1 / 2 ^ 24 ≤ q) := by
  obtain ⟨p, hp, hpeak⟩ := isNarrow_peak hfinite
  have habove : 1 / 2 ^ 128 < p := (isNarrow_faintest.lt_iff hp).1 hloud
  have hpos : 0 < p := lt_trans (by positivity) habove
  by_cases hfull : fullScale ≤ b.peak
  · have hkept : b.normalize = b := normalize_of_not_scaled (.inr (if_pos hfull))
    have hle := (isNarrow_fullScale.le_iff hp).1 hfull
    rw [hkept]
    refine ⟨p, hp, hpeak, isFinite_iff.1 hfinite, hle, fun hlow ↦ ?_⟩
    exact absurd ((hp.lt_iff isNarrow_fullScale).1 hlow) (not_lt.2 hle)
  · have hbelow : p < 1 - 1 / 2 ^ 22 := not_le.1 (mt (isNarrow_fullScale.le_iff hp).2 hfull)
    have hnormalization : b.normalization = .scaled (1 / b.peak) := by
      rw [normalization, if_neg hfull, if_neg]
      rw [hp.le_iff isNarrow_zero]
      exact not_le.2 hpos
    have hgain := isNarrow_one.div hp hpos.ne' (rounded_reciprocal_lt hp.representable habove)
    obtain ⟨hreached, hkept⟩ := rounded_mul_reciprocal_bounds hpos (by linarith)
    obtain ⟨hpeak', hfinite'⟩ := hpeak.map_mul (isFinite_iff.1 hfinite) hgain
      (hkept.trans_lt (by norm_num))
    rw [normalize, hnormalization]
    rw [← samples_mapSamples] at hpeak' hfinite'
    obtain ⟨q, hq, hpeak''⟩ := isNarrow_peak (isFinite_iff.2 hfinite')
    obtain rfl := hpeak''.unique hpeak'
    exact ⟨_, hq, hpeak', hfinite', le_trans (by norm_num) hreached, fun _ ↦ hreached⟩

/-- A sample of at least `2 ^ -100` is loud enough for a finite gain. -/
theorem faintest_lt_peak (hfinite : b.isFinite = true)
    (hloud : ∃ x ∈ b.samples, ∃ q, value? x = some q ∧ 1 / 2 ^ 100 ≤ |q|) :
    faintest < b.peak := by
  obtain ⟨x, hx, q, hq, hle⟩ := hloud
  obtain ⟨s, a, ha, rfl⟩ := exists_isNarrow_of_value? hq
  obtain ⟨p, hp, hpeak⟩ := isNarrow_peak hfinite
  have habs : |signed s a| = a := by
    cases s with
    | negative => rw [signed_negative, abs_neg, abs_of_nonneg ha.nonneg]
    | positive => exact abs_of_nonneg ha.nonneg
  rw [isNarrow_faintest.lt_iff hp, signed_positive, signed_positive]
  calc (1 / 2 ^ 128 : ℚ) < 1 / 2 ^ 100 := by norm_num
    _ ≤ a := habs ▸ hle
    _ ≤ p := hpeak.le x hx s a ha

theorem exists_sample_of_mem (hx : x ∈ b.samples) :
    ∃ c < b.channels.length, ∃ i < b.frames, b.sample c i = x := by
  obtain ⟨channel, hchannel, hx⟩ := List.mem_flatMap.1 hx
  obtain ⟨c, hc, rfl⟩ := List.getElem_of_mem hchannel
  obtain ⟨i, hi, rfl⟩ := Array.getElem_of_mem (Array.mem_toList_iff.1 hx)
  exact ⟨c, hc, i, size_getElem hc ▸ hi, sample_eq_getElem hc hi⟩

/-- There is a sample whose magnitude is the peak. -/
theorem exists_loudest (hpos : 0 < b.peak) :
    ∃ c < b.channels.length, ∃ i < b.frames, (b.sample c i).abs = b.peak := by
  obtain ⟨z, hz, hpeak, -⟩ := exists_peak b
  have hsample : z ∈ b.samples := by
    refine (List.mem_cons.1 hz).resolve_left fun hzero ↦ ?_
    rw [hpeak, hzero, isNarrow_zero.lt_iff isNarrow_zero.abs] at hpos
    exact lt_irrefl _ hpos
  obtain ⟨c, hc, i, hi, rfl⟩ := exists_sample_of_mem hsample
  exact ⟨c, hc, i, hi, hpeak.symm⟩

end Buffer

/-! ## The file -/

namespace Wave

variable {b : Buffer} {bytes : UInt16}

/-- Code `j` of a file, as the number that its bytes write: a signed one if there are two. -/
def codeIn (bytes : UInt16) (wave : Bytes) (j : Nat) : ℤ :=
  let word := field wave (44 + j * bytes.toNat) bytes.toNat
  if bytes = 2 then Bytes.signed word 16 else word

/-- Within the limits of the container a file is written, and it has the code of every sample at the
place of the sample. -/
theorem exists_render_codes (hwidth : bytes = 1 ∨ bytes = 2)
    (hrate : b.rate.toNat * b.channels.length * bytes.toNat < 2 ^ 32)
    (hlength : b.frames * b.channels.length * bytes.toNat % 2 ^ 32 < 2 ^ 32 - 36) :
    ∃ wave, b.render bytes = .ok wave ∧
      wave.length = 44 + b.frames * b.channels.length * bytes.toNat ∧
      ∀ c < b.channels.length, ∀ i < b.frames,
        codeIn bytes wave (i * b.channels.length + c) = Quantize.code bytes (b.sample c i) := by
  obtain ⟨data, hdata⟩ : ∃ data, b.quantize bytes = .ok data := ⟨_, b.quantize_eq hwidth⟩
  have hdataLength := Buffer.length_quantize hwidth hdata
  rw [← hdataLength] at hlength
  obtain ⟨h, hheader, -⟩ :=
    header_describes (fits_of_le (b := b) hwidth (Nat.le_sub_one_of_lt hlength) hrate)
  refine ⟨h.bytes ++ data, ?_, ?_, fun c hc i hi ↦ ?_⟩
  · rw [render_eq hdata, file, header_mod, hheader]
    rfl
  · rw [length_bytes_append, hdataLength]
  · have hword : field (h.bytes ++ data) (44 + (i * b.channels.length + c) * bytes.toNat)
        bytes.toNat = Bytes.little (Quantize.encode bytes (b.sample c i)) := by
      rw [field, ← List.drop_drop, drop_bytes_append, Buffer.take_drop_quantize hwidth hdata hc hi]
    simp only [codeIn, hword, Quantize.code]

/-- Every place among the codes is that of a sample. -/
theorem exists_place {channels frames j : Nat} (hj : j < frames * channels) :
    ∃ c < channels, ∃ i < frames, j = i * channels + c := by
  have hpos : 0 < channels := Nat.pos_of_lt_mul_left hj
  exact ⟨j % channels, Nat.mod_lt _ hpos, j / channels, (Nat.div_lt_iff_lt_mul hpos).2 hj,
    (Nat.div_add_mod' j channels).symm⟩

theorem exists_of_map_render {n : Nat} {code : ℤ}
    (h : (b.render bytes).map (fun wave ↦ (wave.length, codeIn bytes wave 0)) = .ok (n, code))
    (hcode : ¬ Quantize.AtFullScale bytes code) :
    ∃ wave, b.render bytes = .ok wave ∧ wave.length = n ∧
      ¬ Quantize.AtFullScale bytes (codeIn bytes wave 0) := by
  obtain ⟨wave, hwave, heq⟩ := Outcome.map_eq_ok_iff.1 h
  cases heq
  exact ⟨wave, hwave, rfl, hcode⟩

/-- **The loudest sample of a normalized buffer has the last code or one next to it.**  If the
buffer is finite, has a sample of at least `2 ^ -100` and is within the limits of the container, it
is written.  Every sample that is as loud as the normalized peak has a code near full scale: one at
full scale if that peak is not below one, or if there is one byte to a code and the buffer was
scaled.  With one byte it has the smallest code if it is negative, and if it is positive the largest
one, or the one before that where even the number before one is above the peak.  With two bytes and
a peak below one, no code of the file is at full scale. -/
theorem render_normalize_loudest (b : Buffer) (hwidth : bytes = 1 ∨ bytes = 2)
    (hfinite : b.isFinite = true)
    (hloud : ∃ x ∈ b.samples, ∃ q, value? x = some q ∧ 1 / 2 ^ 100 ≤ |q|)
    (hrate : b.rate.toNat * b.channels.length * bytes.toNat < 2 ^ 32)
    (hlength : b.frames * b.channels.length * bytes.toNat % 2 ^ 32 < 2 ^ 32 - 36) :
    ∃ wave, b.normalize.render bytes = .ok wave ∧
      wave.length = 44 + b.frames * b.channels.length * bytes.toNat ∧
      (∃ c < b.channels.length, ∃ i < b.frames,
        (b.normalize.sample c i).abs = b.normalize.peak) ∧
      (∀ c < b.channels.length, ∀ i < b.frames,
        (b.normalize.sample c i).abs = b.normalize.peak →
        let code := codeIn bytes wave (i * b.channels.length + c)
        Quantize.NearFullScale bytes code ∧
          (1 ≤ b.normalize.peak ∨ bytes = 1 ∧ b.peak < Buffer.fullScale →
            Quantize.AtFullScale bytes code) ∧
          (bytes = 1 → b.normalize.sample c i < 0 → code = 0) ∧
          (bytes = 1 → 0 < b.normalize.sample c i →
            code = if beforeOne ≤ b.normalize.peak then 254 else 253)) ∧
      (bytes = 2 → b.normalize.peak < 1 → ∀ j < b.frames * b.channels.length,
        ¬ Quantize.AtFullScale bytes (codeIn bytes wave j)) := by
  obtain ⟨q, hq, hpeak, hfinite', hnear, hscaled⟩ :=
    Buffer.exists_peak_normalize hfinite (Buffer.faintest_lt_peak hfinite hloud)
  obtain ⟨wave, hwave, hwaveLength, hcodes⟩ :=
    exists_render_codes (b := b.normalize) hwidth (by simpa using hrate) (by simpa using hlength)
  have hloudest := Buffer.exists_loudest (b := b.normalize)
    ((isNarrow_zero.lt_iff hq).2 (lt_of_lt_of_le (by norm_num) hnear))
  rw [Buffer.length_channels_normalize, Buffer.frames_normalize] at hwaveLength hcodes hloudest
  refine ⟨wave, hwave, hwaveLength, hloudest, fun c hc i hi habs ↦ ?_, ?_⟩
  · have hmem : b.normalize.sample c i ∈ b.normalize.samples :=
      Buffer.sample_mem (by simpa using hc) (by simpa using hi)
    obtain ⟨s, a, ha, -⟩ := exists_isNarrow (hfinite' _ hmem)
    obtain rfl : a = q := ((habs ▸ ha.abs).unique hq).2
    simp only [hcodes c hc i hi]
    refine ⟨ha.nearFullScale_code hwidth hnear, fun hreached ↦ ha.atFullScale_code hwidth ?_, ?_,
      ?_⟩
    · exact hreached.imp (isNarrow_one.le_iff hq).1 (And.imp_right hscaled)
    · rintro rfl hsign
      obtain rfl := ha.eq_negative hsign
      exact ha.code_one_negative hnear
    · rintro rfl hsign
      obtain rfl := ha.eq_positive hsign
      simp only [isNarrow_beforeOne.le_iff hq, signed_positive]
      exact ha.code_one_positive hnear
  · rintro rfl hbelow j hj
    obtain ⟨c, hc, i, hi, rfl⟩ := exists_place hj
    have hmem : b.normalize.sample c i ∈ b.normalize.samples :=
      Buffer.sample_mem (by simpa using hc) (by simpa using hi)
    obtain ⟨s, a, ha, -⟩ := exists_isNarrow (hfinite' _ hmem)
    rw [hcodes c hc i hi]
    exact ha.not_atFullScale_code_two ((hpeak.le _ hmem s a ha).trans
      (hq.representable.le_of_lt_one ((hq.lt_iff isNarrow_one).1 hbelow)))

/-- The second sample of a quiet buffer is the loudest, and it has the smallest code. -/
theorem render_normalize_loudest_quiet :
    ∃ wave, Buffer.quiet.normalize.render 2 = .ok wave ∧
      Quantize.AtFullScale 2 (codeIn 2 wave 1) := by
  have hloud : ∃ x ∈ Buffer.quiet.samples, ∃ q, value? x = some q ∧ 1 / 2 ^ 100 ≤ |q| :=
    ⟨_, Buffer.sample_mem (c := 0) (i := 1) (by decide) (by decide), _, rfl, by decide +kernel⟩
  obtain ⟨wave, hwave, -, -, hcodes, -⟩ :=
    render_normalize_loudest Buffer.quiet (.inr rfl) (by decide +kernel) hloud (by decide)
      (by decide)
  obtain ⟨-, hfull, -⟩ := hcodes 0 (by decide) 1 (by decide) (by decide +kernel)
  exact ⟨wave, hwave, hfull (.inl (by decide +kernel))⟩

/-- One sample, `41 / 64`, whose product with its rounded reciprocal is the number before one. -/
def uneven : Buffer where
  channels := [#[0.640625]]
  rate := 88200
  channels_ne_nil := List.cons_ne_nil _ _
  length_channels_le := by decide
  size_eq := by decide
  rate_pos := by decide

/-- One sample within the tolerance below one: `1 - 2 ^ -23`. -/
def hairBelow : Buffer where
  channels := [#[.ofBits 0x3f7ffffe]]
  rate := 88200
  channels_ne_nil := List.cons_ne_nil _ _
  length_channels_le := by decide
  size_eq := by decide
  rate_pos := by decide

/-- One sample at full scale, at a rate that two bytes do not go with. -/
def swift : Buffer where
  channels := [#[1]]
  rate := 0x80000000
  channels_ne_nil := List.cons_ne_nil _ _
  length_channels_le := by decide
  size_eq := by decide
  rate_pos := by decide

/-- The only code of a normalized buffer may be the last one but one, whether there are two bytes to
a code or one; and there may be no file at all. -/
theorem render_normalize_shortfall :
    (uneven.isFinite = true ∧ uneven.samples.map value? = [some (41 / 64)] ∧
      ∃ wave, uneven.normalize.render 2 = .ok wave ∧ wave.length = 44 + 2 ∧
        ¬ Quantize.AtFullScale 2 (codeIn 2 wave 0)) ∧
    (hairBelow.isFinite = true ∧ hairBelow.samples.map value? = [some (1 - 1 / 2 ^ 23)] ∧
      ∃ wave, hairBelow.normalize.render 1 = .ok wave ∧ wave.length = 44 + 1 ∧
        ¬ Quantize.AtFullScale 1 (codeIn 1 wave 0)) ∧
    (swift.isFinite = true ∧ swift.samples.map value? = [some 1] ∧
      swift.normalize.render 2 = .error (.aborted .productOverflow)) := by
  have huneven : (uneven.normalize.render 2).map (fun wave ↦ (wave.length, codeIn 2 wave 0)) =
      .ok (46, 32766) := by decide +kernel
  have hhair : (hairBelow.normalize.render 1).map (fun wave ↦ (wave.length, codeIn 1 wave 0)) =
      .ok (45, 253) := by decide +kernel
  exact ⟨⟨by decide +kernel, by decide +kernel, exists_of_map_render huneven (by decide)⟩,
    ⟨by decide +kernel, by decide +kernel, exists_of_map_render hhair (by decide)⟩,
    by decide +kernel, by decide +kernel, by decide +kernel⟩

end Wave
end WaveMill
