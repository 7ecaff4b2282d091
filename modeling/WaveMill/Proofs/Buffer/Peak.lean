import WaveMill.Buffer
import WaveMill.Proofs.Number.Magnitude

/-!
# The peak of a buffer

The peak of a buffer is the largest of the magnitudes of its samples: none is larger, and one is as
large, or else there is nothing but zeros.  That holds of infinite samples too, and a sample that is
not a number counts for nothing.  So the peak is a least upper bound, and where the samples stand
does not matter to it.  Multiplying every sample by one number rounds every product, and
since rounding keeps the order, the finite sample that was the loudest before is still the loudest.

## What is here

* `Buffer.samples` — the samples of all channels.
* `Buffer.exists_peak` — the peak of any buffer is the magnitude of its loudest sample.
* `Number.IsPeak` — the largest magnitude of some samples, as a rational number.
* `Buffer.isNarrow_peak` — the peak of a finite buffer is that.
* `Number.IsPeak.map_mul` — the largest magnitude after a multiplication.
* `Buffer.peak_greatest` — the peak of any buffer is the least upper bound of its magnitudes.
-/

set_option autoImplicit false
namespace WaveMill

open Float.Model.UnpackedFloat (Sign)

namespace Number

variable {xs : List Float32} {x y g : Float32} {s t : Sign} {a p q γ : ℚ}

/-- A magnitude that no sample exceeds, and that one has, unless it is zero. -/
structure IsPeak (xs : List Float32) (p : ℚ) : Prop where
  le : ∀ x ∈ xs, ∀ s a, IsNarrow x s a → a ≤ p
  attained : p = 0 ∨ ∃ x ∈ xs, ∃ s, IsNarrow x s p

theorem IsPeak.nonneg (h : IsPeak xs p) : 0 ≤ p := by
  obtain rfl | ⟨x, -, s, hx⟩ := h.attained
  · exact le_rfl
  · exact hx.nonneg

theorem IsPeak.unique (h : IsPeak xs p) (h' : IsPeak xs q) : p = q := by
  have hle {p q : ℚ} (h : IsPeak xs p) (h' : IsPeak xs q) : p ≤ q := by
    obtain rfl | ⟨x, hx, s, ha⟩ := h.attained
    · exact h'.nonneg
    · exact h'.le x hx s p ha
  exact le_antisymm (hle h h') (hle h' h)

/-- Which of a magnitude and that of a sample is taken. -/
theorem louder_abs (hy : magnitude y ≠ ⊥) :
    (Buffer.louder y.abs x = y.abs ∧ magnitude x ≤ magnitude y) ∨
      (Buffer.louder y.abs x = x.abs ∧ magnitude y < magnitude x) := by
  rw [Buffer.louder]
  by_cases hlt : y.abs < x.abs
  · exact .inr ⟨if_pos hlt, (abs_lt_abs_iff hy).1 hlt⟩
  · exact .inl ⟨if_neg hlt, not_lt.1 (mt (abs_lt_abs_iff hy).2 hlt)⟩

/-- From the magnitude of a number on, the loudest sample is found, whatever the others are. -/
theorem foldl_louder (hy : magnitude y ≠ ⊥) :
    ∃ z ∈ y :: xs, xs.foldl Buffer.louder y.abs = z.abs ∧
      ∀ x ∈ y :: xs, magnitude x ≤ magnitude z := by
  induction xs generalizing y with
  | nil => exact ⟨y, List.mem_cons_self, rfl, by simp⟩
  | cons x xs ih =>
    rw [List.foldl_cons]
    obtain ⟨hkept, hle⟩ | ⟨htaken, hlt⟩ := louder_abs (x := x) hy
    · obtain ⟨z, hz, hfold, hall⟩ := ih hy
      obtain ⟨hyz, hxs⟩ := List.forall_mem_cons.1 hall
      rw [hkept]
      exact ⟨z, by grind, hfold, List.forall_mem_cons.2
        ⟨hyz, List.forall_mem_cons.2 ⟨hle.trans hyz, hxs⟩⟩⟩
    · obtain ⟨z, hz, hfold, hall⟩ := ih (bot_lt_iff_ne_bot.1 (bot_le.trans_lt hlt))
      obtain ⟨hxz, -⟩ := List.forall_mem_cons.1 hall
      rw [htaken]
      exact ⟨z, List.mem_cons_of_mem y hz, hfold,
        List.forall_mem_cons.2 ⟨hlt.le.trans hxz, hall⟩⟩

/-- The loudest sample stays the loudest when all are multiplied by one number. -/
theorem IsPeak.map_mul (h : IsPeak xs p) (hfinite : ∀ x ∈ xs, x.isFinite = true)
    (hg : IsNarrow g t γ) (hlimit : rounded .binary32 (p * γ) < 2 ^ 128) :
    IsPeak (xs.map (· * g)) (rounded .binary32 (p * γ)) ∧
      ∀ x ∈ xs.map (· * g), x.isFinite = true := by
  have hproduct {x : Float32} {s : Sign} {a : ℚ} (hx : x ∈ xs) (ha : IsNarrow x s a) :
      rounded .binary32 (a * γ) ≤ rounded .binary32 (p * γ) ∧
        IsNarrow (x * g) (s * t) (rounded .binary32 (a * γ)) := by
    have hle : rounded .binary32 (a * γ) ≤ rounded .binary32 (p * γ) :=
      rounded_mono (mul_nonneg ha.nonneg hg.nonneg)
        (mul_le_mul_of_nonneg_right (h.le x hx s a ha) hg.nonneg)
    exact ⟨hle, ha.mul hg (hle.trans_lt hlimit)⟩
  refine ⟨⟨?_, ?_⟩, ?_⟩
  · rintro y hy s b hb
    obtain ⟨x, hx, rfl⟩ := List.mem_map.1 hy
    obtain ⟨s', a, ha, -⟩ := exists_isNarrow (hfinite x hx)
    rw [(hb.unique (hproduct hx ha).2).2]
    exact (hproduct hx ha).1
  · obtain rfl | ⟨x, hx, s, ha⟩ := h.attained
    · exact .inl (by simp)
    · exact .inr ⟨_, List.mem_map_of_mem hx, _, (hproduct hx ha).2⟩
  · rintro y hy
    obtain ⟨x, hx, rfl⟩ := List.mem_map.1 hy
    obtain ⟨s, a, ha, -⟩ := exists_isNarrow (hfinite x hx)
    exact (hproduct hx ha).2.isFinite

end Number

namespace Buffer

open Number

variable {b : Buffer}

/-- The samples of all channels. -/
def samples (b : Buffer) : List Float32 := b.channels.flatMap Array.toList

theorem isFinite_iff : b.isFinite = true ↔ ∀ x ∈ b.samples, x.isFinite = true := by
  simp only [isFinite, samples, List.all_eq_true, Array.all_eq_true_iff_forall_mem,
    List.mem_flatMap, Array.mem_toList_iff]
  grind

theorem samples_mapSamples (f : Float32 → Float32) :
    (b.mapSamples f).samples = b.samples.map f := by
  simp [samples, mapSamples, List.map_flatMap, List.flatMap_map]

theorem peak_eq : b.peak = b.samples.foldl louder 0 := by
  simp [peak, samples, List.foldl_flatMap]

/-- What is not louder changes nothing. -/
theorem foldl_louder_of_not_lt {samples : List Float32} {p : Float32}
    (h : ∀ x ∈ samples, ¬p < x.abs) : samples.foldl louder p = p := by
  induction samples with
  | nil => rfl
  | cons x rest ih =>
    rw [List.foldl_cons, louder, if_neg (h x (List.mem_cons_self ..))]
    exact ih fun y hy ↦ h y (List.mem_cons_of_mem _ hy)

/-- The peak of a buffer, whatever its samples are, is the magnitude of one of them, or of zero, and
none has a larger one. -/
theorem exists_peak (b : Buffer) :
    ∃ z ∈ 0 :: b.samples, b.peak = z.abs ∧ ∀ x ∈ 0 :: b.samples, magnitude x ≤ magnitude z := by
  have hzero : magnitude 0 ≠ ⊥ := by
    rw [magnitude_zero]
    exact WithBot.coe_ne_bot
  rw [peak_eq]
  exact foldl_louder hzero

/-- The peak of a buffer of finite samples is the largest magnitude among them. -/
theorem isNarrow_peak (h : b.isFinite = true) :
    ∃ p, IsNarrow b.peak .positive p ∧ IsPeak b.samples p := by
  obtain ⟨z, hz, hpeak, hall⟩ := exists_peak b
  obtain ⟨s, p, hp⟩ : ∃ s p, IsNarrow z s p := by
    obtain rfl | hz := List.mem_cons.1 hz
    · exact ⟨_, _, isNarrow_zero⟩
    · obtain ⟨s, p, hp, -⟩ := exists_isNarrow (isFinite_iff.1 h z hz)
      exact ⟨s, p, hp⟩
  refine ⟨p, hpeak ▸ hp.abs, ⟨fun x hx t a ha ↦ ?_, ?_⟩⟩
  · have hle := hall x (List.mem_cons_of_mem _ hx)
    rw [ha.magnitude_eq, hp.magnitude_eq] at hle
    exact_mod_cast hle
  · obtain rfl | hz := List.mem_cons.1 hz
    · exact .inl (hp.unique isNarrow_zero).2
    · exact .inr ⟨z, hz, s, hp⟩

/-! ## A least upper bound -/

theorem mem_samples {x : Float32} : x ∈ b.samples ↔ ∃ channel ∈ b.channels, x ∈ channel := by
  simp [samples]

/-- How loud the loudest sample is does not depend on where it stands. -/
theorem peak_congr {c : Buffer} (h : ∀ x, x ∈ b.samples ↔ x ∈ c.samples) : b.peak = c.peak := by
  obtain ⟨z, hz, hpeak, hall⟩ := exists_peak b
  obtain ⟨w, hw, hpeak', hall'⟩ := exists_peak c
  have hsame (x : Float32) : x ∈ 0 :: b.samples ↔ x ∈ 0 :: c.samples := by
    rw [List.mem_cons, List.mem_cons, h]
  rw [hpeak, hpeak']
  exact abs_eq_of_magnitude_eq
    (le_antisymm (hall' z ((hsame z).1 hz)) (hall w ((hsame w).2 hw)))

/-- If any sample is a number or an infinity, the peak is the magnitude of such a sample. -/
theorem exists_sample_of_isNaN {x : Float32} (hx : x ∈ b.samples) (hnumber : x.isNaN = false) :
    ∃ y ∈ b.samples, y.isNaN = false ∧ b.peak = y.abs := by
  obtain ⟨z, hz, hpeak, hall⟩ := exists_peak b
  have hbot := magnitude_ne_bot_iff.2 hnumber
  have hle := hall x (List.mem_cons_of_mem _ hx)
  rcases List.mem_cons.1 hz with rfl | hz
  · -- nothing is louder than zero, so this sample is a zero itself
    have hzero := le_antisymm (magnitude_zero_le_iff.2 hbot) hle
    exact ⟨x, hx, hnumber, hpeak.trans (abs_eq_of_magnitude_eq hzero)⟩
  · exact ⟨z, hz, magnitude_ne_bot_iff.1 ((bot_lt_iff_ne_bot.2 hbot).trans_le hle).ne', hpeak⟩

theorem peak_of_isNaN (h : ∀ x ∈ b.samples, x.isNaN = true) : b.peak = 0 := by
  rw [peak_eq]
  refine foldl_louder_of_not_lt fun x hx ↦ ?_
  rw [lt_iff_compare, unpack_abs, isNaN_iff.1 (h x hx)]
  exact fun hlt ↦ nomatch (compare_notANumber _).symm.trans hlt

/-- **The peak is the least upper bound of the magnitudes**, whatever the samples are.  It is a
number or an infinity; no sample that is a number or an infinity exceeds it; it is the magnitude of
one of them, or zero if there are none; and it is the same for every buffer that has the same
samples in any order. -/
theorem peak_greatest (b : Buffer) :
    b.peak.isNaN = false ∧
      (∀ channel ∈ b.channels, ∀ x ∈ channel, x.isNaN = false → x.abs ≤ b.peak) ∧
      ((∃ channel ∈ b.channels, ∃ x ∈ channel, x.isNaN = false ∧ b.peak = x.abs) ∨
        b.peak = 0 ∧ ∀ channel ∈ b.channels, ∀ x ∈ channel, x.isNaN = true) ∧
      ∀ c : Buffer, c.samples.Perm b.samples → c.peak = b.peak := by
  obtain ⟨z, -, hpeak, hall⟩ := exists_peak b
  have hbot := magnitude_zero_le_iff.1 (hall 0 List.mem_cons_self)
  refine ⟨?_, fun channel hchannel x hx hnumber ↦ ?_, ?_, fun c hperm ↦ ?_⟩
  · rw [hpeak, isNaN_abs]
    exact magnitude_ne_bot_iff.1 hbot
  · rw [hpeak, abs_le_abs_iff (magnitude_ne_bot_iff.2 hnumber) hbot]
    exact hall x (List.mem_cons_of_mem _ (mem_samples.2 ⟨channel, hchannel, hx⟩))
  · by_cases hsome : ∃ x ∈ b.samples, x.isNaN = false
    · obtain ⟨x, hx, hnumber⟩ := hsome
      obtain ⟨y, hy, hnumber, hpeak⟩ := exists_sample_of_isNaN hx hnumber
      obtain ⟨channel, hchannel, hy⟩ := mem_samples.1 hy
      exact .inl ⟨channel, hchannel, y, hy, hnumber, hpeak⟩
    · have hnone : ∀ x ∈ b.samples, x.isNaN = true := fun x hx ↦ by
        rw [← Bool.not_eq_false]
        exact fun hnumber ↦ hsome ⟨x, hx, hnumber⟩
      exact .inr ⟨peak_of_isNaN hnone, fun channel hchannel x hx ↦
        hnone x (mem_samples.2 ⟨channel, hchannel, hx⟩)⟩
  · exact peak_congr fun x ↦ hperm.mem_iff

/-- Two channels with a sample that is not a number, and the loudest sample in the second. -/
def uneven : Buffer where
  channels := [#[0.25, .ofBits 0x7fc00000], #[-0.75, -0]]
  rate := 8820
  channels_ne_nil := List.cons_ne_nil _ _
  length_channels_le := by decide
  size_eq := by decide
  rate_pos := by decide

/-- The samples of both channels, backwards on one. -/
def unevenBackwards : Buffer where
  channels := [#[-0, -0.75, .ofBits 0x7fc00000, 0.25]]
  rate := 8821
  channels_ne_nil := List.cons_ne_nil _ _
  length_channels_le := by decide
  size_eq := by decide
  rate_pos := by decide

theorem peak_greatest_uneven :
    uneven.peak.isNaN = false ∧ (0.25 : Float32).abs ≤ uneven.peak ∧ uneven.peak = 0.75 ∧
      unevenBackwards.peak = uneven.peak := by
  obtain ⟨hnumber, hbound, -, horder⟩ := peak_greatest uneven
  exact ⟨hnumber, hbound _ List.mem_cons_self 0.25 (by simp) (by decide +kernel),
    by decide +kernel, horder unevenBackwards (by decide +kernel)⟩

end Buffer
end WaveMill
