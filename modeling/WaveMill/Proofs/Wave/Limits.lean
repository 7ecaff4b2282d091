import WaveMill.Proofs.Wave.RoundTrip

/-!
# The limits of the container

The fields of a header hold words of 32 bits.  Nothing checks beforehand that a buffer fits them:
the rate of a buffer is any positive word, so the number of bytes per second may be too large for
its field, and the length of the data is cut to its field before anything is computed from it.  So
there are three ways to go.  If the bytes per second do not fit, or if the length that is left of
the data is so close to the limit that the length of the file does not fit, the computation is
aborted.  Otherwise a file is written, and its header is right about everything but the length, of
which it keeps the remainder modulo `2 ^ 32`.

## What is here

* `Wave.header_mod` — a header depends on what is left of the length.
* `Wave.header_eq_productOverflow`, `Wave.header_eq_sumOverflow` — when there is none.
* `Wave.render_labelled` — what becomes of any buffer.
* `Wave.render_rapid` — a buffer of one frame that is aborted.
-/

set_option autoImplicit false
namespace WaveMill
namespace Wave

variable {length channels : Nat} {rate : UInt32} {bytes : UInt16} {b : Buffer} {data : Bytes}

/-! ## Headers -/

/-- A header depends on what is left of the length when it is cut to its field. -/
theorem header_mod (length : Nat) (channels : UInt16) (rate : UInt32) (bytes : UInt16) :
    header length channels rate bytes = header (length % 2 ^ 32) channels rate bytes := by
  have hcut : UInt32.ofNat length = UInt32.ofNat (length % 2 ^ 32) := by
    apply UInt32.toNat_inj.1
    rw [UInt32.toNat_ofNat', UInt32.toNat_ofNat', Nat.mod_mod]
  simp only [header, hcut]

/-- There is no header for more bytes per second than fit. -/
theorem header_eq_productOverflow (hchannels : channels < UInt16.size)
    (halign : channels * bytes.toNat < UInt16.size)
    (hrate : UInt32.size ≤ rate.toNat * channels * bytes.toNat) :
    header length (UInt16.ofNat channels) rate bytes = .error (.aborted .productOverflow) := by
  obtain ⟨hok, hframe⟩ := blockAlign_eq_ok hchannels halign
  have hoverflow : product32 rate (bytes * UInt16.ofNat channels).toUInt32 =
      .error (.aborted .productOverflow) :=
    product32_eq_error (by rw [hframe, ← Nat.mul_assoc]; exact hrate)
  simp only [header, hok, hoverflow, Outcome.ok_bind, Outcome.error_bind]

/-- There is no header for a file whose length does not fit. -/
theorem header_eq_sumOverflow (hchannels : channels < UInt16.size)
    (halign : channels * bytes.toNat < UInt16.size)
    (hrate : rate.toNat * channels * bytes.toNat < UInt32.size) (hlength : length < UInt32.size)
    (hfile : UInt32.size ≤ 36 + length) :
    header length (UInt16.ofNat channels) rate bytes = .error (.aborted .sumOverflow) := by
  obtain ⟨hok, hframe⟩ := blockAlign_eq_ok hchannels halign
  obtain ⟨hsecond, -⟩ := product32_eq_ok (a := rate)
    (b := (bytes * UInt16.ofNat channels).toUInt32)
    (by rw [hframe, ← Nat.mul_assoc]; exact hrate)
  have hnat : (UInt32.ofNat length).toNat = length := by
    rw [UInt32.toNat_ofNat']
    exact Nat.mod_eq_of_lt hlength
  have hoverflow : sum32 36 (UInt32.ofNat length) = .error (.aborted .sumOverflow) :=
    sum32_eq_error (by rw [hnat]; exact hfile)
  simp only [header, hok, hsecond, hoverflow, Outcome.ok_bind, Outcome.error_bind]

/-! ## Buffers -/

theorem render_eq (hdata : b.quantize bytes = .ok data) :
    b.render bytes = file data (UInt16.ofNat b.channels.length) b.rate bytes := by
  rw [Buffer.render, hdata, Outcome.ok_bind]

/-- **What becomes of a buffer when it is written.**  It is aborted if the bytes per second do not
fit their field, or else if the length that is left of the data is too large for that of the file.
Otherwise there is a file with all the data in it.  Its header is right about everything but the
length, of which it says what is left; so it is in canonical form exactly if nothing was cut off. -/
theorem render_labelled (b : Buffer) {bytes : UInt16} (hwidth : bytes = 1 ∨ bytes = 2) :
    ∃ data, b.quantize bytes = .ok data ∧
      data.length = b.frames * b.channels.length * bytes.toNat ∧
      let byteRate := b.rate.toNat * b.channels.length * bytes.toNat
      let left := data.length % 2 ^ 32
      (2 ^ 32 ≤ byteRate → b.render bytes = .error (.aborted .productOverflow)) ∧
      (byteRate < 2 ^ 32 → 2 ^ 32 - 36 ≤ left →
        b.render bytes = .error (.aborted .sumOverflow)) ∧
      (byteRate < 2 ^ 32 → left < 2 ^ 32 - 36 →
        ∃ wave, b.render bytes = .ok wave ∧ wave.length = 44 + data.length ∧
          wave.drop 44 = data ∧ Labelled wave left b.channels.length b.rate bytes.toNat ∧
          (Canonical wave b.channels.length b.rate bytes.toNat data ↔ data.length < 2 ^ 32)) := by
  obtain ⟨data, hdata⟩ : ∃ data, b.quantize bytes = .ok data := ⟨_, b.quantize_eq hwidth⟩
  have hleft : data.length % 2 ^ 32 < UInt32.size := Nat.mod_lt _ (by decide)
  have hchannels : b.channels.length < UInt16.size := b.length_channels_le.trans_lt (by decide)
  have halign : b.channels.length * bytes.toNat < UInt16.size :=
    (b.length_channels_mul_width_le hwidth).trans_lt (by decide)
  refine ⟨data, hdata, Buffer.length_quantize hwidth hdata, ?_⟩
  rw [render_eq hdata, file, header_mod]
  refine ⟨fun hrate ↦ ?_, fun hrate hlarge ↦ ?_, fun hrate hsmall ↦ ?_⟩
  · rw [header_eq_productOverflow hchannels halign hrate, Outcome.error_bind]
  · rw [header_eq_sumOverflow hchannels halign hrate hleft (by simp only [UInt32.size]; omega),
      Outcome.error_bind]
  · obtain ⟨h, hheader, hdescribes⟩ :=
      header_describes (fits_of_le (b := b) hwidth (Nat.le_sub_one_of_lt hsmall) hrate)
    rw [hheader, Outcome.ok_bind]
    refine ⟨_, rfl, length_bytes_append, drop_bytes_append, labelled_bytes_append hdescribes,
      fun hcanonical ↦ ?_, fun hshort ↦ ?_⟩
    · have hlabel : field (h.bytes ++ data) 40 4 = data.length % 2 ^ 32 :=
        (labelled_bytes_append hdescribes).dataLength_eq
      rw [hcanonical.dataLength_eq, length_bytes_append] at hlabel
      omega
    · rw [Nat.mod_eq_of_lt hshort] at hdescribes
      exact canonical_bytes_append hdescribes

/-- One frame of two channels at the highest rate there is. -/
def rapid : Buffer where
  channels := [#[0], #[0]]
  rate := 0xffffffff
  channels_ne_nil := List.cons_ne_nil _ _
  length_channels_le := by decide
  size_eq := by decide
  rate_pos := by decide

/-- A buffer of one frame that gets neither a file nor a failure of its own. -/
theorem render_rapid : rapid.render 2 = .error (.aborted .productOverflow) := by decide +kernel

/-- A channel of `2 ^ 32` samples. -/
def endless : Buffer where
  channels := [Array.replicate (2 ^ 32) 0]
  rate := 32000
  channels_ne_nil := List.cons_ne_nil _ _
  length_channels_le := Nat.le_succ 1
  size_eq := by simp
  rate_pos := by decide

/-- A file with `2 ^ 32` bytes of data whose header says that there are none. -/
theorem render_labelled_endless :
    ∃ wave, endless.render 1 = .ok wave ∧ wave.length = 44 + 2 ^ 32 ∧ field wave 40 4 = 0 := by
  obtain ⟨data, -, hlength, -, -, hfile⟩ := @render_labelled endless 1 (.inl rfl)
  have hframes : endless.frames = 2 ^ 32 := Array.size_replicate
  have hdata : data.length = 2 ^ 32 := by
    rw [hlength, hframes]
    rfl
  rw [hdata] at hfile
  obtain ⟨wave, hwave, hwaveLength, -, hlabelled, -⟩ := hfile (by decide) (by decide)
  exact ⟨wave, hwave, hwaveLength, hlabelled.dataLength_eq⟩

end Wave
end WaveMill
