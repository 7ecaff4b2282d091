import WaveMill.Proofs.Outcome
import WaveMill.Wave.Container

/-!
# Headers in which everything fits

The header of a file is made by arithmetic on words that stops at an overflow.  When the numbers are
small enough, none of the steps stops, every field holds the number it stands for, and the file is
a wave file in canonical form, whichever way it is read.

## What is here

* `Wave.Header.Describes` — the fields of a header hold what they stand for, as natural numbers.
* `Wave.header_describes` — so they do whenever the header and the data fit their fields.
* `Wave.field` — a number as it stands in a file, and `Wave.Labelled`, a file with a header that
  says something about plain samples.
* `Wave.Canonical` — a file with plain samples that says nothing but the truth about itself.
* `Wave.file_canonical` — the file that is written is one.
-/

set_option autoImplicit false
namespace WaveMill
namespace Wave

/-! ## Words that do not overflow -/

theorem product16_eq_ok {a b : UInt16} (h : a.toNat * b.toNat < UInt16.size) :
    product16 a b = .ok (a * b) ∧ (a * b).toNat = a.toNat * b.toNat := by
  refine ⟨if_pos h, ?_⟩
  rw [UInt16.toNat_mul]
  exact Nat.mod_eq_of_lt h

theorem product32_eq_ok {a b : UInt32} (h : a.toNat * b.toNat < UInt32.size) :
    product32 a b = .ok (a * b) ∧ (a * b).toNat = a.toNat * b.toNat := by
  refine ⟨if_pos h, ?_⟩
  rw [UInt32.toNat_mul]
  exact Nat.mod_eq_of_lt h

theorem sum32_eq_ok {a b : UInt32} (h : a.toNat + b.toNat < UInt32.size) :
    sum32 a b = .ok (a + b) ∧ (a + b).toNat = a.toNat + b.toNat := by
  refine ⟨if_pos h, ?_⟩
  rw [UInt32.toNat_add]
  exact Nat.mod_eq_of_lt h

theorem product32_eq_error {a b : UInt32} (h : UInt32.size ≤ a.toNat * b.toNat) :
    product32 a b = .error (.aborted .productOverflow) :=
  if_neg (Nat.not_lt.2 h)

theorem sum32_eq_error {a b : UInt32} (h : UInt32.size ≤ a.toNat + b.toNat) :
    sum32 a b = .error (.aborted .sumOverflow) :=
  if_neg (Nat.not_lt.2 h)

/-! ## The fields of a header -/

/-- A header says of `length` bytes of data that they are plain samples of `width` bytes each, on so
many channels and at that rate. -/
structure Header.Describes (h : Header) (length channels : Nat) (rate : UInt32) (width : Nat) :
    Prop where
  channels_eq : h.channels.toNat = channels
  rate_eq : h.rate = rate
  byteRate_eq : h.byteRate.toNat = rate.toNat * channels * width
  blockAlign_eq : h.blockAlign.toNat = channels * width
  bits_eq : h.bits.toNat = 8 * width
  fileLength_eq : h.fileLength.toNat = 36 + length
  dataLength_eq : h.dataLength.toNat = length

/-- What has to fit a field of the header for there to be one. -/
structure Fits (length channels : Nat) (rate : UInt32) (bytes : UInt16) : Prop where
  channels_lt : channels < UInt16.size
  blockAlign_lt : channels * bytes.toNat < UInt16.size
  bits_lt : 8 * bytes.toNat < UInt16.size
  byteRate_lt : rate.toNat * channels * bytes.toNat < UInt32.size
  fileLength_lt : 36 + length < UInt32.size

/-- The number of bytes of a frame fits its field. -/
theorem blockAlign_eq_ok {channels : Nat} {bytes : UInt16} (hchannels : channels < UInt16.size)
    (halign : channels * bytes.toNat < UInt16.size) :
    product16 bytes (UInt16.ofNat channels) = .ok (bytes * UInt16.ofNat channels) ∧
      (bytes * UInt16.ofNat channels).toUInt32.toNat = channels * bytes.toNat := by
  have hnat : (UInt16.ofNat channels).toNat = channels := by
    rw [UInt16.toNat_ofNat']
    exact Nat.mod_eq_of_lt hchannels
  obtain ⟨hok, hproduct⟩ := product16_eq_ok (a := bytes) (b := UInt16.ofNat channels)
    (by rw [hnat, Nat.mul_comm]; exact halign)
  exact ⟨hok, by rw [UInt16.toNat_toUInt32, hproduct, hnat, Nat.mul_comm]⟩

/-- **A header for which everything fits is made, and each of its fields holds what it stands
for.** -/
theorem header_describes {length channels : Nat} {rate : UInt32} {bytes : UInt16}
    (hfits : Fits length channels rate bytes) :
    ∃ h, header length (UInt16.ofNat channels) rate bytes = .ok h ∧
      h.Describes length channels rate bytes.toNat := by
  have hchannels : (UInt16.ofNat channels).toNat = channels := by
    rw [UInt16.toNat_ofNat']
    exact Nat.mod_eq_of_lt hfits.channels_lt
  have hdata : (UInt32.ofNat length).toNat = length := by
    rw [UInt32.toNat_ofNat']
    have hlt := hfits.fileLength_lt
    simp only [UInt32.size] at hlt
    exact Nat.mod_eq_of_lt (by omega)
  obtain ⟨halign, halignNat⟩ := blockAlign_eq_ok hfits.channels_lt hfits.blockAlign_lt
  obtain ⟨hrate, hrateNat⟩ := product32_eq_ok (a := rate)
    (b := (bytes * UInt16.ofNat channels).toUInt32)
    (by rw [halignNat, ← Nat.mul_assoc]; exact hfits.byteRate_lt)
  rw [halignNat, ← Nat.mul_assoc] at hrateNat
  rw [UInt16.toNat_toUInt32] at halignNat
  obtain ⟨hlength, hlengthNat⟩ := sum32_eq_ok (a := 36) (b := UInt32.ofNat length)
    (by rw [hdata]; exact hfits.fileLength_lt)
  rw [hdata] at hlengthNat
  obtain ⟨hbits, hbitsNat⟩ := product16_eq_ok (a := bytes) (b := 8)
    (by rw [Nat.mul_comm]; exact hfits.bits_lt)
  rw [Nat.mul_comm] at hbitsNat
  refine ⟨⟨UInt16.ofNat channels, rate, rate * (bytes * UInt16.ofNat channels).toUInt32,
    bytes * UInt16.ofNat channels, bytes * 8, 36 + UInt32.ofNat length, UInt32.ofNat length⟩, ?_,
    hchannels, rfl, hrateNat, halignNat, hbitsNat, hlengthNat, hdata⟩
  simp only [header, halign, hrate, hlength, hbits, Outcome.ok_bind, Outcome.pure_eq_ok]

/-! ## The fields of a file -/

/-- The number that stands at a place of a file, least significant byte first. -/
def field (wave : Bytes) (offset width : Nat) : Nat := Bytes.little ((wave.drop offset).take width)

/-- A file of plain samples in the canonical form: a header of 44 bytes that holds a description of
the data behind it, and lengths that are those of the file. -/
structure Canonical (wave : Bytes) (channels : Nat) (rate : UInt32) (width : Nat) (data : Bytes) :
    Prop where
  riffTag_eq : wave.take 4 = Bytes.ofAscii "RIFF"
  riffLength_eq : field wave 4 4 = wave.length - 8
  waveTag_eq : (wave.drop 8).take 4 = Bytes.ofAscii "WAVE"
  formatTag_eq : (wave.drop 12).take 4 = Bytes.ofAscii "fmt "
  formatLength_eq : field wave 16 4 = 16
  /-- The samples are integers as they are. -/
  coding_eq : field wave 20 2 = 1
  channels_eq : field wave 22 2 = channels
  rate_eq : field wave 24 4 = rate.toNat
  byteRate_eq : field wave 28 4 = rate.toNat * channels * width
  blockAlign_eq : field wave 32 2 = channels * width
  bits_eq : field wave 34 2 = 8 * width
  dataTag_eq : (wave.drop 36).take 4 = Bytes.ofAscii "data"
  dataLength_eq : field wave 40 4 = wave.length - 44
  data_eq : wave.drop 44 = data

/-- A file whose header says of `length` bytes of data that they are plain samples of `width` bytes
each, on so many channels and at that rate, whatever stands behind the header. -/
structure Labelled (wave : Bytes) (length channels : Nat) (rate : UInt32) (width : Nat) : Prop where
  riffTag_eq : wave.take 4 = Bytes.ofAscii "RIFF"
  riffLength_eq : field wave 4 4 = 36 + length
  waveTag_eq : (wave.drop 8).take 4 = Bytes.ofAscii "WAVE"
  formatTag_eq : (wave.drop 12).take 4 = Bytes.ofAscii "fmt "
  formatLength_eq : field wave 16 4 = 16
  /-- The samples are integers as they are. -/
  coding_eq : field wave 20 2 = 1
  channels_eq : field wave 22 2 = channels
  rate_eq : field wave 24 4 = rate.toNat
  byteRate_eq : field wave 28 4 = rate.toNat * channels * width
  blockAlign_eq : field wave 32 2 = channels * width
  bits_eq : field wave 34 2 = 8 * width
  dataTag_eq : (wave.drop 36).take 4 = Bytes.ofAscii "data"
  dataLength_eq : field wave 40 4 = length

/-- The parts of a header, in order. -/
def Header.parts (h : Header) : List Bytes :=
  [Bytes.ofAscii "RIFF", Bytes.ofWord32 h.fileLength, Bytes.ofAscii "WAVE",
    Bytes.ofAscii "fmt ", Bytes.ofWord32 16, Bytes.ofWord16 1, Bytes.ofWord16 h.channels,
    Bytes.ofWord32 h.rate, Bytes.ofWord32 h.byteRate, Bytes.ofWord16 h.blockAlign,
    Bytes.ofWord16 h.bits, Bytes.ofAscii "data", Bytes.ofWord32 h.dataLength]

variable {h : Header} {data : Bytes}

theorem flatten_parts : h.parts.flatten = h.bytes := by
  simp [Header.parts, Header.bytes]

/-- The part of a header that stands at a place. -/
theorem take_drop_bytes {k offset width : Nat} {part : Bytes} (hpart : h.parts[k]? = some part)
    (hoffset : (h.parts.take k).flatten.length = offset) (hwidth : part.length = width) :
    ((h.bytes ++ data).drop offset).take width = part := by
  have hcut : h.parts = h.parts.take k ++ part :: h.parts.drop (k + 1) := by
    obtain ⟨hk, rfl⟩ := List.getElem?_eq_some_iff.1 hpart
    rw [List.getElem_cons_drop hk, List.take_append_drop]
  rw [← flatten_parts, hcut, List.flatten_append, List.flatten_cons, List.append_assoc,
    List.append_assoc, ← hoffset, List.drop_left, ← hwidth, List.take_left]

theorem length_bytes_append : (h.bytes ++ data).length = 44 + data.length := by
  rw [List.length_append, length_bytes, headerLength]

/-- Behind a header that describes some length stands a file that is labelled with it. -/
theorem labelled_bytes_append {length channels width : Nat} {rate : UInt32}
    (hdescribes : h.Describes length channels rate width) :
    Labelled (h.bytes ++ data) length channels rate width := by
  have word16 {k offset : Nat} {n : UInt16} (hpart : h.parts[k]? = some (Bytes.ofWord16 n))
      (hoffset : (h.parts.take k).flatten.length = offset) :
      field (h.bytes ++ data) offset 2 = n.toNat := by
    rw [field, take_drop_bytes hpart hoffset (Bytes.length_ofWord16 n), Bytes.little_ofWord16]
  have word32 {k offset : Nat} {n : UInt32} (hpart : h.parts[k]? = some (Bytes.ofWord32 n))
      (hoffset : (h.parts.take k).flatten.length = offset) :
      field (h.bytes ++ data) offset 4 = n.toNat := by
    rw [field, take_drop_bytes hpart hoffset (Bytes.length_ofWord32 n), Bytes.little_ofWord32]
  exact {
    riffTag_eq := take_drop_bytes (k := 0) rfl rfl rfl
    riffLength_eq := (word32 (k := 1) rfl rfl).trans hdescribes.fileLength_eq
    waveTag_eq := take_drop_bytes (k := 2) rfl rfl rfl
    formatTag_eq := take_drop_bytes (k := 3) rfl rfl rfl
    formatLength_eq := word32 (k := 4) rfl rfl
    coding_eq := word16 (k := 5) rfl rfl
    channels_eq := (word16 (k := 6) rfl rfl).trans hdescribes.channels_eq
    rate_eq := (word32 (k := 7) rfl rfl).trans (congrArg UInt32.toNat hdescribes.rate_eq)
    byteRate_eq := (word32 (k := 8) rfl rfl).trans hdescribes.byteRate_eq
    blockAlign_eq := (word16 (k := 9) rfl rfl).trans hdescribes.blockAlign_eq
    bits_eq := (word16 (k := 10) rfl rfl).trans hdescribes.bits_eq
    dataTag_eq := take_drop_bytes (k := 11) rfl rfl rfl
    dataLength_eq := (word32 (k := 12) rfl rfl).trans hdescribes.dataLength_eq }

theorem drop_bytes_append : (h.bytes ++ data).drop 44 = data := by
  have hlength : h.bytes.length = 44 := length_bytes h
  rw [← hlength, List.drop_left]

/-- A file that is labelled with the length of its data is in canonical form. -/
theorem Labelled.canonical {wave : Bytes} {channels width : Nat} {rate : UInt32}
    (hlabelled : Labelled wave data.length channels rate width)
    (hlength : wave.length = 44 + data.length) (hdata : wave.drop 44 = data) :
    Canonical wave channels rate width data where
  riffTag_eq := hlabelled.riffTag_eq
  riffLength_eq := hlabelled.riffLength_eq.trans (by omega)
  waveTag_eq := hlabelled.waveTag_eq
  formatTag_eq := hlabelled.formatTag_eq
  formatLength_eq := hlabelled.formatLength_eq
  coding_eq := hlabelled.coding_eq
  channels_eq := hlabelled.channels_eq
  rate_eq := hlabelled.rate_eq
  byteRate_eq := hlabelled.byteRate_eq
  blockAlign_eq := hlabelled.blockAlign_eq
  bits_eq := hlabelled.bits_eq
  dataTag_eq := hlabelled.dataTag_eq
  dataLength_eq := hlabelled.dataLength_eq.trans (by omega)
  data_eq := hdata

/-- A header and the data that it describes make a file in canonical form. -/
theorem canonical_bytes_append {channels width : Nat} {rate : UInt32}
    (hdescribes : h.Describes data.length channels rate width) :
    Canonical (h.bytes ++ data) channels rate width data :=
  (labelled_bytes_append hdescribes).canonical length_bytes_append drop_bytes_append

/-- **The file of some data is written in canonical form, if everything fits.** -/
theorem file_canonical {channels : Nat} {rate : UInt32} {bytes : UInt16} {data : Bytes}
    (hfits : Fits data.length channels rate bytes) :
    ∃ wave, file data (UInt16.ofNat channels) rate bytes = .ok wave ∧
      wave.length = 44 + data.length ∧ Canonical wave channels rate bytes.toNat data := by
  obtain ⟨h, hheader, hdescribes⟩ := header_describes hfits
  refine ⟨h.bytes ++ data, ?_, length_bytes_append, canonical_bytes_append hdescribes⟩
  rw [file, hheader]
  rfl

theorem onlyAborts_header {length : Nat} {channels bytes : UInt16} {rate : UInt32} :
    Outcome.OnlyAborts (header length channels rate bytes) :=
  .bind (.check _ _) fun _ ↦ .bind (.check _ _) fun _ ↦ .bind (.check _ _) fun _ ↦
    .bind (.check _ _) fun _ ↦ .ok _

/-- A file that is not written was aborted. -/
theorem onlyAborts_file {channels bytes : UInt16} {rate : UInt32} :
    Outcome.OnlyAborts (file data channels rate bytes) :=
  .bind onlyAborts_header fun _ ↦ .ok _

end Wave
end WaveMill
