import WaveMill.Convert
import WaveMill.Proofs.Buffer.Interleave
import WaveMill.Proofs.Bytes.Reader
import WaveMill.Proofs.Number.Exact
import WaveMill.Proofs.Wave.Container
import WaveMill.Wave.Reader

/-!
# What is written is read back

The strict reader is run on a file that was just written.  It finds the description that the header
gives, goes on to the data behind it, and reads one value for every code.  The values fall into the
channels that the codes were taken from, and each of them is its code divided by half the range of
its width, without any rounding.

## What is here

* `Wave.readHeaders_bytes_append` — the reader understands a header that was written, field by
  field.
* `Wave.readSamples_flatten` — it reads one value for every code.
* `Wave.decode_bytes_append` — so a file of codes is read as the buffer of their values.
* `Wave.decode_header` — and the file of a buffer as the buffer in which every sample went through
  its code.
* `Wave.decode_render` — the same for the whole chain, with the values spelled out.
-/

set_option autoImplicit false
namespace WaveMill
namespace Wave

open Reader

/-! ## The header -/

variable {h : Header} {length channels width : Nat} {rate : UInt32} {rest : Bytes}

theorem refuse_of_not {condition : Prop} [Decidable condition] {flaw : Flaw} {bytes : Bytes}
    (hnot : ¬ condition) : refuse condition flaw bytes = .ok ((), bytes) := by
  rw [refuse, if_neg hnot]
  rfl

theorem word_ofWord16 (n : UInt16) : word 2 (Bytes.ofWord16 n ++ rest) = .ok (n.toNat, rest) := by
  rw [word, little_of_length (Bytes.length_ofWord16 n), Bytes.little_ofWord16]

theorem word_ofWord32 (n : UInt32) : word 4 (Bytes.ofWord32 n ++ rest) = .ok (n.toNat, rest) := by
  rw [word, little_of_length (Bytes.length_ofWord32 n), Bytes.little_ofWord32]

/-- The description of plain samples. -/
def plain (channels : Nat) (rate : UInt32) (width : Nat) : Format where
  kind := .integer
  channels := channels
  rate := rate
  bits := 8 * width
  width := width

/-- None of the checks on a description refuses that of plain samples. -/
theorem readFormat_parts (hdescribes : h.Describes length channels rate width)
    (hchannels : 0 < channels) (hwidth : width = 1 ∨ width = 2) :
    readFormat 16 (Bytes.ofWord16 1 ++ (Bytes.ofWord16 h.channels ++ (Bytes.ofWord32 h.rate ++
      (Bytes.ofWord32 h.byteRate ++ (Bytes.ofWord16 h.blockAlign ++
        (Bytes.ofWord16 h.bits ++ rest)))))) = .ok (plain channels rate width, rest) := by
  have hquotient : channels * width / channels = width := Nat.mul_div_cancel_left _ hchannels
  have hbytes : rate.toNat * channels * width = channels * width * rate.toNat := by
    rw [Nat.mul_assoc, Nat.mul_comm]
  rw [readFormat, bind_of_ok (refuse_of_not (by omega)), bind_of_ok (word_ofWord16 1),
    bind_of_ok (word_ofWord16 _), bind_of_ok (word_ofWord32 _), bind_of_ok (word_ofWord32 _),
    bind_of_ok (word_ofWord16 _), bind_of_ok (word_ofWord16 _), hdescribes.channels_eq,
    hdescribes.blockAlign_eq, hdescribes.bits_eq, hdescribes.rate_eq, hdescribes.byteRate_eq]
  simp only [hquotient]
  rw [bind_of_ok (refuse_of_not (by omega)), bind_of_ok (refuse_of_not (by omega)),
    bind_of_ok (refuse_of_not (by omega)), bind_of_ok (refuse_of_not (by omega)),
    bind_of_ok (refuse_of_not (by omega))]
  have hrate : UInt32.ofNat rate.toNat = rate := UInt32.ofNat_toNat
  have htag : UInt16.toNat 1 = 1 := rfl
  have htail : readIntegerTail 16 (8 * width) rest = .ok ((), rest) := rfl
  simp only [htag, hrate]
  rw [bind_of_ok htail]
  rfl

/-- Behind the description come the data. -/
theorem findData_parts (hdescribes : h.Describes length channels rate width)
    (hchannels : 0 < channels) (hwidth : width = 1 ∨ width = 2) (fuel : Nat) :
    findData (fuel + 2) none (Bytes.ofAscii "fmt " ++ (Bytes.ofWord32 16 ++ (Bytes.ofWord16 1 ++
      (Bytes.ofWord16 h.channels ++ (Bytes.ofWord32 h.rate ++ (Bytes.ofWord32 h.byteRate ++
        (Bytes.ofWord16 h.blockAlign ++ (Bytes.ofWord16 h.bits ++ (Bytes.ofAscii "data" ++
          (Bytes.ofWord32 h.dataLength ++ rest)))))))))) =
      .ok ((plain channels rate width, length), rest) := by
  have hformat : (Bytes.ofAscii "fmt ").length = 4 := rfl
  have hdata : (Bytes.ofAscii "data").length = 4 := rfl
  have hlength : UInt32.toNat 16 = 16 := rfl
  rw [findData, bind_of_ok (take_of_length hformat), bind_of_ok (word_ofWord32 16), if_pos rfl,
    hlength, bind_of_ok (readFormat_parts hdescribes hchannels hwidth), findData,
    bind_of_ok (take_of_length hdata), bind_of_ok (word_ofWord32 _), if_neg (by decide),
    if_neg (by decide), if_pos rfl, hdescribes.dataLength_eq]
  rfl

/-- **The reader understands the header that was written.** -/
theorem readHeaders_bytes_append {data : Bytes}
    (hdescribes : h.Describes data.length channels rate width)
    (hchannels : 0 < channels) (hwidth : width = 1 ∨ width = 2) {samples : Nat}
    (hwhole : data.length = samples * width) (hframes : samples % channels = 0) :
    readHeaders.run (h.bytes ++ data) = .ok ((plain channels rate width, samples), data) := by
  have hriff : (Bytes.ofAscii "RIFF").length = 4 := rfl
  have hwave : (Bytes.ofAscii "WAVE").length = 4 := rfl
  have hformat : (Bytes.ofAscii "fmt ").length = 4 := rfl
  have hfuel (tail : Bytes) : (Bytes.ofAscii "fmt " ++ tail).length + 1 = tail.length + 3 + 2 := by
    rw [List.length_append, hformat]
    omega
  have hrest (bytes : Bytes) : (Reader.rest : Reader Fault Bytes) bytes = .ok (bytes, bytes) := rfl
  have hsamples : data.length / (plain channels rate width).width = samples := by
    rw [hwhole]
    exact Nat.mul_div_cancel _ (by omega)
  have hwholeSamples : data.length % (plain channels rate width).width = 0 := by
    rw [hwhole]
    exact Nat.mul_mod_left _ _
  have hwholeFrames : data.length / (plain channels rate width).width %
      (plain channels rate width).channels = 0 := by
    rw [hsamples]
    exact hframes
  show readHeaders (h.bytes ++ data) = _
  simp only [Header.bytes, List.append_assoc]
  rw [readHeaders, bind_of_ok (take_of_length hriff), bind_of_ok (refuse_of_not (by simp)),
    bind_of_ok (word_ofWord32 _), bind_of_ok (take_of_length hwave),
    bind_of_ok (refuse_of_not (by simp))]
  rw [bind_of_ok (hrest _), hfuel, bind_of_ok (findData_parts hdescribes hchannels hwidth _)]
  refine (bind_of_ok (refuse_of_not (not_not.2 hwholeSamples))).trans ?_
  refine (bind_of_ok (refuse_of_not (not_not.2 hwholeFrames))).trans ?_
  rw [hsamples]
  rfl

/-! ## The samples -/

/-- The coding of the samples that are written. -/
def Coding.ofWidth (bytes : UInt16) : Coding := if bytes = 2 then .integer16 else .integer8

/-- A sample after it was written with the given width and read again. -/
def throughCode (bytes : UInt16) (x : Float32) : Float32 :=
  (Coding.ofWidth bytes).value (Quantize.encode bytes x)

variable {b : Buffer} {bytes : UInt16}

theorem coding_of_width (hwidth : bytes = 1 ∨ bytes = 2) :
    Coding.of? .integer (8 * bytes.toNat) = some (Coding.ofWidth bytes) := by
  rcases hwidth with rfl | rfl
  · rfl
  · rfl

theorem checkWidth_of_width (hwidth : bytes = 1 ∨ bytes = 2) :
    (Coding.ofWidth bytes).checkWidth bytes.toNat = .ok () := by
  rcases hwidth with rfl | rfl
  · rfl
  · rfl

/-- The reader finds one value for every code. -/
theorem readSamples_flatten {codes : List Bytes} (hwidth : bytes = 1 ∨ bytes = 2)
    (hcode : ∀ code ∈ codes, code.length = bytes.toNat) :
    readSamples (Coding.ofWidth bytes) bytes.toNat codes.length codes.flatten =
      .ok (codes.map (Coding.ofWidth bytes).value).toArray := by
  rw [readSamples]
  split
  case isTrue hnone =>
    rw [List.length_eq_zero_iff.1 hnone]
    rfl
  case isFalse =>
    rw [checkWidth_of_width hwidth, Outcome.ok_bind, Bytes.readMany_flatten hcode,
      Array.empty_append]

theorem signed_toNat (v : Int16) : Bytes.signed v.toUInt16.toNat 16 = v.toInt := by
  have hlt := v.toUInt16.toNat_lt
  have hcond : v.toInt = if 2 * v.toUInt16.toNat < 65536 then (v.toUInt16.toNat : Int)
      else (v.toUInt16.toNat : Int) - 65536 := BitVec.toInt_eq_toNat_cond v.toBitVec
  rw [hcond, Bytes.signed]
  norm_num
  split_ifs <;> omega

/-- A sample of two bytes is read as its signed code divided by `32768`. -/
theorem value?_throughCode_two (x : Float32) :
    Number.value? (throughCode 2 x) = some ((Quantize.code16 x).toInt / 32768 : ℚ) := by
  have hsmall : (Quantize.code16 x).toInt.natAbs < 2 ^ 24 := by
    have hlow := (Quantize.code16 x).le_toInt
    have hhigh := (Quantize.code16 x).toInt_lt
    omega
  have hthrough : throughCode 2 x =
      Number.ofInt32 (Quantize.code16 x).toInt / Number.ofInt32 (2 ^ 15 : Nat) := by
    show fraction 16 (Bytes.ofWord16 (Quantize.code16 x).toUInt16) = _
    rw [fraction, Bytes.little_ofWord16, signed_toNat]
    rfl
  rw [hthrough, Number.value?_ofInt32_div hsmall (by omega)]
  norm_num

/-- A sample of one byte is read as its code less `128`, divided by `128`. -/
theorem value?_throughCode_one (x : Float32) :
    Number.value? (throughCode 1 x) = some (((Quantize.code8 x).toNat - 128 : Int) / 128 : ℚ) := by
  have hsmall : ((Quantize.code8 x).toNat - 128 : Int).natAbs < 2 ^ 24 := by
    have hlt := (Quantize.code8 x).toNat_lt
    omega
  have hthrough : throughCode 1 x =
      Number.ofInt32 ((Quantize.code8 x).toNat - 128 : Int) / Number.ofInt32 (2 ^ 7 : Nat) := by
    rfl
  rw [hthrough, Number.value?_ofInt32_div hsmall (by omega)]
  norm_num

/-! ## The whole file -/

/-- A file of codes is read as the buffer of their values. -/
theorem decode_bytes_append {codes : List Bytes} {layout : Layout} (name : String)
    (hwidth : bytes = 1 ∨ bytes = 2)
    (hdescribes : h.Describes codes.flatten.length layout.count rate bytes.toNat)
    (hcode : ∀ code ∈ codes, code.length = bytes.toNat) (hframes : codes.length % layout.count = 0)
    (hbuffer : Buffer.ofInterleaved (codes.map (Coding.ofWidth bytes).value).toArray layout rate =
      .ok b) :
    decode name (h.bytes ++ codes.flatten) = .ok b := by
  have hcount : 0 < layout.count := by cases layout <;> decide
  have hlayout : Layout.ofCount? layout.count = some layout := Layout.ofCount?_eq_some_iff.2 rfl
  have hheaders := readHeaders_bytes_append hdescribes hcount (Buffer.toNat_width hwidth)
    (Bytes.length_flatten_of_length hcode) hframes
  have hcontents : contents name (h.bytes ++ codes.flatten) =
      .ok ⟨(codes.map (Coding.ofWidth bytes).value).toArray, layout, rate⟩ := by
    rw [contents, hheaders]
    simp only [plain, hlayout, coding_of_width hwidth, readSamples_flatten hwidth hcode]
  rw [decode, hcontents, Outcome.ok_bind, Buffer.ofContents, hbuffer]
  rfl

/-- **The file of a buffer is read as the buffer in which every sample went through its code.** -/
theorem decode_header {data : Bytes} (name : String) (hwidth : bytes = 1 ∨ bytes = 2)
    (hdata : b.quantize bytes = .ok data)
    (hdescribes : h.Describes data.length b.channels.length b.rate bytes.toNat) :
    decode name (h.bytes ++ data) = .ok (b.mapSamples (throughCode bytes)) := by
  obtain ⟨layout, hcount⟩ : ∃ layout : Layout, layout.count = b.channels.length := by
    rcases b.length_channels_eq_or with hone | htwo
    · exact ⟨.mono, hone.symm⟩
    · exact ⟨.stereo, htwo.symm⟩
  have hcodes : data = (b.interleave.toList.map (Quantize.encode bytes)).flatten := by
    rw [← List.flatMap_def]
    exact Except.ok.inj (hdata.symm.trans (Buffer.quantize_eq hwidth))
  have hvalues : ((b.interleave.toList.map (Quantize.encode bytes)).map
      (Coding.ofWidth bytes).value).toArray = b.interleave.map (throughCode bytes) := by
    apply Array.toList_inj.1
    rw [List.map_map, Array.toList_map]
    rfl
  subst hcodes
  rw [← hcount] at hdescribes
  refine decode_bytes_append name hwidth hdescribes ?_ ?_ ?_
  · exact List.forall_mem_map.2 fun x _ ↦ Buffer.length_encode hwidth x
  · simp [hcount]
  · rw [hvalues, Buffer.ofInterleaved_map_interleave hcount]

/-- The header of at most two channels of plain samples fits if its largest numbers do. -/
theorem fits_of_channels_le (hchannels : channels ≤ 2) (hwidth : bytes = 1 ∨ bytes = 2)
    (hlength : length ≤ 2 ^ 32 - 37) (hrate : rate.toNat * channels * bytes.toNat < 2 ^ 32) :
    Fits length channels rate bytes := by
  have hnat := Buffer.toNat_width hwidth
  have halign : channels * bytes.toNat ≤ 2 * 2 := Nat.mul_le_mul hchannels (by omega)
  constructor
  · simp only [UInt16.size]; omega
  · simp only [UInt16.size]; omega
  · simp only [UInt16.size]; omega
  · exact hrate
  · simp only [UInt32.size]; omega

theorem fits_of_le (hwidth : bytes = 1 ∨ bytes = 2) {length : Nat} (hlength : length ≤ 2 ^ 32 - 37)
    (hrate : b.rate.toNat * b.channels.length * bytes.toNat < 2 ^ 32) :
    Fits length b.channels.length b.rate bytes :=
  fits_of_channels_le b.length_channels_le hwidth hlength hrate

/-- **A buffer that is written as a wave file and read again is the buffer of its codes.**  It has
its rate, its channels and its length, and every sample in it is its code divided by half the range
of the width, as a number and without a rounding error.  The codes are those that stand in the data,
each at the place of its sample. -/
theorem decode_render (name : String) (hwidth : bytes = 1 ∨ bytes = 2)
    (hlength : b.frames * b.channels.length * bytes.toNat ≤ 2 ^ 32 - 37)
    (hrate : b.rate.toNat * b.channels.length * bytes.toNat < 2 ^ 32) :
    ∃ data wave decoded, b.quantize bytes = .ok data ∧ b.render bytes = .ok wave ∧
      decode name wave = .ok decoded ∧ decoded.rate = b.rate ∧
      decoded.channels.length = b.channels.length ∧ decoded.frames = b.frames ∧
      ∀ c < b.channels.length, ∀ i < b.frames,
        let code := (data.drop ((i * b.channels.length + c) * bytes.toNat)).take bytes.toNat
        (bytes = 2 → code = Bytes.ofWord16 (Quantize.code16 (b.sample c i)).toUInt16 ∧
          Number.value? (decoded.sample c i) =
            some ((Quantize.code16 (b.sample c i)).toInt / 32768 : ℚ)) ∧
        (bytes = 1 → code = [Quantize.code8 (b.sample c i)] ∧
          Number.value? (decoded.sample c i) =
            some (((Quantize.code8 (b.sample c i)).toNat - 128 : Int) / 128 : ℚ)) := by
  obtain ⟨data, hdata⟩ : ∃ data, b.quantize bytes = .ok data := ⟨_, b.quantize_eq hwidth⟩
  have hdataLength := Buffer.length_quantize hwidth hdata
  obtain ⟨h, hheader, hdescribes⟩ := header_describes
    (fits_of_le (b := b) hwidth (hdataLength.trans_le hlength) hrate)
  have hrender : b.render bytes = .ok (h.bytes ++ data) := by
    rw [Buffer.render, hdata, Outcome.ok_bind, file, hheader]
    rfl
  refine ⟨_, _, _, hdata, hrender, decode_header name hwidth hdata hdescribes,
    Buffer.rate_mapSamples, Buffer.length_channels_mapSamples, Buffer.frames_mapSamples,
    fun c hc i hi ↦ ?_⟩
  have hcode := Buffer.take_drop_quantize hwidth hdata hc hi
  rw [Buffer.sample_mapSamples hc hi]
  constructor
  · rintro rfl
    exact ⟨hcode, value?_throughCode_two _⟩
  · rintro rfl
    exact ⟨hcode, value?_throughCode_one _⟩

/-- Two frames of two channels. -/
def crossing : Buffer where
  channels := [#[1, 0], #[-1, 0.5]]
  rate := 44100
  channels_ne_nil := List.cons_ne_nil _ _
  length_channels_le := by decide
  size_eq := by decide
  rate_pos := by decide

theorem decode_render_crossing :
    ∃ wave decoded, crossing.render 2 = .ok wave ∧ decode "crossing.wav" wave = .ok decoded ∧
      decoded.frames = 2 ∧ Number.value? (decoded.sample 1 0) = some (-32767 / 32768 : ℚ) := by
  obtain ⟨data, wave, decoded, -, hrender, hdecode, -, -, hframes, hsamples⟩ :=
    decode_render (b := crossing) "crossing.wav" (.inr rfl) (by decide) (by decide)
  have hcode : (Quantize.code16 (crossing.sample 1 0)).toInt = -32767 := by decide +kernel
  refine ⟨wave, decoded, hrender, hdecode, hframes, ?_⟩
  rw [((hsamples 1 (by decide) 0 (by decide)).1 rfl).2, hcode]
  norm_num

end Wave
end WaveMill
