import WaveMill.Proofs.Buffer.Interleave
import WaveMill.Proofs.Bytes.Reader
import WaveMill.Proofs.Outcome
import WaveMill.Proofs.Wave.Container
import WaveMill.Scan

/-!
# Plain samples, scanned

The scanner is run on a file of plain samples with a header that describes them.  It finds the
container at the very front, goes from chunk to chunk, and cuts the data into packets.  No packet
ends inside a frame, so cutting changes nothing: the samples are the values of the codes that stand
in the data, one after the other.

## What is here

* `Scan.nextChunk_append` — the head of a chunk that the container has room for.
* `Scan.Riff.readHeaders_parts` — the scanner understands a header that was written.
* `Scan.Track.decode_packets` — the packets of a track give the samples of the whole.
* `Scan.stream_bytes_append` — what the scanner takes out of a file.
-/

set_option autoImplicit false
namespace WaveMill
namespace Scan

open Reader

variable {h : Wave.Header} {length channels width : Nat} {rate : UInt32} {rest : Bytes}

/-! ## Single steps -/

theorem require_of {condition : Prop} [Decidable condition] {bytes : Bytes} (h : condition) :
    require condition bytes = .ok ((), bytes) := by
  rw [require, if_pos h]
  rfl

theorem abortIf_of_not {condition : Prop} [Decidable condition] {abort : Abort} {bytes : Bytes}
    (h : ¬ condition) : abortIf condition abort bytes = .ok ((), bytes) := by
  rw [abortIf, if_neg h]
  rfl

theorem take_of_length {n : Nat} {head : Bytes} (h : head.length = n) :
    take n (head ++ rest) = .ok (head, rest) :=
  Reader.take_of_length h

theorem skip_of_length {n : Nat} {head : Bytes} (h : head.length = n) :
    skip n (head ++ rest) = .ok ((), rest) :=
  Reader.skip_of_length h

theorem word_ofWord16 (n : UInt16) :
    word .little 2 (Bytes.ofWord16 n ++ rest) = .ok (n.toNat, rest) := by
  rw [← Bytes.little_ofWord16]
  exact map_of_ok (take_of_length (Bytes.length_ofWord16 n))

theorem word_ofWord32 (n : UInt32) :
    word .little 4 (Bytes.ofWord32 n ++ rest) = .ok (n.toNat, rest) := by
  rw [← Bytes.little_ofWord32]
  exact map_of_ok (take_of_length (Bytes.length_ofWord32 n))

theorem align_of_even {used : Nat} {bytes : Bytes} (h : used % 2 = 0) :
    align used bytes = .ok (used, bytes) := by
  rw [align, if_pos h]
  rfl

/-- The head of a chunk that begins at an even place and does not go beyond its container. -/
theorem nextChunk_append {tag : Bytes} {n : UInt32} {limit used : Nat} (htag : tag.length = 4)
    (heven : used % 2 = 0) (hlimit : limit ≤ longest) (hroom : used + 8 + n.toNat ≤ limit) :
    nextChunk .little limit used (tag ++ (Bytes.ofWord32 n ++ rest)) =
      .ok ((some ⟨tag, n.toNat⟩, used + 8 + n.toNat), rest) := by
  rw [nextChunk, bind_of_ok (align_of_even heven), bind_of_ok (abortIf_of_not (by omega)),
    if_neg (by omega), bind_of_ok (take_of_length htag), bind_of_ok (word_ofWord32 n),
    bind_of_ok (require_of (.inl (by omega))), Nat.min_eq_left (by omega)]
  rfl

/-! ## The headers -/

/-- The coding of plain samples. -/
def Coding.plain (width : Nat) : Coding := if width = 2 then .signed 16 .little else .offset8

theorem Coding.width_plain (hwidth : width = 1 ∨ width = 2) :
    (Coding.plain width).width = width := by
  rcases hwidth with rfl | rfl <;> rfl

theorem Coding.room_plain (hwidth : width = 1 ∨ width = 2) :
    (Coding.plain width).room = 8 * width := by
  rcases hwidth with rfl | rfl <;> rfl

/-- The track of plain samples. -/
def Track.plain (channels : Nat) (rate : UInt32) (width : Nat) : Track where
  channels := channels
  rate := rate
  storage := .plain (.plain width)
  blockAlign := channels * width
  blockFrames := 1
  toldBits := 8 * width

namespace Riff

theorem readIntegers_plain (hwidth : width = 1 ∨ width = 2) :
    readIntegers 16 (8 * width) rest = .ok (.plain width, rest) := by
  rcases hwidth with rfl | rfl <;> rfl

/-- The track that the description of plain samples names. -/
theorem readFormat_parts (hdescribes : h.Describes length channels rate width)
    (hchannels : 1 ≤ channels ∧ channels ≤ maxChannels) (hwidth : width = 1 ∨ width = 2)
    (hrate : 0 < rate) (told : Nat) :
    readFormat told 16 (Bytes.ofWord16 1 ++ (Bytes.ofWord16 h.channels ++ (Bytes.ofWord32 h.rate ++
      (Bytes.ofWord32 h.byteRate ++ (Bytes.ofWord16 h.blockAlign ++
        (Bytes.ofWord16 h.bits ++ rest)))))) = .ok (.plain channels rate width, rest) := by
  have htag : UInt16.toNat 1 = 1 := rfl
  have hnat : UInt32.ofNat rate.toNat = rate := UInt32.ofNat_toNat
  rw [readFormat, bind_of_ok (require_of (by omega)), bind_of_ok (word_ofWord16 1),
    bind_of_ok (word_ofWord16 _), bind_of_ok (word_ofWord32 _),
    bind_of_ok (skip_of_length (Bytes.length_ofWord32 _)), bind_of_ok (word_ofWord16 _),
    bind_of_ok (word_ofWord16 _), hdescribes.channels_eq, hdescribes.blockAlign_eq,
    hdescribes.bits_eq, hdescribes.rate_eq]
  simp only [htag, hnat]
  rw [bind_of_ok (readIntegers_plain hwidth), requireChannels,
    bind_of_ok (require_of hchannels), requireRate,
    bind_of_ok (abortIf_of_not (by rintro rfl; simp at hrate))]
  rfl

/-- Behind the description come the data. -/
theorem findData_parts (hdescribes : h.Describes length channels rate width)
    (hchannels : 1 ≤ channels ∧ channels ≤ maxChannels) (hwidth : width = 1 ∨ width = 2)
    (hrate : 0 < rate) (hlength : 36 + length ≤ longest) (fuel : Nat) :
    findData (36 + length) (fuel + 2) 0 none (Bytes.ofAscii "fmt " ++ (Bytes.ofWord32 16 ++
      (Bytes.ofWord16 1 ++ (Bytes.ofWord16 h.channels ++ (Bytes.ofWord32 h.rate ++
        (Bytes.ofWord32 h.byteRate ++ (Bytes.ofWord16 h.blockAlign ++ (Bytes.ofWord16 h.bits ++
          (Bytes.ofAscii "data" ++ (Bytes.ofWord32 h.dataLength ++ rest)))))))))) =
      .ok ((some (.plain channels rate width), length), rest) := by
  have h16 : UInt32.toNat 16 = 16 := rfl
  have hdata := hdescribes.dataLength_eq
  rw [findData, bind_of_ok (nextChunk_append rfl rfl hlength (by omega))]
  dsimp only
  rw [if_pos rfl, h16, bind_of_ok (readFormat_parts hdescribes hchannels hwidth hrate _), findData,
    bind_of_ok (nextChunk_append rfl rfl hlength (by omega))]
  dsimp only
  rw [if_neg (by decide), if_pos rfl, hdata]
  rfl

/-- **The scanner understands the header that was written.** -/
theorem readHeaders_parts (hdescribes : h.Describes length channels rate width)
    (hchannels : 1 ≤ channels ∧ channels ≤ maxChannels) (hwidth : width = 1 ∨ width = 2)
    (hrate : 0 < rate) (hlength : 36 + length ≤ longest) :
    readHeaders (Bytes.ofWord32 h.fileLength ++ (Bytes.ofAscii "WAVE" ++ (Bytes.ofAscii "fmt " ++
      (Bytes.ofWord32 16 ++ (Bytes.ofWord16 1 ++ (Bytes.ofWord16 h.channels ++
        (Bytes.ofWord32 h.rate ++ (Bytes.ofWord32 h.byteRate ++ (Bytes.ofWord16 h.blockAlign ++
          (Bytes.ofWord16 h.bits ++ (Bytes.ofAscii "data" ++
            (Bytes.ofWord32 h.dataLength ++ rest)))))))))))) =
      .ok ((some (.plain channels rate width), length), rest) := by
  have hwave : (Bytes.ofAscii "WAVE").length = 4 := rfl
  have hfuel (tail : Bytes) : (Bytes.ofAscii "fmt " ++ tail).length + 1 = tail.length + 3 + 2 := by
    rw [List.length_append, show (Bytes.ofAscii "fmt ").length = 4 from rfl]
    omega
  have hrest (bytes : Bytes) : (Reader.rest : Walk Bytes) bytes = .ok (bytes, bytes) := rfl
  rw [readHeaders, bind_of_ok (word_ofWord32 _), bind_of_ok (take_of_length hwave),
    bind_of_ok (require_of rfl), bind_of_ok (hrest _), hfuel, hdescribes.fileLength_eq]
  exact findData_parts hdescribes hchannels hwidth hrate hlength _

end Riff

/-! ## Packets -/

section Packets

variable {track : Track} {coding : Coding} {codes : List Bytes} {blocks : Nat}

theorem packets_of_end {size most : Nat} {bytes : Bytes}
    (hend : min blocks most * size = 0 ∨ bytes = []) : packets size most blocks bytes = [] := by
  rw [packets, dif_pos hend]

/-- The first packet is as long as a packet can be. -/
theorem packets_append {size most count : Nat} {head : Bytes} (hcount : min blocks most = count)
    (hhead : head.length = count * size) (hpos : 0 < count * size) :
    packets size most blocks (head ++ rest) =
      (count, head) :: packets size most (blocks - count) rest := by
  have hmore : ¬(min blocks most * size = 0 ∨ head ++ rest = []) := by
    rw [hcount, ← hhead, List.length_eq_zero_iff, List.append_eq_nil_iff]
    rintro (rfl | ⟨rfl, -⟩) <;> rw [← hhead] at hpos <;> exact absurd hpos (Nat.lt_irrefl 0)
  subst hcount
  rw [packets, dif_neg hmore]
  simp only [List.take_left' hhead, List.drop_left' hhead]

/-- A packet of whole frames gives the values of its codes. -/
theorem Track.decode_cons (hstorage : track.storage = .plain coding)
    (hpos : 0 < track.channels * coding.width) (hwidth : ∀ code ∈ codes, code.length = coding.width)
    (hcodes : codes.length = blocks * track.channels) (hblocks : blocks ≤ packetFrames)
    (later : List (Nat × Bytes)) (done : Array Float32) :
    track.decode ((blocks, codes.flatten) :: later) done =
      track.decode later (done ++ (codes.map coding.value).toArray) := by
  have hframes : min packetFrames (codes.flatten.length / (track.channels * coding.width)) =
      blocks := by
    rw [Bytes.length_flatten_of_length hwidth, hcodes, Nat.mul_assoc, Nat.mul_div_cancel _ hpos,
      Nat.min_eq_right hblocks]
  rw [Track.decode, hstorage]
  simp only [hframes, ← hcodes, Bytes.readMany_flatten hwidth, Outcome.ok_bind]

/-- **Cutting into packets changes nothing.**  As long as the bytes are whole frames, all of their
codes are read, one after the other. -/
theorem Track.decode_packets (hstorage : track.storage = .plain coding)
    (hpos : 0 < track.channels * coding.width) (hwidth : ∀ code ∈ codes, code.length = coding.width)
    (hcodes : codes.length = blocks * track.channels) (done : Array Float32) :
    track.decode (packets (track.channels * coding.width) packetFrames blocks codes.flatten) done =
      .ok (done ++ (codes.map coding.value).toArray) := by
  induction blocks using Nat.strong_induction_on generalizing codes done with
  | h blocks ih =>
    obtain rfl | hsome := Nat.eq_zero_or_pos blocks
    · rw [Nat.zero_mul] at hcodes
      rw [packets_of_end (.inl (by rw [Nat.zero_min, Nat.zero_mul])),
        List.length_eq_zero_iff.1 hcodes]
      simp [Track.decode]
    · -- the first packet takes its codes away, and what is left are whole frames again
      obtain ⟨count, hcount⟩ : ∃ count, min blocks packetFrames = count := ⟨_, rfl⟩
      have hpositive : 0 < count := by rw [← hcount, packetFrames]; omega
      obtain ⟨first, later, rfl, hfirst⟩ : ∃ first later, codes = first ++ later ∧
          first.length = count * track.channels := by
        refine ⟨_, _, (List.take_append_drop (count * track.channels) codes).symm, ?_⟩
        rw [List.length_take, hcodes]
        exact Nat.min_eq_left (Nat.mul_le_mul_right _ (by omega))
      obtain ⟨hwidthFirst, hwidthLater⟩ := List.forall_mem_append.1 hwidth
      have hbytes : first.flatten.length = count * (track.channels * coding.width) := by
        rw [Bytes.length_flatten_of_length hwidthFirst, hfirst, Nat.mul_assoc]
      have hlater : later.length = (blocks - count) * track.channels := by
        rw [List.length_append, hfirst] at hcodes
        rw [Nat.sub_mul]
        omega
      rw [List.flatten_append, packets_append hcount hbytes (Nat.mul_pos hpositive hpos),
        Track.decode_cons hstorage hpos hwidthFirst hfirst (by omega),
        ih (blocks - count) (by omega) hwidthLater hlater]
      simp

theorem Track.samples_of_decoder (hdecoder : track.requireDecoder = .ok ())
    (halign : track.blockAlign ≠ 0) (region : Bytes) :
    track.samples length region =
      track.decode (packets track.blockAlign track.packetBlocks (length / track.blockAlign) region)
        #[] := by
  rw [Track.samples, hdecoder, Outcome.ok_bind]
  exact if_neg halign

theorem Track.decoder_plain (hpos : 0 < channels) (hwidth : width = 1 ∨ width = 2) :
    Track.requireDecoder (.plain channels rate width) = .ok () := by
  simp [Track.requireDecoder, Track.plain, Coding.room_plain hwidth, Nat.ne_of_gt hpos]

theorem Track.packetBlocks_plain :
    (Track.plain channels rate width).packetBlocks = packetFrames := by
  simp [Track.packetBlocks, Track.plain, packetFrames]

/-- The samples of a track with plain samples. -/
theorem Track.samples_plain (hpos : 0 < channels) (hwidth : width = 1 ∨ width = 2)
    (hcode : ∀ code ∈ codes, code.length = width) (hcodes : codes.length = blocks * channels) :
    (Track.plain channels rate width).samples codes.flatten.length codes.flatten =
      .ok (codes.map (Coding.plain width).value).toArray := by
  have hplain := Coding.width_plain hwidth
  have hsize : 0 < channels * width := Nat.mul_pos hpos (by omega)
  have hblocks : codes.flatten.length / (channels * width) = blocks := by
    rw [Bytes.length_flatten_of_length hcode, hcodes, Nat.mul_assoc, Nat.mul_div_cancel _ hsize]
  have hstorage : (Track.plain channels rate width).storage = .plain (.plain width) := rfl
  have hdecode := Track.decode_packets hstorage (by rw [hplain]; exact hsize) (by rwa [hplain])
    hcodes #[]
  rw [hplain, Array.empty_append] at hdecode
  rw [Track.samples_of_decoder (Track.decoder_plain hpos hwidth) (Nat.ne_of_gt hsize),
    Track.packetBlocks_plain]
  exact (congrArg (fun n ↦ Track.decode _ (packets _ _ n _) #[]) hblocks).trans hdecode

end Packets

/-! ## The whole file -/

theorem locate_bytes_append {data : Bytes} :
    locate (h.bytes ++ data) = .ok (.riff, h.bytes ++ data) := by
  have hlong : windowLength ≤ (h.bytes ++ data).length := by
    rw [Wave.length_bytes_append, windowLength]
    omega
  have hfind : find (h.bytes ++ data) = some (.container .riff, h.bytes ++ data) := by
    simp only [Wave.Header.bytes, List.append_assoc]
    rfl
  rw [locate, locateIn, hfind]
  dsimp only
  rw [if_neg (by rw [List.length_take]; omega)]

theorem readHeaders_bytes_append (data : Bytes)
    (hdescribes : h.Describes length channels rate width)
    (hchannels : 1 ≤ channels ∧ channels ≤ maxChannels) (hwidth : width = 1 ∨ width = 2)
    (hrate : 0 < rate) (hlength : 36 + length ≤ longest) :
    ∃ headers, headers? .riff = some headers ∧ headers.run (h.bytes ++ data) =
      .ok ((some (.plain channels rate width), length), data) := by
  have hriff : (Bytes.ofAscii "RIFF").length = 4 := rfl
  refine ⟨_, rfl, ?_⟩
  show (skip 4 >>= fun _ ↦ Riff.readHeaders) (h.bytes ++ data) = _
  simp only [Wave.Header.bytes, List.append_assoc]
  rw [bind_of_ok (skip_of_length hriff)]
  exact Riff.readHeaders_parts hdescribes hchannels hwidth hrate hlength

/-- **The scanner hands out the values of the codes behind a header**, with the rate and the number
of channels that it tells.  It needs no library for that. -/
theorem stream_bytes_append {codes : List Bytes} {blocks : Nat}
    (hdescribes : h.Describes codes.flatten.length channels rate width)
    (hchannels : 1 ≤ channels ∧ channels ≤ maxChannels) (hwidth : width = 1 ∨ width = 2)
    (hrate : 0 < rate) (hlength : 36 + codes.flatten.length ≤ longest)
    (hcode : ∀ code ∈ codes, code.length = width) (hcodes : codes.length = blocks * channels)
    (library : Scanner) (hint : Option String) :
    let samples := (codes.map (Coding.plain width).value).toArray
    stream library hint (h.bytes ++ codes.flatten) =
      .ok ⟨rate, channels, [.decoded rate channels samples], none⟩ := by
  obtain ⟨headers, hheaders, hread⟩ :=
    readHeaders_bytes_append codes.flatten hdescribes hchannels hwidth hrate hlength
  rw [stream, locate_bytes_append, Outcome.ok_bind]
  dsimp only
  rw [hheaders]
  dsimp only
  rw [readSamples, hread, Outcome.ok_bind]
  dsimp only
  rw [Track.samples_plain hchannels.1 hwidth hcode hcodes, Outcome.ok_bind, Outcome.pure_eq_ok,
    Outcome.ok_bind, Outcome.pure_eq_ok]
  rfl

end Scan
end WaveMill
