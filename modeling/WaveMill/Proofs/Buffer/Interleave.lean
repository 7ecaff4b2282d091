import Mathlib.Data.List.OfFn
import WaveMill.Quantize

/-!
# The order of a file

Sample `j` of a buffer of `n` channels, in the order of a file, is sample `j / n` of channel
`j % n`.  Both directions are worked out here: what is written is the samples in that order, each
coded on its own, and what is read back in that order falls into the same channels.

## What is here

* `Buffer.sample` — one sample of a buffer.
* `Buffer.ofInterleaved_map_interleave` — samples that were changed one by one while they were in
  the order of a file make the buffer in which they were changed.
* `Buffer.exists_ofInterleaved` — all samples that are whole frames make a buffer.
* `Buffer.ofInterleaved_inverse` — both directions are inverse, where they do not fail.
* `Buffer.quantize_eq` — the bytes of a buffer are the codes of its samples in the order of a file,
  and `Buffer.take_drop_quantize` finds the code of a sample among them.
-/

set_option autoImplicit false
namespace WaveMill

theorem Layout.count_pos (layout : Layout) : 0 < layout.count := by cases layout <;> decide

namespace Buffer

variable {b : Buffer} {f : Float32 → Float32} {i c : Nat}

/-- Sample `i` of channel `c`. -/
def sample (b : Buffer) (c i : Nat) : Float32 := (b.channels.getD c #[]).getD i 0

theorem length_channels_pos (b : Buffer) : 0 < b.channels.length :=
  List.length_pos_iff.2 b.channels_ne_nil

theorem length_channels_eq_or (b : Buffer) : b.channels.length = 1 ∨ b.channels.length = 2 := by
  have hpos := b.length_channels_pos
  have hle := b.length_channels_le
  omega

theorem size_getElem (hc : c < b.channels.length) : b.channels[c].size = b.frames :=
  size_of_mem (List.getElem_mem hc)

theorem sample_eq_getElem (hc : c < b.channels.length) (hi : i < b.channels[c].size) :
    b.sample c i = b.channels[c][i] := by
  simp [sample, hc, hi, Array.getD]

/-! ## Samples changed one by one -/

@[simp]
theorem rate_mapSamples : (b.mapSamples f).rate = b.rate := rfl

@[simp]
theorem length_channels_mapSamples : (b.mapSamples f).channels.length = b.channels.length := by
  simp [mapSamples]

@[simp]
theorem frames_mapSamples : (b.mapSamples f).frames = b.frames := by
  have h := b.channels_ne_nil
  cases hchannels : b.channels with
  | nil => exact absurd hchannels h
  | cons left rest => simp [frames, mapSamples, hchannels]

theorem sample_mapSamples (hc : c < b.channels.length) (hi : i < b.frames) :
    (b.mapSamples f).sample c i = f (b.sample c i) := by
  have hsize := size_getElem hc
  simp [sample, mapSamples, hc, hsize, hi, Array.getD]

/-! ## Into the order of a file and back -/

@[simp]
theorem size_interleave : b.interleave.size = b.frames * b.channels.length := by
  simp [interleave]

theorem getElem_interleave {j : Nat} (hj : j < b.interleave.size) :
    b.interleave[j] = b.sample (j % b.channels.length) (j / b.channels.length) := by
  simp [interleave, sample]

/-- The place of a sample in the order of a file. -/
theorem place_lt (hc : c < b.channels.length) (hi : i < b.frames) :
    i * b.channels.length + c < b.interleave.size := by
  rw [size_interleave]
  calc i * b.channels.length + c < (i + 1) * b.channels.length := by
        rw [Nat.succ_mul]
        omega
    _ ≤ b.frames * b.channels.length := Nat.mul_le_mul_right _ hi

theorem getElem_interleave_place (hc : c < b.channels.length)
    (hplace : i * b.channels.length + c < b.interleave.size) :
    b.interleave[i * b.channels.length + c] = b.sample c i := by
  have hpos := b.length_channels_pos
  rw [getElem_interleave, Nat.mul_add_mod_of_lt hc, Nat.add_comm, Nat.add_mul_div_right _ _ hpos,
    Nat.div_eq_of_lt hc, Nat.zero_add]

/-- Channel `c` is every sample from the `c`-th on in the order of a file. -/
theorem everyNth_map_interleave (hc : c < b.channels.length) :
    everyNth (b.interleave.map f) b.channels.length c = b.channels[c].map f := by
  have hsize := size_getElem hc
  apply Array.ext
  · simp [everyNth, hsize, b.length_channels_pos]
  · intro i _ hi
    rw [Array.size_map, hsize] at hi
    have hplace : i * b.channels.length + c < (b.interleave.map f).size := by
      simpa using place_lt hc hi
    simp only [everyNth, Array.getElem_ofFn, Array.getElem_map, ← sample_eq_getElem hc,
      ← getElem_interleave_place hc (place_lt hc hi)]
    rw [Array.getD, dif_pos hplace]
    exact Array.getElem_map ..

/-- **Samples in the order of a file fall back into their channels**, however each of them was
changed. -/
theorem ofInterleaved_map_interleave {layout : Layout}
    (hlayout : layout.count = b.channels.length) :
    ofInterleaved (b.interleave.map f) layout b.rate = .ok (b.mapSamples f) := by
  have hwhole : (b.interleave.map f).size % b.channels.length = 0 := by simp
  have hchannels :
      (List.range b.channels.length).map (everyNth (b.interleave.map f) b.channels.length) =
        (b.mapSamples f).channels := by
    apply List.ext_getElem
    · simp
    · intro k hk _
      have hk : k < b.channels.length := by simpa using hk
      simp [everyNth_map_interleave hk, mapSamples]
  simp only [ofInterleaved, hlayout, hwhole, ne_eq, not_true, if_false]
  rw [hchannels]
  exact ofChannels_self (b.mapSamples f)

/-- Channels that samples are dealt out to are equally long. -/
theorem size_of_mem_dealt {samples : Array Float32} {n : Nat} {channel : Channel}
    (h : channel ∈ (List.range n).map (everyNth samples n)) : channel.size = samples.size / n := by
  obtain ⟨k, -, rfl⟩ := List.mem_map.1 h
  exact Array.size_ofFn

/-- Samples in the order of a file make a buffer if they are whole frames. -/
theorem exists_ofInterleaved {samples : Array Float32} {layout : Layout} {rate : UInt32}
    (hwhole : samples.size % layout.count = 0) (hrate : 0 < rate) :
    ∃ b, ofInterleaved samples layout rate = .ok b ∧ b.rate = rate ∧
      b.channels.length = layout.count ∧ b.frames = samples.size / layout.count ∧
      ∀ c < layout.count, ∀ i < b.frames,
        b.sample c i = samples.getD (i * layout.count + c) 0 := by
  have hpos : 0 < layout.count := layout.count_pos
  have hle : layout.count ≤ 2 := by cases layout <;> decide
  let b : Buffer :=
    { channels := (List.range layout.count).map (everyNth samples layout.count)
      rate
      channels_ne_nil := by simp; omega
      length_channels_le := by simpa using hle
      size_eq := fun x hx y hy ↦ (size_of_mem_dealt hx).trans (size_of_mem_dealt hy).symm
      rate_pos := hrate }
  have hframes : b.frames = samples.size / layout.count := size_of_mem_dealt (List.head_mem _)
  refine ⟨b, ?_, rfl, by simp [b], hframes, fun c hc i hi ↦ ?_⟩
  · simp only [ofInterleaved, hwhole, ne_eq, not_true, if_false]
    exact ofChannels_self b
  · rw [hframes] at hi
    simp [sample, b, hc, everyNth, hi, Array.getD]

/-! ## Pieces of equal length -/

section Pieces

variable {α β : Type} {pieces : List α} {write : α → List β} {width j : Nat}

theorem length_flatMap_of_length (hwidth : ∀ a ∈ pieces, (write a).length = width) :
    (pieces.flatMap write).length = pieces.length * width := by
  rw [List.length_flatMap, List.map_congr_left hwidth, List.map_const', List.sum_replicate_nat]

/-- Pieces of equal length that stand one behind the other are found at the multiples of their
length. -/
theorem take_drop_flatMap (hwidth : ∀ a ∈ pieces, (write a).length = width)
    (hj : j < pieces.length) :
    ((pieces.flatMap write).drop (j * width)).take width = write pieces[j] := by
  induction pieces generalizing j with
  | nil => simp at hj
  | cons a rest ih =>
    obtain ⟨hlength, hrest⟩ := List.forall_mem_cons.1 hwidth
    cases j with
    | zero => simp [← hlength]
    | succ j =>
      have hj : j < rest.length := by simpa using hj
      rw [Nat.succ_mul, Nat.add_comm, ← List.drop_drop, List.flatMap_cons, ← hlength,
        List.drop_left, hlength, ih hrest hj]
      rfl

end Pieces

/-! ## Frame by frame -/

/-- The samples in the order of a file are the frames one after the other. -/
theorem toList_interleave :
    b.interleave.toList = (List.range b.frames).flatMap (Quantize.frame b.channels) := by
  have hframe (i : Fin b.frames) :
      (List.ofFn fun c : Fin b.channels.length ↦
        b.sample ((i * b.channels.length + c) % b.channels.length)
          ((i * b.channels.length + c) / b.channels.length)) = Quantize.frame b.channels i := by
    apply List.ext_getElem
    · simp [Quantize.frame]
    · intro c hc _
      have hc : c < b.channels.length := by simpa using hc
      have hplaced := getElem_interleave_place hc (place_lt hc i.isLt)
      rw [getElem_interleave] at hplaced
      rw [List.getElem_ofFn, hplaced]
      simp [Quantize.frame, sample, hc]
  have hfn : b.interleave.toList = List.ofFn fun j : Fin (b.frames * b.channels.length) ↦
      b.sample (j % b.channels.length) (j / b.channels.length) := by
    rw [interleave, Array.toList_ofFn]
    rfl
  rw [hfn, List.ofFn_mul, List.flatMap_def]
  congr 1
  apply List.ext_getElem
  · simp
  · intro i hi _
    have hi : i < b.frames := by simpa using hi
    rw [List.getElem_ofFn, List.getElem_map, List.getElem_range]
    exact hframe ⟨i, hi⟩

/-! ## There and back -/

section Inverse

variable {samples : Array Float32} {layout : Layout} {rate : UInt32}

theorem mapSamples_id : b.mapSamples id = b := by
  cases b
  simp [mapSamples]

/-- A buffer is made again of its samples in the order of a file. -/
theorem ofInterleaved_self (hlayout : layout.count = b.channels.length) :
    ofInterleaved b.interleave layout b.rate = .ok b := by
  have h := ofInterleaved_map_interleave (f := id) hlayout
  rwa [Array.map_id, mapSamples_id] at h

/-- Samples that fell into channels come out in the order in which they were. -/
theorem exists_interleave_eq (hwhole : samples.size % layout.count = 0) (hrate : 0 < rate) :
    ∃ b, ofInterleaved samples layout rate = .ok b ∧ b.rate = rate ∧
      b.channels.length = layout.count ∧ b.interleave = samples := by
  obtain ⟨b, hb, hbrate, hlength, hframes, hsample⟩ := exists_ofInterleaved hwhole hrate
  have hdvd := Nat.dvd_of_mod_eq_zero hwhole
  have hsize : b.interleave.size = samples.size := by
    rw [size_interleave, hframes, hlength]
    exact Nat.div_mul_cancel hdvd
  refine ⟨b, hb, hbrate, hlength, Array.ext hsize fun j hj hj' ↦ ?_⟩
  have hframe : j / layout.count < b.frames := by
    rw [hframes]
    exact Nat.div_lt_div_of_lt_of_dvd hdvd hj'
  rw [getElem_interleave, hlength, hsample _ (Nat.mod_lt _ layout.count_pos) _ hframe,
    Nat.div_add_mod', Array.getD, dif_pos hj']
  rfl

theorem ofInterleaved_zero (hwhole : samples.size % layout.count = 0) :
    ofInterleaved samples layout 0 = .error (.buffer .zeroRate) := by
  have hcount : (List.range layout.count).map (everyNth samples layout.count) ≠ [] ∧
      ((List.range layout.count).map (everyNth samples layout.count)).length ≤ 2 := by
    cases layout <;> simp [Layout.count, List.range_succ]
  rw [ofInterleaved, if_neg (not_not_intro hwhole), ofChannels, dif_pos hcount,
    dif_pos fun c hc d hd ↦ (size_of_mem_dealt hc).trans (size_of_mem_dealt hd).symm,
    dif_neg (by decide)]

/-- **Bringing samples into the order of a file and dealing them out to channels are inverse.**  The
frames of a buffer, one after the other, make this buffer again.  Samples that are not whole frames
are refused, and so is the rate zero; all others make a buffer, and its frames, one after the other,
are these samples again. -/
theorem ofInterleaved_inverse :
    (∀ b : Buffer,
      b.interleave.toList = (List.range b.frames).flatMap (fun i ↦ b.channels.map (·.getD i 0)) ∧
        ∃ layout, Layout.ofCount? b.channels.length = some layout ∧
          ofInterleaved b.interleave layout b.rate = .ok b) ∧
      ∀ (samples : Array Float32) (layout : Layout) (rate : UInt32),
        samples.size % layout.count ≠ 0 ∧
            ofInterleaved samples layout rate =
              .error (.buffer (.ragged samples.size layout.count)) ∨
          samples.size % layout.count = 0 ∧ rate = 0 ∧
            ofInterleaved samples layout rate = .error (.buffer .zeroRate) ∨
          samples.size % layout.count = 0 ∧ rate ≠ 0 ∧
            ∃ b, ofInterleaved samples layout rate = .ok b ∧ b.rate = rate ∧
              b.channels.length = layout.count ∧ b.interleave = samples := by
  refine ⟨fun b ↦ ⟨toList_interleave, ?_⟩, fun samples layout rate ↦ ?_⟩
  · obtain ⟨layout, hlayout⟩ : ∃ layout, Layout.ofCount? b.channels.length = some layout := by
      rcases b.length_channels_eq_or with h | h
      · exact ⟨.mono, by rw [h]; rfl⟩
      · exact ⟨.stereo, by rw [h]; rfl⟩
    exact ⟨layout, hlayout, ofInterleaved_self (Layout.ofCount?_eq_some_iff.1 hlayout)⟩
  · by_cases hwhole : samples.size % layout.count = 0
    · by_cases hrate : rate = 0
      · subst hrate
        exact .inr (.inl ⟨hwhole, rfl, ofInterleaved_zero hwhole⟩)
      · exact .inr (.inr ⟨hwhole, hrate,
          exists_interleave_eq hwhole (UInt32.pos_iff_ne_zero.2 hrate)⟩)
    · exact .inl ⟨hwhole, by rw [ofInterleaved, if_pos hwhole]⟩

end Inverse

/-! ## The bytes of a buffer -/

theorem toNat_width {bytes : UInt16} (hwidth : bytes = 1 ∨ bytes = 2) :
    bytes.toNat = 1 ∨ bytes.toNat = 2 := by
  rcases hwidth with rfl | rfl
  · exact .inl rfl
  · exact .inr rfl

/-- A frame has four bytes at most. -/
theorem length_channels_mul_width_le (b : Buffer) {bytes : UInt16}
    (hwidth : bytes = 1 ∨ bytes = 2) : b.channels.length * bytes.toNat ≤ 4 := by
  have hnat : bytes.toNat ≤ 2 := by
    have := toNat_width hwidth
    omega
  exact Nat.mul_le_mul b.length_channels_le hnat

theorem length_encode {bytes : UInt16} (hwidth : bytes = 1 ∨ bytes = 2) (x : Float32) :
    (Quantize.encode bytes x).length = bytes.toNat := by
  rcases hwidth with rfl | rfl
  · rfl
  · rfl

theorem frames_eq : Quantize.frames b.channels = b.frames := by
  have hsizes : b.channels.map Array.size = List.replicate b.channels.length b.frames := by
    rw [List.eq_replicate_iff]
    refine ⟨by simp, ?_⟩
    simp only [List.mem_map, forall_exists_index, and_imp, forall_apply_eq_imp_iff₂]
    exact fun channel hchannel ↦ size_of_mem hchannel
  rw [Quantize.frames, hsizes, List.min?_replicate, if_neg (Nat.ne_of_gt b.length_channels_pos),
    Option.getD_some]

/-- **The bytes of a buffer are the codes of its samples in the order of a file.** -/
theorem quantize_eq {bytes : UInt16} (hwidth : bytes = 1 ∨ bytes = 2) :
    b.quantize bytes = .ok (b.interleave.toList.flatMap (Quantize.encode bytes)) := by
  have haccepted : Config.widthAccepted bytes = true := Config.widthAccepted_iff.2 hwidth
  have hused : b.channels.take maxChannels = b.channels :=
    List.take_of_length_le b.length_channels_le
  simp only [Buffer.quantize, Quantize.quantize, haccepted, hused, frames_eq, toList_interleave,
    List.flatMap_assoc]
  rfl

theorem length_flatMap_encode {bytes : UInt16} (hwidth : bytes = 1 ∨ bytes = 2)
    (samples : List Float32) :
    (samples.flatMap (Quantize.encode bytes)).length = samples.length * bytes.toNat :=
  length_flatMap_of_length fun x _ ↦ length_encode hwidth x

/-- The code of a sample is found among the bytes at the place of the sample. -/
theorem take_drop_flatMap_encode {bytes : UInt16} (hwidth : bytes = 1 ∨ bytes = 2)
    {samples : List Float32} {j : Nat} (hj : j < samples.length) :
    ((samples.flatMap (Quantize.encode bytes)).drop (j * bytes.toNat)).take bytes.toNat =
      Quantize.encode bytes samples[j] :=
  take_drop_flatMap (fun x _ ↦ length_encode hwidth x) hj

theorem length_quantize {bytes : UInt16} {data : Bytes} (hwidth : bytes = 1 ∨ bytes = 2)
    (hdata : b.quantize bytes = .ok data) :
    data.length = b.frames * b.channels.length * bytes.toNat := by
  obtain rfl : _ = data := Except.ok.inj ((quantize_eq hwidth).symm.trans hdata)
  rw [length_flatMap_encode hwidth, Array.length_toList, size_interleave]

theorem take_drop_quantize {bytes : UInt16} {data : Bytes} (hwidth : bytes = 1 ∨ bytes = 2)
    (hdata : b.quantize bytes = .ok data) (hc : c < b.channels.length) (hi : i < b.frames) :
    (data.drop ((i * b.channels.length + c) * bytes.toNat)).take bytes.toNat =
      Quantize.encode bytes (b.sample c i) := by
  obtain rfl : _ = data := Except.ok.inj ((quantize_eq hwidth).symm.trans hdata)
  rw [take_drop_flatMap_encode hwidth (by simpa using place_lt hc hi), Array.getElem_toList,
    getElem_interleave_place hc (place_lt hc hi)]

end Buffer
end WaveMill
