import WaveMill.Proofs.Quantize

/-!
# Where the codes stand

The bytes of some channels are pieces of equal length, one for every frame, and a piece is codes of
equal length, one for every sample that is written of the frame.  So the place of a code follows
from the frame, the number of samples per frame and the width alone.  Every sample that is written
is read at an index of its channel: the frames are those that all channels in use have, so that none
is read behind its end, however much their lengths differ.

## What is here

* `Quantize.shortest`, `Quantize.outputs` — how many frames there are, and how many samples are
  written of each.
* `Quantize.Written` — which sample is written at a place of a frame.
* `Quantize.take_drop_codes` — the code that stands at a place of the bytes.
* `Quantize.quantize_places` — all of the bytes, or the refusal of the width.
-/

set_option autoImplicit false
namespace WaveMill
namespace Quantize

variable {channels : List Channel} {bytes : UInt16} {mix : Bool} {i k : Nat}

/-! ## What is written of a frame -/

/-- The length of the shorter one of the first two channels, or of the only one. -/
def shortest : List Channel → Nat
  | [] => 0
  | [only] => only.size
  | left :: right :: _ => min left.size right.size

/-- How many samples are written of a frame. -/
def outputs (channels : List Channel) (mix : Bool) : Nat :=
  if mix = true ∧ 2 ≤ channels.length then 1 else min channels.length 2

/-- Sample `x` is the one that is written at place `k` of frame `i`: that of channel `k`, or the
mean of the first two channels if there are two that are mixed. -/
inductive Written (channels : List Channel) (mix : Bool) (i : Nat) : Nat → Float32 → Prop
  | own {k : Nat} (hchannel : k < channels.length) (hplace : i < channels[k].size)
      (hused : k < 2) (hkept : mix = false ∨ channels.length < 2) :
      Written channels mix i k channels[k][i]
  | mixed (hmix : mix = true) (htwo : 2 ≤ channels.length) (hleft : i < channels[0].size)
      (hright : i < channels[1].size) :
      Written channels mix i 0 (Buffer.mean channels[0][i] channels[1][i])

theorem frames_used : frames (channels.take Buffer.maxChannels) = shortest channels := by
  match channels with
  | [] => rfl
  | [_] => rfl
  | _ :: _ :: _ => rfl

theorem length_output :
    (output mix (frame (channels.take Buffer.maxChannels) i)).length = outputs channels mix := by
  match channels, mix with
  | [], mix => cases mix <;> rfl
  | [_], mix => cases mix <;> rfl
  | _ :: _ :: _, true => simp [output, outputs, frame, Buffer.maxChannels]
  | _ :: _ :: _, false => simp [output, outputs, frame, Buffer.maxChannels]

/-- What is written of a frame that all channels in use have is read from within them. -/
theorem written_output (hi : i < shortest channels)
    (hk : k < (output mix (frame (channels.take Buffer.maxChannels) i)).length) :
    Written channels mix i k (output mix (frame (channels.take Buffer.maxChannels) i))[k] := by
  have hread {channel : Channel} (h : i < channel.size) : channel.getD i 0 = channel[i] := by
    rw [Array.getD, dif_pos h]
    rfl
  cases channels with
  | nil => exact absurd hi (Nat.not_lt_zero i)
  | cons left others =>
    cases others with
    | nil =>
      have honly : output mix (frame ([left].take Buffer.maxChannels) i) = [left[i]] := by
        rw [← hread hi]
        cases mix <;> rfl
      simp only [honly] at hk ⊢
      obtain rfl : k = 0 := Nat.lt_one_iff.1 hk
      exact .own Nat.one_pos hi Nat.two_pos (.inr (Nat.lt_succ_self 1))
    | cons right rest =>
      have hleft : i < left.size := hi.trans_le (min_le_left ..)
      have hright : i < right.size := hi.trans_le (min_le_right ..)
      cases mix with
      | false =>
        have hboth : output false (frame ((left :: right :: rest).take Buffer.maxChannels) i) =
            [left[i], right[i]] := by
          rw [← hread hleft, ← hread hright]
          rfl
        simp only [hboth] at hk ⊢
        obtain rfl | rfl : k = 0 ∨ k = 1 := by
          have hk : k < 2 := hk
          omega
        · exact .own (Nat.succ_pos _) hleft Nat.two_pos (.inl rfl)
        · exact .own (Nat.succ_lt_succ (Nat.succ_pos _)) hright (Nat.lt_succ_self 1) (.inl rfl)
      | true =>
        have hmean : output true (frame ((left :: right :: rest).take Buffer.maxChannels) i) =
            [Buffer.mean left[i] right[i]] := by
          rw [← hread hleft, ← hread hright, ← average_pair]
          rfl
        simp only [hmean] at hk ⊢
        obtain rfl : k = 0 := Nat.lt_one_iff.1 hk
        exact .mixed rfl (Nat.le_add_left 2 _) hleft hright

/-! ## The bytes -/

/-- The bytes of a frame. -/
def frameBytes (channels : List Channel) (bytes : UInt16) (mix : Bool) (i : Nat) : Bytes :=
  (output mix (frame (channels.take Buffer.maxChannels) i)).flatMap (encode bytes)

theorem quantize_eq_frames (hwidth : bytes = 1 ∨ bytes = 2) :
    quantize channels bytes mix =
      .ok ((List.range (shortest channels)).flatMap (frameBytes channels bytes mix)) := by
  have haccepted : Config.widthAccepted bytes = true := Config.widthAccepted_iff.2 hwidth
  simp only [quantize, haccepted, frames_used]
  rfl

theorem quantize_refused (hwidth : ¬(bytes = 1 ∨ bytes = 2)) :
    quantize channels bytes mix = .error (.sampleWidth bytes) := by
  have hrefused : Config.widthAccepted bytes = false := by
    rw [← Bool.not_eq_true, Config.widthAccepted_iff]
    exact hwidth
  simp only [quantize, hrefused]
  rfl

theorem length_frameBytes (hwidth : bytes = 1 ∨ bytes = 2) (i : Nat) :
    (frameBytes channels bytes mix i).length = outputs channels mix * bytes.toNat := by
  rw [frameBytes, Buffer.length_flatMap_encode hwidth, length_output]

/-- The code of a sample stands behind those of the frames before and those of the places before it
in its own frame. -/
theorem take_drop_codes (hwidth : bytes = 1 ∨ bytes = 2) (hi : i < shortest channels)
    (hk : k < (output mix (frame (channels.take Buffer.maxChannels) i)).length) :
    ((((List.range (shortest channels)).flatMap (frameBytes channels bytes mix)).drop
        ((i * outputs channels mix + k) * bytes.toNat)).take bytes.toNat) =
      encode bytes (output mix (frame (channels.take Buffer.maxChannels) i))[k] := by
  have hframe : ((((List.range (shortest channels)).flatMap (frameBytes channels bytes mix)).drop
      (i * (outputs channels mix * bytes.toNat))).take (outputs channels mix * bytes.toNat)) =
        frameBytes channels bytes mix i := by
    have hrange : i < (List.range (shortest channels)).length := by rwa [List.length_range]
    rw [Buffer.take_drop_flatMap (fun i _ ↦ length_frameBytes hwidth i) hrange, List.getElem_range]
  have hcode := Buffer.take_drop_flatMap_encode hwidth hk
  have hroom : bytes.toNat ≤ outputs channels mix * bytes.toNat - k * bytes.toNat := by
    rw [length_output] at hk
    rw [← Nat.sub_mul]
    exact Nat.le_mul_of_pos_left _ (Nat.sub_pos_of_lt hk)
  rw [← hcode, ← frameBytes, ← hframe, List.drop_take, List.take_take, min_eq_left hroom,
    List.drop_drop]
  congr 2
  ring

/-- **Where the codes of some channels stand.**  Any other width than one or two bytes is refused,
and nothing else is.  Otherwise there are as many frames as the shorter one of the first two
channels has, every frame has the same number of codes, and every code is that of one sample, which
is read from the channel of its place at the index of its frame, or of the mean of two of them. -/
theorem quantize_places (channels : List Channel) (bytes : UInt16) (mix : Bool) :
    (∀ failure, quantize channels bytes mix = .error failure ↔
      (bytes ≠ 1 ∧ bytes ≠ 2) ∧ failure = .sampleWidth bytes) ∧
    (bytes = 1 ∨ bytes = 2 → ∃ data, quantize channels bytes mix = .ok data ∧
      data.length = shortest channels * outputs channels mix * bytes.toNat ∧
      ∀ i < shortest channels, ∀ k < outputs channels mix, ∃ x, Written channels mix i k x ∧
        let code := (data.drop ((i * outputs channels mix + k) * bytes.toNat)).take bytes.toNat
        (bytes = 2 → code = Bytes.ofWord16 (code16 x).toUInt16) ∧
        (bytes = 1 → code = [code8 x])) := by
  refine ⟨fun failure ↦ ?_, fun hwidth ↦ ⟨_, quantize_eq_frames hwidth, ?_, fun i hi k hk ↦ ?_⟩⟩
  · by_cases hwidth : bytes = 1 ∨ bytes = 2
    · rw [quantize_eq_frames hwidth]
      simp only [reduceCtorEq, false_iff]
      tauto
    · rw [quantize_refused hwidth, Except.error.injEq]
      tauto
  · rw [Buffer.length_flatMap_of_length fun i _ ↦ length_frameBytes hwidth i, List.length_range,
      mul_assoc]
  · rw [← length_output (i := i)] at hk
    refine ⟨_, written_output hi hk, ?_⟩
    rw [take_drop_codes hwidth hi hk]
    constructor
    · rintro rfl
      rfl
    · rintro rfl
      rfl

/-- Three channels of different lengths. -/
def ragged : List Channel := [#[1, 0, 0.5], #[-1, 0.5], #[0.25]]

/-- There are two frames of them, and the last code is that of the last sample of the second
channel. -/
theorem quantize_places_ragged :
    ∃ data, quantize ragged 2 false = .ok data ∧ data.length = 8 ∧
      (data.drop 6).take 2 = Bytes.ofWord16 (code16 0.5).toUInt16 := by
  obtain ⟨data, hdata, hlength, hcodes⟩ := (quantize_places ragged 2 false).2 (.inr rfl)
  obtain ⟨x, hx, hcode, -⟩ := hcodes 1 (by decide) 1 (by decide)
  refine ⟨data, hdata, hlength, ?_⟩
  cases hx with
  | own => exact hcode rfl

end Quantize
end WaveMill
