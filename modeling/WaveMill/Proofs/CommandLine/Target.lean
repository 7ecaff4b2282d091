import WaveMill.CommandLine.Target
import WaveMill.Proofs.Config.Load
import WaveMill.Proofs.Config.Preset

/-!
# Who decides about the target format

A configuration file, a preset and some flags may all speak about the same field of the target
format.  The command merges them by overwriting one description again and again.  Here it is said
field by field who is heard, without any order of overwriting: a flag goes before the preset, the
preset before the file, the file before the compact disc.

A preset that says nonsense about a field is not heard about that field, whereas a file or a flag
that does is refused.  So there is a relation `Refused` beside the relation `Wanted`, and the two
together say everything about the outcome: `resolve_iff` has no hypotheses.

## What is here

* `TargetOptions.Base` — the description that the preset and the flags change.
* `TargetOptions.Decides` and `TargetOptions.Wanted` — who decides about one field, and about all.
* `TargetOptions.Refused` — why there is no target format.
* `TargetOptions.resolve_iff` — the target format is the wanted one, unless it is refused.
-/

set_option autoImplicit false
namespace WaveMill

open Outcome

namespace TargetOptions

variable {α σ : Type}

/-! ## The description to begin with -/

section Base

variable (options : TargetOptions) (disk : Disk (StateM σ)) (s : σ)

/-- The description that the preset and the flags change: that of the configuration file, if one is
given, and that of a compact disc otherwise. -/
inductive Base : Config → Prop where
  | standard (hfile : options.config = .none) : Base ⟨44100, 2, .both⟩
  | file {path : String} {bytes : Bytes} {text : String} {config : Config}
      (hfile : options.config = some path) (hread : (disk.read path s).1 = .ok bytes)
      (htext : bytes.toText? = some text) (hconfig : Config.ofDocument? text = some config)
      (hvalid : config.validate = .ok ()) : Base config

end Base

/-! ## Who decides -/

/-- Who decides about a field: the flag, else the preset if it asks for something, else the base. -/
inductive Decides (flag : Option α) (asks : α → Prop) (base : α) : α → Prop where
  | flag {value : α} (hflag : flag = some value) : Decides flag asks base value
  | preset {value : α} (hflag : flag = .none) (hasks : asks value) : Decides flag asks base value
  | base (hflag : flag = .none) (hasks : ∀ value, ¬ asks value) : Decides flag asks base base

/-- What the preset asks for with its field at a place. -/
def PresetAsks (options : TargetOptions) (k : Nat) (asks : List Char → α → Prop) (value : α) :
    Prop :=
  ∃ text field, options.preset = some text ∧ Preset.Field text k field ∧ asks field value

/-- The description that the preset and the flags make of another, field by field. -/
structure Wanted (options : TargetOptions) (base target : Config) : Prop where
  rate : Decides options.rate (options.PresetAsks 2 Preset.AsksRate) base.rate target.rate
  bytes : Decides (options.bits.map (· / 8)) (options.PresetAsks 0 Preset.AsksBytes) base.bytes
    target.bytes
  mode : Decides options.mode (options.PresetAsks 1 Preset.AsksMode) base.mode target.mode

/-- The bits that a flag asks for are whole bytes. -/
def WholeBytes (options : TargetOptions) : Prop := ∀ bits ∈ options.bits, bits.toNat % 8 = 0

/-- Why there is no target format. -/
inductive Refused (options : TargetOptions) (disk : Disk (StateM σ)) (s : σ) : Failure → Prop where
  /-- The configuration file has no description to begin with. -/
  | file {path : String} {failure : Failure} (hfile : options.config = some path)
      (hrefused : Config.Unloadable disk s path failure) : Refused options disk s failure
  /-- The bits that a flag asks for are not whole bytes. -/
  | bits {base : Config} {bits : UInt16} (hbase : Base options disk s base)
      (hbits : options.bits = some bits) (hbroken : bits.toNat % 8 ≠ 0) :
      Refused options disk s (.config (.brokenByte bits))
  /-- The wanted width or rate is out of range. -/
  | unfit {base target : Config} {failure : Failure} (hbase : Base options disk s base)
      (hwhole : options.WholeBytes) (hwanted : options.Wanted base target)
      (hunfit : target.Unfit failure) : Refused options disk s failure

/-! ## The description to begin with, computed -/

/-- The description to begin with, or why there is none. -/
def opened (options : TargetOptions) (disk : Disk (StateM σ)) (s : σ) : Outcome Config :=
  options.config.elim (.ok .standard) fun path ↦ (Config.load disk path s).1

variable {options : TargetOptions} {disk : Disk (StateM σ)} {s : σ} {base target : Config}
  {failure : Failure}

theorem opened_eq_ok_iff : options.opened disk s = .ok base ↔ Base options disk s base := by
  rw [opened]
  cases hfile : options.config with
  | none =>
    constructor
    · intro h
      obtain rfl := Except.ok.inj h
      exact .standard hfile
    · rintro (- | ⟨hfile'⟩)
      · rfl
      · cases hfile.symm.trans hfile'
  | some path =>
    show (Config.load disk path s).1 = _ ↔ _
    rw [Config.load_eq_ok_iff]
    constructor
    · rintro ⟨bytes, text, hread, htext, hconfig, hvalid⟩
      exact .file hfile hread htext hconfig hvalid
    · rintro (hfile' | ⟨hfile', hread, htext, hconfig, hvalid⟩)
      · cases hfile.symm.trans hfile'
      · obtain rfl := Option.some.inj (hfile.symm.trans hfile')
        exact ⟨_, _, hread, htext, hconfig, hvalid⟩

theorem opened_eq_error_iff : options.opened disk s = .error failure ↔
    ∃ path, options.config = some path ∧ Config.Unloadable disk s path failure := by
  rw [opened]
  cases options.config with
  | none =>
    refine iff_of_false nofun ?_
    rintro ⟨path, hfile, -⟩
    cases hfile
  | some path =>
    show (Config.load disk path s).1 = _ ↔ _
    rw [Config.load_eq_error_iff]
    constructor
    · exact fun h ↦ ⟨path, rfl, h⟩
    · rintro ⟨path', hfile, h⟩
      obtain rfl := Option.some.inj hfile
      exact h

/-! ## The wanted description, computed -/

/-- What the preset asks for with its field at a place, if `read` finds it. -/
def asked (options : TargetOptions) (k : Nat) (read : List Char → Option α) : Option α :=
  options.preset.bind fun text ↦ (Preset.fields text)[k]?.bind read

theorem asked_eq_some_iff {k : Nat} {read : List Char → Option α} {asks : List Char → α → Prop}
    (hread : ∀ field value, read field = some value ↔ asks field value) {value : α} :
    options.asked k read = some value ↔ options.PresetAsks k asks value := by
  simp only [asked, PresetAsks, Option.bind_eq_some_iff, Preset.fields_getElem?_eq_some_iff, hread,
    exists_and_left]

theorem decides_iff {k : Nat} {read : List Char → Option α} {asks : List Char → α → Prop}
    (hread : ∀ field value, read field = some value ↔ asks field value) {flag : Option α}
    {base value : α} :
    Decides flag (options.PresetAsks k asks) base value ↔
      value = flag.getD ((options.asked k read).getD base) := by
  cases flag with
  | some chosen =>
    constructor
    · rintro (hflag | ⟨hflag, -⟩ | ⟨hflag, -⟩)
      · exact (Option.some.inj hflag).symm
      · cases hflag
      · cases hflag
    · rintro rfl
      exact .flag rfl
  | none =>
    cases hasked : options.asked k read with
    | some wish =>
      have hwish : options.PresetAsks k asks wish := (asked_eq_some_iff hread).1 hasked
      constructor
      · rintro (hflag | ⟨-, hasks⟩ | ⟨-, hasks⟩)
        · cases hflag
        · exact (Option.some.inj (hasked.symm.trans ((asked_eq_some_iff hread).2 hasks))).symm
        · exact absurd hwish (hasks wish)
      · rintro rfl
        exact .preset rfl hwish
    | none =>
      have hasks (value : α) : ¬ options.PresetAsks k asks value := fun hasks ↦
        nomatch hasked.symm.trans ((asked_eq_some_iff hread).2 hasks)
      constructor
      · rintro (hflag | ⟨-, hasks'⟩ | ⟨-, -⟩)
        · cases hflag
        · exact absurd hasks' (hasks value)
        · rfl
      · rintro rfl
        exact .base rfl hasks

/-- The description that the preset and the flags make of another, whether it can be converted to or
not. -/
def described (options : TargetOptions) (base : Config) : Config where
  rate := options.rate.getD ((options.asked 2 Preset.rate?).getD base.rate)
  bytes := (options.bits.map (· / 8)).getD ((options.asked 0 Preset.bytes?).getD base.bytes)
  mode := options.mode.getD ((options.asked 1 Preset.mode?).getD base.mode)

theorem wanted_iff : options.Wanted base target ↔ target = options.described base := by
  constructor
  · rintro ⟨hrate, hbytes, hmode⟩
    rw [Config.mk.injEq]
    exact ⟨(decides_iff fun _ _ ↦ Preset.rate?_eq_some_iff).1 hrate,
      (decides_iff fun _ _ ↦ Preset.bytes?_eq_some_iff).1 hbytes,
      (decides_iff fun _ _ ↦ Preset.mode?_eq_some_iff).1 hmode⟩
  · rintro rfl
    exact ⟨(decides_iff fun _ _ ↦ Preset.rate?_eq_some_iff).2 rfl,
      (decides_iff fun _ _ ↦ Preset.bytes?_eq_some_iff).2 rfl,
      (decides_iff fun _ _ ↦ Preset.mode?_eq_some_iff).2 rfl⟩

theorem preset_elim (options : TargetOptions) (base : Config) :
    options.preset.elim base base.applyPreset =
      { rate := (options.asked 2 Preset.rate?).getD base.rate
        bytes := (options.asked 0 Preset.bytes?).getD base.bytes
        mode := (options.asked 1 Preset.mode?).getD base.mode } := by
  rw [asked, asked, asked]
  cases options.preset <;> rfl

theorem bytesOfBits_eq (bits : UInt16) :
    bytesOfBits bits =
      if bits.toNat % 8 = 0 then .ok (bits / 8) else .error (.config (.brokenByte bits)) := by
  have hmod : bits % 8 = 0 ↔ bits.toNat % 8 = 0 := by
    rw [← UInt16.toNat_inj, UInt16.toNat_mod]
    rfl
  simp only [bytesOfBits, hmod]

theorem applyTo_of_broken {bits : UInt16} (hbits : options.bits = some bits)
    (hbroken : bits.toNat % 8 ≠ 0) (base : Config) :
    options.applyTo base = .error (.config (.brokenByte bits)) := by
  rw [applyTo, hbits, Option.elim_some, bytesOfBits_eq, if_neg hbroken]
  rfl

theorem applyTo_of_wholeBytes (hwhole : options.WholeBytes) (base : Config) :
    options.applyTo base =
      (options.described base).validate.map fun _ ↦ options.described base := by
  have hdescribed : options.applyTo base =
      (options.described base).validate >>= fun _ ↦ .ok (options.described base) := by
    rw [applyTo, described, preset_elim]
    cases hbits : options.bits with
    | none => rfl
    | some bits =>
      rw [Option.elim_some, bytesOfBits_eq, if_pos (hwhole bits hbits)]
      rfl
  rw [hdescribed]
  cases (options.described base).validate <;> rfl

/-! ## The outcome -/

theorem wholeBytes_or_broken (options : TargetOptions) :
    options.WholeBytes ∨ ∃ bits, options.bits = some bits ∧ bits.toNat % 8 ≠ 0 := by
  by_cases hwhole : options.WholeBytes
  · exact .inl hwhole
  · simp only [WholeBytes, not_forall] at hwhole
    obtain ⟨bits, hbits, hbroken⟩ := hwhole
    exact .inr ⟨bits, hbits, hbroken⟩

theorem applyTo_eq_ok_iff : options.applyTo base = .ok target ↔
    options.WholeBytes ∧ options.Wanted base target ∧ target.validate = .ok () := by
  rcases options.wholeBytes_or_broken with hwhole | ⟨bits, hbits, hbroken⟩
  · rw [applyTo_of_wholeBytes hwhole, map_eq_ok_iff, wanted_iff]
    constructor
    · rintro ⟨⟨⟩, hvalid, rfl⟩
      exact ⟨hwhole, rfl, hvalid⟩
    · rintro ⟨-, rfl, hvalid⟩
      exact ⟨(), hvalid, rfl⟩
  · rw [applyTo_of_broken hbits hbroken]
    exact iff_of_false nofun fun h ↦ hbroken (h.1 bits hbits)

theorem applyTo_eq_error_iff : options.applyTo base = .error failure ↔
    (∃ bits, options.bits = some bits ∧ bits.toNat % 8 ≠ 0 ∧
      failure = .config (.brokenByte bits)) ∨
    options.WholeBytes ∧ ∃ target, options.Wanted base target ∧ target.Unfit failure := by
  rcases options.wholeBytes_or_broken with hwhole | ⟨bits, hbits, hbroken⟩
  · simp only [applyTo_of_wholeBytes hwhole, map_eq_error_iff, wanted_iff, exists_eq_left,
      Config.validate_eq_error_iff]
    constructor
    · exact fun hunfit ↦ .inr ⟨hwhole, hunfit⟩
    · rintro (⟨bits, hbits, hbroken, -⟩ | ⟨-, hunfit⟩)
      · exact absurd (hwhole bits hbits) hbroken
      · exact hunfit
  · rw [applyTo_of_broken hbits hbroken]
    constructor
    · intro h
      exact .inl ⟨bits, hbits, hbroken, (Except.error.inj h).symm⟩
    · rintro (⟨bits', hbits', -, rfl⟩ | ⟨hwhole, -⟩)
      · rw [Option.some.inj (hbits.symm.trans hbits')]
      · exact absurd (hwhole bits hbits) hbroken

/-- A preset may say nonsense about a field, a flag may not. -/
example :
    (⟨.none, some "#24& left &32000", .none, .none, .none⟩ : TargetOptions).applyTo .standard =
        .ok ⟨32000, 2, .left⟩ ∧
      (⟨.none, some "#8&loud&4000", .none, some 24, .none⟩ : TargetOptions).applyTo .standard =
        .error (.sampleWidth 3) :=
  ⟨rfl, rfl⟩

theorem resolve_fst (options : TargetOptions) (disk : Disk (StateM σ)) (s : σ) :
    (options.resolve disk s).1 = options.opened disk s >>= options.applyTo := by
  rw [resolve, opened]
  cases options.config with
  | none => rfl
  | some path => rfl

/-- **The target format is what the options want, unless they are refused.**  For every field the
flag goes before the preset, the preset before the configuration file, and the file before the
compact disc; and the three reasons of `Refused` are the only ones for which there is no target
format. -/
theorem resolve_iff (options : TargetOptions) (disk : Disk (StateM σ)) (s : σ) :
    (∀ target, (options.resolve disk s).1 = .ok target ↔
      ∃ base, Base options disk s base ∧ options.WholeBytes ∧ options.Wanted base target ∧
        target.validate = .ok ()) ∧
    ∀ failure, (options.resolve disk s).1 = .error failure ↔ Refused options disk s failure := by
  rw [resolve_fst]
  constructor
  · intro target
    simp only [bind_eq_ok_iff, opened_eq_ok_iff, applyTo_eq_ok_iff]
  · intro failure
    rw [bind_eq_error_iff, opened_eq_error_iff]
    simp only [opened_eq_ok_iff, applyTo_eq_error_iff]
    constructor
    · rintro (⟨path, hfile, hrefused⟩ | ⟨base, hbase, ⟨bits, hbits, hbroken, rfl⟩ |
        ⟨hwhole, target, hwanted, hunfit⟩⟩)
      · exact .file hfile hrefused
      · exact .bits hbase hbits hbroken
      · exact .unfit hbase hwhole hwanted hunfit
    · rintro (⟨hfile, hrefused⟩ | ⟨hbase, hbits, hbroken⟩ | ⟨hbase, hwhole, hwanted, hunfit⟩)
      · exact .inl ⟨_, hfile, hrefused⟩
      · exact .inr ⟨_, hbase, .inl ⟨_, hbits, hbroken, rfl⟩⟩
      · exact .inr ⟨_, hbase, .inr ⟨hwhole, _, hwanted, hunfit⟩⟩

end TargetOptions
end WaveMill
