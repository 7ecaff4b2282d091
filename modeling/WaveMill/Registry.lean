import WaveMill.Config
import WaveMill.Decode
import WaveMill.Number.Convert
import WaveMill.Ordered
import WaveMill.Source

/-!
# The registry of assets

Decoded files are assets.  A registry holds them in the order of their names, and no two of them
have the same name.  Files are added in batches: what is no audio and what has a name that is
already known is skipped, and every other file is decoded as a task of its own, so that one that
fails takes no other with it.

## What is here

* `Asset` — a decoded file, and the size that a conversion of it will have.
* `Registry` — the assets; their order is a field of the type.
* `Registry.triage` — which files of a batch are skipped, and why.
* `Registry.add` — adds a batch and reports what became of every file.
* `Registry.require`, `Registry.remove` — one asset by its index.
-/

set_option autoImplicit false
namespace WaveMill

/-- A decoded file. -/
structure Asset where
  name : String
  buffer : Buffer
  /-- The number of bytes of the file that it came from. -/
  sourceSize : Nat
  deriving DecidableEq

/-- The number of bytes of samples that a conversion produces, as far as the duration tells. -/
def Asset.estimate (asset : Asset) (config : Config) : Nat :=
  let channels := config.mode.outputChannels asset.buffer.channels.length
  Number.nearest (asset.buffer.duration * config.rate.toFloat * config.bytes.toFloat *
    channels.toUInt64.toFloat)

/-- Why a file of a batch was not decoded. -/
inductive SkipReason where
  /-- An asset, or an earlier file of the batch, has the name. -/
  | duplicateName
  /-- The file does not claim to be audio. -/
  | notAudio (mediaType : String)
  deriving DecidableEq, Repr

/-- The wording of a reason. -/
def SkipReason.message : SkipReason → String
  | duplicateName => "duplicate name"
  | notAudio mediaType => s!"not audio ({mediaType})"

/-- What became of the files of a batch, each list in the order of the batch. -/
structure AddReport where
  added : List String
  skipped : List (String × SkipReason)
  failed : List FailedFile
  deriving DecidableEq, Repr

/-- Whether every file that was attempted was decoded. -/
def AddReport.isComplete (report : AddReport) : Bool := report.failed.isEmpty

/-- Assets in the order of their names, which are all different. -/
structure Registry where
  assets : List Asset
  ordered : Ordered.By Asset.name assets

namespace Registry

/-- A registry without assets. -/
def empty : Registry := ⟨[], List.Pairwise.nil⟩

/-- The names of the assets. -/
def names (registry : Registry) : List String := registry.assets.map Asset.name

/-- Whether there is an asset of a name. -/
def contains (registry : Registry) (name : String) : Bool := registry.names.contains name

/-- The asset at an index. -/
def require (registry : Registry) (index : Nat) : Outcome Asset :=
  match registry.assets[index]? with
  | some asset => .ok asset
  | none => .error (.assetIndex index registry.assets.length)

/-- The registry with one more asset. -/
def insert (registry : Registry) (asset : Asset) : Registry :=
  ⟨Ordered.insert Asset.name asset registry.assets, registry.ordered.insert asset⟩

/-- Which files of a batch are skipped, where `seen` are the names that are already taken.  A file
that will be attempted takes its name, whether it can be decoded or not. -/
def triage (seen : List String) : List Source → List (Source × Option SkipReason)
  | [] => []
  | file :: rest =>
    if !file.isAudio then (file, some (.notAudio file.mediaType)) :: triage seen rest
    else if seen.contains file.name then (file, some .duplicateName) :: triage seen rest
    else (file, none) :: triage (file.name :: seen) rest

/-- The asset that a file becomes, or why it does not. -/
def attempt (decode : Decoder) (file : Source) : Outcome Asset := do
  let buffer ← decode.asTask file.name file.bytes
  return { name := file.name, buffer, sourceSize := file.bytes.length }

/-- Adds a batch of files. -/
def add (decode : Decoder) (files : List Source) (registry : Registry) : AddReport × Registry :=
  let sorted := triage registry.names files
  let results := sorted.filterMap fun (file, skip) ↦
    if skip.isNone then some (file.name, attempt decode file) else none
  let assets := results.filterMap fun (_, result) ↦ result.toOption
  let report : AddReport :=
    { added := assets.map Asset.name
      skipped := sorted.filterMap fun (file, skip) ↦ skip.map fun reason ↦ (file.name, reason)
      failed := results.filterMap fun (name, result) ↦
        match result with
        | .ok _ => none
        | .error failure => some { name, failure } }
  (report, assets.foldl insert registry)

/-- The registry without the asset at an index.  Later assets move up by one. -/
def eraseIdx (registry : Registry) (index : Nat) : Registry :=
  ⟨registry.assets.eraseIdx index,
    List.Pairwise.sublist (List.eraseIdx_sublist ..) registry.ordered⟩

/-- Takes out the asset at an index. -/
def remove (registry : Registry) (index : Nat) : Outcome (Asset × Registry) := do
  let asset ← registry.require index
  return (asset, registry.eraseIdx index)

end Registry
end WaveMill
