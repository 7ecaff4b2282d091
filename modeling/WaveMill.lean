import WaveMill.Buffer.Tone
import WaveMill.FileTree.Disk
import WaveMill.Main
import WaveMill.Proofs.Text.ByteOrder
import WaveMill.Proofs.Playback.Device
import WaveMill.Proofs.Playback.Player
import WaveMill.Proofs.Playback.Run
import WaveMill.Proofs.Session.Sound
import WaveMill.Proofs.Registry.Batch
import WaveMill.Proofs.Session.Saving
import WaveMill.Proofs.Convert
import WaveMill.Proofs.Session.Directory
import WaveMill.Proofs.CommandLine.Complete
import WaveMill.Proofs.Convert.Channels
import WaveMill.Proofs.Session.Failing
import WaveMill.Proofs.Playback.Unnoticed
import WaveMill.Proofs.Session.Schedule
import WaveMill.Proofs.Registry.Regrouping
import WaveMill.Proofs.Buffer.Recipe
import WaveMill.Proofs.CommandLine.Target
import WaveMill.Proofs.Config.File
import WaveMill.Proofs.CommandLine.Overwriting
import WaveMill.Proofs.Resample.Places
import WaveMill.Proofs.Normalize
import WaveMill.Proofs.Quantize.Frames
import WaveMill.Proofs.Convert.Silence
import WaveMill.Proofs.Registry.Estimate
import WaveMill.Proofs.Wave.Loudest
import WaveMill.Proofs.Session.Toggle
import WaveMill.Proofs.Playback.Timed
import WaveMill.Proofs.Config.Spelling
import WaveMill.Proofs.Resample.Multiple
import WaveMill.Proofs.FileTree.Stored
import WaveMill.Proofs.Scan.Agreement
import WaveMill.Proofs.OutputName
import WaveMill.Proofs.CommandLine.Inputs
