import Tonepoet.Dst.Search
import Tonepoet.Dst.CodingRoundTrip
import Tonepoet.Dst.SegmentTables
import Tonepoet.Dst.SegmentLookup
import Tonepoet.Dst.Totality
import Tonepoet.Ctdb.BoundedDistance
import Tonepoet.Ctdb.Verify
import Tonepoet.Scheduler.Wakeups
import Tonepoet.Concurrency.Coverage
import Tonepoet.Concurrency.Exclusion
import Tonepoet.Concurrency.DescriptorStorage
import Tonepoet.Concurrency.JournalOwnership
import Tonepoet.Dvda.Reassembly
import Tonepoet.Cue.MetadataRoundTrip
import Tonepoet.Cue.ScannerAgreement
import Tonepoet.Cue.SectionEdits
import Tonepoet.Cue.MetadataRewrite
import Tonepoet.Cue.FileReplacement
import Tonepoet.Cue.RepairCopy
import Tonepoet.Bluray.PesReassembly
import Tonepoet.Container.DstRoundTrip
import Tonepoet.Container.DecodedReader
import Tonepoet.Container.DffRoundTrip
import Tonepoet.Container.Footers
import Tonepoet.Output.Publication
import Tonepoet.Dvda.Accounting
import Tonepoet.Wave64.TerminalRepair
import Tonepoet.Bluray.TitleTimeline
import Tonepoet.Bluray.TitleStream
import Tonepoet.Dvda.LpcmPackets
import Tonepoet.Rename.Realizability
import Tonepoet.Gain.Ceiling
import Tonepoet.AccurateRip.DiscStream
import Tonepoet.Staging.CleanupLock
import Tonepoet.Fingerprint.Effects
import Tonepoet.Container.SeekLaw
import Tonepoet.Rename.TitleStability
import Tonepoet.Chapters.WrittenChapters
import Tonepoet.Manifest.VersionOne
import Tonepoet.Manifest.OutputPaths
import Tonepoet.Sacd.Assembly
