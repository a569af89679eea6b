import MpegTs.Avc.Handler
import MpegTs.Avc.Nal
import MpegTs.Bits.Basic
import MpegTs.Bits.Cursor
import MpegTs.Bits.Writer
import MpegTs.Crc
import MpegTs.Demux.Program
import MpegTs.Demux.Stream
import MpegTs.Diagnostics
import MpegTs.Digits
import MpegTs.Error
import MpegTs.Main
import MpegTs.Packet.AdaptationField
import MpegTs.Packet.Codec
import MpegTs.Packet.Header
import MpegTs.Pes.Assembler
import MpegTs.Pes.Header
import MpegTs.Pes.Packet
import MpegTs.Proofs.Reassembly
import MpegTs.Proofs.SapOrder
import MpegTs.Proofs.PcrBeforeIdr
import MpegTs.Proofs.HardFailures
import MpegTs.Proofs.FirstError
import MpegTs.Proofs.AssemblerStates
import MpegTs.Proofs.ValidatorPhases
import MpegTs.Proofs.UnwatchedPids
import MpegTs.Proofs.Extraction
import MpegTs.Proofs.BitStrings
import MpegTs.Proofs.Readers
import MpegTs.Proofs.PesRoundTrip
import MpegTs.Proofs.PesHeaderLength
import MpegTs.Proofs.PacketRoundTrip
import MpegTs.Proofs.CrcBursts
import MpegTs.Proofs.SuccessfulReads
import MpegTs.Proofs.SectionCodec
import MpegTs.Proofs.PatCodec
import MpegTs.Proofs.DescriptorCodec
import MpegTs.Proofs.PmtCodec
import MpegTs.Proofs.SectionErrors
import MpegTs.Proofs.ExpGolomb
import MpegTs.Proofs.SliceWindow
import MpegTs.Proofs.SectionTrailers
import MpegTs.Proofs.CrcResidue
import MpegTs.Proofs.PesTrim
import MpegTs.Proofs.NalSplitting
import MpegTs.Proofs.PidTable
import MpegTs.Psi.Descriptor
import MpegTs.Psi.Pat
import MpegTs.Psi.Pmt
import MpegTs.Psi.Section
import MpegTs.Psi.StreamType
import MpegTs.Segment.Report
import MpegTs.Segment.Validator
import MpegTs.Segment.Verdict
import MpegTs.SegmentType
import MpegTs.Text.Rfc3339
import MpegTs.Text.Utf8
import MpegTs.Proofs.BitRoundTrip
import MpegTs.Segment.Source
import MpegTs.Proofs.PcrSighting
import MpegTs.Proofs.ShortReads
import MpegTs.Proofs.RemarksOnce
import MpegTs.Proofs.CursorPosition
