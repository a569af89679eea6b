/-!
# Stream types

The `stream_type` byte of a PMT entry says what an elementary stream carries. This module
names them after the registry of the MPEG-2 systems standard and says which carry media.
-/

namespace MpegTs

/-- The stream type of AVC video. -/
def avcStreamType : Nat := 0x1B

/-- The registered name of a stream type. -/
def streamTypeName : Nat → String
  | 0x01 => "ISO/IEC 11172-2 (MPEG-1 Video)"
  | 0x02 => "ISO/IEC 13818-2 (MPEG-2 Video)"
  | 0x03 => "ISO/IEC 11172-3 (MPEG-1 Audio)"
  | 0x04 => "ISO/IEC 13818-3 (MPEG-2 Audio)"
  | 0x05 => "ISO/IEC 13818-1 private_sections"
  | 0x06 => "ISO/IEC 13818-1 PES packets containing private data"
  | 0x07 => "ISO/IEC 13522 MHEG"
  | 0x08 => "ISO/IEC 13818-1 Annex A DSM-CC"
  | 0x09 => "ITU-T Rec. H.222.1"
  | 0x0A => "ISO/IEC 13818-6 type A"
  | 0x0B => "ISO/IEC 13818-6 type B"
  | 0x0C => "ISO/IEC 13818-6 type C"
  | 0x0D => "ISO/IEC 13818-6 type D"
  | 0x0E => "ISO/IEC 13818-1 auxiliary"
  | 0x0F => "ISO/IEC 13818-7 Audio with ADTS transport syntax"
  | 0x10 => "ISO/IEC 14496-2 Visual"
  | 0x11 => "ISO/IEC 14496-3 Audio with the LATM transport syntax"
  | 0x12 => "ISO/IEC 14496-1 SL-packetized stream or FlexMux stream in PES packets"
  | 0x13 => "ISO/IEC 14496-1 SL-packetized stream or FlexMux stream in sections"
  | 0x14 => "ISO/IEC 13818-6 Synchronized Download Protocol"
  | 0x15 => "Metadata carried in PES packets"
  | 0x16 => "Metadata carried in metadata_sections"
  | 0x17 => "Metadata carried in ISO/IEC 13818-6 Data Carousel"
  | 0x18 => "Metadata carried in ISO/IEC 13818-6 Object Carousel"
  | 0x19 => "Metadata carried in ISO/IEC 13818-6 Synchronized Download Protocol"
  | 0x1A => "IPMP stream (ISO/IEC 13818-11, MPEG-2 IPMP)"
  | 0x1B => "AVC video stream (ITU-T Rec. H.264 | ISO/IEC 14496-10)"
  | 0x1C => "ISO/IEC 14496-3 Audio, without additional transport syntax"
  | 0x1D => "ISO/IEC 14496-17 Text"
  | 0x1E => "Auxiliary video stream (ISO/IEC 23002-3)"
  | 0x1F => "SVC video sub-bitstream (ITU-T Rec. H.264 | ISO/IEC 14496-10 Annex G)"
  | 0x20 => "MVC video sub-bitstream (ITU-T Rec. H.264 | ISO/IEC 14496-10 Annex H)"
  | 0x21 => "Video stream conforming to ITU-T Rec. T.800 | ISO/IEC 15444-1"
  | 0x22 => "Additional view for service-compatible stereoscopic 3D (MPEG-2 Video)"
  | 0x23 => "Additional view for service-compatible stereoscopic 3D (AVC)"
  | 0x24 => "HEVC video stream (ITU-T Rec. H.265 | ISO/IEC 23008-2)"
  | 0x7F => "IPMP stream"
  | 0x00 => "ITU-T | ISO/IEC Reserved"
  | t => if 0x25 ≤ t ∧ t ≤ 0x7E then "ITU-T Rec. H.222.0 | ISO/IEC 13818-1 Reserved"
    else "User Private"

/-- Stream types that carry audio or video, which an initialization segment must not list. -/
def isMediaStreamType (t : Nat) : Bool :=
  [0x01, 0x02, 0x03, 0x04, 0x0F, 0x10, 0x11, 0x1C, 0x1B].contains t

end MpegTs
