import BootImageEditor.Library.Endian
import BootImageEditor.Library.Utf8
import BootImageEditor.Library.Numeral
import BootImageEditor.Library.Fallible
import BootImageEditor.Library.Durable
import BootImageEditor.Library.Turns
import BootImageEditor.Library.Align
import BootImageEditor.Library.BigInteger
import BootImageEditor.Library.SortBy
import BootImageEditor.Library.Segments
import BootImageEditor.Library.FirstMatch
import BootImageEditor.Library.BlockHash
import BootImageEditor.Jvm
import BootImageEditor.Struct3.Format
import BootImageEditor.Struct3.Pack
import BootImageEditor.Struct3.Unpack
import BootImageEditor.Struct3.RoundTrip
import BootImageEditor.Struct3.FormatString
import BootImageEditor.Struct3.Grammar
import BootImageEditor.Struct3.Integers
import BootImageEditor.Struct3.Repack
import BootImageEditor.Struct3.Consume
import BootImageEditor.Helper
import BootImageEditor.Avb.Algorithms
import BootImageEditor.Avb.Descriptor
import BootImageEditor.Avb.DescriptorEncode
import BootImageEditor.Avb.Wire
import BootImageEditor.Avb.DescriptorParse
import BootImageEditor.Avb.Blob
import BootImageEditor.Avb.DescriptorSection
import BootImageEditor.Avb.Reencode
import BootImageEditor.Avb.Reread
import BootImageEditor.Avb.BlobLayout
import BootImageEditor.Avb.BlobCodec
import BootImageEditor.Avb.VbMeta
import BootImageEditor.Avb.VbMetaPack
import BootImageEditor.Libavb.VbmetaImage
import BootImageEditor.Avb.VbMetaVerify
import BootImageEditor.Avb.VbMetaParse
import BootImageEditor.Avb.HashFooter
import BootImageEditor.Avb.DescriptorFraming
import BootImageEditor.Avb.ForeignDescriptors
import BootImageEditor.Avb.DescriptorDecode
import BootImageEditor.Avb.DescriptorLoop
import BootImageEditor.Init.BootloaderMsg
import BootImageEditor.Init.Reboot
import BootImageEditor.Init.MessageCodec
import BootImageEditor.Init.RecoveryOptions
import BootImageEditor.RsaKey
import BootImageEditor.Libavb.AvbOps
import BootImageEditor.Avbx.CfigAvbOps
import BootImageEditor.Avbx.RollbackIndex
import BootImageEditor.Avbx.ReadFromPartition
import BootImageEditor.Avb.HashFooterImage
import BootImageEditor.Avb.HashFooterFailure
import BootImageEditor.Avb.HashFooterAgain
import BootImageEditor.Avb.HashFooterSize
import BootImageEditor.Bootimg.BootImgHeader
import BootImageEditor.Bootimg.Extract
import BootImageEditor.UnifiedConfig
import BootImageEditor.Bootimg.OsVersion
import BootImageEditor.Bootimg.OsVersionWord
import BootImageEditor.Bootimg.HeaderEncode
import BootImageEditor.Bootimg.Packer
import BootImageEditor.Packable.BootImgParser
import BootImageEditor.Packable.VbMetaFile
import BootImageEditor.Packable.Launcher
import BootImageEditor.Bootimg.Padding
import BootImageEditor.Avb.Designated
import BootImageEditor.Bootimg.Mkbootimg
import BootImageEditor.Bootimg.MkbootimgOutput
import BootImageEditor.Bootimg.EncodedHeader
import BootImageEditor.Bootimg.GoogleImage
import BootImageEditor.Libavb.Rsa
import BootImageEditor.Libavb.RsaVerify
import BootImageEditor.Libavb.Sha
import BootImageEditor.Avb.VbMetaSigned
import BootImageEditor.Library.Extents
import BootImageEditor.Libsparse.BackedBlock
import BootImageEditor.Libsparse.SparseFile
import BootImageEditor.Libsparse.RawImage
import BootImageEditor.Libsparse.RoundTrip
import BootImageEditor.Libsparse.Img2simg
import BootImageEditor.Libsparse.Resparse
import BootImageEditor.Libavb.Descriptor
import BootImageEditor.Libavb.SlotVerify
import BootImageEditor.Libavb.ChainOfTrust
import BootImageEditor.Avb.DescriptorReading
