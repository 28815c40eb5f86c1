import Ambix.Adaptor
import Ambix.AdaptorMatrix
import Ambix.AmbFile
import Ambix.BlockSize
import Ambix.BufferRoom
import Ambix.BufferSafe
import Ambix.BufferSize
import Ambix.CafRecords
import Ambix.ChannelOrder
import Ambix.CholeskyDivisors
import Ambix.CholeskyLoops
import Ambix.ConversionMatrices
import Ambix.Coreaudio
import Ambix.CoreaudioRead
import Ambix.Deinterleave
import Ambix.DeinterleaveCopy
import Ambix.Dump
import Ambix.FrameShape
import Ambix.FrameTape
import Ambix.FrameView
import Ambix.FurseMalham
import Ambix.GaussJordan
import Ambix.Gram
import Ambix.Header
import Ambix.HeaderMarkers
import Ambix.HeaderStep
import Ambix.IntegerSamples
import Ambix.Interleave
import Ambix.InterleaveCopy
import Ambix.InterleaveFile
import Ambix.InterleaveOptions
import Ambix.InterleaveRoundTrip
import Ambix.JackRingbuffer
import Ambix.Jplay
import Ambix.JplayFile
import Ambix.JplayHeard
import Ambix.JplayThreads
import Ambix.Jrecord
import Ambix.JrecordThreads
import Ambix.KeptFrames
import Ambix.Libambix
import Ambix.Machine.Block
import Ambix.Machine.Bytes
import Ambix.Machine.Degrees
import Ambix.Machine.Elimination
import Ambix.Machine.Factorization
import Ambix.Machine.Loop
import Ambix.Machine.Nearest
import Ambix.Machine.Packed
import Ambix.Machine.Penrose
import Ambix.Machine.Placement
import Ambix.Machine.Planar
import Ambix.Machine.Record
import Ambix.Machine.Response
import Ambix.Machine.Ring
import Ambix.Machine.Rounding
import Ambix.Machine.Run
import Ambix.Machine.Saturate
import Ambix.Machine.Stream
import Ambix.Machine.Tape
import Ambix.Machine.Wakeup
import Ambix.MarkerRegionChunks
import Ambix.MarkerRegionFile
import Ambix.MarkerRegionParse
import Ambix.MarkerRegionRead
import Ambix.MarkerRegionRoundTrip
import Ambix.MarkerRegionSafe
import Ambix.MarkerRegionStored
import Ambix.MarkerRegionStrings
import Ambix.MarkerRegionWrite
import Ambix.Matrix
import Ambix.MatrixAlgebra
import Ambix.MatrixData
import Ambix.MatrixFill
import Ambix.MatrixInvert
import Ambix.MatrixLoops
import Ambix.OneHeader
import Ambix.PdDispatch
import Ambix.PdFifo
import Ambix.PdRead
import Ambix.PdReadAnswers
import Ambix.PdReadTicks
import Ambix.PdWrite
import Ambix.PdWriteAnswers
import Ambix.PdWriteThreads
import Ambix.PlaysOnce
import Ambix.PredefinedNames
import Ambix.PseudoInverse
import Ambix.ReadAdaptor
import Ambix.RecordsOnce
import Ambix.ReducedSet
import Ambix.Reopened
import Ambix.RoundTrip
import Ambix.Routing
import Ambix.SampleGuard
import Ambix.Session
import Ambix.SidOrder
import Ambix.SingularMatrix
import Ambix.Sndfile
import Ambix.SplitMerge
import Ambix.Types
import Ambix.Utils
import Ambix.UuidChunk
import Ambix.UuidCodec
import Ambix.Views
import Ambix.Writing
