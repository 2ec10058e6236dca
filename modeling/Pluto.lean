import Pluto.Bytes.Octets
import Pluto.Bytes.Boxes
import Pluto.Bytes.SampleTable
import Pluto.Bytes.TimeTable
import Pluto.Bytes.Transport
import Pluto.Bytes.Adts
import Pluto.Bytes.AnnexB
import Pluto.Bytes.Crc
import Pluto.Bytes.ProgramTables
import Pluto.Bytes.CutStreams
import Pluto.Bytes.Descriptor
import Pluto.Bytes.Signed
import Pluto.Steps.Run
import Pluto.Steps.Shared
import Pluto.Steps.Windows
import Pluto.Steps.Resources
import Pluto.Stream.File
import Pluto.Cache.Simple
import Pluto.Cache.Refine
import Pluto.Cache.Errors
import Pluto.Cache.Blocks
import Pluto.Message.Queue
import Pluto.Message.Fifo
import Pluto.Message.Threads
import Pluto.Message.Wait
import Pluto.Message.Waiters
import Pluto.Message.Payload
import Pluto.Message.Delivery
import Pluto.Message.Pools
import Pluto.Message.Ledger
import Pluto.Links.Circular
import Pluto.Links.MmList
import Pluto.Links.Heads
import Pluto.Links.Operations
import Pluto.Links.Loops
import Pluto.Message.Linked
import Pluto.Message.Represents
import Pluto.Stream.Descriptor
import Pluto.Stream.Transfer
import Pluto.Semaphore.Semaphore
import Pluto.Muxer.Writer
import Pluto.Ts.Muxer
import Pluto.Ts.Segments
import Pluto.Ts.AccessUnit
import Pluto.Ts.Placement
import Pluto.Ts.Packets
import Pluto.Ts.Session
import Pluto.Ts.Demux
import Pluto.Ts.Padding
import Pluto.Ts.Pids
import Pluto.Ts.TimeStamp
import Pluto.Ts.Clock
import Pluto.Ts.Aac
import Pluto.Ts.KeyFrame
import Pluto.Ts.Crc
import Pluto.Ts.Multiplex
import Pluto.Ts.File
import Pluto.Ts.Receive
import Pluto.Ts.Checker
import Pluto.Ts.Check
import Pluto.Ts.Interrupted
import Pluto.Mp4.Context
import Pluto.Muxer.Handles
import Pluto.Mp4.Avcc
import Pluto.Mp4.StartCodes
import Pluto.Mp4.Reads
import Pluto.Mp4.NalUnits
import Pluto.Mp4.Moov
import Pluto.Mp4.Muxer
import Pluto.Mp4.Tree
import Pluto.Mp4.Tables
import Pluto.Mp4.Packets
import Pluto.Mp4.Session
import Pluto.Mp4.Nesting
import Pluto.Mp4.Esds
import Pluto.Mp4.File
import Pluto.Mp4.Samples
import Pluto.Mp4.Timeline
import Pluto.Mp4.Duration
import Pluto.Mp4.MdatSize
import Pluto.Mp4.Reserve
import Pluto.Mp4.Stores
import Pluto.Mp4.Indices
import Pluto.Mp4.Driver
import Pluto.Mp4.SyncSamples
import Pluto.Mp4.Play
import Pluto.Mp4.Unfinished
import Pluto.Mp4.DecoderSetup
import Pluto.Bytes.Scanf
import Pluto.Avbs.Records
import Pluto.Avbs.Extractor
import Pluto.Avbs.MuxerTest
import Pluto.Ts.Lifecycle
import Pluto.Mp4.Lifecycle
import Pluto.Muxer.Lifecycle
import Pluto.Muxer.Agree
