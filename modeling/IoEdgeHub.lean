import IoEdgeHub.ConfigHistory
import IoEdgeHub.FwUdp
import IoEdgeHub.UpgradeTool
import IoEdgeHub.Channels
import IoEdgeHub.Workers
import IoEdgeHub.CanAgreement
import IoEdgeHub.MbReplies
import IoEdgeHub.Outputs
import IoEdgeHub.FtpAuth
import IoEdgeHub.HistoryRetention
import IoEdgeHub.HistoryRecords
import IoEdgeHub.WsOutput
import IoEdgeHub.Downloads
import IoEdgeHub.HttpFraming
import IoEdgeHub.WsDecode
import IoEdgeHub.WsChecksum
import IoEdgeHub.BootConfined
import IoEdgeHub.Partitions
import IoEdgeHub.FactoryReset
import IoEdgeHub.Diagnostics
import IoEdgeHub.OverlongAdus
import IoEdgeHub.UdpAccess
import IoEdgeHub.Replies
import IoEdgeHub.FtpLines
import IoEdgeHub.Persistence
import IoEdgeHub.MultiWrites
import IoEdgeHub.RtuFrames
import IoEdgeHub.RtuBursts
import IoEdgeHub.TlvScan
import IoEdgeHub.FwMessages
import IoEdgeHub.SessionEnds
import IoEdgeHub.ClockRegisters
import IoEdgeHub.WebConfig
import IoEdgeHub.JsonReads
import IoEdgeHub.WebTime
import IoEdgeHub.AsciiUploads
import IoEdgeHub.FtpPaths
import IoEdgeHub.FtpNames
import IoEdgeHub.FtpRest
import IoEdgeHub.HistoryNames
import IoEdgeHub.ResetWindow
import IoEdgeHub.EraseTiling
import IoEdgeHub.AreaConfined
import IoEdgeHub.HistoryListing
import IoEdgeHub.ShellEditor
import IoEdgeHub.UpgradeChecksums
import IoEdgeHub.Base64
import IoEdgeHub.Sha1Digest
import IoEdgeHub.LogQueue
import IoEdgeHub.CanTool
import IoEdgeHub.CanUpgrades
import IoEdgeHub.CanCompletion
import IoEdgeHub.RtuLine
import IoEdgeHub.HistoryTask
import IoEdgeHub.Macraw
import IoEdgeHub.RtcClock
import IoEdgeHub.LogThreads
import IoEdgeHub.SpiDevice
import IoEdgeHub.ConfigSession
