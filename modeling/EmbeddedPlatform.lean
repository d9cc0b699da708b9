import EmbeddedPlatform.Lib.Run
import EmbeddedPlatform.Lib.Rounds
import EmbeddedPlatform.Lib.BoundedQueue
import EmbeddedPlatform.Lib.StreamMachine
import EmbeddedPlatform.Supervisor.PowerResetSupervisor
import EmbeddedPlatform.Supervisor.ResetSequence
import EmbeddedPlatform.Supervisor.Operations
import EmbeddedPlatform.Supervisor.ResetRelease
import EmbeddedPlatform.Supervisor.IndexSafety
import EmbeddedPlatform.Supervisor.PowerSequence
import EmbeddedPlatform.Kvs
import EmbeddedPlatform.Tcpip.SSHKeyManager
import EmbeddedPlatform.Tcpip.KeyAuthorization
import EmbeddedPlatform.Bootloader.Bootloader
import EmbeddedPlatform.Bootloader.CrashConsistency
import EmbeddedPlatform.Fpga.FirmwareUpdater
import EmbeddedPlatform.Fpga.Bitstream
import EmbeddedPlatform.Fpga.Operations
import EmbeddedPlatform.Fpga.Polling
import EmbeddedPlatform.Fpga.FailureLatch
import EmbeddedPlatform.Fpga.Termination
import EmbeddedPlatform.Fpga.Containment
import EmbeddedPlatform.Fpga.Delivery
import EmbeddedPlatform.Fpga.Loss
import EmbeddedPlatform.Fpga.Chunking
import EmbeddedPlatform.Tcpip.KeyPlacement
import EmbeddedPlatform.Tcpip.KeyRevocation
import EmbeddedPlatform.Tcpip.KeyDurability
import EmbeddedPlatform.Bootloader.BootIntegrity
import EmbeddedPlatform.Core.MainLoop
import EmbeddedPlatform.Core.TimerShift
import EmbeddedPlatform.Fpga.DeviceGate
import EmbeddedPlatform.Lib.Mailbox
import EmbeddedPlatform.Multicore.Delivery
import EmbeddedPlatform.Services.Iperf3Server
import EmbeddedPlatform.Services.Handlers
import EmbeddedPlatform.Services.StreamAdmission
import EmbeddedPlatform.Services.ParamBlob
import EmbeddedPlatform.Services.Segmentation
import EmbeddedPlatform.Tcpip.KeyRoundTrip
import EmbeddedPlatform.Services.ControlOrder
import EmbeddedPlatform.Services.StreamService
import EmbeddedPlatform.Services.TestStart
import EmbeddedPlatform.Services.Notification
import EmbeddedPlatform.Services.Accounting
import EmbeddedPlatform.Services.ParserBounds
import EmbeddedPlatform.Services.BlobGrammar
import EmbeddedPlatform.Services.ConnectionStory
import EmbeddedPlatform.Supervisor.SensorIntegrity
import EmbeddedPlatform.Fpga.AcceleratedCryptoEngine
import EmbeddedPlatform.Lib.Limbs
import EmbeddedPlatform.Fpga.HostSignature
import EmbeddedPlatform.Fpga.ReferenceCurve
import EmbeddedPlatform.Lib.FieldScanner
import EmbeddedPlatform.Cli.AddressParser
import EmbeddedPlatform.Cli.AddressGrammar
import EmbeddedPlatform.Cli.AddressRules
import EmbeddedPlatform.Bootloader.UpdateDetection
import EmbeddedPlatform.Services.DatagramSize
import EmbeddedPlatform.Supervisor.SensorWatchdog
import EmbeddedPlatform.Fpga.ConfigPacket
import EmbeddedPlatform.Fpga.ErasePartition
import EmbeddedPlatform.Fpga.PacketFraming
import EmbeddedPlatform.Fpga.SyncSearch
import EmbeddedPlatform.Supervisor.RailMonitoring
import EmbeddedPlatform.Supervisor.ResetDescriptor
import EmbeddedPlatform.Drivers.TCA6424A
import EmbeddedPlatform.Drivers.GPIOReadback
import EmbeddedPlatform.Multicore.LogDelivery
import EmbeddedPlatform.Drivers.SerdesTap
import EmbeddedPlatform.Lib.Calendar
import EmbeddedPlatform.Services.STM32NTPClient
import EmbeddedPlatform.Cli.FlashSummary
import EmbeddedPlatform.Cli.ListingTree
import EmbeddedPlatform.Services.ClockError
import EmbeddedPlatform.Fpga.ReceiveTermination
import EmbeddedPlatform.Fpga.FlushBounds
import EmbeddedPlatform.Fpga.UploadIntegrity
import EmbeddedPlatform.Supervisor.RailGating
import EmbeddedPlatform.Fpga.SignatureAcceptance
import EmbeddedPlatform.Fpga.KeyExchange
import EmbeddedPlatform.Multicore.Arrival
import EmbeddedPlatform.Multicore.LogArrival
import EmbeddedPlatform.Supervisor.SPIServer
import EmbeddedPlatform.Bootloader.FlashErase
import EmbeddedPlatform.Drivers.RegisterPages
import EmbeddedPlatform.Drivers.PageDiscipline
import EmbeddedPlatform.Lib.Encoding
import EmbeddedPlatform.Services.NTPConfig
import EmbeddedPlatform.Lib.Hex
import EmbeddedPlatform.Cli.HexDump
import EmbeddedPlatform.Cli.AddressPrinting
import EmbeddedPlatform.Multicore.ChannelNames
import EmbeddedPlatform.Tcpip.PhyPollTask
import EmbeddedPlatform.Supervisor.ResetBoard
import EmbeddedPlatform.Supervisor.ResetTiming
import EmbeddedPlatform.Supervisor.ResetCompletion
