import NesMiniAdapter.BoardPhases
import NesMiniAdapter.I2cPrimary
import NesMiniAdapter.UsiTransfer
import NesMiniAdapter.UsiConversation
import NesMiniAdapter.EventDriven
import NesMiniAdapter.I2cAttiny85
import NesMiniAdapter.BitBang
import NesMiniAdapter.DriverEquivalence
import NesMiniAdapter.StartCondition
import NesMiniAdapter.UartLine
import NesMiniAdapter.UartRaw
import NesMiniAdapter.UartTransmission
import NesMiniAdapter.XinputReport
import NesMiniAdapter.UartSendLine
import NesMiniAdapter.NesMiniController
import NesMiniAdapter.NesMiniTransactions
import NesMiniAdapter.ReportLaw
import NesMiniAdapter.UsiPlatform
import NesMiniAdapter.ByteDriven
import NesMiniAdapter.RegisterController
import NesMiniAdapter.Socket
import NesMiniAdapter.SocketCalls
import NesMiniAdapter.HotUnplug
import NesMiniAdapter.PlugSchedule
import NesMiniAdapter.UartHexLine
import NesMiniAdapter.OpenDrainWrites
import NesMiniAdapter.Crc
import NesMiniAdapter.AvrMachine
import NesMiniAdapter.UsbCrc16
import NesMiniAdapter.UsbFastCrc16
import NesMiniAdapter.LineCode
import NesMiniAdapter.UsbTransmitter
import NesMiniAdapter.UsbTransmission
import NesMiniAdapter.InterruptedProgram
import NesMiniAdapter.UsbDriver
import NesMiniAdapter.UsbPackets
import NesMiniAdapter.UsbInterruptEndpoint
import NesMiniAdapter.UsbDevice
import NesMiniAdapter.UsbControlEndpoint
import NesMiniAdapter.UsbMainLoop
import NesMiniAdapter.UsbTransfer
import NesMiniAdapter.Oscillator
import NesMiniAdapter.UsbFrameLength
import NesMiniAdapter.UsbReceiver
import NesMiniAdapter.UsbSync
import NesMiniAdapter.UsbReception
