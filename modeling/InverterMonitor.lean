import InverterMonitor.Server.RulesRoundTrip
import InverterMonitor.Server.LoadRules
import InverterMonitor.Server.RuleArming
import InverterMonitor.Server.RuleIds
import InverterMonitor.Server.Descriptors
import InverterMonitor.Server.Gate
import InverterMonitor.Server.NumberRange
import InverterMonitor.Server.SessionLifetime
import InverterMonitor.Server.RequestFailures
import InverterMonitor.Server.FirmwareUpload
import InverterMonitor.Server.Positions
import InverterMonitor.Server.RuleFailures
import InverterMonitor.Server.JsonStrings
import InverterMonitor.Server.ChartRanges
import InverterMonitor.Server.TimeThresholds
import InverterMonitor.Firmware.ScanSpacing
import InverterMonitor.Firmware.ScanIntervals
import InverterMonitor.Firmware.ScanReset
import InverterMonitor.Firmware.Configuration
import InverterMonitor.Firmware.CommandClients
import InverterMonitor.Firmware.RegisterWrites
import InverterMonitor.Firmware.CommandSafety
import InverterMonitor.Firmware.ScanOrder
import InverterMonitor.Firmware.IpAddresses
import InverterMonitor.Simulator.Checksums
import InverterMonitor.Server.PublishedJson
import InverterMonitor.Server.StringContexts
import InverterMonitor.Cxx.Arguments
import InverterMonitor.Simulator.MonitorAgreement
import InverterMonitor.Wire.Temperature
import InverterMonitor.Wire.SensorNumbering
import InverterMonitor.Wire.Replay
import InverterMonitor.Server.ChartHistory
import InverterMonitor.Server.LoopTimers
import InverterMonitor.Server.Interleaving
import InverterMonitor.Wire.Broadcast
import InverterMonitor.Temperature.Scans
import InverterMonitor.Server.RulesPersist
import InverterMonitor.Simulator.Streams
import InverterMonitor.Temperature.Fallback
