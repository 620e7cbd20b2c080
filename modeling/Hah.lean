import Hah.Arduino.Relay
import Hah.Arduino.Twin
import Hah.Arduino.Unframe
import Hah.Bsc.MissingValue
import Hah.CurrentCost.Framing
import Hah.CurrentCost.Hysteresis
import Hah.CurrentCost.Impulse
import Hah.CurrentCost.Total
import Hah.GoogleCal.EventCheck
import Hah.Hub.EndToEnd
import Hah.Hub.Relay
import Hah.Hub.Schedule
import Hah.IServer.Authorisation
import Hah.IServer.Queue
import Hah.IServer.Service
import Hah.Livebox.Calibration
import Hah.Livebox.Inputs
import Hah.Livebox.RfXmit
import Hah.Livebox.RomList
import Hah.Livebox.SerialInput
import Hah.Lua.BitSlicer
import Hah.Lua.Callbacks
import Hah.Lua.Corona
import Hah.Lua.Expand
import Hah.Lua.Presence
import Hah.Lua.Reaper
import Hah.Lua.Report
import Hah.Rf.Gap
import Hah.Rf.Grammar
import Hah.Rf.NumberStream
import Hah.Sms.Fetch
import Hah.Sms.Reply
import Hah.Xap.LowerEffect
import Hah.Xap.Password
import Hah.Xap.Timeout
import Hah.XapSerial.Ports
import Hah.XapSerial.Receive
import Hah.Xively.Cache
