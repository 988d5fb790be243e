import GarageDoor.Core.Door.Debounce.Lookback
import GarageDoor.Core.Door.Rejection
import GarageDoor.App.Actuator
import GarageDoor.App.Wifi.NoIpReboot
import GarageDoor.Core.Ota.Url
import GarageDoor.Core.Ota.Authorization
import GarageDoor.Core.Ota.Session.Recorded
import GarageDoor.Core.Ota.Session.Empty
import GarageDoor.Core.Ota.Http.Reference
import GarageDoor.App.Ota.Transport
import GarageDoor.App.Ota.ReadLoop
import GarageDoor.App.Ota.Framing
import GarageDoor.App.Ota.Download
import GarageDoor.App.Ota.Truncated
import GarageDoor.App.Update
import GarageDoor.App.Update.DfuFlash
import GarageDoor.Core.Mqtt.StatusRequest
import GarageDoor.Core.Mqtt.Checked.Total
import GarageDoor.Core.Flash.Trial
import GarageDoor.Core.Flash.Fallback
import GarageDoor.Core.Flash.Banks
import GarageDoor.App.Boot
import GarageDoor.App.Firmware.Fresh
import GarageDoor.App.Firmware.Rejoin
import GarageDoor.App.Telemetry.Pacing
import GarageDoor.App.Sensor
import GarageDoor.App.Version
import GarageDoor.App.Device.Backpressure
import GarageDoor.App.Device.Checks
import GarageDoor.App.Beacon
import GarageDoor.Bootloader.LinkerScript.Accepted
import GarageDoor.Scripts.MakeUf2
import GarageDoor.Deploy.Retention
import GarageDoor.Deploy.Remote
import GarageDoor.Deploy.Trigger
import GarageDoor.Core.Flash.Layout
import GarageDoor.Field.Releases
