import Adelino.Progress
import Adelino.Main
import Adelino.Streams
import Adelino.Containment
import Adelino.Upload
import Adelino.Launch
import Adelino.Silence
import Adelino.Bridge
import Adelino.EspBridge
import Adelino.RingFifo
import Adelino.Descriptors
import Adelino.Packets
import Adelino.OnePage
import Adelino.FullBlock
import Adelino.SessionTimeout
import Adelino.ButtonHold
import Adelino.Masks
import Adelino.Straps
import Adelino.Enumeration
import Adelino.Polling
import Adelino.Lockup
import Adelino.Autostart
