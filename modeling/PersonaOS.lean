import PersonaOS.Boot.Handoff
import PersonaOS.Drivers.ByteQueue
import PersonaOS.Drivers.E1000
import PersonaOS.Drivers.Framebuffer
import PersonaOS.Drivers.Ipv4
import PersonaOS.Drivers.Nvme
import PersonaOS.Drivers.Ps2
import PersonaOS.Fs.Agreement
import PersonaOS.Fs.Listing
import PersonaOS.Fs.Locks
import PersonaOS.Fs.PowerLoss
import PersonaOS.Fs.Regions
import PersonaOS.Fs.Reload
import PersonaOS.Ipc.Authority
import PersonaOS.Ipc.FailedSend
import PersonaOS.Ipc.Registrar
import PersonaOS.Ipc.Unforgeable
import PersonaOS.Kernel.Handles
import PersonaOS.Kernel.Positions
import PersonaOS.Kernel.Reaping
import PersonaOS.Mm.FrameSearch
import PersonaOS.Sched.Idle
import PersonaOS.Sched.Turns
import PersonaOS.Tools.Spoilers
import PersonaOS.User.KernelHalf
import PersonaOS.User.Survival
