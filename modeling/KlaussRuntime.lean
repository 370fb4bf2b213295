import KlaussRuntime.Crypto.FreertosCtr
import KlaussRuntime.Crypto.Gcm
import KlaussRuntime.Crypto.HashContexts
import KlaussRuntime.Disk.Fatfs
import KlaussRuntime.Disk.RxBlock
import KlaussRuntime.Disk.SdAccess
import KlaussRuntime.Disk.SdClosed
import KlaussRuntime.Doom.Keys
import KlaussRuntime.Entropy.Sharing
import KlaussRuntime.Ethernet.RxThread
import KlaussRuntime.Freertos.Critical
import KlaussRuntime.Freertos.Switch
import KlaussRuntime.Freertos.Telnet
import KlaussRuntime.Httpd.Confinement
import KlaussRuntime.Httpd.Headers
import KlaussRuntime.Httpd.Uploads
import KlaussRuntime.Loader.Relink
import KlaussRuntime.Loader.Relocate
import KlaussRuntime.Loader.ServicesOnce
import KlaussRuntime.Lwip.RxQueue
import KlaussRuntime.Netboot.Launch
import KlaussRuntime.Netboot.Segments
import KlaussRuntime.Rtos.Sleep
import KlaussRuntime.Rtos.Switch
import KlaussRuntime.Rtos.Wakeups
import KlaussRuntime.Runtime.Atomic
import KlaussRuntime.Servers.Accepting
import KlaussRuntime.Servers.Messages
import KlaussRuntime.Ssh.Auth
import KlaussRuntime.Ssh.CopyCommand
import KlaussRuntime.Ssh.HostKey
import KlaussRuntime.Ssh.Normalize
import KlaussRuntime.Ssh.ShellSafety
import KlaussRuntime.Ssh.TlsCert
import KlaussRuntime.Ssh.Wallclock
import KlaussRuntime.Vnc.Blitter
import KlaussRuntime.Vnc.Colours
import KlaussRuntime.Vnc.DirtyBox
import KlaussRuntime.Vnc.Encodings
import KlaussRuntime.Vnc.IndexedBuffers
import KlaussRuntime.Vnc.RawSend
import KlaussRuntime.Vnc.VgaOut
import KlaussRuntime.Webapi.Consistency
import KlaussRuntime.Webapi.Unload
import KlaussRuntime.Zephyr.IrqTable
