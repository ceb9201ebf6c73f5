import RpiOs.Bio.Replacement
import RpiOs.Creds.FileIds
import RpiOs.Creds.Privileges
import RpiOs.Dev.Addressing
import RpiOs.Dev.Queue
import RpiOs.Exec.Replace
import RpiOs.Mkfs.Contents
import RpiOs.Mmap.WriteBack
import RpiOs.Pagecache
import RpiOs.Pipes
import RpiOs.RedoLog.Admission
import RpiOs.Sched.Groups
import RpiOs.Signal.Mask
import RpiOs.Signal.Trap
import RpiOs.Timer.Clock
import RpiOs.Timer.Itimer
import RpiOs.UserMem
import RpiOs.V6.Append
import RpiOs.V6.Directory
import RpiOs.V6.Balloc
import RpiOs.V6.Sizes
import RpiOs.Vfs.Creation
import RpiOs.Vfs.Clean
import RpiOs.Vfs.Resolve
import RpiOs.Ext2.Itrunc
import RpiOs.Ext2.Arithmetic
import RpiOs.Ext2.Dirlookup
import RpiOs.Vfs.Access
