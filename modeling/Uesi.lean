import Uesi.Proof.Pmm.Ownership
import Uesi.Proof.Vfs.Walk
import Uesi.Proof.Vfs.Directory
import Uesi.Proof.Vfs.Readlink
import Uesi.Proof.Vfs.LinkCounts
import Uesi.Proof.Vfs.Moves
import Uesi.Proof.Vfs.Relative
import Uesi.Proof.Vfs.Append
import Uesi.Proof.Mutex.Exclusion
import Uesi.Proof.Syscall.Frames
import Uesi.Proof.Clock
import Uesi.Proof.Blkalloc.Sync
import Uesi.Proof.Blk.Race
import Uesi.Proof.Blk.Ramdisk
import Uesi.Proof.Blk.Twin
import Uesi.Proof.Inode.Numbers
import Uesi.Proof.Mmu.Protect
import Uesi.Proof.Blkalloc.Locking
import Uesi.Proof.Inode.Blocks
import Uesi.Proof.Heap.Invalid
import Uesi.Proof.Ymdhms
import Uesi.Proof.Libc.Readdir
import Uesi.Proof.Syscall.Openat
import Uesi.Proof.Libc.Printf.Truncate
import Uesi.Proof.Mmu.Teardown
import Uesi.Proof.Libc.Arc4random
import Uesi.Proof.Kdebug
import Uesi.Proof.Pci.Capabilities
import Uesi.Proof.Pci.Bars
import Uesi.Proof.Tty
import Uesi.Proof.Spinlock
import Uesi.Proof.Pmm.Search
import Uesi.Proof.Heap.Metadata
import Uesi.Proof.Vfs.Balance
import Uesi.Proof.Serial
