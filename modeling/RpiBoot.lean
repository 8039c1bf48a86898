import RpiBoot.Block.Multiblock
import RpiBoot.Boot.FatConfig
import RpiBoot.Cache.Failure
import RpiBoot.Console.Words
import RpiBoot.Emmc.Detect
import RpiBoot.Emmc.Order
import RpiBoot.Ext2.DirFlags
import RpiBoot.Ext2.Indirection
import RpiBoot.Ext2.InodeTable
import RpiBoot.Fat.DataArea
import RpiBoot.Fat.Listing
import RpiBoot.Fat.Shared
import RpiBoot.Fat.ShortNames
import RpiBoot.Fat.Termination
import RpiBoot.Heap
import RpiBoot.Libfs.Partitions
import RpiBoot.Log
import RpiBoot.Memchunk.Search
import RpiBoot.Memmove
import RpiBoot.Multiboot.Addresses
import RpiBoot.Multiboot.FsRead
import RpiBoot.Multiboot.HeaderSearch
import RpiBoot.Multiboot.HeaderTables
import RpiBoot.Multiboot.Intact
import RpiBoot.Multiboot.MemInfo
import RpiBoot.Nofs.Marker
import RpiBoot.RamdiskBounds
import RpiBoot.Raspbootin.Bursts
import RpiBoot.Raspbootin.Handshake
import RpiBoot.Rpifdt.RegBounds
import RpiBoot.Streams.Count
import RpiBoot.Streams.Failure
import RpiBoot.Strstr.First
import RpiBoot.Tags
