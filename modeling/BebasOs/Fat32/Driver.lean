/-
The driver of `fat32.c`: its state in memory, formatting and mounting, and the four requests `read`,
`read_directory`, `write` and `delete`, as the code computes them. A call that indexes a table out
of bounds in a way that matters, or that does not return, has no result.
-/
import BebasOs.Fat32.Disk

namespace BebasOs.Fat32

open Bytes Search

/-! ## State -/

/-- `struct FAT32DriverState`, the static `memory`. -/
structure FAT32DriverState where
  fatTable : FAT32FileAllocationTable
  dirTableBuf : FAT32DirectoryTable
  clusterBuf : ClusterBuffer

/-- `struct FAT32DriverRequest`; `buf` is the caller's memory from the pointer on. -/
structure FAT32DriverRequest where
  buf : ℕ → UInt8
  name : Vector UInt8 8
  ext : Vector UInt8 3
  parentClusterNumber : UInt32
  bufferSize : UInt32

/-- What the code reads without having set it: the three bytes behind the literal `"root"`, of which
`init_directory_table` copies eight, and the words behind the end of `cluster_map`. -/
structure Platform where
  rootTail : Vector UInt8 3
  fatBeyond : FAT32DriverState → ℕ → UInt32

/-- The driver's memory and the disk; `issued` lists the calls of `write_clusters` in order. -/
structure Machine where
  memory : FAT32DriverState
  disk : Disk
  issued : List (UInt32 × ClusterBuffer)

/-- The machine at power-on: static memory is zero. -/
def powerOn (d : Disk) : Machine where
  memory := ⟨Vector.replicate 512 0, zeroTable, zeroCluster⟩
  disk := d
  issued := []

/-- `write_clusters(ptr, cluster_number, 1)`. -/
def Machine.writeClusters (s : Machine) (buffer : ClusterBuffer) (clusterNumber : UInt32) : Machine :=
  { s with disk := s.disk.writeClusters buffer clusterNumber, issued := s.issued ++ [(clusterNumber, buffer)] }

/-- `memory.fat_table.cluster_map[i]`. -/
def mapAt (π : Platform) (m : FAT32DriverState) (i : ℕ) : UInt32 :=
  if i < 512 then cell m.fatTable i else π.fatBeyond m i

/-- The test of the loops that look for a free cluster. -/
def isEmptyEntry (t : FAT32FileAllocationTable) (i : ℕ) : Bool := cell t i == fatEmptyEntry

/-- The first slot from `lo` on with the given name and extension. -/
def findEntry (t : FAT32DirectoryTable) (name : Vector UInt8 8) (ext : Vector UInt8 3) : Option ℕ :=
  first (fun i => (cell t i).hasName name ext) 0 64

/-- The test of the loops that look for a free slot. -/
def isFreeSlot (t : FAT32DirectoryTable) (i : ℕ) : Bool := (cell t i).userAttribute != uattrNotEmpty

/-! ## Formatting and mounting -/

def dotDot : Vector UInt8 8 := #v[46, 46, 0, 0, 0, 0, 0, 0]

/-- The `self` entry of `init_directory_table`. -/
def selfEntry (name : Vector UInt8 8) (index : UInt32) : FAT32DirectoryEntry :=
  { (default : FAT32DirectoryEntry) with
    name := name
    attributeByte := attrSubdirectory
    userAttribute := uattrNotEmpty
    clusterHigh := FAT32DirectoryEntry.highHalf index
    clusterLow := FAT32DirectoryEntry.lowHalf index
    filesize := 0 }

/-- The `..` entry of a new directory: a copy of its parent's slot 0. -/
def dotDotEntry (parententry : FAT32DirectoryEntry) : FAT32DirectoryEntry := { parententry with name := dotDot }

/-- The cluster of a new directory: its first two slots, then zeros. -/
def newDirectory (self parent : FAT32DirectoryEntry) : FAT32DirectoryTable := store (store zeroTable 0 self) 1 parent

/-- `init_directory_table`, always called on `memory.dir_table_buf`. Without a free cluster, or without
a free slot in the parent, it would store at index -1. -/
def initDirectoryTable (s : Machine) (name : Vector UInt8 8) (parentDirCluster : UInt32) : Option Machine :=
  match first (isEmptyEntry s.memory.fatTable) 1 512 with
  | none => none
  | some i =>
    let index := UInt32.ofNat i
    let fatTable := store s.memory.fatTable i fatEndOfFile
    let s := { s with memory.fatTable := fatTable, memory.clusterBuf := fatPacked fatTable }
    let s := s.writeClusters (fatPacked fatTable) fatClusterNumber
    let self := selfEntry name index
    let finish (s : Machine) (parententry : FAT32DirectoryEntry) : Machine :=
      let parententry := dotDotEntry parententry
      let buffer := tablePacked (newDirectory self parententry)
      let dirTable := store (store s.memory.dirTableBuf 0 self) 1 parententry
      { s with memory.dirTableBuf := dirTable, memory.clusterBuf := buffer }.writeClusters buffer index
    if index = rootClusterNumber then some (finish s self)
    else
      let parentdirtable := tablePacked.symm (s.disk.readClusters parentDirCluster)
      match first (isFreeSlot parentdirtable) 0 64 with
      | none => none
      | some tempindex =>
        let parentdirtable := store parentdirtable tempindex self
        let buffer := tablePacked parentdirtable
        let s := { s with memory.clusterBuf := buffer }.writeClusters buffer parentDirCluster
        some (finish s (cell parentdirtable 0))

/-- The eight bytes copied from the literal `"root"`. -/
def rootName (π : Platform) : Vector UInt8 8 := split 5 3 UInt8 (#v[114, 111, 111, 116, 0], π.rootTail)

def createFat32 (π : Platform) (s : Machine) : Option Machine :=
  let s := { s with disk := s.disk.writeBlocks 1 fsSignature 0 }
  let fatTable := store (store s.memory.fatTable 0 cluster0Value) 1 cluster1Value
  let s := { s with memory.fatTable := fatTable }.writeClusters (fatPacked fatTable) 1
  initDirectoryTable s (rootName π) rootClusterNumber

def isEmptyStorage (d : Disk) : Bool := memcmp (n := 512) (d.readBlocks 0 1) fsSignature != 0

def initializeFilesystemFat32 (π : Platform) (s : Machine) : Option Machine :=
  if isEmptyStorage s.disk then createFat32 π s
  else some { s with memory.fatTable := fatPacked.symm (s.disk.readClusters 1),
                     memory.dirTableBuf := tablePacked.symm (s.disk.readClusters 2) }

/-! ## Reading -/

/-- One `read_clusters` into the caller's buffer. -/
structure Load where
  offset : ℕ
  cluster : UInt32

/-- What a read leaves: its code, the caller's buffer, the loads made into it, and the machine. -/
structure ReadResult where
  code : Int
  buf : ℕ → UInt8
  loads : List Load
  machine : Machine

/-- A cluster copied into memory. -/
def blit (buf : ℕ → UInt8) (offset : ℕ) (data : ClusterBuffer) : ℕ → UInt8 :=
  fun a => if offset ≤ a ∧ a < offset + 2048 then cell data (a - offset) else buf a

def deliver (d : Disk) (loads : List Load) (buf : ℕ → UInt8) : ℕ → UInt8 :=
  loads.foldl (fun b l => blit b l.offset (d.readClusters l.cluster)) buf

/-- The first load of `read` and `read_directory`. -/
def loadParent (s : Machine) (r : FAT32DriverRequest) : Machine :=
  { s with memory.dirTableBuf := tablePacked.symm (s.disk.readClusters r.parentClusterNumber) }

def dot : Vector UInt8 8 := #v[46, 0, 0, 0, 0, 0, 0, 0]

/-- `read_directory` once the directory is loaded. -/
def readDirectoryLoaded (s : Machine) (r : FAT32DriverRequest) : ReadResult :=
  let idx :=
    if memcmp r.name dot = 0 then some 0
    else first (fun i => memcmp (cell s.memory.dirTableBuf i).name r.name == 0) 1 64
  match idx with
  | none => ⟨2, r.buf, [], s⟩
  | some idx =>
    let loads := [⟨0, (cell s.memory.dirTableBuf idx).cluster⟩]
    ⟨0, deliver s.disk loads r.buf, loads, s⟩

def readDirectory (s : Machine) (r : FAT32DriverRequest) : ReadResult := readDirectoryLoaded (loadParent s r) r

/-- The loop of `read`, from round `j` on with `n` rounds to go. -/
def readLoop (π : Platform) (m : FAT32DriverState) : (n j : ℕ) → (clusterNumber : UInt32) → List Load
  | 0, _, _ => []
  | n + 1, j, clusterNumber =>
    ⟨j * 2048, clusterNumber⟩ :: readLoop π m n (j + 1) (mapAt π m clusterNumber.toNat)

/-- `read` once the directory is loaded. -/
def readLoaded (π : Platform) (s : Machine) (r : FAT32DriverRequest) : ReadResult :=
  match findEntry s.memory.dirTableBuf r.name r.ext with
  | none => ⟨2, r.buf, [], s⟩
  | some idx =>
    let entry := cell s.memory.dirTableBuf idx
    if entry.attributeByte = 1 ∨ r.bufferSize = 0 then ⟨1, r.buf, [], s⟩
    else
      let clusterCount := entry.filesize / 2048 + 1
      if clusterCount * 2048 < entry.filesize then ⟨0, r.buf, [], s⟩
      else
        let loads := readLoop π s.memory clusterCount.toNat 0 entry.cluster
        ⟨0, deliver s.disk loads r.buf, loads, s⟩

def read (π : Platform) (s : Machine) (r : FAT32DriverRequest) : ReadResult := readLoaded π (loadParent s r) r

/-! ## Writing -/

/-- The two loads `write` and `delete` begin with. -/
def reload (s : Machine) (r : FAT32DriverRequest) : Machine :=
  { s with memory.dirTableBuf := tablePacked.symm (s.disk.readClusters r.parentClusterNumber),
           memory.fatTable := fatPacked.symm (s.disk.readClusters 1) }

/-- `ceil((double) x / y)`: the quotient of these sizes is exact, and its integer part is `x / y`. -/
def ceil (x y : ℕ) : ℕ := if x % y ≠ 0 then x / y + 1 else x / y

/-- The byte `memory.dir_table_buf.table[j].user_attribute`: the driver state is packed, so from slot
64 on it lies in `cluster_buf`. -/
def slotAttribute (m : FAT32DriverState) (j : ℕ) : UInt8 :=
  if j < 64 then (cell m.dirTableBuf j).userAttribute else cell m.clusterBuf (32 * (j - 64) + 12)

/-- The store `memory.dir_table_buf.table[j] = entry`, from slot 64 on into `cluster_buf`. -/
def storeSlot (m : FAT32DriverState) (j : ℕ) (entry : FAT32DirectoryEntry) : FAT32DriverState :=
  if j < 64 then { m with dirTableBuf := store m.dirTableBuf j entry }
  else { m with clusterBuf := tablePacked (store (tablePacked.symm m.clusterBuf) (j - 64) entry) }

/-- The `new_entry` of a file that starts in cluster `first`. -/
def fileEntry (r : FAT32DriverRequest) (first : ℕ) : FAT32DirectoryEntry :=
  { (default : FAT32DirectoryEntry) with
    name := r.name
    ext := r.ext
    userAttribute := uattrNotEmpty
    filesize := r.bufferSize
    clusterHigh := FAT32DirectoryEntry.highHalf (UInt32.ofNat first)
    clusterLow := FAT32DirectoryEntry.lowHalf (UInt32.ofNat first) }

/-- The variables of the allocation loop; `previndex` is -1 before the first round. -/
structure Allocation where
  memory : FAT32DriverState
  tempindex : ℕ
  previndex : Option ℕ
  firstindex : ℕ

/-- The rest of round `i` of the allocation loop, once the search has stopped at `tempindex`. -/
def allocateRound (r : FAT32DriverRequest) (directoryIdx requiredClusters i : ℕ) (a : Allocation)
    (tempindex : ℕ) : Allocation :=
  let a := if i = 0 then
      { a with firstindex := tempindex, memory := storeSlot a.memory directoryIdx (fileEntry r tempindex) }
    else a
  let a := match a.previndex with
    | none => a
    | some p => { a with memory.fatTable := store a.memory.fatTable p (UInt32.ofNat tempindex) }
  let a := if i = requiredClusters - 1 then
      { a with memory.fatTable := store a.memory.fatTable tempindex fatEndOfFile }
    else a
  { a with previndex := some tempindex, tempindex := tempindex + 1 }

/-- The allocation loop of `write`, from round `i` on with `n` rounds to go. When the map runs out it
leaves the memory as it is at that point. -/
def allocate (r : FAT32DriverRequest) (directoryIdx requiredClusters : ℕ) :
    (n i : ℕ) → Allocation → Except FAT32DriverState Allocation
  | 0, _, a => .ok a
  | n + 1, i, a =>
    match first (isEmptyEntry a.memory.fatTable) a.tempindex 512 with
    | none => .error a.memory
    | some tempindex =>
      allocate r directoryIdx requiredClusters n (i + 1)
        (allocateRound r directoryIdx requiredClusters i a tempindex)

/-- The copy loop of `write`. Its sizes are those of an allocated file, so `int totalsize` is exact. -/
def copyLoop (π : Platform) (r : FAT32DriverRequest) : (n i totalsize tempindex : ℕ) → Machine → Machine
  | 0, _, _, _, s => s
  | n + 1, i, totalsize, tempindex, s =>
    let writesize := if totalsize ≥ 2048 then 2048 else totalsize
    let totalsize := if totalsize ≥ 2048 then totalsize - 2048 else totalsize
    let buffer := Vector.ofFn fun b : Fin 2048 => if b.1 < writesize then r.buf (i * 2048 + b.1) else 0
    let s := { s with memory.clusterBuf := buffer }.writeClusters buffer (UInt32.ofNat tempindex)
    copyLoop π r n (i + 1) totalsize (mapAt π s.memory tempindex).toNat s

/-- The folder branch of `write`. -/
def writeFolder (s : Machine) (r : FAT32DriverRequest) : Option (Int × Machine) :=
  match first (isFreeSlot s.memory.dirTableBuf) 0 64 with
  | none => some (-1, s)
  | some _ => do
    let s ← initDirectoryTable { s with memory.dirTableBuf := zeroTable } r.name r.parentClusterNumber
    return (0, s)

/-- The file branch of `write`. Its slot search has no bound: past the driver state it is undefined. -/
def writeFile (π : Platform) (s : Machine) (r : FAT32DriverRequest) (index : ℕ) : Option (Int × Machine) :=
  match first (fun j => slotAttribute s.memory j != uattrNotEmpty) 0 128 with
  | none => none
  | some directoryIdx =>
    let requiredClusters := ceil r.bufferSize.toNat 2048
    match allocate r directoryIdx requiredClusters requiredClusters 0 ⟨s.memory, index, none, 0⟩ with
    | .error memory => some (-1, { s with memory := memory })
    | .ok a =>
      let s := copyLoop π r requiredClusters 0 r.bufferSize.toNat a.firstindex { s with memory := a.memory }
      let s := s.writeClusters (fatPacked s.memory.fatTable) fatClusterNumber
      some (0, s.writeClusters (tablePacked s.memory.dirTableBuf) r.parentClusterNumber)

/-- `write` after its two loads. -/
def writeLoaded (π : Platform) (s : Machine) (r : FAT32DriverRequest) : Option (Int × Machine) :=
  match first (isEmptyEntry s.memory.fatTable) (rootClusterNumber.toNat + 1) 512 with
  | none => some (-1, s)
  | some index =>
    if (cell s.memory.dirTableBuf 0).userAttribute = uattrNotEmpty then
      match findEntry s.memory.dirTableBuf r.name r.ext with
      | some _ => some (1, s)
      | none => if r.bufferSize = 0 then writeFolder s r else writeFile π s r index
    else some (-1, s)

def write (π : Platform) (s : Machine) (r : FAT32DriverRequest) : Option (Int × Machine) :=
  writeLoaded π (reload s r) r

/-! ## Deleting -/

/-- The loop that zeroes a chain. Its state is `currentcluster` alone, so a loop that has not ended
after 2^32 rounds never does. -/
def purgeLoop (π : Platform) : (fuel : ℕ) → (currentcluster : UInt32) → Machine → Option Machine
  | 0, _, _ => none
  | n + 1, currentcluster, s =>
    let nextcluster := mapAt π s.memory currentcluster.toNat
    let s := s.writeClusters s.memory.clusterBuf currentcluster
    if nextcluster = fatEndOfFile then some s else purgeLoop π n nextcluster s

/-- The last step of `delete`: clear the slot and store the directory. -/
def dropSlot (s : Machine) (r : FAT32DriverRequest) (index : ℕ) : Machine :=
  let dirTable := store s.memory.dirTableBuf index default
  { s with memory.dirTableBuf := dirTable }.writeClusters (tablePacked dirTable) r.parentClusterNumber

/-- `delete` after its two loads. -/
def deleteLoaded (π : Platform) (s : Machine) (r : FAT32DriverRequest) : Option (Int × Machine) :=
  match findEntry s.memory.dirTableBuf r.name r.ext with
  | none => some (1, s)
  | some index =>
    let entry := cell s.memory.dirTableBuf index
    let cluster := entry.cluster
    if cluster = rootClusterNumber then some (-1, s)
    else if entry.filesize = 0 then
      let temp := tablePacked.symm (s.disk.readClusters cluster)
      match first (fun i => (cell temp i).userAttribute == uattrNotEmpty) 2 64 with
      | some _ => some (2, s)
      | none =>
        let s := { s with memory.clusterBuf := zeroCluster }.writeClusters zeroCluster cluster
        if cluster.toNat < 512 then
          let fatTable := store s.memory.fatTable cluster.toNat fatEmptyEntry
          let s := { s with memory.fatTable := fatTable }.writeClusters (fatPacked fatTable) fatClusterNumber
          some (0, dropSlot s r index)
        else none
    else do
      let s ← purgeLoop π (2 ^ 32) cluster { s with memory.clusterBuf := zeroCluster }
      return (0, dropSlot s r index)

def delete (π : Platform) (s : Machine) (r : FAT32DriverRequest) : Option (Int × Machine) :=
  deleteLoaded π (reload s r) r

end BebasOs.Fat32
