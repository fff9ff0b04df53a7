/-
What the file system is for: a tree of folders and files, an amount of free space, and requests that name a folder by
its path. The two special slots of a directory show as two names that each folder has, its own and `..`; the space of a
deleted file is not given back, that of a folder is. A restart changes nothing. Beside it stands the driver, used by a
program that keeps the cluster of the directory at the path.
-/
import BebasOs.Lib.Refinement
import BebasOs.Fat32.NameTree
import BebasOs.Shell.Prompt

namespace BebasOs.Fat32

open Bytes Search Disk FileTree Shell

/-! ## The volume -/

structure Volume where
  tree : FileTree.Tree Key (List UInt8)
  /-- The number of free clusters. -/
  space : ℕ

/-- A request to the folder at a path, or the machine is switched off and on. -/
inductive Input where
  | request (dir : List Key) (q : Request)
  | restart

inductive Reply where
  | done (code : Int)
  | content (bytes : List UInt8)
  /-- A listing tells folders from files, and the size of a file. -/
  | listing (names : Key → Option (Node ℕ))

/-- The name `..`. -/
def upKey : Key := (dotDot, Vector.replicate 3 0)

/-- The name in slot 0 of a directory. -/
def ownKey (π : Platform) : List Key → Key
  | [] => (rootName π, Vector.replicate 3 0)
  | k :: _ => k

namespace Volume

/-- A new volume. -/
def new : Volume := ⟨Tree.empty, 509⟩

/-- The path that a name leads to from a folder. -/
def resolve (π : Platform) (v : Volume) (ks : List Key) (k : Key) : Option (List Key) :=
  if k = ownKey π ks then some ks
  else if k = upKey then some ks.tail
  else (v.tree.node (k :: ks)).map fun _ => k :: ks

/-- A folder takes 62 entries. -/
def Full (v : Volume) (ks : List Key) : Prop := 62 ≤ (v.tree.children ks).ncard

/-- What a path shows. -/
def contents (v : Volume) (ks : List Key) : Reply :=
  match v.tree.node ks with
  | some (.file bytes) => .content bytes
  | _ => .listing fun k => (v.tree.node (k :: ks)).map (Node.map List.length)

/-- The part of it that lies in the first cluster. -/
def firstCluster (v : Volume) (ks : List Key) : Reply :=
  match v.tree.node ks with
  | some (.file bytes) => .content (bytes.take 2048)
  | _ => v.contents ks

/-- What a request puts into the tree. -/
def made (r : FAT32DriverRequest) : Node (List UInt8) := if r.bufferSize = 0 then .folder else .file (bufferBytes r)

open Classical in
noncomputable def write (π : Platform) (v : Volume) (ks : List Key) (r : FAT32DriverRequest) : Reply × Volume :=
  if v.space = 0 then (.done (-1), v)
  else if v.resolve π ks r.key ≠ none then (.done 1, v)
  else if r.bufferSize = 0 ∧ v.Full ks ∨ v.space < needed r then (.done (-1), v)
  else (.done 0, ⟨v.tree.insert ks r.key (made r), v.space - needed r⟩)

open Classical in
noncomputable def delete (π : Platform) (v : Volume) (ks : List Key) (r : FAT32DriverRequest) : Reply × Volume :=
  match v.resolve π ks r.key with
  | none => (.done 1, v)
  | some [] => (.done (-1), v)
  | some (k :: ls) =>
    if v.tree.node (k :: ls) = some .folder then
      if (v.tree.children (k :: ls)).Nonempty then (.done 2, v) else (.done 0, ⟨v.tree.erase ls k, v.space + 1⟩)
    else (.done 0, ⟨v.tree.erase ls k, v.space⟩)

def read (π : Platform) (v : Volume) (ks : List Key) (r : FAT32DriverRequest) : Reply :=
  match v.resolve π ks r.key with
  | none => .done 2
  | some ls => if r.bufferSize = 0 then .done 1 else v.contents ls

open Classical in
noncomputable def readDirectory (v : Volume) (ks : List Key) (r : FAT32DriverRequest) : Reply :=
  if r.name = dot then v.contents ks
  else if r.name = dotDot then v.contents ks.tail
  else if h : ∃ k ∈ v.tree.children ks, k.1 = r.name then v.firstCluster (h.choose :: ks)
  else .done 2

noncomputable def serve (π : Platform) (v : Volume) : Input → Reply × Volume
  | .request ks (.write r) => v.write π ks r
  | .request ks (.delete r) => v.delete π ks r
  | .request ks (.read r) => (v.read π ks r, v)
  | .request ks (.readDirectory r) => (v.readDirectory ks r, v)
  | .restart => (.done 0, v)

theorem serve_write (π : Platform) (v : Volume) (ks : List Key) (r : FAT32DriverRequest) :
    v.serve π (.request ks (.write r)) = v.write π ks r := rfl

theorem serve_delete (π : Platform) (v : Volume) (ks : List Key) (r : FAT32DriverRequest) :
    v.serve π (.request ks (.delete r)) = v.delete π ks r := rfl

theorem serve_read (π : Platform) (v : Volume) (ks : List Key) (r : FAT32DriverRequest) :
    v.serve π (.request ks (.read r)) = (v.read π ks r, v) := rfl

/-- What the driver does not look after itself: the folder is there and the name is one, a folder is asked for without
an extension and a file not where there is no slot, an empty folder does not delete itself, and a folder is not read by
a name that two of its entries share. -/
def Permitted (π : Platform) (v : Volume) : Input → Prop
  | .restart => True
  | .request ks q => v.tree.node ks = some .folder ∧ Named q.data ∧
    match q with
    | .write r => if r.bufferSize = 0 then r.ext = Vector.replicate 3 0 else ¬ v.Full ks
    | .delete r => r.key = ownKey π ks → ks ≠ [] → (v.tree.children ks).Nonempty
    | .read _ => True
    | .readDirectory r => ∀ k ∈ v.tree.children ks, ∀ k' ∈ v.tree.children ks, k.1 = r.name → k'.1 = r.name → k = k'

end Volume

/-! ## The driver -/

/-- The request for another directory. -/
def FAT32DriverRequest.to (r : FAT32DriverRequest) (p : ℕ) : FAT32DriverRequest :=
  { r with parentClusterNumber := UInt32.ofNat p }

/-- A code, the caller's buffer after it, and the machine. -/
def answer (π : Platform) (s : Machine) (p : ℕ) : Request → Option ((Int × (ℕ → UInt8)) × Machine)
  | .write r => (Fat32.write π s (r.to p)).map fun x => ((x.1, r.buf), x.2)
  | .delete r => (Fat32.delete π s (r.to p)).map fun x => ((x.1, r.buf), x.2)
  | .read r =>
    let result := Fat32.read π s (r.to p)
    some ((result.code, result.buf), result.machine)
  | .readDirectory r =>
    let result := Fat32.readDirectory s (r.to p)
    some ((result.code, result.buf), result.machine)

/-- The directory is the one at the path; switching the machine on mounts its disk. -/
def respond (π : Platform) (s : Machine) : Input → Option ((Int × (ℕ → UInt8)) × Machine)
  | .request ks q => (s.disk.dirAt ks).bind fun p => answer π s p q
  | .restart => (initializeFilesystemFat32 π (powerOn s.disk)).map fun s' => ((0, fun _ => 0), s')

/-- What a listing tells of an entry. -/
def FAT32DirectoryEntry.kind (e : FAT32DirectoryEntry) : Node ℕ :=
  if e.IsFolder then .folder else .file e.filesize.toNat

/-- The entries of a directory table by name. -/
def entriesOf (t : FAT32DirectoryTable) (k : Key) : Option (Node ℕ) :=
  (first (fun i => decide ((cell t i).Live ∧ (cell t i).key = k)) 2 64).map fun i => (cell t i).kind

/-- An answer of the driver is the reply. -/
def Matches (a : Int × (ℕ → UInt8)) : Reply → Prop
  | .done code => a.1 = code
  | .content bytes => a.1 = 0 ∧ (List.range bytes.length).map a.2 = bytes
  | .listing names => a.1 = 0 ∧ entriesOf (tableOf a.2) = names

/-- The volume on a disk. -/
def volumeOf (d : Disk) : Volume := ⟨d.treeOf, (freeClusters d.fat).length⟩

end BebasOs.Fat32
