/-
What the shell is for: its user stands in a folder of a tree, makes folders and removes what is in them, goes down and
up, lists the names and shows the files. Beside it stands the shell itself, which is given a line of bytes, asks the
file system for clusters, and keeps a stack of their numbers.
-/
import BebasOs.Fat32.Inserter
import BebasOs.Shell.Commands

namespace BebasOs.Shell

open Bytes Search Fat32 Disk FileTree

/-! ## Commands -/

/-- A word for a name: no more characters than `cd` takes, and none that ends it in the line or in a path, that is white
space, or that means no name to the file system. -/
structure Word where
  chars : List UInt8
  ne_nil : chars ≠ []
  length_le : chars.length ≤ 7
  plain : ∀ x ∈ chars, x ∉ [0, 9, 10, 13, 32, dotByte, splitter, 0xE5]

/-- The name, without an extension. -/
def Word.key (w : Word) : Key := (nameOf w.chars, Vector.replicate 3 0)

inductive Command where
  | mkdir (w : Word)
  | rm (w : Word)
  | cd (w : Word)
  /-- `cd ..` -/
  | up
  | ls
  | cat (w : Word)

/-- What the user types. -/
def Command.text : Command → List UInt8
  | .mkdir w => [109, 107, 100, 105, 114] ++ 32 :: w.chars
  | .rm w => [114, 109] ++ 32 :: w.chars
  | .cd w => [99, 100] ++ 32 :: w.chars
  | .up => [99, 100, 32, 46, 46]
  | .ls => [108, 115]
  | .cat w => [99, 97, 116] ++ 32 :: w.chars

theorem Command.length_text (c : Command) : c.text.length < 256 := by
  cases c with
  | mkdir w | rm w | cd w | cat w =>
    have := w.length_le
    simp only [Command.text, List.length_append, List.length_cons, List.length_nil]
    omega
  | up | ls => decide

def Command.line (c : Command) : Line := lineWith c.text c.length_text

/-! ## The session -/

/-- What a command shows. -/
inductive Display where
  | message (text : String) (color : UInt32)
  /-- The name of the folder itself and the names in it. -/
  | names (own : Key) (keys : Set Key)
  | bytes (content : List UInt8)

structure Session where
  volume : Volume
  /-- The path of the folder that the user is in. -/
  path : List Key

/-- A request under the name; a write of it makes a folder. -/
def Word.request (w : Word) : FAT32DriverRequest := ⟨fun _ => 0, w.key.1, w.key.2, 0, 0⟩

/-- What is said after a folder was to be made. -/
def madeText (code : Int) : Display :=
  if code = 0 then .message "Folder created successfully" 0x2
  else if code = 1 then .message "Folder already exists" 0x4
  else .message "Unknown error" 0x4

/-- What is said after a removal. -/
def removedText (code : Int) : Display :=
  if code = 0 then .message "File or directory removed successfully." 0xF
  else .message "Failed to remove file or directory." 0x4

/-- The code of a reply. -/
def replyCode : Reply → Int
  | .done code => code
  | _ => 0

namespace Session

noncomputable def serve (π : Platform) (t : Session) : Command → Display × Session
  | .mkdir w =>
    let result := t.volume.write π t.path w.request
    (madeText (replyCode result.1), ⟨result.2, t.path⟩)
  | .rm w =>
    let result := t.volume.delete π t.path w.request
    (removedText (replyCode result.1), ⟨result.2, t.path⟩)
  | .cd w =>
    if t.volume.tree.node (w.key :: t.path) = some .folder then
      (.message "Successfully changed directory." 0xF, ⟨t.volume, w.key :: t.path⟩)
    else (.message "Directory not found!" 0x4, t)
  | .up =>
    match t.path with
    | [] => (.message "Already in root" 0x4, t)
    | _ :: ks => (.message "Successfully changed directory." 0xF, ⟨t.volume, ks⟩)
  | .ls => (.names (ownKey π t.path) (t.volume.tree.children t.path), t)
  | .cat w =>
    match t.volume.tree.node (w.key :: t.path) with
    | some (.file bytes) => (.bytes (bytes.take 4096), t)
    | _ => (.message "Can't find the file!" 0x4, t)

/-- What the shell does not look after itself: an empty folder is not removed from inside by its own name, the stack has
room for one cluster more, only folders are gone into and only files are shown, of no more bytes than there is room
for. -/
def Permitted (π : Platform) (t : Session) : Command → Prop
  | .mkdir _ | .up | .ls => True
  | .rm w => w.key = ownKey π t.path → t.path ≠ [] → (t.volume.tree.children t.path).Nonempty
  | .cd w => t.path.length < 99 ∧ ∀ bytes, t.volume.tree.node (w.key :: t.path) ≠ some (.file bytes)
  | .cat w => w.key ≠ ownKey π t.path ∧ t.volume.tree.node (w.key :: t.path) ≠ some .folder ∧
    ∀ bytes, t.volume.tree.node (w.key :: t.path) = some (.file bytes) → bytes.length ≤ 4 * 2048

variable {π : Platform} {t : Session} {w : Word}

theorem serve_cd (h : t.volume.tree.node (w.key :: t.path) = some .folder) : t.serve π (.cd w) =
    (.message "Successfully changed directory." 0xF, ⟨t.volume, w.key :: t.path⟩) := if_pos h

theorem serve_cat {bytes : List UInt8} (h : t.volume.tree.node (w.key :: t.path) = some (.file bytes)) :
    t.serve π (.cat w) = (.bytes (bytes.take 4096), t) := by
  unfold serve
  simp only [h]

theorem serve_cat_unfound (h : t.volume.tree.node (w.key :: t.path) = none) :
    t.serve π (.cat w) = (.message "Can't find the file!" 0x4, t) := by
  unfold serve
  simp only [h]

theorem serve_cd_unfound (h : t.volume.tree.node (w.key :: t.path) ≠ some .folder) :
    t.serve π (.cd w) = (.message "Directory not found!" 0x4, t) := if_neg h

end Session

/-! ## The shell -/

/-- A command, with what the memory holds while it is carried out where the code has not stored, and the locals of the
branches for copies. -/
structure Turn where
  command : Command
  memory : ℕ → UInt8
  locals : Locals

/-- The command of a turn in the session. -/
noncomputable def Session.respond (π : Platform) (t : Session) (x : Turn) : Display × Session := t.serve π x.command

def Session.Allows (π : Platform) (t : Session) (x : Turn) : Prop := t.Permitted π x.command

/-- What the shell puts on the screen: its messages, and the other texts. -/
structure Output where
  messages : List (String × UInt32)
  texts : List (List UInt8)

/-- A command given to the shell. -/
def turn (π : Platform) (sh : State) (x : Turn) : Option (Output × State) :=
  (parseCommand π { sh with printed := [] } x.command.line x.memory x.locals).map fun y => (⟨y.1.printed, y.2⟩, y.1)

/-- The text of a name in a listing. -/
def titled (k : Key) : List UInt8 := nameText k.1 ++ [32]

/-- What is on the screen is what the command shows. A listing has the names in the order of their slots, with null
bytes among them, and behind the end of a file come the other bytes of its last cluster. -/
def Output.Matches (o : Output) : Display → Prop
  | .message text color => o.messages = [(text, color)] ∧ o.texts = []
  | .names own keys => o.messages = [] ∧ ∃ l : List Key, l.Nodup ∧ (∀ k, k ∈ l ↔ k ∈ keys) ∧
    o.texts.flatten.filter (· ≠ 0) = (own :: l).flatMap titled
  | .bytes content => o.messages = [] ∧ content <+: o.texts.flatten

/-- The shell as it starts. What its memory holds for `dirbuffer` is left open. -/
def State.initial (s : Machine) (dirbuffer : ℕ → UInt8) : State where
  idx := 0
  clusters := store (Vector.replicate 100 0) 0 rootClusterNumber
  parentCluster := 2
  dirbuffer := dirbuffer
  machine := s
  printed := []

/-- The names are words. -/
def Worded (v : Volume) : Prop := ∀ ks, ∀ k ∈ v.tree.children ks, ∃ w : Word, w.key = k

/-- The user is where the shell is: its cluster is that of the folder, and its stack has the clusters of the folders on
the path to it. -/
structure StandsAt (π : Platform) (sh : State) (t : Session) : Prop where
  holds : Represents π sh.machine t.volume
  worded : Worded t.volume
  room : t.path.length < 100
  idx : sh.idx = t.path.length
  here : sh.machine.disk.dirAt t.path = some sh.parentCluster.toNat
  stack : ∀ i ≤ sh.idx, sh.machine.disk.dirAt (t.path.drop (sh.idx - i)) = some (cell sh.clusters i).toNat

end BebasOs.Shell
