/-
The runs of a new disk against the volume: each answer is the one of the volume and so is the disk at the end, restarts
included. Two things follow that are said of the volume alone. What was written is read back for as long as it is not
deleted, and a delete undoes a write, but for the space of a file.
-/
import BebasOs.Fat32.Replies

namespace BebasOs.Fat32

open Bytes Links Search Disk FileTree Refinement

variable {π : Platform} {s s' s₀ s₁ : Machine} {r q : FAT32DriverRequest} {d : Disk} {p : ℕ}
  {ks : List Key} {v : Volume} {is js : List Input} {as : List (Int × (ℕ → UInt8))} {buf : ℕ → UInt8}

/-- The machine holds the volume. -/
def Represents (π : Platform) (s : Machine) (v : Volume) : Prop := Consistent π s ∧ volumeOf s.disk = v

theorem parent_to (hp : p < 512) : (r.to p).parent = p := toNat_ofNat_cluster hp

/-- A read leaves the volume. -/
theorem Consistent.of_read {q : Request} {code : Int} (hs : Consistent π s) (hp : s.disk.LiveDir q.data.parent)
    (hq : ∃ r, q = .read r ∨ q = .readDirectory r) (h : perform π s q = some (code, s')) :
    Represents π s' (volumeOf s.disk) := by
  have hdisk := (error_keeps_disk h).2 hq
  exact ⟨hs.of_disk hdisk ((perform_effect hs.toSound hp h).coherent hs.toSound hp hs.coherent), by rw [hdisk]⟩

theorem respond_request {q : Request} (hp : s.disk.dirAt ks = some p) :
    respond π s (.request ks q) = answer π s p q := by
  unfold respond
  simp only [hp, Option.bind_some]

theorem respond_refines (π : Platform) :
    Refines (respond π) (Volume.serve π) (Volume.Permitted π) (Represents π) Matches := by
  rintro s _ (⟨ks, q⟩ | _) ⟨hs, rfl⟩ hP
  · obtain ⟨hnode, hnamed, hq⟩ := hP
    obtain ⟨p, hp⟩ := nodeAt_eq_folder.1 hnode
    have hlive := liveDir_of_dirAt hp
    have hlt := (hs.toSound.liveDir_range hlive).2
    have hparent (r : FAT32DriverRequest) : s.disk.dirAt ks = some (r.to p).parent := by rw [hp, parent_to hlt]
    have hlive (r : FAT32DriverRequest) : s.disk.LiveDir (r.to p).parent := liveDir_of_dirAt (hparent r)
    rw [respond_request hp]
    cases q with
    | write r =>
      obtain ⟨code, s', hw, hs', -, hv⟩ := hs.write (r := r.to p) (hparent r) hnamed hq
      refine ⟨(code, r.buf), s', ?_, ?_⟩
      · rw [answer, hw]
        rfl
      · rw [Volume.serve_write, show (volumeOf s.disk).write π ks r = _ from hv]
        exact ⟨rfl, hs', rfl⟩
    | delete r =>
      obtain ⟨code, s', hw, hs', -, hv⟩ := hs.delete (r := r.to p) (hparent r) hnamed hq
      refine ⟨(code, r.buf), s', ?_, ?_⟩
      · rw [answer, hw]
        rfl
      · rw [Volume.serve_delete, show (volumeOf s.disk).delete π ks r = _ from hv]
        exact ⟨rfl, hs', rfl⟩
    | read r =>
      exact ⟨_, _, rfl, hs.read (r := r.to p) (hparent r) hnamed,
        hs.of_read (q := .read (r.to p)) (hlive r) ⟨_, .inl rfl⟩ rfl⟩
    | readDirectory r =>
      exact ⟨_, _, rfl, hs.readDirectory (r := r.to p) (hparent r) hnamed hq,
        hs.of_read (q := .readDirectory (r.to p)) (hlive r) ⟨_, .inr rfl⟩ rfl⟩
  · obtain ⟨m, hm, hfat⟩ := initialize_mounted (π := π) (s := powerOn s.disk) hs.signature
    refine ⟨(0, fun _ => 0), ⟨m, s.disk, []⟩, ?_, rfl, hs.of_disk rfl (coherent_of_eq hfat), rfl⟩
    unfold respond
    rw [hm]
    rfl

/-! ## A new disk -/

theorem Formatted.keyed (h : Formatted π d s) : s.disk.Keyed π := by
  have hroot : (rootEntry π).IsFolder := rfl
  have hext : (rootEntry π).ext = Vector.replicate 3 0 := by
    show (default : FAT32DirectoryEntry).ext = _
    decide
  refine ⟨fun p hp i hi => ?_, ?_, fun p i he _ => absurd he h.not_liveEntry, fun p hp => ?_, fun p hp => ?_,
    fun p i he => absurd he h.not_liveEntry, fun p i he => absurd he.toLiveEntry h.not_liveEntry⟩
  · rw [h.liveDir hp]
    obtain rfl | rfl : i = 0 ∨ i = 1 := by omega
    · rw [h.slot_zero]
      exact hroot
    · rw [h.slot_one]
      exact isFolder_dotDotEntry hroot
  · rw [h.slot_zero]
    exact Prod.ext rfl hext
  · rw [h.liveDir hp, h.slot_zero]
    exact hext
  · rw [h.liveDir hp, h.slot_one]
    exact dotDotEntry_key hext

theorem Formatted.represents (h : Formatted π d s) : Represents π s Volume.new := by
  refine ⟨⟨h.wellFormed, h.tree, fun p i _ he => absurd he h.not_liveEntry, h.keyed,
    coherent_of_eq (by rw [h.memory, h.fat])⟩, ?_⟩
  have hnone (ks : List Key) (k : Key) : s.disk.entryIn (s.disk.dirAt ks) k = none := by
    rcases hp : s.disk.dirAt ks with _ | p
    · rfl
    · exact entryIn_eq_none.2 ((find_eq_none (liveDir_of_dirAt hp)).2 fun i he => absurd he h.not_liveEntry)
  have htree : s.disk.treeOf = Tree.empty := by
    apply FileTree.Tree.ext
    funext ks
    match ks with
    | [] => rfl
    | k :: ks =>
      rw [Tree.node_empty, node_treeOf, nodeAt, hnone, Option.map_none]
  unfold volumeOf Volume.new
  rw [htree, h.freeClusters, List.length_range']

theorem initialize_represents (hb : d.bootSector ≠ fsSignature)
    (h₀ : initializeFilesystemFat32 π (powerOn d) = some s₀) : Represents π s₀ Volume.new := by
  rw [initialize_formatted (s := powerOn d) hb] at h₀
  exact (formatted_of_create h₀).represents

/-- Every permitted run on a new disk has an answer to each input, each of them is the reply of the volume, and the disk
holds the volume at the end. -/
theorem run_refines (hb : d.bootSector ≠ fsSignature)
    (hP : Allowed (Volume.serve π) (Volume.Permitted π) Volume.new is) :
    ∃ s₀ as s, initializeFilesystemFat32 π (powerOn d) = some s₀ ∧ run (respond π) s₀ is = some (as, s) ∧
      List.Forall₂ Matches as (trace (Volume.serve π) Volume.new is).1 ∧
      volumeOf s.disk = (trace (Volume.serve π) Volume.new is).2 := by
  obtain ⟨s₀, h₀, -⟩ := createFat32_formatted π d
  rw [← initialize_formatted (s := powerOn d) hb] at h₀
  obtain ⟨as, s, hrun, hM, -, hv⟩ := (respond_refines π).run (initialize_represents hb h₀) hP
  exact ⟨s₀, as, s, h₀, hrun, hM, hv⟩

/-! ## Requests on the volume -/

theorem Volume.resolve_eq_none {k : Key} : v.resolve π ks k = none ↔
    k ≠ ownKey π ks ∧ k ≠ upKey ∧ v.tree.node (k :: ks) = none := by
  unfold Volume.resolve
  split_ifs with hown hup
  · exact iff_of_false (by simp) fun h => h.1 hown
  · exact iff_of_false (by simp) fun h => h.2.1 hup
  · rw [Option.map_eq_none_iff]
    exact ⟨fun h => ⟨hown, hup, h⟩, fun h => h.2.2⟩

/-- Of a request to make a folder nothing counts but its name. -/
theorem Volume.write_folder_congr (hk : q.key = r.key) (hq : q.bufferSize = 0) (hr : r.bufferSize = 0) :
    v.write π ks q = v.write π ks r := by
  unfold Volume.write
  rw [hk, made, made, if_pos hq, if_pos hr, needed_of_folder hq, needed_of_folder hr, hq, hr]

theorem Volume.delete_congr (hk : q.key = r.key) : v.delete π ks q = v.delete π ks r := by
  unfold Volume.delete
  rw [hk]

theorem Volume.write_code {code : Int} (h : (v.write π ks r).1 = .done code) : code = -1 ∨ code = 1 ∨ code = 0 := by
  unfold Volume.write at h
  split_ifs at h <;> cases h <;> decide

/-- A write takes nothing away, and adds nothing but its name. -/
theorem Volume.write_node {ls : List Key} {x : Node (List UInt8)} (h : v.tree.node ls = some x) :
    (v.write π ks r).2.tree.node ls = some x := by
  unfold Volume.write
  split_ifs
  · exact h
  · exact h
  · exact h
  · exact Tree.node_insert_of_some h

theorem Volume.write_children {ls : List Key} {k : Key} (h : k ∈ (v.write π ks r).2.tree.children ls) :
    k = r.key ∨ k ∈ v.tree.children ls := by
  unfold Volume.write at h
  split_ifs at h
  · exact .inr h
  · exact .inr h
  · exact .inr h
  · exact Tree.children_insert_subset h

/-- A delete leaves the folders on its path, and adds nothing. -/
theorem Volume.delete_node (hf : v.tree.node ks = some .folder) (hup : r.key ≠ upKey)
    (hown : r.key = ownKey π ks → ks ≠ [] → (v.tree.children ks).Nonempty) (i : ℕ) :
    (v.delete π ks r).2.tree.node (ks.drop i) = some .folder := by
  have hdrop := v.tree.node_drop hf i
  by_cases hkey : r.key = ownKey π ks
  · have hres : v.resolve π ks r.key = some ks := if_pos hkey
    rw [Volume.delete_folder ks hres hf (hown hkey)]
    exact hdrop
  · have hres : v.resolve π ks r.key = (v.tree.node (r.key :: ks)).map fun _ => r.key :: ks := by
      unfold Volume.resolve
      rw [if_neg hkey, if_neg hup]
    have hne : ks.drop i ≠ r.key :: ks := fun hc => by
      have := congrArg List.length hc
      rw [List.length_drop, List.length_cons] at this
      omega
    rcases hnode : v.tree.node (r.key :: ks) with _ | x
    · rw [hnode] at hres
      unfold Volume.delete
      simp only [hres, Option.map_none, hdrop]
    · rw [hnode, Option.map_some] at hres
      unfold Volume.delete
      simp only [hres]
      split_ifs
      · exact hdrop
      · rwa [Tree.node_erase_of_ne hne]
      · rwa [Tree.node_erase_of_ne hne]

theorem Volume.delete_children {ls : List Key} : (v.delete π ks r).2.tree.children ls ⊆ v.tree.children ls := by
  unfold Volume.delete
  split
  · exact subset_rfl
  · exact subset_rfl
  · split_ifs
    · exact subset_rfl
    · exact Tree.children_erase_subset
    · exact Tree.children_erase_subset

/-! ## What is written stays -/

/-- A name that leads to a file is its name in its folder: the other two lead to folders. -/
theorem Volume.resolve_file {k k' : Key} {ls : List Key} {bytes : List UInt8} (hf : v.tree.node ls = some .folder)
    (hn : v.tree.node (k :: ks) = some (.file bytes)) (hr : v.resolve π ls k' = some (k :: ks)) : ls = ks ∧ k' = k := by
  unfold Volume.resolve at hr
  split_ifs at hr with hown hup
  · rw [Option.some.inj hr, hn] at hf
    cases hf
  · match ls, hr with
    | [], hr => cases hr
    | l :: ls, hr =>
      have habove := v.tree.above l ls _ hf
      rw [show ls = k :: ks from Option.some.inj hr, hn] at habove
      cases habove
  · obtain ⟨_, -, hr⟩ := Option.map_eq_some_iff.1 hr
    exact ⟨(List.cons.inj hr).2, (List.cons.inj hr).1⟩

/-- A file is only taken away by a delete of its name in its folder. -/
theorem Volume.serve_file {k : Key} {bytes : List UInt8} (hn : v.tree.node (k :: ks) = some (.file bytes)) {i : Input}
    (hi : ∀ r, i = .request ks (.delete r) → r.key ≠ k) (hP : v.Permitted π i) :
    (v.serve π i).2.tree.node (k :: ks) = some (.file bytes) := by
  match i with
  | .restart => exact hn
  | .request ls (.read r) => exact hn
  | .request ls (.readDirectory r) => exact hn
  | .request ls (.write r) => exact Volume.write_node hn
  | .request ls (.delete r) =>
    show (v.delete π ls r).2.tree.node (k :: ks) = _
    unfold Volume.delete
    split
    · exact hn
    · exact hn
    · rename_i k' ls' hres
      have hne : k :: ks ≠ k' :: ls' := fun hc => by
        obtain ⟨rfl, rfl⟩ := List.cons.inj hc
        obtain ⟨rfl, hk⟩ := Volume.resolve_file hP.1 hn hres
        exact hi r rfl hk
      split_ifs
      · exact hn
      · rw [Tree.node_erase_of_ne hne]
        exact hn
      · rw [Tree.node_erase_of_ne hne]
        exact hn

/-- A run on a new disk comes to a machine that holds a volume. -/
theorem run_represents (hb : d.bootSector ≠ fsSignature) (h₀ : initializeFilesystemFat32 π (powerOn d) = some s₀)
    (hP : Allowed (Volume.serve π) (Volume.Permitted π) Volume.new is) (hrun : run (respond π) s₀ is = some (as, s)) :
    Represents π s (volumeOf s.disk) := by
  obtain ⟨as', s', hrun', -, hs, -⟩ := (respond_refines π).run (initialize_represents hb h₀) hP
  rw [hrun] at hrun'
  cases hrun'
  exact ⟨hs, rfl⟩

/-- The replies to a write are codes. -/
theorem Volume.done_of_matches {code : Int} (h : Matches (code, buf) (v.write π ks r).1) :
    (v.write π ks r).1 = .done code := by
  unfold Volume.write at h ⊢
  split_ifs at h ⊢ <;> exact congrArg Reply.done (Eq.symm h)

/-- A write that is answered with 0 puts its node under a name that leads nowhere. -/
theorem Volume.write_served (hw : (v.write π ks r).1 = .done 0) : v.resolve π ks r.key = none ∧ needed r ≤ v.space ∧
    (v.write π ks r).2 = ⟨v.tree.insert ks r.key (made r), v.space - needed r⟩ := by
  unfold Volume.write at hw ⊢
  by_cases h1 : v.space = 0
  · rw [if_pos h1] at hw
    cases hw
  rw [if_neg h1] at hw ⊢
  by_cases h2 : v.resolve π ks r.key ≠ none
  · rw [if_pos h2] at hw
    cases hw
  rw [if_neg h2] at hw ⊢
  by_cases h3 : r.bufferSize = 0 ∧ v.Full ks ∨ v.space < needed r
  · rw [if_pos h3] at hw
    cases hw
  rw [if_neg h3]
  exact ⟨not_not.1 h2, Nat.le_of_not_lt fun hlt => h3 (.inr hlt), rfl⟩

/-- A file that was written on a run of a new disk is read back after any more requests and restarts, unless one of them
deletes its name in its folder. -/
theorem run_durable (hb : d.bootSector ≠ fsSignature) (h₀ : initializeFilesystemFat32 π (powerOn d) = some s₀)
    (hP : Allowed (Volume.serve π) (Volume.Permitted π) Volume.new is) (hrun : run (respond π) s₀ is = some (as, s))
    (hr : r.bufferSize ≠ 0) (hPr : (volumeOf s.disk).Permitted π (.request ks (.write r)))
    (hw : respond π s (.request ks (.write r)) = some ((0, buf), s₁))
    (hPs : Allowed (Volume.serve π) (Volume.Permitted π) (volumeOf s₁.disk) js)
    (hjs : ∀ r', .request ks (.delete r') ∈ js → r'.key ≠ r.key) (hq : q.key = r.key) (hn : q.bufferSize ≠ 0) :
    ∃ bs s₂ buf' s₃, run (respond π) s₁ js = some (bs, s₂) ∧
      respond π s₂ (.request ks (.read q)) = some ((0, buf'), s₃) ∧ ∀ a < r.bufferSize.toNat, buf' a = r.buf a := by
  have hs := run_represents hb h₀ hP hrun
  obtain ⟨o, s', ho, hM, hs₁⟩ := respond_refines π _ _ _ hs hPr
  rw [Volume.serve_write] at hM hs₁
  rw [hw] at ho
  cases ho
  -- the file is on the volume after the write, and at the end of the run
  have hdone : ((volumeOf s.disk).write π ks r).1 = .done 0 := Volume.done_of_matches hM
  obtain ⟨hfree, -, hnew⟩ := Volume.write_served hdone
  obtain ⟨hown, hup, hnone⟩ := Volume.resolve_eq_none.1 hfree
  have hfile : (volumeOf s₁.disk).tree.node (r.key :: ks) = some (.file (bufferBytes r)) := by
    rw [hs₁.2, hnew, Tree.node_insert hPr.1 hnone,
      Function.update_self, Volume.made, if_neg hr]
  obtain ⟨bs, s₂, hrun₂, -, hs₂⟩ := (respond_refines π).run ⟨hs₁.1, rfl⟩ hPs
  have hend := trace_invariant (I := fun v => v.tree.node (r.key :: ks) = some (.file (bufferBytes r)))
    (fun v i hi hv hP => Volume.serve_file hv (fun r' hr' => hjs r' (hr' ▸ hi)) hP) hfile hPs
  have hname : q.name = r.name := (Prod.mk.inj hq).1
  obtain ⟨⟨code, buf'⟩, s₃, hread, hM₃, -⟩ := respond_refines π _ _ (.request ks (.read q)) hs₂
    ⟨Tree.above _ _ _ _ hend, fun hc => hPr.2.1 (hname.symm.trans hc), trivial⟩
  have hreply : (Volume.serve π (trace (Volume.serve π) (volumeOf s₁.disk) js).2 (.request ks (.read q))).1 =
      .content (bufferBytes r) := by
    rw [Volume.serve_read]
    unfold Volume.read Volume.resolve
    rw [hq, if_neg hown, if_neg hup, hend]
    show (if q.bufferSize = 0 then _ else Volume.contents _ _) = _
    rw [if_neg hn, Volume.contents, hend]
  rw [hreply] at hM₃
  obtain ⟨rfl, hbytes⟩ := hM₃
  refine ⟨bs, s₂, buf', s₃, hrun₂, hread, fun a ha => ?_⟩
  rw [bufferBytes, List.length_map, List.length_range] at hbytes
  exact List.map_inj_left.1 hbytes a (List.mem_range.2 ha)

/-! ## Undoing a write -/

/-- What a delete leaves after a write that was served. -/
theorem Volume.delete_write (hf : v.tree.node ks = some .folder) (hw : (v.write π ks r).1 = .done 0)
    (hq : q.key = r.key) :
    (v.write π ks r).2.delete π ks q =
      (.done 0, ⟨v.tree, if r.bufferSize = 0 then v.space else v.space - needed r⟩) := by
  obtain ⟨hfree, hroom, hnew⟩ := Volume.write_served hw
  obtain ⟨hown, hup, hnone⟩ := Volume.resolve_eq_none.1 hfree
  have hnode : (v.tree.insert ks r.key (made r)).node (r.key :: ks) = some (made r) := by
    rw [Tree.node_insert hf hnone, Function.update_self]
  have hempty := Tree.children_insert_self (x := made r) hf hnone
  have hback := Tree.erase_insert (x := made r) hf hnone
  have hres : (v.write π ks r).2.resolve π ks q.key = some (r.key :: ks) := by
    rw [hnew, hq, Volume.resolve, if_neg hown, if_neg hup, hnode]
    rfl
  rw [hnew] at hres ⊢
  unfold Volume.delete
  simp only [hres, hnode, hback]
  rw [if_neg (Set.not_nonempty_iff_eq_empty.2 hempty)]
  by_cases hb : r.bufferSize = 0
  · rw [if_pos hb, if_pos (by rw [made, if_pos hb])]
    rw [needed_of_folder hb] at hroom ⊢
    rw [Nat.sub_add_cancel hroom]
  · rw [if_neg hb, if_neg (by rw [made, if_neg hb]; simp)]

/-- On a run of a new disk a delete undoes a write that was served: the same names lead to the same folders and files
again, and the space is back, but for the clusters of a file. -/
theorem run_delete_undoes (hb : d.bootSector ≠ fsSignature) (h₀ : initializeFilesystemFat32 π (powerOn d) = some s₀)
    (hP : Allowed (Volume.serve π) (Volume.Permitted π) Volume.new is) (hrun : run (respond π) s₀ is = some (as, s))
    (hPr : (volumeOf s.disk).Permitted π (.request ks (.write r)))
    (hw : respond π s (.request ks (.write r)) = some ((0, buf), s₁)) (hq : q.key = r.key) :
    ∃ buf' s₂, respond π s₁ (.request ks (.delete q)) = some ((0, buf'), s₂) ∧ s₂.disk.treeOf = s.disk.treeOf ∧
      (freeClusters s₂.disk.fat).length + (if r.bufferSize = 0 then 0 else needed r) =
        (freeClusters s.disk.fat).length := by
  have hs := run_represents hb h₀ hP hrun
  obtain ⟨o, s', ho, hM, hs₁⟩ := respond_refines π _ _ _ hs hPr
  rw [Volume.serve_write] at hM hs₁
  rw [hw] at ho
  cases ho
  have hdone : ((volumeOf s.disk).write π ks r).1 = .done 0 := Volume.done_of_matches hM
  obtain ⟨hfree, hroom, hnew⟩ := Volume.write_served hdone
  obtain ⟨hown, -, hnone⟩ := Volume.resolve_eq_none.1 hfree
  have hundo := Volume.delete_write hPr.1 hdone hq
  have hname : q.name = r.name := (Prod.mk.inj hq).1
  have hfolder : ((volumeOf s.disk).write π ks r).2.tree.node ks = some .folder := by
    rw [hnew]
    exact Tree.node_insert_of_some hPr.1
  obtain ⟨⟨code, buf'⟩, s₂, hdelete, hM₂, hs₂⟩ := respond_refines π _ _ (.request ks (.delete q)) hs₁
    ⟨hfolder, fun hc => hPr.2.1 (hname.symm.trans hc), fun hc => absurd (hq.symm.trans hc) hown⟩
  rw [Volume.serve_delete, hundo] at hM₂ hs₂
  obtain rfl : code = 0 := hM₂
  refine ⟨buf', s₂, hdelete, congrArg Volume.tree hs₂.2, ?_⟩
  have hspace := congrArg Volume.space hs₂.2
  simp only [volumeOf_space] at hspace hroom
  rw [hspace]
  generalize (freeClusters s.disk.fat).length = n at hroom ⊢
  split
  · rw [Nat.add_zero]
  · rw [Nat.sub_add_cancel hroom]

/-! ## A sample run -/

/-- The file `a` may be written to a new volume. -/
theorem new_permits_fileA : (Volume.new).Permitted π (.request [] (.write fileA)) := by
  refine ⟨rfl, by decide, ?_⟩
  have hb : fileA.bufferSize ≠ 0 := by decide
  have hempty : (Volume.new).tree.children [] = ∅ :=
    Set.eq_empty_iff_forall_notMem.2 fun k => Tree.notMem_children.2 (Tree.node_empty k [])
  show if fileA.bufferSize = 0 then _ else ¬ Volume.new.Full []
  rw [if_neg hb, Volume.Full, hempty, Set.ncard_empty]
  omega

/-- Written, read back after a restart. -/
def sampleRun : List Input := [.request [] (.write fileA), .restart, .request [] (.read fileA)]

theorem sampleRun_allowed : Allowed (Volume.serve π) (Volume.Permitted π) Volume.new sampleRun :=
  ⟨new_permits_fileA, trivial, ⟨FileTree.Tree.root _, by decide, trivial⟩, trivial⟩

theorem run_refines_sampleRun : ∃ s₀ as s, initializeFilesystemFat32 zeroPlatform (powerOn zeroDisk) = some s₀ ∧
    run (respond zeroPlatform) s₀ sampleRun = some (as, s) ∧
    List.Forall₂ Matches as (trace (Volume.serve zeroPlatform) Volume.new sampleRun).1 ∧
    volumeOf s.disk = (trace (Volume.serve zeroPlatform) Volume.new sampleRun).2 :=
  run_refines zeroDisk_boot sampleRun_allowed

/-- On the new disk of zeros the file `a` is written. -/
theorem exists_fileA_written : ∃ s₀ buf s₁, initializeFilesystemFat32 zeroPlatform (powerOn zeroDisk) = some s₀ ∧
    volumeOf s₀.disk = Volume.new ∧
    respond zeroPlatform s₀ (.request [] (.write fileA)) = some ((0, buf), s₁) := by
  obtain ⟨s₀, s, h₀, hf, hs, -⟩ := exists_holdsA
  refine ⟨s₀, fileA.buf, s, ?_, hf.represents.2, ?_⟩
  · rw [initialize_formatted zeroDisk_boot]
    exact h₀
  · have hw : write zeroPlatform s₀ (fileA.to 2) = some (0, s) := hs
    rw [respond_request (show s₀.disk.dirAt [] = some 2 from rfl), answer, hw]
    rfl

theorem run_durable_fileA : ∃ s₁ bs s₂ buf s₃, run (respond zeroPlatform) s₁ [.restart] = some (bs, s₂) ∧
    respond zeroPlatform s₂ (.request [] (.read fileA)) = some ((0, buf), s₃) ∧ buf 0 = 1 := by
  obtain ⟨s₀, buf, s₁, h₀, hv, hw⟩ := exists_fileA_written
  obtain ⟨bs, s₂, buf', s₃, h1, h2, h3⟩ := run_durable zeroDisk_boot h₀ (show Allowed _ _ _ [] from trivial) rfl
    (show fileA.bufferSize ≠ 0 by decide) (hv ▸ new_permits_fileA) hw
    (show Allowed _ _ _ [.restart] from ⟨trivial, trivial⟩) (by simp)
    (q := fileA) rfl (show fileA.bufferSize ≠ 0 by decide)
  exact ⟨s₁, bs, s₂, buf', s₃, h1, h2, h3 0 (by decide)⟩

theorem run_delete_undoes_fileA : ∃ s₀ s₁ buf s₂, initializeFilesystemFat32 zeroPlatform (powerOn zeroDisk) = some s₀ ∧
    respond zeroPlatform s₁ (.request [] (.delete fileA)) = some ((0, buf), s₂) ∧ s₂.disk.treeOf = s₀.disk.treeOf ∧
    (freeClusters s₂.disk.fat).length + 1 = (freeClusters s₀.disk.fat).length := by
  obtain ⟨s₀, buf, s₁, h₀, hv, hw⟩ := exists_fileA_written
  obtain ⟨buf', s₂, h1, h2, h3⟩ := run_delete_undoes zeroDisk_boot h₀ (show Allowed _ _ _ [] from trivial) rfl
    (hv ▸ new_permits_fileA) hw (q := fileA) rfl
  exact ⟨s₀, s₁, buf', s₂, h₀, h1, h2, h3⟩

end BebasOs.Fat32
