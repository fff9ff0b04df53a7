/-
`get_process_info` of `interrupt.c`, the query of the process table by pid. It takes the pid for the number of a
slot and writes the text of the state over the front of what the caller's buffer holds. So it agrees with the table
exactly for the pids below 16, in a table where every process is in the slot of its pid, and with a caller whose
buffer has a null byte where the text ends; and it is said exactly which operations keep the table so.
-/
import BebasOs.Process.Table

namespace BebasOs.Process

open Bytes Search Memory Fat32 Relation

variable {π : Platform} {k k' : Kernel} {r : LoadRequest} {u : Unset} {i : ℕ} {c : UInt32} {code : Int}

/-! ## The query -/

/-- `struct SyscallProcessInfoArgs`. -/
structure SyscallProcessInfoArgs where
  pid : UInt32
  name : Vector UInt8 32
  state : Vector UInt8 8
  processExists : Bool
  pageFrameUsedCount : UInt32

/-- The text of a process state. -/
def ProcessState.text : ProcessState → List UInt8
  | .running => [byteOf 'R', byteOf 'U', byteOf 'N', byteOf 'N', byteOf 'I', byteOf 'N', byteOf 'G']
  | .ready => [byteOf 'R', byteOf 'E', byteOf 'A', byteOf 'D', byteOf 'Y']
  | .blocked => [byteOf 'B', byteOf 'L', byteOf 'O', byteOf 'C', byteOf 'K', byteOf 'E', byteOf 'D']
  | .noProcess => []

/-- `get_process_info`; it reads behind the tables for a pid from 16 on. -/
def getProcessInfo (k : Kernel) (args : SyscallProcessInfoArgs) : Option SyscallProcessInfoArgs :=
  let pid := args.pid.toNat
  if 16 ≤ pid then none
  else if k.occupied pid then
    let pcb := k.pcb pid
    some { args with
      processExists := true
      name := pcb.metadata.name
      state := overwrite pcb.metadata.state.text args.state
      pageFrameUsedCount := pcb.pageFrameUsedCount }
  else some { args with processExists := false }

variable {args info : SyscallProcessInfoArgs}

/-- The process in slot `i` has the pid. -/
def Live (k : Kernel) (i : ℕ) (c : UInt32) : Prop := i < 16 ∧ k.occupied i = true ∧ k.pid i = c

/-- The answer to a query of a pid says whether there is a process with it, and of the process its name and
state. -/
structure Reports (k : Kernel) (c : UInt32) (info : SyscallProcessInfoArgs) : Prop where
  live : info.processExists = true ↔ ∃ j, Live k j c
  process : info.processExists = true → ∃ j, Live k j c ∧ info.name = (k.pcb j).metadata.name ∧
    stringAt info.state 0 = (k.pcb j).metadata.state.text

/-- The query is answered, from inside the tables, by what they hold. -/
def Agrees (k : Kernel) (args : SyscallProcessInfoArgs) : Prop :=
  ∃ info, getProcessInfo k args = some info ∧ Reports k args.pid info

/-- Every process is in the slot of its pid. -/
def Aligned (k : Kernel) : Prop := ∀ i < 16, k.occupied i = true → (k.pid i).toNat = i

/-- The buffer for the state has a null byte where the text for the slot ends. -/
def HasRoom (k : Kernel) (args : SyscallProcessInfoArgs) : Prop :=
  k.occupied args.pid.toNat = true →
    cell args.state (k.pcb args.pid.toNat).metadata.state.text.length = 0

/-! ## Texts -/

/-- A text written over the front of a buffer is the string there exactly when the byte behind it is null. -/
theorem stringAt_overwrite {n : ℕ} {text : List UInt8} {b : Vector UInt8 n} (hn : text.length < n) (h0 : 0 ∉ text) :
    stringAt (overwrite text b) 0 = text ↔ cell b text.length = 0 := by
  have hend : cell (overwrite text b) text.length = cell b text.length := by
    rw [cell_overwrite _ _ hn, List.getD_eq_default _ _ (Nat.le_refl _)]
  constructor
  · intro h
    have hlen : strlen (overwrite text b) 0 = text.length := by rw [← length_stringAt, h]
    have hnull := cell_strlen (overwrite text b) 0
    rwa [hlen, Nat.zero_add, hend] at hnull
  · intro h
    refine stringAt_eq h0 fun j hj => ?_
    rw [Nat.zero_add]
    rcases Nat.lt_or_eq_of_le hj with hlt | rfl
    · rw [cell_overwrite _ _ (by omega), List.getD_eq_getElem _ _ hlt, List.getD_eq_getElem _ _ hlt]
    · rw [hend, h, List.getD_eq_default _ _ (Nat.le_refl _)]

theorem text_length_lt (s : ProcessState) : s.text.length < 8 := by
  cases s <;> decide

theorem zero_notMem_text (s : ProcessState) : 0 ∉ s.text := by
  cases s <;> decide

/-! ## When the query agrees -/

theorem getProcessInfo_ge (h : 16 ≤ args.pid.toNat) : getProcessInfo k args = none := if_pos h

theorem getProcessInfo_free (h : args.pid.toNat < 16) (ho : k.occupied args.pid.toNat = false) :
    getProcessInfo k args = some { args with processExists := false } := by
  unfold getProcessInfo
  rw [if_neg (by omega), ho]
  rfl

theorem getProcessInfo_occupied (h : args.pid.toNat < 16) (ho : k.occupied args.pid.toNat = true) :
    getProcessInfo k args = some { args with
      processExists := true
      name := (k.pcb args.pid.toNat).metadata.name
      state := overwrite (k.pcb args.pid.toNat).metadata.state.text args.state
      pageFrameUsedCount := (k.pcb args.pid.toNat).pageFrameUsedCount } := by
  unfold getProcessInfo
  rw [if_neg (by omega), ho]
  rfl

theorem Agrees.lt (h : Agrees k args) : args.pid.toNat < 16 := by
  obtain ⟨info, hinfo, -⟩ := h
  by_contra hge
  rw [getProcessInfo_ge (by omega)] at hinfo
  cases hinfo

/-- A query agrees only if a process in the slot of the pid has some process of that pid beside it. -/
theorem Agrees.live (h : Agrees k args) (ho : k.occupied args.pid.toNat = true) : ∃ j, Live k j args.pid := by
  have hlt := h.lt
  obtain ⟨info, hinfo, hreports⟩ := h
  rw [getProcessInfo_occupied hlt ho] at hinfo
  cases hinfo
  exact hreports.live.1 rfl

theorem Aligned.eq_of_live {j : ℕ} (h : Aligned k) (hj : Live k j c) : j = c.toNat := by
  obtain ⟨hlt, ho, hp⟩ := hj
  rw [← hp]
  exact (h j hlt ho).symm

/-- In a table where every process is in the slot of its pid, the query agrees exactly for a pid below 16 and a
buffer with room. -/
theorem Aligned.agrees_iff (h : Aligned k) : Agrees k args ↔ args.pid.toNat < 16 ∧ HasRoom k args := by
  refine ⟨fun hag => ⟨hag.lt, fun ho => ?_⟩, fun ⟨hlt, hroom⟩ => ?_⟩
  · have hlt := hag.lt
    obtain ⟨info, hinfo, hreports⟩ := hag
    rw [getProcessInfo_occupied hlt ho] at hinfo
    cases hinfo
    obtain ⟨j, hj, -, htext⟩ := hreports.process rfl
    obtain rfl := h.eq_of_live hj
    exact (stringAt_overwrite (text_length_lt _) (zero_notMem_text _)).1 htext
  · by_cases ho : k.occupied args.pid.toNat = true
    · have hlive : Live k args.pid.toNat args.pid :=
        ⟨hlt, ho, UInt32.toNat_inj.1 (h _ hlt ho)⟩
      exact ⟨_, getProcessInfo_occupied hlt ho, ⟨fun _ => ⟨_, hlive⟩, fun _ => rfl⟩, fun _ =>
        ⟨_, hlive, rfl, (stringAt_overwrite (text_length_lt _) (zero_notMem_text _)).2 (hroom ho)⟩⟩
    · rw [Bool.not_eq_true] at ho
      refine ⟨_, getProcessInfo_free hlt ho, ⟨fun he => absurd he Bool.false_ne_true, ?_⟩, fun he =>
        absurd he Bool.false_ne_true⟩
      rintro ⟨j, hj⟩
      have hoj := hj.2.1
      rw [h.eq_of_live hj, ho] at hoj
      cases hoj

/-! ## Operations -/

/-- A creation that puts a process into a slot, or gives the process of a slot another pid, gives the slot's own
number as the pid. -/
def Aligns (π : Platform) (k : Kernel) : ProcessOp → Prop
  | .create r _ => ∀ i, Takes k r i → Loads π k r ∨ k.occupied i = true → k.manager.currentRunningPid.toNat = i
  | .destroy _ => True
  | .switch => True

/-- At most slot `i` gets another process or pid. -/
structure AtSlot (k k' : Kernel) (i : ℕ) : Prop where
  lt : i < 16
  occupied : ∀ j, j ≠ i → k'.occupied j = k.occupied j
  pid : ∀ j, j ≠ i → k'.pid j = k.pid j

theorem AtSlot.refl (hi : i < 16) (k : Kernel) : AtSlot k k i := ⟨hi, fun _ _ => rfl, fun _ _ => rfl⟩

theorem AtSlot.aligned_iff (hs : AtSlot k k' i) (h : Aligned k) :
    Aligned k' ↔ (k'.occupied i = true → (k'.pid i).toNat = i) := by
  constructor
  · intro h' ho
    exact h' i hs.lt ho
  · intro hi j hj ho
    by_cases hji : j = i
    · subst hji
      exact hi ho
    · rw [hs.occupied j hji] at ho
      rw [hs.pid j hji]
      exact h j hj ho

/-- A process that is not in the slot of its pid is not found by the pid that is the slot's number: the one other
slot that could have this pid is the slot itself. -/
theorem AtSlot.aligned_of_agrees (hs : AtSlot k k' i) (h : Aligned k)
    (hag : ∀ args : SyscallProcessInfoArgs, args.pid.toNat < 16 → HasRoom k' args → Agrees k' args) : Aligned k' := by
  refine (hs.aligned_iff h).2 fun ho => ?_
  by_contra hne
  have hlt := hs.lt
  have hpid : (UInt32.ofNat i).toNat = i := by
    rw [UInt32.toNat_ofNat']
    exact Nat.mod_eq_of_lt (by omega)
  let args : SyscallProcessInfoArgs := ⟨UInt32.ofNat i, Vector.replicate 32 0, Vector.replicate 8 0, false, 0⟩
  have hroom : HasRoom k' args := fun _ => by
    rw [cell_of_lt _ (text_length_lt _)]
    exact Vector.getElem_replicate _
  have hargs : args.pid.toNat = i := hpid
  obtain ⟨j, hj, hoj, hpj⟩ := (hag args (by omega) hroom).live (by rw [hargs]; exact ho)
  have hji : j ≠ i := by
    rintro rfl
    rw [hpj, hargs] at hne
    exact hne rfl
  refine hji (Eq.trans ?_ hargs)
  rw [hs.occupied j hji] at hoj
  rw [hs.pid j hji] at hpj
  exact h.eq_of_live ⟨hj, hoj, hpj⟩

theorem atSlot_of_update (hi : i < 16) (ho : ∀ j, j ≠ i → k'.occupied j = k.occupied j)
    (hp : ∀ j, k'.pid j = if j = i then c else k.pid j) : AtSlot k k' i :=
  ⟨hi, ho, fun j hj => (hp j).trans (if_neg hj)⟩

theorem aligns_create_iff (h : Takes k r i) : Aligns π k (.create r u) ↔
    (Loads π k r ∨ k.occupied i = true → k.manager.currentRunningPid.toNat = i) := by
  refine ⟨fun ha => ha i h, fun ha j hj => ?_⟩
  obtain rfl := h.unique hj
  exact ha

/-- A creation that fails after its slot is found only gives the slot another pid. -/
theorem entered_aligns_iff (h : Aligned k) (ht : Takes k r i) (hl : ¬ Loads π k r)
    (ho : ∀ j, k'.occupied j = k.occupied j)
    (hp : ∀ j, k'.pid j = if j = i then k.manager.currentRunningPid else k.pid j) :
    AtSlot k k' i ∧ (Aligned k' ↔ Aligns π k (.create r u)) := by
  have hs := atSlot_of_update ht.lt (fun j _ => ho j) hp
  refine ⟨hs, ?_⟩
  rw [hs.aligned_iff h, aligns_create_iff ht, or_iff_right hl, ho, hp, if_pos rfl]

theorem Creation.aligns_iff (h : Aligned k) (hc : Creation π k r u code k') :
    ∃ i, AtSlot k k' i ∧ (Aligned k' ↔ Aligns π k (.create r u)) := by
  cases hc with
  | refused _ hn => exact ⟨0, .refl (by decide) k, fun _ i hi => absurd hi (hn i), fun _ => h⟩
  | @noDirectory i ht hd =>
    exact ⟨i, entered_aligns_iff h ht (fun hl => hl.directory hd) (fun _ => rfl) (pid_enterMetadata ht.lt)⟩
  | @unread i d code ht hd hr hne =>
    have hl : ¬ Loads π k r := fun hl => hne (hr.symm.trans hl.code)
    exact ⟨i, entered_aligns_iff h ht hl (fun _ => rfl) (pid_enterMetadata ht.lt)⟩
  | @started i d ht hd hr =>
    have hl : Loads π k r := ⟨fun hn => (by rw [hn] at hd; cases hd), hr⟩
    have ho := occupied_startedKernel (π := π) (k := k) (d := d) (r := r) (u := u) ht.lt
    have hp := pid_startedKernel (π := π) (k := k) (d := d) (r := r) (u := u) ht.lt
    have hs := atSlot_of_update ht.lt (fun j hj => (ho j).trans (if_neg hj)) hp
    refine ⟨i, hs, ?_⟩
    rw [hs.aligned_iff h, aligns_create_iff ht, ho, hp, if_pos rfl, if_pos rfl]
    exact ⟨fun hc _ => hc rfl, fun hc _ => hc (.inl hl)⟩

theorem Destruction.aligned {found : Bool} (h : Aligned k) (hd : Destruction k c found k') :
    ∃ i, AtSlot k k' i ∧ Aligned k' := by
  cases hd with
  | unknown _ => exact ⟨0, .refl (by decide) k, h⟩
  | @cleared i hi =>
    obtain ⟨hlt, -⟩ := slotOf_some hi
    have ho := occupied_clearedKernel (k := k) hlt
    have hs := atSlot_of_update hlt (fun j hj => (ho j).trans (if_neg hj)) (pid_clearedKernel hlt)
    refine ⟨i, hs, (hs.aligned_iff h).2 fun hoi => ?_⟩
    rw [ho, if_pos rfl] at hoi
    cases hoi

/-- An operation changes one slot at most, and after it every process is in the slot of its pid exactly when the
operation aligns. -/
theorem perform_aligned_iff {op : ProcessOp} (h : Aligned k) (hop : performProcess π k op = some k') :
    ∃ i, AtSlot k k' i ∧ (Aligned k' ↔ Aligns π k op) := by
  cases op with
  | create r u =>
    cases hop
    exact (create_spec π k r u).aligns_iff h
  | destroy c =>
    cases hop
    obtain ⟨i, hs, h'⟩ := (destroy_spec k c).aligned h
    exact ⟨i, hs, fun _ => trivial, fun _ => h'⟩
  | switch =>
    unfold performProcess at hop
    rw [Option.map_eq_some_iff] at hop
    obtain ⟨⟨index, ctx, k''⟩, h1, h2⟩ := hop
    cases h2
    obtain ⟨hi, -, -, rfl⟩ := switch_spec h1
    refine ⟨0, ⟨by decide, fun _ _ => rfl, fun j _ => pid_switchTo hi j⟩, fun _ => trivial, fun _ j hj hoj => ?_⟩
    rw [pid_switchTo hi]
    exact h j hj hoj

/-! ## Runs -/

/-- An operation that aligns is performed. -/
def AlignedStep (π : Platform) (k k' : Kernel) : Prop := ∃ op, Aligns π k op ∧ performProcess π k op = some k'

theorem Kernel.Zeroed.aligned (h : k.Zeroed) : Aligned k := by
  intro i _ ho
  rw [h.occupied] at ho
  cases ho

theorem run_aligned {k₀ : Kernel} (h₀ : k₀.Zeroed) (h : ReflTransGen (AlignedStep π) k₀ k) : Aligned k := by
  induction h with
  | refl => exact h₀.aligned
  | tail _ hstep ih =>
    obtain ⟨op, ha, hop⟩ := hstep
    obtain ⟨i, -, h'⟩ := perform_aligned_iff ih hop
    exact h'.2 ha

/-- From a zeroed table, as long as every operation aligns, a query agrees with the table exactly when its pid is
below 16 and its buffer has room; after the first operation that does not, some such query does not agree. -/
theorem run_query {k₀ : Kernel} (h₀ : k₀.Zeroed) (h : ReflTransGen (AlignedStep π) k₀ k) :
    (∀ args, Agrees k args ↔ args.pid.toNat < 16 ∧ HasRoom k args) ∧
      ∀ op k', performProcess π k op = some k' →
        ((∀ args : SyscallProcessInfoArgs, args.pid.toNat < 16 → HasRoom k' args → Agrees k' args) ↔
          Aligns π k op) := by
  have hk := run_aligned h₀ h
  refine ⟨fun args => hk.agrees_iff, fun op k' hop => ?_⟩
  obtain ⟨i, hs, h'⟩ := perform_aligned_iff hk hop
  rw [← h']
  exact ⟨hs.aligned_of_agrees hk, fun hk' args hlt hroom => hk'.agrees_iff.2 ⟨hlt, hroom⟩⟩

theorem aligns_boot (m : Machine) : Aligns zeroPlatform (bootKernel m) (.create loadA unsetZero) :=
  (aligns_create_iff (takes_boot m)).2 fun _ => by
    show (0 : UInt32).toNat = 0
    decide

theorem run_query_first : ∃ m : Machine, ReflTransGen (AlignedStep zeroPlatform) (bootKernel m) (firstKernel m) ∧
    (firstKernel m).occupied 0 = true ∧
    Agrees (firstKernel m) ⟨0, Vector.replicate 32 0, Vector.replicate 8 0, false, 0⟩ := by
  obtain ⟨-, m, -, -, -, hm⟩ := exists_holdsA
  have hstep : performProcess zeroPlatform (bootKernel m) (.create loadA unsetZero) = some (firstKernel m) := by
    simp only [performProcess, create_boot hm]
  have hrun := ReflTransGen.single (r := AlignedStep zeroPlatform) ⟨_, aligns_boot m, hstep⟩
  refine ⟨m, hrun, firstKernel_occupied m, ((run_query (bootKernel_zeroed m) hrun).1 _).2 ⟨by decide, fun _ => ?_⟩⟩
  rw [cell_of_lt _ (text_length_lt _)]
  exact Vector.getElem_replicate _

/-- Pid 16 is looked up behind the tables; the process created second, in slot 0 with pid 1, is not found; and a
ready process is reported in no state there is, into a buffer with something behind the text. -/
theorem query_broken : ∃ m : Machine,
    (∀ args : SyscallProcessInfoArgs, args.pid = 16 → getProcessInfo (bootKernel m) args = none) ∧
    processCreateUserProcess zeroPlatform (bootKernel m) loadA unsetZero = (0, firstKernel m) ∧
    (¬ Agrees (firstKernel m) ⟨0, Vector.replicate 32 0, Vector.replicate 8 (byteOf 'G'), false, 0⟩) ∧
    ∃ k, processCreateUserProcess zeroPlatform (firstKernel m) loadA unsetZero = (0, k) ∧ Live k 0 1 ∧
      ∀ args : SyscallProcessInfoArgs, args.pid = 1 →
        (∃ info, getProcessInfo k args = some info ∧ info.processExists = false) ∧ ¬ Agrees k args := by
  obtain ⟨-, m, -, -, -, hm⟩ := exists_holdsA
  have hfirst : Aligned (firstKernel m) := by
    have ho := occupied_startedKernel (π := zeroPlatform) (k := bootKernel m) (d := 0) (r := loadA) (u := unsetZero)
      (i := 0) (by decide)
    have hs : AtSlot (bootKernel m) (firstKernel m) 0 :=
      atSlot_of_update (by decide) (fun j hj => (ho j).trans (if_neg hj)) (pid_startedKernel (by decide))
    refine (hs.aligned_iff (bootKernel_zeroed m).aligned).2 fun _ => ?_
    rw [firstKernel, pid_startedKernel (by decide), if_pos rfl]
    rfl
  have hone : (secondKernel m).occupied 1 = false := by
    rw [secondKernel, occupied_startedKernel (by decide), if_neg (by decide), firstKernel,
      occupied_startedKernel (by decide), if_neg (by decide)]
    exact (bootKernel_zeroed m).occupied 1
  have hlive : Live (secondKernel m) 0 1 := by
    refine ⟨by decide, ?_, ?_⟩
    · rw [secondKernel, occupied_startedKernel (by decide), if_pos rfl]
    · rw [secondKernel, pid_startedKernel (by decide), if_pos rfl, firstKernel, startedKernel_manager]
      rfl
  refine ⟨m, fun args hargs => getProcessInfo_ge (by rw [hargs]; decide), create_boot hm, fun hag => ?_, _,
    create_first hm, hlive, fun args hargs => ?_⟩
  · have hroom := (hfirst.agrees_iff.1 hag).2 (firstKernel_occupied m)
    have hready : ((firstKernel m).pcb 0).metadata.state = .ready := by
      rw [firstKernel, pcb_startedKernel (by decide), if_pos rfl]
      rfl
    revert hroom
    show cell (Vector.replicate 8 (byteOf 'G')) ((firstKernel m).pcb 0).metadata.state.text.length = 0 → False
    rw [hready]
    decide
  · have hlt : args.pid.toNat < 16 := by
      rw [hargs]
      decide
    have hfree : (secondKernel m).occupied args.pid.toNat = false := by
      rw [hargs]
      exact hone
    have hinfo := getProcessInfo_free hlt hfree
    refine ⟨⟨_, hinfo, rfl⟩, fun hag => ?_⟩
    obtain ⟨info, hinfo', hreports⟩ := hag
    rw [hinfo] at hinfo'
    cases hinfo'
    exact absurd (hreports.live.2 ⟨0, by rw [hargs]; exact hlive⟩) Bool.false_ne_true

end BebasOs.Process
