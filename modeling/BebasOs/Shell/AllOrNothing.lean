/-
Whether `cd` is all or nothing: the components of its argument resolved in the directory tree, against what the loop
makes of them.
-/
import BebasOs.Shell.Arguments
import BebasOs.Shell.Rounds

namespace BebasOs.Shell

open Bytes Search Fat32 Disk StateTransition Relation

variable {d : Disk} {b : Vector UInt8 256} {p q : UInt8} {c c' : UInt16} {t k : List UInt8} {ks : List (List UInt8)}

/-! ## The path in the tree -/

/-- The live folder that a name chooses in a directory: the directory itself for `.`, else the first folder of that
name. -/
def named (d : Disk) (name : Vector UInt8 8) (c : UInt16) : Option UInt16 :=
  if name = dot then some c
  else
    (first (fun i => decide ((d.slot c.toNat i).name = name ∧ (d.slot c.toNat i).Live ∧ (d.slot c.toNat i).IsFolder)) 1
      64).map fun i => (d.slot c.toNat i).cluster.toUInt16

/-- The folder that components lead to, each of 8 bytes at most and in the directory reached so far. -/
def resolve (d : Disk) : List (List UInt8) → UInt16 → Option UInt16
  | [], c => some c
  | k :: ks, c => if k.length ≤ 8 then (named d (nameOf k) c).bind (resolve d ks) else none

/-- Every component, in the directory that the ones before it lead to, is looked up as it should be: the look-up goes to
the live folder that it chooses, and fails where it chooses none. -/
def AllAgree (d : Disk) : List (List UInt8) → UInt16 → Prop
  | [], _ => True
  | k :: ks, c => k.length ≤ 8 →
    entered d (nameOf k) c = named d (nameOf k) c ∧ ∀ c', named d (nameOf k) c = some c' → AllAgree d ks c'

section

variable (hd : d.Sound) (ht : d.Tree) (hc : d.LiveDir c.toNat) {name : Vector UInt8 8}
include hd ht hc

/-- A live folder in a slot from 1 on is a live directory, whose number has 16 bits. -/
theorem slot_liveDir {i : ℕ} (h1 : 1 ≤ i) (h64 : i < 64) (hlive : (d.slot c.toNat i).Live)
    (hfolder : (d.slot c.toNat i).IsFolder) : d.LiveDir (d.slot c.toNat i).cluster.toNat ∧
      (d.slot c.toNat i).cluster.toUInt16.toNat = (d.slot c.toNat i).cluster.toNat := by
  have hdir : d.LiveDir (d.slot c.toNat i).cluster.toNat := by
    by_cases h2 : 2 ≤ i
    · exact hc.tail ⟨i, h2, h64, hlive, hfolder, rfl⟩
    · obtain rfl : i = 1 := by omega
      exact ht.up_liveDir hc
  refine ⟨hdir, ?_⟩
  have := (hd.liveDir_range hdir).2
  rw [UInt32.toNat_toUInt16]
  omega

/-- The folder that a name chooses is a live one: below the directory, unless the name is `.` or `..`. -/
theorem named_live (h : named d name c = some c') :
    d.LiveDir c'.toNat ∧ (name ≠ dot → name ≠ dotDot → d.Lists c.toNat c'.toNat) := by
  unfold named at h
  split at h
  · next hdot =>
    cases h
    exact ⟨hc, fun h => absurd hdot h⟩
  · obtain ⟨i, hi, rfl⟩ := Option.map_eq_some_iff.1 h
    obtain ⟨h1, h64, hentry, -⟩ := first_eq_some.1 hi
    obtain ⟨hname, hlive, hfolder⟩ := of_decide_eq_true hentry
    obtain ⟨hdir, hsmall⟩ := slot_liveDir hd ht hc h1 h64 hlive hfolder
    rw [hsmall]
    refine ⟨hdir, fun _ hdots => ?_⟩
    by_cases h2 : 2 ≤ i
    · exact ⟨i, h2, h64, hlive, hfolder, rfl⟩
    · obtain rfl : i = 1 := by omega
      exact absurd (hname.symm.trans (ht.name _ hc)) hdots

end

/-! ## The loop along the path -/

variable {c₁ : UInt16} {pre post : List (List UInt8)}

/-- After the components `pre` of an argument, the loop has come to their folder, with the components `k` and `post` of
the argument left at its offset. -/
structure Arrived (d : Disk) (b : Vector UInt8 256) (t : List UInt8) (p : UInt8) (c : UInt16) (pre : List (List UInt8))
    (k : List UInt8) (post : List (List UInt8)) (q : UInt8) (t' : List UInt8) (c₁ : UInt16) : Prop where
  reaches : Reaches (advance d b) (p, c) (q, c₁)
  string : stringAt b q.toNat = t'
  components : components t' = k :: post
  position : q.toNat + t'.length = p.toNat + t.length
  closed : Closed t' ↔ Closed t
  live : d.LiveDir c₁.toNat
  started : pre ≠ [] → ends b p = false
  start : pre = [] → q = p ∧ c₁ = c

/-- A splitter at the end of an argument is one at the end of what is left of it. -/
theorem closed_append (k : List UInt8) {t' : List UInt8} (h : t' ≠ []) : Closed (k ++ splitter :: t') ↔ Closed t' := by
  unfold Closed
  rw [List.getLast?_append_of_ne_nil _ (List.cons_ne_nil _ _), List.getLast?_cons, List.getLast?_eq_some_getLast h]
  rfl

/-- By induction on the components: each is found, and the next round begins behind its splitter. -/
theorem arrives (hd : d.Sound) (ht : d.Tree) (hc : d.LiveDir c.toNat) (hlast : cell b 255 = 0)
    (hb : stringAt b p.toNat = t) (h : components t = pre ++ k :: post) (hres : resolve d pre c = some c₁)
    (hf : AllAgree d (pre ++ ks) c) : (∃ q t', Arrived d b t p c pre k post q t' c₁) ∧ AllAgree d ks c₁ := by
  induction pre generalizing t p c with
  | nil =>
    cases hres
    exact ⟨⟨p, t, .refl, hb, h, rfl, Iff.rfl, hc, fun h => absurd rfl h, fun _ => ⟨rfl, rfl⟩⟩, hf⟩
  | cons k₀ pre ih =>
    unfold resolve at hres
    split at hres
    · next h8 =>
      obtain ⟨c₂, hn, hres⟩ := Option.bind_eq_some_iff.1 hres
      obtain ⟨hagree, hrest⟩ := hf h8
      rcases (components_cons h).2 with ⟨-, -, hnil⟩ | ⟨t', rfl, ht'⟩
      · exact absurd hnil (by simp)
      · -- the component is closed, so it is looked up even with 8 bytes
        have hshort : k₀.length < 8 ∨ k₀.length = 8 ∧ k₀ ++ splitter :: t' ≠ k₀ := by
          rcases Nat.lt_or_eq_of_le h8 with hlt | heq
          · exact .inl hlt
          · exact .inr ⟨heq, by simp⟩
        have hstep : advance d b (p, c) = some (p + UInt8.ofNat (k₀.length + 1), c₂) := by
          rw [advance_found hb h hshort, hagree, hn]
          rfl
        obtain ⟨hnext, hstring⟩ := next_component hlast hb
        obtain ⟨⟨q, t'', hq⟩, hks⟩ := ih (named_live hd ht hc hn).1 hstring ht' hres (hrest c₂ hn)
        have hne : t' ≠ [] := by
          rintro rfl
          cases pre <;> cases ht'
        refine ⟨⟨q, t'', .head hstep hq.reaches, hq.string, hq.components, ?_,
          hq.closed.trans (closed_append k₀ hne).symm,
          hq.live, fun _ => (found_component hb h hshort).1, fun h => absurd h (List.cons_ne_nil _ _)⟩, hks⟩
        rw [hq.position, hnext, List.length_append, List.length_cons]
        omega
    · cases hres

namespace Arrived

variable {t' : List UInt8} (ha : Arrived d b t p c pre k post q t' c₁)
include ha

/-- What is left is the one component alone, with no splitter behind it. -/
theorem alone_iff : t' = k ↔ post = [] ∧ ¬ Closed t := by
  rw [← ha.closed]
  obtain ⟨hk, ⟨rfl, hne, hpost⟩ | ⟨t₂, rfl, ht₂⟩⟩ := components_cons ha.components
  · refine iff_of_true rfl ⟨hpost, fun hclosed => hk ?_⟩
    exact List.mem_of_getLast? hclosed
  · refine iff_of_false (by simp) ?_
    rintro ⟨rfl, hopen⟩
    rw [components_eq_nil ht₂] at hopen
    exact hopen (by simp [Closed])

/-- At a component that is too long the loop stops in its directory. -/
theorem stops (hlong : 8 < k.length ∨ k.length = 8 ∧ post = [] ∧ ¬ Closed t) :
    (q, c₁) ∈ eval (advance d b) (p, c) ∧ ends b q = true := by
  rw [← ha.alone_iff] at hlong
  have hends := ends_of_long ha.string ha.components hlong
  exact ⟨mem_eval.2 ⟨ha.reaches, advance_end c₁ hends⟩, hends⟩

variable (hshort : k.length < 8 ∨ k.length = 8 ∧ ¬ (post = [] ∧ ¬ Closed t))
include hshort

/-- Every other component is looked up. -/
theorem found : ends b q = false ∧
    advance d b (q, c₁) = (entered d (nameOf k) c₁).map fun c => (q + UInt8.ofNat (k.length + 1), c) := by
  rw [← ha.alone_iff] at hshort
  exact ⟨(found_component ha.string ha.components hshort).1, advance_found ha.string ha.components hshort⟩

/-- Then the path has begun. -/
theorem begins : ends b p = false := by
  by_cases hpre : pre = []
  · rw [← (ha.start hpre).1]
    exact (ha.found hshort).1
  · exact ha.started hpre

/-- One that leads nowhere is an error. -/
theorem fails (hn : entered d (nameOf k) c₁ = none) : (q, c₁) ∈ eval (advance d b) (p, c) ∧ ends b q = false := by
  obtain ⟨hends, hadvance⟩ := ha.found hshort
  rw [hn] at hadvance
  exact ⟨mem_eval.2 ⟨ha.reaches, hadvance⟩, hends⟩

/-- Behind the last one the path ends, if nothing follows the argument. -/
theorem completes (hlast : cell b 255 = 0) (hpost : post = []) (hn : entered d (nameOf k) c₁ = some c')
    (halone : ¬ Closed t → cell b ((p.toNat + t.length + 1) % 256) = 0) :
    ∃ q', (q', c') ∈ eval (advance d b) (p, c) ∧ ends b q' = true := by
  obtain ⟨-, hadvance⟩ := ha.found hshort
  rw [hn] at hadvance
  have hends : ends b (q + UInt8.ofNat (k.length + 1)) = true := by
    rw [← Bool.not_eq_false, ends_eq_false, not_and_or, not_not]
    refine .inl ?_
    rcases (components_cons ha.components).2 with ⟨rfl, -, -⟩ | ⟨t₂, rfl, ht₂⟩
    · have hopen := (ha.alone_iff.1 rfl).2
      have hposition := ha.position
      rw [← halone hopen, UInt8.toNat_add, UInt8.toNat_ofNat', ← hposition]
      congr 1
      omega
    · -- a splitter ends the argument
      obtain ⟨-, hstring⟩ := next_component hlast ha.string
      rw [hpost] at ht₂
      rw [components_eq_nil ht₂] at hstring
      rw [← strlen_eq_zero, ← length_stringAt, hstring]
      rfl
  exact ⟨_, mem_eval.2 ⟨.tail ha.reaches hadvance, advance_end c' hends⟩, hends⟩

end Arrived

/-- A directory does not list itself. -/
theorem not_lists_self (hd : d.Sound) (ht : d.Tree) {m : ℕ} (hm : d.LiveDir m) : ¬ d.Lists m m := by
  intro hl
  obtain ⟨n, hn, -⟩ := ht.climb hd hm
  rw [Function.iterate_fixed (ht.up_of_lists hd hm hl)] at hn
  subst hn
  exact hd.root_not_listed hm hl

/-- A name of 8 bytes leads to another directory. -/
theorem Arrived.named_ne {t' : List UInt8} (ha : Arrived d b t p c pre k post q t' c₁) (hd : d.Sound) (ht : d.Tree)
    (h8 : k.length = 8) (hn : named d (nameOf k) c₁ = some c') : c' ≠ c₁ := by
  have h7 : cell (nameOf k) 7 ≠ 0 := by
    obtain ⟨hcell, -, h0⟩ := cell_component ha.string ha.components (i := 7) (by omega)
    rw [nameOf, cell_of_lt _ (by omega), Vector.getElem_ofFn, List.getElem?_eq_getElem (by omega)]
    rw [hcell] at h0
    exact h0
  have hdot : nameOf k ≠ dot := fun h => h7 (by rw [h]; decide)
  have hdots : nameOf k ≠ dotDot := fun h => h7 (by rw [h]; decide)
  rintro rfl
  exact not_lists_self hd ht ha.live ((named_live hd ht ha.live hn).2 hdot hdots)

theorem resolve_append (d : Disk) (pre ks : List (List UInt8)) (c : UInt16) :
    resolve d (pre ++ ks) c = (resolve d pre c).bind (resolve d ks) := by
  induction pre generalizing c with
  | nil => rfl
  | cons k pre ih =>
    rw [List.cons_append, resolve, resolve]
    split
    · rw [Option.bind_assoc]
      exact Option.bind_congr fun c' _ => ih c'
    · rfl

/-- A path that leads nowhere has a first component that is too long or names no folder. -/
theorem resolve_none (h : resolve d ks c = none) : ∃ pre k post c₁, ks = pre ++ k :: post ∧ resolve d pre c = some c₁ ∧
    (k.length ≤ 8 → named d (nameOf k) c₁ = none) := by
  induction ks generalizing c with
  | nil => cases h
  | cons k ks ih =>
    unfold resolve at h
    split at h
    · next h8 =>
      rcases hn : named d (nameOf k) c with _ | c₂
      · exact ⟨[], k, ks, c, rfl, rfl, fun _ => hn⟩
      · rw [hn] at h
        obtain ⟨pre, k', post, c₁, rfl, hres, hfail⟩ := ih h
        refine ⟨k :: pre, k', post, c₁, rfl, ?_, hfail⟩
        rw [resolve, if_pos h8, hn]
        exact hres
    · next h8 => exact ⟨[], k, ks, c, rfl, rfl, fun h => absurd h h8⟩

/-- A path that leads to a folder has a last component, which names it. -/
theorem resolve_some (h : resolve d ks c = some c') (hne : ks ≠ []) : ∃ pre k c₁, ks = pre ++ [k] ∧
    resolve d pre c = some c₁ ∧ k.length ≤ 8 ∧ named d (nameOf k) c₁ = some c' := by
  obtain ⟨pre, k, rfl⟩ := (List.eq_nil_or_concat ks).resolve_left hne
  rw [List.concat_eq_append] at h ⊢
  rw [resolve_append] at h
  obtain ⟨c₁, hres, h⟩ := Option.bind_eq_some_iff.1 h
  unfold resolve at h
  split at h
  · next h8 =>
    obtain ⟨c₂, hn, h⟩ := Option.bind_eq_some_iff.1 h
    cases h
    exact ⟨pre, k, c₁, rfl, hres, h8, hn⟩
  · cases h

/-! ## All or nothing -/

/-- The current directory becomes the folder that the whole path leads to, or nothing changes. -/
structure AllOrNothing (sh : State) (line : CdLine) (sh' : State) : Prop where
  all : ∀ c, resolve sh.machine.disk (components line.path) sh.parentCluster = some c → sh'.parentCluster = c
  nothing : resolve sh.machine.disk (components line.path) sh.parentCluster = none →
    sh'.parentCluster = sh.parentCluster ∧ sh'.idx = sh.idx ∧ sh'.clusters = sh.clusters

/-- A component is too long for the loop: one of more than 8 bytes, behind others that lead to folders, or the last one
with 8 bytes and no splitter behind it, unless it stands alone and names no folder. -/
def CutShort (d : Disk) (t : List UInt8) (c : UInt16) : Prop :=
  ∃ pre k post c₁, components t = pre ++ k :: post ∧ resolve d pre c = some c₁ ∧
    (8 < k.length ∧ pre ≠ [] ∨ k.length = 8 ∧ (post = [] ∧ ¬ Closed t) ∧ (pre ≠ [] ∨ named d (nameOf k) c₁ ≠ none))

/-- The last component of an argument is looked up, in the folder that the others lead to. -/
structure LastLookUp (d : Disk) (t : List UInt8) (c : UInt16) (k : List UInt8) (c₁ : UInt16) : Prop where
  others : ∃ pre, components t = pre ++ [k] ∧ resolve d pre c = some c₁
  short : k.length < 8 ∨ k.length = 8 ∧ Closed t

/-- The look-up goes to the folder that the name chooses, if it chooses one, or fails where that is the directory which
the path starts in. -/
def Right (d : Disk) (c : UInt16) (name : Vector UInt8 8) (c₁ : UInt16) : Prop :=
  entered d name c₁ = named d name c₁ ∨ entered d name c₁ = none ∧ named d name c₁ = some c

/-- Nothing follows the argument where the loop goes on behind it. -/
def Alone (line : CdLine) : Prop := ¬ Closed line.path → cell line.buffer ((3 + line.path.length + 1) % 256) = 0

variable {sh sh' : State} {line : CdLine}

/-- Where the loop ends tells what the line does. -/
theorem changeDirectory_end {z : UInt8 × UInt16} (hc : line.climbs = false) (hb : line.blank = false)
    (hz : z ∈ eval (advance sh.machine.disk line.buffer) (3, sh.parentCluster)) :
    ∃ sh', changeDirectory sh line = some sh' ∧
    (ends line.buffer z.1 = true → ends line.buffer 3 = false → Pushed sh z.2 sh') ∧
      (ends line.buffer z.1 = false ∨ ends line.buffer 3 = true → Unmoved sh sh') := by
  obtain ⟨w, hw⟩ := walkLoop_eval (w := ⟨sh, 0, sh.parentCluster, false⟩) ⟨rfl, rfl, rfl⟩ hz
  obtain ⟨sh', hcd⟩ : ∃ sh', changeDirectory sh line = some sh' := by
    unfold changeDirectory
    rw [hc, hb, hw]
    simp only [Bool.false_eq_true, if_false, Option.bind_eq_bind, Option.bind_some]
    split_ifs <;> exact ⟨_, rfl⟩
  refine ⟨sh', hcd, fun hend hstart => ?_, fun hstuck => ?_⟩
  · cases cd_spec hcd with
    | climbed hclimbs => exact absurd hclimbs (Bool.eq_false_iff.1 hc)
    | moved hm hp =>
      obtain ⟨-, rfl⟩ := (moves_iff hc hb hz).1 hm
      exact hp
    | stayed _ hno => exact absurd ((moves_iff hc hb hz).2 ⟨⟨hend, hstart⟩, rfl⟩) (hno z.2)
  · cases cd_spec hcd with
    | climbed hclimbs => exact absurd hclimbs (Bool.eq_false_iff.1 hc)
    | moved hm _ =>
      obtain ⟨⟨hend, hstart⟩, -⟩ := (moves_iff hc hb hz).1 hm
      rw [hend, hstart] at hstuck
      simp at hstuck
    | stayed _ _ h => exact h

theorem LastLookUp.notLong (h : LastLookUp d t c k c₁) :
    k.length < 8 ∨ k.length = 8 ∧ ¬ (([] : List (List UInt8)) = [] ∧ ¬ Closed t) :=
  h.short.imp_right fun h => ⟨h.1, fun hopen => hopen.2 h.2⟩

/-- Where the whole path leads is up to that component. -/
theorem LastLookUp.resolve_eq (h : LastLookUp d t c k c₁) :
    resolve d (components t) c = named d (nameOf k) c₁ := by
  obtain ⟨pre, hcomponents, hres⟩ := h.others
  have h8 : k.length ≤ 8 := by
    rcases h.short with h | h <;> omega
  rw [hcomponents, resolve_append, hres, Option.bind_some, resolve, if_pos h8]
  rcases named d (nameOf k) c₁ with _ | c'
  · rfl
  · rfl

section

variable (hd : sh.machine.disk.Sound) (ht : sh.machine.disk.Tree)
  (hlive : sh.machine.disk.LiveDir sh.parentCluster.toNat)
  (hc : line.climbs = false) (hb : line.blank = false)
  (hagree : AllAgree sh.machine.disk (components line.path).dropLast sh.parentCluster)
include hd ht hlive hb hagree

theorem arrives_line (hcomponents : components line.path = pre ++ k :: post)
    (hres : resolve sh.machine.disk pre sh.parentCluster = some c₁) :
    (∃ q t', Arrived sh.machine.disk line.buffer line.path 3 sh.parentCluster pre k post q t' c₁) ∧
      AllAgree sh.machine.disk (k :: post).dropLast c₁ := by
  rw [hcomponents, List.dropLast_append_of_ne_nil (List.cons_ne_nil k post)] at hagree
  exact arrives hd ht hlive line.buffer_last (line.path_eq hb).symm hcomponents hres hagree

include hc

/-- A path that is cut short leaves the shell in between, or where it was. -/
theorem not_cutShort (hcd : changeDirectory sh line = some sh') (h : AllOrNothing sh line sh') :
    ¬ CutShort sh.machine.disk line.path sh.parentCluster := by
  rintro ⟨pre, k, post, c₁, hcomponents, hres, hlong⟩
  obtain ⟨⟨q, t', ha⟩, -⟩ := arrives_line hd ht hlive hb hagree hcomponents hres
  obtain ⟨heval, hend⟩ := ha.stops (hlong.imp And.left fun h => ⟨h.1, h.2.1⟩)
  obtain ⟨sh'', hcd', hpushed, hunmoved⟩ := changeDirectory_end hc hb heval
  obtain rfl := Option.some.inj (hcd.symm.trans hcd')
  -- a folder that the whole path leads to is another one
  have hother {c' : UInt16} (hc' : resolve sh.machine.disk (components line.path) sh.parentCluster = some c') :
      c' ≠ c₁ := by
    rw [hcomponents, resolve_append, hres, Option.bind_some, resolve] at hc'
    split at hc'
    · next h8 =>
      obtain ⟨hk, ⟨rfl, -⟩, -⟩ := hlong.resolve_left (by omega)
      obtain ⟨c₂, hn, h⟩ := Option.bind_eq_some_iff.1 hc'
      cases h
      exact ha.named_ne hd ht hk hn
    · cases hc'
  by_cases hpre : pre = []
  · obtain ⟨rfl, rfl⟩ := ha.start hpre
    obtain ⟨hk, ⟨rfl, -⟩, hnamed⟩ := hlong.resolve_left fun h => h.2 hpre
    obtain ⟨c', hn⟩ := Option.ne_none_iff_exists'.1 (hnamed.resolve_left (not_not_intro hpre))
    have hc' : resolve sh.machine.disk (components line.path) sh.parentCluster = some c' := by
      rw [hcomponents, resolve_append, hres, Option.bind_some, resolve, if_pos hk.le, hn]
      rfl
    exact hother hc' ((h.all c' hc').symm.trans (hunmoved (.inr hend)).parentCluster)
  · have hp := hpushed hend (ha.started hpre)
    rcases hr : resolve sh.machine.disk (components line.path) sh.parentCluster with _ | c'
    · have hidx := (h.nothing hr).2.1
      rw [hp.idx] at hidx
      omega
    · exact hother hr ((h.all c' hr).symm.trans hp.parentCluster)

/-- The last look-up decides. -/
theorem right_of_allOrNothing (hcd : changeDirectory sh line = some sh') (h : AllOrNothing sh line sh')
    (hl : LastLookUp sh.machine.disk line.path sh.parentCluster k c₁)
    (halone : entered sh.machine.disk (nameOf k) c₁ ≠ none → Alone line) :
    Right sh.machine.disk sh.parentCluster (nameOf k) c₁ := by
  obtain ⟨pre, hcomponents, hres⟩ := hl.others
  obtain ⟨⟨q, t', ha⟩, -⟩ := arrives_line hd ht hlive hb hagree hcomponents hres
  have hr := hl.resolve_eq
  rcases hent : entered sh.machine.disk (nameOf k) c₁ with _ | c'
  · obtain ⟨heval, hend⟩ := ha.fails hl.notLong hent
    obtain ⟨sh'', hcd', -, hunmoved⟩ := changeDirectory_end hc hb heval
    obtain rfl := Option.some.inj (hcd.symm.trans hcd')
    rcases hn : named sh.machine.disk (nameOf k) c₁ with _ | f
    · exact .inl (hent.trans hn.symm)
    · have hf := h.all f (hr.trans hn)
      rw [(hunmoved (.inl hend)).parentCluster] at hf
      exact .inr ⟨hent, by rw [hn, hf]⟩
  · obtain ⟨q', heval, hend⟩ := ha.completes hl.notLong line.buffer_last rfl hent (halone (by rw [hent]; simp))
    obtain ⟨sh'', hcd', hpushed, -⟩ := changeDirectory_end hc hb heval
    obtain rfl := Option.some.inj (hcd.symm.trans hcd')
    have hp := hpushed hend (ha.begins hl.notLong)
    refine .inl ?_
    rcases hn : named sh.machine.disk (nameOf k) c₁ with _ | f
    · have hidx := (h.nothing (hr.trans hn)).2.1
      rw [hp.idx] at hidx
      omega
    · rw [hent, ← h.all f (hr.trans hn), hp.parentCluster]

/-- A path that leads nowhere changes nothing. -/
theorem nothing_of (hcut : ¬ CutShort sh.machine.disk line.path sh.parentCluster)
    (hright : ∀ k c₁, LastLookUp sh.machine.disk line.path sh.parentCluster k c₁ →
      Right sh.machine.disk sh.parentCluster (nameOf k) c₁)
    (hr : resolve sh.machine.disk (components line.path) sh.parentCluster = none) :
    ∃ sh', changeDirectory sh line = some sh' ∧ Unmoved sh sh' := by
  obtain ⟨pre, k, post, c₁, hcomponents, hres, hfail⟩ := resolve_none hr
  obtain ⟨⟨q, t', ha⟩, hrest⟩ := arrives_line hd ht hlive hb hagree hcomponents hres
  by_cases hlong : 8 < k.length ∨ k.length = 8 ∧ post = [] ∧ ¬ Closed line.path
  · -- the loop gives up at the first component
    obtain ⟨heval, hend⟩ := ha.stops hlong
    have hpre : pre = [] := by
      by_contra hpre
      refine hcut ⟨pre, k, post, c₁, hcomponents, hres, ?_⟩
      rcases hlong with h | h
      · exact .inl ⟨h, hpre⟩
      · exact .inr ⟨h.1, h.2, .inl hpre⟩
    rw [(ha.start hpre).1] at hend
    obtain ⟨sh', hcd, -, hunmoved⟩ := changeDirectory_end hc hb heval
    exact ⟨sh', hcd, hunmoved (.inr hend)⟩
  · rw [not_or] at hlong
    have hshort : k.length < 8 ∨ k.length = 8 ∧ ¬ (post = [] ∧ ¬ Closed line.path) := by
      rcases Nat.lt_or_ge k.length 8 with h | h
      · exact .inl h
      · exact .inr ⟨by omega, fun hopen => hlong.2 ⟨by omega, hopen⟩⟩
    have h8 : k.length ≤ 8 := by omega
    have hn := hfail h8
    have hent : entered sh.machine.disk (nameOf k) c₁ = none := by
      rcases post with _ | ⟨k', post⟩
      · have hl : LastLookUp sh.machine.disk line.path sh.parentCluster k c₁ :=
          ⟨⟨pre, hcomponents, hres⟩, hshort.imp_right fun h => ⟨h.1, by_contra fun hopen => h.2 ⟨rfl, hopen⟩⟩⟩
        rcases hright k c₁ hl with h | ⟨h, -⟩
        · rw [h, hn]
        · exact h
      · rw [List.dropLast_cons_of_ne_nil (List.cons_ne_nil k' post)] at hrest
        rw [(hrest h8).1, hn]
    obtain ⟨heval, hend⟩ := ha.fails hshort hent
    obtain ⟨sh', hcd, -, hunmoved⟩ := changeDirectory_end hc hb heval
    exact ⟨sh', hcd, hunmoved (.inl hend)⟩

/-- A path that leads to a folder leaves the shell there. -/
theorem all_of (hcut : ¬ CutShort sh.machine.disk line.path sh.parentCluster)
    (hright : ∀ k c₁, LastLookUp sh.machine.disk line.path sh.parentCluster k c₁ →
      Right sh.machine.disk sh.parentCluster (nameOf k) c₁)
    (halone : ∀ k c₁, LastLookUp sh.machine.disk line.path sh.parentCluster k c₁ →
      entered sh.machine.disk (nameOf k) c₁ ≠ none → Alone line)
    (hr : resolve sh.machine.disk (components line.path) sh.parentCluster = some c') :
    ∃ sh', changeDirectory sh line = some sh' ∧ sh'.parentCluster = c' := by
  have hne : components line.path ≠ [] := fun h => line.path_ne_nil hb (components_eq_nil h)
  obtain ⟨pre, k, c₁, hcomponents, hres, h8, hn⟩ := resolve_some hr hne
  obtain ⟨⟨q, t', ha⟩, -⟩ := arrives_line hd ht hlive hb hagree hcomponents hres
  have hl : LastLookUp sh.machine.disk line.path sh.parentCluster k c₁ := by
    refine ⟨⟨pre, hcomponents, hres⟩, ?_⟩
    rcases Nat.lt_or_eq_of_le h8 with h | h
    · exact .inl h
    · refine .inr ⟨h, by_contra fun hopen => hcut ⟨pre, k, [], c₁, hcomponents, hres, .inr ⟨h, ⟨rfl, hopen⟩, .inr ?_⟩⟩⟩
      rw [hn]
      exact Option.some_ne_none c'
  rcases hright k c₁ hl with h | ⟨hent, hback⟩
  · have hent := h.trans hn
    obtain ⟨q', heval, hend⟩ := ha.completes hl.notLong line.buffer_last rfl hent
      (halone k c₁ hl (by rw [hent]; exact Option.some_ne_none c'))
    obtain ⟨sh', hcd, hpushed, -⟩ := changeDirectory_end hc hb heval
    exact ⟨sh', hcd, (hpushed hend (ha.begins hl.notLong)).parentCluster⟩
  · -- the path leads back to where it starts
    obtain ⟨heval, hend⟩ := ha.fails hl.notLong hent
    obtain ⟨sh', hcd, -, hunmoved⟩ := changeDirectory_end hc hb heval
    refine ⟨sh', hcd, (hunmoved (.inl hend)).parentCluster.trans ?_⟩
    rw [hn] at hback
    exact (Option.some.inj hback).symm

end

/-- On a directory tree, for a line with a path whose components before the last are looked up as they should be, and
that nothing follows where the loop goes on behind it: `cd` is all or nothing if and only if no component is too long
for the loop and the last look-up is right. -/
theorem allOrNothing_iff (hd : sh.machine.disk.WellFormed) (ht : sh.machine.disk.Tree)
    (hlive : sh.machine.disk.LiveDir sh.parentCluster.toNat) (hc : line.climbs = false) (hb : line.blank = false)
    (hagree : AllAgree sh.machine.disk (components line.path).dropLast sh.parentCluster)
    (halone : ∀ k c₁, LastLookUp sh.machine.disk line.path sh.parentCluster k c₁ →
      entered sh.machine.disk (nameOf k) c₁ ≠ none → Alone line) :
    (∃ sh', changeDirectory sh line = some sh' ∧ AllOrNothing sh line sh') ↔
      ¬ CutShort sh.machine.disk line.path sh.parentCluster ∧
        ∀ k c₁, LastLookUp sh.machine.disk line.path sh.parentCluster k c₁ →
          Right sh.machine.disk sh.parentCluster (nameOf k) c₁ := by
  constructor
  · rintro ⟨sh', hcd, h⟩
    exact ⟨not_cutShort hd.toSound ht hlive hc hb hagree hcd h, fun k c₁ hl =>
      right_of_allOrNothing hd.toSound ht hlive hc hb hagree hcd h hl (halone k c₁ hl)⟩
  · rintro ⟨hcut, hright⟩
    rcases hr : resolve sh.machine.disk (components line.path) sh.parentCluster with _ | c'
    · obtain ⟨sh', hcd, hu⟩ := nothing_of hd.toSound ht hlive hc hb hagree hcut hright hr
      exact ⟨sh', hcd, fun c h => absurd (h.symm.trans hr) (Option.some_ne_none c),
        fun _ => ⟨hu.parentCluster, hu.idx, hu.clusters⟩⟩
    · obtain ⟨sh', hcd, hp⟩ := all_of hd.toSound ht hlive hc hb hagree hcut hright halone hr
      refine ⟨sh', hcd, fun c h => ?_, fun h => absurd (hr.symm.trans h) (Option.some_ne_none c')⟩
      obtain rfl := Option.some.inj (hr.symm.trans h)
      exact hp

/-- The line `cd b\c`. -/
def cdMissing : CdLine := ⟨⟨lineBytes [99, 100, 32, 98, 92, 99], by decide +kernel⟩, by decide +kernel⟩

theorem cdMissing_components : components cdMissing.path = [[98], [99]] := by
  rw [cdMissing.path_eq (by decide +kernel), show stringAt cdMissing.buffer 3 = [98, 92, 99] by decide +kernel]
  rfl

/-- With the folder `b` in the root, its name chooses it. -/
theorem named_b {s : Machine} (h : HoldsFolder zeroPlatform s) : named s.disk (nameOf [98]) 2 = some 3 := by
  have hfirst : first (fun i => decide ((s.disk.slot 2 i).name = nameOf [98] ∧ (s.disk.slot 2 i).Live ∧
      (s.disk.slot 2 i).IsFolder)) 1 64 = some 2 := by
    refine first_eq_some.2 ⟨by omega, by omega, decide_eq_true ⟨?_, ?_, ?_⟩, fun j h1 h2 => ?_⟩
    · rw [h.slot, newEntry_name]
      decide
    · rw [h.slot]
      exact newEntry_live _ _
    · rw [h.slot]
      exact (newEntry_isFolder _ _).2 rfl
    · obtain rfl : j = 1 := by omega
      refine decide_eq_false fun hj => absurd hj.1 ?_
      rw [h.rootParent, dotDotEntry_name]
      decide
  have hcluster : (s.disk.slot 2 2).cluster.toUInt16 = 3 := by
    rw [h.slot]
    decide
  unfold named
  rw [if_neg (by decide), show (2 : UInt16).toNat = 2 from rfl, hfirst, Option.map_some, hcluster]

/-- In the empty folder no slot has the name `c`. -/
theorem slot_name_ne {s : Machine} (h : HoldsFolder zeroPlatform s) {i : ℕ} (h1 : 1 ≤ i) :
    (s.disk.slot 3 i).name ≠ nameOf [99] := by
  by_cases h2 : 2 ≤ i
  · rw [h.empty i h2]
    decide
  · obtain rfl : i = 1 := by omega
    rw [h.parent, dotDotEntry_name]
    decide

/-- The name `c` chooses nothing there, and the look-up fails. -/
theorem missing {s : Machine} (h : HoldsFolder zeroPlatform s) :
    named s.disk (nameOf [99]) 3 = none ∧ entered s.disk (nameOf [99]) 3 = none := by
  constructor
  · unfold named
    rw [if_neg (by decide), Option.map_eq_none_iff, first_eq_none]
    exact fun i h1 _ => decide_eq_false fun hi => slot_name_ne h h1 hi.1
  · have hnone : lookUp s.disk (3 : UInt16).toNat (nameOf [99]) = none := by
      unfold lookUp
      rw [if_neg (by decide), first_eq_none]
      exact fun i h1 _ => decide_eq_false (slot_name_ne h h1)
    unfold entered
    rw [hnone]
    rfl

/-- The line `cd b\c` in the root changes nothing if the folder `b` is empty. -/
theorem allOrNothing_cdMissing : ∃ s, HoldsFolder zeroPlatform s ∧
    ∃ sh', changeDirectory (start s) cdMissing = some sh' ∧ AllOrNothing (start s) cdMissing sh' := by
  obtain ⟨-, s, -, -, -, h⟩ := exists_holdsFolder
  have hagree : entered s.disk (nameOf [98]) 2 = named s.disk (nameOf [98]) 2 := (entered_b h).trans (named_b h).symm
  have hopen : ¬ Closed cdMissing.path := by
    rw [cdMissing.path_eq (by decide +kernel),
      show stringAt cdMissing.buffer 3 = [98, 92, 99] by decide +kernel, Closed]
    decide
  have hlast {k : List UInt8} {c₁ : UInt16} (hl : LastLookUp s.disk cdMissing.path 2 k c₁) : k = [99] ∧ c₁ = 3 := by
    obtain ⟨pre, hpre, hres⟩ := hl.others
    rw [cdMissing_components] at hpre
    obtain ⟨rfl, hk⟩ := List.append_inj' (show [[98]] ++ [[99]] = pre ++ [k] from hpre) rfl
    rw [resolve, if_pos (by decide), named_b h, Option.bind_some, resolve] at hres
    exact ⟨(List.singleton_inj.1 hk).symm, (Option.some.inj hres).symm⟩
  have hlive : (start s).machine.disk.LiveDir (start s).parentCluster.toNat := s.disk.liveDir_root
  refine ⟨s, h, (allOrNothing_iff h.wellFormed h.tree hlive (by decide +kernel) (by decide +kernel) ?_
    fun k c₁ hl hentered => ?_).2 ⟨?_, fun k c₁ hl => ?_⟩⟩
  · rw [cdMissing_components]
    exact fun _ => ⟨hagree, fun _ _ => trivial⟩
  · obtain ⟨rfl, rfl⟩ := hlast hl
    exact absurd (missing h).2 hentered
  · rintro ⟨pre, k, post, c₁, hcomponents, -, hlong⟩
    have hk : k ∈ components cdMissing.path := by
      rw [hcomponents]
      simp
    rw [cdMissing_components] at hk
    have hk1 : k.length = 1 := by
      rcases List.mem_pair.1 hk with rfl | rfl <;> rfl
    omega
  · obtain ⟨rfl, rfl⟩ := hlast hl
    exact .inl ((missing h).2.trans (missing h).1.symm)

/-- The line `cd b\cccccccccc`. -/
def cdTooLong : CdLine :=
  ⟨⟨lineBytes ([99, 100, 32, 98, 92] ++ List.replicate 10 99), by decide +kernel⟩, by decide +kernel⟩

/-- A component that is too long behind the folder `b` leaves the shell in `b`. -/
theorem cutShort_moves : ¬ ∀ (sh : State) (line : CdLine), sh.machine.disk.WellFormed → sh.machine.disk.Tree →
    sh.machine.disk.LiveDir sh.parentCluster.toNat → line.climbs = false → line.blank = false →
    ∃ sh', changeDirectory sh line = some sh' ∧ AllOrNothing sh line sh' := by
  obtain ⟨-, s, -, -, -, h⟩ := exists_holdsFolder
  intro hall
  have hclimbs : cdTooLong.climbs = false := by decide +kernel
  have hblank : cdTooLong.blank = false := by decide +kernel
  obtain ⟨sh', hcd, hallornothing⟩ := hall (start s) cdTooLong h.wellFormed h.tree s.disk.liveDir_root hclimbs hblank
  have hname : folderName cdTooLong.buffer 3 (currentLen cdTooLong.buffer 3) = folderB.name := by decide +kernel
  obtain ⟨sh'', hcd', hp, -⟩ := changeDirectory_one (start s) cdTooLong rfl hclimbs hblank (by decide +kernel)
    (by rw [hname]; exact entered_b h) (by decide +kernel)
  obtain rfl := Option.some.inj (hcd.symm.trans hcd')
  have hcomponents : components cdTooLong.path = [[98], List.replicate 10 99] := by
    rw [cdTooLong.path_eq hblank, show stringAt cdTooLong.buffer 3 = [98, 92] ++ List.replicate 10 99 by decide +kernel]
    rfl
  have hnone : resolve s.disk (components cdTooLong.path) 2 = none := by
    rw [hcomponents, resolve, if_pos (by decide), Option.bind_eq_none_iff]
    intro c' _
    exact if_neg (by decide)
  have hidx := (hallornothing.nothing hnone).2.1
  rw [hp.idx] at hidx
  omega

end BebasOs.Shell
