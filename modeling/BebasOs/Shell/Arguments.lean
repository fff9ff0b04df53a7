/-
The argument of `cd`: the string behind the first space of the line, its components, and how the loop finds them in the
buffer one after the other.
-/
import BebasOs.Shell.Components

namespace BebasOs.Shell

open Bytes Search Fat32 Disk

variable {d : Disk} {b : Vector UInt8 256} {p : UInt8} {c : UInt16} {t k : List UInt8} {ks : List (List UInt8)}

/-! ## Arguments -/

/-- The components of an argument: what splitters end, and what stands behind the last one, if anything does. -/
def components : List UInt8 → List (List UInt8)
  | [] => []
  | a :: t =>
    if a = splitter then [] :: components t
    else
      match components t with
      | [] => [[a]]
      | k :: ks => (a :: k) :: ks

/-- A splitter ends the argument. -/
def Closed (t : List UInt8) : Prop := t.getLast? = some splitter

/-- The name of a folder, with the bytes of a component. -/
def nameOf (k : List UInt8) : Vector UInt8 8 := Vector.ofFn fun i : Fin 8 => k[i.1]?.getD 0

theorem components_eq_nil (h : components t = []) : t = [] := by
  cases t with
  | nil => rfl
  | cons a t =>
    unfold components at h
    split at h
    · cases h
    · split at h <;> cases h

/-- The first component of an argument is the only one, or a splitter ends it. -/
theorem components_cons (h : components t = k :: ks) : splitter ∉ k ∧
    ((t = k ∧ k ≠ [] ∧ ks = []) ∨ ∃ t', t = k ++ splitter :: t' ∧ components t' = ks) := by
  induction t generalizing k ks with
  | nil => cases h
  | cons a t ih =>
    unfold components at h
    split at h
    · next ha =>
      cases h
      exact ⟨List.not_mem_nil, .inr ⟨t, by rw [ha]; rfl, rfl⟩⟩
    · next ha =>
      split at h
      · next hnil =>
        cases h
        rw [components_eq_nil hnil]
        exact ⟨by simpa using fun h => ha h.symm, .inl ⟨rfl, by simp, rfl⟩⟩
      · next k' ks' hcons =>
        cases h
        obtain ⟨hk, hrest⟩ := ih hcons
        refine ⟨by simpa [hk] using fun h => ha h.symm, ?_⟩
        rcases hrest with ⟨rfl, -, hks⟩ | ⟨t', rfl, ht'⟩
        · exact .inl ⟨rfl, by simp, hks⟩
        · exact .inr ⟨t', rfl, ht'⟩

/-! ## Arguments in the buffer -/

section

variable (hb : stringAt b p.toNat = t) (h : components t = k :: ks)
include hb h

theorem length_le_strlen : k.length ≤ strlen b p.toNat := by
  rw [← length_stringAt, hb]
  rcases (components_cons h).2 with ⟨rfl, -, -⟩ | ⟨t', rfl, -⟩
  · exact Nat.le_refl _
  · rw [List.length_append]
    omega

theorem strlen_pos : 0 < strlen b p.toNat := by
  rw [← length_stringAt, hb]
  cases t with
  | nil => cases h
  | cons a t => exact Nat.succ_pos _

/-- The bytes of the first component. -/
theorem cell_component {i : ℕ} (hi : i < k.length) : cell b (p.toNat + i) = k[i] ∧
    cell b (p.toNat + i) ≠ splitter ∧ cell b (p.toNat + i) ≠ 0 := by
  have hlt : i < strlen b p.toNat := hi.trans_le (length_le_strlen hb h)
  have hcell : cell b (p.toNat + i) = k[i] := by
    have hget := getElem?_stringAt hlt
    rw [hb] at hget
    rcases (components_cons h).2 with ⟨rfl, -, -⟩ | ⟨t', rfl, -⟩
    · rw [List.getElem?_eq_getElem hi] at hget
      exact (Option.some.inj hget).symm
    · rw [List.getElem?_append_left hi, List.getElem?_eq_getElem hi] at hget
      exact (Option.some.inj hget).symm
  refine ⟨hcell, fun hs => (components_cons h).1 ?_, cell_of_lt_strlen hlt⟩
  rw [← hs, hcell]
  exact List.getElem_mem hi

/-- The byte behind it. -/
theorem cell_behind : (t = k ∧ cell b (p.toNat + k.length) = 0) ∨
    ∃ t', t = k ++ splitter :: t' ∧ components t' = ks ∧ cell b (p.toNat + k.length) = splitter := by
  have hlen := length_stringAt b p.toNat
  rw [hb] at hlen
  rcases (components_cons h).2 with ⟨rfl, -, -⟩ | ⟨t', ht, ht'⟩
  · rw [hlen]
    exact .inl ⟨rfl, cell_strlen b p.toNat⟩
  · refine .inr ⟨t', ht, ht', ?_⟩
    have hlt : k.length < strlen b p.toNat := by
      rw [← hlen, ht, List.length_append]
      simp
    have hget := getElem?_stringAt hlt
    rw [hb, ht, List.getElem?_append_right (Nat.le_refl _), Nat.sub_self] at hget
    exact (Option.some.inj hget).symm

/-- The loop gives up at a component of more than 8 bytes, and at one of 8 that no splitter ends. -/
theorem ends_of_long (hlong : 8 < k.length ∨ k.length = 8 ∧ t = k) : ends b p = true := by
  have hgo (i : ℕ) (hi : i < 8) := (cell_component hb h (i := i) (by omega)).2
  have hlen : currentLen b p = 8 := currentLen_eq (Nat.le_refl 8) hgo fun h => absurd h (Nat.lt_irrefl 8)
  have hstop : cell b (p.toNat + 8) ≠ splitter := by
    rcases hlong with hlt | ⟨h8, ht⟩
    · exact (cell_component hb h hlt).2.1
    · rcases cell_behind hb h with ⟨-, h0⟩ | ⟨t', ht', -⟩
      · rw [← h8, h0]
        decide
      · rw [ht] at ht'
        simp at ht'
  rw [← Bool.not_eq_false, ends_eq_false]
  exact fun h => hstop (h.2 hlen)

/-- It looks up every other one, under its name. -/
theorem found_component (hshort : k.length < 8 ∨ k.length = 8 ∧ t ≠ k) : ends b p = false ∧
    currentLen b p = k.length ∧ folderName b p k.length = nameOf k := by
  have hbehind := cell_behind hb h
  have hlen : currentLen b p = k.length := by
    refine currentLen_eq (by omega) (fun i hi => (cell_component hb h hi).2) fun _ => ?_
    rcases hbehind with ⟨-, h0⟩ | ⟨-, -, -, hs⟩
    · exact .inr h0
    · exact .inl hs
  refine ⟨?_, hlen, folderName_eq (fun i hi => ?_) fun i hi hk => ?_⟩
  · rw [ends_eq_false, hlen]
    refine ⟨cell_of_lt_strlen (i := 0) (strlen_pos hb h), fun h8 => ?_⟩
    rcases hbehind with ⟨ht, -⟩ | ⟨-, -, -, hs⟩
    · rcases hshort with hlt | ⟨-, hne⟩
      · omega
      · exact absurd ht hne
    · rwa [h8] at hs
  · rw [(cell_component hb h hi).1, nameOf, cell_of_lt _ (by omega), Vector.getElem_ofFn, List.getElem?_eq_getElem hi]
    rfl
  · rw [nameOf, cell_of_lt _ hi, Vector.getElem_ofFn, List.getElem?_eq_none hk]
    rfl

theorem advance_found (hshort : k.length < 8 ∨ k.length = 8 ∧ t ≠ k) :
    advance d b (p, c) = (entered d (nameOf k) c).map fun c => (p + UInt8.ofNat (k.length + 1), c) := by
  obtain ⟨hends, hlen, hname⟩ := found_component hb h hshort
  rw [advance_eq hends, hlen, hname]

end

/-- A string stays in the line. -/
theorem add_strlen_le (hlast : cell b 255 = 0) (p : UInt8) : p.toNat + strlen b p.toNat ≤ 255 := by
  have hp := p.toNat_lt
  by_contra hlt
  refine cell_of_lt_strlen (b := b) (p := p.toNat) (i := 255 - p.toNat) (by omega) ?_
  rw [Nat.add_sub_cancel' (by omega)]
  exact hlast

/-- Behind a splitter the rest of the argument begins. -/
theorem next_component {t' : List UInt8} (hlast : cell b 255 = 0) (hb : stringAt b p.toNat = k ++ splitter :: t') :
    (p + UInt8.ofNat (k.length + 1)).toNat = p.toNat + (k.length + 1) ∧
      stringAt b (p + UInt8.ofNat (k.length + 1)).toNat = t' := by
  have hle := add_strlen_le hlast p
  have hlen := length_stringAt b p.toNat
  rw [hb, List.length_append, List.length_cons] at hlen
  have hnext : (p + UInt8.ofNat (k.length + 1)).toNat = p.toNat + (k.length + 1) := by
    rw [UInt8.toNat_add, UInt8.toNat_ofNat']
    omega
  rw [hnext, stringAt_add (by omega), hb]
  exact ⟨rfl, by simp⟩

/-! ## The argument of a line -/

/-- The string `argument`. -/
def Line.path (line : Line) : List UInt8 := (line.argument.start.map (stringAt line.buffer)).getD []

/-- An argument that a null byte begins is blank. -/
theorem blank_of_null {line : Line} {o : ℕ} (h : line.argument.start = some o) (h0 : cell line.buffer o = 0) :
    line.blank = true := by
  have hlen : strlen line.buffer o = 0 := strlen_eq_zero.2 h0
  have hstring : stringAt line.buffer o = [] := by rw [← List.length_eq_zero_iff, length_stringAt, hlen]
  unfold Line.blank
  rw [h]
  simp only
  rw [hlen, hstring]
  rfl

/-- The first token of such a line is `cd`, of two characters. -/
theorem CdLine.strlen_command (line : CdLine) : strlen line.buffer 0 = 2 := by
  obtain ⟨-, hstart, -⟩ := strtok_spec line.bytes none (some 0) [32] rfl
  have hstring : stringAt line.buffer 0 = [99, 100] := by
    have hcd := line.cd
    unfold Line.isCd at hcd
    rw [show line.command.start = some 0 from hstart, Option.map_some, Option.getD_some, beq_iff_eq] at hcd
    exact strcmp_eq_zero (zero_notMem_stringAt _ _) (by decide) hcd
  rw [← length_stringAt, hstring]
  rfl

/-- The argument of a line that has one begins behind `cd` and the space. -/
theorem CdLine.argument_start (line : CdLine) (hb : line.blank = false) : line.argument.start = some 3 := by
  obtain ⟨s, -, -, hgo, hstop⟩ := strtok_spec line.bytes none (some 0) [32] rfl
  have hlen := line.strlen_command
  have hnull : cell line.buffer 2 = 0 := by
    have := cell_strlen line.buffer 0
    rwa [hlen, Nat.zero_add] at this
  have hword (i : ℕ) (hi : i < 2) : cell line.buffer i ≠ 0 := by
    have := cell_of_lt_strlen (b := line.buffer) (p := 0) (i := i) (by omega)
    rwa [Nat.zero_add] at this
  rcases hstop with ⟨h0, hcommand⟩ | ⟨-, h32, hcommand⟩
  · -- without a space the second token is the null byte behind the first
    have hcommand : line.command = ⟨some 0, line.bytes, some s⟩ := hcommand
    have hargument : line.argument.start = some s := by
      unfold Line.argument
      rw [hcommand]
      obtain ⟨-, hs, -⟩ := strtok_spec line.bytes (some s) none [32] rfl
      exact hs
    have hzero : cell line.buffer s = 0 := by
      unfold Line.buffer Line.argument
      rw [hcommand]
      exact cell_strtok h0
    rw [blank_of_null hargument hzero] at hb
    cases hb
  · have hcommand : line.command = ⟨some 0, store line.bytes s 0, some (s + 1)⟩ := hcommand
    obtain ⟨s', hs, hle, -, hstop'⟩ := strtok_spec (store line.bytes s 0) (some (s + 1)) none [32] rfl
    have hargument : line.argument = strtok (store line.bytes s 0) (some (s + 1)) none [32] := by
      unfold Line.argument
      rw [hcommand]
    have hlt : s < 256 := by
      by_contra hge
      rw [show cell line.bytes s = 0 from dif_neg hge] at h32
      exact absurd h32 (by decide)
    have hzero : cell line.buffer s = 0 := by
      unfold Line.buffer
      rw [hargument]
      exact cell_strtok (cell_store_self _ _ hlt)
    have h2 : s = 2 := by
      have hge : 2 ≤ s := by
        by_contra hlt2
        exact hword s (by omega) hzero
      by_contra hne
      -- the null byte behind `cd` would come from the first call
      have hbytes : cell (store line.bytes s 0) 2 ≠ 0 := by
        rw [cell_store_ne _ _ hne]
        exact (hgo 2 (by omega) (by omega) (by omega)).1
      refine hbytes ?_
      unfold Line.buffer at hnull
      rw [hargument] at hnull
      rcases hstop' with ⟨-, htok⟩ | ⟨-, -, htok⟩
      · rwa [htok] at hnull
      · rw [htok] at hnull
        simp only at hnull
        rwa [cell_store_ne _ _ (by omega)] at hnull
    rw [hargument, hs, h2]

theorem CdLine.path_eq (line : CdLine) (hb : line.blank = false) : line.path = stringAt line.buffer 3 := by
  unfold Line.path
  rw [line.argument_start hb, Option.map_some, Option.getD_some]

theorem CdLine.path_ne_nil (line : CdLine) (hb : line.blank = false) : line.path ≠ [] := by
  intro h
  rw [line.path_eq hb, ← List.length_eq_zero_iff, length_stringAt, strlen_eq_zero] at h
  rw [blank_of_null (line.argument_start hb) h] at hb
  cases hb

end BebasOs.Shell
