/-
`string.c`: the byte comparison every directory look-up goes through, the bounded copy of a string, and the
functions the shell takes its lines apart with. A string in memory is the bytes of a buffer from an
offset on, up to the first null byte; one without a null byte ends with its buffer here.
-/
import Mathlib.Data.List.GetD
import BebasOs.Lib.Bytes
import BebasOs.Lib.Search

namespace BebasOs

open Bytes Search

/-- The loop of `memcmp`: the first differing byte decides. -/
def memcmpLoop : List UInt8 → List UInt8 → Int
  | a :: as, b :: bs => if a < b then -1 else if b < a then 1 else memcmpLoop as bs
  | _, _ => 0

def memcmp {n : ℕ} (s1 s2 : Vector UInt8 n) : Int := memcmpLoop s1.toList s2.toList

theorem memcmpLoop_eq_zero : ∀ {l m : List UInt8}, l.length = m.length → (memcmpLoop l m = 0 ↔ l = m)
  | [], [], _ => by simp [memcmpLoop]
  | a :: as, b :: bs, h => by
    have ih := memcmpLoop_eq_zero (l := as) (m := bs) (by simpa using h)
    unfold memcmpLoop
    simp only [UInt8.lt_iff_toNat_lt]
    rcases Nat.lt_trichotomy a.toNat b.toNat with hab | hab | hab
    · have : a ≠ b := by rintro rfl; omega
      simp [hab, this]
    · obtain rfl := UInt8.toNat_inj.1 hab
      simp [ih]
    · have : a ≠ b := by rintro rfl; omega
      simp [hab, this, Nat.lt_asymm hab]

@[simp] theorem memcmp_eq_zero {n : ℕ} {s1 s2 : Vector UInt8 n} : memcmp s1 s2 = 0 ↔ s1 = s2 := by
  unfold memcmp
  rw [memcmpLoop_eq_zero (by simp), Vector.toList_inj]

/-- The `n` bytes `strncpy` stores: those before the first null byte, then null bytes. -/
def strncpy (src : List UInt8) (n : ℕ) : List UInt8 :=
  let s := (src.take n).takeWhile (· ≠ 0)
  s ++ List.replicate (n - s.length) 0

theorem length_strncpy (src : List UInt8) (n : ℕ) : (strncpy src n).length = n := by
  have hcopied := (List.takeWhile_sublist (· ≠ 0) (l := src.take n)).length_le.trans (List.length_take_le n src)
  unfold strncpy
  rw [List.length_append, List.length_replicate]
  omega

/-! ## Strings in a buffer -/

variable {n : ℕ}

def strlen (buffer : Vector UInt8 n) (p : ℕ) : ℕ := (first (fun i => cell buffer i == 0) p n).getD n - p

/-- The bytes of the string at an offset. -/
def stringAt (buffer : Vector UInt8 n) (p : ℕ) : List UInt8 := (List.range' p (strlen buffer p)).map (cell buffer)

theorem cell_strlen (b : Vector UInt8 n) (p : ℕ) : cell b (p + strlen b p) = 0 := by
  unfold strlen
  rcases h : first (fun i => cell b i == 0) p n with _ | i
  · -- no null byte before the end of the buffer
    have hge : ¬ p + (n - p) < n := by omega
    exact dif_neg hge
  · obtain ⟨hp, -, h0, -⟩ := first_eq_some.1 h
    rw [Option.getD_some, Nat.add_sub_cancel' hp]
    exact beq_iff_eq.1 h0

theorem cell_of_lt_strlen {b : Vector UInt8 n} {p i : ℕ} (h : i < strlen b p) : cell b (p + i) ≠ 0 := by
  unfold strlen at h
  rcases hf : first (fun i => cell b i == 0) p n with _ | j
  · rw [hf, Option.getD_none] at h
    exact beq_eq_false_iff_ne.1 (first_eq_none.1 hf (p + i) (by omega) (by omega))
  · rw [hf, Option.getD_some] at h
    exact beq_eq_false_iff_ne.1 ((first_eq_some.1 hf).2.2.2 (p + i) (by omega) (by omega))

/-- A string ends at its first null byte. -/
theorem strlen_eq_iff {b : Vector UInt8 n} {p k : ℕ} :
    strlen b p = k ↔ cell b (p + k) = 0 ∧ ∀ i < k, cell b (p + i) ≠ 0 := by
  constructor
  · rintro rfl
    exact ⟨cell_strlen b p, fun i hi => cell_of_lt_strlen hi⟩
  · rintro ⟨h0, hk⟩
    rcases Nat.lt_trichotomy (strlen b p) k with h | h | h
    · exact absurd (cell_strlen b p) (hk _ h)
    · exact h
    · exact absurd h0 (cell_of_lt_strlen h)

theorem strlen_eq_zero {b : Vector UInt8 n} {p : ℕ} : strlen b p = 0 ↔ cell b p = 0 := by
  rw [strlen_eq_iff]
  simp

/-- Up to its end, the strings inside a string are its ends. -/
theorem strlen_add {b : Vector UInt8 n} {p i : ℕ} (h : i ≤ strlen b p) : strlen b (p + i) = strlen b p - i := by
  rw [strlen_eq_iff, Nat.add_assoc, Nat.add_sub_cancel' h]
  refine ⟨cell_strlen b p, fun j hj => ?_⟩
  rw [Nat.add_assoc]
  exact cell_of_lt_strlen (by omega)

theorem length_stringAt (b : Vector UInt8 n) (p : ℕ) : (stringAt b p).length = strlen b p := by
  unfold stringAt
  rw [List.length_map, List.length_range']

/-- A buffer with the bytes of a text and a null byte behind them has the text for a string. -/
theorem stringAt_eq {b : Vector UInt8 n} {p : ℕ} {text : List UInt8} (h0 : 0 ∉ text)
    (h : ∀ i ≤ text.length, cell b (p + i) = text.getD i 0) : stringAt b p = text := by
  have hlen : strlen b p = text.length := by
    refine strlen_eq_iff.2 ⟨?_, fun i hi => ?_⟩
    · rw [h _ (Nat.le_refl _), List.getD_eq_default _ _ (Nat.le_refl _)]
    · rw [h i (Nat.le_of_lt hi), List.getD_eq_getElem _ _ hi]
      exact fun he => h0 (he ▸ List.getElem_mem hi)
  unfold stringAt
  rw [hlen]
  refine List.ext_getElem (by rw [List.length_map, List.length_range']) fun i h1 h2 => ?_
  rw [List.getElem_map, List.getElem_range', Nat.one_mul, h i (Nat.le_of_lt h2), List.getD_eq_getElem _ _ h2]

theorem stringAt_add {b : Vector UInt8 n} {p i : ℕ} (h : i ≤ strlen b p) :
    stringAt b (p + i) = (stringAt b p).drop i := by
  unfold stringAt
  rw [strlen_add h, ← List.map_drop, List.drop_range', Nat.mul_one]

theorem getElem?_stringAt {b : Vector UInt8 n} {p i : ℕ} (h : i < strlen b p) :
    (stringAt b p)[i]? = some (cell b (p + i)) := by
  unfold stringAt
  rw [List.getElem?_map, List.getElem?_range' h, Nat.one_mul]
  rfl

theorem zero_notMem_stringAt {m : ℕ} (buffer : Vector UInt8 m) (o : ℕ) : 0 ∉ stringAt buffer o := by
  intro h
  obtain ⟨i, hi⟩ := List.mem_iff_getElem?.1 h
  have hlt : i < strlen buffer o := by
    rw [← length_stringAt]
    exact (List.getElem?_eq_some_iff.1 hi).1
  rw [getElem?_stringAt hlt] at hi
  exact cell_of_lt_strlen hlt (Option.some.inj hi)

/-- The difference of the first bytes that differ, the null byte at the end of a string included. -/
def strcmp : List UInt8 → List UInt8 → Int
  | a :: as, b :: bs => if a = b then strcmp as bs else (a.toNat : Int) - b.toNat
  | a :: _, [] => a.toNat
  | [], b :: _ => -(b.toNat : Int)
  | [], [] => 0

theorem strcmp_eq_zero {l m : List UInt8} (hl : 0 ∉ l) (hm : 0 ∉ m) (h : strcmp l m = 0) : l = m := by
  induction l generalizing m with
  | nil =>
    cases m with
    | nil => rfl
    | cons b m =>
      unfold strcmp at h
      exact absurd (UInt8.toNat_inj.1 (show b.toNat = (0 : UInt8).toNat by simpa using h)) (fun h => hm (by simp [h]))
  | cons a l ih =>
    cases m with
    | nil =>
      unfold strcmp at h
      exact absurd (UInt8.toNat_inj.1 (show a.toNat = (0 : UInt8).toNat by simpa using h)) (fun h => hl (by simp [h]))
    | cons b m =>
      unfold strcmp at h
      split at h
      · next hab =>
        subst hab
        rw [ih (fun h => hl (List.mem_cons_of_mem _ h)) (fun h => hm (List.mem_cons_of_mem _ h)) h]
      · next hab => exact absurd (UInt8.toNat_inj.1 (by omega)) hab

theorem strcmp_self (l : List UInt8) : strcmp l l = 0 := by
  induction l with
  | nil => rfl
  | cons a l ih =>
    unfold strcmp
    rw [if_pos rfl]
    exact ih

/-- The length of the part at the front that only has bytes of `str2`. -/
def strspn (str1 str2 : List UInt8) : ℕ := (str1.takeWhile str2.contains).length

/-- What `strtok` answers, the buffer it leaves, and its static `next_token`. -/
structure Token (n : ℕ) where
  start : Option ℕ
  buffer : Vector UInt8 n
  nextToken : Option ℕ

/-- `strtok` on a string of the buffer, or with `NULL` for `str` from `next_token` on. The byte it stops at is
made null if it is a delimiter. -/
def strtok (buffer : Vector UInt8 n) (nextToken str : Option ℕ) (delimiters : List UInt8) : Token n :=
  match str <|> nextToken with
  | none => ⟨none, buffer, none⟩
  | some start =>
    let stop := (first (fun i => cell buffer i == 0 || delimiters.contains (cell buffer i)) start n).getD n
    if cell buffer stop = 0 then ⟨some start, buffer, some stop⟩
    else ⟨some start, store buffer stop 0, some (stop + 1)⟩

/-- `strtok` only stores null bytes. -/
theorem cell_strtok {m : ℕ} {buffer : Vector UInt8 m} {nextToken str : Option ℕ} {delimiters : List UInt8} {i : ℕ}
    (h : cell buffer i = 0) : cell (strtok buffer nextToken str delimiters).buffer i = 0 := by
  unfold strtok
  split
  · exact h
  · simp only
    split
    · exact h
    · rename_i start _ hstop
      by_cases hlt : (first (fun i => cell buffer i == 0 || delimiters.contains (cell buffer i)) start m).getD m < m
      · rw [cell_store _ _ _ hlt]
        split
        · rfl
        · exact h
      · rw [store_ge _ _ (by omega)]
        exact h

/-- A token, by where it stops. -/
theorem strtok_spec {m start : ℕ} (buffer : Vector UInt8 m) (nextToken str : Option ℕ) (delimiters : List UInt8)
    (h : (str <|> nextToken) = some start) : ∃ stop, (strtok buffer nextToken str delimiters).start = some start ∧
      (start ≤ stop ∨ m ≤ stop) ∧ (∀ i, start ≤ i → i < stop → i < m → cell buffer i ≠ 0 ∧ cell buffer i ∉ delimiters) ∧
      (cell buffer stop = 0 ∧ strtok buffer nextToken str delimiters = ⟨some start, buffer, some stop⟩ ∨
        cell buffer stop ≠ 0 ∧ cell buffer stop ∈ delimiters ∧
          strtok buffer nextToken str delimiters = ⟨some start, store buffer stop 0, some (stop + 1)⟩) := by
  unfold strtok
  rw [h]
  simp only
  rcases hf : first (fun i => cell buffer i == 0 || delimiters.contains (cell buffer i)) start m with _ | stop
  · have h0 : cell buffer m = 0 := dif_neg (Nat.lt_irrefl m)
    rw [Option.getD_none, if_pos h0]
    refine ⟨m, rfl, .inr (Nat.le_refl m), fun i h1 _ hi => ?_, .inl ⟨h0, rfl⟩⟩
    simpa using first_eq_none.1 hf i h1 hi
  · obtain ⟨h1, -, hstop, hgo⟩ := first_eq_some.1 hf
    rw [Option.getD_some]
    refine ⟨stop, ?_, .inl h1, fun i hi hi' _ => by simpa using hgo i hi hi', ?_⟩
    · split <;> rfl
    · split
      · next h0 => exact .inl ⟨h0, rfl⟩
      · next h0 => exact .inr ⟨h0, by simpa [h0] using hstop, rfl⟩

/-- A token ends at the first null byte or delimiter. -/
theorem strtok_eq {m start : ℕ} (stop : ℕ) {buffer : Vector UInt8 m} {nextToken str : Option ℕ}
    {delimiters : List UInt8} (hstr : (str <|> nextToken) = some start) (hlt : stop < m) (hle : start ≤ stop)
    (hgo : ∀ i, start ≤ i → i < stop → cell buffer i ≠ 0 ∧ cell buffer i ∉ delimiters)
    (hstop : cell buffer stop = 0 ∨ cell buffer stop ∈ delimiters) :
    strtok buffer nextToken str delimiters = if cell buffer stop = 0 then ⟨some start, buffer, some stop⟩
      else ⟨some start, store buffer stop 0, some (stop + 1)⟩ := by
  have hfirst : first (fun i => cell buffer i == 0 || delimiters.contains (cell buffer i)) start m = some stop := by
    refine first_eq_some.2 ⟨hle, hlt, ?_, fun j h1 h2 => ?_⟩
    · simpa using hstop
    · simpa using hgo j h1 h2
  unfold strtok
  rw [hstr]
  simp only [hfirst, Option.getD_some]

/-- `strchr`: the offset of the first byte of the string at `p` that is `c`. -/
def strchr (buffer : Vector UInt8 n) (p : ℕ) (c : UInt8) : Option ℕ :=
  if c = 0 then some (p + strlen buffer p) else first (fun i => cell buffer i == c) p (p + strlen buffer p)

theorem le_of_strchr {b : Vector UInt8 n} {p i : ℕ} {c : UInt8} (h : strchr b p c = some i) : p ≤ i := by
  unfold strchr at h
  split at h
  · cases h
    omega
  · exact (first_eq_some.1 h).1

end BebasOs
