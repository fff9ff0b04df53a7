/-
`strtok` over a sequence of calls. Each call stops at the first delimiter, so the strings it returns are the
pieces between single delimiters, empty ones included, and behind the last piece it returns the empty string at
the end of the string for ever.
-/
import BebasOs.Stdlib.String

namespace BebasOs

open Bytes Search

variable {n p : ℕ} {b : Vector UInt8 n} {nextToken str : Option ℕ} {delimiters : List UInt8}

/-- The call of `strtok` after another, with `NULL`. -/
def strtokNext (delimiters : List UInt8) (t : Token n) : Token n := strtok t.buffer t.nextToken none delimiters

/-- Call `k` of a sequence: the first is made with the string at `start`, each later one with `NULL`. -/
def strtokCall (buffer : Vector UInt8 n) (nextToken : Option ℕ) (start : ℕ) (delimiters : List UInt8)
    (k : ℕ) : Token n :=
  (strtokNext delimiters)^[k] (strtok buffer nextToken (some start) delimiters)

/-- The string a call returns, unless that is `NULL`. -/
def Token.returned (t : Token n) : Option (List UInt8) := t.start.map (stringAt t.buffer)

/-! ## One call -/

/-- A string only depends on its own bytes, its null byte included. -/
theorem stringAt_congr {b' : Vector UInt8 n} {k : ℕ} (hlen : strlen b' p = k)
    (h : ∀ i < k, cell b' (p + i) = cell b (p + i)) :
    stringAt b' p = (List.range' p k).map (cell b) := by
  unfold stringAt
  rw [hlen]
  refine List.map_congr_left fun i hi => ?_
  rw [List.mem_range'_1] at hi
  have hcell := h (i - p) (by omega)
  rwa [Nat.add_sub_cancel' hi.1] at hcell

theorem stringAt_nil (h : cell b p = 0) : stringAt b p = [] := by
  rw [← List.length_eq_zero_iff, length_stringAt, strlen_eq_zero.2 h]

/-- A string cut at an offset inside of it. -/
theorem stringAt_append {q : ℕ} (hp : p ≤ q) (hq : q ≤ p + strlen b p) :
    stringAt b p = (List.range' p (q - p)).map (cell b) ++ stringAt b q := by
  have hlen : strlen b q = strlen b p - (q - p) := by
    rw [← strlen_add (by omega), Nat.add_sub_cancel' hp]
  unfold stringAt
  rw [← List.map_append, hlen]
  congr 1
  conv_rhs => rw [show q = p + (q - p) by omega, Nat.add_sub_cancel_left]
  rw [List.range'_append_1, Nat.add_sub_cancel' (by omega)]

/-- A byte with no null byte up to it is in the string. -/
theorem lt_strlen_of_ne {stop : ℕ} (hgo : ∀ i, p ≤ i → i < stop → cell b i ≠ 0) (h : cell b stop ≠ 0) :
    stop < p + strlen b p := by
  by_contra hge
  have hnull := cell_strlen b p
  rcases Nat.lt_or_eq_of_le (Nat.le_of_not_lt hge) with hlt | heq
  · exact hgo _ (Nat.le_add_right p _) hlt hnull
  · exact h (heq ▸ hnull)

/-- A string cut at a byte of it. -/
theorem stringAt_cut {stop : ℕ} (hp : p ≤ stop) (hlt : stop < p + strlen b p) :
    stringAt b p = (List.range' p (stop - p)).map (cell b) ++ cell b stop :: stringAt b (stop + 1) := by
  have hrest : strlen b stop = strlen b p - (stop - p) := by
    rw [← strlen_add (by omega), Nat.add_sub_cancel' hp]
  rw [stringAt_append hp (by omega), stringAt_append (p := stop) (Nat.le_succ stop) (by omega),
    Nat.succ_sub (Nat.le_refl stop), Nat.sub_self]
  rfl

/-- A null byte stored at the end of a string cuts it there. -/
theorem stringAt_store_null {stop : ℕ} (hp : p ≤ stop) (hstop : stop < n) (hgo : ∀ i, p ≤ i → i < stop → cell b i ≠ 0) :
    stringAt (store b stop 0) p = (List.range' p (stop - p)).map (cell b) := by
  refine stringAt_congr (strlen_eq_iff.2 ⟨?_, fun i hi => ?_⟩) fun i hi => ?_
  · rw [Nat.add_sub_cancel' hp, cell_store_self _ _ hstop]
  · rw [cell_store_ne _ _ (by omega)]
    exact hgo _ (Nat.le_add_right p i) (by omega)
  · exact cell_store_ne _ _ (by omega)

/-- What is stored before a string leaves it as it is. -/
theorem stringAt_store_before {q stop : ℕ} (h : stop < q) (x : UInt8) : stringAt (store b stop x) q = stringAt b q := by
  have hcell (i : ℕ) : cell (store b stop x) (q + i) = cell b (q + i) := cell_store_ne _ _ (by omega)
  refine stringAt_congr (strlen_eq_iff.2 ⟨?_, fun i hi => ?_⟩) fun i _ => hcell i
  · rw [hcell]
    exact cell_strlen b q
  · rw [hcell]
    exact cell_of_lt_strlen hi

/-- A call on a string either comes to the end of it, or cuts it at its first delimiter. -/
theorem strtok_cut (b : Vector UInt8 n) (nextToken str : Option ℕ) (delimiters : List UInt8)
    (h : (str <|> nextToken) = some p) : ∃ q, (strtok b nextToken str delimiters).nextToken = some q ∧
    (((∀ x ∈ stringAt b p, delimiters.contains x = false) ∧
        (strtok b nextToken str delimiters).returned = some (stringAt b p) ∧
        stringAt (strtok b nextToken str delimiters).buffer q = []) ∨
      ∃ piece x rest, stringAt b p = piece ++ x :: rest ∧ (∀ y ∈ piece, delimiters.contains y = false) ∧
        delimiters.contains x = true ∧ (strtok b nextToken str delimiters).returned = some piece ∧
        stringAt (strtok b nextToken str delimiters).buffer q = rest) := by
  obtain ⟨stop, -, hle, hgo, ⟨h0, htok⟩ | ⟨h0, hmem, htok⟩⟩ := strtok_spec b nextToken str delimiters h
  · -- the whole string is returned
    rw [htok]
    refine ⟨stop, rfl, .inl ⟨fun x hx => ?_, rfl, stringAt_nil h0⟩⟩
    obtain ⟨i, hi, rfl⟩ := List.mem_map.1 hx
    rw [List.mem_range'_1] at hi
    have hne : cell b i ≠ 0 := by
      have hcell := cell_of_lt_strlen (b := b) (p := p) (i := i - p) (by omega)
      rwa [Nat.add_sub_cancel' hi.1] at hcell
    have hin : i < n := by
      by_contra hge
      exact hne (dif_neg hge)
    have hbefore : i < stop := by
      by_contra hge
      refine cell_of_lt_strlen (b := b) (p := p) (i := stop - p) (by omega) ?_
      rw [Nat.add_sub_cancel' (by omega)]
      exact h0
    simpa using (hgo i hi.1 hbefore hin).2
  · have hstop : stop < n := by
      by_contra hge
      exact h0 (dif_neg hge)
    have hp : p ≤ stop := by omega
    have hword (i : ℕ) (h1 : p ≤ i) (h2 : i < stop) := hgo i h1 h2 (by omega)
    have hcut := stringAt_cut hp (lt_strlen_of_ne (fun i h1 h2 => (hword i h1 h2).1) h0)
    rw [htok]
    refine ⟨stop + 1, rfl, .inr ⟨_, _, _, hcut, fun y hy => ?_, by simpa using hmem, ?_, ?_⟩⟩
    · obtain ⟨i, hi, rfl⟩ := List.mem_map.1 hy
      rw [List.mem_range'_1] at hi
      simpa using (hword i hi.1 (by omega)).2
    · exact congrArg some (stringAt_store_null hp hstop fun i h1 h2 => (hword i h1 h2).1)
    · exact stringAt_store_before (Nat.lt_succ_self stop) 0

/-! ## Sequences of calls -/

/-- Every call returns a string: a piece between single delimiters, or behind them the empty string. -/
theorem strtokCall_returned (b : Vector UInt8 n) (nextToken : Option ℕ) (p : ℕ) (delimiters : List UInt8) (k : ℕ) :
    (strtokCall b nextToken p delimiters k).returned =
      some (((stringAt b p).splitOnP delimiters.contains)[k]?.getD []) := by
  induction k generalizing b nextToken p with
  | zero =>
    obtain ⟨-, -, ⟨hnone, hret, -⟩ | ⟨piece, x, rest, hcut, hpiece, hx, hret, -⟩⟩ :=
      strtok_cut b nextToken (some p) delimiters rfl
    · rw [List.splitOnP_eq_singleton hnone]
      exact hret
    · rw [hcut, List.splitOnP_append_cons_of_forall_mem hpiece x hx]
      exact hret
  | succ k ih =>
    obtain ⟨q, hnext, hcut⟩ := strtok_cut b nextToken (some p) delimiters rfl
    -- the next call goes on with the string at `q`
    have hcall : strtokCall b nextToken p delimiters (k + 1) =
        strtokCall (strtok b nextToken (some p) delimiters).buffer none q delimiters k := by
      unfold strtokCall
      rw [Function.iterate_succ_apply, strtokNext, hnext]
      rfl
    rw [hcall, ih]
    rcases hcut with ⟨hnone, -, hrest⟩ | ⟨piece, x, rest, hcut, hpiece, hx, -, hrest⟩
    · rw [hrest, List.splitOnP_eq_singleton hnone, List.splitOnP_nil]
      cases k <;> rfl
    · rw [hrest, hcut, List.splitOnP_append_cons_of_forall_mem hpiece x hx, List.getElem?_cons_succ]

/-- The maximal runs of bytes of a string that are no delimiters. -/
def runs (delimiters s : List UInt8) : List (List UInt8) := (s.splitOnP delimiters.contains).filter (· ≠ [])

/-- The calls return these runs in their order, and `NULL` from then on. -/
def Tokenises (b : Vector UInt8 n) (nextToken : Option ℕ) (p : ℕ) (delimiters : List UInt8) : Prop :=
  ∀ k, (strtokCall b nextToken p delimiters k).returned = (runs delimiters (stringAt b p))[k]?

/-- They never do: no call returns `NULL`. -/
theorem never_tokenises (b : Vector UInt8 n) (nextToken : Option ℕ) (p : ℕ) (delimiters : List UInt8) :
    ¬ Tokenises b nextToken p delimiters := by
  intro h
  have hlast := h (runs delimiters (stringAt b p)).length
  rw [strtokCall_returned, List.getElem?_eq_none (Nat.le_refl _)] at hlast
  cases hlast

/-- The line ` a`: the first call returns an empty string, and the third one is not `NULL`. -/
theorem strtok_empty_token : ¬ ∀ (n : ℕ) (b : Vector UInt8 n) (nextToken : Option ℕ) (p : ℕ) (delimiters : List UInt8),
    Tokenises b nextToken p delimiters := by
  intro h
  have hfirst := h 3 #v[32, 97, 0] none 0 [32] 0
  rw [strtokCall_returned] at hfirst
  exact absurd hfirst (by decide)

end BebasOs
