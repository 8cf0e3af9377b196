import Mathlib.Tactic

set_option autoImplicit false

/-! # Removing marked entries by an early-exit shift

A column of entries, the bottom one first. `z` is the empty entry and `full` marks the entries to be
removed. `shiftDown` overwrites each entry by the one above it, starting at the bottom, but stops as
soon as it stands on an empty entry, and never touches the topmost one. `sweep` walks the column
upwards and calls `shiftDown` where it meets a marked entry; the entry that moves into the place it
has just left is not looked at again.

`sweep_eq_packed_iff` says for which columns that removes exactly the marked entries: none is
marked; or the topmost entry is empty, no two marked entries are adjacent, and above a marked entry
nothing but empty and marked entries lies beyond the first empty one. For a single `shiftDown`,
`shiftDown_eq_tail_iff` says when it removes the bottom entry. -/

namespace Katetris.Lib

variable {α : Type} [DecidableEq α] (z : α) (full : α → Bool)

/-! ## The two walks -/

/-- Overwrite each entry by the one above it, up to the first empty entry. -/
def shiftDown : List α → List α
  | [] => []
  | [r] => [r]
  | r :: r' :: rest => if r = z then r :: r' :: rest else r' :: shiftDown (r' :: rest)

@[simp] theorem length_shiftDown : ∀ l : List α, (shiftDown z l).length = l.length
  | [] => rfl
  | [_] => rfl
  | r :: r' :: rest => by
      rw [shiftDown]
      split
      · rfl
      · simp [length_shiftDown (r' :: rest)]

/-- Walk the column upwards, shifting at every marked entry met. -/
def sweep : List α → List α
  | [] => []
  | [r] => [r]
  | r :: r' :: rest =>
      if full r then r' :: sweep (shiftDown z (r' :: rest)) else r :: sweep (r' :: rest)
termination_by l => l.length

/-- The number of marked entries the walk meets. -/
def sweepCount : List α → Nat
  | [] => 0
  | [r] => if full r then 1 else 0
  | r :: r' :: rest =>
      if full r then 1 + sweepCount (shiftDown z (r' :: rest)) else sweepCount (r' :: rest)
termination_by l => l.length

/-- The column without its marked entries, filled up with empty ones at the top. -/
def packed (l : List α) : List α :=
  l.filter (fun r => !full r) ++ List.replicate (l.countP (fun r => full r)) z

/-! ## The condition -/

/-- No two adjacent entries are both marked. -/
def NoAdjacent (l : List α) : Prop := l.IsChain (fun a b => ¬(full a = true ∧ full b = true))

/-- Beyond the first empty entry there are only empty and marked ones. -/
def Settled : List α → Prop
  | [] => True
  | r :: rest => if r = z then ∀ s ∈ rest, s = z ∨ full s = true else Settled rest

/-- The column above its lowest marked entry is settled. -/
def SettledAbove : List α → Prop
  | [] => True
  | r :: rest => if full r then Settled z full rest else SettledAbove rest

variable {z full}

omit [DecidableEq α] in
theorem noAdjacent_cons_of_not_full {r : α} {rest : List α} (hr : full r = false) :
    NoAdjacent full (r :: rest) ↔ NoAdjacent full rest := by
  cases rest with
  | nil => simp [NoAdjacent]
  | cons r' rest => simp [NoAdjacent, hr]

omit [DecidableEq α] in
theorem noAdjacent_cons_of_next {r r' : α} {rest : List α} (hr' : full r' = false) :
    NoAdjacent full (r :: r' :: rest) ↔ NoAdjacent full (r' :: rest) := by
  simp [NoAdjacent, hr']

omit [DecidableEq α] in
theorem not_noAdjacent_of_full {r r' : α} {rest : List α} (hr : full r = true)
    (hr' : full r' = true) : ¬NoAdjacent full (r :: r' :: rest) := by
  simp [NoAdjacent, hr, hr']

omit [DecidableEq α] in
theorem not_full_of_mem_packed (hz : full z = false) {l : List α} {r : α}
    (h : r ∈ packed z full l) : full r = false := by
  rcases List.mem_append.1 h with h | h
  · simpa using (List.mem_filter.1 h).2
  · rw [List.eq_of_mem_replicate h, hz]

/-! ## Entries inserted by the shift -/

variable (z) in
/-- The column with `n` empty entries inserted at its first empty one. -/
def insertEmpty (n : Nat) : List α → List α
  | [] => []
  | r :: rest => if r = z then List.replicate n z ++ r :: rest else r :: insertEmpty n rest

theorem insertEmpty_zero (l : List α) : insertEmpty z 0 l = l := by
  induction l with
  | nil => rfl
  | cons r rest ih => simp [insertEmpty, ih]

theorem shiftDown_of_empty (rest : List α) : shiftDown z (z :: rest) = z :: rest := by
  cases rest with
  | nil => rfl
  | cons r rest => simp [shiftDown]

theorem insertEmpty_succ_of_empty (n : Nat) (rest : List α) :
    insertEmpty z (n + 1) (z :: rest) = z :: insertEmpty z n (z :: rest) := by
  simp [insertEmpty, List.replicate_succ]

theorem insertEmpty_of_empty (n : Nat) (rest : List α) :
    ∃ w, insertEmpty z n (z :: rest) = z :: w := by
  cases n with
  | zero => exact ⟨rest, insertEmpty_zero _⟩
  | succ n => exact ⟨_, insertEmpty_succ_of_empty n rest⟩

/-- Shifting out a non-empty entry inserts one empty entry at the first empty one. -/
theorem shiftDown_insertEmpty {r : α} (hr : r ≠ z) {l : List α} (hl : z ∈ l) (n : Nat) :
    shiftDown z (r :: insertEmpty z n l) = insertEmpty z (n + 1) l := by
  induction l generalizing r with
  | nil => simp at hl
  | cons s rest ih =>
      by_cases hs : s = z
      · subst hs
        obtain ⟨w, hw⟩ := insertEmpty_of_empty (z := s) n rest
        rw [insertEmpty_succ_of_empty, hw, shiftDown, if_neg hr, shiftDown_of_empty]
      · have hrest : z ∈ rest := by
          rcases List.mem_cons.1 hl with h | h
          · exact absurd h.symm hs
          · exact h
        simp only [insertEmpty, if_neg hs, shiftDown, if_neg hr]
        rw [ih hs hrest]

/-! ## Columns that end in an empty entry -/

variable (z) in
/-- The topmost entry, if there is one, is empty. -/
def EndsEmpty (l : List α) : Prop := ∀ r, l.getLast? = some r → r = z

omit [DecidableEq α] in
theorem EndsEmpty.tail {r : α} {rest : List α} (h : EndsEmpty z (r :: rest)) :
    EndsEmpty z rest := by
  cases rest with
  | nil => intro s hs; simp at hs
  | cons r' rest => simpa [EndsEmpty] using h

omit [DecidableEq α] in
theorem EndsEmpty.mem {r : α} {rest : List α} (h : EndsEmpty z (r :: rest)) : z ∈ r :: rest := by
  obtain ⟨t, ht⟩ : ∃ t, (r :: rest).getLast? = some t := by
    simp [List.getLast?_cons]
  have := List.mem_of_getLast? ht
  rwa [h t ht] at this

omit [DecidableEq α] in
/-- A marked entry is not the topmost one. -/
theorem EndsEmpty.next_of_full (hz : full z = false) {r : α} {rest : List α}
    (h : EndsEmpty z (r :: rest)) (hr : full r = true) : ∃ r' rest', rest = r' :: rest' := by
  cases rest with
  | nil =>
      have : r = z := h r rfl
      rw [this, hz] at hr
      exact absurd hr (by simp)
  | cons r' rest' => exact ⟨r', rest', rfl⟩

omit [DecidableEq α] in
/-- Moving the first entry to the end changes nothing exactly when all entries are the same. -/
theorem cons_eq_append_singleton_iff {a : α} {l : List α} : a :: l = l ++ [a] ↔ ∀ s ∈ l, s = a := by
  induction l with
  | nil => simp
  | cons r rest ih =>
      rw [List.cons_append, List.cons.injEq, List.forall_mem_cons, eq_comm]
      refine and_congr_right fun hr => ?_
      rw [hr]
      exact ih

/-- **The exact domain of the early-exit shift.** It drops the lowest entry, lets all others down by one
    and leaves an empty one on top exactly when the topmost entry was empty and there was nothing but
    empty entries beyond the first one. -/
theorem shiftDown_eq_tail_iff :
    ∀ l : List α, l ≠ [] →
      (shiftDown z l = l.tail ++ [z] ↔ EndsEmpty z l ∧ Settled z (fun _ => false) l)
  | [], hl => absurd rfl hl
  | [r], _ => by simp [shiftDown, EndsEmpty, Settled]
  | r :: r' :: rest, _ => by
      by_cases hr : r = z
      · -- nothing moves, so every entry has to equal the one above it
        subst hr
        have hall : (EndsEmpty r (r :: r' :: rest) ∧ Settled r (fun _ => false) (r :: r' :: rest)) ↔
            ∀ s ∈ r' :: rest, s = r := by
          simp only [Settled, if_true, Bool.false_eq_true, or_false]
          refine and_iff_right_of_imp fun hempty s hs => ?_
          exact hempty s (List.mem_of_getLast? (by simpa using hs))
        rw [shiftDown_of_empty, List.tail_cons, hall, cons_eq_append_singleton_iff]
      · have hends : EndsEmpty z (r :: r' :: rest) ↔ EndsEmpty z (r' :: rest) := by
          simp [EndsEmpty]
        have hsettled : Settled z (fun _ => false) (r :: r' :: rest)
            ↔ Settled z (fun _ => false) (r' :: rest) := by
          rw [Settled, if_neg hr]
        rw [hends, hsettled, ← shiftDown_eq_tail_iff (r' :: rest) (by simp), shiftDown, if_neg hr]
        simp

theorem sweep_cons_of_not_full {r : α} (hr : full r = false) (rest : List α) :
    sweep z full (r :: rest) = r :: sweep z full rest := by
  cases rest with
  | nil => simp [sweep]
  | cons r' rest => rw [sweep, if_neg (by simp [hr])]

theorem sweep_replicate (hz : full z = false) (n : Nat) (rest : List α) :
    sweep z full (List.replicate n z ++ rest) = List.replicate n z ++ sweep z full rest := by
  induction n with
  | zero => rfl
  | succ n ih =>
      rw [List.replicate_succ, List.cons_append, sweep_cons_of_not_full hz, ih, List.cons_append]

/-- Meeting a marked entry below a non-marked one is the same as not having it and having one more
    empty entry inserted above. -/
theorem sweep_full_cons (hz : full z = false) {s u : α} {t : List α} (hs : full s = true)
    (hu : full u = false) (hmem : z ∈ u :: t) (n : Nat) :
    sweep z full (s :: insertEmpty z n (u :: t)) = sweep z full (insertEmpty z (n + 1) (u :: t)) := by
  by_cases huz : u = z
  · subst huz
    obtain ⟨w, hw⟩ := insertEmpty_of_empty (z := u) n t
    rw [insertEmpty_succ_of_empty, sweep_cons_of_not_full hz, hw, sweep, if_pos hs,
      shiftDown_of_empty]
  · have htz : z ∈ t := by
      rcases List.mem_cons.1 hmem with h | h
      · exact absurd h.symm huz
      · exact h
    simp only [insertEmpty, if_neg huz]
    rw [sweep, if_pos hs, sweep_cons_of_not_full hu, shiftDown_insertEmpty huz htz]

/-- What is left once empty entries have been inserted: the part above them must be empty entries
    and isolated marked ones. -/
theorem replicate_append_sweep_iff (hz : full z = false) :
    ∀ (b : List α) (n : Nat), 0 < n → EndsEmpty z b →
      (List.replicate n z ++ sweep z full b
          = b.filter (fun r => !full r) ++ List.replicate (n + b.countP (fun r => full r)) z ↔
        NoAdjacent full b ∧ ∀ s ∈ b, s = z ∨ full s = true)
  | [], n, _, _ => by simp [sweep, NoAdjacent]
  | [r], n, _, hend => by
      have hr : r = z := hend r rfl
      subst hr
      simp [sweep, hz, NoAdjacent, ← List.replicate_succ', List.replicate_succ]
  | r :: r' :: rest, n, hn, hend => by
      obtain ⟨m, rfl⟩ : ∃ m, n = m + 1 := ⟨n - 1, by omega⟩
      by_cases hrz : z = r
      · -- an empty entry matches the first of the inserted ones
        subst hrz
        have hcomm : ∀ l : List α, List.replicate (m + 1) z ++ z :: l
            = z :: (List.replicate (m + 1) z ++ l) := by
          intro l
          rw [← List.cons_append, ← List.replicate_succ, List.append_cons,
            ← List.replicate_succ']
        rw [sweep_cons_of_not_full hz, hcomm, List.filter_cons_of_pos (by simp [hz]),
          List.countP_cons_of_neg (by simp [hz]), List.cons_append, List.cons.injEq,
          replicate_append_sweep_iff hz (r' :: rest) (m + 1) hn hend.tail,
          noAdjacent_cons_of_not_full hz]
        simp
      · by_cases hr : full r = true
        · by_cases hr' : full r' = true
          · -- the second of two adjacent marked entries survives
            refine iff_of_false (fun heq => ?_) (fun h => not_noAdjacent_of_full hr hr' h.1)
            have hmem : r' ∈ List.replicate (m + 1) z ++ sweep z full (r :: r' :: rest) := by
              rw [sweep, if_pos hr]
              simp
            rw [heq] at hmem
            rcases List.mem_append.1 hmem with h | h
            · simp [hr'] at h
            · rw [List.eq_of_mem_replicate h, hz] at hr'
              exact absurd hr' (by simp)
          · rw [Bool.not_eq_true] at hr'
            by_cases hr'z : z = r'
            · subst hr'z
              have hlhs : List.replicate (m + 1) z ++ sweep z full (r :: z :: rest)
                  = List.replicate (m + 1 + 1) z ++ sweep z full (z :: rest) := by
                rw [sweep, if_pos hr, shiftDown_of_empty, List.append_cons,
                  ← List.replicate_succ']
              have hcount : m + 1 + (r :: z :: rest).countP (fun r => full r)
                  = m + 1 + 1 + (z :: rest).countP (fun r => full r) := by
                rw [List.countP_cons_of_pos (by simp [hr])]
                omega
              rw [hlhs, hcount, List.filter_cons_of_neg (by simp [hr]),
                replicate_append_sweep_iff hz (z :: rest) (m + 1 + 1) (by omega) hend.tail,
                noAdjacent_cons_of_next hz]
              simp [hr]
            · -- the entry moved down is not where packing puts it
              refine iff_of_false (fun heq => ?_) (fun h => ?_)
              · rw [List.filter_cons_of_neg (by simp [hr]), List.filter_cons_of_pos (by simp [hr']),
                  List.replicate_succ, List.cons_append, List.cons_append, List.cons.injEq] at heq
                exact hr'z heq.1
              · rcases h.2 r' (by simp) with h | h
                · exact hr'z h.symm
                · rw [hr'] at h
                  exact absurd h (by simp)
        · rw [Bool.not_eq_true] at hr
          refine iff_of_false (fun heq => ?_) (fun h => ?_)
          · rw [List.filter_cons_of_pos (by simp [hr]), List.replicate_succ, List.cons_append,
              List.cons_append, List.cons.injEq] at heq
            exact hrz heq.1
          · rcases h.2 r (by simp) with h | h
            · exact hrz h.symm
            · rw [hr] at h
              exact absurd h (by simp)
termination_by b => b.length

/-- A column above a marked entry that has been shifted out: it is swept exactly iff it is settled
    and has no two adjacent marked entries. -/
theorem sweep_insertEmpty_iff (hz : full z = false) :
    ∀ (l : List α) (n : Nat), 0 < n → z ∈ l → EndsEmpty z l →
      (sweep z full (insertEmpty z n l)
          = l.filter (fun r => !full r) ++ List.replicate (n + l.countP (fun r => full r)) z ↔
        NoAdjacent full l ∧ Settled z full l)
  | [], _, _, hmem, _ => absurd hmem (by simp)
  | s :: t, n, hn, hmem, hend => by
      by_cases hsz : z = s
      · subst hsz
        have hlhs : sweep z full (insertEmpty z n (z :: t))
            = z :: (List.replicate n z ++ sweep z full t) := by
          simp only [insertEmpty, if_true]
          rw [sweep_replicate hz, sweep_cons_of_not_full hz, List.append_cons,
            ← List.replicate_succ', List.replicate_succ, List.cons_append]
        rw [hlhs, List.filter_cons_of_pos (by simp [hz]), List.countP_cons_of_neg (by simp [hz]),
          List.cons_append, List.cons.injEq, replicate_append_sweep_iff hz t n hn hend.tail,
          noAdjacent_cons_of_not_full hz]
        simp [Settled]
      · have hsz' : ¬ s = z := fun h => hsz h.symm
        have htz : z ∈ t := (List.mem_cons.1 hmem).resolve_left hsz
        have hset : Settled z full (s :: t) ↔ Settled z full t := by simp [Settled, hsz']
        by_cases hs : full s = true
        · obtain ⟨u, t', rfl⟩ := hend.next_of_full hz hs
          have hins : insertEmpty z n (s :: u :: t') = s :: insertEmpty z n (u :: t') := by
            simp [insertEmpty, hsz']
          by_cases hu : full u = true
          · -- `u` moves into the place of `s` and is never looked at
            refine iff_of_false (fun heq => ?_) (fun h => not_noAdjacent_of_full hs hu h.1)
            have huz : ¬ u = z := by
              intro h
              rw [h, hz] at hu
              exact absurd hu (by simp)
            have hmemu : u ∈ sweep z full (insertEmpty z n (s :: u :: t')) := by
              rw [hins]
              simp only [insertEmpty, if_neg huz]
              rw [sweep, if_pos hs]
              simp
            rw [heq] at hmemu
            rcases List.mem_append.1 hmemu with h | h
            · simp [hu] at h
            · exact huz (List.eq_of_mem_replicate h)
          · rw [Bool.not_eq_true] at hu
            have hcount : n + (s :: u :: t').countP (fun r => full r)
                = n + 1 + (u :: t').countP (fun r => full r) := by
              rw [List.countP_cons_of_pos (by simp [hs])]
              omega
            rw [hins, sweep_full_cons hz hs hu htz, List.filter_cons_of_neg (by simp [hs]), hcount,
              sweep_insertEmpty_iff hz (u :: t') (n + 1) (by omega) htz hend.tail, hset,
              noAdjacent_cons_of_next hu]
        · rw [Bool.not_eq_true] at hs
          have hins : insertEmpty z n (s :: t) = s :: insertEmpty z n t := by
            simp [insertEmpty, hsz']
          rw [hins, sweep_cons_of_not_full hs, List.filter_cons_of_pos (by simp [hs]),
            List.countP_cons_of_neg (by simp [hs]), List.cons_append, List.cons.injEq,
            sweep_insertEmpty_iff hz t n hn htz hend.tail, hset, noAdjacent_cons_of_not_full hs]
          simp
termination_by l => l.length

/-- The sweep of a column that ends in an empty entry. -/
theorem sweep_eq_packed_iff_of_endsEmpty (hz : full z = false) :
    ∀ l : List α, EndsEmpty z l →
      (sweep z full l = packed z full l ↔ NoAdjacent full l ∧ SettledAbove z full l)
  | [], _ => by simp [sweep, packed, NoAdjacent, SettledAbove]
  | r :: rest, hend => by
      by_cases hr : full r = true
      · obtain ⟨r', rest', rfl⟩ := hend.next_of_full hz hr
        have hmem : z ∈ r' :: rest' := hend.tail.mem
        by_cases hr' : full r' = true
        · refine iff_of_false (fun heq => ?_) (fun h => not_noAdjacent_of_full hr hr' h.1)
          have hmem' : r' ∈ packed z full (r :: r' :: rest') := by
            rw [← heq, sweep, if_pos hr]
            simp
          rw [not_full_of_mem_packed hz hmem'] at hr'
          exact absurd hr' (by simp)
        · rw [Bool.not_eq_true] at hr'
          have hlhs : sweep z full (r :: r' :: rest')
              = sweep z full (insertEmpty z 1 (r' :: rest')) := by
            have := sweep_full_cons hz hr hr' hmem 0
            rwa [insertEmpty_zero] at this
          rw [hlhs, packed, List.filter_cons_of_neg (by simp [hr]),
            List.countP_cons_of_pos (by simp [hr]), Nat.add_comm,
            sweep_insertEmpty_iff hz (r' :: rest') 1 (by omega) hmem hend.tail,
            noAdjacent_cons_of_next hr']
          simp [SettledAbove, hr]
      · rw [Bool.not_eq_true] at hr
        rw [sweep_cons_of_not_full hr, packed, List.filter_cons_of_pos (by simp [hr]),
          List.countP_cons_of_neg (by simp [hr]), List.cons_append, List.cons.injEq,
          noAdjacent_cons_of_not_full hr]
        have ih := sweep_eq_packed_iff_of_endsEmpty hz rest hend.tail
        simpa [SettledAbove, hr, packed] using ih

/-! ## The topmost entry -/

theorem getLast?_shiftDown : ∀ l : List α, (shiftDown z l).getLast? = l.getLast?
  | [] => rfl
  | [_] => rfl
  | r :: r' :: rest => by
      rw [shiftDown]
      split
      · rfl
      · have ih := getLast?_shiftDown (r' :: rest)
        have hne : shiftDown z (r' :: rest) ≠ [] := by
          intro h
          have := congrArg List.length h
          simp at this
        rw [List.getLast?_cons_of_ne_nil hne, ih, List.getLast?_cons_cons]

theorem sweep_ne_nil {r : α} {rest : List α} : sweep z full (r :: rest) ≠ [] := by
  cases rest with
  | nil => simp [sweep]
  | cons r' rest =>
      rw [sweep]
      split <;> simp

/-- The sweep never writes the topmost entry. -/
theorem getLast?_sweep : ∀ l : List α, (sweep z full l).getLast? = l.getLast?
  | [] => by simp [sweep]
  | [_] => by simp [sweep]
  | r :: r' :: rest => by
      rw [sweep, List.getLast?_cons_cons]
      split
      · obtain ⟨u, us, hu⟩ : ∃ u us, shiftDown z (r' :: rest) = u :: us := by
          cases h : shiftDown z (r' :: rest) with
          | nil =>
              have := congrArg List.length h
              simp at this
          | cons u us => exact ⟨u, us, rfl⟩
        have hlen := length_shiftDown z (r' :: rest)
        have ih := getLast?_sweep (shiftDown z (r' :: rest))
        rw [getLast?_shiftDown] at ih
        rw [List.getLast?_cons_of_ne_nil (by rw [hu]; exact sweep_ne_nil), ih]
      · rw [List.getLast?_cons_of_ne_nil sweep_ne_nil, getLast?_sweep (r' :: rest)]
termination_by l => l.length

/-! ## The exact domain of the sweep -/

theorem sweep_eq_self_of_not_full {l : List α} (h : ∀ r ∈ l, full r = false) :
    sweep z full l = l := by
  induction l with
  | nil => simp [sweep]
  | cons r rest ih =>
      rw [sweep_cons_of_not_full (h r (by simp)), ih (fun s hs => h s (by simp [hs]))]

omit [DecidableEq α] in
theorem packed_eq_self_of_not_full {l : List α} (h : ∀ r ∈ l, full r = false) :
    packed z full l = l := by
  have hfilter : l.filter (fun r => !full r) = l :=
    List.filter_eq_self.2 (fun r hr => by simp [h r hr])
  have hcount : l.countP (fun r => full r) = 0 :=
    List.countP_eq_zero.2 (fun r hr => by simp [h r hr])
  rw [packed, hfilter, hcount, List.replicate_zero, List.append_nil]

omit [DecidableEq α] in
/-- If anything is removed, the topmost entry of the packed column is empty. -/
theorem getLast?_packed_of_full {l : List α} {r : α} (hr : r ∈ l) (hf : full r = true) :
    (packed z full l).getLast? = some z := by
  have hpos : 0 < l.countP (fun r => full r) := List.countP_pos_iff.2 ⟨r, hr, hf⟩
  obtain ⟨m, hm⟩ : ∃ m, l.countP (fun r => full r) = m + 1 := ⟨_, (Nat.succ_pred_eq_of_pos hpos).symm⟩
  rw [packed, hm, List.replicate_succ', ← List.append_assoc, List.getLast?_concat]

/-- **The sweep removes exactly the marked entries** if and only if there are none, or the topmost
    entry is empty, no two marked ones are adjacent, and the column above the lowest marked one is
    settled. -/
theorem sweep_eq_packed_iff (hz : full z = false) (l : List α) :
    sweep z full l = packed z full l ↔
      (∀ r ∈ l, full r = false) ∨
        (EndsEmpty z l ∧ NoAdjacent full l ∧ SettledAbove z full l) := by
  by_cases hnone : ∀ r ∈ l, full r = false
  · refine iff_of_true ?_ (Or.inl hnone)
    rw [sweep_eq_self_of_not_full hnone, packed_eq_self_of_not_full hnone]
  · rw [or_iff_right hnone]
    by_cases hend : EndsEmpty z l
    · rw [sweep_eq_packed_iff_of_endsEmpty hz l hend, and_iff_right hend]
    · refine iff_of_false (fun heq => hend ?_) (fun h => hend h.1)
      -- the topmost entry is left alone, and packing puts an empty one there
      push Not at hnone
      obtain ⟨r, hr, hf⟩ := hnone
      have hf' : full r = true := by simpa using hf
      intro s hs
      have hlast : (sweep z full l).getLast? = l.getLast? := getLast?_sweep l
      rw [← hlast, heq, getLast?_packed_of_full hr hf'] at hs
      exact (Option.some.inj hs).symm

/-! ## The count -/

theorem sweepCount_cons_of_not_full {r : α} (hr : full r = false) (rest : List α) :
    sweepCount z full (r :: rest) = sweepCount z full rest := by
  cases rest with
  | nil => simp [sweepCount, hr]
  | cons r' rest => rw [sweepCount, if_neg (by simp [hr])]

theorem sweepCount_replicate (hz : full z = false) (n : Nat) (rest : List α) :
    sweepCount z full (List.replicate n z ++ rest) = sweepCount z full rest := by
  induction n with
  | zero => rfl
  | succ n ih => rw [List.replicate_succ, List.cons_append, sweepCount_cons_of_not_full hz, ih]

theorem sweepCount_full_cons (hz : full z = false) {s u : α} {t : List α} (hs : full s = true)
    (hu : full u = false) (hmem : z ∈ u :: t) (n : Nat) :
    sweepCount z full (s :: insertEmpty z n (u :: t))
      = 1 + sweepCount z full (insertEmpty z (n + 1) (u :: t)) := by
  by_cases huz : u = z
  · subst huz
    obtain ⟨w, hw⟩ := insertEmpty_of_empty (z := u) n t
    rw [insertEmpty_succ_of_empty, sweepCount_cons_of_not_full hz, hw, sweepCount, if_pos hs,
      shiftDown_of_empty]
  · have htz : z ∈ t := (List.mem_cons.1 hmem).resolve_left (fun h => huz h.symm)
    simp only [insertEmpty, if_neg huz]
    rw [sweepCount, if_pos hs, sweepCount_cons_of_not_full hu, shiftDown_insertEmpty huz htz]

theorem sweepCount_insertEmpty (hz : full z = false) :
    ∀ (l : List α) (n : Nat), EndsEmpty z l → NoAdjacent full l →
      sweepCount z full (insertEmpty z n l) = l.countP (fun r => full r)
  | [], _, _, _ => by simp [insertEmpty, sweepCount]
  | s :: t, n, hend, hadj => by
      by_cases hs : full s = true
      · have hsz : ¬ s = z := by
          intro h
          rw [h, hz] at hs
          exact absurd hs (by simp)
        obtain ⟨u, t', rfl⟩ := hend.next_of_full hz hs
        have hu : full u = false := by
          by_contra h
          rw [Bool.not_eq_false] at h
          exact not_noAdjacent_of_full hs h hadj
        have hins : insertEmpty z n (s :: u :: t') = s :: insertEmpty z n (u :: t') := by
          simp [insertEmpty, hsz]
        rw [hins, sweepCount_full_cons hz hs hu hend.tail.mem,
          sweepCount_insertEmpty hz (u :: t') (n + 1) hend.tail
            ((noAdjacent_cons_of_next hu).mp hadj),
          List.countP_cons_of_pos (l := u :: t') (by simp [hs]), Nat.add_comm]
      · rw [Bool.not_eq_true] at hs
        have hadj' := (noAdjacent_cons_of_not_full hs).mp hadj
        rw [List.countP_cons_of_neg (by simp [hs])]
        by_cases hsz : s = z
        · have ih := sweepCount_insertEmpty hz t 0 hend.tail hadj'
          rw [insertEmpty_zero] at ih
          simp only [insertEmpty, if_pos hsz]
          rw [sweepCount_replicate hz, sweepCount_cons_of_not_full hs, ih]
        · simp only [insertEmpty, if_neg hsz]
          rw [sweepCount_cons_of_not_full hs, sweepCount_insertEmpty hz t n hend.tail hadj']
termination_by l => l.length

/-- Where the sweep is exact it meets every marked entry. -/
theorem sweepCount_eq_countP (hz : full z = false) {l : List α} (hend : EndsEmpty z l)
    (hadj : NoAdjacent full l) : sweepCount z full l = l.countP (fun r => full r) := by
  have := sweepCount_insertEmpty hz l 0 hend hadj
  rwa [insertEmpty_zero] at this

theorem sweepCount_eq_zero_of_not_full {l : List α} (h : ∀ r ∈ l, full r = false) :
    sweepCount z full l = 0 := by
  induction l with
  | nil => simp [sweepCount]
  | cons r rest ih =>
      rw [sweepCount_cons_of_not_full (h r (by simp)), ih (fun s hs => h s (by simp [hs]))]

/-! ## Weights

Whatever the walk does to the order of the entries, it loses none: as long as it never runs out of empty
entries to shift towards, each marked entry it meets is dropped once and every other one is kept. -/

variable (z full) in
/-- There is an empty entry beyond every marked one. -/
def Roofed : List α → Prop
  | [] => True
  | r :: rest => (full r = true → z ∈ rest) ∧ Roofed rest

theorem mem_shiftDown_of_mem : ∀ {l : List α}, z ∈ l → z ∈ shiftDown z l
  | [], h => h
  | [_], h => h
  | r :: r' :: rest, h => by
      rw [shiftDown]
      split_ifs with hr
      · exact h
      · have htail : z ∈ r' :: rest := (List.mem_cons.1 h).resolve_left (fun heq => hr heq.symm)
        exact List.mem_cons_of_mem _ (mem_shiftDown_of_mem htail)

theorem Roofed.shiftDown : ∀ {l : List α}, z ∈ l → Roofed z full l → Roofed z full (shiftDown z l)
  | [], _, hl => hl
  | [_], _, hl => hl
  | r :: r' :: rest, h, hl => by
      rw [Lib.shiftDown]
      split_ifs with hr
      · exact hl
      · have htail : z ∈ r' :: rest := (List.mem_cons.1 h).resolve_left (fun heq => hr heq.symm)
        exact ⟨fun _ => mem_shiftDown_of_mem htail, hl.2.shiftDown htail⟩

variable {w : α → Nat}

/-- A shift towards an empty entry drops the lowest one and nothing else. -/
theorem sum_shiftDown (hz : w z = 0) :
    ∀ {r : α} {rest : List α}, z ∈ r :: rest →
      ((shiftDown z (r :: rest)).map w).sum = (rest.map w).sum
  | r, [], h => by
      have hr : z = r := by simpa using h
      simp [shiftDown, ← hr, hz]
  | r, r' :: rest, h => by
      rw [shiftDown]
      split_ifs with hr
      · rw [hr, List.map_cons, List.sum_cons, hz, Nat.zero_add]
      · have htail : z ∈ r' :: rest := (List.mem_cons.1 h).resolve_left (fun heq => hr heq.symm)
        rw [List.map_cons, List.sum_cons, sum_shiftDown hz htail, List.map_cons, List.sum_cons]

/-- **The sweep keeps the total weight** of the column and of the marked entries it has met, if every
    marked entry weighs the same and lies below an empty one. -/
theorem sum_sweep (hz : w z = 0) {m : Nat} (hw : ∀ r, full r = true → w r = m) :
    ∀ {l : List α}, Roofed z full l →
      ((sweep z full l).map w).sum + m * sweepCount z full l = (l.map w).sum
  | [], _ => by simp [sweep, sweepCount]
  | [r], hl => by
      have hr : full r = false := by
        by_contra hfull
        exact absurd (hl.1 (by simpa using hfull)) (by simp)
      simp [sweep, sweepCount, hr]
  | r :: r' :: rest, hl => by
      rw [sweep, sweepCount]
      split_ifs with hr
      · have hmem : z ∈ r' :: rest := hl.1 hr
        have ih := sum_sweep hz hw (hl.2.shiftDown hmem)
        rw [sum_shiftDown hz hmem] at ih
        simp only [List.map_cons, List.sum_cons, hw r hr, Nat.mul_add, Nat.mul_one]
        omega
      · have ih := sum_sweep hz hw hl.2
        simp only [List.map_cons, List.sum_cons] at ih ⊢
        omega
termination_by l => l.length

end Katetris.Lib
