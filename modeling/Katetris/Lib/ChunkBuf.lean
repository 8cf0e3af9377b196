import Mathlib.Tactic

set_option autoImplicit false

/-! # Chunked transfer through a fixed buffer

Values are appended to a buffer of `n` slots; whenever the buffer fills up its contents go to a sink
and it is emptied. After any number of values the sink has been sent a prefix of them, in chunks of
`n`, and the rest sits in the buffer in order (`putAll_spec`). Slots above `size` keep whatever an
earlier chunk left there. -/

namespace Katetris.Lib

variable {σ α : Type} {n : Nat}

/-- A buffer of `n` slots, the first `size` of them in use. -/
structure ChunkBuf (α : Type) (n : Nat) where
  buf : Vector α n
  size : Nat

/-- Append a value if there is room. -/
def ChunkBuf.push (b : ChunkBuf α n) (v : α) : ChunkBuf α n :=
  if b.size < n then ⟨b.buf.setIfInBounds b.size v, b.size + 1⟩ else b

/-- Forget the contents. -/
def ChunkBuf.clear (b : ChunkBuf α n) : ChunkBuf α n := ⟨b.buf, 0⟩

/-- Append one value and, if that fills the buffer, send all of it and empty it. -/
def ChunkBuf.put (send : σ → List α → σ) (s : σ × ChunkBuf α n) (v : α) : σ × ChunkBuf α n :=
  let b := s.2.push v
  if b.size = n then (send s.1 b.buf.toList, b.clear) else (s.1, b)

/-- The values in use are exactly `l`, and the buffer is not full. -/
structure ChunkBuf.Holds (b : ChunkBuf α n) (l : List α) : Prop where
  size_eq : b.size = l.length
  lt : l.length < n
  get : ∀ i, i < l.length → b.buf.toList[i]? = l[i]?

theorem ChunkBuf.holds_nil {b : ChunkBuf α n} (hn : 0 < n) (h : b.size = 0) : b.Holds [] :=
  ⟨h, hn, by simp⟩

theorem ChunkBuf.push_get {b : ChunkBuf α n} {l : List α} (h : b.Holds l) (v : α) :
    ∀ i, i < (l ++ [v]).length → (b.push v).buf.toList[i]? = (l ++ [v])[i]? := by
  intro i hi
  have hlt : b.size < n := by rw [h.size_eq]; exact h.lt
  have hlen : b.buf.toList.length = n := by simp
  rw [List.length_append, List.length_singleton] at hi
  simp only [ChunkBuf.push, if_pos hlt, Vector.toList_setIfInBounds, List.getElem?_set, hlen]
  by_cases hil : i = l.length
  · subst hil
    simp [h.size_eq]
  · have hi' : i < l.length := by omega
    rw [if_neg (by rw [h.size_eq]; omega), List.getElem?_append_left hi']
    exact h.get i hi'

/-- The values sent when the last slot is filled are the ones held, then the new one. -/
theorem ChunkBuf.push_toList {b : ChunkBuf α n} {l : List α} (h : b.Holds l) (v : α)
    (hfull : l.length + 1 = n) : (b.push v).buf.toList = l ++ [v] := by
  apply List.ext_getElem?
  intro i
  by_cases hi : i < (l ++ [v]).length
  · exact ChunkBuf.push_get h v i hi
  · have hlen : (b.push v).buf.toList.length = n := by simp
    rw [List.length_append, List.length_singleton] at hi
    rw [List.getElem?_eq_none (by omega), List.getElem?_eq_none (by simp; omega)]

/-- **One value through the buffer.** The chunks sent and then the values held, together, grow by that
    value at the end. -/
theorem ChunkBuf.put_spec (send : σ → List α → σ) {b : ChunkBuf α n} {l : List α} (h : b.Holds l)
    (s : σ) (v : α) :
    ∃ (chunks : List (List α)) (rest : List α),
      l ++ [v] = chunks.flatten ++ rest ∧ (∀ c ∈ chunks, c.length = n) ∧
      (ChunkBuf.put send (s, b) v).1 = chunks.foldl send s ∧
      (ChunkBuf.put send (s, b) v).2.Holds rest := by
  have hsize : (b.push v).size = l.length + 1 := by
    simp [ChunkBuf.push, h.size_eq, h.lt]
  by_cases hfull : l.length + 1 = n
  · -- the buffer fills up: everything held goes out
    refine ⟨[l ++ [v]], [], by simp, by simpa using hfull, ?_, ?_⟩
    · simp only [ChunkBuf.put, hsize, hfull, if_true]
      rw [ChunkBuf.push_toList h v hfull]
      rfl
    · simp only [ChunkBuf.put, hsize, hfull, if_true]
      exact ChunkBuf.holds_nil (by omega) rfl
  · -- there is room left: nothing goes out
    refine ⟨[], l ++ [v], by simp, by simp, ?_, ?_⟩
    · simp [ChunkBuf.put, hsize, hfull]
    · simp only [ChunkBuf.put, hsize, if_neg hfull]
      have := h.lt
      exact ⟨by simp [hsize], by simp; omega, ChunkBuf.push_get h v⟩

/-- **Any number of values through the buffer.** What was held and what is put in is what has been
    sent, chunk by chunk, followed by what is still held. -/
theorem ChunkBuf.putAll_spec (send : σ → List α → σ) (vs : List α) {b : ChunkBuf α n} {l : List α}
    (h : b.Holds l) (s : σ) :
    ∃ (chunks : List (List α)) (rest : List α),
      l ++ vs = chunks.flatten ++ rest ∧ (∀ c ∈ chunks, c.length = n) ∧
      (vs.foldl (ChunkBuf.put send) (s, b)).1 = chunks.foldl send s ∧
      (vs.foldl (ChunkBuf.put send) (s, b)).2.Holds rest := by
  induction vs generalizing b l s with
  | nil => exact ⟨[], l, by simp, by simp, rfl, h⟩
  | cons v vs ih =>
      obtain ⟨chunks, rest, hsplit, hlen, hsink, hrest⟩ := ChunkBuf.put_spec send h s v
      obtain ⟨chunks', rest', hsplit', hlen', hsink', hrest'⟩ := ih hrest
        (ChunkBuf.put send (s, b) v).1
      refine ⟨chunks ++ chunks', rest', ?_, ?_, ?_, hrest'⟩
      · calc l ++ v :: vs = (l ++ [v]) ++ vs := by simp
          _ = chunks.flatten ++ (rest ++ vs) := by rw [hsplit, List.append_assoc]
          _ = (chunks ++ chunks').flatten ++ rest' := by
              rw [hsplit', List.flatten_append, List.append_assoc]
      · intro c hc
        rcases List.mem_append.1 hc with hc | hc
        · exact hlen c hc
        · exact hlen' c hc
      · rw [List.foldl_append, ← hsink]
        exact hsink'

theorem length_flatten_of_chunks {chunks : List (List α)} (h : ∀ c ∈ chunks, c.length = n) :
    chunks.flatten.length = n * chunks.length := by
  induction chunks with
  | nil => simp
  | cons c chunks ih =>
      rw [List.flatten_cons, List.length_append, h c (by simp), ih (fun c hc => h c (by simp [hc])),
        List.length_cons, Nat.mul_succ, Nat.add_comm]

/-- **What an empty buffer lets through**: a chunk for every `n` values, and the remainder stays. -/
theorem ChunkBuf.putAll_chunks (send : σ → List α → σ) (hn : 0 < n) (vs : List α) {b : ChunkBuf α n}
    (hb : b.size = 0) (s : σ) :
    ∃ (chunks : List (List α)) (rest : List α),
      vs = chunks.flatten ++ rest ∧ (∀ c ∈ chunks, c.length = n) ∧
      chunks.length = vs.length / n ∧
      (vs.foldl (ChunkBuf.put send) (s, b)).1 = chunks.foldl send s ∧
      (vs.foldl (ChunkBuf.put send) (s, b)).2.size = vs.length % n := by
  obtain ⟨chunks, rest, hsplit, hlen, hsink, hrest⟩ :=
    ChunkBuf.putAll_spec send vs (ChunkBuf.holds_nil hn hb) s
  rw [List.nil_append] at hsplit
  have hcount : vs.length = n * chunks.length + rest.length := by
    rw [hsplit, List.length_append, length_flatten_of_chunks hlen]
  refine ⟨chunks, rest, hsplit, hlen, ?_, hsink, ?_⟩
  · rw [hcount, Nat.mul_add_div hn, Nat.div_eq_of_lt hrest.lt, Nat.add_zero]
  · rw [hcount, Nat.mul_add_mod, Nat.mod_eq_of_lt hrest.lt, hrest.size_eq]

/-- Values that come to a whole number of chunks leave no remainder. -/
theorem eq_flatten_of_dvd {vs rest : List α} {chunks : List (List α)} (hsplit : vs = chunks.flatten ++ rest)
    (hlen : ∀ c ∈ chunks, c.length = n) (hcount : chunks.length = vs.length / n) (hvs : n ∣ vs.length) :
    vs = chunks.flatten := by
  have htotal : vs.length = n * (vs.length / n) + rest.length := by
    rw [← hcount, ← length_flatten_of_chunks hlen, ← List.length_append, ← hsplit]
  rw [Nat.mul_div_cancel' hvs] at htotal
  have hrest : rest = [] := List.eq_nil_of_length_eq_zero (by omega)
  rw [hsplit, hrest, List.append_nil]

end Katetris.Lib
