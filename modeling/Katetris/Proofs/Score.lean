import Katetris.Proofs.Drawing
import Katetris.Proofs.Frame

set_option autoImplicit false

/-! # Reading the score

`text_draw_number` never moves on between digits, so all digits of a score are painted over each other
in one square (`scoreImage_lit`), and what they are digits of is the score modulo 256. A score can be
told from its image, and has a cell for each of its digits, exactly when it is a single digit
(`scoreIdentified_iff`). -/

namespace Katetris

open Lib

/-! ## The image of a score -/

/-- What the game loop's call of `text_draw_number` leaves on a blank buffer; `SCORE_X` and `SCORE_Y`
    are 0. -/
def scoreImage (score : Int) : VBuf := textDrawNumber VBuf.blank (BitVec.ofInt 8 score) 0 0

/-- The decimal digits of a number, the lowest first; zero has one. -/
def decimalDigits (n : Nat) : List Nat := if n = 0 then [0] else Nat.digits 10 n

/-- The glyph of a digit. -/
def glyphOf (d : Nat) : Glyph :=
  ((fontMap.find? fun entry => entry.1 = BitVec.ofNat 8 d).map Prod.snd).getD (Vector.replicate 5 0)

/-- The edge of a glyph, in pixels. -/
abbrev glyphEdge : Nat := charSize * (gridStep / 2)

/-- The digit is lit at row `i`, column `j` of its glyph. -/
def GlyphBit (d i j : Nat) : Prop := (rowAt (glyphOf d) i).getLsbD j = true

instance (d i j : Nat) : Decidable (GlyphBit d i j) := inferInstanceAs (Decidable (_ = _))

theorem decimalDigits_lt (n : Nat) : ∀ d ∈ decimalDigits n, d < 10 := by
  intro d hd
  unfold decimalDigits at hd
  split_ifs at hd
  · rw [List.mem_singleton.1 hd]
    norm_num
  · exact Nat.digits_lt_base (by norm_num) hd

theorem decimalDigits_of_lt {n : Nat} (h : n < 10) : decimalDigits n = [n] := by
  unfold decimalDigits
  split_ifs with hzero
  · rw [hzero]
  · exact Nat.digits_of_lt 10 n hzero h

/-- A number from ten on has two digits at least. -/
theorem decimalDigits_of_ge {n : Nat} (h : 10 ≤ n) :
    ∃ d d' rest, decimalDigits n = d :: d' :: rest := by
  refine ⟨n % 10, n / 10 % 10, Nat.digits 10 (n / 10 / 10), ?_⟩
  rw [decimalDigits, if_neg (by omega), Nat.digits_def' (by norm_num) (by omega),
    Nat.digits_def' (by norm_num) (by omega)]

/-- Every digit has one entry in the font. -/
theorem fontMap_glyphOf : ∀ d, d < 10 → (BitVec.ofNat 8 d, glyphOf d) ∈ fontMap
    ∧ ∀ entry ∈ fontMap, BitVec.ofNat 8 d = entry.1 → entry.2 = glyphOf d := by
  decide +kernel

theorem glyph_nonempty : ∀ d, d < 10 → ∃ i, i < 5 ∧ ∃ j, j < 5 ∧ GlyphBit d i j := by
  decide +kernel

/-- No two digits look the same. -/
theorem glyph_injective : ∀ d, d < 10 → ∀ d', d' < 10 →
    (∀ i, i < 5 → ∀ j, j < 5 → (GlyphBit d i j ↔ GlyphBit d' i j)) → d = d' := by
  decide +kernel

/-- The squares of a glyph at the origin are four pixels wide. -/
theorem inGlyph_origin (ptr : Glyph) (p q : Nat) :
    InGlyph ptr 0 0 (p, q) ↔
      (p < glyphEdge ∧ q < glyphEdge) ∧ (rowAt ptr (p / 4)).getLsbD (q / 4) = true := by
  simp only [InGlyph, InRect, List.mem_range, gridStep, zero_add]
  refine ⟨fun hin => ?_, fun hin => ?_⟩
  · obtain ⟨i, hi, j, hj, hbit, hrect⟩ := hin
    rw [Int.tdiv_eq_ediv_of_nonneg (by positivity), Int.tdiv_eq_ediv_of_nonneg (by positivity)] at hrect
    have hrow : p / 4 = i := by omega
    have hcol : q / 4 = j := by omega
    rw [hrow, hcol]
    exact ⟨by simp only [glyphEdge, charSize, gridStep]; omega, hbit⟩
  · obtain ⟨hsmall, hbit⟩ := hin
    simp only [glyphEdge, charSize, gridStep] at hsmall
    refine ⟨p / 4, by omega, q / 4, by omega, hbit, ?_⟩
    rw [Int.tdiv_eq_ediv_of_nonneg (by positivity), Int.tdiv_eq_ediv_of_nonneg (by positivity)]
    omega

theorem inChar_digit {d : Nat} (hd : d < 10) (p q : Nat) :
    InChar (BitVec.ofNat 8 d) 0 0 (p, q) ↔
      (p < glyphEdge ∧ q < glyphEdge) ∧ GlyphBit d (p / 4) (q / 4) := by
  obtain ⟨hmem, hunique⟩ := fontMap_glyphOf d hd
  rw [GlyphBit, ← inGlyph_origin]
  refine ⟨fun hchar => ?_, fun hglyph => ?_⟩
  · obtain ⟨-, entry, hentry, hcode, hglyph⟩ := hchar
    rwa [hunique entry hentry hcode] at hglyph
  · exact ⟨by simp, (BitVec.ofNat 8 d, glyphOf d), hmem, rfl, hglyph⟩

/-- A digit of the narrowed score is lit at row `i`, column `j` of its glyph. -/
def Overlaid (n i j : Nat) : Prop := ∃ d ∈ decimalDigits (n % 256), GlyphBit d i j

/-- **The image of a score is its digits over each other**, in one square at the origin. -/
theorem scoreImage_lit (n p q : Nat) :
    (scoreImage n).pixel p q = true ↔ (p < glyphEdge ∧ q < glyphEdge) ∧ Overlaid n (p / 4) (q / 4) := by
  have hnarrow : (BitVec.ofInt 8 (n : Int)).toNat = n % 256 := by
    rw [BitVec.toNat_ofInt]
    omega
  have hdigits : InNumber (BitVec.ofInt 8 (n : Int)) 0 0 (p, q) ↔
      ∃ d ∈ decimalDigits (n % 256), InChar (BitVec.ofNat 8 d) 0 0 (p, q) := by
    have hzero : BitVec.ofInt 8 (n : Int) = 0 ↔ n % 256 = 0 := by
      rw [BitVec.toNat_eq, hnarrow]
      rfl
    simp only [InNumber, InDigits, decimalDigits, hzero, hnarrow]
    split_ifs
    · simp only [List.mem_singleton, exists_eq_left]
      rfl
    · rfl
  rw [scoreImage, scoreImage_pixel, hdigits, Overlaid, ← exists_and_left]
  refine exists_congr fun d => ⟨fun hd => ?_, fun hd => ?_⟩
  · obtain ⟨hin, hchar⟩ := hd
    obtain ⟨hsmall, hbit⟩ := (inChar_digit (decimalDigits_lt _ d hin) p q).1 hchar
    exact ⟨hsmall, hin, hbit⟩
  · obtain ⟨hsmall, hin, hbit⟩ := hd
    exact ⟨hin, (inChar_digit (decimalDigits_lt _ d hin) p q).2 ⟨hsmall, hbit⟩⟩

/-- Two scores have the same image exactly when their digits, laid over each other, look the same. -/
theorem scoreImage_eq_iff (m n : Nat) :
    scoreImage m = scoreImage n ↔
      ∀ i, i < 5 → ∀ j, j < 5 → (Overlaid m i j ↔ Overlaid n i j) := by
  refine ⟨fun heq i hi j hj => ?_, fun hsame => ?_⟩
  · have hm := scoreImage_lit m (4 * i) (4 * j)
    have hn := scoreImage_lit n (4 * i) (4 * j)
    have hsmall : 4 * i < glyphEdge ∧ 4 * j < glyphEdge := by
      simp only [glyphEdge, charSize, gridStep]
      omega
    rw [Nat.mul_div_cancel_left i (by norm_num), Nat.mul_div_cancel_left j (by norm_num)] at hm hn
    rw [and_iff_right hsmall] at hm hn
    rw [← hm, ← hn, heq]
  · apply VBuf.ext_lit
    · rw [scoreImage, scoreImage, textDrawNumber_requests, textDrawNumber_requests]
    · intro pq
      rw [VBuf.Lit, VBuf.Lit, scoreImage_lit, scoreImage_lit]
      refine and_congr_right fun hsmall => ?_
      simp only [glyphEdge, charSize, gridStep] at hsmall
      exact hsame _ (by omega) _ (by omega)

/-! ## Telling scores apart -/

/-- The square at `cell` shows the glyph of the digit. -/
def Appears (vbuf : VBuf) (d : Nat) (cell : Nat × Nat) : Prop :=
  ∀ a b, a < glyphEdge → b < glyphEdge →
    (vbuf.pixel (cell.1 + a) (cell.2 + b) = true ↔ GlyphBit d (a / 4) (b / 4))

/-- The squares at the two places have no pixel in common. -/
def Apart (cell cell' : Nat × Nat) : Prop :=
  cell.1 + glyphEdge ≤ cell'.1 ∨ cell'.1 + glyphEdge ≤ cell.1
    ∨ cell.2 + glyphEdge ≤ cell'.2 ∨ cell'.2 + glyphEdge ≤ cell.2

/-- Each decimal digit of the score appears in a character cell of its own. -/
def OwnCells (n : Nat) : Prop :=
  ∃ cells : List (Nat × Nat), cells.Pairwise Apart
    ∧ List.Forall₂ (Appears (scoreImage n)) (decimalDigits n) cells

/-- The images of two scores are different, and each shows every digit of its score by itself. -/
structure ScoreIdentified (m n : Nat) : Prop where
  different : scoreImage m ≠ scoreImage n
  first : OwnCells m
  second : OwnCells n

/-- A digit can only appear at a place inside the one square that is painted. -/
theorem Appears.near {n d : Nat} (hd : d < 10) {cell : Nat × Nat}
    (h : Appears (scoreImage n) d cell) : cell.1 < glyphEdge ∧ cell.2 < glyphEdge := by
  obtain ⟨i, hi, j, hj, hbit⟩ := glyph_nonempty d hd
  have hsmall : 4 * i < glyphEdge ∧ 4 * j < glyphEdge := by
    simp only [glyphEdge, charSize, gridStep]
    omega
  have hlit := h (4 * i) (4 * j) hsmall.1 hsmall.2
  rw [Nat.mul_div_cancel_left i (by norm_num), Nat.mul_div_cancel_left j (by norm_num)] at hlit
  have hin := ((scoreImage_lit n _ _).1 (hlit.2 hbit)).1
  omega

theorem overlaid_digit {n : Nat} (h : n < 10) (i j : Nat) : Overlaid n i j ↔ GlyphBit n i j := by
  rw [Overlaid, Nat.mod_eq_of_lt (by omega), decimalDigits_of_lt h]
  simp only [List.mem_singleton, exists_eq_left]

theorem ownCells_iff (n : Nat) : OwnCells n ↔ n < 10 := by
  refine ⟨fun hcells => ?_, fun hn => ?_⟩
  · by_contra hge
    obtain ⟨cells, hapart, happear⟩ := hcells
    obtain ⟨d, d', rest, hdigits⟩ := decimalDigits_of_ge (show 10 ≤ n by omega)
    have hlt := decimalDigits_lt n
    rw [hdigits] at happear hlt
    -- two squares that both begin in the painted one have a pixel in common
    cases happear with
    | cons hfirst hrest =>
        cases hrest with
        | cons hsecond _ =>
            have hnear := hfirst.near (hlt d (by simp))
            have hnear' := hsecond.near (hlt d' (by simp))
            have hpair := (List.pairwise_cons.1 hapart).1 _ (List.mem_cons_self ..)
            unfold Apart at hpair
            omega
  · refine ⟨[(0, 0)], List.pairwise_singleton _ _, ?_⟩
    rw [decimalDigits_of_lt hn]
    refine List.Forall₂.cons (fun a b ha hb => ?_) List.Forall₂.nil
    rw [zero_add, zero_add, scoreImage_lit, and_iff_right ⟨ha, hb⟩, overlaid_digit hn]

/-- **A score is identified by its image exactly when it is a single digit.** Two different scores have
    different images in which each of their digits has a cell of its own if and only if both are below
    ten. Their images alone are different if and only if the digits of the narrowed scores, laid over
    each other, look different. -/
theorem scoreIdentified_iff {m n : Nat} (hne : m ≠ n) :
    (ScoreIdentified m n ↔ m < 10 ∧ n < 10)
      ∧ (scoreImage m ≠ scoreImage n ↔
        ∃ i, i < 5 ∧ ∃ j, j < 5 ∧ ¬(Overlaid m i j ↔ Overlaid n i j)) := by
  have himages : scoreImage m ≠ scoreImage n ↔
      ∃ i, i < 5 ∧ ∃ j, j < 5 ∧ ¬(Overlaid m i j ↔ Overlaid n i j) := by
    rw [ne_eq, scoreImage_eq_iff]
    simp only [not_forall, exists_prop]
  refine ⟨⟨fun h => ⟨(ownCells_iff m).1 h.first, (ownCells_iff n).1 h.second⟩, fun h => ?_⟩, himages⟩
  obtain ⟨hm, hn⟩ := h
  refine ⟨fun heq => hne ?_, (ownCells_iff m).2 hm, (ownCells_iff n).2 hn⟩
  refine glyph_injective m hm n hn fun i hi j hj => ?_
  rw [← overlaid_digit hm, ← overlaid_digit hn]
  exact (scoreImage_eq_iff m n).1 heq i hi j hj

theorem scoreIdentified_iff_three_eight : ScoreIdentified 3 8 :=
  (scoreIdentified_iff (by decide)).1.2 (by decide)

/-- The same digits in another order, and the same score modulo 256. -/
theorem twelve_looks_like_twentyOne :
    (scoreImage 12 = scoreImage 21 ∧ scoreImage 0 = scoreImage 256) ∧ ¬ScoreIdentified 12 21 := by
  have hswap : scoreImage (12 : Nat) = scoreImage (21 : Nat) := by
    rw [scoreImage_eq_iff]
    intro i _ j _
    simp only [Overlaid, decimalDigits]
    norm_num
    exact or_comm
  exact ⟨⟨hswap, rfl⟩, fun h => h.different hswap⟩

end Katetris
