/-
  The order of the tokens of a text, to its very end.
-/
import Scriptlet.Proofs.Text.Layout

namespace Scriptlet

namespace Position

variable {last p q r : Position} {cs : List Char}

/-- Places whose numbers fit into words are ordered as their positions are. -/
theorem ofPlace_le {a b : ℕ × ℕ} (ha : a.1 < 2 ^ 32 ∧ a.2 < 2 ^ 32)
    (hb : b.1 < 2 ^ 32 ∧ b.2 < 2 ^ 32) (h : a.1 < b.1 ∨ a.1 = b.1 ∧ a.2 ≤ b.2) :
    ofPlace a ≤ ofPlace b := by
  rcases h with h | ⟨h, hc⟩
  · refine .inl ?_
    rw [UInt32.lt_iff_toNat_lt]
    simpa only [ofPlace, UInt32.toNat_ofNat_of_lt' ha.1, UInt32.toNat_ofNat_of_lt' hb.1] using h
  · refine .inr ⟨congrArg UInt32.ofNat h, ?_⟩
    rw [UInt32.le_iff_toNat_le]
    simpa only [ofPlace, UInt32.toNat_ofNat_of_lt' ha.2, UInt32.toNat_ofNat_of_lt' hb.2] using hc

/-! ## The end of a text -/

/-- In a text that ends at `last`, the position `q` does not come before `p`: the end comes last,
    whatever its numbers read, and all else is ordered as positions are. -/
def NotAfter (last p q : Position) : Prop :=
  q = last ∨ p ≠ last ∧ p ≤ q

theorem notAfter_refl (last p : Position) : NotAfter last p p := by
  by_cases h : p = last
  · exact .inl h
  · exact .inr ⟨h, le_refl p⟩

theorem NotAfter.trans (h : NotAfter last p q) (h' : NotAfter last q r) : NotAfter last p r := by
  rcases h' with h' | ⟨hq, h'⟩
  · exact .inl h'
  · rcases h with h | ⟨hp, h⟩
    · exact absurd h hq
    · exact .inr ⟨hp, le_trans h h'⟩

/-- Line feeds are counted, in words that may wrap. -/
theorem line_after (p : Position) (cs : List Char) :
    (p.after cs).line = p.line + .ofNat (cs.count '\n') := by
  induction cs generalizing p with
  | nil => simp
  | cons c cs ih =>
    rw [after_cons, ih, step]
    split
    · next h => simp [h, UInt32.ofNat_add, UInt32.add_assoc, UInt32.add_comm]
    · next h => simp [h]

theorem column_after (p : Position) (h : '\n' ∉ cs) :
    (p.after cs).column = p.column + .ofNat cs.length := by
  induction cs generalizing p with
  | nil => simp
  | cons c cs ih =>
    rw [List.mem_cons, not_or] at h
    rw [after_cons, ih _ h.2, step, if_neg (Ne.symm h.1)]
    simp [UInt32.ofNat_add, UInt32.add_assoc, UInt32.add_comm]

theorem add_ofNat_ne (w : UInt32) {n : ℕ} (hpos : 0 < n) (hn : n < 2 ^ 32) :
    w + .ofNat n ≠ w := by
  intro h
  have hzero : UInt32.ofNat n = 0 := by simpa using h
  have hnat := congrArg UInt32.toNat hzero
  rw [UInt32.toNat_ofNat_of_lt' hn] at hnat
  exact hpos.ne' hnat

/-- **Going on, one does not come back**, though lines and columns wrap. -/
theorem after_ne (p : Position) (hcs : cs ≠ []) (hlength : cs.length < 2 ^ 32) :
    p.after cs ≠ p := by
  intro h
  by_cases hline : '\n' ∈ cs
  · refine add_ofNat_ne p.line (List.count_pos_iff.2 hline) ?_
      ((line_after p cs).symm.trans (congrArg line h))
    exact List.count_le_length.trans_lt hlength
  · exact add_ofNat_ne p.column (List.length_pos_iff.2 hcs) hlength
      ((column_after p hline).symm.trans (congrArg column h))

end Position

/-- What comes after more characters is on a later line, or further on the same. -/
theorem place_append_le (cs ds : List Char) : (place cs).1 < (place (cs ++ ds)).1 ∨
    (place cs).1 = (place (cs ++ ds)).1 ∧ (place cs).2 ≤ (place (cs ++ ds)).2 := by
  induction ds using List.reverseRecOn with
  | nil => simp
  | append_singleton ds c ih =>
    rw [← List.append_assoc]
    by_cases hc : c = '\n'
    · subst hc
      rw [place_concat_newline]
      omega
    · rw [place_concat _ hc]
      omega

/-! ## Tokens -/

variable {text : String} {t : Token}

theorem Scanner.position_ne_finish {s : Scanner} (ht : t ∈ s.ahead) (h : s.rest.length < 2 ^ 32) :
    t.position ≠ s.finish := by
  obtain ⟨before, rest, hsplit, hne, hposition⟩ := place_of_mem_ahead ht
  have hfinish : s.finish = t.position.after (t.literal.toList ++ rest) := by
    rw [finish, hsplit, hposition, List.append_assoc, Position.after_append]
  rw [hsplit, List.append_assoc, List.length_append] at h
  rw [hfinish]
  exact (Position.after_ne _ (by simp [hne]) (by omega)).symm

/-- The end of 2³² - 1 characters of one line is in the column 2³², which reads 0. -/
theorem finish_of_longest_line (hfull : text.length + 1 = 2 ^ 32) (hline : '\n' ∉ text.toList) :
    (Scanner.ofText text).finish = ⟨1, 0⟩ := by
  have hplain : ∀ c ∈ text.toList, c ≠ '\n' := fun c hc h => hline (h ▸ hc)
  rw [Scanner.finish_ofText, place_of_ne hplain, String.length_toList, Nat.add_comm, hfull]
  decide

/-- **The tokens of a text stand one after another, its end included.** -/
theorem pairwise_tokenize (h : text.length < 2 ^ 32) :
    (tokenize text).Pairwise fun t u =>
      Position.NotAfter (Scanner.ofText text).finish t.position u.position := by
  have hlength : (Scanner.ofText text).rest.length = text.length := String.length_toList
  have hahead := Scanner.pairwise_ahead (s := .ofText text) Position.atMost_start (by omega)
  refine List.pairwise_append.2 ⟨hahead.imp_of_mem fun ht _ hlt => .inr ⟨?_, ?_⟩,
    List.pairwise_singleton _ _, fun t _ u hu => .inl ?_⟩
  · exact Scanner.position_ne_finish ht (by omega)
  · exact Position.le_of_lt hlt
  · rw [List.mem_singleton.1 hu, Token.position_eof]

/-- Where there is a token, only one long line is too long for words of 32 bits. -/
theorem place_lt_of_mem_ahead (h : text.length < 2 ^ 32)
    (hline : ¬ (text.length + 1 = 2 ^ 32 ∧ '\n' ∉ text.toList))
    (ht : t ∈ (Scanner.ofText text).ahead) :
    (place text.toList).1 < 2 ^ 32 ∧ (place text.toList).2 < 2 ^ 32 := by
  rw [← String.length_toList] at h hline
  rcases place_lt_or h with hfits | ⟨hfull, ⟨hplain, -⟩ | ⟨hfeeds, -⟩⟩
  · exact hfits
  · exact absurd ⟨hfull, fun hmem => hplain _ hmem rfl⟩ hline
  · -- a token begins with no blank, and so with no line feed
    obtain ⟨c, cs, hliteral, hblank, -⟩ := Scanner.spelled_ahead _ t ht
    have hc : c ∈ text.toList := Scanner.mem_rest_of_mem_ahead ht (by simp [hliteral])
    rw [hfeeds c hc] at hblank
    cases hblank

/-- **No token stands past the end of its text**, unless that is 2³² - 1 characters of one line. -/
theorem position_le_finish (h : text.length < 2 ^ 32)
    (hline : ¬ (text.length + 1 = 2 ^ 32 ∧ '\n' ∉ text.toList)) (ht : t ∈ tokenize text) :
    t.position ≤ (Scanner.ofText text).finish := by
  rcases List.mem_append.1 ht with ht | ht
  · obtain ⟨before, rest, hsplit, hne, hposition⟩ := Scanner.place_of_mem_ahead ht
    have htext : text.toList = before ++ (t.literal.toList ++ rest) := by
      rw [← List.append_assoc]
      exact hsplit
    have hbefore : before.length + 1 ≤ text.length := by
      have hpos := List.length_pos_iff.2 hne
      rw [← String.length_toList, htext, List.length_append, List.length_append]
      omega
    have hfits := place_lt_of_mem_ahead h hline ht
    have hnumber := place_line_le before
    have hcolumn := place_column_le before
    rw [hposition, Scanner.finish_ofText, Scanner.ofText, Position.start_after]
    refine Position.ofPlace_le ⟨by omega, by omega⟩ hfits ?_
    rw [htext]
    exact place_append_le before _
  · rw [List.mem_singleton.1 ht, Token.position_eof]
    exact Position.le_refl _

end Scriptlet
