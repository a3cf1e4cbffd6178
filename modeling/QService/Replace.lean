import QService.QString

/-!
# `Q_Replace`

`Q_Split` looks for the flag in a copy of the source that it shortens by each
piece. `Q_Replace` edits the source in place and goes on behind the text that it has
put in. Both find the same occurrences, from the left and without overlap, also when
the new text has the flag in it: `Q_Replace` joins the pieces of `Q_Split` with the
new text (`replace_eq`), and with the flag itself they give back the source
(`intercalate_pieces`).
-/

namespace QString

/-! ## The code -/

/-- `std::string::find` from a position on: `npos` if it is behind the end. -/
def findFrom (flag s : List UInt8) (pos : ℕ) : Option ℕ :=
  if s.length < pos then none else (find flag (s.drop pos)).map (pos + ·)

/-- `std::string::replace`. -/
def replaceAt (s : List UInt8) (pos n : ℕ) (re : List UInt8) : List UInt8 :=
  s.take pos ++ re ++ s.drop (pos + n)

/-- The loop of `Q_Replace`, with `strSource` and `pos`: what it returns, if it does so in
fewer rounds than this. -/
def replaceLoop (flag re : List UInt8) : ℕ → List UInt8 → ℕ → Option (List UInt8)
  | 0, _, _ => none
  | n + 1, strSource, pos =>
    match findFrom flag strSource pos with
    | none => some strSource
    | some pos =>
      replaceLoop flag re n (replaceAt strSource pos flag.length re) (pos + re.length)

/-! ## The pieces -/

section Pieces

variable {flag s : List UInt8}

/-- A text is found exactly if it is in there. -/
theorem find_ne_none_iff : find flag s ≠ none ↔ flag <:+: s := by
  constructor
  · intro h
    obtain ⟨pos, hpos⟩ := Option.ne_none_iff_exists'.mp h
    exact ⟨_, _, (find_spec hpos).symm⟩
  · rintro ⟨t, u, rfl⟩
    exact find_ne_none flag t u

/-- There is no occurrence before the first one. -/
theorem find_take {pos : ℕ} (hflag : flag ≠ []) (h : find flag s = some pos) :
    find flag (s.take pos) = none := by
  cases hfind : find flag (s.take pos) with
  | none => rfl
  | some p =>
    have hhere := find_append hfind (s.drop pos)
    rw [List.take_append_drop, h] at hhere
    have hle := find_le hfind
    have hlen := List.length_pos_of_ne_nil hflag
    rw [List.length_take] at hle
    cases hhere
    omega

theorem pieces_ne_nil (hflag : flag ≠ []) (s : List UInt8) : pieces flag s ≠ [] := by
  obtain ⟨piece, rest, h⟩ := exists_pieces hflag s
  rw [h]
  exact List.cons_ne_nil _ _

/-- No piece has the flag in it. -/
theorem find_of_mem_pieces (hflag : flag ≠ []) {s piece : List UInt8}
    (hpiece : piece ∈ pieces flag s) : find flag piece = none := by
  cases hfind : find flag s with
  | none =>
    rw [pieces_of_find_none hfind] at hpiece
    rw [List.mem_singleton.mp hpiece]
    exact hfind
  | some loc =>
    have hle := find_le hfind
    have hlen := List.length_pos_of_ne_nil hflag
    rw [pieces_of_find_some hflag hfind] at hpiece
    rcases List.mem_cons.mp hpiece with rfl | hpiece
    · exact find_take hflag hfind
    · exact find_of_mem_pieces hflag hpiece
termination_by s.length
decreasing_by
  rw [List.length_drop]
  omega

/-- **The pieces joined with the flag are the text.** -/
theorem intercalate_pieces (hflag : flag ≠ []) (s : List UInt8) :
    flag.intercalate (pieces flag s) = s := by
  cases hfind : find flag s with
  | none => rw [pieces_of_find_none hfind, List.intercalate_singleton]
  | some loc =>
    have hle := find_le hfind
    have hlen := List.length_pos_of_ne_nil hflag
    rw [pieces_of_find_some hflag hfind,
      List.intercalate_cons_of_ne_nil (pieces_ne_nil hflag _), intercalate_pieces hflag]
    exact (find_spec hfind).symm
termination_by s.length
decreasing_by
  rw [List.length_drop]
  omega

end Pieces

/-! ## Replacing -/

section Replace

variable {flag re : List UInt8}

/-- Behind what is done already, the search is one in the rest. -/
theorem findFrom_append (flag p s : List UInt8) :
    findFrom flag (p ++ s) p.length = (find flag s).map (p.length + ·) := by
  rw [findFrom, if_neg (by simp), List.drop_left]

/-- An occurrence in the rest is replaced there. -/
theorem replaceAt_append (p s re : List UInt8) (loc n : ℕ) :
    replaceAt (p ++ s) (p.length + loc) n re = p ++ s.take loc ++ re ++ s.drop (loc + n) := by
  rw [replaceAt, List.take_length_add_append, Nat.add_assoc, List.drop_length_add_append]

/-- **The loop joins the pieces of the rest with the new text**: `p` is done, and `pos` is at
its end. -/
theorem replaceLoop_append (hflag : flag ≠ []) {n : ℕ} {s : List UInt8} (hn : s.length < n)
    (p : List UInt8) :
    replaceLoop flag re n (p ++ s) p.length = some (p ++ re.intercalate (pieces flag s)) := by
  induction n generalizing p s with
  | zero => exact absurd hn (Nat.not_lt_zero _)
  | succ n ih =>
    unfold replaceLoop
    rw [findFrom_append]
    cases hfind : find flag s with
    | none => rw [pieces_of_find_none hfind, List.intercalate_singleton]; rfl
    | some loc =>
      have hle := find_le hfind
      have hlen := List.length_pos_of_ne_nil hflag
      have hloc : (s.take loc).length = loc := List.length_take_of_le (by omega)
      have hpos : p.length + loc + re.length = (p ++ s.take loc ++ re).length := by
        rw [List.length_append, List.length_append, hloc]
      have hrest : (s.drop (loc + flag.length)).length < n := by
        rw [List.length_drop]
        omega
      dsimp only [Option.map_some]
      rw [replaceAt_append, hpos, ih hrest, pieces_of_find_some hflag hfind,
        List.intercalate_cons_of_ne_nil (pieces_ne_nil hflag _)]
      simp only [List.append_assoc]

end Replace

/-- **`Q_Split` and `Q_Replace` agree.** The pieces joined with the flag are the source, none
of them has the flag in it, and `Q_Replace` ends and gives them joined with the new text. -/
theorem replace_eq {flag : List UInt8} (hflag : flag ≠ []) (strSource re : List UInt8) :
    flag.intercalate (split strSource flag) = strSource
      ∧ (∀ piece ∈ split strSource flag, ¬ flag <:+: piece)
      ∧ ∀ n, strSource.length < n →
        replaceLoop flag re n strSource 0 = some (re.intercalate (split strSource flag)) := by
  have hloop : ∀ n, strSource.length < n →
      replaceLoop flag re n strSource 0 = some (re.intercalate (pieces flag strSource)) :=
    fun n hn => replaceLoop_append hflag hn []
  by_cases hs : strSource = []
  · have hsplit : split strSource flag = [] := if_pos (.inr hs)
    refine ⟨?_, ?_, fun n hn => ?_⟩
    · rw [hsplit, hs]
      rfl
    · rw [hsplit]
      exact fun _ h => absurd h List.not_mem_nil
    · rw [hloop n hn, hsplit, hs, pieces_of_find_none (find_nil_of_ne hflag)]
      rfl
  · rw [split_eq_pieces hflag hs]
    refine ⟨intercalate_pieces hflag strSource, fun piece hpiece hin => ?_, hloop⟩
    exact find_ne_none_iff.mpr hin (find_of_mem_pieces hflag hpiece)

/-- The new text has the flag in it, and an occurrence overlaps the next. -/
theorem replace_eq_overlap :
    replaceLoop (ascii "aa") (ascii "aab") 6 (ascii "aaaca") 0 = some (ascii "aabaca")
      ∧ split (ascii "aaaca") (ascii "aa") = [[], ascii "aca"] := by
  have hflag : ascii "aa" ≠ [] := by decide
  obtain ⟨-, -, hloop⟩ := replace_eq hflag (ascii "aaaca") (ascii "aab")
  have hsplit : split (ascii "aaaca") (ascii "aa") = [[], ascii "aca"] := by decide
  refine ⟨?_, hsplit⟩
  rw [hloop 6 (by decide), hsplit]
  decide

end QString
