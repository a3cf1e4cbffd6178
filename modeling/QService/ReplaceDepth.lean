import QService.Replace
import QService.Rewriting

/-!
# `Q_Replace_Depth`

`Q_Replace_Depth` replaces the first occurrence of the flag and looks again from the
start, until there is none. What it leaves has no flag in it, as the header promises, but it
need not come that far: a new text can make new occurrences together with what stands
around it, and more of them each time (`not_gone_grow`).

As long as this does not happen, the occurrences replaced are the source's own
(`NoNew`), and `Q_Replace_Depth` gives what `Q_Replace` gives
(`replaceDepthLoop_of_noNew`). Where it happens it does no harm if the flag and the new text
are `Tame`, which is about the two of them alone. For a flag of at most two letters this
is all there is (`gone_iff`).

`Q_Replace_Depth` is one way to rewrite the source by a rule, from the left. If all ways
end, this one does (`gone_of_acc`), and if occurrences of the flag do not overlap, this one
ends only if all do (`acc_of_gone`).
-/

namespace QString

open Rewriting

variable {flag re s d a b : List UInt8} {t : List (List UInt8)}

/-! ## The code -/

/-- The loop of `Q_Replace_Depth`: what it returns, if it does so in fewer rounds than
this. -/
def replaceDepthLoop (flag re : List UInt8) : ℕ → List UInt8 → Option (List UInt8)
  | 0, _ => none
  | n + 1, strSource =>
    match find flag strSource with
    | none => some strSource
    | some pos => replaceDepthLoop flag re n (replaceAt strSource pos flag.length re)

/-- **What the header promises**: the flag is gone. -/
def Gone (flag re strSource : List UInt8) : Prop :=
  ∃ r, (∃ rounds, ∀ n, rounds ≤ n → replaceDepthLoop flag re n strSource = some r)
    ∧ ¬ flag <:+: r

theorem gone_of_find_none (re : List UInt8) (h : find flag s = none) : Gone flag re s := by
  refine ⟨s, ⟨1, fun n hn => ?_⟩, fun hin => find_ne_none_iff.mpr hin h⟩
  obtain ⟨n, rfl⟩ := Nat.exists_eq_succ_of_ne_zero (Nat.one_le_iff_ne_zero.mp hn)
  rw [replaceDepthLoop, h]

/-- One round does not count. -/
theorem Gone.of_replaceAt {pos : ℕ} (hfind : find flag s = some pos)
    (h : Gone flag re (replaceAt s pos flag.length re)) : Gone flag re s := by
  obtain ⟨r, ⟨rounds, hrounds⟩, hr⟩ := h
  refine ⟨r, ⟨rounds + 1, fun n hn => ?_⟩, hr⟩
  obtain ⟨n, rfl⟩ := Nat.exists_eq_succ_of_ne_zero (Nat.ne_zero_of_lt hn)
  rw [replaceDepthLoop, hfind]
  exact hrounds n (Nat.le_of_succ_le_succ hn)

theorem ne_nil_of_absent (hre : ¬ flag <:+: re) : flag ≠ [] :=
  fun hflag => hre (hflag ▸ List.nil_infix)

/-! ## No new occurrences -/

/-- **Only occurrences of the source's own are replaced.** The pieces of the source come
behind `d`, and between them the new text in place of the flag. No occurrence is in what
is there already, also not with the beginning of the flag that comes next. -/
def NoNew (flag re d : List UInt8) (pieces : List (List UInt8)) : Prop :=
  (∀ i < pieces.length - 1,
    ¬ flag <:+: d ++ re.intercalate (pieces.take (i + 1)) ++ flag.dropLast)
  ∧ ¬ flag <:+: d ++ re.intercalate pieces

instance (flag re d : List UInt8) (pieces : List (List UInt8)) :
    Decidable (NoNew flag re d pieces) := inferInstanceAs (Decidable (_ ∧ _))

theorem noNew_singleton : NoNew flag re d [a] ↔ ¬ flag <:+: d ++ a := by
  rw [NoNew, List.intercalate_singleton]
  exact and_iff_right fun i hi => absurd hi (Nat.not_lt_zero i)

/-- The first piece, and then the others behind it and the new text. -/
theorem noNew_cons : NoNew flag re d (a :: b :: t)
    ↔ ¬ flag <:+: d ++ a ++ flag.dropLast ∧ NoNew flag re (d ++ a ++ re) (b :: t) := by
  have htake (i : ℕ) : d ++ re.intercalate ((a :: b :: t).take (i + 1 + 1))
      = d ++ a ++ re ++ re.intercalate ((b :: t).take (i + 1)) := by
    rw [List.take_succ_cons, List.intercalate_cons_of_ne_nil (by simp)]
    simp only [List.append_assoc]
  have hall : d ++ re.intercalate (a :: b :: t) = d ++ a ++ re ++ re.intercalate (b :: t) := by
    rw [List.intercalate_cons_of_ne_nil (List.cons_ne_nil b t)]
    simp only [List.append_assoc]
  rw [NoNew, NoNew, hall, ← and_assoc]
  have hone : re.intercalate ((a :: b :: t).take (0 + 1)) = a := List.intercalate_singleton
  refine and_congr_left fun _ => ⟨fun h => ⟨?_, fun i hi => ?_⟩, fun ⟨hfirst, hrest⟩ i hi => ?_⟩
  · rw [← hone]
    exact h 0 (Nat.succ_pos _)
  · rw [← htake]
    exact h (i + 1) (Nat.succ_lt_succ hi)
  · cases i with
    | zero => rwa [hone]
    | succ i =>
      rw [htake]
      exact hrest i (Nat.lt_of_succ_lt_succ hi)

/-- An occurrence that is there is not before the first one. -/
theorem find_le_length {pos : ℕ} {p q : List UInt8} (h : find flag (p ++ flag ++ q) = some pos) :
    pos ≤ p.length := by
  obtain ⟨k, hk⟩ := Option.ne_none_iff_exists'.mp (find_ne_none flag p [])
  rw [List.append_nil] at hk
  have hle := find_le hk
  rw [find_append hk q] at h
  rw [List.length_append] at hle
  cases h
  omega

/-- The flag is found first behind a text that it is not in, also not with its own beginning. -/
theorem find_of_absent (hflag : flag ≠ []) (h : ¬ flag <:+: d ++ flag.dropLast) :
    find flag (d ++ flag) = some d.length := by
  obtain ⟨k, hk⟩ := Option.ne_none_iff_exists'.mp (find_ne_none flag d [])
  rw [List.append_nil] at hk
  have hle := find_le hk
  rw [List.length_append] at hle
  obtain rfl | hlt := (show k ≤ d.length by omega).eq_or_lt
  · exact hk
  · -- otherwise it ends before the last letter
    have hspec := find_spec hk
    have hpos := List.length_pos_of_ne_nil hflag
    have hprefix : (d ++ flag).take k ++ flag <+: d ++ flag.dropLast := by
      refine List.prefix_of_prefix_length_le ⟨_, hspec.symm⟩
        ((List.prefix_append_right_inj d).mpr (List.dropLast_prefix flag)) ?_
      simp only [List.length_append, List.length_take, List.length_dropLast]
      omega
    obtain ⟨t, ht⟩ := hprefix
    exact absurd ⟨_, t, ht⟩ h

/-- **Without new occurrences the loop gives what `Q_Replace` gives.** -/
theorem replaceDepthLoop_of_noNew (hflag : flag ≠ []) (h : NoNew flag re d (a :: t)) {n : ℕ}
    (hn : t.length < n) :
    replaceDepthLoop flag re n (d ++ flag.intercalate (a :: t))
      = some (d ++ re.intercalate (a :: t)) := by
  obtain ⟨n, rfl⟩ := Nat.exists_eq_succ_of_ne_zero (Nat.ne_zero_of_lt hn)
  induction t generalizing d a n with
  | nil =>
    have hnone := not_not.mp (mt find_ne_none_iff.mp (noNew_singleton.mp h))
    rw [List.intercalate_singleton, List.intercalate_singleton, replaceDepthLoop, hnone]
  | cons b t ih =>
    obtain ⟨hfirst, hrest⟩ := noNew_cons.mp h
    obtain ⟨n, rfl⟩ := Nat.exists_eq_succ_of_ne_zero
      (Nat.ne_zero_of_lt (Nat.lt_of_succ_lt_succ hn))
    have hsource : d ++ flag.intercalate (a :: b :: t)
        = d ++ a ++ (flag ++ flag.intercalate (b :: t)) := by
      rw [List.intercalate_cons_of_ne_nil (List.cons_ne_nil b t)]
      simp only [List.append_assoc]
    have hfind : find flag (d ++ a ++ (flag ++ flag.intercalate (b :: t)))
        = some (d ++ a).length := by
      rw [← List.append_assoc]
      exact find_append (find_of_absent hflag hfirst) _
    have hreplace := replaceAt_append (d ++ a) (flag ++ flag.intercalate (b :: t)) re 0
      flag.length
    rw [Nat.add_zero, Nat.zero_add, List.take_zero, List.append_nil, List.drop_left] at hreplace
    rw [hsource, replaceDepthLoop, hfind]
    dsimp only
    rw [hreplace, ih hrest _ (Nat.lt_of_succ_lt_succ hn),
      List.intercalate_cons_of_ne_nil (List.cons_ne_nil b t)]
    simp only [List.append_assoc]

theorem gone_of_noNew (hflag : flag ≠ []) (h : NoNew flag re [] (pieces flag s)) :
    Gone flag re s := by
  obtain ⟨a, t, hpieces⟩ := exists_pieces hflag s
  have hs := intercalate_pieces hflag s
  rw [hpieces] at h hs
  refine ⟨re.intercalate (a :: t), ⟨t.length + 1, fun n hn => ?_⟩, h.2⟩
  rw [← hs]
  exact replaceDepthLoop_of_noNew hflag h hn

/-! ## Rewriting from the left -/

/-- A round rewrites the source. -/
theorem rewrites_replaceAt {pos : ℕ} (h : find flag s = some pos) (re : List UInt8) :
    Rewrites flag re s (replaceAt s pos flag.length re) := by
  refine ⟨s.take pos, s.drop (pos + flag.length), ?_, ?_⟩
  · rw [← List.append_assoc]
    exact find_spec h
  · rw [replaceAt, List.append_assoc]

/-- The last one finds nothing to rewrite. -/
theorem not_rewrites (h : find flag s = none) (re t : List UInt8) : ¬ Rewrites flag re s t := by
  rintro ⟨p, q, rfl, -⟩
  refine find_ne_none flag p q ?_
  rwa [List.append_assoc]

/-- **If all ways to rewrite the source end, so does the loop.** -/
theorem gone_of_acc (h : Acc (flip (Rewrites flag re)) s) : Gone flag re s := by
  induction h with
  | intro s _ ih =>
    cases hfind : find flag s with
    | none => exact gone_of_find_none re hfind
    | some pos => exact .of_replaceAt hfind (ih _ (rewrites_replaceAt hfind re))

/-- The loop is a way that ends. -/
theorem exists_ends {n : ℕ} {r : List UInt8} (h : replaceDepthLoop flag re n s = some r) :
    ∃ m, Ends (Rewrites flag re) m s := by
  induction n generalizing s with
  | zero => cases h
  | succ n ih =>
    rw [replaceDepthLoop] at h
    cases hfind : find flag s with
    | none => exact ⟨0, .here (not_rewrites hfind re)⟩
    | some pos =>
      rw [hfind] at h
      obtain ⟨m, hm⟩ := ih h
      exact ⟨m + 1, .step (rewrites_replaceAt hfind re) hm⟩

/-- **If the loop ends, all ways do**, unless occurrences of the flag can overlap. -/
theorem acc_of_gone (hflag : Unbordered flag) (h : Gone flag re s) :
    Acc (flip (Rewrites flag re)) s := by
  obtain ⟨r, ⟨rounds, hrounds⟩, -⟩ := h
  obtain ⟨m, hm⟩ := exists_ends (hrounds rounds le_rfl)
  exact hm.acc (diamond_rewrites hflag re)

/-! ## From the left to the right -/

/-- No occurrence goes over the front of the new text: where an end of the flag begins the new
text, and the beginning of the flag stands before it, the first occurrence was another one. -/
def LeftApart (flag re : List UInt8) : Prop :=
  ∀ i < flag.length, flag.drop i <+: re → find flag (flag.take i ++ flag) ≠ some i

instance (flag re : List UInt8) : Decidable (LeftApart flag re) :=
  inferInstanceAs (Decidable (∀ i < flag.length, _))

/-- A first occurrence is the first one also with less in front of it. -/
theorem find_of_append {p q : List UInt8}
    (h : find flag (p ++ (b ++ flag) ++ q) = some (p.length + b.length)) :
    find flag (b ++ flag) = some b.length := by
  obtain ⟨k, hk⟩ := Option.ne_none_iff_exists'.mp (find_ne_none flag b [])
  rw [List.append_nil] at hk
  have hle := find_le hk
  rw [List.length_append] at hle
  have hspec := find_spec hk
  rw [hspec, ← List.append_assoc, ← List.append_assoc, List.append_assoc _ _ q] at h
  have hge := find_le_length h
  rw [List.length_append, List.length_take] at hge
  rw [hk]
  congr 1
  omega

/-- No occurrence ends in the new text. -/
theorem LeftApart.absent (h : LeftApart flag re) (hre : ¬ flag <:+: re) {pos : ℕ}
    (hfind : find flag s = some pos) : ¬ flag <:+: s.take pos ++ re := by
  have hnone : ¬ flag <:+: s.take pos := fun hin =>
    find_ne_none_iff.mpr hin (find_take (ne_nil_of_absent hre) hfind)
  rintro ⟨p, q, hpq⟩
  rcases List.append_eq_append_iff.mp hpq with ⟨m, hm, -⟩ | ⟨m, hm, hq⟩
  · exact hnone ⟨p, m, hm.symm⟩
  rcases List.append_eq_append_iff.mp hm with ⟨w, hw, hflag⟩ | ⟨w, hp, hflag⟩
  · have hm : m ≠ [] := by
      rintro rfl
      exact hnone ⟨p, [], by rw [hm, List.append_nil, List.append_nil]⟩
    have hlt : w.length < flag.length := by
      have := List.length_pos_of_ne_nil hm
      rw [hflag, List.length_append]
      omega
    refine h w.length hlt ?_ ?_
    · rw [hflag, List.drop_left]
      exact ⟨q, hq.symm⟩
    · have hlen := congrArg List.length hw
      have hle := find_le hfind
      rw [List.length_append, List.length_take] at hlen
      have hs := find_spec hfind
      rw [hw, List.append_assoc p] at hs
      rw [show flag.take w.length = w from hflag ▸ List.take_left]
      refine find_of_append (p := p) (q := s.drop (pos + flag.length)) ?_
      rw [← hs, hfind]
      congr 1
      omega
  · exact hre ⟨w, q, by rw [hq, hflag]⟩

/-- **Each round is behind the one before.** Of what is in front, `d`, no occurrence is
left, and what is behind gets shorter. -/
theorem LeftApart.gone (h : LeftApart flag re) (hre : ¬ flag <:+: re) (hd : ¬ flag <:+: d)
    (q : List UInt8) : Gone flag re (d ++ q) := by
  induction hn : q.length using Nat.strongRecOn generalizing d q with
  | ind n ih =>
    cases hfind : find flag (d ++ q) with
    | none => exact gone_of_find_none re hfind
    | some pos =>
      refine .of_replaceAt hfind (ih _ ?_ (h.absent hre hfind) _ rfl)
      have hle := find_le hfind
      have hend : d.length < pos + flag.length := by
        by_contra hlt
        have hspec := find_spec hfind
        have hprefix : (d ++ q).take pos ++ flag <+: d := by
          refine List.prefix_of_prefix_length_le ⟨_, hspec.symm⟩ (List.prefix_append d q) ?_
          rw [List.length_append, List.length_take]
          omega
        obtain ⟨t, ht⟩ := hprefix
        exact hd ⟨_, t, ht⟩
      rw [List.length_append] at hle
      rw [List.length_drop, List.length_append]
      omega

/-! ## When the flag is gone -/

/-- **New occurrences do no harm**: the new text is not longer than the flag, no occurrence
goes over its front, or none over its end, or it is lighter than the flag, on a scale that reads
from the one or from the other side. -/
def Tame (flag re : List UInt8) : Prop :=
  re.length ≤ flag.length ∨ LeftApart flag re ∨ Apart re flag
    ∨ Lighter flag re ∨ Lighter flag.reverse re.reverse

theorem gone_of_tame (hre : ¬ flag <:+: re) (h : Tame flag re) (s : List UInt8) :
    Gone flag re s := by
  rcases h with h | h | h
  · exact gone_of_acc ((wellFounded_rewrites hre (.inl h)).apply s)
  · exact h.gone hre (d := []) (fun hnil => ne_nil_of_absent hre (List.infix_nil.mp hnil)) s
  · exact gone_of_acc ((wellFounded_rewrites hre (.inr h)).apply s)

section Pairs

variable {x y : UInt8}

theorem tame_singleton (hre : ¬ [x] <:+: re) : Tame [x] re := by
  refine .inr (.inr (.inl fun w hw hw' => ?_))
  rcases w with _ | ⟨c, w⟩
  · rfl
  · obtain ⟨rfl, -⟩ := List.cons_prefix_cons.mp hw'
    exact absurd ((List.prefix_append [c] w).isInfix.trans hw.isInfix) hre

theorem tame_self (hre : ¬ [x, x] <:+: re) : Tame [x, x] re := by
  by_cases hnil : re = []
  · exact .inl (by simp [hnil])
  · exact .inr (.inr (.inr (.inl (lighter_self hnil hre))))

/-- A new text that does not begin with two of the second letter, or does not end with two of the
first. -/
theorem tame_pair (hxy : x ≠ y) (hre : ¬ [x, y] <:+: re)
    (h : ¬ ([y, y] <+: re ∧ [x, x] <:+ re)) : Tame [x, y] re := by
  rcases not_and_or.mp h with h | h
  · exact .inr (.inr (.inr (.inl (lighter_pair hxy hre h))))
  · refine .inr (.inr (.inr (.inr (lighter_pair hxy.symm ?_ ?_))))
    · exact fun hin => hre (List.reverse_infix.mp hin)
    · exact fun hpre => h (List.reverse_prefix.mp hpre)

theorem prefix_intercalate (sep a : List UInt8) (t : List (List UInt8)) :
    a <+: sep.intercalate (a :: t) := by
  cases t with
  | nil => rw [List.intercalate_singleton]
  | cons b t =>
    rw [List.intercalate_cons_of_ne_nil (List.cons_ne_nil b t), List.append_assoc]
    exact List.prefix_append a _

/-- **A source from which nothing grows** has no two occurrences next to each other, and no
letter of the flag next to one that makes another with the new text. -/
theorem noNew_pair (hxy : x ≠ y) (hre : ¬ [x, y] <:+: re) (hclean : ¬ [x, y] <:+: d ++ a)
    (hpieces : ∀ b ∈ t, ¬ [x, y] <:+: b) (hlast : t ≠ [] → ¬ [x] <:+ d ++ a)
    (hgrows : t ≠ [] → ¬ Grows x y ([x, y] ++ [x, y].intercalate t)) :
    NoNew [x, y] re d (a :: t) := by
  induction t generalizing d a with
  | nil => exact noNew_singleton.mpr hclean
  | cons b t ih =>
    have hlast := hlast (List.cons_ne_nil b t)
    have hgrows := hgrows (List.cons_ne_nil b t)
    have hfront : ¬ [y] <+: b := by
      rintro ⟨b', rfl⟩
      obtain ⟨r, hr⟩ := prefix_intercalate [x, y] ([y] ++ b') t
      refine hgrows (.inr (.inl ⟨[], b' ++ r, ?_⟩))
      rw [← hr]
      simp
    have hdone : ¬ [x, y] <:+: d ++ a ++ re := by
      rw [pair_infix_append]
      rintro (h | h | ⟨h, -⟩)
      · exact hclean h
      · exact hre h
      · exact hlast h
    refine noNew_cons.mpr ⟨?_, ih ?_ (fun b hb => hpieces b (.tail _ hb)) ?_ ?_⟩
    · show ¬ [x, y] <:+: d ++ a ++ [x]
      rw [pair_infix_append]
      rintro (h | h | ⟨-, h⟩)
      · exact hclean h
      · exact absurd h.length_le (by simp)
      · exact hxy (List.cons_prefix_cons.mp h).1.symm
    · rw [pair_infix_append]
      rintro (h | h | ⟨-, h⟩)
      · exact hdone h
      · exact hpieces b (.head t) h
      · exact hfront h
    · rintro ht ⟨r, hr⟩
      rw [List.intercalate_cons_of_ne_nil ht] at hgrows
      rcases b.eq_nil_or_concat with rfl | ⟨b', c, rfl⟩
      · exact hgrows (.inr (.inr ⟨[], [x, y].intercalate t, by simp⟩))
      · rw [List.concat_eq_append, ← List.append_assoc] at hr
        obtain rfl : x = c := List.singleton_inj.mp (List.append_inj' hr rfl).2
        exact hgrows (.inl ⟨[x, y] ++ b', [x, y].intercalate t, by simp⟩)
    · intro ht h
      rw [List.intercalate_cons_of_ne_nil ht] at hgrows
      exact hgrows (h.mono ⟨[x, y] ++ b, [], by simp⟩)

theorem noNew_of_not_grows (hxy : x ≠ y) (hre : ¬ [x, y] <:+: re) (h : ¬ Grows x y s) :
    NoNew [x, y] re [] (pieces [x, y] s) := by
  have hflag : [x, y] ≠ [] := List.cons_ne_nil x [y]
  obtain ⟨a, t, hpieces⟩ := exists_pieces hflag s
  have hs := intercalate_pieces hflag s
  have hclean : ∀ b ∈ a :: t, ¬ [x, y] <:+: b := fun b hb hin =>
    find_ne_none_iff.mpr hin (find_of_mem_pieces hflag (hpieces ▸ hb))
  rw [hpieces] at hs ⊢
  refine noNew_pair hxy hre (hclean a (.head t)) (fun b hb => hclean b (.tail a hb))
    (fun ht hlast => ?_) fun ht hgrows => h (hgrows.mono ?_)
  · obtain ⟨a', ha⟩ := hlast
    rw [List.nil_append] at ha
    rw [List.intercalate_cons_of_ne_nil ht, ← ha] at hs
    exact h (.inl ⟨a', [x, y].intercalate t, by simp [← hs]⟩)
  · rw [List.intercalate_cons_of_ne_nil ht] at hs
    exact ⟨a, [], by simp [← hs]⟩

/-- **A flag of two letters is gone** unless the new text makes room for more of them on both
sides and something in the source begins it. -/
theorem gone_pair_iff (hxy : x ≠ y) (hre : ¬ [x, y] <:+: re) (s : List UInt8) :
    Gone [x, y] re s ↔ ¬ ([y, y] <+: re ∧ [x, x] <:+ re) ∨ ¬ Grows x y s := by
  constructor
  · intro h
    rw [← not_and_or]
    rintro ⟨⟨hy, hx⟩, hgrows⟩
    exact hgrows.not_acc hy hx (acc_of_gone (unbordered_pair hxy) h)
  · rintro (h | h)
    · exact gone_of_tame hre (tame_pair hxy hre h) s
    · exact gone_of_noNew (List.cons_ne_nil x [y]) (noNew_of_not_grows hxy hre h)

end Pairs

/-- **When the flag is gone.** It is, if only occurrences of the source's own are replaced,
or if new ones do no harm. For a flag of at most two letters it is only then. -/
theorem gone_iff (hre : ¬ flag <:+: re) (strSource : List UInt8) :
    (NoNew flag re [] (pieces flag strSource) ∨ Tame flag re → Gone flag re strSource)
      ∧ (flag.length ≤ 2 → Gone flag re strSource →
        NoNew flag re [] (pieces flag strSource) ∨ Tame flag re) := by
  refine ⟨fun h => ?_, fun hlen h => ?_⟩
  · rcases h with h | h
    · exact gone_of_noNew (ne_nil_of_absent hre) h
    · exact gone_of_tame hre h strSource
  · rcases flag with _ | ⟨x, _ | ⟨y, _ | ⟨z, flag⟩⟩⟩
    · exact absurd List.nil_infix hre
    · exact .inr (tame_singleton hre)
    · by_cases hxy : x = y
      · exact .inr (hxy ▸ tame_self (hxy ▸ hre))
      · rcases (gone_pair_iff hxy hre strSource).mp h with h | h
        · exact .inr (tame_pair hxy hre h)
        · exact .inl (noNew_of_not_grows hxy hre h)
    · simp at hlen

/-- An occurrence that overlaps another one and is not replaced; a text that becomes part of
an occurrence, which is replaced too; and the flag `ab` in places where `bbaa` does no
harm. -/
theorem gone_iff_abab :
    Gone (ascii "abab") (ascii "abbaba") (ascii "ababab")
      ∧ Gone (ascii "abab") (ascii "abbaba") (ascii "ababb")
      ∧ Gone (ascii "ab") (ascii "bbaa") (ascii "cabcabc") := by
  have habab : ¬ ascii "abab" <:+: ascii "abbaba" := by decide
  have hab : ¬ ascii "ab" <:+: ascii "bbaa" := by decide
  refine ⟨(gone_iff habab _).1 (.inl (by decide)), (gone_iff habab _).1 (.inr (.inr (.inl ?_))),
    (gone_iff hab _).1 (.inl (by decide))⟩
  decide

/-! ## A flag that comes back -/

/-- The letters `b` in front are none of the flag `ab`. -/
theorem find_replicate (k : ℕ) (t : List UInt8) :
    find (ascii "ab") (List.replicate k 98 ++ t) = (find (ascii "ab") t).map (k + ·) := by
  induction k with
  | zero =>
    rw [List.replicate_zero, List.nil_append]
    simp only [Nat.zero_add, Option.map_id']
  | succ k ih =>
    have hfront : ¬ ascii "ab" <+: 98 :: (List.replicate k 98 ++ t) :=
      fun h => absurd (List.cons_prefix_cons.mp h).1 (by decide)
    rw [List.replicate_succ, List.cons_append, find_cons_of_not_prefix hfront, ih,
      Option.map_map]
    congr 1
    funext pos
    show k + pos + 1 = k + 1 + pos
    omega

theorem replaceAt_replicate (k loc n : ℕ) (t re : List UInt8) :
    replaceAt (List.replicate k 98 ++ t) (k + loc) n re
      = List.replicate k 98 ++ (t.take loc ++ (re ++ t.drop (loc + n))) := by
  have h := replaceAt_append (List.replicate k 98) t re loc n
  rwa [List.length_replicate, List.append_assoc, List.append_assoc] at h

/-- **Two rounds later the same letters stand between more of them.** -/
theorem replaceDepthLoop_grow (n k : ℕ) (t : List UInt8) :
    replaceDepthLoop (ascii "ab") (ascii "bbaa") (n + 2)
        (List.replicate k 98 ++ 97 :: 97 :: 98 :: t)
      = replaceDepthLoop (ascii "ab") (ascii "bbaa") n
        (List.replicate (k + 2) 98 ++ 97 :: 97 :: 98 :: 97 :: 97 :: t) := by
  have hfirst : find (ascii "ab") (97 :: 97 :: 98 :: t) = some 1 := rfl
  have hsecond : find (ascii "ab") (97 :: 98 :: 98 :: 97 :: 97 :: t) = some 0 := rfl
  rw [replaceDepthLoop, find_replicate, hfirst]
  dsimp only [Option.map_some]
  rw [replaceAt_replicate]
  show replaceDepthLoop _ _ (n + 1) (List.replicate k 98 ++ 97 :: 98 :: 98 :: 97 :: 97 :: t) = _
  rw [replaceDepthLoop, find_replicate, hsecond]
  dsimp only [Option.map_some]
  rw [replaceAt_replicate, List.replicate_add, List.append_assoc]
  rfl

theorem replaceDepthLoop_eq_none (n k : ℕ) (t : List UInt8) :
    replaceDepthLoop (ascii "ab") (ascii "bbaa") n (List.replicate k 98 ++ 97 :: 97 :: 98 :: t)
      = none := by
  induction n using Nat.twoStepInduction generalizing k t with
  | zero => rfl
  | one =>
    have hfirst : find (ascii "ab") (97 :: 97 :: 98 :: t) = some 1 := rfl
    rw [replaceDepthLoop, find_replicate, hfirst]
    rfl
  | more n ih _ => exact (replaceDepthLoop_grow n k t).trans (ih _ _)

/-- **From `aab` the flag `ab` is never gone** when it is replaced by `bbaa`, which does not have
it. -/
theorem not_gone_grow :
    ¬ ascii "ab" <:+: ascii "bbaa" ∧ ¬ Gone (ascii "ab") (ascii "bbaa") (ascii "aab") := by
  refine ⟨by decide, ?_⟩
  rintro ⟨r, ⟨rounds, hrounds⟩, -⟩
  have hsome := hrounds rounds le_rfl
  rw [show ascii "aab" = List.replicate 0 98 ++ 97 :: 97 :: 98 :: [] from rfl,
    replaceDepthLoop_eq_none] at hsome
  cases hsome

end QString
