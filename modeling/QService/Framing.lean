import Mathlib.Tactic

/-!
# Reading frames from a stream that arrives in chunks

A connection delivers the bytes of a sequence of frames cut at arbitrary
places. A reader appends each chunk to a buffer and then loops: while the
buffer starts with a complete frame it consumes that frame, and it stops at
the first incomplete one.

Two things are general about such a reader. The loop is a `while (true)`
whose body either goes round again or returns (`LoopStep`), and running it with
more fuel than a measure that decreases on every round always ends in a
return (`LoopStep.whileTrue_rule`, `LoopStep.exists_rounds_stop`). And where
the reader stands after any number of chunks depends on the bytes alone, not
on the cuts: there is exactly one way to write a prefix of the stream as
complete frames followed by a proper part of the next one
(`FrameCode.exists_cut`), and a reader whose body consumes one frame per
round and returns on a partial one has consumed
exactly those frames, or has ended at one of them
(`FrameCode.ReadsUntil.feed_chunks`).

Both are over arbitrary byte, frame and state types.
-/

/-- One round of a `while (true)` loop: go round again, or return. -/
inductive LoopStep (σ : Type*)
  | next (s : σ)
  | stop (s : σ)

namespace LoopStep

variable {σ : Type*}

/-- A `while (true)` loop run for at most the given number of rounds. -/
def whileTrue (body : σ → LoopStep σ) : ℕ → σ → σ
  | 0, s => s
  | n + 1, s =>
    match body s with
    | .stop s' => s'
    | .next s' => whileTrue body n s'

/-- Where a round goes or returns, `P` holds. -/
def All (P : σ → Prop) : LoopStep σ → Prop
  | .next s => P s
  | .stop s => P s

/-- The state with which a round ends. -/
def state : LoopStep σ → σ
  | .next s => s
  | .stop s => s

theorem whileTrue_next {body : σ → LoopStep σ} {s s' : σ} (h : body s = .next s') (n : ℕ) :
    whileTrue body (n + 1) s = whileTrue body n s' := by
  rw [whileTrue, h]

theorem whileTrue_stop {body : σ → LoopStep σ} {s s' : σ} (h : body s = .stop s') (n : ℕ) :
    whileTrue body (n + 1) s = s' := by
  rw [whileTrue, h]

/-- **The rule for a loop that ends.** An invariant kept by every round that
goes on, with a measure that decreases there, gives what every return
establishes. -/
theorem whileTrue_rule {body : σ → LoopStep σ} (I Q : σ → Prop) (μ : σ → ℕ)
    (hnext : ∀ s s', I s → body s = .next s' → I s' ∧ μ s' < μ s)
    (hstop : ∀ s s', I s → body s = .stop s' → Q s') :
    ∀ n s, I s → μ s < n → Q (whileTrue body n s) := by
  intro n
  induction n with
  | zero => exact fun s _ hn => absurd hn (Nat.not_lt_zero _)
  | succ n ih =>
    intro s hI hn
    cases hb : body s with
    | stop s' =>
      rw [whileTrue_stop hb]
      exact hstop s s' hI hb
    | next s' =>
      obtain ⟨hI', hμ⟩ := hnext s s' hI hb
      rw [whileTrue_next hb]
      exact ih s' hI' (by omega)

/-- **The rule for an invariant** that every round keeps, returning or not. -/
theorem whileTrue_all {body : σ → LoopStep σ} (I : σ → Prop) (μ : σ → ℕ)
    (hbody : ∀ s, I s → (body s).All I)
    (hdec : ∀ s s', body s = .next s' → μ s' < μ s) (n : ℕ) (s : σ) (hs : I s)
    (hn : μ s < n) : I (whileTrue body n s) := by
  refine whileTrue_rule I I μ (fun s s' hI hb => ?_) (fun s s' hI hb => ?_) n s hs hn
  · have hall := hbody s hI
    rw [hb] at hall
    exact ⟨hall, hdec s s' hb⟩
  · have hall := hbody s hI
    rw [hb] at hall
    exact hall

/-- The states in which a round of the loop begins. -/
inductive Rounds (body : σ → LoopStep σ) : σ → σ → Prop
  | start {s : σ} : Rounds body s s
  | next {s s' s₁ : σ} (hb : body s = .next s') (h : Rounds body s' s₁) : Rounds body s s₁

/-- An invariant of the rounds that go on. -/
theorem Rounds.invariant {body : σ → LoopStep σ} (I : σ → Prop)
    (hnext : ∀ s s', I s → body s = .next s' → I s') {s s₁ : σ} (h : Rounds body s s₁)
    (hs : I s) : I s₁ := by
  induction h with
  | start => exact hs
  | next hb _ ih => exact ih (hnext _ _ hs hb)

/-- The loop with a component that records its rounds and that the body does
not see. A round that returns records nothing. -/
def ghost {γ : Type*} (body : σ → LoopStep σ) (note : σ → γ → γ) : σ × γ → LoopStep (σ × γ)
  | (s, g) =>
    match body s with
    | .next s' => .next (s', note s g)
    | .stop s' => .stop (s', g)

section Ghost

variable {γ : Type*} {body : σ → LoopStep σ} {note : σ → γ → γ}

theorem ghost_next {s s' : σ} {g g' : γ} (h : ghost body note (s, g) = .next (s', g')) :
    body s = .next s' ∧ g' = note s g := by
  rw [ghost] at h
  cases hb : body s with
  | next s₁ =>
    rw [hb] at h
    cases h
    exact ⟨rfl, rfl⟩
  | stop s₁ =>
    rw [hb] at h
    cases h

theorem ghost_stop {s s' : σ} {g g' : γ} (h : ghost body note (s, g) = .stop (s', g')) :
    body s = .stop s' ∧ g' = g := by
  rw [ghost] at h
  cases hb : body s with
  | next s₁ =>
    rw [hb] at h
    cases h
  | stop s₁ =>
    rw [hb] at h
    cases h
    exact ⟨rfl, rfl⟩

/-- **Recording changes nothing.** -/
theorem fst_whileTrue_ghost (n : ℕ) (s : σ) (g : γ) :
    (whileTrue (ghost body note) n (s, g)).1 = whileTrue body n s := by
  induction n generalizing s g with
  | zero => rfl
  | succ n ih =>
    cases hb : body s with
    | next s' =>
      have hg : ghost body note (s, g) = .next (s', note s g) := by rw [ghost, hb]
      rw [whileTrue_next hg, whileTrue_next hb, ih]
    | stop s' =>
      have hg : ghost body note (s, g) = .stop (s', g) := by rw [ghost, hb]
      rw [whileTrue_stop hg, whileTrue_stop hb]

end Ghost

end LoopStep

/-- How the frames of a stream are written: each as a non-empty string. -/
structure FrameCode (φ β : Type*) where
  /-- The bytes of a frame. -/
  enc : φ → List β
  /-- A frame takes at least one byte. -/
  enc_ne_nil : ∀ f, enc f ≠ []

namespace FrameCode

variable {φ β σ α : Type*} (C : FrameCode φ β)

/-- The bytes of a sequence of frames. -/
def encAll (fs : List φ) : List β := fs.flatMap C.enc

@[simp] theorem encAll_nil : C.encAll [] = [] := rfl

@[simp] theorem encAll_cons (f : φ) (fs : List φ) :
    C.encAll (f :: fs) = C.enc f ++ C.encAll fs := List.flatMap_cons

@[simp] theorem encAll_append (fs gs : List φ) :
    C.encAll (fs ++ gs) = C.encAll fs ++ C.encAll gs := List.flatMap_append

/-- A sequence of frames has at least as many bytes as frames. -/
theorem length_le_encAll (fs : List φ) : fs.length ≤ (C.encAll fs).length := by
  induction fs with
  | nil => exact Nat.zero_le _
  | cons f fs ih =>
    have hf := List.length_pos_iff.mpr (C.enc_ne_nil f)
    rw [encAll_cons, List.length_append, List.length_cons]
    omega

/-- `rest` ends strictly inside the first frame of `todo`: what a reader is
left with when it has consumed every complete frame. -/
def Partial (todo : List φ) (rest : List β) : Prop :=
  match todo with
  | [] => rest = []
  | f :: _ => rest <+: C.enc f ∧ rest ≠ C.enc f

theorem partial_nil (todo : List φ) : C.Partial todo [] := by
  cases todo with
  | nil => rfl
  | cons f fs => exact ⟨List.nil_prefix, (C.enc_ne_nil f).symm⟩

/-- What is left over does not start with a complete frame. -/
theorem eq_nil_of_partial {more todo : List φ} {rest : List β}
    (h : C.Partial (more ++ todo) (C.encAll more ++ rest)) : more = [] := by
  cases more with
  | nil => rfl
  | cons f more =>
    obtain ⟨hpre, hne⟩ := h
    rw [encAll_cons, List.append_assoc] at hpre hne
    have hlen := hpre.length_le
    rw [List.length_append] at hlen
    have hnil : C.encAll more ++ rest = [] := List.eq_nil_of_length_eq_zero (by omega)
    rw [hnil, List.append_nil] at hne
    exact absurd rfl hne

/-- **There is only one way to cut a stream.** -/
theorem cut_unique {done todo done' todo' : List φ} {rest rest' : List β}
    (hframes : done ++ todo = done' ++ todo')
    (hbytes : C.encAll done ++ rest = C.encAll done' ++ rest')
    (hp : C.Partial todo rest) (hp' : C.Partial todo' rest') : done = done' ∧ rest = rest' := by
  -- one of the two cuts is not after the other, and the frames between them are none
  rcases List.append_eq_append_iff.mp hframes with ⟨more, rfl, rfl⟩ | ⟨more, rfl, rfl⟩
  · rw [encAll_append, List.append_assoc, List.append_cancel_left_eq] at hbytes
    obtain rfl := C.eq_nil_of_partial (hbytes ▸ hp)
    exact ⟨(List.append_nil done).symm, hbytes⟩
  · rw [encAll_append, List.append_assoc, List.append_cancel_left_eq] at hbytes
    obtain rfl := C.eq_nil_of_partial (hbytes ▸ hp')
    exact ⟨List.append_nil done', hbytes⟩

/-- A reader that has been given all the bytes has all the frames. -/
theorem partial_complete {done todo : List φ} {rest : List β}
    (h : C.encAll (done ++ todo) = C.encAll done ++ rest) (hp : C.Partial todo rest) :
    todo = [] ∧ rest = [] := by
  obtain ⟨hdone, hrest⟩ := C.cut_unique (List.append_nil (done ++ todo))
    ((List.append_nil _).trans h) (C.partial_nil []) hp
  exact ⟨List.append_right_eq_self.mp hdone, hrest.symm⟩

/-- **Every prefix of a stream is complete frames followed by a part of the
next one.** -/
theorem exists_cut {fs : List φ} {s : List β} (h : s <+: C.encAll fs) :
    ∃ done todo rest, fs = done ++ todo ∧ s = C.encAll done ++ rest
      ∧ C.Partial todo rest := by
  induction fs generalizing s with
  | nil => exact ⟨[], [], [], rfl, List.prefix_nil.mp h, rfl⟩
  | cons f fs ih =>
    rw [encAll_cons] at h
    rcases List.prefix_or_prefix_of_prefix h (List.prefix_append _ _) with hs | hf
    · by_cases he : s = C.enc f
      · exact ⟨[f], fs, [], rfl, by simp [he], C.partial_nil fs⟩
      · exact ⟨[], f :: fs, s, rfl, rfl, hs, he⟩
    · obtain ⟨s', rfl⟩ := hf
      obtain ⟨done, todo, rest, rfl, rfl, hp⟩ :=
        ih ((List.prefix_append_right_inj _).mp h)
      exact ⟨f :: done, todo, rest, rfl, by simp, hp⟩

/-! ## The reader -/

section Reader

/-- How a loop body reads frames. `R a buf s` says that the state `s` has the
unread bytes `buf` and stands for the abstract state `a`, which a frame takes
to `apply a f`; `Valid a fs` says that the frames `fs` may follow in `a`. -/
structure Reads (body : σ → LoopStep σ) (apply : α → φ → α)
    (Valid : α → List φ → Prop) (R : α → List β → σ → Prop) : Prop where
  /-- A complete frame at the front is consumed in one round. -/
  frame : ∀ a f fs rest s, Valid a (f :: fs) → R a (C.enc f ++ rest) s →
    ∃ s', body s = .next s' ∧ R (apply a f) rest s'
  /-- What may follow a frame may follow it in the state it leads to. -/
  valid : ∀ a f fs, Valid a (f :: fs) → Valid (apply a f) fs
  /-- A partial frame returns and leaves everything as it is. -/
  part : ∀ a todo rest s, Valid a todo → C.Partial todo rest → R a rest s →
    ∃ s', body s = .stop s' ∧ R a rest s'

/-- How a loop body reads frames until it gives up. It may also end at a frame, and
then `Over a s` says that the state stands for `a` and reads nothing any
more. -/
structure ReadsUntil (body : σ → LoopStep σ) (apply : α → φ → α)
    (Valid : α → List φ → Prop) (R : α → List β → σ → Prop) (Over : α → σ → Prop) : Prop where
  /-- A complete frame at the front is consumed in one round, or ends the reading. -/
  frame : ∀ a f fs rest s, Valid a (f :: fs) → R a (C.enc f ++ rest) s →
    (∃ s', body s = .next s' ∧ R (apply a f) rest s')
      ∨ ∃ s', body s = .stop s' ∧ Over (apply a f) s'
  /-- What may follow a frame may follow it in the state it leads to. -/
  valid : ∀ a f fs, Valid a (f :: fs) → Valid (apply a f) fs
  /-- A partial frame returns and leaves everything as it is. -/
  part : ∀ a todo rest s, Valid a todo → C.Partial todo rest → R a rest s →
    ∃ s', body s = .stop s' ∧ R a rest s'
  /-- After the end, frames change nothing. -/
  ended : ∀ a f s, Over a s → Over (apply a f) s

variable {C} {body : σ → LoopStep σ} {apply : α → φ → α}
  {Valid : α → List φ → Prop} {R : α → List β → σ → Prop} {Over : α → σ → Prop}

theorem ReadsUntil.valid_append (h : C.ReadsUntil body apply Valid R Over) {a : α}
    (more todo : List φ) (hv : Valid a (more ++ todo)) :
    Valid (more.foldl apply a) todo := by
  induction more generalizing a with
  | nil => exact hv
  | cons f more ih => exact ih (h.valid a f _ hv)

theorem ReadsUntil.ended_foldl (h : C.ReadsUntil body apply Valid R Over) {a : α} {s : σ}
    (hs : Over a s) (fs : List φ) : Over (fs.foldl apply a) s := by
  induction fs generalizing a with
  | nil => exact hs
  | cons f fs ih => exact ih (h.ended a f s hs)

/-- **One run of the loop** consumes the complete frames in the buffer and
returns at the partial one, or ends. -/
theorem ReadsUntil.whileTrue (h : C.ReadsUntil body apply Valid R Over) (n : ℕ) (a : α)
    (more todo : List φ) (rest : List β) (s : σ) (hn : more.length < n)
    (hv : Valid a (more ++ todo)) (hp : C.Partial todo rest)
    (hR : R a (C.encAll more ++ rest) s) :
    R (more.foldl apply a) rest (LoopStep.whileTrue body n s)
      ∨ Over (more.foldl apply a) (LoopStep.whileTrue body n s) := by
  induction more generalizing a s n with
  | nil =>
    obtain ⟨n, rfl⟩ := Nat.exists_eq_succ_of_ne_zero (Nat.ne_of_gt hn)
    obtain ⟨s', hb, hR'⟩ := h.part a todo rest s hv hp hR
    rw [LoopStep.whileTrue_stop hb]
    exact .inl hR'
  | cons f more ih =>
    obtain ⟨n, rfl⟩ := Nat.exists_eq_succ_of_ne_zero (Nat.ne_of_gt (Nat.zero_lt_of_lt hn))
    rw [encAll_cons, List.append_assoc] at hR
    rcases h.frame a f _ _ s hv hR with ⟨s', hb, hR'⟩ | ⟨s', hb, hover⟩
    · rw [LoopStep.whileTrue_next hb]
      exact ih n (apply a f) s' (Nat.lt_of_succ_lt_succ hn) (h.valid a f _ hv) hR'
    · rw [LoopStep.whileTrue_stop hb]
      exact .inr (h.ended_foldl hover more)

/-- **Chunking does not matter.** A reader that appends each chunk to its
buffer and then runs the loop has, after any prefix of the stream in any
chunks, consumed exactly the complete frames of that prefix and kept the rest
in its buffer, or it has ended at one of them. Before the first chunk it may
have any bytes of the stream in its buffer. -/
theorem ReadsUntil.feed_chunks (h : C.ReadsUntil body apply Valid R Over)
    (recv : σ → List β → σ)
    (hrecv : ∀ a buf s chunk, R a buf s → ∃ n s', (buf ++ chunk).length < n
      ∧ R a (buf ++ chunk) s' ∧ recv s chunk = LoopStep.whileTrue body n s')
    (hover : ∀ a s chunk, Over a s → Over a (recv s chunk))
    (chunks : List (List β)) (a : α) (fs : List φ) (buf : List β) (s : σ) (hv : Valid a fs)
    (hp : chunks ≠ [] ∨ C.Partial fs buf) (hR : R a buf s)
    (hpre : buf ++ chunks.flatten <+: C.encAll fs) :
    ∃ done todo rest, fs = done ++ todo ∧ buf ++ chunks.flatten = C.encAll done ++ rest
      ∧ C.Partial todo rest
      ∧ (R (done.foldl apply a) rest (chunks.foldl recv s)
        ∨ Over (done.foldl apply a) (chunks.foldl recv s)) := by
  have hoverAll : ∀ (chunks : List (List β)) (a : α) (s : σ), Over a s →
      Over a (chunks.foldl recv s) := by
    intro chunks
    induction chunks with
    | nil => exact fun _ _ hs => hs
    | cons chunk chunks ih => exact fun a s hs => ih a _ (hover a s chunk hs)
  -- the induction carries the part of a frame left over from earlier chunks
  induction chunks generalizing a fs buf s with
  | nil =>
    refine ⟨[], fs, buf, rfl, by simp, ?_, .inl hR⟩
    rcases hp with hne | hp
    · exact absurd rfl hne
    · exact hp
  | cons chunk chunks ih =>
    rw [List.flatten_cons, ← List.append_assoc] at hpre
    obtain ⟨more, todo, rest, rfl, hbuf, hp'⟩ :=
      C.exists_cut ((List.prefix_append _ _).trans hpre)
    obtain ⟨n, s', hn, hR', hrun⟩ := hrecv a buf s chunk hR
    have hlen : more.length < n := by
      have h₁ := C.length_le_encAll more
      rw [hbuf, List.length_append] at hn
      omega
    rw [hbuf] at hR' hpre
    rw [encAll_append, List.append_assoc, List.prefix_append_right_inj] at hpre
    have hflat : ∀ done rest', rest ++ chunks.flatten = C.encAll done ++ rest' →
        buf ++ (chunk :: chunks).flatten = C.encAll (more ++ done) ++ rest' := by
      intro done rest' hrest
      rw [List.flatten_cons, ← List.append_assoc, hbuf, List.append_assoc, hrest,
        encAll_append, List.append_assoc]
    rw [List.foldl_cons, hrun]
    rcases h.whileTrue n a more todo rest s' hlen hv hp' hR' with hloop | hloop
    · obtain ⟨done, todo', rest', rfl, hrest, hp'', hend⟩ :=
        ih _ todo rest _ (h.valid_append more todo hv) (.inr hp') hloop hpre
      refine ⟨more ++ done, todo', rest', (List.append_assoc _ _ _).symm, hflat _ _ hrest, hp'', ?_⟩
      rw [List.foldl_append]
      exact hend
    · obtain ⟨done, todo', rest', rfl, hrest, hp''⟩ := C.exists_cut hpre
      refine ⟨more ++ done, todo', rest', (List.append_assoc _ _ _).symm, hflat _ _ hrest, hp'',
        .inr ?_⟩
      rw [List.foldl_append]
      exact hoverAll chunks _ _ (h.ended_foldl hloop done)

/-- A reader that never gives up. -/
theorem Reads.readsUntil (h : C.Reads body apply Valid R) :
    C.ReadsUntil body apply Valid R fun _ _ => False where
  frame a f fs rest s hv hR := .inl (h.frame a f fs rest s hv hR)
  valid := h.valid
  part := h.part
  ended _ _ _ := False.elim

/-- Chunking does not matter to a reader that never gives up. -/
theorem Reads.feed_chunks (h : C.Reads body apply Valid R)
    (recv : σ → List β → σ)
    (hrecv : ∀ a buf s chunk, R a buf s → ∃ n s', (buf ++ chunk).length < n
      ∧ R a (buf ++ chunk) s' ∧ recv s chunk = LoopStep.whileTrue body n s')
    (a : α) (fs : List φ) (s : σ) (chunks : List (List β)) (hv : Valid a fs)
    (hs : R a [] s) (hcut : chunks.flatten <+: C.encAll fs) :
    ∃ done todo rest, fs = done ++ todo ∧ chunks.flatten = C.encAll done ++ rest
      ∧ C.Partial todo rest ∧ R (done.foldl apply a) rest (chunks.foldl recv s) := by
  obtain ⟨done, todo, rest, hfs, hbytes, hp, hend | hend⟩ :=
    h.readsUntil.feed_chunks recv hrecv (fun _ _ _ => False.elim) chunks a fs [] s hv
      (.inr (C.partial_nil fs)) hs hcut
  · exact ⟨done, todo, rest, hfs, hbytes, hp, hend⟩
  · exact hend.elim

end Reader

end FrameCode
