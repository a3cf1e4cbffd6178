import QService.LinkOther

/-!
# The status of a link

The worker reports the status of a connection under its socket, and the first
entry that records the socket gets it. As an entry keeps the socket of a
connection that has ended, two entries can record the same one, and the report
goes to the wrong one (`linkStatus_wrong`). The reports are right in every run
in which no entry gets a socket that another one still records
(`rightPeer_of_unrecorded`), and only in these (`not_rightPeer_of_recorded`).
-/

namespace LinkWorld

variable {S S' : LinkWorld}

/-- **The status reaches the right peer**: no two entries record the same socket, a
report about a connection that was opened for an entry changes this entry, and
an entry is closed exactly when no connection opened for it is pending or
open. -/
structure RightPeer (S : LinkWorld) : Prop where
  distinct : ∀ (i j : ℕ) (l m : LinkInfo), S.links[i]? = some l → S.links[j]? = some m →
    l.sock = m.sock → l.sock ≠ invalidSock → i = j
  calls : ∀ k ∈ S.calls, ∀ e, S.opened k.conn = some e → k.changed = some e
  closed : ∀ (e : ℕ) (l : LinkInfo), S.links[e]? = some l →
    (l.emStatus = .closed ↔ ¬ ∃ fd c, S.Live fd c ∧ S.opened c = some e)

/-- No entry gets a socket that another one still records. -/
def Unrecorded (S : LinkWorld) : Step → Prop
  | .visit (some (sok, true)) => ∀ i ∈ S.pass, ∀ l ∈ S.links[i]?, l.emStatus = .closed →
      ∀ m ∈ S.links.eraseIdx i, m.sock ≠ sok
  | _ => True

instance (S : LinkWorld) : DecidablePred S.Unrecorded
  | .visit (some (sok, true)) => inferInstanceAs (Decidable (∀ i ∈ S.pass, ∀ l ∈ S.links[i]?,
      l.emStatus = .closed → ∀ m ∈ S.links.eraseIdx i, m.sock ≠ sok))
  | .visit (some (_, false)) | .visit none | .addHost .. | .lock | .unlock | .accept ..
  | .onMainRead | .onAssistRead _ | .close _ | .report | .free => .isTrue trivial

/-- A connection is recorded by the entry it was opened for, which is then not closed. -/
structure Recorded (S : LinkWorld) : Prop where
  distinct : ∀ (i j : ℕ) (l m : LinkInfo), S.links[i]? = some l → S.links[j]? = some m →
    l.sock = m.sock → l.sock ≠ invalidSock → i = j
  calls : ∀ k ∈ S.calls, ∀ e, S.opened k.conn = some e → k.changed = some e
  calls_lt : ∀ k ∈ S.calls, k.conn < S.conns
  entry : ∀ fd c e, S.Live fd c → S.opened c = some e →
    ∃ l, S.links[e]? = some l ∧ l.sock = fd ∧ l.emStatus ≠ .closed
  live : ∀ (e : ℕ) (l : LinkInfo), S.links[e]? = some l → l.emStatus ≠ .closed →
    ∃ fd c, S.Live fd c ∧ S.opened c = some e

theorem Recorded.rightPeer (hR : S.Recorded) : S.RightPeer where
  distinct := hR.distinct
  calls := hR.calls
  closed e l hl := by
    constructor
    · rintro hc ⟨fd, c, hlive, he⟩
      obtain ⟨l', hl', -, hst⟩ := hR.entry fd c e hlive he
      obtain rfl := Option.some.inj (hl.symm.trans hl')
      exact hst hc
    · intro hno
      by_contra hc
      exact hno (hR.live e l hl hc)

/-- A connection that is pending or open has its socket. -/
theorem Sound.owner_live (h : S.Sound) {fd : QSock} {c : ℕ} (hl : S.Live fd c) :
    S.owner fd = some c := by
  rcases hl with hm | ⟨o, hw⟩ | ⟨t, ht⟩
  · exact h.owner_assist hm
  · exact h.owner_worker (by simp only [hw, Doing.held, List.mem_singleton])
  · exact h.handles.table_owner fd c t ht

/-- The first entry with the socket of a connection is the one it was opened for. -/
theorem Recorded.find_eq (hR : S.Recorded) (h : S.Sound) {fd : QSock} {c e : ℕ}
    (hl : S.Live fd c) (he : S.opened c = some e) : find S.links fd = some e := by
  obtain ⟨l, hle, rfl, -⟩ := hR.entry fd c e hl he
  have hv := h.valid _ c (h.owner_live hl)
  obtain ⟨hlt, hget⟩ := List.getElem?_eq_some_iff.mp hle
  rw [find, if_neg hv, List.findIdx?_eq_some_iff_getElem]
  refine ⟨hlt, by simp [hget], fun j hj => ?_⟩
  -- an earlier entry with this socket would be the entry itself
  have hjl : S.links[j]? = some S.links[j] := List.getElem?_eq_getElem (hj.trans hlt)
  simp only [decide_eq_true_eq]
  intro hs
  exact hj.ne (hR.distinct j e _ l hjl hle hs (hs ▸ hv))

/-- An entry has one connection at most. -/
theorem Recorded.conn_unique (hR : S.Recorded) (h : S.Sound) {fd fd' : QSock} {c c' e : ℕ}
    (hl : S.Live fd c) (hl' : S.Live fd' c') (he : S.opened c = some e)
    (he' : S.opened c' = some e) : c' = c := by
  obtain ⟨l, hle, rfl, -⟩ := hR.entry fd c e hl he
  obtain ⟨l', hle', rfl, -⟩ := hR.entry fd' c' e hl' he'
  obtain rfl := Option.some.inj (hle.symm.trans hle')
  exact Option.some.inj ((h.owner_live hl').symm.trans (h.owner_live hl))

/-- The entry that `setSockStatus` finds has the socket. -/
theorem sock_of_find {links : List LinkInfo} {sock : QSock} {e : ℕ} {l : LinkInfo}
    (hf : find links sock = some e) (hl : links[e]? = some l) : l.sock = sock := by
  unfold find at hf
  split_ifs at hf
  obtain ⟨hlt, hs, -⟩ := List.findIdx?_eq_some_iff_getElem.mp hf
  rw [List.getElem?_eq_getElem hlt, Option.some.injEq] at hl
  simpa [hl] using hs

/-- **A report about a connection changes the entry it was opened for and no other.** If it
was opened for none, an entry that still records the socket is closed already. -/
theorem Recorded.getElem?_setStatus (hR : S.Recorded) (h : S.Sound) {fd : QSock} {c : ℕ}
    {st : SessionStatus} (hl : S.Live fd c) (hst : st ≠ .closed → ∃ e, S.opened c = some e)
    (e : ℕ) :
    (setStatus S.links fd st)[e]? = S.links[e]?.map fun l =>
      if S.opened c = some e then { l with emStatus := st } else l := by
  rw [LinkWorld.getElem?_setStatus]
  cases hc : S.opened c with
  | some e₀ => rw [hR.find_eq h hl hc]
  | none =>
    have hclosed : st = .closed := by
      by_contra hne
      obtain ⟨e, he⟩ := hst hne
      cases hc.symm.trans he
    refine Option.map_congr fun l hle => ?_
    rw [if_neg (show ¬ (none : Option ℕ) = some e by simp)]
    split_ifs with hf
    · have hlc : l.emStatus = .closed := by
        by_contra hne
        obtain ⟨fd', c', hlive, he⟩ := hR.live e l hle hne
        obtain ⟨l', hle', rfl, -⟩ := hR.entry fd' c' e hlive he
        obtain rfl := Option.some.inj (hle.symm.trans hle')
        rw [sock_of_find hf hle] at hlive
        obtain rfl := Option.some.inj ((h.owner_live hlive).symm.trans (h.owner_live hl))
        cases hc.symm.trans he
      rw [hclosed, ← hlc]
    · rfl

/-- **What a report leaves.** -/
theorem Recorded.setStatus (hR : S.Recorded) (h : S.Sound) {fd : QSock} {c : ℕ}
    {st : SessionStatus} (hl : S.Live fd c) (hst : st ≠ .closed → ∃ e, S.opened c = some e)
    (hlinks : S'.links = setStatus S.links fd st)
    (hcalls : S'.calls = S.calls ++ [⟨c, fd, find S.links fd⟩])
    (hopened : S'.opened = S.opened) (hconns : S'.conns = S.conns)
    (hlive : ∀ fd' c', S'.Live fd' c' ↔ S.Live fd' c' ∧ (st = .closed → c' ≠ c)) :
    S'.Recorded := by
  have hget := hR.getElem?_setStatus h hl hst
  refine ⟨?_, ?_, ?_, ?_, ?_⟩
  · intro i j l m hi hj hs hv
    rw [hlinks] at hi hj
    obtain ⟨l₀, hi₀, hl₀, -⟩ := of_getElem?_setStatus hi
    obtain ⟨m₀, hj₀, hm₀, -⟩ := of_getElem?_setStatus hj
    exact hR.distinct i j l₀ m₀ hi₀ hj₀ (by rw [← hl₀, ← hm₀, hs]) (hl₀ ▸ hv)
  · intro k hk e he
    rw [hopened] at he
    rw [hcalls] at hk
    rcases List.mem_append.mp hk with hk | hk
    · exact hR.calls k hk e he
    · obtain rfl := List.mem_singleton.mp hk
      exact hR.find_eq h hl he
  · intro k hk
    rw [hconns]
    rw [hcalls] at hk
    rcases List.mem_append.mp hk with hk | hk
    · exact hR.calls_lt k hk
    · obtain rfl := List.mem_singleton.mp hk
      exact h.handles.lt fd c (h.owner_live hl)
  · intro fd' c' e hl' he
    rw [hopened] at he
    obtain ⟨hl', hne⟩ := (hlive fd' c').mp hl'
    obtain ⟨l, hle, hs, hlst⟩ := hR.entry fd' c' e hl' he
    rw [hlinks, hget, hle]
    refine ⟨_, rfl, ?_, ?_⟩
    · split_ifs <;> exact hs
    · split_ifs with hc
      · exact fun h' => hne h' (hR.conn_unique h hl hl' hc he)
      · exact hlst
  · intro e l' hle' hst'
    rw [hlinks, hget] at hle'
    obtain ⟨l, hle, rfl⟩ := Option.map_eq_some_iff.mp hle'
    rw [hopened]
    split_ifs at hst' with hc
    · exact ⟨fd, c, (hlive fd c).mpr ⟨hl, fun h' => absurd h' hst'⟩, hc⟩
    · obtain ⟨fd', c', hl', he⟩ := hR.live e l hle hst'
      refine ⟨fd', c', (hlive fd' c').mpr ⟨hl', fun _ hcc => ?_⟩, he⟩
      exact hc (hcc ▸ he)

/-- Nothing changes for the connections that were opened for an entry. -/
theorem Recorded.congr (hR : S.Recorded) (hlinks : S'.links = S.links) (hcalls : S'.calls = S.calls)
    (hopened : S'.opened = S.opened) (hconns : S.conns ≤ S'.conns)
    (hlive : ∀ fd c e, S.opened c = some e → (S'.Live fd c ↔ S.Live fd c)) : S'.Recorded where
  distinct := hlinks ▸ hR.distinct
  calls := hcalls ▸ hopened ▸ hR.calls
  calls_lt k hk := (hR.calls_lt k (hcalls ▸ hk)).trans_le hconns
  entry fd c e hl he := by
    rw [hopened] at he
    rw [hlinks]
    exact hR.entry fd c e ((hlive fd c e he).mp hl) he
  live e l hl hst := by
    rw [hlinks] at hl
    rw [hopened]
    obtain ⟨fd, c, hlive', he⟩ := hR.live e l hl hst
    exact ⟨fd, c, (hlive fd c e he).mpr hlive', he⟩

/-- What the worker has in its hands is in no queue and has no session. -/
theorem Sound.worker_apart (h : S.Sound) {fd fd' : QSock} {c : ℕ}
    (hm : (fd, c) ∈ S.worker.held) :
    (fd', c) ∉ S.assist ∧ ∀ t, S.session fd' ≠ some (c, t) := by
  constructor
  · intro ha
    obtain rfl := h.handles.unique fd' fd c (h.owner_assist ha) (h.owner_worker hm)
    exact (List.nodup_append.mp h.handles.nodup).2.2 _ hm _ (List.mem_append_left _ ha) rfl
  · intro t ht
    obtain rfl := h.handles.unique fd' fd c (h.handles.table_owner fd' c t ht) (h.owner_worker hm)
    exact h.handles.apart fd' c t ht (List.mem_append_left _ hm)

/-- A link whose set-up failed is no longer pending. -/
theorem Sound.live_failed (h : S.Sound) {fd : QSock} {c : ℕ} {o : LinkSetUp}
    (hw : S.worker = .assist fd c o) (hassist : S'.assist = S.assist)
    (hsession : S'.session = S.session) (hw' : ∀ fd' c' o', S'.worker ≠ .assist fd' c' o')
    (fd' : QSock) (c' : ℕ) : S'.Live fd' c' ↔ S.Live fd' c' ∧ c' ≠ c := by
  have hm : (fd, c) ∈ S.worker.held := by simp only [hw, Doing.held, List.mem_singleton]
  unfold Live
  rw [hassist, hsession]
  constructor
  · rintro (ha | ⟨o', hwo⟩ | ⟨t, ht⟩)
    · exact ⟨.inl ha, fun hc => (h.worker_apart hm).1 (hc ▸ ha)⟩
    · exact absurd hwo (hw' fd' c' o')
    · exact ⟨.inr (.inr ⟨t, ht⟩), fun hc => (h.worker_apart hm).2 t (hc ▸ ht)⟩
  · rintro ⟨ha | ⟨o', hwo⟩ | ht, hc⟩
    · exact .inl ha
    · rw [hw] at hwo
      exact absurd (Doing.assist.inj hwo).2.1.symm hc
    · exact .inr (.inr ht)

/-- A link whose set-up succeeded has a session. -/
theorem Sound.live_linked (h : S.Sound) {fd : QSock} {c : ℕ}
    (hw : S.worker = .assist fd c .ok) (hassist : S'.assist = S.assist)
    (hsession : S'.session = Function.update S.session fd (some (c, .tcpClient)))
    (hw' : S'.worker = .idle) (fd' : QSock) (c' : ℕ) : S'.Live fd' c' ↔ S.Live fd' c' := by
  have hm : (fd, c) ∈ S.worker.held := by simp only [hw, Doing.held, List.mem_singleton]
  unfold Live
  rw [hassist, hsession, hw']
  constructor
  · rintro (ha | ⟨o, ho⟩ | ⟨t', ht⟩)
    · exact .inl ha
    · cases ho
    · rcases update_some_cases ht with ⟨rfl, he⟩ | ⟨-, ht⟩
      · exact .inr (.inl ⟨.ok, hw.trans (by rw [(Prod.mk.inj he).1])⟩)
      · exact .inr (.inr ⟨t', ht⟩)
  · rintro (ha | ⟨o, ho⟩ | ⟨t', ht⟩)
    · exact .inl ha
    · obtain ⟨rfl, rfl, -⟩ := Doing.assist.inj (hw.symm.trans ho)
      exact .inr (.inr ⟨_, Function.update_self ..⟩)
    · have hne : fd' ≠ fd := by
        rintro rfl
        cases (h.handles.table_eq_none (List.mem_append_left _ hm)).symm.trans ht
      exact .inr (.inr ⟨t', (Function.update_of_ne hne ..).trans ht⟩)

/-- A session that has ended is no longer open. -/
theorem Sound.live_ended (h : S.Sound) {fd : QSock} {c : ℕ} (hw : S.worker = .ending fd c)
    (hassist : S'.assist = S.assist) (hsession : S'.session = Function.update S.session fd none)
    (hw' : S'.worker = .closing fd c) (fd' : QSock) (c' : ℕ) :
    S'.Live fd' c' ↔ S.Live fd' c' ∧ c' ≠ c := by
  have hs := h.ending fd c hw
  have ho := h.handles.table_owner fd c _ hs
  unfold Live
  rw [hassist, hsession, hw', hw]
  constructor
  · rintro (ha | ⟨o, ho'⟩ | ⟨t, ht⟩)
    · refine ⟨.inl ha, ?_⟩
      rintro rfl
      obtain rfl := h.handles.unique fd' fd c' (h.owner_assist ha) ho
      exact h.handles.apart fd' c' _ hs (List.mem_append_right _ (List.mem_append_left _ ha))
    · cases ho'
    · obtain ⟨hne, ht⟩ := update_none_cases ht
      refine ⟨.inr (.inr ⟨t, ht⟩), ?_⟩
      rintro rfl
      exact hne (h.handles.unique fd' fd c' (h.handles.table_owner fd' c' t ht) ho)
  · rintro ⟨ha | ⟨o, ho'⟩ | ⟨t, ht⟩, hc⟩
    · exact .inl ha
    · cases ho'
    · refine .inr (.inr ⟨t, ?_⟩)
      rw [Function.update_of_ne, ht]
      rintro rfl
      exact hc (Prod.mk.inj (Option.some.inj (ht.symm.trans hs))).1

/-- A new entry, which is closed. -/
theorem Recorded.addHost (hR : S.Recorded) (usPort : UInt16) (pszIp pszName : List UInt8) :
    Recorded { S with
      links := S.links ++ [⟨.closed, usPort, invalidSock, pszIp, pszName⟩] } where
  distinct i j l m hi hj hs hv := by
    rcases getElem?_concat_cases hi with hi | rfl
    · rcases getElem?_concat_cases hj with hj | rfl
      · exact hR.distinct i j l m hi hj hs hv
      · exact absurd hs hv
    · exact absurd rfl hv
  calls := hR.calls
  calls_lt := hR.calls_lt
  entry fd c e hl he := by
    obtain ⟨l, hle, hl⟩ := hR.entry fd c e hl he
    refine ⟨l, ?_, hl⟩
    show (S.links ++ _)[e]? = some l
    rw [List.getElem?_append_left (List.getElem?_eq_some_iff.mp hle).1, hle]
  live e l hl hst := by
    rcases getElem?_concat_cases hl with hl | rfl
    · exact hR.live e l hl hst
    · exact absurd rfl hst

/-- A connected entry has a pending connection, and the others have what they had. -/
theorem live_connect {i : ℕ} {l : LinkInfo} {sok : QSock} (fd : QSock) (c : ℕ) :
    (S.connect i l sok).Live fd c ↔ S.Live fd c ∨ (fd = sok ∧ c = S.conns) := by
  simp only [Live, connect, List.mem_append, List.mem_singleton, Prod.mk.injEq]
  tauto

/-- A connected entry gets a socket that no other one records. -/
theorem Recorded.connect (hR : S.Recorded) (h : S.Sound) {i : ℕ} {l : LinkInfo} {sok : QSock}
    (hl : S.links[i]? = some l) (hc : l.emStatus = .closed)
    (hfresh : ∀ m ∈ S.links.eraseIdx i, m.sock ≠ sok) : (S.connect i l sok).Recorded := by
  have hne : ∀ (j : ℕ) (m : LinkInfo), j ≠ i → S.links[j]? = some m → m.sock ≠ sok :=
    fun j m hj hm => hfresh m (List.mem_eraseIdx_iff_getElem?.mpr ⟨j, hj, hm⟩)
  -- an entry that was closed has no connection, so the others are not touched
  have hother : ∀ fd c e, S.Live fd c → S.opened c = some e → e ≠ i := by
    rintro fd c e hlv he rfl
    obtain ⟨l', hl', -, hst⟩ := hR.entry fd c e hlv he
    obtain rfl := Option.some.inj (hl.symm.trans hl')
    exact hst hc
  have hold : ∀ fd c, S.Live fd c → (S.connect i l sok).opened c = S.opened c :=
    fun fd c hlv => h.opened_update (h.owner_live hlv)
  refine ⟨fun a b m m' ha hb hs hv => ?_, fun k hk e he => ?_, fun k hk => ?_,
    fun fd c e hlv he => ?_, fun e m hm hst => ?_⟩
  · rcases getElem?_set_cases ha with ⟨hai, rfl⟩ | ⟨hai, ha'⟩
    · rcases getElem?_set_cases hb with ⟨hbi, -⟩ | ⟨hbi, hb'⟩
      · exact hai.trans hbi.symm
      · exact absurd hs.symm (hne b m' hbi hb')
    · rcases getElem?_set_cases hb with ⟨-, rfl⟩ | ⟨-, hb'⟩
      · exact absurd hs (hne a m hai ha')
      · exact hR.distinct a b m m' ha' hb' hs hv
  · refine hR.calls k hk e ?_
    rwa [← Function.update_of_ne (hR.calls_lt k hk).ne (some i) S.opened]
  · exact (hR.calls_lt k hk).trans (Nat.lt_succ_self _)
  · show ∃ m, (S.links.set i _)[e]? = some m ∧ _
    rcases (live_connect fd c).mp hlv with hlv | ⟨rfl, rfl⟩
    · rw [hold fd c hlv] at he
      rw [List.getElem?_set_ne (hother fd c e hlv he).symm]
      exact hR.entry fd c e hlv he
    · obtain rfl : i = e := by simpa [LinkWorld.connect] using he
      rw [List.getElem?_set_self (List.getElem?_eq_some_iff.mp hl).1]
      exact ⟨_, rfl, rfl, by simp⟩
  · rcases getElem?_set_cases hm with ⟨rfl, -⟩ | ⟨-, hm⟩
    · exact ⟨sok, S.conns, (live_connect _ _).mpr (.inr ⟨rfl, rfl⟩), Function.update_self ..⟩
    · obtain ⟨fd, c, hlv, he⟩ := hR.live e m hm hst
      exact ⟨fd, c, (live_connect fd c).mpr (.inl hlv), (hold fd c hlv).trans he⟩

/-- The report of a set-up that failed keeps every connection recorded. -/
theorem Recorded.failed (hR : S.Recorded) (h : S.Sound) {fd : QSock} {c : ℕ} {o : LinkSetUp}
    (hw : S.worker = .assist fd c o) (hlinks : S'.links = LinkWorld.setStatus S.links fd .closed)
    (hcalls : S'.calls = S.calls ++ [⟨c, fd, find S.links fd⟩])
    (hopened : S'.opened = S.opened) (hconns : S'.conns = S.conns)
    (hassist : S'.assist = S.assist) (hsession : S'.session = S.session)
    (hw' : ∀ fd' c' o', S'.worker ≠ .assist fd' c' o') : S'.Recorded := by
  refine hR.setStatus h (.inr (.inl ⟨o, hw⟩)) (fun hne => absurd rfl hne) hlinks hcalls hopened
    hconns fun fd' c' => ?_
  exact (h.live_failed hw hassist hsession hw' fd' c').trans (by simp)

/-- **A step keeps every connection recorded by its entry.** -/
theorem Recorded.move (hR : S.Recorded) (h : S.Sound) {i : Step} (hu : S.Unrecorded i)
    (m : S.Move i S') : S'.Recorded := by
  cases m with
  | pass p => exact hR.congr rfl rfl rfl le_rfl fun _ _ _ _ => Iff.rfl
  | addHost pszIp usPort pszName hnew =>
    exact hR.addHost usPort pszIp pszName
  | @connect i l sok hp hl hc => exact hR.connect h hl hc (hu i hp l hl hc)
  | accept fd emType => exact hR.congr rfl rfl rfl (Nat.le_succ _) fun _ _ _ _ => Iff.rfl
  | @onMainRead fd conn emType main hw hm =>
    refine hR.congr rfl rfl rfl le_rfl fun fd' c e he => or_congr_right (or_congr_right ?_)
    have hmem : (fd, conn, emType) ∈ S.main := hm ▸ List.mem_cons_self
    constructor
    · rintro ⟨t, ht⟩
      rcases update_some_cases ht with ⟨-, hce⟩ | ⟨-, ht⟩
      · -- an accepted connection was not opened for an entry
        rw [(Prod.mk.inj hce).1] at he
        cases (h.main _ hmem).symm.trans he
      · exact ⟨t, ht⟩
    · rintro ⟨t, ht⟩
      refine ⟨t, (Function.update_of_ne ?_ ..).trans ht⟩
      rintro rfl
      have hheld : (fd', conn) ∈ S.held :=
        List.mem_append_right _ (List.mem_append_right _ (List.mem_map_of_mem hmem))
      cases (h.handles.table_eq_none hheld).symm.trans ht
  | @onAssistRead fd conn assist o hw ha =>
    refine hR.congr rfl rfl rfl le_rfl fun fd' c e _ => ?_
    simp only [Live, ha, hw, List.mem_cons, Prod.mk.injEq, Doing.assist.injEq]
    constructor
    · rintro (hm | ⟨o', rfl, rfl, -⟩ | hs)
      · exact .inl (.inr hm)
      · exact .inl (.inl ⟨rfl, rfl⟩)
      · exact .inr (.inr hs)
    · rintro ((⟨rfl, rfl⟩ | hm) | ⟨o', ho⟩ | hs)
      · exact .inr (.inl ⟨o, rfl, rfl, rfl⟩)
      · exact .inl hm
      · cases ho
      · exact .inr (.inr hs)
  | @ending fd conn hw hs =>
    refine hR.congr rfl rfl rfl le_rfl fun fd' c e _ => ?_
    simp [Live, hw]
  | @close fd conn t hw hs ht =>
    refine hR.congr rfl rfl rfl le_rfl fun fd' c e he => or_congr_right ?_
    simp only [hw, reduceCtorEq, exists_false, false_or]
    constructor
    · rintro ⟨t', ht'⟩
      exact ⟨t', (update_none_cases ht').2⟩
    · rintro ⟨t', ht'⟩
      refine ⟨t', (Function.update_of_ne ?_ ..).trans ht'⟩
      rintro rfl
      -- the session of a link has the type that reports its end
      obtain ⟨rfl, rfl⟩ := Prod.mk.inj (Option.some.inj (ht'.symm.trans hs))
      exact ht (h.client fd' c t' e ht' he)
  | noBuffer hw =>
    exact hR.failed h hw rfl rfl rfl rfl rfl rfl fun _ _ _ hw' => Doing.noConfusion hw'
  | failed hw =>
    exact hR.failed h hw rfl rfl rfl rfl rfl rfl fun _ _ _ hw' => Doing.noConfusion hw'
  | @linked fd conn hw =>
    refine hR.setStatus h (.inr (.inl ⟨_, hw⟩)) (fun _ => h.worker _ _ _ hw) rfl rfl rfl rfl
      fun fd' c' => ?_
    refine (h.live_linked hw ?_ ?_ ?_ fd' c').trans (by simp) <;> rfl
  | @ended fd conn hw =>
    refine hR.setStatus h (.inr (.inr ⟨_, h.ending _ _ hw⟩)) (fun hne => absurd rfl hne)
      rfl rfl rfl rfl fun fd' c' => ?_
    refine (h.live_ended hw ?_ ?_ ?_ fd' c').trans (by simp) <;> rfl
  | @free fd conn hw =>
    refine hR.congr rfl rfl rfl le_rfl fun fd' c e _ => ?_
    simp [Live, hw]

/-- **The status of a link reaches the right peer, in every run in which no entry gets a
socket that another one still records.** -/
theorem rightPeer_of_unrecorded
    (h : Reach step (fun S i => S.Enabled i ∧ S.Unrecorded i) start S) : S.RightPeer := by
  have hinv : S.Sound ∧ S.Recorded := by
    refine h.invariant (fun S => S.Sound ∧ S.Recorded) ⟨.start, ?_⟩ fun S i hS hi => ?_
    · refine ⟨fun i j l m hl => ?_, fun k hk => ?_, fun k hk => ?_, fun fd c e _ he => ?_,
        fun e l hl => ?_⟩
      · exact absurd (List.mem_of_getElem? hl) List.not_mem_nil
      · exact absurd hk List.not_mem_nil
      · exact absurd hk List.not_mem_nil
      · cases he
      · exact absurd (List.mem_of_getElem? hl) List.not_mem_nil
    · exact ⟨hS.1.step hi.1, hS.2.move hS.1 hi.2 (S.move_step i)⟩
  exact hinv.2.rightPeer

/-- **The condition is needed.** An entry that gets a socket which another one still records
is not the only one with this socket. -/
theorem not_rightPeer_of_recorded {i : Step} (hi : S.Enabled i) (hu : ¬ S.Unrecorded i) :
    ¬ (S.step i).RightPeer := by
  intro hright
  match i with
  | .visit (some (sok, true)) =>
    simp only [Unrecorded, not_forall, not_not] at hu
    obtain ⟨k, hp, l, hl, hc, m, hm, hs⟩ := hu
    obtain ⟨j, hj, hjm⟩ := List.mem_eraseIdx_iff_getElem?.mp hm
    have hlinks : (S.step (.visit (some (sok, true)))).links
        = S.links.set k { l with emStatus := .connect, sock := sok } := by
      have hp : S.pass = some k := hp
      have hl : S.links[k]? = some l := hl
      simp [step, visit, connect, hp, hl, hc]
    have hk : (S.links.set k { l with emStatus := .connect, sock := sok })[k]?
        = some { l with emStatus := .connect, sock := sok } :=
      List.getElem?_set_self (List.getElem?_eq_some_iff.mp hl).1
    have hj' : (S.links.set k { l with emStatus := .connect, sock := sok })[j]? = some m := by
      rw [List.getElem?_set_ne hj.symm, hjm]
    rw [← hlinks] at hk hj'
    exact hj (hright.distinct k j _ m hk hj' hs.symm hi.1).symm
  | .visit (some (_, false)) | .visit none | .addHost .. | .lock | .unlock | .accept ..
  | .onMainRead | .onAssistRead _ | .close _ | .report | .free => exact hu trivial

/-- The link of a host ends and is made again on the same socket. -/
theorem rightPeer_relink :
    let S := [Step.addHost [] 1 [65], .addHost [] 2 [66], .lock, .visit (some (5, true)),
      .visit none, .unlock, .onAssistRead .ok, .report, .close 5, .report, .free, .lock,
      .visit (some (5, true)), .visit (some (6, true)), .unlock, .onAssistRead .ok,
      .report].foldl step start
    S.links.map (fun l => (l.sock, l.emStatus)) = [(5, .linked), (6, .connect)]
      ∧ S.RightPeer := by
  intro S
  have hrun : Reach step (fun S i => S.Enabled i ∧ S.Unrecorded i) start S :=
    Reach.start.of_list _ (by decide +kernel)
  exact ⟨by decide +kernel, rightPeer_of_unrecorded hrun⟩

/-- **The status of a link can reach another peer.** The link of the first host ends, and
its socket goes to the link of the second one, whose success is then noted for
the first. -/
theorem linkStatus_wrong :
    let S := [Step.addHost [] 1 [65], .addHost [] 2 [66], .lock, .visit (some (5, true)),
      .visit none, .unlock, .onAssistRead .ok, .report, .close 5, .report, .free, .lock,
      .visit none, .visit (some (5, true)), .unlock, .onAssistRead .ok,
      .report].foldl step start
    Reach step Enabled start S
      ∧ S.links.map (fun l => (l.sock, l.emStatus)) = [(5, .linked), (5, .connect)]
      ∧ S.opened 1 = some 1 ∧ S.calls.getLast? = some ⟨1, 5, some 0⟩ ∧ ¬ S.RightPeer := by
  intro S
  have hopened : S.opened 1 = some 1 := by decide +kernel
  have hcall : S.calls.getLast? = some ⟨1, 5, some 0⟩ := by decide +kernel
  refine ⟨Reach.start.of_list _ (by decide +kernel), by decide +kernel, hopened, hcall,
    fun h => ?_⟩
  have hchanged := h.calls _ (List.mem_of_getLast? hcall) 1 hopened
  exact absurd hchanged (by decide)

end LinkWorld
