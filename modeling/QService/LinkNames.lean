import QService.LinkOther

/-!
# What is sent to a name

The socket of a name is the one that its entry records. As it stays there when
the connection ends, it can belong to somebody else by the time something is
sent, who then gets it (`sendToName_stranger`). In every run in which no
socket is closed while its entry records it, a name reaches its server or
nobody (`byName_of_forgotten`), and only in these (`not_byName_of_recorded`).
-/

namespace LinkWorld

variable {S S' : LinkWorld}

/-- **A name reaches its server or nobody**: the socket of a name is invalid or that of
an open connection that was made to the host of the name, and what is sent to
a name is written to such a connection only. -/
structure ByName (S : LinkWorld) : Prop where
  sock : ∀ name, S.getSockByName name = invalidSock
    ∨ ∃ (c e : ℕ) (l : LinkInfo), S.owner (S.getSockByName name) = some c ∧ S.opened c = some e
      ∧ S.links[e]? = some l ∧ l.strName = name
  sent : ∀ name c, S.sendToName name = some c →
    ∃ (e : ℕ) (l : LinkInfo), S.opened c = some e ∧ S.links[e]? = some l ∧ l.strName = name

/-- No socket is closed while the entry that it was opened for still records it. -/
def Forgotten (S : LinkWorld) : Step → Prop
  | .free => ∀ p ∈ S.worker.closes, ∀ e ∈ S.opened p.2, ∀ l ∈ S.links[e]?, l.sock ≠ p.1
  | _ => True

instance (S : LinkWorld) : DecidablePred S.Forgotten
  | .free => inferInstanceAs (Decidable (∀ p ∈ S.worker.closes, ∀ e ∈ S.opened p.2,
      ∀ l ∈ S.links[e]?, l.sock ≠ p.1))
  | .addHost .. | .lock | .visit _ | .unlock | .accept .. | .onMainRead | .onAssistRead _
  | .close _ | .report => .isTrue trivial

/-- A recorded socket is that of an open connection, which was made for the entry. -/
def Named (S : LinkWorld) : Prop :=
  ∀ (e : ℕ) (l : LinkInfo), S.links[e]? = some l → l.sock ≠ invalidSock →
    ∃ c, S.owner l.sock = some c ∧ S.opened c = some e

/-- A report leaves the recorded sockets as they are. -/
theorem Named.setStatus (hn : S.Named) {fd : QSock} {st : SessionStatus}
    (hlinks : S'.links = setStatus S.links fd st) (howner : S'.owner = S.owner)
    (hopened : S'.opened = S.opened) : S'.Named := by
  intro e l hl hv
  rw [hlinks] at hl
  obtain ⟨l₀, hl₀, hs, -⟩ := of_getElem?_setStatus hl
  rw [hs] at hv ⊢
  rw [howner, hopened]
  exact hn e l₀ hl₀ hv

/-- **A step keeps the recorded sockets those of open connections.** -/
theorem Named.move (hn : S.Named) (h : S.Sound) {i : Step} (hi : S.Enabled i)
    (hf : S.Forgotten i) (m : S.Move i S') : S'.Named := by
  cases m with
  | pass p => exact hn
  | addHost pszIp usPort pszName hnew =>
    intro e l hl hv
    rcases getElem?_concat_cases hl with hl | rfl
    · exact hn e l hl hv
    · exact absurd rfl hv
  | @connect i l sok hp hl hc =>
    intro e l' hl' hv
    rcases getElem?_set_cases hl' with ⟨rfl, rfl⟩ | ⟨hne, hl'⟩
    · exact ⟨S.conns, Function.update_self .., Function.update_self ..⟩
    · obtain ⟨c, ho, he⟩ := hn e l' hl' hv
      exact ⟨c, owner_update hi.2 ho, (h.opened_update ho).trans he⟩
  | accept fd emType =>
    intro e l hl hv
    obtain ⟨c, ho, he⟩ := hn e l hl hv
    exact ⟨c, owner_update hi.2 ho, he⟩
  | onMainRead hw hm => exact hn
  | onAssistRead o hw ha => exact hn
  | ending hw hs => exact hn
  | close hw hs ht => exact hn
  | noBuffer hw => exact hn.setStatus rfl rfl rfl
  | failed hw => exact hn.setStatus rfl rfl rfl
  | linked hw => exact hn.setStatus rfl rfl rfl
  | ended hw => exact hn.setStatus rfl rfl rfl
  | @free fd conn hw =>
    intro e l hl hv
    obtain ⟨c, ho, he⟩ := hn e l hl hv
    refine ⟨c, ?_, he⟩
    show Function.update S.owner fd none l.sock = some c
    rw [Function.update_of_ne, ho]
    -- a closed socket was the connection's own, and its entry has another one
    rintro rfl
    have hm : (l.sock, conn) ∈ S.worker.held := by simp only [hw, Doing.held, List.mem_singleton]
    obtain rfl := Option.some.inj ((h.owner_worker hm).symm.trans ho)
    exact hf (l.sock, conn) (by rw [hw]; rfl) e he l hl rfl

/-- **A name reaches its server or nobody** while the recorded sockets are those of open
connections. -/
theorem Named.byName (hn : S.Named) (h : S.Sound) : S.ByName := by
  have hsock : ∀ name, S.getSockByName name = invalidSock
      ∨ ∃ (c e : ℕ) (l : LinkInfo), S.owner (S.getSockByName name) = some c
        ∧ S.opened c = some e ∧ S.links[e]? = some l ∧ l.strName = name := by
    intro name
    unfold getSockByName
    cases hf : S.links.find? fun l => l.strName = name with
    | none => exact .inl rfl
    | some l =>
      rcases eq_or_ne l.sock invalidSock with hv | hv
      · exact .inl hv
      · obtain ⟨e, he⟩ := List.getElem?_of_mem (List.mem_of_find?_eq_some hf)
        obtain ⟨c, ho, hc⟩ := hn e l he hv
        have hname : l.strName = name := by simpa using List.find?_some hf
        exact .inr ⟨c, e, l, ho, hc, he, hname⟩
  refine ⟨hsock, fun name c hs => ?_⟩
  -- what is written to is the session of the socket, so of the connection that has it
  unfold sendToName at hs
  split_ifs at hs with hv
  obtain ⟨⟨c', t⟩, ht, rfl⟩ := Option.map_eq_some_iff.mp hs
  obtain ⟨c'', e, l, ho, he, hl⟩ := (hsock name).resolve_left hv
  obtain rfl := Option.some.inj ((h.handles.table_owner _ c' t ht).symm.trans ho)
  exact ⟨e, l, he, hl⟩

/-- **What is sent to a name reaches its server or nobody, in every run in which no socket
is closed while its entry records it.** -/
theorem byName_of_forgotten (h : Reach step (fun S i => S.Enabled i ∧ S.Forgotten i) start S) :
    S.ByName := by
  have hinv : S.Sound ∧ S.Named := by
    refine h.invariant (fun S => S.Sound ∧ S.Named) ⟨.start, fun e l hl => ?_⟩ fun S i hS hi => ?_
    · exact absurd (List.mem_of_getElem? hl) List.not_mem_nil
    · exact ⟨hS.1.step hi.1, hS.2.move hS.1 hi.1 hi.2 (S.move_step i)⟩
  exact hinv.2.byName hinv.1

/-- The link of a host ends and is made again before its socket is closed. A client then
gets the old socket, and what is sent to the host goes to the new one. -/
theorem byName_relink :
    let S := [Step.addHost [] 1 [65], .lock, .visit (some (5, true)), .unlock,
      .onAssistRead .ok, .report, .close 5, .report, .lock, .visit (some (6, true)), .unlock,
      .free, .accept 5 .tcp, .onMainRead, .onAssistRead .ok, .report].foldl step start
    S.session 5 = some (2, .tcp) ∧ S.sendToName [65] = some 1 ∧ S.ByName := by
  intro S
  have hrun : Reach step (fun S i => S.Enabled i ∧ S.Forgotten i) start S :=
    Reach.start.of_list _ (by decide +kernel)
  exact ⟨by decide +kernel, by decide +kernel, byName_of_forgotten hrun⟩

/-- The entries have different names. -/
def Distinct (S : LinkWorld) : Prop := (S.links.map LinkInfo.strName).Nodup

theorem map_strName_setStatus (links : List LinkInfo) (sock : QSock) (st : SessionStatus) :
    (setStatus links sock st).map LinkInfo.strName = links.map LinkInfo.strName := by
  ext1 e
  rw [List.getElem?_map, List.getElem?_map, getElem?_setStatus, Option.map_map]
  refine Option.map_congr fun l _ => ?_
  show (if _ then _ else _ : LinkInfo).strName = _
  split_ifs <;> rfl

/-- `addHost` refuses a name that is there. -/
theorem Distinct.move (hd : S.Distinct) {i : Step} (m : S.Move i S') : S'.Distinct := by
  unfold Distinct at hd ⊢
  cases m with
  | pass p => exact hd
  | addHost pszIp usPort pszName hnew =>
    rw [List.map_append, List.nodup_append]
    refine ⟨hd, List.nodup_singleton _, fun a ha b hb => ?_⟩
    obtain ⟨l, hl, rfl⟩ := List.mem_map.mp ha
    rw [List.mem_singleton.mp hb]
    exact hnew l hl
  | @connect i l sok hp hl hc =>
    have hset : (S.links.set i { l with emStatus := .connect, sock := sok }).map
        LinkInfo.strName = S.links.map LinkInfo.strName := by
      obtain ⟨hi, rfl⟩ := List.getElem?_eq_some_iff.mp hl
      rw [List.map_set]
      have hi' : i < (S.links.map LinkInfo.strName).length := by rwa [List.length_map]
      show (S.links.map LinkInfo.strName).set i S.links[i].strName = _
      rw [← List.getElem_map LinkInfo.strName (h := hi'), List.set_getElem_self]
    exact hset.symm ▸ hd
  | accept fd emType => exact hd
  | onMainRead hw hm => exact hd
  | onAssistRead o hw ha => exact hd
  | ending hw hs => exact hd
  | close hw hs ht => exact hd
  | @noBuffer fd conn hw => exact (map_strName_setStatus S.links fd .closed).symm ▸ hd
  | @failed fd conn hw => exact (map_strName_setStatus S.links fd .closed).symm ▸ hd
  | @linked fd conn hw => exact (map_strName_setStatus S.links fd .linked).symm ▸ hd
  | @ended fd conn hw => exact (map_strName_setStatus S.links fd .closed).symm ▸ hd
  | free hw => exact hd

/-- A name finds the socket of its own entry. -/
theorem Distinct.getSockByName (hd : S.Distinct) {l : LinkInfo} (hl : l ∈ S.links) :
    S.getSockByName l.strName = l.sock := by
  unfold LinkWorld.getSockByName
  cases hf : S.links.find? fun m => m.strName = l.strName with
  | none => simpa using List.find?_eq_none.mp hf l hl
  | some m =>
    have hname : m.strName = l.strName := by simpa using List.find?_some hf
    have hm : m = l := List.inj_on_of_nodup_map hd (List.mem_of_find?_eq_some hf) hl hname
    rw [hm]

theorem Distinct.of_reach (h : Reach step Enabled start S) : S.Distinct :=
  h.invariant Distinct (show start.Distinct from List.nodup_nil) fun S i hS _ =>
    hS.move (S.move_step i)

/-- **The condition is needed.** When a socket is closed that its entry still records, the
name of the entry finds a socket that nobody has. -/
theorem not_byName_of_recorded (hr : Reach step Enabled start S) {i : Step}
    (hf : ¬ S.Forgotten i) : ¬ (S.step i).ByName := by
  have h : S.Sound := .of_reach hr
  have hd : S.Distinct := .of_reach hr
  intro hbn
  cases i with
  | free =>
    simp only [Forgotten, not_forall, not_not] at hf
    obtain ⟨⟨fd, conn⟩, hw, e, -, l, hl, hs⟩ := hf
    have hworker : S.worker = .closing fd conn := by
      cases hdo : S.worker <;> rw [hdo] at hw <;> cases hw
      rfl
    have hmem : (fd, conn) ∈ S.worker.held := by
      simp only [hworker, Doing.held, List.mem_singleton]
    have howner : (S.step .free).owner = Function.update S.owner fd none := by
      simp only [step, free, hworker]
    have hsock : (S.step .free).getSockByName l.strName = fd := by
      have hlinks : (S.step .free).links = S.links := by simp only [step, free, hworker]
      have hmem' : l ∈ (S.step .free).links := hlinks ▸ List.mem_of_getElem? hl
      rw [(hd.move (S.move_step .free)).getSockByName hmem', hs]
    rcases hbn.sock l.strName with hv | ⟨c, e', l', ho, -⟩
    · exact h.valid fd conn (h.owner_worker hmem) (hsock.symm.trans hv)
    · rw [hsock, howner, Function.update_self] at ho
      cases ho
  | _ => exact hf trivial

/-- **What is sent to a name can reach a stranger.** The link of a host ends, and its
socket goes to a client. -/
theorem sendToName_stranger :
    let S := [Step.addHost [] 1 [65], .lock, .visit (some (5, true)), .unlock,
      .onAssistRead .ok, .report, .close 5, .report, .free, .accept 5 .tcp,
      .onMainRead].foldl step start
    Reach step Enabled start S ∧ S.getSockByName [65] = 5 ∧ S.sendToName [65] = some 1
      ∧ S.opened 1 = none ∧ ¬ S.ByName := by
  intro S
  have hsent : S.sendToName [65] = some 1 := by decide +kernel
  have hopened : S.opened 1 = none := by decide +kernel
  refine ⟨Reach.start.of_list _ (by decide +kernel), by decide +kernel, hsent, hopened,
    fun h => ?_⟩
  obtain ⟨e, l, he, -⟩ := h.sent _ _ hsent
  cases hopened.symm.trans he

end LinkWorld
